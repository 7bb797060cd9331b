import Foretoken.RequestLedger.Effect

/-!
The accounting of the ledger: every capacity counter is the sum of what the slots of all records
are charged.
-/

namespace Foretoken.RequestLedger

open List Option Request Slot

variable {request : Request} {m m' : Finmap fun _ : Field => ℤ} {caller id : String}
  {wait active : ℤ} {name : Field} {s s' : Ledger}

open FiniteMap

/-! ### What a record is charged -/

/-- The waiting units of a batch. -/
def waitUnits (slots : List Slot) : ℤ := (slots.map Slot.waitUnits).sum

/-- The active units of a batch. -/
def activeUnits (slots : List Slot) : ℤ := (slots.map Slot.activeUnits).sum

/-- What a charge of a caller adds to a numeric field. -/
def delta (caller : String) (wait active : ℤ) : Field → ℤ
  | .waiting => wait
  | .active => active
  | .w c => if c = caller then wait else 0
  | .a c => if c = caller then active else 0
  | _ => 0

/-- What a record adds to a numeric field. -/
def Request.units (name : Field) (request : Request) : ℤ :=
  delta request.caller (waitUnits request.slots) (activeUnits request.slots) name

lemma delta_add (caller : String) (wait active wait' active' : ℤ) (name : Field) :
    delta caller wait active name + delta caller wait' active' name
      = delta caller (wait + wait') (active + active') name := by
  cases name <;> grind [delta]

lemma delta_zero (caller : String) (name : Field) : delta caller 0 0 name = 0 := by
  cases name <;> simp [delta]

lemma sum_indicator {g : Slot → ℤ} {test : Slot → Bool}
    (h : ∀ slot, g slot = if test slot then 1 else 0) (ss : List Slot) :
    (ss.map g).sum = ss.countP test := by
  induction ss with
  | nil => rfl
  | cons slot rest ih =>
    rw [map_cons, sum_cons, ih, h slot, countP_cons]
    split <;> simp [add_comm]

/-- The waiting and the reserved slots. -/
def Slot.isWaiting (slot : Slot) : Bool := slot.state = .waiting ∨ slot.state = .reserved

/-- The slots charged to concurrency. -/
def Slot.isActive (slot : Slot) : Bool :=
  slot.state = .reserved ∨ slot.state = .accepted ∨ slot.state = .handoff
    ∨ slot.state = .cancelling

lemma waitUnits_eq (ss : List Slot) : waitUnits ss = ss.countP Slot.isWaiting :=
  sum_indicator (fun slot => by simp [Slot.waitUnits, Slot.isWaiting]) ss

lemma activeUnits_eq (ss : List Slot) : activeUnits ss = ss.countP Slot.isActive := by
  refine sum_indicator (fun slot => ?_) ss
  cases h : slot.state <;> simp [Slot.activeUnits, Slot.isActive, h]

lemma openUnits_eq (ss : List Slot) :
    openUnits ss = ss.countP fun slot => slot.state ≠ .completed :=
  sum_indicator (fun slot => by simp [Slot.openUnits]) ss

lemma waitUnits_nonneg (slots : List Slot) : 0 ≤ waitUnits slots :=
  waitUnits_eq slots ▸ Int.natCast_nonneg _

lemma activeUnits_nonneg (slots : List Slot) : 0 ≤ activeUnits slots :=
  activeUnits_eq slots ▸ Int.natCast_nonneg _

lemma Request.units_nonneg (name : Field) (request : Request) : 0 ≤ request.units name := by
  have hw := waitUnits_nonneg request.slots
  have ha := activeUnits_nonneg request.slots
  cases name <;> grind [units, delta]

lemma openUnits_eq_zero {ss : List Slot} :
    openUnits ss = 0 ↔ ∀ slot ∈ ss, slot.state = .completed := by
  rw [openUnits_eq]
  simp

lemma units_of_completed (h : ∀ slot ∈ request.slots, slot.state = .completed) (name : Field) :
    request.units name = 0 := by
  have hwait : waitUnits request.slots = 0 := by
    rw [waitUnits_eq, Int.natCast_eq_zero, countP_eq_zero]
    exact fun slot hslot => by simp [isWaiting, h slot hslot]
  have hactive : activeUnits request.slots = 0 := by
    rw [activeUnits_eq, Int.natCast_eq_zero, countP_eq_zero]
    exact fun slot hslot => by simp [isActive, h slot hslot]
  rw [units, hwait, hactive, delta_zero]

/-! ### Moves of the counters -/

/-- The sum of the `a:` counters. -/
def activeTotal (counts : Finmap fun _ : Field => ℤ) : ℤ :=
  total counts fun name value => match name with | .a _ => value | _ => 0

/-- The capacity counters moved by a charge, and the epochs did not go down. -/
structure Moved (m m' : Finmap fun _ : Field => ℤ) (caller : String) (wait active : ℤ) :
    Prop where
  read_eq : ∀ name : Field, name.isCounter →
    read m' name = read m name + delta caller wait active name
  epochs : ∀ name : Field, ¬ name.isCounter → read m name ≤ read m' name
  noZero : (∀ name, 0 ≤ read m name) → NoZero m → NoZero m'
  total_eq : activeTotal m' = activeTotal m + active

section

variable (m : Finmap fun _ : Field => ℤ)

lemma Moved.refl (caller : String) : Moved m m caller 0 0 where
  read_eq name _ := by rw [delta_zero, add_zero]
  epochs _ _ := le_rfl
  noZero _ := id
  total_eq := (add_zero _).symm

lemma activeTotal_bump (name : Field) (n : ℤ) :
    activeTotal (bump m name n)
      = activeTotal m + match name with | .a _ => n | _ => 0 := by
  refine total_bump m name n _ (fun x => ?_) (fun x a b => ?_) <;> cases x <;> rfl

lemma moved_charge (caller : String) (wait active : ℤ) :
    Moved m (charge m caller wait active) caller wait active where
  read_eq name _ := by
    simp only [charge, moveCounts, read_bump]
    cases name <;> simp [delta]
  epochs name h := (read_charge_epoch m caller wait active h).ge
  noZero _ hm := by
    exact noZero_bump _ _ (noZero_bump _ _ (noZero_bump _ _ (noZero_bump _ _ hm)))
  total_eq := by
    simp only [charge, moveCounts, activeTotal_bump]
    omega

end

section

variable (h : Moved m m' caller wait active)
include h

/-- A charge adds up while the counters stay positive. -/
lemma Moved.charge (wait' active' : ℤ) :
    Moved m (charge m' caller wait' active') caller (wait + wait') (active + active') where
  read_eq name hname := by
    rw [(moved_charge m' caller wait' active').read_eq name hname, h.read_eq name hname, add_assoc,
      delta_add]
  epochs name hname :=
    (h.epochs name hname).trans ((moved_charge m' caller wait' active').epochs name hname)
  noZero hpos hm := by
    have hm' := h.noZero hpos hm
    exact noZero_bump _ _ (noZero_bump _ _ (noZero_bump _ _ (noZero_bump _ _ hm')))
  total_eq := by rw [(moved_charge m' caller wait' active').total_eq, h.total_eq, add_assoc]

lemma Moved.insert {va : ℤ} (hname : ¬ name.isCounter) (hvalue : read m' name < va)
    (hpos : 0 ≤ read m name) :
    Moved m (m'.insert name va) caller wait active where
  read_eq x hx := by
    have hne : x ≠ name := fun he => hname (he ▸ hx)
    rw [read_insert, if_neg hne, h.read_eq x hx]
  epochs x hx := by
    have hle := h.epochs x hx
    rw [read_insert]
    split_ifs with he
    · subst he; omega
    · exact hle
  noZero hall hm x hx := by
    rw [lookup_insert_eq] at hx
    split_ifs at hx with he
    · have hle := h.epochs name hname
      have := some.inj hx
      omega
    · exact h.noZero hall hm x hx
  total_eq := by
    rw [← h.total_eq]
    have hweight : ∀ v : ℤ, (match name with | .a _ => v | _ => 0) = 0 := by
      cases name <;> simp [Field.isCounter] at hname ⊢
    cases hk : m'.lookup name with
    | none =>
      rw [activeTotal, total_insert_new _ _ hk, hweight, zero_add]
      rfl
    | some v =>
      have hsplit := total_replace va
        (fun name v => match name with | .a _ => v | _ => (0 : ℤ)) hk
      simp only [hweight, add_zero] at hsplit
      exact hsplit

lemma Moved.charges {f : Slot → Slot} (ss : List Slot) :
    Moved m (charges f caller m' ss) caller (wait + (waitUnits (ss.map f) - waitUnits ss))
      (active + (activeUnits (ss.map f) - activeUnits ss)) := by
  induction ss generalizing m' wait active with
  | nil => simpa [RequestLedger.charges] using h
  | cons slot rest ih =>
    have hslot := h.charge ((f slot).waitUnits - slot.waitUnits)
      ((f slot).activeUnits - slot.activeUnits)
    have hrest := ih hslot
    have hw : wait + (waitUnits ((slot :: rest).map f) - waitUnits (slot :: rest))
        = wait + ((f slot).waitUnits - slot.waitUnits)
          + (waitUnits (rest.map f) - waitUnits rest) := by
      simp only [waitUnits, map_cons, sum_cons]
      ring
    have ha : active + (activeUnits ((slot :: rest).map f) - activeUnits (slot :: rest))
        = active + ((f slot).activeUnits - slot.activeUnits)
          + (activeUnits (rest.map f) - activeUnits rest) := by
      simp only [activeUnits, map_cons, sum_cons]
      ring
    rwa [hw, ha]

end

/-- A slot loop moves the counters by the difference. -/
lemma moved_charges (f : Slot → Slot) (caller : String) (m : Finmap fun _ : Field => ℤ)
    (ss : List Slot) :
    Moved m (charges f caller m ss) caller (waitUnits (ss.map f) - waitUnits ss)
      (activeUnits (ss.map f) - activeUnits ss) := by
  have h := (Moved.refl m caller).charges ss (f := f)
  rwa [zero_add, zero_add] at h

/-! ### The invariant -/

/-- The accounting invariant. -/
structure Accounted (s : Ledger) : Prop where
  counts : ∀ name : Field, name.isCounter →
    count s name = total s.records fun _ request => request.units name
  noZero : NoZero s.counts
  active : count s .active = activeTotal s.counts
  remaining : ∀ id request, s.records.lookup id = some request →
    request.remaining = openUnits request.slots
  epochs : ∀ name : Field, ¬ name.isCounter → 0 ≤ count s name

lemma Accounted.count_nonneg (h : Accounted s) (name : Field) : 0 ≤ count s name := by
  by_cases hname : name.isCounter
  · rw [h.counts name hname]
    exact total_nonneg fun _ request => request.units_nonneg name
  · exact h.epochs name hname

lemma accounted_empty : Accounted .empty where
  counts _ _ := (total_empty _).symm
  noZero := noZero_empty
  active := (total_empty _).symm
  remaining id request h := by
    cases h
  epochs _ _ := le_rfl

lemma Request.kept_eq_some {r : Request} (h : request.kept = some r) : r = request := by
  rw [kept] at h
  split at h
  · cases h
  · exact (some.inj h).symm

lemma total_putRecord {rs : Finmap fun _ : String => Request} (request' : Request)
    {w : Request → ℤ} (h : rs.lookup id = some request)
    (hw : request'.kept = none → w request' = 0) :
    total (putRecord rs id request'.kept) (fun _ r => w r)
      = total rs (fun _ r => w r) + (w request' - w request) := by
  cases hk : request'.kept with
  | none =>
    have hsplit := total_erase (fun _ r => w r) h
    have hzero := hw hk
    simp only [putRecord]
    omega
  | some r =>
    have hsplit := total_replace request' (fun _ r => w r) h
    simp only [putRecord, kept_eq_some hk]
    omega

lemma Request.remaining_of_kept_none (h : request.kept = none) : request.remaining = 0 := by
  rw [kept] at h
  split at h
  · rename_i hzero
    exact hzero.1
  · cases h

lemma units_of_kept_none (hrem : request.remaining = openUnits request.slots)
    (hk : request.kept = none) (name : Field) : request.units name = 0 := by
  have hopen := remaining_of_kept_none hk
  rw [hrem] at hopen
  exact units_of_completed (openUnits_eq_zero.mp hopen) name

section

variable (h : Accounted s)
include h

/-- The counters moved and the records changed by the same total. -/
lemma Accounted.step (hm : Moved s.counts s'.counts caller wait active)
    (htotal : ∀ name : Field, total s'.records (fun _ request => request.units name) =
      total s.records (fun _ request => request.units name) + delta caller wait active name)
    (hrem : ∀ id request, s'.records.lookup id = some request →
      request.remaining = openUnits request.slots) : Accounted s' where
  counts name hname := by
    have hread := hm.read_eq name hname
    have hcount := h.counts name hname
    rw [count] at hcount ⊢
    rw [htotal, hread, hcount]
  noZero := hm.noZero h.count_nonneg h.noZero
  active := by
    have hread := hm.read_eq .active rfl
    have hactive := h.active
    rw [count] at hactive ⊢
    rw [hread, hactive, hm.total_eq]
    rfl
  remaining := hrem
  epochs name hname := (h.epochs name hname).trans (hm.epochs name hname)

/-- **A record is rewritten**: if the counters move by the difference of what it is
charged, the invariant is kept. -/
theorem Accounted.rewrite (request' : Request) (hr : s.records.lookup id = some request)
    (hcaller : request'.caller = request.caller)
    (hrem : request'.remaining = openUnits request'.slots)
    (hm : Moved s.counts m request.caller (waitUnits request'.slots - waitUnits request.slots)
      (activeUnits request'.slots - activeUnits request.slots)) :
    Accounted (save { s with counts := m } id request') := by
  refine h.step hm (fun name => ?_) (fun x r hx => ?_)
  · have hdiff : delta request.caller (waitUnits request'.slots - waitUnits request.slots)
        (activeUnits request'.slots - activeUnits request.slots) name
          = request'.units name - request.units name := by
      rw [units, units, hcaller, eq_sub_iff_add_eq, delta_add]
      simp
    rw [hdiff]
    exact total_putRecord request' hr fun hk => units_of_kept_none hrem hk name
  · rw [save, lookup_putRecord] at hx
    split_ifs at hx with he
    · rw [kept_eq_some hx, hrem]
    · exact h.remaining x r hx

/-- **A record is created**: the counters move by what it is charged. -/
theorem Accounted.create (request : Request) (hr : s.records.lookup id = none)
    (hrem : request.remaining = openUnits request.slots)
    (hm : Moved s.counts m request.caller (waitUnits request.slots) (activeUnits request.slots)) :
    Accounted (save { s with counts := m } id request) := by
  refine h.step hm (fun name => ?_) (fun x r hx => ?_)
  · cases hk : request.kept with
    | none =>
      have hzero := units_of_kept_none hrem hk name
      rw [units] at hzero
      simp only [save, hk, putRecord, erase_eq_self hr]
      omega
    | some =>
      have hr' := kept_eq_some hk
      subst hr'
      simp only [save, hk, putRecord]
      rw [total_insert_new _ _ hr, add_comm]
      rfl
  · rw [save, lookup_putRecord] at hx
    split_ifs at hx with he
    · rw [kept_eq_some hx, hrem]
    · exact h.remaining x r hx

/-- The invariant reads the counters and the records only. -/
lemma Accounted.congr (hcounts : s'.counts = s.counts) (hrecs : s'.records = s.records) :
    Accounted s' := by
  have hm : Moved s.counts s'.counts "" 0 0 := by
    rw [hcounts]
    exact Moved.refl _ _
  refine h.step hm (fun name => ?_) ?_
  · rw [hrecs, delta_zero, add_zero]
  · rw [hrecs]
    exact h.remaining

lemma Accounted.setCount {v : ℤ} (hname : ¬ name.isCounter) (hvalue : count s name < v) :
    Accounted (setCount s name v) := by
  have hm := (Moved.refl s.counts "").insert hname hvalue (h.epochs name hname)
  refine h.step hm (fun x => ?_) h.remaining
  rw [delta_zero, add_zero]
  rfl

lemma Accounted.eraseEpoch (hname : ¬ name.isCounter) :
    Accounted { s with counts := s.counts.erase name } where
  counts x hx := by
    have hne : x ≠ name := fun he => hname (he ▸ hx)
    have hcount := h.counts x hx
    rw [count] at hcount ⊢
    rw [read_erase, if_neg hne, hcount]
  noZero x hx := by
    rw [lookup_erase_eq] at hx
    split_ifs at hx
    exact h.noZero x hx
  active := by
    have hne : Field.active ≠ name := fun he => hname (he ▸ rfl)
    have hactive := h.active
    rw [count] at hactive ⊢
    rw [read_erase, if_neg hne, hactive]
    cases hk : s.counts.lookup name with
    | none => rw [erase_eq_self hk]
    | some v =>
      have hweight : (match name with | .a _ => v | _ => 0) = 0 := by
        cases name <;> simp [Field.isCounter] at hname ⊢
      rw [activeTotal, total_erase _ hk, hweight, zero_add]
      rfl
  remaining := h.remaining
  epochs x hx := by
    have hpos := h.epochs x hx
    rw [count] at hpos ⊢
    rw [read_erase]
    split_ifs
    · exact le_rfl
    · exact hpos

end

/-! ### The loops -/

/-- A plan that rewrites a record slot by slot. -/
def MapsSlots (plan : Request → Option ((Slot → Slot) × Request)) : Prop :=
  ∀ request f request', plan request = some (f, request') →
    request'.caller = request.caller ∧ request'.slots = request.slots.map f
      ∧ request'.remaining
        = request.remaining + (openUnits (request.slots.map f) - openUnits request.slots)

lemma mapsSlots_retirePlan (keep : Request → Bool) : MapsSlots (retirePlan keep) := by
  intro request f request' h
  rw [retirePlan] at h
  split_ifs at h
  obtain ⟨rfl, rfl⟩ := Prod.mk.inj (some.inj h)
  exact ⟨rfl, rfl, rfl⟩

lemma mapsSlots_terminatePlan (t : Slot → Bool) :
    MapsSlots (terminatePlan t) := by
  intro request f request' h
  rw [terminatePlan] at h
  split_ifs at h
  obtain ⟨rfl, rfl⟩ := Prod.mk.inj (some.inj h)
  exact ⟨rfl, rfl, rfl⟩

lemma Accounted.rewriteAll {plan : Request → Option ((Slot → Slot) × Request)}
    (hplan : MapsSlots plan) (h : Accounted s) : Accounted (rewriteAll plan s) := by
  refine rewriteAll_preserves (fun s id hs => ?_) h
  rw [rewriteField]
  split
  · exact hs
  · rename_i request f request' hp
    obtain ⟨r, hr, hmap⟩ := bind_eq_some_iff.mp hp
    obtain ⟨p, hp', hpair⟩ := map_eq_some_iff.mp hmap
    obtain ⟨rfl, rfl⟩ := Prod.mk.inj hpair
    obtain ⟨hcaller, hslots, hrem⟩ := hplan _ _ _ hp'
    have hbefore := hs.remaining id r hr
    refine hs.rewrite request' hr hcaller ?_ ?_
    · rw [hrem, hslots, hbefore]
      ring
    · rw [hslots]
      exact moved_charges f r.caller s.counts r.slots

section

variable (h : Accounted s)
include h

lemma Accounted.retireFrontends (keep : Request → Bool) :
    Accounted (retireFrontends keep s) := by
  rw [retireFrontends_eq]
  exact h.rewriteAll (mapsSlots_retirePlan keep)

lemma Accounted.finishBackendSlots (t : Slot → Bool) :
    Accounted (finishBackendSlots t s) := by
  rw [finishBackendSlots_eq]
  exact h.rewriteAll (mapsSlots_terminatePlan t)

/-! ### The effects -/

lemma Accounted.raiseEpoch (n : ℕ) (hname : ¬ name.isCounter) :
    Accounted (raiseEpoch s name n) := by
  rw [RequestLedger.raiseEpoch]
  split_ifs with hnew
  · exact h.setCount hname hnew
  · exact h

lemma Accounted.publishConfig (v : ℕ) (g : Option AdmissionConfig) :
    Accounted (publishConfig s v g) := by
  cases g with
  | none => exact h
  | some =>
    rw [RequestLedger.publishConfig]
    split_ifs
    · exact h.congr rfl rfl
    · exact h

lemma Accounted.publishMembers (v : ℕ) (fs bs : Finset String) :
    Accounted (publishMembers s v fs bs) := by
  have hdrop : ∀ (ks : Multiset Field) (s : Ledger), Accounted s →
      Accounted { s with counts := ks.foldl (dropEpoch fs bs) s.counts } := by
    intro ks
    induction ks using Multiset.induction_on with
    | empty => exact fun s hs => hs
    | cons name ks ih =>
      intro s hs
      rw [Multiset.foldl_cons]
      refine ih { s with counts := dropEpoch _ _ s.counts name } ?_
      rw [dropEpoch]
      split_ifs with hstale
      · exact hs.eraseEpoch (by cases name <;> simp [Field.stale, Field.isCounter] at hstale ⊢)
      · exact hs
  have hmems : Accounted { s with
      membershipVersion := some v
      frontends := some fs
      backends := some bs } := h.congr rfl rfl
  exact hdrop _ _ ((hmems.retireFrontends _).finishBackendSlots _)

lemma Accounted.publish (v : ℕ) (g : Option AdmissionConfig) (fs bs : List String) :
    Accounted (publish s v g fs bs) := by
  rw [RequestLedger.publish]
  split_ifs
  · exact (h.publishConfig v g).publishMembers _ _ _
  · exact h.publishConfig v g

end

lemma units_replicate (n : ℕ) :
    waitUnits (replicate n { state := .waiting }) = n
      ∧ activeUnits (replicate n { state := .waiting }) = 0
      ∧ openUnits (replicate n { state := .waiting }) = n := by
  simp [waitUnits, activeUnits, openUnits, Slot.waitUnits, Slot.activeUnits, Slot.openUnits]

/-- A slot loop that charges the slots that meet a test. -/
lemma units_map {f : Slot → Slot} {test : Slot → Bool} (amount : ℤ)
    (h : ∀ slot, (f slot).waitUnits = slot.waitUnits
      ∧ (f slot).activeUnits = slot.activeUnits + (if test slot then amount else 0)
      ∧ (f slot).openUnits = slot.openUnits) (slots : List Slot) :
    waitUnits (slots.map f) = waitUnits slots
      ∧ activeUnits (slots.map f) = activeUnits slots + amount * slots.countP test
      ∧ openUnits (slots.map f) = openUnits slots := by
  induction slots with
  | nil => simp [openUnits]
  | cons slot rest ih =>
    simp only [waitUnits, activeUnits, openUnits, map_cons, sum_cons] at ih ⊢
    rw [ih.1, ih.2.1, ih.2.2, (h slot).1, (h slot).2.1, (h slot).2.2, countP_cons]
    refine ⟨rfl, ?_, rfl⟩
    split <;> push_cast <;> ring

/-- `dispatch` charges an active unit for every slot it reserves. -/
lemma units_reserve (slots : List Slot) :
    waitUnits (slots.map reserve) = waitUnits slots ∧ activeUnits (slots.map reserve)
        = activeUnits slots + slots.countP (fun slot => slot.state = .waiting)
      ∧ openUnits (slots.map Slot.reserve) = openUnits slots := by
  rw [← one_mul (Nat.cast _)]
  refine units_map 1 (fun slot => ?_) slots
  cases h : slot.state <;> simp [Slot.reserve, Slot.waitUnits, Slot.activeUnits, Slot.openUnits, h]

/-- `retry` returns an active unit for every reserved slot. -/
lemma units_unreserve (slots : List Slot) :
    waitUnits (slots.map unreserve) = waitUnits slots ∧ activeUnits (slots.map unreserve)
        = activeUnits slots - slots.countP (fun slot => slot.state = .reserved)
      ∧ openUnits (slots.map Slot.unreserve) = openUnits slots := by
  rw [sub_eq_add_neg, ← neg_one_mul]
  refine units_map (-1) (fun slot => ?_) slots
  cases h : slot.state <;>
    simp [Slot.unreserve, Slot.waitUnits, Slot.activeUnits, Slot.openUnits, h]

/-- A sum over a batch after one of its slots is replaced. -/
lemma sum_set {ss : List Slot} {k : ℕ} {slot : Slot} (slot' : Slot) (g : Slot → ℤ)
    (h : ss[k]? = some slot) :
    ((ss.set k slot').map g).sum = (ss.map g).sum + (g slot' - g slot) := by
  induction ss generalizing k with
  | nil => simp at h
  | cons x rest ih =>
    cases k with
    | zero =>
      simp only [getElem?_cons_zero, some.injEq] at h
      subst h
      simp only [set_cons_zero, map_cons, sum_cons]
      ring
    | succ =>
      simp only [set_cons_succ, map_cons, sum_cons, ih h]
      ring

/-- A slot is rewritten, and an epoch may be raised. -/
lemma Accounted.setSlot (h : Accounted s) (hr : s.records.lookup id = some request) {k : ℕ}
    {slot : Slot} (slot' : Slot) (hslot : request.slots[k]? = some slot)
    (hm : Moved s.counts m request.caller (slot'.waitUnits - slot.waitUnits)
      (slot'.activeUnits - slot.activeUnits)) (accepted : Bool) :
    Accounted (save { s with counts := m } id
      { request.setSlot k slot slot' with accepted := accepted }) := by
  have hbefore := h.remaining id request hr
  refine h.rewrite _ hr rfl ?_ ?_
  · simp only [Request.setSlot, openUnits, sum_set _ _ hslot] at hbefore ⊢
    rw [hbefore]
  · have hw : waitUnits (request.setSlot k slot slot').slots - waitUnits request.slots
        = slot'.waitUnits - slot.waitUnits := by
      simp only [Request.setSlot, waitUnits, sum_set _ _ hslot]
      ring
    have ha : activeUnits (request.setSlot k slot slot').slots - activeUnits request.slots
        = slot'.activeUnits - slot.activeUnits := by
      simp only [Request.setSlot, activeUnits, sum_set _ _ hslot]
      ring
    rwa [hw, ha]

/-- **Every call keeps the accounting.** -/
theorem Effect.accounted {a : Action} {r : Reply} (he : Effect s id a s' r)
    (h : Accounted s) : Accounted s' := by
  cases he with
  | unchanged => exact h
  | recover => exact (h.raiseEpoch _ (by simp [Field.isCounter])).finishBackendSlots _
  | publish | publishMembership => exact h.publish _ _ _ _
  | acknowledge | retain => exact h.congr rfl rfl
  | allocate => exact h.setCount (by simp [Field.isCounter]) (by omega)
  | register hopen hmember hepoch =>
    exact (h.setCount (by simp [Field.isCounter]) hepoch).retireFrontends _
  | @enqueue _ _ _ _ _ _ units _ _ _ hnone =>
    obtain ⟨hwait, hactive, hopen⟩ := units_replicate units
    refine h.create (.fresh _ _ _ _ units) hnone hopen.symm ?_
    simp only [fresh, hwait, hactive]
    exact moved_charge _ _ _ _
  | negative hopen hnone => exact h.create _ hnone rfl (Moved.refl _ _)
  | @cancel _ _ _ _ _ request _ hr =>
    have hbefore := h.remaining id request hr
    refine h.rewrite request.cancel hr rfl ?_ (moved_charges _ _ _ _)
    simp only [Request.cancel, Request.mapSlots]
    omega
  | @dispatch _ _ request _ _ hr =>
    obtain ⟨hwait, hactive, hopen⟩ := units_reserve request.slots
    refine h.rewrite request.reserve hr rfl ?_ ?_
    · simp only [Request.reserve, hopen]
      exact h.remaining id request hr
    · simp only [Request.reserve, hwait, hactive, sub_self, add_sub_cancel_left]
      exact moved_charge _ _ _ _
  | @retry _ _ request _ hr =>
    obtain ⟨hwait, hactive, hopen⟩ := units_unreserve request.slots
    refine h.rewrite request.unreserve hr rfl ?_ ?_
    · simp only [Request.unreserve, hopen]
      exact h.remaining id request hr
    · simp only [Request.unreserve, hwait, hactive, sub_self, sub_sub_cancel_left]
      exact moved_charge _ _ _ _
  | @accept _ _ _ request k slot o pod n _ hr hslot =>
    have hmoved := moved_charge s.counts request.caller
      ((slot.accept o pod n).waitUnits - slot.waitUnits)
      ((slot.accept o pod n).activeUnits - slot.activeUnits)
    rw [RequestLedger.raiseEpoch]
    split_ifs with hnew
    · exact h.setSlot hr _ hslot (hmoved.insert (by simp [Field.isCounter]) hnew
          (h.epochs _ (by simp [Field.isCounter]))) _
    · exact h.setSlot hr _ hslot hmoved _
  | slot hopen hr hact hslot => exact h.setSlot hr _ hslot (moved_charge _ _ _ _) _

/-- The accounting holds in every reachable state. -/
theorem accounted_of_reachable (h : ledger.Reachable s) : Accounted s :=
  h.rec_on accounted_empty fun s c _ hs => (transition_effect s c.id c.action).accounted hs

/-! ### The counters of a reachable state -/

/-- The number of slots, over all records, that meet a test. -/
def slotTotal (s : Ledger) (test : Request → Slot → Bool) : ℤ :=
  total s.records fun _ request => (request.slots.countP (test request) : ℤ)

/-- What a record adds is counted by a test on its slots. -/
lemma delta_countP (caller c : String) (ss : List Slot) (test : Slot → Bool) :
    (if c = caller then (ss.countP test : ℤ) else 0)
      = ss.countP fun slot => decide (caller = c) && test slot := by
  by_cases hc : c = caller
  · simp [hc]
  · simp [hc, Ne.symm hc]

/-- What the capacity counters of a ledger say about its records. -/
structure Balanced (s : Ledger) : Prop where
  waiting : count s .waiting = slotTotal s fun _ slot => slot.isWaiting
  callerWaiting : ∀ c, count s (.w c) = slotTotal s fun request slot =>
    request.caller = c && slot.isWaiting
  callerActive : ∀ c, count s (.a c) = slotTotal s fun request slot =>
    request.caller = c && slot.isActive
  active : count s .active = activeTotal s.counts
  remaining : ∀ id request, s.records.lookup id = some request →
    request.remaining = request.slots.countP fun slot => slot.state ≠ .completed
  nonneg : ∀ name : Field, name.isCounter → 0 ≤ count s name
  present : ∀ name : Field, name.isCounter → name ∈ s.counts → 0 < count s name

lemma Accounted.balanced (h : Accounted s) : Balanced s := by
  refine ⟨?_, fun c => ?_, fun c => ?_, h.active, fun id request hr => ?_,
    fun name _ => h.count_nonneg name, fun name _ hmem => ?_⟩
  · simp only [h.counts .waiting rfl, units, delta, waitUnits_eq, slotTotal]
  · simp only [h.counts (.w c) rfl, units, delta, waitUnits_eq, slotTotal, delta_countP]
  · simp only [h.counts (.a c) rfl, units, delta, activeUnits_eq, slotTotal, delta_countP]
  · rw [h.remaining id request hr, openUnits_eq]
  · exact lt_of_le_of_ne (h.count_nonneg name) (h.noZero.read_ne hmem).symm

/-- **The accounting invariant.** After every sequence of calls from an empty key, in
any order and with any repetition, the capacity counters are exactly what the
slots of the records add up to. -/
theorem reachable_balanced (cs : List Command) : Balanced (ledger.after cs) :=
  (accounted_of_reachable (Machine.reachable_after cs)).balanced

end Foretoken.RequestLedger
