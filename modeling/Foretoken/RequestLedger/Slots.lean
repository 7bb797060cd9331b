import Foretoken.RequestLedger.Types

/-!
The local functions of `transition.lua` (lines 10-84): counters, the write of a record, the release
of one slot and the two loops over all records.

The script walks `HKEYS`, whose order Redis does not specify. The loops run over the keys as a
multiset, and the obligation that comes with it is the proof that the order is immaterial.
-/

namespace Foretoken.RequestLedger

open FiniteMap Slot Request Option

/-! ### Counters and records -/

section

variable (s : Ledger) (request : Request) (slot : Slot)

/-- `count(name)`: a missing field counts as `0`. -/
def count (name : Field) : ℤ := read s.counts name

/-- `HSET` of a numeric field. -/
def setCount (name : Field) (value : ℤ) : Ledger :=
  { s with counts := s.counts.insert name value }

/-- `adjust` on the numeric fields: a move of an `a:` counter moves `active` too. -/
def moveCounts (counts : Finmap fun _ : Field => ℤ) (name : Field) (amount : ℤ) :
    Finmap fun _ : Field => ℤ :=
  match name with
  | .a caller => bump (bump counts (.a caller) amount) .active amount
  | name => bump counts name amount

/-- `adjust(name, amount)`: `HINCRBY`, then `HDEL` when the value comes to zero. -/
def adjust (name : Field) (amount : ℤ) : Ledger :=
  { s with counts := moveCounts s.counts name amount }

/-- The record `save` keeps: a batch with nothing left is deleted, unless it stays
as the fence of its own cancellation. -/
def Request.kept : Option Request :=
  if request.remaining = 0 ∧ (request.cancelled = false ∨ request.retired = true) then none
  else some request

/-- `HSET` of a record that is kept, `HDEL` of one that is not. -/
def putRecord (records : Finmap fun _ : String => Request) (id : String) :
    Option Request → Finmap fun _ : String => Request
  | none => records.erase id
  | some request => records.insert id request

/-- `save(request_id, request)`. The wakeup it publishes is advisory and leaves the
hash alone. -/
def save (id : String) (request : Request) : Ledger :=
  { s with records := putRecord s.records id request.kept }

/-- `finish_slot(request, slot)`: the ledger, the record (its slots aside) and the
slot afterwards. -/
def finishSlot : Ledger × Request × Slot :=
  if slot.state = .completed then (s, request, slot)
  else
    let s :=
      if slot.state = .waiting ∨ slot.state = .reserved then
        adjust (adjust s .waiting (-1)) (.w request.caller) (-1)
      else s
    let s := if slot.state ≠ .waiting then adjust s (.a request.caller) (-1) else s
    (s, { request with remaining := request.remaining - 1 }, { slot with state := .completed })

/-- `cancel_slot(request, slot)`: revocation finishes unsubmitted work and marks
accepted work, which stays charged until its owner confirms its end. -/
def cancelSlot : Ledger × Request × Slot :=
  if slot.state = .accepted then (s, request, { slot with state := .cancelling })
  else if slot.state = .waiting ∨ slot.state = .reserved ∨ slot.state = .handoff then
    finishSlot s request slot
  else (s, request, slot)

/-- The slot is in the hands of an execution owner. -/
def Slot.held : Bool := slot.state = .accepted ∨ slot.state = .cancelling

/-- The test of the slot loop of `finish_backend_slots`. -/
def Slot.ends (terminated : Slot → Bool) (slot : Slot) : Bool :=
  slot.held && slot.backendPod.isSome && terminated slot

/-- The body of the slot loop of `finish_backend_slots`. -/
def terminateSlot (terminated : Slot → Bool) (s : Ledger) (request : Request) (slot : Slot) :
    Ledger × Request × Slot :=
  if slot.ends terminated then finishSlot s request slot else (s, request, slot)

/-- `for _, slot in ipairs(request.slots)`, for a body that updates the ledger, the
record and the slot. -/
def eachSlot (body : Ledger → Request → Slot → Ledger × Request × Slot) (s : Ledger)
    (request : Request) : List Slot → Ledger × Request × List Slot
  | [] => (s, request, [])
  | slot :: rest =>
    let done := body s request slot
    let tail := eachSlot body done.1 done.2.1 rest
    (tail.1, tail.2.1, done.2.2 :: tail.2.2)

/-- A slot loop over a whole record, with the slots written back. -/
def overSlots (body : Ledger → Request → Slot → Ledger × Request × Slot) (s : Ledger)
    (request : Request) : Ledger × Request :=
  let done := eachSlot body s request request.slots
  (done.1, { done.2.1 with slots := done.2.2 })

/-- The body of `retire_frontends` for one `r:` field. -/
def retireField (keep : Request → Bool) (s : Ledger) (id : String) : Ledger :=
  match s.records.lookup id with
  | none => s
  | some request =>
    if keep request then s
    else
      let done := overSlots cancelSlot s { request with retired := true }
      save done.1 id done.2

/-- The body of `finish_backend_slots` for one `r:` field. -/
def finishBackendField (terminated : Slot → Bool) (s : Ledger) (id : String) : Ledger :=
  match s.records.lookup id with
  | none => s
  | some request =>
    if request.slots.any (Slot.ends terminated) then
      let done := overSlots (terminateSlot terminated) s request
      save done.1 id done.2
    else s

/-! ### What a slot body does -/

/-- The units a slot is charged to the waiting counters. -/
def Slot.waitUnits : ℤ :=
  if slot.state = .waiting ∨ slot.state = .reserved then 1 else 0

/-- The units a slot is charged to the concurrency counters. -/
def Slot.activeUnits : ℤ :=
  if slot.state = .waiting ∨ slot.state = .completed then 0 else 1

/-- The unit a slot counts for in `remaining`. -/
def Slot.openUnits : ℤ := if slot.state = .completed then 0 else 1

/-- The slot after `finish_slot`. -/
def Slot.finish : Slot := { slot with state := .completed }

/-- The slot after `cancel_slot`. -/
def Slot.cancel : Slot :=
  match slot.state with
  | .accepted => { slot with state := .cancelling }
  | .cancelling => slot
  | _ => slot.finish

end

/-- The slot after the loop of `finish_backend_slots`. -/
def Slot.terminate (terminated : Slot → Bool) (slot : Slot) : Slot :=
  if slot.ends terminated then slot.finish else slot

/-- The counters of a caller moved by some waiting and some active units. -/
def charge (counts : Finmap fun _ : Field => ℤ) (caller : String) (wait active : ℤ) :
    Finmap fun _ : Field => ℤ :=
  moveCounts (moveCounts (moveCounts counts .waiting wait) (.w caller) wait) (.a caller) active

@[simp] lemma moveCounts_zero (m : Finmap fun _ : Field => ℤ) (n : Field) :
    moveCounts m n 0 = m := by
  cases n <;> simp [moveCounts]

@[simp] lemma charge_zero (m : Finmap fun _ : Field => ℤ) (u : String) :
    charge m u 0 0 = m := by
  simp [charge]

/-- The counters of a caller follow a slot of it. -/
def chargeSlot (counts : Finmap fun _ : Field => ℤ) (caller : String) (slot slot' : Slot) :
    Finmap fun _ : Field => ℤ :=
  charge counts caller (slot'.waitUnits - slot.waitUnits) (slot'.activeUnits - slot.activeUnits)

@[simp] lemma chargeSlot_self (m : Finmap fun _ : Field => ℤ) (u : String) (slot : Slot) :
    chargeSlot m u slot slot = m := by
  simp [chargeSlot]

/-- A slot body that replaces the slot by a function of it, and moves the counters
of the caller and `remaining` by exactly the difference. -/
def SlotBody (body : Ledger → Request → Slot → Ledger × Request × Slot) (f : Slot → Slot) :
    Prop :=
  ∀ s request slot, body s request slot =
    ({ s with counts := chargeSlot s.counts request.caller slot (f slot) },
      { request with remaining := request.remaining + ((f slot).openUnits - slot.openUnits) },
      f slot)

lemma slotBody_finishSlot : SlotBody finishSlot finish := by
  rintro s q ⟨st, owner, pod, epoch, finished⟩
  cases st <;>
    simp [finishSlot, finish, waitUnits, activeUnits, openUnits, adjust,
      chargeSlot, charge, sub_eq_add_neg]

lemma slotBody_cancelSlot : SlotBody cancelSlot cancel := by
  rintro s q ⟨st, owner, pod, epoch, finished⟩
  have hfin := slotBody_finishSlot s q ⟨st, owner, pod, epoch, finished⟩
  cases st with
  | waiting | reserved | handoff => exact hfin
  | accepted =>
    simp [cancelSlot, cancel, chargeSlot, waitUnits, activeUnits, openUnits]
  | cancelling => simp [cancelSlot, cancel]
  | completed => simp [cancelSlot, cancel, finish]

lemma slotBody_terminateSlot (t : Slot → Bool) :
    SlotBody (terminateSlot t) (terminate t) := by
  intro s q slot
  by_cases h : slot.ends t
  · rw [terminateSlot, if_pos h, slotBody_finishSlot s q slot, terminate, if_pos h]
  · simp [terminateSlot, terminate, h]

/-- The counters after a slot loop: each slot is charged its own difference. -/
def charges (f : Slot → Slot) (caller : String) (m : Finmap fun _ : Field => ℤ) :
    List Slot → Finmap fun _ : Field => ℤ
  | [] => m
  | slot :: rest => charges f caller (chargeSlot m caller slot (f slot)) rest

/-- The open slots of a batch. -/
def openUnits (slots : List Slot) : ℤ := (slots.map Slot.openUnits).sum

lemma eachSlot_eq {body : Ledger → Request → Slot → Ledger × Request × Slot} {f : Slot → Slot}
    (h : SlotBody body f) (s : Ledger) (q : Request) (ss : List Slot) :
    eachSlot body s q ss = ({ s with counts := charges f q.caller s.counts ss },
        { q with
            remaining := q.remaining + (openUnits (ss.map f) - openUnits ss) },
        ss.map f) := by
  induction ss generalizing s q with
  | nil => simp [eachSlot, charges]
  | cons slot rest ih =>
    simp only [eachSlot, h s q slot, ih, charges, List.map_cons, openUnits, List.sum_cons]
    refine Prod.ext rfl (Prod.ext ?_ rfl)
    simp only [Request.mk.injEq, true_and, and_true]
    ring

/-- The record with every slot replaced and `remaining` moved along. -/
def Request.mapSlots (f : Slot → Slot) (request : Request) : Request :=
  { request with
      remaining :=
        request.remaining + (openUnits (request.slots.map f) - openUnits request.slots)
      slots := request.slots.map f }

lemma mapSlots_self {f : Slot → Slot} {request : Request}
    (h : ∀ slot ∈ request.slots, f slot = slot) : request.mapSlots f = request := by
  have hslots : request.slots.map f = request.slots :=
    (List.map_congr_left h).trans (List.map_id _)
  simp [mapSlots, hslots]

/-- **A slot loop** replaces every slot and moves the counters by the sum. -/
lemma overSlots_eq {body : Ledger → Request → Slot → Ledger × Request × Slot} {f : Slot → Slot}
    (h : SlotBody body f) (s : Ledger) (q : Request) :
    overSlots body s q =
      ({ s with counts := charges f q.caller s.counts q.slots },
        q.mapSlots f) := by
  rw [overSlots, eachSlot_eq h, mapSlots]

/-! ### The order of the fields -/

lemma lookup_putRecord (rs : Finmap fun _ : String => Request) (id x : String)
    (q : Option Request) :
    (putRecord rs id q).lookup x = if x = id then q else rs.lookup x := by
  cases q with
  | none => exact lookup_erase_eq rs id x
  | some q => exact lookup_insert_eq rs id x q

lemma lookup_save (s : Ledger) (id : String) (q : Request) :
    (save s id q).records.lookup id = q.kept := by
  rw [save, lookup_putRecord, if_pos rfl]

lemma putRecord_comm {rs : Finmap fun _ : String => Request} {i j : String} (h : i ≠ j)
    (p q : Option Request) :
    putRecord (putRecord rs i p) j q = putRecord (putRecord rs j q) i p := by
  refine Finmap.ext_lookup fun x => ?_
  simp only [lookup_putRecord]
  by_cases hi : x = i
  · rw [if_pos hi, if_neg (hi ▸ h), if_pos hi]
  · rw [if_neg hi, if_neg hi]

section

variable (m : Finmap fun _ : Field => ℤ)

lemma bump_moveCounts (f n : Field) (x y : ℤ) :
    bump (moveCounts m n y) f x = moveCounts (bump m f x) n y := by
  cases n with
  | a => simp only [moveCounts, bump_comm _ _ f]
  | _ => exact bump_comm _ _ _ _ _

lemma moveCounts_comm (n n' : Field) (x y : ℤ) :
    moveCounts (moveCounts m n x) n' y = moveCounts (moveCounts m n' y) n x := by
  cases n' with
  | a => simp only [moveCounts.eq_1, bump_moveCounts]
  | _ => exact bump_moveCounts _ _ _ _ _

lemma chargeSlot_moveCounts (u : String) (slot slot' : Slot) (n : Field) (x : ℤ) :
    moveCounts (chargeSlot m u slot slot') n x
      = chargeSlot (moveCounts m n x) u slot slot' := by
  simp only [chargeSlot, charge, moveCounts_comm _ _ n]

end

lemma charges_moveCounts (f : Slot → Slot) (caller : String) (m : Finmap fun _ : Field => ℤ)
    (name : Field) (x : ℤ) (slots : List Slot) :
    moveCounts (charges f caller m slots) name x
      = charges f caller (moveCounts m name x) slots := by
  induction slots generalizing m with
  | nil => rfl
  | cons slot rest ih => rw [charges, ih, chargeSlot_moveCounts, charges]

/-- Two slot loops move the counters in either order alike. -/
lemma charges_comm (f g : Slot → Slot) (caller caller' : String)
    (m : Finmap fun _ : Field => ℤ) (slots slots' : List Slot) :
    charges g caller' (charges f caller m slots) slots'
      = charges f caller (charges g caller' m slots') slots := by
  induction slots' generalizing m with
  | nil => rfl
  | cons slot rest ih =>
    have hslot : chargeSlot (charges f caller m slots) caller' slot (g slot)
        = charges f caller (chargeSlot m caller' slot (g slot)) slots := by
      simp only [chargeSlot, charge, charges_moveCounts]
    rw [charges, hslot, ih, charges]

/-- A loop body over the `r:` fields: a record that the plan selects is rewritten
slot by slot and saved. -/
def rewriteField (plan : Request → Option ((Slot → Slot) × Request)) (s : Ledger)
    (id : String) : Ledger :=
  match (s.records.lookup id).bind fun request => (plan request).map fun p => (request, p) with
  | none => s
  | some (request, f, request') =>
    save { s with counts := charges f request.caller s.counts request.slots } id request'

/-- **The order of the fields is immaterial.** -/
lemma rewriteField_comm (plan : Request → Option ((Slot → Slot) × Request)) (s : Ledger)
    (i j : String) :
    rewriteField plan (rewriteField plan s i) j = rewriteField plan (rewriteField plan s j) i := by
  by_cases hij : i = j
  · rw [hij]
  have hlook : ∀ (s : Ledger) {x y : String}, y ≠ x →
      (rewriteField plan s x).records.lookup y = s.records.lookup y := by
    intro s x y hxy
    rw [rewriteField]
    split
    · rfl
    · exact (lookup_putRecord _ _ _ _).trans (if_neg hxy)
  have hi := hlook s hij
  have hj := hlook s (Ne.symm hij)
  rw [rewriteField, hj, rewriteField.eq_def plan (rewriteField plan s j), hi]
  unfold rewriteField
  split <;> split <;> simp_all [save, charges_comm, putRecord_comm]

instance (plan : Request → Option ((Slot → Slot) × Request)) :
    RightCommutative (rewriteField plan) := ⟨rewriteField_comm plan⟩

/-- The record after `retire_frontends` has retired it. -/
def Request.retire (request : Request) : Request :=
  { request with retired := true }.mapSlots Slot.cancel

/-- The records `retire_frontends` rewrites. -/
def retirePlan (keep : Request → Bool) (request : Request) :
    Option ((Slot → Slot) × Request) :=
  if keep request then none else some (Slot.cancel, request.retire)

/-- The records `finish_backend_slots` rewrites. -/
def terminatePlan (terminated : Slot → Bool) (request : Request) :
    Option ((Slot → Slot) × Request) :=
  if request.slots.any (Slot.ends terminated) then
    some (Slot.terminate terminated, request.mapSlots (Slot.terminate terminated))
  else none

lemma retireField_eq (keep : Request → Bool) :
    retireField keep = rewriteField (retirePlan keep) := by
  funext s id
  unfold retireField rewriteField retirePlan
  cases s.records.lookup id with
  | none => rfl
  | some q =>
    by_cases hkeep : keep q
    · simp [hkeep]
    · simp [hkeep, overSlots_eq slotBody_cancelSlot, retire]

lemma finishBackendField_eq (t : Slot → Bool) :
    finishBackendField t = rewriteField (terminatePlan t) := by
  funext s id
  unfold finishBackendField rewriteField terminatePlan
  cases s.records.lookup id with
  | none => rfl
  | some q =>
    by_cases hany : q.slots.any (ends t)
    · simp only [hany, if_true, overSlots_eq (slotBody_terminateSlot t),
        map_some, bind_some]
    · simp only [hany, Bool.false_eq_true, if_false, map_none, bind_some]

instance (keep : Request → Bool) : RightCommutative (retireField keep) := by
  rw [retireField_eq]
  infer_instance

instance (terminated : Slot → Bool) : RightCommutative (finishBackendField terminated) := by
  rw [finishBackendField_eq]
  infer_instance

/-! ### The loops over all records -/

/-- `retire_frontends(keep)`. -/
def retireFrontends (keep : Request → Bool) (s : Ledger) : Ledger :=
  s.records.keys.val.foldl (retireField keep) s

/-- `finish_backend_slots(terminated)`. -/
def finishBackendSlots (terminated : Slot → Bool) (s : Ledger) : Ledger :=
  s.records.keys.val.foldl (finishBackendField terminated) s

/-- Both loops, by their plan. -/
def rewriteAll (plan : Request → Option ((Slot → Slot) × Request)) (s : Ledger) : Ledger :=
  s.records.keys.val.foldl (rewriteField plan) s

lemma retireFrontends_eq (keep : Request → Bool) (s : Ledger) :
    retireFrontends keep s = rewriteAll (retirePlan keep) s := by
  rw [retireFrontends]
  congr 1
  exact retireField_eq keep

lemma finishBackendSlots_eq (t : Slot → Bool) (s : Ledger) :
    finishBackendSlots t s = rewriteAll (terminatePlan t) s := by
  rw [finishBackendSlots]
  congr 1
  exact finishBackendField_eq t

lemma rewriteAll_preserves {P : Ledger → Prop} {plan : Request → Option ((Slot → Slot) × Request)}
    (hstep : ∀ s id, P s → P (rewriteField plan s id)) {s : Ledger} (hs : P s) :
    P (rewriteAll plan s) := by
  rw [rewriteAll]
  generalize s.records.keys.val = ks
  induction ks using Multiset.induction_on generalizing s with
  | empty => exact hs
  | cons id ks ih =>
    rw [Multiset.foldl_cons]
    exact ih (hstep s id hs)

/-- The record a plan leaves behind. -/
def planned (plan : Request → Option ((Slot → Slot) × Request)) (request : Request) :
    Option Request :=
  match plan request with
  | none => some request
  | some (_, request') => request'.kept

section

variable (plan : Request → Option ((Slot → Slot) × Request)) (s : Ledger)

lemma lookup_rewriteField (id x : String) :
    (rewriteField plan s id).records.lookup x
      = if x = id then (s.records.lookup x).bind (planned plan) else s.records.lookup x := by
  unfold rewriteField planned
  by_cases hx : x = id
  · subst hx
    cases hr : s.records.lookup x with
    | none => simp [hr]
    | some q =>
      cases hp : plan q with
      | none => simp [hp, hr]
      | some => simp [hp, save, lookup_putRecord]
  · rw [if_neg hx]
    split
    · rfl
    · simp [save, lookup_putRecord, hx]

/-- **Every record is planned once.** -/
lemma lookup_rewriteAll (x : String) :
    (rewriteAll plan s).records.lookup x = (s.records.lookup x).bind (planned plan) := by
  have hfold : ∀ (ks : Multiset String), ks.Nodup → ∀ s : Ledger,
      (ks.foldl (rewriteField plan) s).records.lookup x
        = if x ∈ ks then (s.records.lookup x).bind (planned plan) else s.records.lookup x := by
    intro ks
    induction ks using Multiset.induction_on with
    | empty => intro _ s; rfl
    | cons id ks ih =>
      intro hnodup s
      obtain ⟨hid, hkeys⟩ := Multiset.nodup_cons.mp hnodup
      rw [Multiset.foldl_cons, ih hkeys, lookup_rewriteField]
      by_cases hx : x = id
      · subst hx
        simp [hid]
      · simp [hx]
  rw [rewriteAll, hfold _ s.records.keys.nodup]
  by_cases hx : x ∈ s.records
  · rw [if_pos (Finset.mem_val.mpr (Finmap.mem_keys.mpr hx))]
  · have hnone := Finmap.lookup_eq_none.mpr hx
    split <;> simp [hnone]

end

end Foretoken.RequestLedger
