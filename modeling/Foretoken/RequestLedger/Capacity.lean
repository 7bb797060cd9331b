import Foretoken.RequestLedger.Lifecycle

/-!
Shared capacity is not oversubscribed.

The limits are tested in `enqueue` and `dispatch` only, while slots move back and forth in many
actions. But a counter is a total over the records, and no step of a slot raises what the slot is
charged, except the reservation of a waiting slot.
-/

namespace Foretoken.RequestLedger

open FiniteMap Slot Request Machine Option

/-! ### What a step charges -/

section Steps

variable {s : Ledger} {c : Command} {x : String} {k : ℕ} {slot slot' : Slot}

lemma Slot.waitUnits_nonneg (slot : Slot) : 0 ≤ slot.waitUnits := by
  rw [waitUnits]
  split_ifs <;> omega

lemma Slot.activeUnits_nonneg (slot : Slot) : 0 ≤ slot.activeUnits := by
  rw [activeUnits]
  split_ifs <;> omega

lemma Slot.cancel_units (slot : Slot) :
    slot.cancel.waitUnits ≤ slot.waitUnits ∧ slot.cancel.activeUnits ≤ slot.activeUnits := by
  cases h : slot.state <;> simp [cancel, finish, waitUnits, activeUnits, h]

lemma Slot.terminate_units (t : Slot → Bool) (slot : Slot) :
    (slot.terminate t).waitUnits ≤ slot.waitUnits
      ∧ (slot.terminate t).activeUnits ≤ slot.activeUnits := by
  rcases slot.terminate_eq t with h | h <;> rw [h]
  · exact ⟨le_rfl, le_rfl⟩
  · exact ⟨slot.waitUnits_nonneg, slot.activeUnits_nonneg⟩

/-- Only a reservation raises what a slot is charged. -/
lemma SlotStep.units_le (h : SlotStep s c x k slot slot') :
    slot'.waitUnits ≤ slot.waitUnits
      ∧ (c.action ≠ .dispatch → slot'.activeUnits ≤ slot.activeUnits) := by
  cases h with
  | idle => exact ⟨le_rfl, fun _ => le_rfl⟩
  | cancel => exact ⟨slot.cancel_units.1, fun _ => slot.cancel_units.2⟩
  | reserve hc =>
    refine ⟨?_, fun hd => absurd (by rw [hc]) hd⟩
    rcases slot.reserve_eq with h | ⟨hstate, h⟩ <;> rw [h]
    simp [Slot.waitUnits, hstate]
  | unreserve =>
    rcases slot.unreserve_eq with h | ⟨hstate, h⟩ <;> rw [h]
    · exact ⟨le_rfl, fun _ => le_rfl⟩
    · simp [Slot.waitUnits, Slot.activeUnits, hstate]
  | accept _ _ _ _ _ hstate =>
    rcases hstate with h | h <;> simp [Slot.accept, Slot.waitUnits, Slot.activeUnits, h]
  | reject =>
    rcases slot.reject_eq _ with h | h <;> rw [h]
    · exact ⟨le_rfl, fun _ => le_rfl⟩
    · exact ⟨slot.waitUnits_nonneg, fun _ => slot.activeUnits_nonneg⟩
  | complete =>
    rcases slot.complete_eq _ _ with h | ⟨_, _, st, hstate, h⟩ <;> rw [h]
    · exact ⟨le_rfl, fun _ => le_rfl⟩
    · rcases hstate with rfl | ⟨rfl, hacc⟩
      · exact ⟨slot.waitUnits_nonneg, fun _ => slot.activeUnits_nonneg⟩
      · simp [Slot.waitUnits, Slot.activeUnits, hacc]
  | recover => exact ⟨(slot.terminate_units _).1, fun _ => (slot.terminate_units _).2⟩
  | members _ hslot =>
    rcases hslot with rfl | rfl
    · exact ⟨(terminate_units _ _).1, fun _ => (terminate_units _ _).2⟩
    · exact ⟨(terminate_units _ _).1.trans slot.cancel_units.1,
        fun _ => (terminate_units _ _).2.trans slot.cancel_units.2⟩

end Steps

lemma sum_le_sum_of_slots {ss ss' : List Slot} {g : Slot → ℤ}
    (hlen : ss'.length = ss.length)
    (h : ∀ (k : ℕ) slot', ss'[k]? = some slot' →
      ∃ slot, ss[k]? = some slot ∧ g slot' ≤ g slot) :
    (ss'.map g).sum ≤ (ss.map g).sum := by
  refine List.Forall₂.sum_le_sum ?_
  rw [List.forall₂_iff_get]
  refine ⟨by simp [hlen], fun i hi' hi => ?_⟩
  simp only [List.length_map] at hi hi'
  obtain ⟨slot, hslot, hle⟩ := h i ss'[i] (List.getElem?_eq_getElem hi')
  rw [List.getElem?_eq_getElem hi] at hslot
  simpa [some.inj hslot] using hle

section Records

variable {s : Ledger} (id : String) (ac : Action) {x : String} {request : Request}

lemma waitUnits_after (hr : s.records.lookup x = some request) :
    waitUnits (recordAfter s id ac x request).slots ≤ waitUnits request.slots := by
  refine sum_le_sum_of_slots (recordAfter_length id ac) fun k slot' hslot' => ?_
  obtain ⟨slot, hslot, hstep⟩ := recordAfter_slot_inv id ac hr hslot'
  exact ⟨slot, hslot, hstep.units_le.1⟩

lemma activeUnits_after (hr : s.records.lookup x = some request) (hd : ac ≠ .dispatch) :
    activeUnits (recordAfter s id ac x request).slots ≤ activeUnits request.slots := by
  refine sum_le_sum_of_slots (recordAfter_length id ac) fun k slot' hslot' => ?_
  obtain ⟨slot, hslot, hstep⟩ := recordAfter_slot_inv id ac hr hslot'
  exact ⟨slot, hslot, hstep.units_le.2 hd⟩

end Records

/-! ### Where a counter goes up -/

/-- The counters of waiting slots. -/
def Field.isWaiting : Field → Bool
  | .waiting | .w _ => true
  | _ => false

/-- The counters of slots charged to concurrency. -/
def Field.isActive : Field → Bool
  | .active | .a _ => true
  | _ => false

/-- If no record is charged more than before, no counter goes up. -/
lemma count_le_of_units {s : Ledger} (hs : ledger.Reachable s) (c : Command)
    {name : Field} (hname : name.isCounter)
    (hkept : ∀ x request, s.records.lookup x = some request →
      (recordAfter s c.id c.action x request).units name ≤ request.units name)
    (hnew : ∀ request, Creates s c.id c.action request → request.units name = 0) :
    count (ledger.next s c) name ≤ count s name := by
  rw [(accounted_of_reachable (hs.next c)).counts name hname,
    (accounted_of_reachable hs).counts name hname]
  refine total_le_total (fun _ request => request.units_nonneg name) fun x r' hr' => ?_
  rcases record_next (stored_of_reachable hs) hr' with ⟨request, hr, rfl⟩ | ⟨hnone, -, hcreates⟩
  · rw [hr]
    exact hkept x request hr
  · rw [hnone, hnew r' hcreates]
    rfl

lemma units_le {name : Field} {request request' : Request}
    (hcaller : request'.caller = request.caller)
    (hwait : name.isWaiting → waitUnits request'.slots ≤ waitUnits request.slots)
    (hactive : name.isActive → activeUnits request'.slots ≤ activeUnits request.slots) :
    request'.units name ≤ request.units name := by
  cases name <;> simp only [units, delta, hcaller, le_refl]
  case waiting => exact hwait rfl
  case active => exact hactive rfl
  case w =>
    split_ifs
    · exact hwait rfl
    · exact le_rfl
  case a =>
    split_ifs
    · exact hactive rfl
    · exact le_rfl

lemma Moved.rises {m m' : Finmap fun _ : Field => ℤ} {u : String} {wait a : ℤ}
    {n : Field} (h : Moved m m' u wait a) (hname : n.isCounter)
    (hrise : read m n < read m' n) :
    (n.isWaiting → n = .waiting ∨ n = .w u)
      ∧ (n.isActive → n = .active ∨ n = .a u) := by
  rw [h.read_eq n hname] at hrise
  cases n <;> simp_all [Field.isWaiting, Field.isActive, delta]
  all_goals
    by_contra hother
    simp [hother] at hrise

/-- A call is an admission of the batch of a caller within the limits. -/
def AdmitsWithin (s : Ledger) (c : Command) (caller : String) : Prop :=
  ∃ config frontend epoch role units, s.config = some config
    ∧ c.action = .enqueue frontend epoch caller role units ∧ ledger.reply s c = .ok
    ∧ (∀ most, config.maxWaitingRequests = some most →
        count (ledger.next s c) .waiting ≤ (most : ℕ))
    ∧ ∀ rule limits, ruleFor config (some role) caller = some rule →
        rule.perCaller = some limits →
        count (ledger.next s c) (.w caller) ≤ limits.maxWaitingRequests

/-- A call is a dispatch of a batch within the limits of its caller. -/
def DispatchesWithin (s : Ledger) (c : Command) (caller : String) : Prop :=
  ∃ config request, s.config = some config ∧ c.action = .dispatch ∧ ledger.reply s c = .ok
    ∧ s.records.lookup c.id = some request ∧ request.caller = caller
    ∧ request.cancelled = false
    ∧ ∀ rule limits, ruleFor config request.role caller = some rule →
        rule.perCaller = some limits →
        count (ledger.next s c) (.a caller) ≤ limits.maxConcurrentRequests

section

variable {s : Ledger} (hs : ledger.Reachable s) (c : Command) (name : Field)
include hs

/-- A waiting counter goes up only where a batch is admitted. -/
lemma waiting_rises (hname : name.isWaiting) (hrise : count s name < count (ledger.next s c) name) :
    ∃ caller, (name = .waiting ∨ name = .w caller) ∧ AdmitsWithin s c caller := by
  have hcnt : name.isCounter := by cases name <;> first | rfl | cases hname
  by_cases hact : ∃ f e caller role units, c.action = .enqueue f e caller role units
  · obtain ⟨f, e, caller, role, units, hact⟩ := hact
    have he := call_effect s c
    unfold AdmitsWithin
    rw [hact] at he
    generalize ledger.next s c = s', ledger.reply s c = reply at he hrise ⊢
    cases he with
    | unchanged => exact absurd hrise (lt_irrefl _)
    | @enqueue config _ _ _ _ _ _ hopen hclosed howns hnone hadm =>
      have hmoved := moved_charge s.counts caller units 0
      refine ⟨caller, (hmoved.rises hcnt hrise).1 hname, config, f, e, role, units,
        hopen.config_eq, hact, rfl, fun most hmost => ?_, fun rule limits hrule hlim => ?_⟩
      · rw [count, save, hmoved.read_eq .waiting rfl]
        exact hadm.model most hmost
      · obtain ⟨rule', hrule', hlimit⟩ := hadm.rule
        rw [hrule] at hrule'
        rw [count, save, hmoved.read_eq (.w caller) rfl]
        simpa [delta, count] using hlimit limits (some.inj hrule' ▸ hlim)
    | slot _ _ h => cases h
  · refine absurd hrise (not_lt.mpr (count_le_of_units hs c hcnt ?_ ?_))
    · intro x request hr
      refine units_le (recordAfter_caller c.id c.action)
        (fun _ => waitUnits_after c.id c.action hr) ?_
      cases name <;> simp_all [Field.isWaiting, Field.isActive]
    · intro request hcreates
      generalize c.action = ac at hact hcreates
      cases hcreates with
      | enqueue => exact absurd ⟨_, _, _, _, _, rfl⟩ hact
      | negative => exact units_of_completed (by simp [negative]) name

/-- Concurrency goes up only by a dispatch. -/
lemma active_rises (hname : name.isActive) (hrise : count s name < count (ledger.next s c) name) :
    ∃ caller, (name = .active ∨ name = .a caller) ∧ DispatchesWithin s c caller := by
  have hcnt : name.isCounter := by cases name <;> first | rfl | cases hname
  by_cases hact : c.action = .dispatch
  · have he := call_effect s c
    unfold DispatchesWithin
    rw [hact] at he
    generalize ledger.next s c = s', ledger.reply s c = reply at he hrise ⊢
    cases he with
    | unchanged => exact absurd hrise (lt_irrefl _)
    | @dispatch config _ request hopen hclosed hr hcanc hret hlimit =>
      have hmoved := moved_charge s.counts request.caller 0 request.needed
      refine ⟨request.caller, (hmoved.rises hcnt hrise).2 hname, config, request,
        hopen.config_eq, hact, rfl, hr, rfl, hcanc, fun rule limits hrule hlim => ?_⟩
      obtain ⟨rule', hrule', hbound⟩ := hlimit
      rw [hrule] at hrule'
      rw [count, save, hmoved.read_eq (.a request.caller) rfl]
      simpa [delta, count] using hbound limits (some.inj hrule' ▸ hlim)
    | slot _ _ h => cases h
  · refine absurd hrise (not_lt.mpr (count_le_of_units hs c hcnt ?_ ?_))
    · intro x request hr
      refine units_le (recordAfter_caller c.id c.action) ?_ fun _ =>
        activeUnits_after c.id c.action hr hact
      cases name <;> simp_all [Field.isWaiting, Field.isActive]
    · intro request hcreates
      generalize c.action = ac at hcreates
      cases hcreates with
      | @enqueue _ _ _ _ _ _ units =>
        cases name <;> simp only [Field.isActive, Bool.false_eq_true] at hname <;>
          simp [Request.units, Request.fresh, delta, (units_replicate units).2.1]
      | negative => exact units_of_completed (by simp [Request.negative]) name

end

/-! ### Bounds over whole runs -/

/-- The counters are within the limits of a configuration, each caller under the rule
of its role. -/
structure WithinLimits (config : AdmissionConfig) (roleOf : String → String) (s : Ledger) :
    Prop where
  model : ∀ most, config.maxWaitingRequests = some most → count s .waiting ≤ (most : ℕ)
  caller : ∀ caller rule limits, ruleFor config (some (roleOf caller)) caller = some rule →
    rule.perCaller = some limits →
      count s (.w caller) ≤ limits.maxWaitingRequests
        ∧ count s (.a caller) ≤ limits.maxConcurrentRequests

/-- An admission is made under the role of its caller. -/
def Action.usesRole (roleOf : String → String) : Action → Prop
  | .enqueue _ _ caller role _ => role = roleOf caller
  | _ => True

/-- A call is made under an unchanged configuration and with one role a caller. -/
def Steady (config : AdmissionConfig) (roleOf : String → String) (s : Ledger) (c : Command) :
    Prop :=
  (s.config = none ∨ s.config = some config) ∧ c.action.usesRole roleOf

/-- The batches that can be dispatched carry the role of their caller. -/
def Roles (roleOf : String → String) (s : Ledger) : Prop :=
  ∀ x request, s.records.lookup x = some request → request.cancelled = false →
    request.role = some (roleOf request.caller)

lemma roles_next {roleOf : String → String} {s : Ledger} (hs : ledger.Reachable s) (c : Command)
    (h : Roles roleOf s) (hc : c.action.usesRole roleOf) : Roles roleOf (ledger.next s c) := by
  intro x r' hr' hcanc
  rcases record_next (stored_of_reachable hs) hr' with ⟨request, hr, rfl⟩ | ⟨-, -, hcreates⟩
  · rw [recordAfter_role, recordAfter_caller]
    refine h x request hr ?_
    by_contra hbefore
    simp [recordAfter_cancelled (by simpa using hbefore)] at hcanc
  · obtain ⟨id, ac⟩ := c
    cases hcreates with
    | enqueue =>
      change _ = roleOf _ at hc
      simp [fresh, hc]
    | negative => cases hcanc

lemma withinLimits_next {config : AdmissionConfig} {roleOf : String → String} {s : Ledger}
    (hs : ledger.Reachable s) (c : Command) (h : WithinLimits config roleOf s)
    (hroles : Roles roleOf s) (hc : Steady config roleOf s c) :
    WithinLimits config roleOf (ledger.next s c) := by
  have hconf : ∀ config', s.config = some config' → config' = config := by
    intro config' h'
    rcases hc.1 with hnone | hsome
    · simp [hnone] at h'
    · rw [hsome] at h'
      exact (some.inj h').symm
  refine ⟨fun most hmost => ?_, fun caller rule limits hrule hlim => ⟨?_, ?_⟩⟩
  · by_contra hover
    have hbefore := h.model most hmost
    obtain ⟨caller, -, config', _, _, _, _, hconf', -, -, hmodel, -⟩ :=
      waiting_rises hs c .waiting rfl (by omega)
    obtain rfl := hconf config' hconf'
    exact hover (hmodel most hmost)
  · by_contra hover
    have hbefore := (h.caller caller rule limits hrule hlim).1
    obtain ⟨caller', hname, config', _, _, role, _, hconf', hact, -, -, hbound⟩ :=
      waiting_rises hs c (.w caller) rfl (by omega)
    obtain rfl := hconf config' hconf'
    obtain rfl : caller = caller' := by simpa using hname
    have hrole := hc.2
    rw [hact] at hrole
    rw [← show role = roleOf caller from hrole] at hrule
    exact hover (hbound rule limits hrule hlim)
  · by_contra hover
    have hbefore := (h.caller caller rule limits hrule hlim).2
    obtain ⟨caller', hname, config', request, hconf', -, -, hr, hcaller, hcanc, hbound⟩ :=
      active_rises hs c (.a caller) rfl (by omega)
    obtain rfl := hconf config' hconf'
    obtain rfl : caller = caller' := by simpa using hname
    have hrole := hroles c.id request hr hcanc
    rw [hcaller] at hrole
    rw [← hrole] at hrule
    exact hover (hbound rule limits hrule hlim)

/-- **Shared capacity is never oversubscribed by an admission step.** In every reachable
state the waiting counters go up only by an `enqueue` that answers `ok` and the
concurrency counters only by a `dispatch` that answers `ok`, each within its
limits right after. So they stay within the limits in every run with an unchanged
configuration and one role a caller, whatever its interleaving. -/
theorem capacity_respected (cs : List Command) :
    (∀ c, (∀ name : Field, name.isWaiting →
          count (ledger.after cs) name < count (ledger.next (ledger.after cs) c) name →
          ∃ caller, (name = .waiting ∨ name = .w caller)
            ∧ AdmitsWithin (ledger.after cs) c caller)
        ∧ ∀ name : Field, name.isActive →
          count (ledger.after cs) name < count (ledger.next (ledger.after cs) c) name →
          ∃ caller, (name = .active ∨ name = .a caller)
            ∧ DispatchesWithin (ledger.after cs) c caller)
      ∧ ∀ config roleOf, ledger.Along (Steady config roleOf) ledger.init cs →
          WithinLimits config roleOf (ledger.after cs) := by
  refine ⟨fun c => ⟨waiting_rises (reachable_after cs) c,
    active_rises (reachable_after cs) c⟩, fun config roleOf h => ?_⟩
  have hinit : WithinLimits config roleOf ledger.init ∧ Roles roleOf ledger.init := by
    refine ⟨⟨fun most _ => Int.natCast_nonneg most, fun _ _ limits _ _ =>
      ⟨Int.natCast_nonneg _, Int.natCast_nonneg _⟩⟩, fun x request hr => ?_⟩
    simp [ledger, Ledger.empty, Finmap.lookup_empty] at hr
  refine (run_preserves (I := fun s => WithinLimits config roleOf s ∧ Roles roleOf s)
    reachable_init (fun s c hs hI hc => ?_) hinit h).1
  exact ⟨withinLimits_next hs c hI.1 hI.2 hc, roles_next hs c hI.2 hc.2⟩

/-- At most two requests wait, and a caller has one that waits and one that runs. -/
def limited : AdmissionConfig := ⟨some 2, [⟨"user", some ⟨1, 1⟩⟩], false⟩

/-- A caller sends three requests, and the dispatch of the second one is refused. -/
def limitedRun : List Command :=
  [⟨"", .publish 1 limited ["f"] ["p"]⟩, ⟨"", .registerOwner "f" 1⟩,
    ⟨"r", .enqueue "f" 1 "c" "user" 1⟩, ⟨"r", .dispatch⟩, ⟨"q", .enqueue "f" 1 "c" "user" 1⟩,
    ⟨"q", .dispatch⟩, ⟨"t", .enqueue "f" 1 "c" "user" 1⟩]

theorem capacity_respected_limited :
    WithinLimits limited (fun _ => "user") (ledger.after limitedRun)
      ∧ count (ledger.after limitedRun) (.w "c") = 1
      ∧ count (ledger.after limitedRun) (.a "c") = 1 := by
  refine ⟨(capacity_respected limitedRun).2 limited _ ?_, by decide, by decide⟩
  exact ⟨⟨.inl rfl, trivial⟩, ⟨.inr rfl, trivial⟩, ⟨.inr rfl, rfl⟩, ⟨.inr rfl, trivial⟩,
    ⟨.inr rfl, rfl⟩, ⟨.inr rfl, trivial⟩, ⟨.inr rfl, rfl⟩, trivial⟩

end Foretoken.RequestLedger
