import Foretoken.RequestLedger.Transition

/-!
What one call of the ledger can do, said once.

`Effect s id action s' reply` lists the writes of the script with the tests that lead to them, one
constructor a write, with the counters in the form `charge` or `charges`. The invariants of the
following modules are case analyses over it.
-/

namespace Foretoken.RequestLedger

open Slot FiniteMap

variable {s : Ledger} {request : Request} {slot : Slot} {k : ℕ} {action : Action}

/-! ### The slot after an action on it -/

/-- The slot after `reject_before_submission`. -/
def Slot.reject (owner : String) (slot : Slot) : Slot :=
  if owner ∉ slot.finishedOwners
      ∧ (slot.state = .waiting ∨ slot.state = .reserved ∨ slot.state = .handoff
        ∨ slot.held ∧ slot.owner = some owner) then
    slot.finish
  else slot

/-- The slot after `complete`. -/
def Slot.complete (owner : String) (finalStage : Bool) (slot : Slot) : Slot :=
  if slot.held ∧ slot.owner = some owner then
    { slot with
        state := if finalStage ∨ slot.state = .cancelling then .completed else .handoff
        finishedOwners := insert owner slot.finishedOwners }
  else slot

/-- The slot after `accept`. -/
def Slot.accept (owner pod : String) (epoch : ℕ) (slot : Slot) : Slot :=
  { slot with
      state := .accepted
      owner := some owner
      backendPod := some pod
      backendEpoch := some epoch }

lemma slotBody_rejectSlot (o : String) : SlotBody (rejectSlot o) (reject o) := by
  intro s request slot
  rw [rejectSlot, reject]
  split_ifs
  · exact slotBody_finishSlot s request slot
  · simp

lemma slotBody_completeSlot (o : String) (finalStage : Bool) :
    SlotBody (completeSlot o finalStage) (Slot.complete o finalStage) := by
  intro s request slot
  rw [completeSlot, Slot.complete]
  by_cases hown : slot.held ∧ slot.owner = some o
  swap
  · rw [if_neg hown, if_neg hown]
    simp
  rw [if_pos hown, if_pos hown]
  by_cases hfinal : finalStage ∨ slot.state = .cancelling
  · -- marking the owner changes no unit, so a final stage is charged as `finishSlot` is
    rw [if_pos hfinal, if_pos hfinal]
    exact slotBody_finishSlot s request _
  · have hacc : slot.state = .accepted := by
      have hheld := hown.1
      simp only [Slot.held, decide_eq_true_eq] at hheld
      tauto
    rw [if_neg hfinal, if_neg hfinal]
    simp [chargeSlot, Slot.waitUnits, Slot.activeUnits, Slot.openUnits, hacc]

/-- The slot action of `drop`, `reject_before_submission` and `complete`. -/
def Action.onSlot : Action → Option (ℕ × (Slot → Slot))
  | .drop k => some (k, cancel)
  | .rejectBeforeSubmission k owner => some (k, Slot.reject owner)
  | .complete k owner finalStage => some (k, Slot.complete owner finalStage)
  | _ => none

/-- The action accepts a slot. -/
def Action.isAccept : Action → Bool
  | .accept _ _ _ _ => true
  | _ => false

/-- The record with slot `k` replaced and `remaining` moved along. -/
def Request.setSlot (request : Request) (k : ℕ) (slot slot' : Slot) : Request :=
  { request with
      remaining := request.remaining + (slot'.openUnits - slot.openUnits)
      slots := request.slots.set k slot' }

lemma saveSlot_eq {body : Ledger → Request → Slot → Ledger × Request × Slot} {f : Slot → Slot}
    (h : SlotBody body f) (s : Ledger) (id : String) (request : Request) (k : ℕ) (slot : Slot) :
    saveSlot id k (body s request slot) =
      save { s with counts := chargeSlot s.counts request.caller slot (f slot) } id
        (request.setSlot k slot (f slot)) := by
  rw [h s request slot]
  rfl

/-! ### The records an action writes -/

/-- A fresh batch. -/
def Request.fresh (frontend : String) (epoch : ℕ) (caller role : String) (units : ℕ) : Request where
  caller := caller
  role := some role
  frontend := frontend
  epoch := epoch
  remaining := units
  slots := List.replicate units { state := .waiting }

/-- The record after `cancel_entry`. -/
def Request.cancel (request : Request) : Request :=
  { request with cancelled := true }.mapSlots Slot.cancel

/-- The negative record of an unknown batch. -/
def Request.negative (frontend : String) (epoch : ℕ) (caller : String) : Request where
  caller := caller
  role := none
  frontend := frontend
  epoch := epoch
  remaining := 0
  cancelled := true
  slots := []

/-- The record after `dispatch`. -/
def Request.reserve (request : Request) : Request :=
  { request with slots := request.slots.map Slot.reserve }

/-- The record after `retry`. -/
def Request.unreserve (request : Request) : Request :=
  { request with slots := request.slots.map Slot.unreserve }

/-- The waiting slots of a batch, which `dispatch` reserves. -/
def Request.needed (request : Request) : ℕ :=
  request.slots.countP fun slot => slot.state = .waiting

/-- The reserved slots of a batch, which `retry` returns. -/
def Request.returned (request : Request) : ℕ :=
  request.slots.countP fun slot => slot.state = .reserved

/-- An activated epoch is raised to a given one. -/
def raiseEpoch (s : Ledger) (name : Field) (epoch : ℕ) : Ledger :=
  if epoch > count s name then setCount s name epoch else s

/-- The slots `recover_backend` ends. -/
def recovered (pod : String) (epoch : ℕ) (slot : Slot) : Bool :=
  slot.backendPod = some pod && slot.backendEpoch.any (· < epoch)

/-- The records `register_owner` keeps. -/
def keepsOwner (frontend : String) (epoch : ℕ) (request : Request) : Bool :=
  request.frontend ≠ frontend || request.epoch = epoch

/-- The limits under which `enqueue` admits a batch. -/
structure Admits (s : Ledger) (config : AdmissionConfig) (caller role : String) (units : ℕ) :
    Prop where
  positive : 1 ≤ units
  rule : ∃ rule, ruleFor config (some role) caller = some rule ∧
    ∀ limits, rule.perCaller = some limits →
      count s (.w caller) + units ≤ limits.maxWaitingRequests
  model : ∀ most, config.maxWaitingRequests = some most → count s .waiting + units ≤ most

/-- The limit under which `dispatch` reserves a batch. -/
def Dispatches (s : Ledger) (config : AdmissionConfig) (request : Request) : Prop :=
  ∃ rule, ruleFor config request.role request.caller = some rule ∧
    ∀ limits, rule.perCaller = some limits →
      count s (.a request.caller) + request.needed ≤ limits.maxConcurrentRequests

/-! ### The effects -/

/-- The state in which an action of a request id is carried out: a configuration and
a membership are published and the batch is not known to be complete. -/
structure Open (s : Ledger) (id : String) (config : AdmissionConfig)
    (frontends : Finset String) : Prop where
  config_eq : s.config = some config
  frontends_eq : s.frontends = some frontends
  unfinished : ¬ (s.completions.lookup id ≠ none ∧ terminated s id)

/-- What one call writes. -/
inductive Effect (s : Ledger) (id : String) : Action → Ledger → Reply → Prop
  | unchanged (action : Action) (reply : Reply) : Effect s id action s reply
  | recover {pod : String} {epoch : ℕ} {backends : Finset String}
      (hbackends : s.backends = some backends) (hpod : pod ∈ backends)
      (hepoch : count s (.b pod) ≤ epoch) :
      Effect s id (.recoverBackend pod epoch)
        (finishBackendSlots (recovered pod epoch) (raiseEpoch s (.b pod) epoch)) .ok
  | publish (version : ℕ) (config : AdmissionConfig) (frontends backends : List String) :
      Effect s id (.publish version config frontends backends)
        (publish s version (some config) frontends backends) .ok
  | publishMembership (version : ℕ) (frontends backends : List String) :
      Effect s id (.publishMembership version frontends backends)
        (RequestLedger.publish s version none frontends backends) .ok
  | acknowledge (hdone : s.completions.lookup id ≠ none) (hterm : terminated s id) :
      Effect s id .acknowledge { s with completions := s.completions.erase id } .ok
  | allocate {config : AdmissionConfig} {frontends : Finset String} {frontend : String}
      (hopen : Open s id config frontends) (hmember : frontend ∈ frontends) :
      Effect s id (.allocateOwner frontend) (setCount s .ownerEpoch (count s .ownerEpoch + 1))
        (.epoch (count s .ownerEpoch + 1))
  | register {config : AdmissionConfig} {frontends : Finset String} {frontend : String} {epoch : ℕ}
      (hopen : Open s id config frontends) (hmember : frontend ∈ frontends)
      (hepoch : count s (.o frontend) < epoch) :
      Effect s id (.registerOwner frontend epoch)
        (retireFrontends (keepsOwner frontend epoch) (setCount s (.o frontend) epoch)) .ok
  | enqueue {config : AdmissionConfig} {frontends : Finset String} {frontend : String} {epoch : ℕ}
      {caller role : String} {units : ℕ} (hopen : Open s id config frontends)
      (hclosed : config.closed = false) (howns : owns s frontends frontend epoch)
      (hnone : s.records.lookup id = none) (hadmits : Admits s config caller role units) :
      Effect s id (.enqueue frontend epoch caller role units)
        (save { s with counts := charge s.counts caller units 0 } id
          (.fresh frontend epoch caller role units)) .ok
  | negative {config : AdmissionConfig} {frontends : Finset String} {frontend : String} {epoch : ℕ}
      {caller : String} (hopen : Open s id config frontends)
      (hnone : s.records.lookup id = none) (howns : owns s frontends frontend epoch) :
      Effect s id (.cancelEntry frontend epoch caller)
        (save s id (.negative frontend epoch caller)) .ok
  | cancel {config : AdmissionConfig} {frontends : Finset String} {frontend : String} {epoch : ℕ}
      {caller : String} {request : Request} (hopen : Open s id config frontends)
      (hr : s.records.lookup id = some request) :
      Effect s id (.cancelEntry frontend epoch caller)
        (save { s with counts := charges cancel request.caller s.counts request.slots } id
          request.cancel) .ok
  | retain {config : AdmissionConfig} {frontends : Finset String} {consumer : String}
      {request : Request} (hopen : Open s id config frontends)
      (hr : s.records.lookup id = some request) (hcancelled : request.cancelled = false)
      (hretired : request.retired = false) (haccepted : request.accepted = false)
      (hremaining : request.remaining ≠ 0)
      (howns : owns s frontends request.frontend request.epoch) :
      Effect s id (.retainCompletion consumer)
        { s with completions := s.completions.insert id consumer } .ok
  | dispatch {config : AdmissionConfig} {frontends : Finset String} {request : Request}
      (hopen : Open s id config frontends) (hclosed : config.closed = false)
      (hr : s.records.lookup id = some request) (hcancelled : request.cancelled = false)
      (hretired : request.retired = false) (hlimit : Dispatches s config request) :
      Effect s id .dispatch
        (save { s with counts := charge s.counts request.caller 0 request.needed } id
          request.reserve) .ok
  | retry {config : AdmissionConfig} {frontends : Finset String} {request : Request}
      (hopen : Open s id config frontends) (hr : s.records.lookup id = some request)
      (haccepted : request.accepted = false) :
      Effect s id .retry
        (save { s with counts := charge s.counts request.caller 0 (-request.returned) } id
          request.unreserve) .ok
  | accept {config : AdmissionConfig} {frontends backends : Finset String} {request : Request}
      {k : ℕ} {slot : Slot} {owner pod : String} {epoch : ℕ} (hopen : Open s id config frontends)
      (hr : s.records.lookup id = some request) (hslot : request.slots[k]? = some slot)
      (hbackends : s.backends = some backends) (hpod : pod ∈ backends)
      (hepoch : count s (.b pod) ≤ epoch) (hfinished : owner ∉ slot.finishedOwners)
      (hstate : slot.state = .reserved ∨ slot.state = .handoff) :
      Effect s id (.accept k owner pod epoch)
        (save (raiseEpoch
            { s with counts :=
                chargeSlot s.counts request.caller slot (slot.accept owner pod epoch) }
            (.b pod) epoch) id
          { request.setSlot k slot (slot.accept owner pod epoch) with accepted := true }) .ok
  | slot {config : AdmissionConfig} {frontends : Finset String} {request : Request} {k : ℕ}
      {slot : Slot} {action : Action} {f : Slot → Slot} (hopen : Open s id config frontends)
      (hr : s.records.lookup id = some request) (haction : action.onSlot = some (k, f))
      (hslot : request.slots[k]? = some slot) :
      Effect s id action
        (save { s with counts := chargeSlot s.counts request.caller slot (f slot) } id
          (request.setSlot k slot (f slot))) .ok

/-! ### Every call has an effect -/

lemma adjust_waiting (s : Ledger) (u : String) (n : ℤ) :
    adjust (adjust s .waiting n) (.w u) n
      = { s with counts := charge s.counts u n 0 } := by
  simp [adjust, charge]

lemma adjust_active (s : Ledger) (u : String) (n : ℤ) :
    adjust s (.a u) n = { s with counts := charge s.counts u 0 n } := by
  simp [adjust, charge]

/-- `recover_backend` of an epoch that is not behind. -/
lemma recoverBackend_eq {pod : String} {n : ℕ} {bs : Finset String}
    (hback : s.backends = some bs) (hpod : pod ∈ bs)
    (hepoch : count s (.b pod) ≤ n) :
    recoverBackend s pod n
      = finishBackendSlots (recovered pod n) (raiseEpoch s (.b pod) n) := by
  rw [recoverBackend, hback]
  dsimp only
  rw [if_neg (not_not.mpr hpod), if_neg (not_lt.mpr hepoch)]
  rfl

lemma effect_recoverBackend (s : Ledger) (id pod : String) (n : ℕ) :
    Effect s id (.recoverBackend pod n) (recoverBackend s pod n) .ok := by
  fun_cases recoverBackend
  case case4 bs hback hpod _ hold _ => exact .recover hback (not_not.mp hpod) (not_lt.mp hold)
  all_goals exact .unchanged _ _

lemma effect_acknowledge (s : Ledger) (id : String) :
    Effect s id .acknowledge (acknowledge s id).1 (acknowledge s id).2 := by
  fun_cases acknowledge with
  | case3 hdone hterm => exact .acknowledge hdone hterm
  | _ => exact .unchanged _ _

section Scoped

variable {id : String} {config : AdmissionConfig} {frontends : Finset String}

section

variable (hopen : Open s id config frontends)
include hopen

lemma effect_allocateOwner (f : String) :
    Effect s id (.allocateOwner f) (allocateOwner s frontends f).1
      (allocateOwner s frontends f).2 := by
  fun_cases allocateOwner with
  | case1 => exact .unchanged _ _
  | case2 hmember => exact .allocate hopen (not_not.mp hmember)

lemma effect_registerOwner (f : String) (n : ℕ) :
    Effect s id (.registerOwner f n) (registerOwner s frontends f n).1
      (registerOwner s frontends f n).2 := by
  fun_cases registerOwner
  case case3 hmember _ _ hnew _ => exact .register hopen (not_not.mp hmember) hnew
  all_goals exact .unchanged _ _

lemma effect_enqueue (hclosed : config.closed = false) (f : String) (n : ℕ) (u role : String)
    (units : ℕ) :
    Effect s id (.enqueue f n u role units)
      (enqueue s config frontends id f n u role units).1
      (enqueue s config frontends id f n u role units).2 := by
  fun_cases enqueue
  case case9 howns hr rule hrule hunits _ hmodel hcaller _ s₁ s₂ =>
    simp only [s₂, s₁, adjust_waiting]
    refine .enqueue hopen hclosed (by simpa using howns) hr
      ⟨not_lt.mp hunits, ⟨rule, hrule, fun limits hl => ?_⟩, fun most hm => ?_⟩
    · simpa [hl] using hcaller
    · simpa [hm] using hmodel
  all_goals exact .unchanged _ _

end

lemma cancelRecord_eq (s : Ledger) (id : String) (request : Request) :
    cancelRecord s id request =
      save { s with counts := charges cancel request.caller s.counts request.slots } id
        request.cancel := by
  rw [cancelRecord, overSlots_eq slotBody_cancelSlot]
  rfl

section

variable (hopen : Open s id config frontends)
include hopen

lemma effect_cancelEntry (f : String) (n : ℕ) (u : String) :
    Effect s id (.cancelEntry f n u)
      (cancelEntry s frontends id f n u) .ok := by
  fun_cases cancelEntry with
  | case1 request hr =>
    rw [cancelRecord_eq]
    exact .cancel hopen hr
  | case2 => exact .unchanged _ _
  | case3 hr howns =>
    rw [cancelRecord_eq]
    exact .negative hopen hr (by simpa using howns)

lemma effect_retainCompletion (hr : s.records.lookup id = some request) (c : String) :
    Effect s id (.retainCompletion c) (retainCompletion s frontends id request c).1
      (retainCompletion s frontends id request c).2 := by
  fun_cases retainCompletion with
  | case1 => exact .unchanged _ _
  | case2 hclosed =>
    simp only [Bool.or_eq_true, not_or, Bool.not_eq_true, decide_eq_true_eq, Bool.not_eq_false,
      Bool.not_eq_eq_eq_not, Bool.not_true] at hclosed
    obtain ⟨⟨⟨⟨hcanc, hret⟩, hacc⟩, hrem⟩, howns⟩ := hclosed
    exact .retain hopen hr hcanc hret hacc hrem (by simpa using howns)

lemma effect_dispatch (hclosed : config.closed = false) (hr : s.records.lookup id = some request) :
    Effect s id .dispatch (dispatch s config id request).1 (dispatch s config id request).2 := by
  fun_cases dispatch
  case case5 hgone rule hrule _ _ hbusy _ s₁ =>
    simp only [Bool.or_eq_true, not_or, Bool.not_eq_true] at hgone
    simp only [s₁, adjust_active]
    refine .dispatch hopen hclosed hr hgone.1 hgone.2 ⟨rule, hrule, fun limits hl => ?_⟩
    simpa [hl, Request.needed] using hbusy
  all_goals exact .unchanged _ _

lemma effect_retry (hr : s.records.lookup id = some request) :
    Effect s id .retry (retry s id request).1 (retry s id request).2 := by
  fun_cases retry with
  | case1 => exact .unchanged _ _
  | case2 hacc => exact .retry hopen hr (by simpa using hacc)

end

/-- A charge leaves the epochs alone. -/
lemma read_charge_epoch (m : Finmap fun _ : Field => ℤ) (caller : String) (wait active : ℤ)
    {name : Field} (h : ¬ name.isCounter) :
    read (charge m caller wait active) name = read m name := by
  cases name <;> simp [Field.isCounter, charge, moveCounts, read_bump] at h ⊢

lemma accepted_eq {o pod : String} {n : ℕ}
    (hstate : slot.state = .reserved ∨ slot.state = .handoff) :
    saveSlot id k (if n > count s (.b pod) then
            setCount (if slot.state = .reserved then
              adjust (adjust s .waiting (-1)) (.w request.caller) (-1) else s) (.b pod) n
          else if slot.state = .reserved then
            adjust (adjust s .waiting (-1)) (.w request.caller) (-1) else s,
          { request with accepted := true },
          { slot with
              state := .accepted
              owner := some o
              backendPod := some pod
              backendEpoch := some n })
      = save (raiseEpoch
            { s with counts :=
                chargeSlot s.counts request.caller slot (slot.accept o pod n) }
            (.b pod) n) id
          { request.setSlot k slot (slot.accept o pod n) with accepted := true } := by
  have hcounts : (if slot.state = .reserved then
      adjust (adjust s .waiting (-1)) (.w request.caller) (-1) else s)
        = { s with counts :=
              chargeSlot s.counts request.caller slot (slot.accept o pod n) } := by
    rcases hstate with h | h <;>
      simp [h, adjust_waiting, chargeSlot, Slot.accept, Slot.waitUnits, Slot.activeUnits]
  have hopen : (slot.accept o pod n).openUnits - slot.openUnits = 0 := by
    rcases hstate with h | h <;> simp [h, Slot.accept, Slot.openUnits]
  have hcount : read
      (chargeSlot s.counts request.caller slot (slot.accept o pod n)) (.b pod)
        = read s.counts (.b pod) :=
    read_charge_epoch _ _ _ _ (by simp [Field.isCounter])
  rw [hcounts, raiseEpoch, count, count, hcount, Request.setSlot, hopen, add_zero]
  rfl

section

variable (hopen : Open s id config frontends) (hr : s.records.lookup id = some request)
include hopen hr

lemma effect_accept (hslot : request.slots[k]? = some slot) (o pod : String) (n : ℕ) :
    Effect s id (.accept k o pod n) (accept s id request k slot o pod n).1
      (accept s id request k slot o pod n).2 := by
  fun_cases accept
  case case7 bs hback hpod _ hold hfin hown hopened s₁ s₂ slot' =>
    have hstate : slot.state = .reserved ∨ slot.state = .handoff := by tauto
    simp only [s₂, s₁, slot']
    rw [accepted_eq hstate]
    exact .accept hopen hr hslot hback (not_not.mp hpod) (not_lt.mp hold) hfin hstate
  all_goals exact .unchanged _ _

lemma effect_slotted (action : Action) :
    Effect s id action (slotted s id request action).1 (slotted s id request action).2 := by
  fun_cases slotted with
  | case2 k o pod n slot hslot => exact effect_accept hopen hr hslot _ _ _
  | case4 k slot hslot =>
    rw [saveSlot_eq slotBody_cancelSlot]
    exact .slot hopen hr rfl hslot
  | case6 k o slot hslot =>
    rw [saveSlot_eq (slotBody_rejectSlot _)]
    exact .slot hopen hr rfl hslot
  | case8 k o final slot hslot =>
    rw [saveSlot_eq (slotBody_completeSlot _ _)]
    exact .slot hopen hr rfl hslot
  | _ => exact .unchanged _ _

end

lemma effect_recorded (hopen : Open s id config frontends)
    (hclosed : action = .dispatch → config.closed = false) :
    Effect s id action (recorded s config frontends id action).1
      (recorded s config frontends id action).2 := by
  fun_cases recorded with
  | case4 request hr => exact effect_retainCompletion hopen hr _
  | case5 request hr => exact effect_dispatch hopen (hclosed rfl) hr
  | case6 request hr => exact effect_retry hopen hr
  | case7 request hr => exact effect_slotted hopen hr _
  | _ => exact .unchanged _ _

end Scoped

lemma effect_published {id : String}
    (hunf : ¬ (s.completions.lookup id ≠ none ∧ terminated s id)) (action : Action) :
    Effect s id action (published s id action).1 (published s id action).2 := by
  fun_cases published with
  | case3 config hconf frontends hfront =>
    exact effect_allocateOwner ⟨hconf, hfront, hunf⟩ _
  | case4 config hconf frontends hfront =>
    exact effect_registerOwner ⟨hconf, hfront, hunf⟩ _ _
  | case7 config hconf frontends hfront f n u role units hclosed =>
    exact effect_enqueue ⟨hconf, hfront, hunf⟩ (by simpa using hclosed) _ _ _ _ _
  | case8 config hconf frontends hfront =>
    exact effect_cancelEntry ⟨hconf, hfront, hunf⟩ _ _ _
  | case10 config hconf frontends hfront hclosed =>
    exact effect_recorded ⟨hconf, hfront, hunf⟩ fun _ => by simpa using hclosed
  | case11 config hconf frontends hfront a _ _ _ _ _ hdispatch =>
    exact effect_recorded ⟨hconf, hfront, hunf⟩ fun h => absurd h hdispatch
  | _ => exact .unchanged _ _

/-- **The effects of a call**: every call does what one of the constructors says. -/
theorem transition_effect (s : Ledger) (id : String) (action : Action) :
    Effect s id action (transition s id action).1 (transition s id action).2 := by
  have hguarded : Effect s id action (guarded s id action).1 (guarded s id action).2 := by
    rw [guarded]
    split_ifs with hdone
    · exact .unchanged _ _
    · exact effect_published hdone action
  cases action with
  | recoverBackend pod epoch => exact effect_recoverBackend s id pod epoch
  | publish version config frontends backends => exact .publish version config frontends backends
  | publishMembership version frontends backends =>
    exact .publishMembership version frontends backends
  | frontendActive | completedConsumers | finished => exact .unchanged _ _
  | acknowledge => exact effect_acknowledge s id
  | _ => exact hguarded

lemma call_effect (s : Ledger) (c : Command) :
    Effect s c.id c.action (ledger.next s c) (ledger.reply s c) :=
  transition_effect s c.id c.action

/-! ### Refused commands -/

/-- The replies to the commands that may write. -/
def Reply.writes : Reply → Bool
  | .ok | .epoch _ => true
  | _ => false

lemma next_of_refused {c : Command} (h : (ledger.reply s c).writes = false) :
    ledger.next s c = s := by
  have heffect := call_effect s c
  generalize ledger.next s c = s' at heffect ⊢
  generalize ledger.reply s c = reply at heffect h
  generalize c.action = action at heffect
  -- every other effect is answered with `ok` or an epoch
  cases heffect with
  | unchanged => rfl
  | _ => cases h

/-- **The state after a run is that after the commands which were not refused.** -/
theorem run_without_refused (s : Ledger) (cs : List Command) :
    ledger.run s cs =
      ledger.run s (((ledger.trace s cs).filter (·.2.writes)).map Prod.fst) := by
  induction cs generalizing s with
  | nil => rfl
  | cons c cs ih =>
    rw [Machine.run_cons, Machine.trace, List.filter_cons, ih]
    split_ifs with hwrites
    · rfl
    · rw [next_of_refused (by simpa using hwrites)]

/-! ### The stages of an open batch -/

section Stages

variable {id : String} {config : AdmissionConfig} {frontends : Finset String}

section

variable (h : Open s id config frontends)
include h

lemma guarded_open (action : Action) :
    guarded s id action = published s id action := if_neg h.unfinished

lemma transition_cancelEntry (f : String) (n : ℕ) (u : String) :
    transition s id (.cancelEntry f n u)
      = (cancelEntry s frontends id f n u, .ok) := by
  change guarded s id _ = _
  simp only [guarded_open h, published, h.config_eq, h.frontends_eq]

lemma transition_retainCompletion (hr : s.records.lookup id = some request) (consumer : String) :
    transition s id (.retainCompletion consumer)
      = retainCompletion s frontends id request consumer := by
  change guarded s id _ = _
  simp only [guarded_open h, published, h.config_eq, h.frontends_eq, recorded, hr]

lemma transition_dispatch (hclosed : config.closed = false)
    (hr : s.records.lookup id = some request) :
    transition s id .dispatch = dispatch s config id request := by
  change guarded s id _ = _
  simp only [guarded_open h, published, h.config_eq, h.frontends_eq, hclosed, recorded, hr]
  rfl

section

variable (hr : s.records.lookup id = some request)
include hr

lemma transition_retry :
    transition s id .retry = retry s id request := by
  change guarded s id _ = _
  simp only [guarded_open h, published, h.config_eq, h.frontends_eq, recorded, hr]

lemma transition_slotted (hact : action.isAccept ∨ action.onSlot ≠ none) :
    transition s id action = slotted s id request action := by
  cases action <;> simp only [Action.isAccept, Action.onSlot, ne_eq, not_true_eq_false, or_false,
    Bool.false_eq_true] at hact
  all_goals
    change guarded s id _ = _
    simp only [guarded_open h, published, h.config_eq, h.frontends_eq, recorded, hr]

lemma transition_accept (hslot : request.slots[k]? = some slot) (owner pod : String) (epoch : ℕ) :
    transition s id (.accept k owner pod epoch) = accept s id request k slot owner pod epoch := by
  rw [transition_slotted h hr (.inl rfl)]
  simp only [slotted, hslot]

lemma transition_onSlot {f : Slot → Slot} (hact : action.onSlot = some (k, f))
    (hslot : request.slots[k]? = some slot) :
    transition s id action
      = (save { s with counts := chargeSlot s.counts request.caller slot (f slot) } id
        (request.setSlot k slot (f slot)), .ok) := by
  rw [transition_slotted h hr (.inr (by simp [hact]))]
  cases action <;> simp only [Action.onSlot, reduceCtorEq] at hact
  all_goals
    obtain ⟨rfl, rfl⟩ := hact
    simp only [slotted, hslot]
  · rw [saveSlot_eq slotBody_cancelSlot]
  · rw [saveSlot_eq (slotBody_rejectSlot _)]
  · rw [saveSlot_eq (slotBody_completeSlot _ _)]

end

end

end Stages

/-- An action past the guard found its settings published. -/
lemma open_of_ok {id : String} (hguard : guardReply action = .closed)
    (h : (guarded s id action).2 = .ok) :
    ∃ config frontends, Open s id config frontends ∧ (published s id action).2 = .ok := by
  rw [guarded] at h
  by_cases hdone : s.completions.lookup id ≠ none ∧ terminated s id
  · simp [if_pos hdone, hguard] at h
  rw [if_neg hdone] at h
  cases hconf : s.config with
  | none =>
    simp [published, hconf] at h
  | some config =>
    cases hfront : s.frontends with
    | none =>
      simp only [published, hconf, hfront, reduceCtorEq] at h
    | some frontends => exact ⟨config, frontends, ⟨hconf, hfront, hdone⟩, h⟩

end Foretoken.RequestLedger
