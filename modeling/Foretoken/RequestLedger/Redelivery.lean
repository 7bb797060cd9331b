import Foretoken.RequestLedger.Fence
import Foretoken.RequestLedger.Client

/-!
Commands delivered twice.

The client repeats a command whenever it does not hear the reply. Each write of `Effect` leaves a
state in which the same call writes nothing, and the client makes the same of its reply, which may
itself differ: a repeated `reject_before_submission` may find the record deleted.
-/

namespace Foretoken.RequestLedger

open Slot Request List

variable {s : Ledger} {id : String} {request : Request} {f : Slot → Slot} {slot : Slot}
  {action : Action} {k epoch : ℕ}

open FiniteMap

/-! ### Writes that change nothing -/

lemma rewriteAll_self {plan : Request → Option ((Slot → Slot) × Request)}
    (h : ∀ x request, s.records.lookup x = some request → plan request = none) :
    rewriteAll plan s = s := by
  refine rewriteAll_preserves (P := fun t => t = s) (fun t id ht => ?_) rfl
  subst ht
  rw [rewriteField]
  cases hr : t.records.lookup id with
  | none => rfl
  | some request => simp [h id request hr]

lemma save_self (h : s.records.lookup id = some request) (hkept : request.kept = some request) :
    save s id request = s := by
  rw [save, hkept, putRecord, insert_eq_self h]

lemma charges_self (u : String) (m : Finmap fun _ : Field => ℤ) {ss : List Slot}
    (h : ∀ slot ∈ ss, f slot = slot) : charges f u m ss = m := by
  induction ss with
  | nil => rfl
  | cons slot rest ih =>
    rw [charges, h slot mem_cons_self, chargeSlot_self]
    exact ih fun slot' hslot' => h slot' (mem_cons_of_mem _ hslot')

lemma Slot.cancel_cancel (slot : Slot) : slot.cancel.cancel = slot.cancel := by
  cases h : slot.state <;> simp [cancel, finish, h]

lemma Slot.cancel_of_revoked (h : slot.revoked) : slot.cancel = slot := by
  obtain ⟨st, owner, pod, epoch, finished⟩ := slot
  cases st <;> simp [revoked] at h <;> rfl

/-- A slot that was rewritten is left alone. -/
lemma onSlot_again (h : action.onSlot = some (k, f)) (slot : Slot) : f (f slot) = f slot := by
  cases action <;> simp only [Action.onSlot, reduceCtorEq] at h
  · obtain ⟨-, rfl⟩ := h
    exact slot.cancel_cancel
  · obtain ⟨-, rfl⟩ := h
    rcases slot.reject_eq _ with h | h <;> rw [h]
    · exact h
    · simp [reject, finish]
  · obtain ⟨-, rfl⟩ := h
    rcases slot.complete_eq _ _ with h | ⟨-, -, st, rfl | ⟨rfl, -⟩, h⟩ <;> rw [h]
    · exact h
    all_goals simp [complete, held]

/-- A publication that has been applied is not newer any more. -/
lemma publish_again (hs : ledger.Reachable s) {c : Command} (hpub : c.action.publishes) :
    ledger.next (ledger.next s c) c = ledger.next s c := by
  obtain ⟨cs, rfl⟩ := hs
  rw [← Machine.after_concat]
  exact next_applied (by simp) hpub

/-- A recovery that has been applied has nothing left to end. -/
lemma recover_again (hs : ledger.Reachable s) {pod : String} {backends : Finset String}
    (hback : s.backends = some backends) (hpod : pod ∈ backends)
    (hepoch : count s (.b pod) ≤ epoch) :
    recoverBackend (finishBackendSlots (recovered pod epoch) (raiseEpoch s (.b pod) epoch)) pod
        epoch
      = finishBackendSlots (recovered pod epoch) (raiseEpoch s (.b pod) epoch) := by
  have hnone := noneHeldBelow_recover hs "" (by simp [isMember, hback, hpod]) hepoch
  change NoneHeldBelow (recoverBackend s pod epoch) pod epoch at hnone
  rw [recoverBackend_eq hback hpod hepoch] at hnone
  have hcount : count (finishBackendSlots (recovered pod epoch) (raiseEpoch s (.b pod) epoch))
      (.b pod) = epoch := by
    rw [finishBackendSlots_eq, count_rewriteAll _ _ (by simp [Field.isCounter]), count_raiseEpoch,
      if_pos rfl, max_eq_right hepoch]
  have hmems : (finishBackendSlots (recovered pod epoch) (raiseEpoch s (.b pod) epoch)).backends
      = some backends := by
    rw [finishBackendSlots_eq, (members_rewriteAll _ _).2, (members_raiseEpoch _ _ _).2, hback]
  rw [recoverBackend_eq hmems hpod hcount.le, raiseEpoch, if_neg (by omega), finishBackendSlots_eq]
  refine rewriteAll_self fun x request hr => if_neg ?_
  simp only [any_eq_true, not_exists, not_and]
  intro slot hslot hends
  simp only [ends, held, recovered, Bool.and_eq_true, decide_eq_true_eq,
    Option.any_eq_true] at hends
  obtain ⟨⟨hheld, -⟩, hslotPod, old, hold, hlt⟩ := hends
  have hle := hnone x request hr slot hslot hheld hslotPod old hold
  omega

/-! ### The second delivery -/

/-- A call that leaves as much to do leaves the batch open. -/
lemma Open.saved {s' : Ledger} {config : AdmissionConfig} {frontends : Finset String}
    (h : Open s id config frontends) (hconf : s'.config = s.config)
    (hfront : s'.frontends = s.frontends) (hcomps : s'.completions = s.completions)
    (hterm : terminated s' id → terminated s id) : Open s' id config frontends :=
  ⟨hconf.trans h.config_eq, hfront.trans h.frontends_eq, fun hdone =>
    h.unfinished ⟨hcomps ▸ hdone.1, hterm hdone.2⟩⟩

lemma terminated_of_remaining {t : Ledger} {request' : Request}
    (hr : s.records.lookup id = some request) (hr' : t.records.lookup id = some request')
    (hrem : request'.remaining = request.remaining) :
    terminated t id → terminated s id := by
  simp [terminated, hr, hr', hrem]

section Again

variable {t : Ledger} {config : AdmissionConfig} {frontends : Finset String}

lemma acknowledge_again (hterm : terminated s id) :
    transition { s with completions := s.completions.erase id } id .acknowledge
      = ({ s with completions := s.completions.erase id }, .ok) := by
  change acknowledge _ id = _
  rwa [acknowledge, if_pos (Finmap.lookup_erase id s.completions), if_pos]

lemma register_again (hopen : Open s id config frontends) {frontend : String}
    (hmember : frontend ∈ frontends) (hdone : s.completions.lookup id = none)
    (ht : t = retireFrontends (keepsOwner frontend epoch) (setCount s (.o frontend) epoch)) :
    transition t id (.registerOwner frontend epoch) = (t, .ok) := by
  have hcount : count t (.o frontend) = epoch := by
    rw [ht, retireFrontends_eq, count_rewriteAll _ _ (by simp [Field.isCounter]), setCount, count,
      read_insert, if_pos rfl]
  have hagain : Open t id config frontends := by
    obtain ⟨m, records, hframe, -⟩ :=
      rewriteAll_frame (retirePlan (keepsOwner frontend epoch)) (setCount s (.o frontend) epoch)
    rw [ht, retireFrontends_eq, hframe]
    exact ⟨hopen.config_eq, hopen.frontends_eq, fun h => h.1 hdone⟩
  change guarded t id _ = _
  simp only [guarded_open hagain, published, hagain.config_eq, hagain.frontends_eq, registerOwner,
    hcount, lt_irrefl, if_false, not_not.mpr hmember]

lemma enqueue_again (hopen : Open s id config frontends) (hclosed : config.closed = false)
    {frontend : String} (howns : owns s frontends frontend epoch)
    (hnone : s.records.lookup id = none) {caller role : String} {units : ℕ} (hunits : 1 ≤ units)
    (ht : t = save { s with counts := charge s.counts caller units 0 } id
      (.fresh frontend epoch caller role units)) :
    transition t id (.enqueue frontend epoch caller role units) = (t, .ok) := by
  have hr : t.records.lookup id = some (.fresh frontend epoch caller role units) := by
    rw [ht, lookup_save, kept, if_neg]
    simp only [fresh]
    omega
  have hagain : Open t id config frontends := by
    rw [ht]
    exact hopen.saved rfl rfl rfl fun _ => terminated_of_none hnone
  have howns' : owns t frontends frontend epoch := by
    simp only [owns] at howns ⊢
    rw [ht, count_charged _ _ _ _ _ _ (by simp [Field.isCounter])]
    exact howns
  change guarded t id _ = _
  simp only [guarded_open hagain, published, hagain.config_eq, hagain.frontends_eq, hclosed,
    enqueue, howns', hr]
  rfl

/-- A cancelled record is cancelled again without a write. -/
lemma cancelRecord_self (hr : t.records.lookup id = some request)
    (hkept : request.kept = some request) (hcanc : request.cancelled)
    (hslots : ∀ slot ∈ request.slots, slot.cancel = slot) : cancelRecord t id request = t := by
  have hreq : request.cancel = request := by
    have hmark : { request with cancelled := true } = request := by rw [← hcanc]
    rw [Request.cancel, hmark]
    exact mapSlots_self hslots
  rw [cancelRecord_eq, hreq, charges_self _ _ hslots]
  exact save_self hr hkept

lemma cancelEntry_again (hconf : t.config = some config)
    (hfront : t.frontends = some frontends) (hr : t.records.lookup id = some request)
    (hkept : request.kept = some request) (hcanc : request.cancelled)
    (hslots : ∀ slot ∈ request.slots, slot.cancel = slot) (fe : String) (epoch : ℕ)
    (u : String) : transition t id (.cancelEntry fe epoch u) = (t, .ok) := by
  by_cases hdone : t.completions.lookup id ≠ none ∧ terminated t id
  · exact guarded_of_terminated hdone.1 hdone.2 _
  · rw [transition_cancelEntry ⟨hconf, hfront, hdone⟩, cancelEntry, hr]
    dsimp only
    rw [cancelRecord_self hr hkept hcanc hslots]

lemma negative_again (hopen : Open s id config frontends) (frontend : String) (epoch : ℕ)
    (caller : String) (ht : t = save s id (.negative frontend epoch caller)) :
    transition t id (.cancelEntry frontend epoch caller) = (t, .ok) := by
  have hr : t.records.lookup id = some (.negative frontend epoch caller) := by
    rw [ht, lookup_save]
    rfl
  have hconf : t.config = some config := ht ▸ hopen.config_eq
  have hfront : t.frontends = some frontends := ht ▸ hopen.frontends_eq
  exact cancelEntry_again hconf hfront hr rfl rfl (fun slot hslot => by cases hslot) _ _ _

lemma cancel_again (hs : ledger.Reachable s) (hopen : Open s id config frontends)
    (hr : s.records.lookup id = some request) (frontend : String) (epoch : ℕ) (caller : String)
    (ht : t = save { s with counts := charges cancel request.caller s.counts request.slots } id
      request.cancel) : transition t id (.cancelEntry frontend epoch caller) = (t, .ok) := by
  -- a retired record has something left that `cancel_entry` does not end
  have hkept : request.cancel.kept = some request.cancel := by
    by_cases hret : request.retired
    · have hsame : request.cancel = { request with cancelled := true } := by
        refine mapSlots_self fun slot hslot => cancel_of_revoked ?_
        exact (owned_of_reachable hs id request hr).revoked (.inr hret) slot hslot
      have hstored := (stored_of_reachable hs).kept id request hr
      have hrem : request.remaining ≠ 0 := by simpa [kept, hret] using hstored
      rw [hsame, kept, if_neg fun h => hrem h.1]
    · rw [kept, if_neg]
      rintro ⟨-, h | h⟩
      · cases h
      · exact hret h
  have hr' : t.records.lookup id = some request.cancel := by rw [ht, lookup_save, hkept]
  have hconf : t.config = some config := ht ▸ hopen.config_eq
  have hfront : t.frontends = some frontends := ht ▸ hopen.frontends_eq
  refine cancelEntry_again hconf hfront hr' hkept rfl (fun slot hslot => ?_) _ _ _
  obtain ⟨slot', -, rfl⟩ := mem_map.mp hslot
  exact slot'.cancel_cancel

lemma retain_again (hopen : Open s id config frontends) {consumer : String}
    (hr : s.records.lookup id = some request) (hcanc : request.cancelled = false)
    (hret : request.retired = false) (hacc : request.accepted = false)
    (hrem : request.remaining ≠ 0) (howns : owns s frontends request.frontend request.epoch)
    (ht : t = { s with completions := s.completions.insert id consumer }) :
    transition t id (.retainCompletion consumer) = (t, .ok) := by
  have hr' : t.records.lookup id = some request := ht ▸ hr
  have hagain : Open t id config frontends := by
    refine ⟨ht ▸ hopen.config_eq, ht ▸ hopen.frontends_eq, fun h => ?_⟩
    simp [terminated, hr', hrem] at h
  have howns' : owns t frontends request.frontend request.epoch := ht ▸ howns
  have hinsert : { t with completions := t.completions.insert id consumer } = t := by
    rw [ht]
    simp
  rw [transition_retainCompletion hagain hr', retainCompletion, hinsert]
  simp [hcanc, hret, hacc, hrem, howns']

/-- A record with as much to do stays stored. -/
lemma kept_of_kept {request' : Request} (h : request.kept = some request)
    (hrem : request'.remaining = request.remaining)
    (hcanc : request'.cancelled = request.cancelled)
    (hret : request'.retired = request.retired) : request'.kept = some request' := by
  rw [kept] at h ⊢
  rw [hrem, hcanc, hret]
  split_ifs at h ⊢ with hdelete
  rfl

lemma Slot.reserve_ne (slot : Slot) : slot.reserve.state ≠ .waiting := by
  rw [reserve]
  split_ifs with h
  · simp
  · exact h

lemma Slot.unreserve_ne (slot : Slot) : slot.unreserve.state ≠ .reserved := by
  rw [unreserve]
  split_ifs with h
  · simp
  · exact h

section

variable (request : Request)

lemma needed_reserve : request.reserve.needed = 0 := by
  simp [Request.needed, Request.reserve, Slot.reserve_ne]

lemma returned_unreserve : request.unreserve.returned = 0 := by
  simp [Request.returned, Request.unreserve, Slot.unreserve_ne]

lemma reserve_reserve : request.reserve.reserve = request.reserve := by
  have hslot : ∀ slot : Slot, slot.reserve.reserve = slot.reserve := fun slot =>
    if_neg slot.reserve_ne
  simp [Request.reserve, hslot]

lemma unreserve_unreserve :
    request.unreserve.unreserve = request.unreserve := by
  have hslot : ∀ slot : Slot, slot.unreserve.unreserve = slot.unreserve := fun slot =>
    if_neg slot.unreserve_ne
  simp [Request.unreserve, hslot]

end

section

variable (hs : ledger.Reachable s) (hopen : Open s id config frontends)
include hs hopen

lemma dispatch_again (hclosed : config.closed = false) (hr : s.records.lookup id = some request)
    (hcanc : request.cancelled = false) (hret : request.retired = false)
    (hlimit : Dispatches s config request)
    (ht : t = save { s with counts := charge s.counts request.caller 0 request.needed } id
      request.reserve) : transition t id .dispatch = (t, .ok) := by
  have hkept : request.reserve.kept = some request.reserve :=
    kept_of_kept ((stored_of_reachable hs).kept id request hr) rfl rfl rfl
  have hr' : t.records.lookup id = some request.reserve := by rw [ht, lookup_save, hkept]
  have hagain : Open t id config frontends := by
    refine hopen.saved ?_ ?_ ?_ (terminated_of_remaining hr hr' rfl) <;> rw [ht] <;> rfl
  have hcount : count t (.a request.caller) = count s (.a request.caller) + request.needed := by
    rw [ht]
    simp [count, save, charge, moveCounts, read_bump]
  have hneeded : (request.reserve.slots.countP fun slot => slot.state = .waiting) = 0 :=
    needed_reserve request
  obtain ⟨rule, hrule, hwithin⟩ := hlimit
  have hrule' : ruleFor config request.reserve.role request.reserve.caller = some rule := hrule
  have hbusy : (rule.perCaller.any fun limits => (limits.maxConcurrentRequests : ℤ)
      < count t (.a request.reserve.caller) + (0 : ℕ)) = false := by
    cases hlim : rule.perCaller with
    | none => rfl
    | some limits =>
      have hle := hwithin limits hlim
      change (limits.maxConcurrentRequests < count t (.a request.caller) + (0 : ℕ) : Bool) = false
      simp only [decide_eq_false_iff_not]
      omega
  rw [transition_dispatch hagain hclosed hr', dispatch,
    if_neg (by simp [Request.reserve, hcanc, hret]), hrule']
  dsimp only
  rw [hneeded, hbusy, if_neg (by cases rule.perCaller <;> simp), if_neg (by simp), adjust_active,
    Nat.cast_zero, charge_zero]
  change (save t id request.reserve.reserve, Reply.ok) = (t, .ok)
  rw [reserve_reserve, save_self hr' hkept]

lemma retry_again (hr : s.records.lookup id = some request) (hacc : request.accepted = false)
    (ht : t = save { s with counts := charge s.counts request.caller 0 (-request.returned) } id
      request.unreserve) : transition t id .retry = (t, .ok) := by
  have hkept : request.unreserve.kept = some request.unreserve :=
    kept_of_kept ((stored_of_reachable hs).kept id request hr) rfl rfl rfl
  have hr' : t.records.lookup id = some request.unreserve := by rw [ht, lookup_save, hkept]
  have hagain : Open t id config frontends := by
    refine hopen.saved ?_ ?_ ?_ (terminated_of_remaining hr hr' rfl) <;> rw [ht] <;> rfl
  have hreturned : (request.unreserve.slots.countP fun slot => slot.state = .reserved) = 0 :=
    returned_unreserve request
  rw [transition_retry hagain hr', retry, if_neg (by simp [Request.unreserve, hacc])]
  rw [hreturned]
  change (save t id request.unreserve.unreserve, Reply.ok) = (t, .ok)
  rw [unreserve_unreserve, save_self hr' hkept]

lemma accept_again {backends : Finset String} {owner pod : String}
    (hr : s.records.lookup id = some request) (hslot : request.slots[k]? = some slot)
    (hback : s.backends = some backends) (hpod : pod ∈ backends) (hepoch : count s (.b pod) ≤ epoch)
    (hfin : owner ∉ slot.finishedOwners) (hstate : slot.state = .reserved ∨ slot.state = .handoff)
    (ht : t = save (raiseEpoch
        { s with counts := chargeSlot s.counts request.caller slot (slot.accept owner pod epoch) }
        (.b pod) epoch) id
      { request.setSlot k slot (slot.accept owner pod epoch) with accepted := true }) :
    transition t id (.accept k owner pod epoch) = (t, .ok) := by
  have hopenUnits : slot.state ≠ .completed := by rcases hstate with h | h <;> simp [h]
  have hrem : (request.setSlot k slot (slot.accept owner pod epoch)).remaining
      = request.remaining := by
    simp [Request.setSlot, Slot.accept, Slot.openUnits, hopenUnits]
  have hslot' : (request.setSlot k slot (slot.accept owner pod epoch)).slots[k]?
      = some (slot.accept owner pod epoch) := by
    simp [Request.setSlot, (List.getElem?_eq_some_iff.mp hslot).1]
  have hcount : count t (.b pod) = epoch := by
    rw [ht, count_accepted _ _ _ _ _ _ _ (by simp [Field.isCounter]) (by simp [Field.isCounter]),
      if_pos rfl, max_eq_right hepoch]
  have hr' : t.records.lookup id
      = some { request.setSlot k slot (slot.accept owner pod epoch) with accepted := true } := by
    rw [ht, lookup_save]
    exact kept_of_kept ((stored_of_reachable hs).kept id request hr) hrem rfl rfl
  obtain ⟨m, hraise⟩ := raiseEpoch_frame
    { s with counts := chargeSlot s.counts request.caller slot (slot.accept owner pod epoch) }
    (.b pod) epoch
  rw [hraise] at ht
  have hagain : Open t id config frontends := by
    refine hopen.saved ?_ ?_ ?_ (terminated_of_remaining hr hr' hrem) <;> rw [ht] <;> rfl
  have hback' : t.backends = some backends := ht ▸ hback
  have hfin' : owner ∉ (slot.accept owner pod epoch).finishedOwners := hfin
  rw [transition_accept hagain hr' hslot', accept, hback']
  dsimp only
  rw [if_neg (not_not.mpr hpod), hcount, if_neg (lt_irrefl _), if_neg hfin', if_pos ⟨rfl, rfl⟩]

end

lemma slot_again (hopen : Open s id config frontends) (hact : action.onSlot = some (k, f))
    (hslot : request.slots[k]? = some slot)
    (ht : t = save { s with counts := chargeSlot s.counts request.caller slot (f slot) } id
      (request.setSlot k slot (f slot))) :
    transition t id action = (t, .ok) ∨ (∃ owner, action = .rejectBeforeSubmission k owner)
        ∧ transition t id action = (t, .closed) := by
  have hconf : t.config = some config := ht ▸ hopen.config_eq
  have hfront : t.frontends = some frontends := ht ▸ hopen.frontends_eq
  by_cases hdone : t.completions.lookup id ≠ none ∧ terminated t id
  · left
    cases action <;> cases hact <;> exact guarded_of_terminated hdone.1 hdone.2 _
  have hagain : Open t id config frontends := ⟨hconf, hfront, hdone⟩
  cases hkept : (request.setSlot k slot (f slot)).kept with
  | none =>
    have hr' : t.records.lookup id = none := by rw [ht, lookup_save, hkept]
    have hstage : transition t id action = recorded t config frontends id action := by
      cases action <;> cases hact <;> change guarded t id _ = _ <;>
        simp only [guarded_open hagain, published, hconf, hfront]
    rw [hstage]
    cases action <;> cases hact
    · exact .inl (by simp only [recorded, hr'])
    · exact .inr ⟨⟨_, rfl⟩, by simp only [recorded, hr']⟩
    · exact .inl (by simp only [recorded, hr'])
  | some =>
    left
    obtain rfl := kept_eq_some hkept
    have hr' : t.records.lookup id = some (request.setSlot k slot (f slot)) := by
      rw [ht, lookup_save, hkept]
    have hlt := (List.getElem?_eq_some_iff.mp hslot).1
    have hslot' : (request.setSlot k slot (f slot)).slots[k]? = some (f slot) := by
      simp [setSlot, hlt]
    have hset : (request.setSlot k slot (f slot)).setSlot k (f slot) (f slot)
        = request.setSlot k slot (f slot) := by
      simp [setSlot]
    rw [transition_onSlot hagain hr' hact hslot', onSlot_again hact, chargeSlot_self, hset,
      save_self hr' hkept]

end Again

/-- **The second delivery**, effect by effect, writes nothing. -/
lemma Effect.again {t : Ledger} {r : Reply} (he : Effect s id action t r)
    (hs : ledger.Reachable s) (hwrite : t ≠ s)
    (hall : ∀ fe, action ≠ .allocateOwner fe)
    (hmodel : action.ofModel → s.completions.lookup id = none) :
    r = .ok ∧ (transition t id action = (t, .ok)
      ∨ (∃ k o, action = .rejectBeforeSubmission k o)
        ∧ transition t id action = (t, .closed)) := by
  cases he with
  | unchanged => exact absurd rfl hwrite
  | recover hback hpod hepoch =>
    exact ⟨rfl, .inl (Prod.ext (recover_again hs hback hpod hepoch) rfl)⟩
  | publish v config frontends bs =>
    have hagain := publish_again hs (c := ⟨id, .publish v config frontends bs⟩) rfl
    exact ⟨rfl, .inl (Prod.ext hagain rfl)⟩
  | publishMembership v frontends bs =>
    have hagain := publish_again hs (c := ⟨id, .publishMembership v frontends bs⟩) rfl
    exact ⟨rfl, .inl (Prod.ext hagain rfl)⟩
  | acknowledge hdone hterm => exact ⟨rfl, .inl (acknowledge_again hterm)⟩
  | allocate => exact absurd rfl (hall _)
  | register hopen hmember => exact ⟨rfl, .inl (register_again hopen hmember (hmodel rfl) rfl)⟩
  | enqueue hopen hclosed howns hnone hadm =>
    exact ⟨rfl, .inl (enqueue_again hopen hclosed howns hnone hadm.positive rfl)⟩
  | negative hopen => exact ⟨rfl, .inl (negative_again hopen _ _ _ rfl)⟩
  | cancel hopen hr => exact ⟨rfl, .inl (cancel_again hs hopen hr _ _ _ rfl)⟩
  | retain hopen hr hcanc hret hacc hrem howns =>
    exact ⟨rfl, .inl (retain_again hopen hr hcanc hret hacc hrem howns rfl)⟩
  | dispatch hopen hclosed hr hcanc hret hlimit =>
    exact ⟨rfl, .inl (dispatch_again hs hopen hclosed hr hcanc hret hlimit rfl)⟩
  | retry hopen hr hacc => exact ⟨rfl, .inl (retry_again hs hopen hr hacc rfl)⟩
  | accept hopen hr hslot hback hpod hepoch hfin hstate =>
    exact ⟨rfl, .inl (accept_again hs hopen hr hslot hback hpod hepoch hfin hstate rfl)⟩
  | slot hopen hr hact hslot =>
    refine ⟨rfl, ?_⟩
    rcases slot_again hopen hact hslot rfl with h | ⟨⟨o, hreject⟩, h⟩
    · exact .inl h
    · exact .inr ⟨⟨_, o, hreject⟩, h⟩

/-! ### The client -/

/-- No completion has the empty request id. -/
lemma completions_of_model {cs : List Command} (hcs : ∀ c ∈ cs, c.WellFormed) :
    (ledger.after cs).completions.lookup "" = none := by
  induction cs using reverseRecOn with
  | nil => rfl
  | append_singleton cs c ih =>
    rw [Machine.after_concat]
    have hnone := ih fun d hd => hcs d (mem_append_left _ hd)
    have hc := hcs c (by simp)
    rcases completions_cases (ledger.after cs) c "" with h | ⟨rfl, -⟩ | ⟨consumer, rfl, -⟩
    · rw [h, hnone]
    all_goals simp [Command.WellFormed, Action.ofModel] at hc

/-- **Every command except `allocate_owner` can be delivered twice.** From any state the
client's commands reach, the second delivery of a command changes nothing, and the
client makes the same of both replies. -/
theorem redelivery_harmless (cs : List Command) (c : Command) (hcs : ∀ d ∈ cs, d.WellFormed)
    (hc : c.WellFormed) (hallocate : ∀ frontend, c.action ≠ .allocateOwner frontend) :
    ledger.next (ledger.next (ledger.after cs) c) c = ledger.next (ledger.after cs) c
      ∧ result c.action (ledger.reply (ledger.next (ledger.after cs) c) c)
        = result c.action (ledger.reply (ledger.after cs) c) := by
  have hreach := Machine.reachable_after (M := ledger) cs
  have hmodel : c.action.ofModel → (ledger.after cs).completions.lookup c.id = none :=
    fun h => (hc.mpr h).symm ▸ completions_of_model hcs
  generalize ledger.after cs = s at hreach hmodel ⊢
  by_cases hwrite : ledger.next s c = s
  · rw [hwrite]
    exact ⟨hwrite, rfl⟩
  obtain ⟨hreply, hagain⟩ :=
    (transition_effect s c.id c.action).again hreach hwrite hallocate hmodel
  change (transition (transition s c.id c.action).1 c.id c.action).1
      = (transition s c.id c.action).1
    ∧ result c.action (transition (transition s c.id c.action).1 c.id c.action).2
      = result c.action (transition s c.id c.action).2
  rw [hreply]
  rcases hagain with h | ⟨⟨k, owner, haction⟩, h⟩
  · rw [h]
    exact ⟨rfl, rfl⟩
  · rw [h, haction]
    exact ⟨rfl, rfl⟩

/-- The rejection of the only slot of a batch, whose record is gone the second time. -/
theorem redelivery_harmless_reject :
    ledger.next (ledger.next (ledger.after enqueuingRun)
          ⟨"r", .rejectBeforeSubmission 0 "o"⟩) ⟨"r", .rejectBeforeSubmission 0 "o"⟩
        = ledger.next (ledger.after enqueuingRun) ⟨"r", .rejectBeforeSubmission 0 "o"⟩
      ∧ result (.rejectBeforeSubmission 0 "o")
          (ledger.reply (ledger.next (ledger.after enqueuingRun)
            ⟨"r", .rejectBeforeSubmission 0 "o"⟩) ⟨"r", .rejectBeforeSubmission 0 "o"⟩)
        = result (.rejectBeforeSubmission 0 "o")
          (ledger.reply (ledger.after enqueuingRun) ⟨"r", .rejectBeforeSubmission 0 "o"⟩) :=
  redelivery_harmless enqueuingRun ⟨"r", .rejectBeforeSubmission 0 "o"⟩ (by decide) (by decide)
    fun _ => by simp

end Foretoken.RequestLedger
