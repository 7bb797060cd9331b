import Foretoken.RequestLedger.Records

/-!
The life cycle of one slot: a call moves it by at most one of the steps of `SlotStep`, whose
constructors carry the tests the script makes before.
-/

namespace Foretoken.RequestLedger

open Slot List Option RequestLedger.Action

variable {s : Ledger} {id x : String} {k : ℕ} {a : Action} {q : Request} {slot : Slot}

/-- One step of slot `k` of batch `x` under a call. -/
inductive SlotStep (s : Ledger) (c : Command) (x : String) (k : ℕ) (slot : Slot) : Slot → Prop
  | idle : SlotStep s c x k slot slot
  | cancel : SlotStep s c x k slot slot.cancel
  | reserve (hc : c = ⟨x, .dispatch⟩) : SlotStep s c x k slot slot.reserve
  | unreserve : SlotStep s c x k slot slot.unreserve
  | accept {owner pod : String} {epoch : ℕ} {backends : Finset String}
      (hc : c = ⟨x, .accept k owner pod epoch⟩) (hbackends : s.backends = some backends)
      (hpod : pod ∈ backends) (hepoch : count s (.b pod) ≤ epoch)
      (hfinished : owner ∉ slot.finishedOwners)
      (hstate : slot.state = .reserved ∨ slot.state = .handoff) :
      SlotStep s c x k slot (slot.accept owner pod epoch)
  | reject {owner : String} (hc : c = ⟨x, .rejectBeforeSubmission k owner⟩) :
      SlotStep s c x k slot (slot.reject owner)
  | complete {owner : String} {finalStage : Bool} (hc : c = ⟨x, .complete k owner finalStage⟩) :
      SlotStep s c x k slot (slot.complete owner finalStage)
  | recover {pod : String} {epoch : ℕ} (hc : c.action = .recoverBackend pod epoch) :
      SlotStep s c x k slot (slot.terminate (recovered pod epoch))
  | members {frontends backends : Finset String} {slot' : Slot}
      (hnew : newMembers s c.action = some (frontends, backends))
      (hslot : slot' = slot ∨ slot' = slot.cancel) :
      SlotStep s c x k slot (slot'.terminate (omits backends))

/-- A call that accepts a slot has passed the tests of `accept`. -/
lemma accept_tests {o pod : String} {n : ℕ}
    (h : (transition s id (.accept k o pod n)).1 ≠ s) :
    ∃ q slot bs, s.records.lookup id = some q ∧ q.slots[k]? = some slot
      ∧ s.backends = some bs ∧ pod ∈ bs ∧ count s (.b pod) ≤ n
      ∧ o ∉ slot.finishedOwners ∧ (slot.state = .reserved ∨ slot.state = .handoff)
      ∧ s.config ≠ none := by
  have he := transition_effect s id (.accept k o pod n)
  generalize (transition s id (.accept k o pod n)).1 = s' at he h
  generalize (transition s id (.accept k o pod n)).2 = reply at he
  cases he with
  | unchanged => exact absurd rfl h
  | accept hopen hr hslot hback hpod hepoch hfin hstate =>
    exact ⟨_, _, _, hr, hslot, hback, hpod, hepoch, hfin, hstate, by simp [hopen.config_eq]⟩
  | slot hopen hr hact => cases hact

lemma slotAt_step (hwrite : (transition s id a).1 ≠ s)
    (hr : s.records.lookup id = some q) (hslot : q.slots[k]? = some slot) :
    SlotStep s ⟨id, a⟩ id k slot (a.slotAt k slot) := by
  cases a with
  | cancelEntry => exact .cancel
  | dispatch => exact .reserve rfl
  | retry => exact .unreserve
  | accept =>
    simp only [slotAt]
    split_ifs with hk
    · subst hk
      obtain ⟨r, slot', backends, hr', hslot', hback, hpod, hepoch, hfin, hstate, -⟩ :=
        accept_tests hwrite
      obtain rfl := some.inj (hr.symm.trans hr')
      obtain rfl := some.inj (hslot.symm.trans hslot')
      exact .accept rfl hback hpod hepoch hfin hstate
    · exact .idle
  | drop =>
    simp only [slotAt]
    split_ifs
    exacts [.cancel, .idle]
  | rejectBeforeSubmission =>
    simp only [slotAt]
    split_ifs with hk
    exacts [hk ▸ .reject rfl, .idle]
  | complete =>
    simp only [slotAt]
    split_ifs with hk
    exacts [hk ▸ .complete rfl, .idle]
  | _ => exact .idle

lemma slotWrite_step (hwrite : (transition s id a).1 ≠ s)
    (hr : s.records.lookup x = some q) (hslot : q.slots[k]? = some slot) :
    SlotStep s ⟨id, a⟩ x k slot (slotWrite s id a x q k slot) := by
  fun_cases slotWrite
  case case1 fs bs hnew => exact .members hnew (by split_ifs <;> simp)
  case case2 => exact .recover rfl
  case case4 => exact .cancel
  case case5 hx _ _ _ =>
    subst hx
    exact slotAt_step hwrite hr hslot
  all_goals exact .idle

section

variable (id : String) (a : Action)

/-- **One call moves a slot by one step.** -/
theorem recordAfter_slot (hr : s.records.lookup x = some q)
    (hslot : q.slots[k]? = some slot) :
    ∃ slot', (recordAfter s id a x q).slots[k]? = some slot'
      ∧ SlotStep s ⟨id, a⟩ x k slot slot' := by
  rw [recordAfter]
  split_ifs with hsame
  · exact ⟨slot, hslot, .idle⟩
  · refine ⟨slotWrite s id a x q k slot, ?_, slotWrite_step hsame hr hslot⟩
    simp only [recordWrite, getElem?_mapIdx, hslot, map_some]

lemma recordAfter_length :
    (recordAfter s id a x q).slots.length = q.slots.length := by
  fun_cases recordAfter <;> simp [recordWrite]

lemma recordAfter_caller : (recordAfter s id a x q).caller = q.caller := by
  fun_cases recordAfter <;> rfl

lemma recordAfter_frontend : (recordAfter s id a x q).frontend = q.frontend := by
  fun_cases recordAfter <;> rfl

lemma recordAfter_epoch : (recordAfter s id a x q).epoch = q.epoch := by
  fun_cases recordAfter <;> rfl

lemma recordAfter_role : (recordAfter s id a x q).role = q.role := by
  fun_cases recordAfter <;> rfl

/-- Every slot comes from one that was there. -/
lemma recordAfter_slot_inv (hr : s.records.lookup x = some q) {slot' : Slot}
    (hslot : (recordAfter s id a x q).slots[k]? = some slot') :
    ∃ slot, q.slots[k]? = some slot ∧ SlotStep s ⟨id, a⟩ x k slot slot' := by
  have hlt := (List.getElem?_eq_some_iff.mp hslot).1
  rw [recordAfter_length] at hlt
  obtain ⟨slot'', hslot'', hstep⟩ := recordAfter_slot id a hr (getElem?_eq_getElem hlt)
  rw [hslot] at hslot''
  exact ⟨_, getElem?_eq_getElem hlt, some.inj hslot'' ▸ hstep⟩

end

lemma recordAfter_cancelled (h : q.cancelled) :
    (recordAfter s id a x q).cancelled := by
  fun_cases recordAfter <;> simp [recordWrite, h]

/-! ### What a step keeps -/

/-- The slot is revoked: it has ended, or it only waits for its owner to end it. -/
def Slot.revoked (slot : Slot) : Bool := slot.state = .cancelling ∨ slot.state = .completed

/-- Who holds a slot: the owner token, its backend and the epoch of that process. -/
def Slot.holder (slot : Slot) : Option String × Option String × Option ℕ :=
  (slot.owner, slot.backendPod, slot.backendEpoch)

section Functions

variable (slot : Slot)

lemma Slot.revoked_cancel : slot.cancel.revoked := by
  cases h : slot.state <;> simp [cancel, finish, revoked, h]

lemma Slot.cancel_of_completed (h : slot.state = .completed) : slot.cancel = slot := by
  obtain ⟨st, owner, pod, epoch, finished⟩ := slot
  subst h
  rfl

lemma Slot.cancel_finishedOwners : slot.cancel.finishedOwners = slot.finishedOwners := by
  cases h : slot.state <;> simp [cancel, finish, h]

lemma Slot.held_cancel : slot.cancel.held = slot.held := by
  cases h : slot.state <;> simp [cancel, finish, held, h]

lemma Slot.holder_cancel : slot.cancel.holder = slot.holder := by
  cases h : slot.state <;> simp [cancel, finish, holder, h]

lemma Slot.terminate_eq (t : Slot → Bool) :
    slot.terminate t = slot ∨ slot.terminate t = slot.finish := by
  fun_cases terminate <;> simp

lemma Slot.reject_eq (o : String) :
    slot.reject o = slot ∨ slot.reject o = slot.finish := by
  fun_cases reject <;> simp

lemma Slot.reserve_eq : slot.reserve = slot
    ∨ slot.state = .waiting ∧ slot.reserve = { slot with state := .reserved } := by
  fun_cases reserve <;> simp [*]

lemma Slot.unreserve_eq : slot.unreserve = slot
    ∨ slot.state = .reserved ∧ slot.unreserve = { slot with state := .waiting } := by
  fun_cases unreserve <;> simp [*]

/-- `complete` ends the slot or hands it off. -/
lemma Slot.complete_eq (o : String) (finalStage : Bool) :
    slot.complete o finalStage = slot ∨ slot.held ∧ slot.owner = some o
        ∧ ∃ st, (st = .completed ∨ st = .handoff ∧ slot.state = .accepted)
          ∧ slot.complete o finalStage
            = { slot with state := st, finishedOwners := insert o slot.finishedOwners } := by
  fun_cases complete with
  | case1 hown =>
    refine .inr ⟨hown.1, hown.2, _, ?_, rfl⟩
    have hheld := hown.1
    simp only [held, decide_eq_true_eq] at hheld
    split_ifs <;> tauto
  | case2 => exact .inl rfl

end Functions

section Steps

variable {c : Command} {slot' : Slot}

section

variable (h : SlotStep s c x k slot slot')
include h

lemma SlotStep.completed (hc : slot.state = .completed) :
    slot' = slot := by
  have hend : ∀ t, slot.terminate t = slot := fun t => by
    simp [terminate, ends_of_completed _ hc]
  cases h with
  | idle => rfl
  | cancel => exact slot.cancel_of_completed hc
  | reserve => simp [Slot.reserve, hc]
  | unreserve => simp [Slot.unreserve, hc]
  | accept _ _ _ _ _ hstate => simp [hc] at hstate
  | reject => simp [Slot.reject, Slot.held, hc]
  | complete => simp [Slot.complete, Slot.held, hc]
  | recover => exact hend _
  | members _ hslot =>
    rcases hslot with rfl | rfl
    · exact hend _
    · rw [slot.cancel_of_completed hc, hend]

lemma SlotStep.revoked (hr : slot.revoked) : slot'.revoked := by
  have hend : ∀ (slot : Slot) t, slot.revoked →
      (slot.terminate t).revoked := by
    intro slot t hslot
    rcases slot.terminate_eq t with h | h <;> rw [h]
    · exact hslot
    · rfl
  have hstate : slot.state = .cancelling ∨ slot.state = .completed := by
    simpa [Slot.revoked] using hr
  cases h with
  | idle => exact hr
  | cancel => exact slot.revoked_cancel
  | reserve => rcases hstate with h | h <;> simp [Slot.reserve, Slot.revoked, h]
  | unreserve => rcases hstate with h | h <;> simp [Slot.unreserve, Slot.revoked, h]
  | accept _ _ _ _ _ hopen => rcases hstate with h | h <;> simp [h] at hopen
  | reject =>
    rcases slot.reject_eq _ with h | h <;> rw [h]
    · exact hr
    · rfl
  | complete =>
    rcases slot.complete_eq _ _ with h | ⟨_, _, st, rfl | ⟨rfl, hacc⟩, h⟩
    · rwa [h]
    · rw [h]
      rfl
    · simp [hacc] at hstate
  | recover => exact hend _ _ hr
  | members _ hslot =>
    rcases hslot with rfl | rfl
    · exact hend _ _ hr
    · exact hend _ _ slot.revoked_cancel

lemma SlotStep.finishedOwners :
    slot.finishedOwners ⊆ slot'.finishedOwners := by
  have hend : ∀ (slot : Slot) t,
      (slot.terminate t).finishedOwners = slot.finishedOwners := by
    intro slot t
    rcases slot.terminate_eq t with h | h <;> rw [h]
    rfl
  cases h with
  | idle | accept => exact subset_rfl
  | cancel => exact slot.cancel_finishedOwners.ge
  | reserve => rcases slot.reserve_eq with h | ⟨_, h⟩ <;> rw [h]
  | unreserve => rcases slot.unreserve_eq with h | ⟨_, h⟩ <;> rw [h]
  | reject =>
    rcases slot.reject_eq _ with h | h <;> rw [h]
    rfl
  | complete =>
    rcases slot.complete_eq _ _ with h | ⟨_, _, _, _, h⟩ <;> rw [h]
    exact Finset.subset_insert _ _
  | recover => exact (hend _ _).ge
  | members _ hslot =>
    rcases hslot with rfl | rfl
    · exact (hend _ _).ge
    · rw [hend, slot.cancel_finishedOwners]

/-- A held slot was held before, or is accepted now. -/
lemma SlotStep.held_inv (hheld : slot'.held) :
    slot.held ∧ slot'.holder = slot.holder
      ∨ ∃ owner pod epoch backends, c = ⟨x, .accept k owner pod epoch⟩
        ∧ s.backends = some backends ∧ pod ∈ backends ∧ count s (.b pod) ≤ (epoch : ℕ)
        ∧ slot' = slot.accept owner pod epoch := by
  have hend : ∀ (slot : Slot) terminated, (slot.terminate terminated).held →
      slot.terminate terminated = slot := by
    intro slot terminated hterm
    rcases slot.terminate_eq terminated with h | h
    · exact h
    · rw [h] at hterm
      cases hterm
  cases h with
  | idle => exact .inl ⟨hheld, rfl⟩
  | cancel => exact .inl ⟨slot.held_cancel ▸ hheld, slot.holder_cancel⟩
  | reserve =>
    rcases slot.reserve_eq with h | ⟨_, h⟩ <;> rw [h] at hheld ⊢
    · exact .inl ⟨hheld, rfl⟩
    · simp [held] at hheld
  | unreserve =>
    rcases slot.unreserve_eq with h | ⟨_, h⟩ <;> rw [h] at hheld ⊢
    · exact .inl ⟨hheld, rfl⟩
    · simp [held] at hheld
  | accept hc hback hpod hepoch => exact .inr ⟨_, _, _, _, hc, hback, hpod, hepoch, rfl⟩
  | reject =>
    rcases slot.reject_eq _ with h | h <;> rw [h] at hheld ⊢
    · exact .inl ⟨hheld, rfl⟩
    · cases hheld
  | complete =>
    rcases slot.complete_eq _ _ with h | ⟨_, _, state, hstate, h⟩ <;> rw [h] at hheld ⊢
    · exact .inl ⟨hheld, rfl⟩
    · rcases hstate with rfl | ⟨rfl, _⟩ <;> simp [held] at hheld
  | recover =>
    have hsame := hend _ _ hheld
    rw [hsame] at hheld ⊢
    exact .inl ⟨hheld, rfl⟩
  | members _ hslot =>
    have hsame := hend _ _ hheld
    rw [hsame] at hheld ⊢
    rcases hslot with rfl | rfl
    · exact .inl ⟨hheld, rfl⟩
    · exact .inl ⟨slot.held_cancel ▸ hheld, slot.holder_cancel⟩

end

end Steps

/-! ### A slot after a call -/

lemma recordAfter_remaining (id : String) (a : Action)
    (h : q.remaining = openUnits q.slots) :
    (recordAfter s id a x q).remaining
      = openUnits (recordAfter s id a x q).slots := by
  fun_cases recordAfter with
  | case1 => exact h
  | case2 =>
    simp only [recordWrite]
    omega

/-- A record that `save` deletes has only completed slots. -/
lemma completed_of_kept_none (hrem : q.remaining = openUnits q.slots)
    (h : q.kept = none) : ∀ slot ∈ q.slots, slot.state = .completed := by
  rw [← openUnits_eq_zero, ← hrem]
  exact Request.remaining_of_kept_none h

/-- **A slot after a call** has made one step; its record is gone only if the slot has
ended. -/
theorem slot_next (hs : ledger.Reachable s) (c : Command) (hr : s.records.lookup x = some q)
    (hslot : q.slots[k]? = some slot) :
    ∃ slot', SlotStep s c x k slot slot'
      ∧ (recordAfter s c.id c.action x q).slots[k]? = some slot'
      ∧ ((ledger.next s c).records.lookup x = some (recordAfter s c.id c.action x q)
        ∨ (ledger.next s c).records.lookup x = none ∧ slot'.state = .completed) := by
  obtain ⟨slot', hslot', hstep⟩ := recordAfter_slot c.id c.action hr hslot
  refine ⟨slot', hstep, hslot', ?_⟩
  have hlook := lookup_transition (stored_of_reachable hs) c.id c.action hr
  cases hkept : (recordAfter s c.id c.action x q).kept with
  | some =>
    rw [hkept, Request.kept_eq_some hkept] at hlook
    exact .inl hlook
  | none =>
    rw [hkept] at hlook
    exact .inr ⟨hlook, completed_of_kept_none
      (recordAfter_remaining c.id c.action ((stored_of_reachable hs).remaining x q hr))
      hkept slot' (mem_of_getElem? hslot')⟩

end Foretoken.RequestLedger
