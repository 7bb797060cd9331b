import Foretoken.RequestLedger.Publication
import Foretoken.RequestLedger.Lifecycle

/-!
Work in the hands of an engine: a slot that an owner has accepted is charged to its caller until the
end of that execution is proved, and an owner accepts a slot once.
-/

namespace Foretoken.RequestLedger

open Option Machine Slot

variable {s : Ledger} {id owner pod : String} {k epoch : ℕ} {c : Command} {slot : Slot}

open FiniteMap

/-! ### Held slots stay held -/

/-- Slot `k` of the batch `id` of a caller is held by an owner on a backend process. -/
def HeldBy (s : Ledger) (id : String) (k : ℕ) (caller owner pod : String) (epoch : ℕ) : Prop :=
  ∃ request slot, s.records.lookup id = some request ∧ request.caller = caller
    ∧ request.slots[k]? = some slot ∧ slot.held
    ∧ slot.owner = some owner ∧ slot.backendPod = some pod ∧ slot.backendEpoch = some epoch

/-- The calls that prove the end of an execution: its owner completes or rejects it, its
backend process has a successor, or a newer membership omits its backend. -/
def EndsHold (s : Ledger) (id : String) (k : ℕ) (owner pod : String) (epoch : ℕ) (c : Command) :
    Prop :=
  match c.action with
  | .complete j o _ => c.id = id ∧ j = k ∧ o = owner
  | .rejectBeforeSubmission j o => c.id = id ∧ j = k ∧ o = owner
  | .recoverBackend p e => p = pod ∧ epoch < e
  | .publish version _ _ backends => version > membershipRevision s ∧ pod ∉ backends
  | .publishMembership version _ backends => version > membershipRevision s ∧ pod ∉ backends
  | _ => False

lemma endsHold_of_members {fs bs : Finset String}
    (h : newMembers s c.action = some (fs, bs)) (hpod : pod ∉ bs) :
    EndsHold s id k owner pod epoch c := by
  obtain ⟨x, action⟩ := c
  cases action <;> simp only [newMembers, ite_none_right_eq_some, some.injEq,
    Prod.mk.injEq, reduceCtorEq] at h
  all_goals
    obtain ⟨hnew, rfl, rfl⟩ := h
    exact ⟨hnew, by simpa using hpod⟩

/-- Only a proof of its end takes a slot from its holder. -/
lemma SlotStep.held {x : String} {slot' : Slot} (h : SlotStep s c x k slot slot')
    (hheld : slot.held) (howner : slot.owner = some owner) (hpod : slot.backendPod = some pod)
    (hepoch : slot.backendEpoch = some epoch) (hkeeps : ¬ EndsHold s x k owner pod epoch c) :
    slot'.held ∧ slot'.holder = slot.holder := by
  have hstate : slot.state = .accepted ∨ slot.state = .cancelling := by
    simpa [Slot.held] using hheld
  have hterm : ∀ (slot : Slot) terminated, terminated slot = false →
      slot.terminate terminated = slot := fun slot terminated hf => by
    simp [terminate, ends, hf]
  cases h with
  | idle => exact ⟨hheld, rfl⟩
  | cancel => exact ⟨slot.held_cancel.symm ▸ hheld, slot.holder_cancel⟩
  | reserve =>
    rcases slot.reserve_eq with h | ⟨hw, _⟩
    · rw [h]
      exact ⟨hheld, rfl⟩
    · simp [hw] at hstate
  | unreserve =>
    rcases slot.unreserve_eq with h | ⟨hw, _⟩
    · rw [h]
      exact ⟨hheld, rfl⟩
    · simp [hw] at hstate
  | accept _ _ _ _ _ hopen => rcases hstate with h | h <;> simp [h] at hopen
  | @reject owner' hc =>
    have hne : owner' ≠ owner := by
      rintro rfl
      exact hkeeps (by rw [hc]; exact ⟨rfl, rfl, rfl⟩)
    rw [Slot.reject, if_neg]
    · exact ⟨hheld, rfl⟩
    · rw [howner]
      rcases hstate with h | h <;> simp [h, Ne.symm hne]
  | @complete owner' finalStage hc =>
    have hne : owner' ≠ owner := by
      rintro rfl
      exact hkeeps (by rw [hc]; exact ⟨rfl, rfl, rfl⟩)
    rw [Slot.complete, if_neg]
    · exact ⟨hheld, rfl⟩
    · rw [howner]
      simp [Ne.symm hne]
  | @recover pod' epoch' hc =>
    have hsame : recovered pod' epoch' slot = false := by
      by_contra hends
      simp only [recovered, hpod, hepoch, some.injEq, any_some, Bool.and_eq_true,
        decide_eq_true_eq, Bool.not_eq_false] at hends
      obtain ⟨rfl, hlt⟩ := hends
      exact hkeeps (by rw [EndsHold, hc]; exact ⟨rfl, hlt⟩)
    rw [hterm _ _ hsame]
    exact ⟨hheld, rfl⟩
  | @members frontends backends slot'' hnew hslot =>
    have hmember : pod ∈ backends := by
      by_contra hout
      exact hkeeps (endsHold_of_members hnew hout)
    have hpod'' : slot''.backendPod = some pod := by
      rcases hslot with rfl | rfl
      · exact hpod
      · have hholder := slot.holder_cancel
        simp only [holder, Prod.mk.injEq] at hholder
        rw [hholder.2.1, hpod]
    rw [hterm _ _ (by simp [omits, hpod'', hmember])]
    rcases hslot with rfl | rfl
    · exact ⟨hheld, rfl⟩
    · exact ⟨slot.held_cancel.symm ▸ hheld, slot.holder_cancel⟩

/-- A call that proves no end leaves the slot held. -/
lemma heldBy_next (hs : ledger.Reachable s) {u : String}
    (h : HeldBy s id k u owner pod epoch) (hkeeps : ¬ EndsHold s id k owner pod epoch c) :
    HeldBy (ledger.next s c) id k u owner pod epoch := by
  obtain ⟨q, slot, hr, hcaller, hslot, hheld, howner, hpod, hepoch⟩ := h
  obtain ⟨slot', hstep, hslot', hnext⟩ := slot_next hs c hr hslot
  obtain ⟨hheld', hholder⟩ := hstep.held hheld howner hpod hepoch hkeeps
  simp only [holder, Prod.mk.injEq] at hholder
  rcases hnext with hrec | ⟨-, hdone⟩
  · refine ⟨_, slot', hrec, ?_, hslot', hheld', hholder.1.trans howner,
      hholder.2.1.trans hpod, hholder.2.2.trans hepoch⟩
    rw [recordAfter_caller, hcaller]
  · simp [held, hdone] at hheld'

/-- The ledger as it would be without slot `k` of the batch `id`. -/
def withoutSlot (s : Ledger) (id : String) (k : ℕ) : Ledger :=
  match s.records.lookup id with
  | none => s
  | some request =>
    { s with records :=
        s.records.insert id { request with slots := request.slots.eraseIdx k } }

lemma countP_eraseIdx {ss : List Slot} {test : Slot → Bool} (h : ss[k]? = some slot)
    (htest : test slot) : ss.countP test = (ss.eraseIdx k).countP test + 1 := by
  induction ss generalizing k with
  | nil => simp at h
  | cons first rest ih =>
    cases k with
    | zero =>
      simp only [List.getElem?_cons_zero, some.injEq] at h
      simp [h, htest]
    | succ =>
      simp only [List.eraseIdx_cons_succ, List.countP_cons, ih h]
      omega

/-- A held slot is one unit of its caller's concurrency counter. -/
lemma charged_of_heldBy (hs : ledger.Reachable s) {u : String}
    (h : HeldBy s id k u owner pod epoch) :
    count s (.a u) = slotTotal (withoutSlot s id k)
          (fun q slot => q.caller = u && slot.isActive)
        + 1 := by
  obtain ⟨q, slot, hr, hcaller, hslot, hheld, -⟩ := h
  have hactive : slot.isActive := by
    simp only [held, isActive, decide_eq_true_eq] at hheld ⊢
    tauto
  have htest : (decide (q.caller = u) && slot.isActive) = true := by
    simp [hcaller, hactive]
  have hcount : q.slots.countP (fun slot => decide (q.caller = u) && slot.isActive)
      = (q.slots.eraseIdx k).countP
          (fun slot => decide (q.caller = u) && slot.isActive) + 1 :=
    countP_eraseIdx hslot htest
  rw [(accounted_of_reachable hs).balanced.callerActive u]
  unfold slotTotal withoutSlot
  rw [hr]
  have hsplit := total_replace { q with slots := q.slots.eraseIdx k }
    (fun _ r => (r.slots.countP (fun slot => decide (r.caller = u) && slot.isActive) : ℤ)) hr
  dsimp only at hsplit ⊢
  omega

/-- **Engine-owned work stays charged until its end is proved.** From any reachable state
in which an owner holds a slot, and through any calls none of which proves the end
of that execution, the slot stays with the same owner, backend and epoch, and stays
one unit of its caller's concurrency counter. -/
theorem held_until_ended (cs ds : List Command) {id : String} {k : ℕ} {caller owner pod : String}
    {epoch : ℕ} (hheld : HeldBy (ledger.after cs) id k caller owner pod epoch)
    (hds : ledger.Along (fun s c => ¬ EndsHold s id k owner pod epoch c) (ledger.after cs) ds) :
    HeldBy (ledger.run (ledger.after cs) ds) id k caller owner pod epoch
      ∧ count (ledger.run (ledger.after cs) ds) (.a caller)
        = slotTotal (withoutSlot (ledger.run (ledger.after cs) ds) id k)
            (fun request slot => request.caller = caller && slot.isActive) + 1 := by
  have hreach := reachable_after (M := ledger) cs
  have hend := run_preserves hreach (fun s c hs h hc => heldBy_next hs h hc) hheld hds
  exact ⟨hend, charged_of_heldBy (hreach.run ds) hend⟩

/-- A run in which the engine `o` accepts the first of two slots. -/
def acceptingRun : List Command :=
  [⟨"", .publish 1 {} ["f", "g"] ["p"]⟩, ⟨"", .registerOwner "f" 1⟩,
    ⟨"r", .enqueue "f" 1 "c" "user" 2⟩, ⟨"r", .dispatch⟩, ⟨"r", .accept 0 "o" "p" 5⟩]

/-- Revocation of every kind leaves the accepted slot of `acceptingRun` with its engine. -/
theorem held_until_ended_revoked :
    HeldBy (ledger.run (ledger.after acceptingRun)
      [⟨"r", .drop 0⟩, ⟨"r", .cancelEntry "f" 1 "c"⟩, ⟨"r", .retry⟩, ⟨"", .registerOwner "f" 2⟩,
        ⟨"r", .accept 0 "o'" "p" 6⟩, ⟨"", .publishMembership 2 ["g"] ["p"]⟩])
      "r" 0 "c" "o" "p" 5 := by
  refine (held_until_ended acceptingRun _ ⟨⟨"c", some "user", "f", 1, 2, true, false, false,
    [⟨.accepted, some "o", some "p", some 5, ∅⟩, ⟨.reserved, none, none, none, ∅⟩]⟩, _,
    by decide, rfl, rfl, rfl, rfl, rfl, rfl⟩ ?_).1
  exact ⟨id, id, id, id, id, fun h => absurd (List.mem_singleton.mpr rfl) h.2, trivial⟩

/-! ### An owner accepts a slot once -/

/-- What is true of slot `k` of the batch `id`, if there is such a slot. -/
def AllAt (s : Ledger) (id : String) (k : ℕ) (P : Slot → Prop) : Prop :=
  ∀ request slot, s.records.lookup id = some request → request.slots[k]? = some slot → P slot

/-- The call admits the batch `id`. -/
def Command.enqueues (c : Command) (id : String) : Prop :=
  c.id = id ∧ match c.action with
    | .enqueue _ _ _ _ _ => True
    | _ => False

/-- The call does not admit a batch whose record is gone. -/
def NotReadmitted (id : String) (s : Ledger) (c : Command) : Prop :=
  s.records.lookup id = none → ¬ c.enqueues id

/-- What every slot step keeps, the calls keep. -/
lemma allAt_next (hs : ledger.Reachable s) {P : Slot → Prop}
    (hP : ∀ slot slot', SlotStep s c id k slot slot' → P slot → P slot')
    (hc : NotReadmitted id s c) (h : AllAt s id k P) : AllAt (ledger.next s c) id k P := by
  intro r' slot' hr' hslot'
  rcases record_next (stored_of_reachable hs) hr' with ⟨q, hr, rfl⟩ | ⟨hnone, hid, hcreates⟩
  · obtain ⟨slot, hslot, hstep⟩ := recordAfter_slot_inv c.id c.action hr hslot'
    exact hP slot slot' hstep (h q slot hr hslot)
  · obtain ⟨x, action⟩ := c
    cases hcreates with
    | enqueue => exact absurd ⟨hid.symm, trivial⟩ (hc hnone)
    | negative => simp [Request.negative] at hslot'

/-- The owner has used up its claim to the slot. -/
def Slot.spent (owner : String) (slot : Slot) : Prop :=
  slot.state = .completed ∨ owner ∈ slot.finishedOwners

/-- The owner holds the slot or has used up its claim to it. -/
def Slot.claimed (owner : String) (slot : Slot) : Prop :=
  slot.held ∧ slot.owner = some owner ∨ slot.spent owner

section Steps

variable {x : String} {slot' : Slot}

lemma SlotStep.spent (h : SlotStep s c x k slot slot') (hspent : slot.spent owner) :
    slot'.spent owner := by
  rcases hspent with hc | hf
  · rw [h.completed hc]
    exact .inl hc
  · exact .inr (h.finishedOwners hf)

/-- An acceptance ends by a completion. -/
lemma SlotStep.claimed (h : SlotStep s c x k slot slot') (hclmd : slot.claimed owner) :
    slot'.claimed owner := by
  rcases hclmd with ⟨hheld, howner⟩ | hspent
  swap
  · exact .inr (h.spent hspent)
  have hstate : slot.state = .accepted ∨ slot.state = .cancelling := by
    simpa [Slot.held] using hheld
  have hsame : slot.claimed owner := .inl ⟨hheld, howner⟩
  have hcancel : slot.cancel.held ∧ slot.cancel.owner = some owner := by
    have hholder := slot.holder_cancel
    simp only [holder, Prod.mk.injEq] at hholder
    exact ⟨slot.held_cancel.symm ▸ hheld, hholder.1.trans howner⟩
  cases h with
  | idle => exact hsame
  | cancel => exact .inl hcancel
  | reserve =>
    rcases slot.reserve_eq with h | ⟨hw, _⟩
    · rwa [h]
    · simp [hw] at hstate
  | unreserve =>
    rcases slot.unreserve_eq with h | ⟨hw, _⟩
    · rwa [h]
    · simp [hw] at hstate
  | accept _ _ _ _ _ hopen => rcases hstate with h | h <;> simp [h] at hopen
  | reject =>
    rcases slot.reject_eq _ with h | h <;> rw [h]
    · exact hsame
    · exact .inr (.inl rfl)
  | complete =>
    rcases slot.complete_eq _ _ with h | ⟨_, howner', st, _, h⟩ <;> rw [h]
    · exact hsame
    · rw [howner] at howner'
      rw [← some.inj howner']
      exact .inr (.inr (Finset.mem_insert_self _ _))
  | recover =>
    rcases slot.terminate_eq _ with h | h <;> rw [h]
    · exact hsame
    · exact .inr (.inl rfl)
  | members _ hslot =>
    rcases terminate_eq _ _ with h | h <;> rw [h]
    · rcases hslot with rfl | rfl
      · exact hsame
      · exact .inl hcancel
    · exact .inr (.inl rfl)

end Steps

/-- The state of slot `k` of the batch `id`. -/
def slotState (s : Ledger) (id : String) (k : ℕ) : Option SlotState :=
  (s.records.lookup id).bind fun request => request.slots[k]?.map (·.state)

/-- The call moves the slot into `accepted` for the owner. -/
def AcceptsSlot (s : Ledger) (id : String) (k : ℕ) (owner : String) (c : Command) : Prop :=
  (∃ pod epoch, c = ⟨id, .accept k owner pod epoch⟩) ∧ slotState s id k ≠ some .accepted
    ∧ slotState (ledger.next s c) id k = some .accepted

/-- An acceptance leaves the slot claimed. -/
lemma claimed_of_accepts (hs : ledger.Reachable s) (h : AcceptsSlot s id k owner c) :
    AllAt (ledger.next s c) id k (claimed owner) ∧ s.config ≠ none := by
  obtain ⟨⟨pod, epoch, rfl⟩, hbefore, hafter⟩ := h
  have hwrite : (transition s id (.accept k owner pod epoch)).1 ≠ s := by
    intro hsame
    change slotState (transition s id (.accept k owner pod epoch)).1 id k = _ at hafter
    rw [hsame] at hafter
    exact hbefore hafter
  obtain ⟨q, slot, backends, hr, hslot, -, -, -, -, hstate, hconf⟩ := accept_tests hwrite
  refine ⟨fun r' slot' hr' hslot' => ?_, hconf⟩
  rw [slotState, hr', bind_some, hslot'] at hafter
  change (transition s id (.accept k owner pod epoch)).1.records.lookup id = some r' at hr'
  rw [lookup_transition (stored_of_reachable hs) _ _ hr] at hr'
  rw [Request.kept_eq_some hr'] at hslot'
  obtain ⟨slot₀, hslot₀, hstep⟩ := recordAfter_slot_inv id _ hr hslot'
  rw [hslot] at hslot₀
  cases hslot₀
  have hheld : slot'.held := by
    simp only [map_some, some.injEq] at hafter
    simp [held, hafter]
  rcases hstep.held_inv hheld with ⟨hheld₀, -⟩ | ⟨owner', _, _, _, hc, -, -, -, rfl⟩
  · rcases hstate with hst | hst <;> simp [held, hst] at hheld₀
  · simp only [Command.mk.injEq, Action.accept.injEq, true_and] at hc
    exact .inl ⟨rfl, by rw [Slot.accept, hc.1]⟩

lemma accept_claimed (h : AllAt s id k (claimed owner)) (pod : String) (epoch : ℕ) :
    (transition s id (.accept k owner pod epoch)).1 = s := by
  by_contra hwrite
  obtain ⟨q, slot, backends, hr, hslot, -, -, -, hfin, hstate, -⟩ := accept_tests hwrite
  rcases h q slot hr hslot with ⟨hheld, -⟩ | hdone | hdone
  · rcases hstate with hst | hst <;> simp [held, hst] at hheld
  · rcases hstate with hst | hst <;> simp [hst] at hdone
  · exact hfin hdone

lemma accept_spent {bs : Finset String} (hback : s.backends = some bs)
    (id : String) (q : Request) (k : ℕ) (h : slot.spent owner) (pod : String) (epoch : ℕ) :
    (accept s id q k slot owner pod epoch).2 = .closed
      ∨ (accept s id q k slot owner pod epoch).2 = .backendUnavailable := by
  rw [accept, hback]
  dsimp only
  by_cases hpod : pod ∈ bs
  swap
  · rw [if_pos hpod]
    exact .inr rfl
  rw [if_neg (not_not.mpr hpod)]
  left
  by_cases hold : (epoch : ℤ) < count s (.b pod)
  · rw [if_pos hold]
  by_cases hfin : owner ∈ slot.finishedOwners
  · rw [if_neg hold, if_pos hfin]
  have hdone := h.resolve_right hfin
  rw [if_neg hold, if_neg hfin, if_neg (by simp [hdone]), if_pos (by simp [hdone])]

lemma reply_accept_spent (hs : ledger.Reachable s) (hconf : s.config ≠ none)
    (h : AllAt s id k (spent owner)) (pod : String) (epoch : ℕ) :
    (transition s id (.accept k owner pod epoch)).2 = .closed
      ∨ (transition s id (.accept k owner pod epoch)).2 = .backendUnavailable := by
  obtain ⟨g, frontends, backends, hconf, hfront, hback⟩ :=
    settings_of_config hs hconf
  change (guarded s id _).2 = _ ∨ (guarded s id _).2 = _
  by_cases hdone : s.completions.lookup id ≠ none ∧ terminated s id
  · rw [guarded, if_pos hdone]
    exact .inl rfl
  rw [guarded, if_neg hdone, published, hconf, hfront]
  cases hr : s.records.lookup id with
  | none =>
    simp [recorded, hr]
  | some q =>
    simp only [recorded, hr, slotted]
    cases hslot : q.slots[k]? with
    | none => exact .inl rfl
    | some slot => exact accept_spent hback id q k (h q slot hr hslot) pod epoch

/-- The owner does not hold the slot. -/
def Slot.notHeldBy (owner : String) (slot : Slot) : Prop := ¬ (slot.held ∧ slot.owner = some owner)

/-- **At-most-once acceptance.** Let a call move slot `k` of the batch `id` into
`accepted` for an owner, and let the request id not be admitted again afterwards
once its record is gone. Then no later call moves the slot into `accepted` for
that owner; and once the acceptance has ended, at the state after `pre`, every
later claim of that owner is refused and changes nothing. -/
theorem accepted_at_most_once (cs ds : List Command) (c : Command) {id : String} {k : ℕ}
    {owner : String} (hfirst : AcceptsSlot (ledger.after cs) id k owner c)
    (hds : ledger.Along (NotReadmitted id) (ledger.after (cs ++ [c])) ds) :
    (∀ c', ¬ AcceptsSlot (ledger.run (ledger.after (cs ++ [c])) ds) id k owner c')
      ∧ ∀ pre post, ds = pre ++ post →
        AllAt (ledger.run (ledger.after (cs ++ [c])) pre) id k (Slot.notHeldBy owner) →
        ∀ pod epoch,
          (ledger.reply (ledger.run (ledger.after (cs ++ [c])) ds)
              ⟨id, .accept k owner pod epoch⟩ = .closed
            ∨ ledger.reply (ledger.run (ledger.after (cs ++ [c])) ds)
              ⟨id, .accept k owner pod epoch⟩ = .backendUnavailable)
          ∧ ledger.next (ledger.run (ledger.after (cs ++ [c])) ds)
              ⟨id, .accept k owner pod epoch⟩
            = ledger.run (ledger.after (cs ++ [c])) ds := by
  have hreach := reachable_after (M := ledger) (cs ++ [c])
  obtain ⟨hclaimed, hconfig⟩ := claimed_of_accepts (reachable_after cs) hfirst
  rw [← after_concat] at hclaimed
  have hconfig : (ledger.after (cs ++ [c])).config ≠ none := by
    rw [after_concat]
    exact config_next c hconfig
  generalize ledger.after (cs ++ [c]) = s at *
  have hrun : ∀ {es}, ledger.Along (NotReadmitted id) s es →
      AllAt (ledger.run s es) id k (claimed owner) := fun hes =>
    run_preserves hreach
      (fun s c hs h hc => allAt_next hs (fun _ _ hstep => hstep.claimed) hc h) hclaimed hes
  refine ⟨?_, fun pre post hsplit hended pod epoch => ?_⟩
  · rintro c' ⟨⟨pod, epoch, rfl⟩, hbefore, hafter⟩
    change slotState (transition _ id (.accept k owner pod epoch)).1 id k = _ at hafter
    rw [accept_claimed (hrun hds)] at hafter
    exact hbefore hafter
  · subst hsplit
    have hspent : AllAt (ledger.run s pre) id k (spent owner) := fun request slot hr hslot =>
      (hrun hds.left request slot hr hslot).resolve_left (hended request slot hr hslot)
    have hlate : AllAt (ledger.run s (pre ++ post)) id k (spent owner) := by
      rw [run_append]
      exact run_preserves (hreach.run pre)
        (fun s c hs h hc => allAt_next hs (fun _ _ hstep => hstep.spent) hc h) hspent hds.right
    have hpublished : (ledger.run s (pre ++ post)).config ≠ none :=
      run_stable (I := fun s => s.config ≠ none) hreach (fun s c _ h => config_next c h)
        hconfig _
    exact ⟨reply_accept_spent (hreach.run _) hpublished hlate pod epoch,
      accept_claimed (hrun hds) pod epoch⟩

/-- The engine of `acceptingRun` finishes its stage and another one takes over; a delayed
claim of the first is refused. -/
theorem accepted_at_most_once_handoff :
    ¬ AcceptsSlot (ledger.run (ledger.after acceptingRun)
      [⟨"r", .complete 0 "o" false⟩, ⟨"r", .accept 0 "o'" "p" 5⟩, ⟨"r", .complete 0 "o'" false⟩])
      "r" 0 "o" ⟨"r", .accept 0 "o" "p" 5⟩ := by
  refine (accepted_at_most_once
    [⟨"", .publish 1 {} ["f", "g"] ["p"]⟩, ⟨"", .registerOwner "f" 1⟩,
      ⟨"r", .enqueue "f" 1 "c" "user" 2⟩, ⟨"r", .dispatch⟩] _ ⟨"r", .accept 0 "o" "p" 5⟩
    ⟨⟨"p", 5, rfl⟩, by decide, by decide⟩ ?_).1 _
  exact ⟨fun _ h => h.2, fun _ h => h.2, fun _ h => h.2, trivial⟩

end Foretoken.RequestLedger
