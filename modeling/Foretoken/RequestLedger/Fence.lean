import Foretoken.RequestLedger.Ownership
import Foretoken.RequestLedger.Holding
import Foretoken.RequestLedger.Evidence

/-!
Process epochs as fences.

An activated epoch goes with the membership of its process. The safety of a late command after that
rests on the membership test, and on the assumption that a process removed from the membership does
not come back (`NoReturn`).
-/

namespace Foretoken.RequestLedger

open Slot Option Machine

variable {s : Ledger} {pod frontend : String} {name : Field} {c : Command} {epoch : ℕ}

/-! ### Processes that do not come back -/

/-- The process of an `o:` or `b:` field is a member. -/
def isMember (s : Ledger) : Field → Bool
  | .o frontend => s.frontends.any (frontend ∈ ·)
  | .b pod => s.backends.any (pod ∈ ·)
  | _ => false

/-- The call does not make a process a member that is none. -/
def NoReturn (name : Field) (s : Ledger) (c : Command) : Prop :=
  isMember (ledger.next s c) name → isMember s name

instance (name : Field) (s : Ledger) (c : Command) : Decidable (NoReturn name s c) :=
  inferInstanceAs (Decidable (_ → _))

/-- Epochs of a member below the given one are over. -/
def PastEpoch (name : Field) (epoch : ℕ) (s : Ledger) : Prop :=
  isMember s name → (epoch : ℤ) ≤ count s name

lemma isMember_backend :
    isMember s (.b pod) ↔ ∃ backends, s.backends = some backends ∧ pod ∈ backends := by
  simp [isMember, any_eq_true]

lemma isMember_counter (h : isMember s name) : ¬ name.isCounter ∧ name ≠ .ownerEpoch := by
  cases name <;> simp [isMember] at h <;> simp [Field.isCounter]

lemma count_of_member {fs bs : Finset String}
    (hnew : newMembers s c.action = some (fs, bs))
    (hmember : isMember (ledger.next s c) name) : count (ledger.next s c) name = count s name := by
  obtain ⟨hf, hb, hcount⟩ := members_new c.id hnew
  have hstale : name.stale fs bs = false := by
    change isMember (transition s c.id c.action).1 name at hmember
    cases name <;> simp [isMember, hf, hb] at hmember <;> simp [Field.stale, hmember]
  change count (transition s c.id c.action).1 name = _
  rw [hcount name (isMember_counter hmember).1, hstale]
  simp

/-- **The epoch of a member only goes up.** -/
lemma count_le_next (hmember : isMember (ledger.next s c) name) :
    count s name ≤ count (ledger.next s c) name := by
  cases hnew : newMembers s c.action with
  | some ms =>
    exact (count_of_member hnew hmember).ge
  | none =>
    obtain ⟨hcnt, howner⟩ := isMember_counter hmember
    change count s name ≤ count (transition s c.id c.action).1 name
    rcases (members_kept c.id hnew).2.2 name hcnt howner with h | ⟨epoch, -, hlt, h⟩ <;> omega

lemma pastEpoch_next (h : PastEpoch name epoch s) (hc : NoReturn name s c) :
    PastEpoch name epoch (ledger.next s c) := fun hmember =>
  (h (hc hmember)).trans (count_le_next hmember)

lemma pastEpoch_run (hs : ledger.Reachable s) (h : PastEpoch name epoch s) {ds : List Command}
    (hds : ledger.Along (NoReturn name) s ds) : PastEpoch name epoch (ledger.run s ds) :=
  run_preserves hs (fun _ _ _ hI hc => pastEpoch_next hI hc) h hds

/-! ### The tests behind an `ok` -/

section Tests

variable {id : String}

/-- The owner test reads the membership and the activated epoch. -/
lemma owns_iff {fs : Finset String} (hfront : s.frontends = some fs)
    (frontend : String) (epoch : ℕ) :
    owns s fs frontend epoch ↔ isMember s (.o frontend) ∧ count s (.o frontend) = epoch := by
  simp [owns, isMember, hfront]

lemma enqueue_ok {u role : String} {units : ℕ}
    (h : (transition s id (.enqueue frontend epoch u role units)).2 = .ok) :
    isMember s (.o frontend) ∧ count s (.o frontend) = epoch := by
  obtain ⟨g, frontends, hopen, hok⟩ := open_of_ok rfl h
  simp only [published, hopen.config_eq, hopen.frontends_eq] at hok
  split_ifs at hok with hclosed
  rw [← owns_iff hopen.frontends_eq]
  by_contra howns
  simp [enqueue, if_pos (by simpa using howns)] at hok

lemma accept_ok {k : ℕ} {o : String}
    (h : (transition s id (.accept k o pod epoch)).2 = .ok) :
    isMember s (.b pod) ∧ count s (.b pod) ≤ epoch := by
  obtain ⟨g, frontends, hopen, hok⟩ := open_of_ok rfl h
  simp only [published, hopen.config_eq, hopen.frontends_eq, recorded, slotted] at hok
  split at hok
  · cases hok
  split at hok
  · cases hok
  cases hback : s.backends with
  | none => simp [accept, hback] at hok
  | some bs =>
    by_cases hpod : pod ∈ bs
    swap
    · simp [accept, hback, hpod] at hok
    refine ⟨by simp [isMember, hback, hpod], ?_⟩
    by_contra hold
    simp [accept, hback, hpod, not_le.mp hold] at hok

end Tests

/-! ### Epochs fence their predecessors -/

/-- The call activates an ownership epoch of a frontend. -/
def Activates (s : Ledger) (c : Command) (frontend : String) (epoch : ℕ) : Prop :=
  c.action = .registerOwner frontend epoch ∧ count s (.o frontend) ≠ epoch
    ∧ count (ledger.next s c) (.o frontend) = epoch

/-- The epochs of a frontend below the given one are fenced off: later activations are
above it, commands of the earlier processes fail, and what they left waiting,
reserved or handed off is released. -/
structure FrontendFenced (s : Ledger) (frontend : String) (epoch : ℕ) : Prop where
  increasing : ∀ c epoch', Activates s c frontend epoch' → epoch < epoch'
  enqueue : ∀ id old caller role units, old < epoch →
    ledger.reply s ⟨id, .enqueue frontend old caller role units⟩ ≠ .ok
  retain : ∀ id request consumer, s.records.lookup id = some request →
    request.frontend = frontend → request.epoch < epoch →
      ledger.reply s ⟨id, .retainCompletion consumer⟩ ≠ .ok
  released : ∀ id request, s.records.lookup id = some request → request.frontend = frontend →
    request.epoch < epoch →
      ∀ slot ∈ request.slots, slot.state = .cancelling ∨ slot.state = .completed

/-- Accepts of the earlier processes of a backend fail. -/
def BackendFenced (s : Ledger) (pod : String) (epoch : ℕ) : Prop :=
  ∀ id k owner old, old < epoch → ledger.reply s ⟨id, .accept k owner pod old⟩ ≠ .ok

/-- No slot is in the hands of an earlier process of a backend. -/
def NoneHeldBelow (s : Ledger) (pod : String) (epoch : ℕ) : Prop :=
  ∀ id request, s.records.lookup id = some request → ∀ slot ∈ request.slots,
    slot.state = .accepted ∨ slot.state = .cancelling → slot.backendPod = some pod →
      ∀ old, slot.backendEpoch = some old → epoch ≤ old

/-- Only a member activates, above its epoch. -/
lemma register_tests {id : String} (h : (transition s id (.registerOwner frontend epoch)).1 ≠ s) :
    isMember s (.o frontend) ∧ count s (.o frontend) < epoch := by
  have he := transition_effect s id (.registerOwner frontend epoch)
  generalize (transition s id (.registerOwner frontend epoch)).1 = s' at he h
  generalize (transition s id (.registerOwner frontend epoch)).2 = reply at he
  cases he with
  | unchanged => exact absurd rfl h
  | register hopen hmember hepoch => exact ⟨by simp [isMember, hopen.frontends_eq, hmember], hepoch⟩
  | slot hopen hr hact => cases hact

lemma Activates.tests (h : Activates s c frontend epoch) :
    isMember s (.o frontend) ∧ count s (.o frontend) < epoch := by
  obtain ⟨id, a⟩ := c
  obtain ⟨hact, hbefore, hafter⟩ := h
  obtain rfl : a = .registerOwner frontend epoch := hact
  have hwrite : (transition s id (.registerOwner frontend epoch)).1 ≠ s := fun hsame =>
    hbefore (hsame ▸ hafter)
  exact register_tests hwrite

lemma frontendFenced (hs : ledger.Reachable s) (h : PastEpoch (.o frontend) epoch s) :
    FrontendFenced s frontend epoch where
  increasing c epoch' hc := by
    have hle := h hc.tests.1
    have hlt := hc.tests.2
    omega
  enqueue id old caller role units hold hok := by
    obtain ⟨hmember, hcount⟩ := enqueue_ok hok
    have hle := h hmember
    omega
  retain id request consumer hr hfe hold hok := by
    obtain ⟨g, fs, request', hopen, hr', howns, -⟩ := retain_ok hok
    rw [hr] at hr'
    cases hr'
    rw [owns_iff hopen.frontends_eq, hfe] at howns
    obtain ⟨hmember, hcount⟩ := howns
    have hle := h hmember
    omega
  released id request hr hfe hold slot hslot := by
    have howned := owned_of_reachable hs id request hr
    -- the record is retired, for the epoch of a record that is not is the activated one
    have hretired : request.retired := by
      by_contra hret
      obtain ⟨fs, hfront, hmember, hcount⟩ := howned.frontend (by simpa using hret)
      rw [hfe] at hmember hcount
      have hle := h (by simp [isMember, hfront, hmember])
      omega
    simpa [revoked] using howned.revoked (.inr hretired) slot hslot

lemma backendFenced (h : PastEpoch (.b pod) epoch s) : BackendFenced s pod epoch := by
  intro id k o old hold hok
  obtain ⟨hmember, hcount⟩ := accept_ok hok
  have hle := h hmember
  omega

/-- After a recovery the epoch is not below it. -/
lemma pastEpoch_recover (x : String) (epoch : ℕ) (hmember : isMember s (.b pod)) :
    PastEpoch (.b pod) epoch (ledger.next s ⟨x, .recoverBackend pod epoch⟩) := by
  intro _
  change (epoch : ℤ) ≤ count (recoverBackend s pod epoch) (.b pod)
  obtain ⟨backends, hback, hpod⟩ := isMember_backend.mp hmember
  by_cases hepoch : count s (.b pod) ≤ epoch
  · rw [recoverBackend_eq hback hpod hepoch, finishBackendSlots_eq,
      count_rewriteAll _ _ (by simp [Field.isCounter]), count_raiseEpoch, if_pos rfl]
    exact le_max_right _ _
  · have hsame : recoverBackend s pod epoch = s := by
      simp [recoverBackend, hback, not_le.mp hepoch]
    rw [hsame]
    omega

/-- A recovery in time ends what earlier processes hold. -/
lemma noneHeldBelow_recover (hs : ledger.Reachable s) (x : String) (hmember : isMember s (.b pod))
    (hepoch : count s (.b pod) ≤ epoch) :
    NoneHeldBelow (ledger.next s ⟨x, .recoverBackend pod epoch⟩) pod epoch := by
  intro id r hr slot' hslot' hheld hpod' old hold
  obtain ⟨backends, hback, hpod⟩ := isMember_backend.mp hmember
  change (recoverBackend s pod epoch).records.lookup id = some r at hr
  rw [recoverBackend_eq hback hpod hepoch, finishBackendSlots_eq, lookup_rewriteAll,
    raiseEpoch_records, bind_eq_some_iff] at hr
  obtain ⟨request, hreq, hkept⟩ := hr
  rw [planned_terminatePlan _ ((stored_of_reachable hs).kept id request hreq)] at hkept
  rw [Request.kept_eq_some hkept] at hslot'
  obtain ⟨slot, hslot, rfl⟩ := List.mem_map.mp hslot'
  by_contra hlt
  rw [terminate] at hheld hpod' hold
  split_ifs at hheld hpod' hold with hends
  · simp [finish] at hheld
  · refine hends ?_
    simp only [ends, held, recovered, hpod', hold, isSome_some, any_some,
      Bool.and_eq_true, decide_eq_true_eq]
    exact ⟨⟨hheld, trivial⟩, trivial, not_le.mp hlt⟩

lemma noneHeldBelow_next (hs : ledger.Reachable s) (hpast : PastEpoch (.b pod) epoch s)
    (h : NoneHeldBelow s pod epoch) : NoneHeldBelow (ledger.next s c) pod epoch := by
  intro id r hr slot' hslot' hheld hpod old hold
  rcases record_next (stored_of_reachable hs) hr with ⟨q, hbefore, rfl⟩ | ⟨-, -, hcreates⟩
  · obtain ⟨k, hk⟩ := List.mem_iff_getElem?.mp hslot'
    obtain ⟨slot, hslot, hstep⟩ := recordAfter_slot_inv c.id c.action hbefore hk
    rcases hstep.held_inv (by simpa [held] using hheld) with
      ⟨hheld₀, hholder⟩ | ⟨owner, pod', epoch', backends, -, hback, hmember, hle, rfl⟩
    · simp only [holder, Prod.mk.injEq] at hholder
      exact h id q hbefore slot (List.mem_of_getElem? hslot)
        (by simpa [Slot.held] using hheld₀) (hholder.2.1 ▸ hpod) old (hholder.2.2 ▸ hold)
    · simp only [Slot.accept, some.injEq] at hpod hold
      subst hpod hold
      have hcount := hpast (by simp [isMember, hback, hmember])
      omega
  · rw [hcreates.slots slot' hslot'] at hheld
    simp at hheld

/-- **Process epochs fence predecessors.** For a frontend, every activated epoch does so
through any later calls. For a backend, `recover_backend` shuts out the accepts of
earlier processes; it also takes their slots away for good, unless it comes so late
that a newer epoch was activated before it. -/
theorem epochs_fence_predecessors (cs ds : List Command) :
    (∀ frontend (epoch : ℕ), isMember (ledger.after cs) (.o frontend) →
      count (ledger.after cs) (.o frontend) = epoch →
      ledger.Along (NoReturn (.o frontend)) (ledger.after cs) ds →
        FrontendFenced (ledger.run (ledger.after cs) ds) frontend epoch)
      ∧ ∀ x pod (epoch : ℕ), isMember (ledger.after cs) (.b pod) →
        ledger.Along (NoReturn (.b pod))
          (ledger.next (ledger.after cs) ⟨x, .recoverBackend pod epoch⟩) ds →
        BackendFenced (ledger.run (ledger.after cs)
            (⟨x, .recoverBackend pod epoch⟩ :: ds)) pod epoch
          ∧ (count (ledger.after cs) (.b pod) ≤ epoch →
            NoneHeldBelow (ledger.run (ledger.after cs)
              (⟨x, .recoverBackend pod epoch⟩ :: ds)) pod epoch) := by
  have hreach := reachable_after (M := ledger) cs
  generalize ledger.after cs = s at hreach ⊢
  refine ⟨fun frontend epoch _ hcount hds => ?_, fun x pod epoch hmember hds => ⟨?_, fun hle => ?_⟩⟩
  · exact frontendFenced (hreach.run ds) (pastEpoch_run hreach (fun _ => hcount.ge) hds)
  · rw [run_cons]
    exact backendFenced (pastEpoch_run (hreach.next _) (pastEpoch_recover x epoch hmember) hds)
  · -- the epoch of the backend carries the invariant, for an accept is tested against it
    rw [run_cons]
    exact (run_preserves
      (I := fun t => PastEpoch (.b pod) epoch t ∧ NoneHeldBelow t pod epoch) (hreach.next _)
      (fun t c ht h hc => ⟨pastEpoch_next h.1 hc, noneHeldBelow_next ht h.1 h.2⟩)
      ⟨pastEpoch_recover x epoch hmember, noneHeldBelow_recover hreach x hmember hle⟩ hds).2

/-- Restarts of `f` and of `p` in a run in which their earlier processes still speak. -/
theorem epochs_fence_predecessors_restart :
    FrontendFenced
        (ledger.run (ledger.after (acceptingRun ++ [⟨"", .registerOwner "f" 2⟩]))
        [⟨"", .registerOwner "f" 1⟩, ⟨"", .publishMembership 2 ["g"] ["p"]⟩]) "f" 2
      ∧ NoneHeldBelow (ledger.run (ledger.after acceptingRun)
        [⟨"", .recoverBackend "p" 6⟩, ⟨"r", .accept 1 "o" "p" 5⟩]) "p" 6 := by
  exact ⟨(epochs_fence_predecessors _ _).1 "f" 2 (by decide) (by decide) (by decide),
    ((epochs_fence_predecessors _ [⟨"r", .accept 1 "o" "p" 5⟩]).2 "" "p" 6 (by decide)
      (by decide)).2 (by decide)⟩

/-- The processes `1` and `3` of `p` hold a slot each when the recovery of process `2`
arrives; it is not the newest one and ends nothing. -/
def lateRecovery : List Command :=
  [⟨"", .publish 1 {} ["f"] ["p"]⟩, ⟨"", .registerOwner "f" 1⟩,
    ⟨"r", .enqueue "f" 1 "c" "user" 2⟩, ⟨"r", .dispatch⟩, ⟨"r", .accept 0 "o" "p" 1⟩,
    ⟨"r", .accept 1 "o" "p" 3⟩]

/-- A recovery alone does not take the slots of all earlier processes away. -/
theorem late_recovery_keeps_predecessor :
    ¬ ∀ (cs ds : List Command) (x pod : String) (epoch : ℕ),
      isMember (ledger.after cs) (.b pod) →
      ledger.Along (NoReturn (.b pod))
        (ledger.next (ledger.after cs) ⟨x, .recoverBackend pod epoch⟩) ds →
      NoneHeldBelow (ledger.run (ledger.after cs)
        (⟨x, .recoverBackend pod epoch⟩ :: ds)) pod epoch := by
  intro h
  have hle := h lateRecovery [] "" "p" 2 (by decide) trivial "r"
    ⟨"c", some "user", "f", 1, 2, true, false, false,
      [⟨.accepted, some "o", some "p", some 1, ∅⟩, ⟨.accepted, some "o", some "p", some 3, ∅⟩]⟩
    (by decide) _ (List.mem_cons_self) (.inl rfl) rfl 1 rfl
  omega

end Foretoken.RequestLedger
