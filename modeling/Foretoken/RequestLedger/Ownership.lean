import Foretoken.RequestLedger.Lifecycle

/-!
Who owns the records and the slots of a reachable ledger.
-/

namespace Foretoken.RequestLedger

open List Slot Option

variable {s : Ledger} {id : String} {a : Action} {request : Request}

/-- What a record says about its owners agrees with the members and the epochs. -/
structure Owned (s : Ledger) (request : Request) : Prop where
  frontend : request.retired = false → ∃ frontends, s.frontends = some frontends
    ∧ request.frontend ∈ frontends ∧ count s (.o request.frontend) = request.epoch
  revoked : request.cancelled ∨ request.retired → ∀ slot ∈ request.slots, slot.revoked
  backend : ∀ slot ∈ request.slots, slot.held → ∃ backends pod epoch,
    s.backends = some backends ∧ slot.backendPod = some pod ∧ pod ∈ backends
      ∧ slot.backendEpoch = some epoch ∧ (epoch : ℤ) ≤ count s (.b pod)

/-! ### A record that is rewritten -/

lemma recordAfter_of_ne (h : (transition s id a).1 ≠ s) (x : String) (request : Request) :
    recordAfter s id a x request = recordWrite s id a x request := if_neg h

lemma slotWrite_retires {x : String} (h : retires s a request) (k : ℕ) (slot : Slot) :
    (slotWrite s id a x request k slot).revoked := by
  unfold retires at h
  unfold slotWrite
  split at h
  · rename_i fs bs hnew
    simp only [decide_eq_true_eq] at h
    rw [if_neg h]
    rcases slot.cancel.terminate_eq (omits bs) with ht | ht <;> rw [ht]
    · exact slot.revoked_cancel
    · rfl
  · split at h
    · dsimp only
      rw [if_neg (by simpa using h)]
      exact slot.revoked_cancel
    · cases h

/-- A slot that survives a membership has its backend in it. -/
lemma pod_mem_of_held {backends : Finset String} {slot : Slot} {pod : String}
    (hheld : (slot.terminate (omits backends)).held) (hpod : slot.backendPod = some pod) :
    pod ∈ backends := by
  by_contra hout
  rw [terminate] at hheld
  split_ifs at hheld with hends
  · cases hheld
  · refine hends ?_
    simp [ends, hheld, hpod, omits, hout]

section After

variable {x : String}

lemma frontend_after (h : Owned s request)
    (hret : (recordAfter s id a x request).retired = false) :
    ∃ frontends, (transition s id a).1.frontends = some frontends
      ∧ (recordAfter s id a x request).frontend ∈ frontends
      ∧ count (transition s id a).1 (.o (recordAfter s id a x request).frontend)
        = (recordAfter s id a x request).epoch := by
  by_cases hsame : (transition s id a).1 = s
  · rw [recordAfter, if_pos hsame] at hret ⊢
    rw [hsame]
    exact h.frontend hret
  rw [recordAfter_of_ne hsame] at hret ⊢
  simp only [recordWrite, Bool.or_eq_false_iff] at hret ⊢
  obtain ⟨frontends, hfront, hmember, hepoch⟩ := h.frontend hret.1
  have hkept := hret.2
  cases hnew : newMembers s a with
  | some members =>
    obtain ⟨frontends', backends'⟩ := members
    obtain ⟨hf, -, hcount⟩ := members_new id hnew
    have hmember' : request.frontend ∈ frontends' := by simpa [retires, hnew] using hkept
    refine ⟨frontends', hf, hmember', ?_⟩
    rw [hcount _ (by simp [Field.isCounter]), if_neg (by simpa [Field.stale] using hmember')]
    exact hepoch
  | none =>
    obtain ⟨hf, -, hcount⟩ := members_kept id hnew
    refine ⟨frontends, hf.trans hfront, hmember, ?_⟩
    rcases hcount (.o request.frontend) (by simp [Field.isCounter]) (by simp) with
      hc | ⟨epoch, hact, -, hc⟩
    · rw [hc, hepoch]
    · -- the owner was activated in this call, and the record is of that very epoch
      obtain rfl := activates_owner hact
      have hkeep : request.epoch = epoch := by simpa [retires, newMembers, keepsOwner] using hkept
      rw [hc, hkeep]

section

variable (hr : s.records.lookup x = some request) (h : Owned s request)
include hr h

lemma revoked_after
    (hrevoked : (recordAfter s id a x request).cancelled ∨ (recordAfter s id a x request).retired) :
    ∀ slot ∈ (recordAfter s id a x request).slots, slot.revoked := by
  intro slot' hslot'
  obtain ⟨k, hk⟩ := mem_iff_getElem?.mp hslot'
  obtain ⟨slot, hslot, hstep⟩ := recordAfter_slot_inv id a hr hk
  by_cases hbefore : request.cancelled ∨ request.retired
  · exact hstep.revoked (h.revoked hbefore slot (mem_of_getElem? hslot))
  by_cases hsame : (transition s id a).1 = s
  · rw [recordAfter, if_pos hsame] at hrevoked
    exact absurd hrevoked hbefore
  rw [recordAfter_of_ne hsame] at hrevoked hk
  simp only [recordWrite, getElem?_mapIdx, hslot, map_some, some.injEq,
    Bool.or_eq_true, Bool.and_eq_true, decide_eq_true_eq] at hrevoked hk
  subst hk
  rcases hrevoked with (hc | ⟨rfl, hcancel⟩) | (hc | hretires)
  · exact absurd (.inl hc) hbefore
  · cases a <;> simp [Action.isCancel] at hcancel
    rw [slotWrite_self rfl]
    exact slot.revoked_cancel
  · exact absurd (.inr hc) hbefore
  · exact slotWrite_retires hretires k slot

lemma backend_after :
    ∀ slot ∈ (recordAfter s id a x request).slots, slot.held → ∃ backends pod epoch,
      (transition s id a).1.backends = some backends ∧ slot.backendPod = some pod
        ∧ pod ∈ backends ∧ slot.backendEpoch = some epoch
        ∧ (epoch : ℤ) ≤ count (transition s id a).1 (.b pod) := by
  intro slot' hslot' hheld
  by_cases hsame : (transition s id a).1 = s
  · rw [recordAfter, if_pos hsame] at hslot'
    rw [hsame]
    exact h.backend slot' hslot' hheld
  obtain ⟨k, hk⟩ := mem_iff_getElem?.mp hslot'
  obtain ⟨slot, hslot, hstep⟩ := recordAfter_slot_inv id a hr hk
  rcases hstep.held_inv hheld with ⟨hbefore, hholder⟩ | ⟨owner, pod, epoch, backends, hc, hback,
    hpod, -, rfl⟩
  · obtain ⟨backends, pod, epoch, hback, hpod, hmember, hepoch, hle⟩ :=
      h.backend slot (mem_of_getElem? hslot) hbefore
    simp only [holder, Prod.mk.injEq] at hholder
    rw [← hholder.2.1] at hpod
    rw [← hholder.2.2] at hepoch
    cases hnew : newMembers s a with
    | some members =>
      obtain ⟨frontends', backends'⟩ := members
      obtain ⟨-, hb, hcount⟩ := members_new id hnew
      rw [recordAfter_of_ne hsame] at hk
      simp only [recordWrite, getElem?_mapIdx, hslot, map_some, some.injEq,
        slotWrite, hnew] at hk
      have hmember' : pod ∈ backends' := by
        rw [← hk] at hheld hpod
        refine pod_mem_of_held hheld ?_
        rcases terminate_eq _ (omits backends') with ht | ht <;> rw [ht] at hpod <;> exact hpod
      refine ⟨backends', pod, epoch, hb, hpod, hmember', hepoch, ?_⟩
      rw [hcount _ (by simp [Field.isCounter]), if_neg (by simpa [Field.stale] using hmember')]
      exact hle
    | none =>
      obtain ⟨-, hb, hcount⟩ := members_kept id hnew
      refine ⟨backends, pod, epoch, hb.trans hback, hpod, hmember, hepoch, ?_⟩
      rcases hcount (.b pod) (by simp [Field.isCounter]) (by simp) with hc | ⟨_, -, hlt, hc⟩ <;>
        omega
  · obtain ⟨rfl, rfl⟩ := Command.mk.inj hc
    exact ⟨backends, pod, epoch, (members_kept id rfl).2.1.trans hback, rfl, hpod, rfl,
      activated_le hsame rfl⟩

/-- **Every call keeps the ownership of a record.** -/
lemma Owned.after :
    Owned (transition s id a).1 (recordAfter s id a x request) :=
  ⟨frontend_after h, revoked_after hr h, backend_after hr h⟩

end

end After

/-- A new record belongs to the active process of its frontend. -/
lemma owned_creates (h : Creates s id a request) : Owned (transition s id a).1 request := by
  have hfe : ∀ {config frontends frontend} {epoch : ℕ}, Open s id config frontends →
      owns s frontends frontend epoch → newMembers s a = none → a.activates = none →
      ∃ fs, (transition s id a).1.frontends = some fs ∧ frontend ∈ fs
        ∧ count (transition s id a).1 (.o frontend) = epoch := by
    intro config frontends frontend epoch hopen howns hnew hact
    obtain ⟨hf, -, hcount⟩ := members_kept id hnew
    simp only [owns, decide_eq_true_eq] at howns
    refine ⟨frontends, hf.trans hopen.frontends_eq, howns.1, ?_⟩
    rcases hcount (.o frontend) (by simp [Field.isCounter]) (by simp) with hc | ⟨_, hact', -⟩
    · rw [hc, howns.2]
    · simp [hact] at hact'
  cases h with
  | enqueue hopen hclosed howns =>
    refine ⟨fun _ => hfe hopen howns rfl rfl, fun h => ?_, fun slot hslot hheld => ?_⟩
    · simp [Request.fresh] at h
    · rw [eq_of_mem_replicate hslot] at hheld
      cases hheld
  | negative hopen howns =>
    refine ⟨fun _ => hfe hopen howns rfl rfl, fun _ slot hslot => ?_, fun slot hslot => ?_⟩
    · cases hslot
    · cases hslot

/-! ### The records of a reachable state -/

/-- Every record of a reachable ledger is owned. -/
theorem owned_of_reachable (h : ledger.Reachable s) (x : String) (request : Request)
    (hr : s.records.lookup x = some request) : Owned s request := by
  refine h.rec_on (I := fun s => ∀ x request, s.records.lookup x = some request →
    Owned s request) (fun x request hr => ?_) (fun s c hs ih x request hr => ?_) x request hr
  · rw [ledger] at hr
    cases hr
  · rcases record_next (stored_of_reachable hs) hr with ⟨b, hbefore, rfl⟩ | ⟨-, -, hcreates⟩
    · exact (ih x b hbefore).after hbefore
    · exact owned_creates hcreates

/-- A revoked record stays revoked. -/
lemma recordAfter_revoked {x : String} (h : request.cancelled ∨ request.retired) :
    (recordAfter s id a x request).cancelled
      ∨ (recordAfter s id a x request).retired := by
  rw [recordAfter]
  split_ifs
  · exact h
  · simp only [recordWrite, Bool.or_eq_true]
    tauto

/-- Ownership, as the records, the members and the epochs of a ledger show it. -/
structure Ownership (s : Ledger) : Prop where
  frontend : ∀ id request, s.records.lookup id = some request → request.retired = false →
    ∃ frontends, s.frontends = some frontends ∧ request.frontend ∈ frontends
      ∧ count s (.o request.frontend) = request.epoch
  revoked : ∀ id request, s.records.lookup id = some request →
    request.cancelled ∨ request.retired →
      ∀ slot ∈ request.slots, slot.state = .cancelling ∨ slot.state = .completed
  backend : ∀ id request, s.records.lookup id = some request →
    ∀ slot ∈ request.slots, slot.state = .accepted ∨ slot.state = .cancelling →
      ∃ backends pod epoch, s.backends = some backends ∧ slot.backendPod = some pod
        ∧ pod ∈ backends ∧ slot.backendEpoch = some epoch ∧ (epoch : ℤ) ≤ count s (.b pod)
  fence : ∀ id request, s.records.lookup id = some request → request.remaining = 0 →
    request.cancelled = true ∧ request.retired = false

/-- **The ownership invariant** of every reachable state. A cancelled or retired record
stays so for as long as it is there, so its slots stay revoked in every
continuation `ds` of the run. -/
theorem reachable_ownership (cs : List Command) :
    Ownership (ledger.after cs)
      ∧ ∀ id request, (ledger.after cs).records.lookup id = some request →
        request.cancelled ∨ request.retired →
        ∀ ds, (∀ pre post, ds = pre ++ post →
            (ledger.run (ledger.after cs) pre).records.lookup id ≠ none) →
          ∃ request', (ledger.run (ledger.after cs) ds).records.lookup id = some request'
            ∧ ∀ slot ∈ request'.slots, slot.state = .cancelling ∨ slot.state = .completed := by
  have hreach := Machine.reachable_after (M := ledger) cs
  generalize ledger.after cs = s at hreach ⊢
  refine ⟨⟨fun id r hr => (owned_of_reachable hreach id r hr).frontend,
    fun id r hr hrev slot hslot => ?_, fun id r hr slot hslot hheld => ?_,
    fun id r hr hzero => ?_⟩, fun id request hr hrev ds hds => ?_⟩
  · simpa [revoked] using (owned_of_reachable hreach id r hr).revoked hrev slot hslot
  · exact (owned_of_reachable hreach id r hr).backend slot hslot (by simpa [held] using hheld)
  · have hkept := (stored_of_reachable hreach).kept id r hr
    rw [Request.kept] at hkept
    split_ifs at hkept with hdelete
    simpa [hzero] using hdelete
  · -- the record is followed call by call; `recordAfter_revoked` carries the mark
    suffices hend : ∃ request', (ledger.run s ds).records.lookup id = some request'
        ∧ (request'.cancelled ∨ request'.retired) by
      obtain ⟨r, hr, hrev⟩ := hend
      refine ⟨r, hr, fun slot hslot => ?_⟩
      simpa [revoked] using
        (owned_of_reachable (hreach.run ds) id r hr).revoked hrev slot hslot
    induction ds using reverseRecOn with
    | nil => exact ⟨request, hr, hrev⟩
    | append_singleton ds c ih =>
      obtain ⟨r, hr, hrev⟩ := ih fun pre post h =>
        hds pre (post ++ [c]) (by rw [h, append_assoc])
      have hstep := lookup_transition (stored_of_reachable (hreach.run ds)) c.id c.action hr
      have hthere := hds (ds ++ [c]) [] (by simp)
      rw [Machine.run_concat] at hthere ⊢
      change (transition (ledger.run s ds) c.id c.action).1.records.lookup id ≠ none at hthere
      change ∃ request', (transition (ledger.run s ds) c.id c.action).1.records.lookup id
        = some request' ∧ _
      obtain ⟨r', hr'⟩ := ne_none_iff_exists'.mp hthere
      rw [hr'] at hstep
      refine ⟨r', hr', ?_⟩
      rw [Request.kept_eq_some hstep.symm]
      exact recordAfter_revoked hrev

end Foretoken.RequestLedger
