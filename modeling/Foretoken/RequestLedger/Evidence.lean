import Foretoken.RequestLedger.Lifecycle

/-!
Completion evidence.

A record is deleted in the call in which its last slot ends, so the ledger never shows the
completed batch itself. `followed` carries the batch on as the calls rewrite it, and `Tracked` ties
the ledger to it.
-/

namespace Foretoken.RequestLedger

variable {s : Ledger} {id : String} {request : Request}

/-! ### Registrations -/

/-- The call acknowledges the completion of a batch. -/
def Acknowledges (id : String) (s : Ledger) (c : Command) : Prop :=
  c = ⟨id, .acknowledge⟩ ∧ ledger.reply s c = .ok

lemma completions_publish (s : Ledger) (vn : ℕ) (g : Option AdmissionConfig)
    (fs bs : List String) :
    (publish s vn g fs bs).completions = s.completions := by
  obtain ⟨v, c, hconf⟩ := publishConfig_frame s vn g
  rw [publish, hconf]
  split_ifs
  · obtain ⟨m, records, hframe, -⟩ := publishMembers_frame { s with version := v, config := c }
      vn fs.toFinset bs.toFinset
    rw [hframe]
  · rfl

lemma completions_rewriteAll (plan : Request → Option ((Slot → Slot) × Request)) (s : Ledger) :
    (rewriteAll plan s).completions = s.completions := by
  obtain ⟨m, records, hframe, -⟩ := rewriteAll_frame plan s
  rw [hframe]

lemma completions_raiseEpoch (s : Ledger) (nm : Field) (n : ℕ) :
    (raiseEpoch s nm n).completions = s.completions := by
  obtain ⟨m, hframe⟩ := raiseEpoch_frame s nm n
  rw [hframe]

lemma completions_cases (s : Ledger) (c : Command) (x : String) :
    (ledger.next s c).completions.lookup x = s.completions.lookup x ∨ Acknowledges x s c
      ∨ ∃ consumer, c = ⟨x, .retainCompletion consumer⟩
        ∧ (ledger.next s c).completions.lookup x = some consumer := by
  have he := call_effect s c
  obtain ⟨id, action⟩ := c
  rw [Acknowledges]
  generalize ledger.next s ⟨id, action⟩ = s', ledger.reply s ⟨id, action⟩ = reply at he ⊢
  cases he with
  | recover =>
    rw [finishBackendSlots_eq, completions_rewriteAll, completions_raiseEpoch]
    exact .inl rfl
  | publish | publishMembership => exact .inl (by rw [completions_publish])
  | acknowledge =>
    rw [FiniteMap.lookup_erase_eq]
    split_ifs with hx
    · exact .inr (.inl ⟨by rw [hx], rfl⟩)
    · exact .inl rfl
  | register =>
    rw [retireFrontends_eq, completions_rewriteAll]
    exact .inl rfl
  | retain =>
    rw [FiniteMap.lookup_insert_eq]
    split_ifs with hx
    · exact .inr (.inr ⟨_, by rw [hx], rfl⟩)
    · exact .inl rfl
  | accept =>
    change (raiseEpoch _ _ _).completions.lookup x = _ ∨ _
    rw [completions_raiseEpoch]
    exact .inl rfl
  | unchanged | allocate | enqueue | negative | cancel | dispatch | retry | slot => exact .inl rfl

/-- A registration is only replaced, until it is acknowledged. -/
lemma completions_next {c : Command} {x : String} (h : s.completions.lookup x ≠ none)
    (hc : ¬ Acknowledges x s c) : (ledger.next s c).completions.lookup x ≠ none := by
  rcases completions_cases s c x with hsame | hack | ⟨consumer, -, hnew⟩
  · rwa [hsame]
  · exact absurd hack hc
  · simp [hnew]

/-- `retain_completion` registers a batch that is there. -/
lemma retain_ok {c : String} (h : (transition s id (.retainCompletion c)).2 = .ok) :
    ∃ g fs request, Open s id g fs
      ∧ s.records.lookup id = some request ∧ owns s fs request.frontend request.epoch
      ∧ (transition s id (.retainCompletion c)).1
        = { s with completions := s.completions.insert id c } := by
  obtain ⟨g, fs, hopen, hok⟩ := open_of_ok rfl h
  cases hr : s.records.lookup id with
  | none =>
    simp only [published, hopen.config_eq, hopen.frontends_eq, recorded, hr, reduceCtorEq] at hok
  | some request =>
    rw [transition_retainCompletion hopen hr] at h ⊢
    rw [retainCompletion] at h ⊢
    split_ifs at h ⊢ with hrefused
    refine ⟨g, fs, request, hopen, rfl, ?_, rfl⟩
    by_contra howns
    exact hrefused (by simp [Bool.eq_false_iff.mpr howns])

/-! ### The guard -/

lemma terminated_iff (hs : ledger.Reachable s) :
    terminated s id ↔ ∀ request, s.records.lookup id = some request →
      ∀ slot ∈ request.slots, slot.state = .completed := by
  rw [terminated]
  cases hr : s.records.lookup id with
  | none => simp
  | some request =>
    simp only [Option.all_some, decide_eq_true_eq, Option.some.injEq, forall_eq']
    rw [(stored_of_reachable hs).remaining id request hr, openUnits_eq_zero]

lemma terminated_of_none (h : s.records.lookup id = none) : terminated s id := by
  simp [terminated, h]

lemma lookup_none_next (hdone : s.completions.lookup id ≠ none)
    (hnone : s.records.lookup id = none) (c : Command) :
    (ledger.next s c).records.lookup id = none := by
  have hterm := terminated_of_none hnone
  rcases lookup_transition_none c.id c.action hnone with h | ⟨r, rfl, hcreates, -⟩
  · exact h
  · generalize c.action = a at hcreates
    cases hcreates with
    | enqueue hopen | negative hopen => exact absurd ⟨hdone, hterm⟩ hopen.unfinished

/-- **The guard of a completed batch** answers for later stages. -/
lemma guarded_of_terminated (hdone : s.completions.lookup id ≠ none) (hterm : terminated s id)
    (a : Action) :
    guarded s id a = (s, guardReply a) := if_pos ⟨hdone, hterm⟩

/-! ### The batch behind a registration -/

/-- A batch carried on by the calls that rewrite its record; once the record is deleted
the batch stays as it was handed to `save`. -/
def followed (id : String) : Ledger → Request → List Command → Request
  | _, request, [] => request
  | s, request, c :: cs =>
    followed id (ledger.next s c)
      (if s.records.lookup id = none then request else recordAfter s c.id c.action id request) cs

/-- A registered batch: its record is there, or all its slots have ended. -/
structure Tracked (s : Ledger) (id : String) (request : Request) : Prop where
  registered : s.completions.lookup id ≠ none
  record : s.records.lookup id = some request
    ∨ s.records.lookup id = none ∧ ∀ slot ∈ request.slots, slot.state = .completed

section

variable (hs : ledger.Reachable s) (h : Tracked s id request)
include hs h

lemma Tracked.next {c : Command} (hc : ¬ Acknowledges id s c) :
    Tracked (ledger.next s c) id (if s.records.lookup id = none then request
        else recordAfter s c.id c.action id request) := by
  refine ⟨completions_next h.registered hc, ?_⟩
  rcases h.record with hr | ⟨hnone, hdone⟩
  · rw [if_neg (by simp [hr])]
    have hlook := lookup_transition (stored_of_reachable hs) c.id c.action hr
    change (transition s c.id c.action).1.records.lookup id = _
      ∨ (transition s c.id c.action).1.records.lookup id = none ∧ _
    rw [hlook]
    cases hkept : (recordAfter s c.id c.action id request).kept with
    | some => exact .inl (congrArg some (Request.kept_eq_some hkept))
    | none =>
      refine .inr ⟨rfl, completed_of_kept_none ?_ hkept⟩
      exact recordAfter_remaining c.id c.action ((stored_of_reachable hs).remaining id request hr)
  · rw [if_pos hnone]
    exact .inr ⟨lookup_none_next h.registered hnone c, hdone⟩

lemma Tracked.run {ds : List Command} (hds : ledger.Along (fun s c => ¬ Acknowledges id s c) s ds) :
    Tracked (ledger.run s ds) id (followed id s request ds) := by
  induction ds generalizing s request with
  | nil => exact h
  | cons c ds ih => exact ih (hs.next c) (h.next hs hds.1) hds.2

/-- **What `finished` answers is the state of the batch.** -/
lemma finished_tracked :
    ledger.reply s ⟨id, .finished⟩
      = if ∀ slot ∈ request.slots, slot.state = .completed then .completed else .pending := by
  change finished s id = _
  rw [finished, if_neg h.registered]
  refine if_congr ?_ rfl rfl
  rw [terminated_iff hs]
  rcases h.record with hr | ⟨hnone, hdone⟩
  · simp [hr]
  · simpa [hnone] using hdone

end

/-- Completion evidence for a batch: the batch is the record of its id while there is one,
`finished` tells its state, for good once it has ended, and until a consumer
acknowledges that end the request id is out of reach. -/
structure Evidence (s : Ledger) (id : String) (batch : Request) : Prop where
  record : ∀ request, s.records.lookup id = some request → request = batch
  finished : ledger.reply s ⟨id, .finished⟩
    = if ∀ slot ∈ batch.slots, slot.state = .completed then .completed else .pending
  stable : ledger.reply s ⟨id, .finished⟩ = .completed →
    ∀ ds, ledger.Along (fun s c => ¬ Acknowledges id s c) s ds →
      ledger.reply (ledger.run s ds) ⟨id, .finished⟩ = .completed
  removed : ∀ c, (ledger.next s c).completions.lookup id = none →
    c = ⟨id, .acknowledge⟩ ∧ ledger.reply s ⟨id, .finished⟩ = .completed
  enqueue : ledger.reply s ⟨id, .finished⟩ = .completed →
    ∀ frontend epoch caller role units,
      ledger.step s ⟨id, .enqueue frontend epoch caller role units⟩ = (s, .closed)

lemma Tracked.stable (hs : ledger.Reachable s) (h : Tracked s id request)
    (hdone : ∀ slot ∈ request.slots, slot.state = .completed) {ds : List Command}
    (hds : ledger.Along (fun s c => ¬ Acknowledges id s c) s ds) :
    ∀ slot ∈ (followed id s request ds).slots, slot.state = .completed := by
  induction ds generalizing s request with
  | nil => exact hdone
  | cons c ds ih =>
    refine ih (hs.next c) (h.next hs hds.1) ?_ hds.2
    split_ifs with hnone
    · exact hdone
    · intro slot' hslot'
      obtain ⟨k, hk⟩ := List.mem_iff_getElem?.mp hslot'
      have hr := h.record.resolve_right fun hgone => hnone hgone.1
      obtain ⟨slot, hslot, hstep⟩ := recordAfter_slot_inv c.id c.action hr hk
      have hend := hdone slot (List.mem_of_getElem? hslot)
      rw [hstep.completed hend, hend]

lemma Tracked.evidence (hs : ledger.Reachable s) (h : Tracked s id request) :
    Evidence s id request where
  record r hr := by
    rcases h.record with hbatch | ⟨hnone, -⟩
    · rw [hr] at hbatch
      exact Option.some.inj hbatch
    · simp [hr] at hnone
  finished := finished_tracked hs h
  stable hcomp ds hds := by
    have hdone : ∀ slot ∈ request.slots, slot.state = .completed := by
      by_contra hopen
      simp [finished_tracked hs h, if_neg hopen] at hcomp
    rw [finished_tracked (hs.run ds) (h.run hs hds), if_pos (h.stable hs hdone hds)]
  removed c hgone := by
    by_cases hc : Acknowledges id s c
    swap
    · exact absurd hgone (completions_next h.registered hc)
    obtain ⟨rfl, hok⟩ := hc
    refine ⟨rfl, ?_⟩
    change (acknowledge s id).2 = .ok at hok
    change finished s id = .completed
    rw [acknowledge, if_neg h.registered] at hok
    rw [finished, if_neg h.registered]
    split_ifs at hok ⊢ with hterm
    rfl
  enqueue hcomp frontend epoch caller role units := by
    refine guarded_of_terminated h.registered ?_ (.enqueue frontend epoch caller role units)
    change finished s id = .completed at hcomp
    rw [finished, if_neg h.registered] at hcomp
    split_ifs at hcomp with hterm
    exact hterm

/-- **Completion evidence is exact and stable.** After a successful `retain_completion`,
and through any calls that do not acknowledge it, the ledger has evidence for the
batch that was registered. -/
theorem completion_evidence (cs ds : List Command) {id consumer : String}
    (hretain : ledger.reply (ledger.after cs) ⟨id, .retainCompletion consumer⟩ = .ok)
    (hds : ledger.Along (fun s c => ¬ Acknowledges id s c)
      (ledger.next (ledger.after cs) ⟨id, .retainCompletion consumer⟩) ds) :
    ∃ request, (ledger.after cs).records.lookup id = some request
      ∧ Evidence (ledger.run (ledger.after cs) (⟨id, .retainCompletion consumer⟩ :: ds)) id
        (followed id (ledger.next (ledger.after cs) ⟨id, .retainCompletion consumer⟩)
          request ds) := by
  have hreach := Machine.reachable_after (M := ledger) cs
  generalize ledger.after cs = s at hreach hretain hds ⊢
  obtain ⟨_, _, request, -, hr, -, hnext⟩ := retain_ok hretain
  refine ⟨request, hr, ?_⟩
  have htracked : Tracked (ledger.next s ⟨id, .retainCompletion consumer⟩) id request := by
    change Tracked (transition s id (.retainCompletion consumer)).1 id request
    rw [hnext]
    exact ⟨by simp, .inl hr⟩
  exact (htracked.run (hreach.next _) hds).evidence ((hreach.next _).run ds)

/-- A batch about to be registered. -/
def enqueuingRun : List Command :=
  [⟨"", .publish 1 {} ["f"] ["p"]⟩, ⟨"", .registerOwner "f" 1⟩, ⟨"r", .enqueue "f" 1 "c" "user" 1⟩]

/-- The batch is acknowledged too early, carried out, and then met by delayed commands. -/
def delayedRun : List Command :=
  [⟨"r", .acknowledge⟩, ⟨"r", .dispatch⟩, ⟨"r", .accept 0 "o" "p" 1⟩, ⟨"r", .complete 0 "o" true⟩,
    ⟨"r", .enqueue "f" 1 "c" "user" 1⟩, ⟨"r", .cancelEntry "f" 1 "c"⟩,
    ⟨"", .publishMembership 2 [] []⟩]

/-- The evidence for the batch of `enqueuingRun` outlasts the delayed commands. -/
theorem completion_evidence_delayed :
    ∃ request, (ledger.after enqueuingRun).records.lookup "r" = some request
      ∧ Evidence (ledger.run (ledger.after enqueuingRun)
          (⟨"r", .retainCompletion "k"⟩ :: delayedRun)) "r"
        (followed "r" (ledger.next (ledger.after enqueuingRun)
          ⟨"r", .retainCompletion "k"⟩) request delayedRun) := by
  refine completion_evidence enqueuingRun delayedRun (by decide) ?_
  refine ⟨fun h => absurd h.2 (by decide), ?_⟩
  simp [Machine.Along, Acknowledges]

end Foretoken.RequestLedger
