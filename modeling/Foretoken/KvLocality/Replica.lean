import Foretoken.KvLocality.Sync

/-!
What an answer does to the facts and the cursors of a frontend.
-/

namespace Foretoken.KvLocality

open List Option KvLocalityIndexes State Table

variable {d : KvDeltaResponse}

open RingLog

/-! ### Facts of a log -/

/-- One change of the facts of a source. -/
inductive FactsStep where
  | apply (event : KvDeltaEvent) (now : ℕ)
  | touch (now : ℕ)
  | expire (now : ℕ)

namespace FactsStep

/-- What the change makes of the facts. -/
def act (ttl : ℕ) (facts : Facts) : FactsStep → Facts
  | .apply event now => facts.apply event now
  | .touch now => facts.touch now
  | .expire now => facts.prune ttl now

/-- The event that the change applies. -/
def event? : FactsStep → Option KvDeltaEvent
  | .apply event _ => some event
  | .touch _ => none
  | .expire _ => none

/-- The changes by the deltas of an answer, as `applyDeltas` makes them: each is applied at
the time read before it, and the source is touched at the end. -/
def ofDeltas (now : ℕ → ℕ) : ℕ → List KvDelta → List FactsStep
  | i, [] => [.touch (now i)]
  | i, delta :: ds => .apply delta.event (now i) :: ofDeltas now (i + 1) ds

lemma filterMap_ofDeltas (now : ℕ → ℕ) (i : ℕ) (ds : List KvDelta) :
    (ofDeltas now i ds).filterMap event? = ds.map (·.event) := by
  induction ds generalizing i with
  | nil => rfl
  | cons delta ds ih => exact congrArg (delta.event :: ·) (ih (i + 1))

end FactsStep

open FactsStep

namespace Facts

/-- The last changes of the history apply the log, from the first to the last event and each
once, and what they make of nothing are the facts. -/
def Replays (history : List FactsStep) (implementation : KvLocalityIndexResolvedImplementation)
    (ttl : ℕ) (log : List KvDeltaEvent) (facts : Facts) : Prop :=
  ∃ steps, steps <:+ history ∧ steps.filterMap event? = log ∧
    facts = steps.foldl (act ttl) (empty implementation)

variable {history : List FactsStep} {implementation : KvLocalityIndexResolvedImplementation}
  {ttl : ℕ} {log : List KvDeltaEvent} {facts : Facts}

lemma replays_nil : Replays history implementation ttl [] (empty implementation) :=
  ⟨[], nil_suffix, rfl, rfl⟩

/-- Further changes continue the log and the facts. -/
lemma Replays.append (h : Replays history implementation ttl log facts)
    (more : List FactsStep) :
    Replays (history ++ more) implementation ttl (log ++ more.filterMap event?)
      (more.foldl (act ttl) facts) := by
  obtain ⟨steps, ⟨earlier, rfl⟩, rfl, rfl⟩ := h
  refine ⟨steps ++ more, ⟨earlier, (append_assoc _ _ _).symm⟩, filterMap_append, ?_⟩
  rw [foldl_append]

end Facts

/-! ### Applying an answer to the index -/

section Deltas

variable {id x : KvEventSourceId} {now : ℕ → ℕ}

lemma applyDeltas_facts_ne (hx : x ≠ id) (i : ℕ) (ds : List KvDelta)
    (ix : KvLocalityIndexes) :
    (applyDeltas id now i ds ix).facts x = ix.facts x := by
  induction ds generalizing i ix with
  | nil => rw [applyDeltas, facts_touchSource, if_neg hx]
  | cons delta ds ih => rw [applyDeltas, ih, facts_apply, if_neg hx]

section

variable (i : ℕ) (ds : List KvDelta)

lemma applyDeltas_coherent {ix : KvLocalityIndexes} (h : ix.Coherent) :
    (applyDeltas id now i ds ix).Coherent := by
  induction ds generalizing i ix with
  | nil => exact h.touchSource id (now i)
  | cons delta ds ih => exact ih (i + 1) (h.apply id delta.event (now i))

lemma applyDeltas_implementation (ix : KvLocalityIndexes) :
    (applyDeltas id now i ds ix).implementation = ix.implementation := by
  induction ds generalizing i ix with
  | nil => exact ix.implementation_touchSource id _
  | cons delta ds ih =>
    rw [applyDeltas, ih, implementation_apply]

lemma applyDeltas_ttl (ix : KvLocalityIndexes) :
    (applyDeltas id now i ds ix).ttl = ix.ttl := by
  induction ds generalizing i ix with
  | nil => exact ttl_touchSource id _
  | cons delta ds ih => rw [applyDeltas, ih, ttl_apply]

/-- What the deltas of an answer make of the facts of its source. -/
lemma applyDeltas_facts (ttl : ℕ) (ix : KvLocalityIndexes) :
    (applyDeltas id now i ds ix).facts id = (ofDeltas now i ds).foldl (act ttl) (ix.facts id) := by
  induction ds generalizing i ix with
  | nil =>
    rw [applyDeltas, facts_touchSource, if_pos rfl]
    rfl
  | cons delta ds ih =>
    rw [applyDeltas, ih, facts_apply, if_pos rfl]
    rfl

end

end Deltas

/-! ### The effect on the sources -/

namespace State

/-- What concerns other sources stays as it is. -/
structure Frame (source : KvEventSourceConfig) (state state' : State) : Prop where
  cursors : ∀ id, id ≠ source.eventSourceId → state'.cursors.lookup id = state.cursors.lookup id
  facts : ∀ x : KvEventSourceId, x.eventSourceId ≠ source.eventSourceId →
    state'.index.facts x = state.index.facts x
  coherent : state.index.Coherent → state'.index.Coherent
  implementation : state'.index.implementation = state.index.implementation
  ttl : state'.index.ttl = state.index.ttl

/-- Nothing of the source is left. -/
structure Forgotten (source : KvEventSourceConfig) (state : State) : Prop where
  cursors : state.cursors.lookup source.eventSourceId = none
  facts : ∀ x : KvEventSourceId, x.eventSourceId = source.eventSourceId →
    state.index.facts x = Facts.empty state.index.implementation

/-- The source has facts under the epoch of its cursor only. -/
def Confined (source : KvEventSourceConfig) (state : State) : Prop :=
  ∀ x : KvEventSourceId, x.eventSourceId = source.eventSourceId →
    state.index.facts x ≠ Facts.empty state.index.implementation →
    ∃ cursor, state.cursors.lookup source.eventSourceId = some cursor ∧
      x = source.identity cursor.epoch

variable {source : KvEventSourceConfig} {state state' state'' : State}

lemma Frame.refl (source : KvEventSourceConfig) (state : State) : Frame source state state :=
  ⟨fun _ _ => rfl, fun _ _ => rfl, id, rfl, rfl⟩

lemma Frame.trans (h : Frame source state state') (h' : Frame source state' state'') :
    Frame source state state'' where
  cursors id hid := (h'.cursors id hid).trans (h.cursors id hid)
  facts x hx := (h'.facts x hx).trans (h.facts x hx)
  coherent hcoh := h'.coherent (h.coherent hcoh)
  implementation := h'.implementation.trans h.implementation
  ttl := h'.ttl.trans h.ttl

lemma Forgotten.confined (h : Forgotten source state) : Confined source state :=
  fun x hx hfacts => absurd (h.facts x hx) hfacts

lemma clear_frame (source : KvEventSourceConfig) (state : State) :
    Frame source state (state.clear source) := by
  rw [clear]
  cases state.cursors.lookup source.eventSourceId with
  | none =>
    refine ⟨fun _ _ => rfl, fun x hx => ?_, fun h => h.clearEventSource _, ?_, ?_⟩
    · rw [facts_clearEventSource, if_neg hx]
    · exact state.index.implementation_clearEventSource _
    · exact ttl_clearEventSource _
  | some =>
    refine ⟨fun id hid => ?_, fun x hx => ?_, fun h => h.clearSource _, ?_, ?_⟩
    · rw [lookup_erase_eq, if_neg hid]
    · rw [facts_clearSource, if_neg]
      rintro rfl
      exact hx rfl
    · exact state.index.implementation_clearSource _
    · exact ttl_clearSource _

/-- **A cleared source leaves nothing behind.** -/
lemma clear_forgotten (h : Confined source state) : Forgotten source (state.clear source) := by
  rw [clear]
  cases hcur : state.cursors.lookup source.eventSourceId with
  | none =>
    refine ⟨hcur, fun x hx => ?_⟩
    rw [facts_clearEventSource, if_pos hx,
      implementation_clearEventSource]
  | some =>
    refine ⟨?_, fun x hx => ?_⟩
    · rw [lookup_erase_eq, if_pos rfl]
    · rw [facts_clearSource, implementation_clearSource]
      split_ifs with hid
      · rfl
      · by_contra hfacts
        obtain ⟨c', hcur', rfl⟩ := h x hx hfacts
        rw [hcur] at hcur'
        exact hid (by rw [some.inj hcur'])

lemma base_frame (source : KvEventSourceConfig) (state : State) (d : KvDeltaResponse) :
    Frame source state (state.base source d) := by
  rw [base]
  split_ifs
  · exact clear_frame source state
  · exact Frame.refl source state

lemma base_confined (h : Confined source state) (d : KvDeltaResponse) :
    Confined source (state.base source d) := by
  rw [base]
  split_ifs
  · exact (clear_forgotten h).confined
  · exact h

/-- **An answer that continues the cursor is accepted.** -/
lemma apply_accepted (hiden : SameIdentity source d) (hseq : InSequence (state.cursor source) d)
    (now : ℕ → ℕ) :
    state.apply source d now =
      ((state.base source d).accept source d ((state.cursor source).position d.epoch) now,
        .ok ()) := by
  obtain ⟨hdelt, hthru, hcurr⟩ := hseq
  have hpage := (checkPage_eq_ok_iff ((state.cursor source).position d.epoch) d).mpr ⟨hdelt, hthru⟩
  have hmis : ¬ (d.eventSourceId ≠ source.eventSourceId ∨
      d.modelGroupId ≠ source.modelGroupId ∨ d.dpRank ≠ source.dpRank ∨ d.current < d.through) := by
    simp [hiden.1, hiden.2.1, hiden.2.2, hcurr]
  -- after a change of epoch the numbers begin at zero
  have hreset : ¬ (state.epochReset source d = true ∧
      d.deltas.head?.any (·.sequence ≠ 0) = true) := by
    rintro ⟨hepoch, hfirst⟩
    have hne : (state.cursor source).epoch ≠ d.epoch := by
      simpa using (Bool.and_eq_true_iff.mp hepoch).2
    rw [Cursor.position, if_neg hne] at hdelt
    rw [hdelt] at hfirst
    cases hevts : d.deltas.map (·.event) <;> simp [hevts, numberFrom, expected] at hfirst
  rw [apply, if_neg hmis, if_neg hreset, hpage]

/-- **Any other answer is rejected**, and its source forgotten. -/
lemma apply_rejected (hconfined : Confined source state)
    (h : ¬ (SameIdentity source d ∧ InSequence (state.cursor source) d)) (now : ℕ → ℕ) :
    ∃ reason, (state.apply source d now).2 = .error reason ∧
      Frame source state (state.apply source d now).1 ∧
      Forgotten source (state.apply source d now).1 := by
  rw [apply]
  split_ifs with hmis hreset
  · exact ⟨_, rfl, clear_frame source state, clear_forgotten hconfined⟩
  · rw [base, if_pos hreset.1]
    exact ⟨_, rfl, clear_frame source state, clear_forgotten hconfined⟩
  dsimp only
  cases hpage : checkPage ((state.cursor source).position d.epoch) d with
  | ok =>
    obtain ⟨hdelt, hthru⟩ := (checkPage_eq_ok_iff _ d).mp hpage
    push Not at hmis
    obtain ⟨hid, hgroup, hrank, hcurr⟩ := hmis
    exact absurd ⟨⟨hid, hgroup, hrank⟩, hdelt, hthru, hcurr⟩ h
  | error reason =>
    exact ⟨reason, rfl, (base_frame source state d).trans (clear_frame source _),
      clear_forgotten (base_confined hconfined d)⟩

/-! ### What an accepted answer does -/

section Accept

variable {now : ℕ → ℕ}

lemma expected_accept {t : Option ℕ}
    (hdelt : d.deltas = numberFrom (expected t) (d.deltas.map (·.event)))
    (hthru : d.through = ((d.deltas.getLast?.map (·.sequence)).or t).getD 0) :
    expected (if d.deltas = [] then t else some d.through) =
      expected t + d.deltas.length := by
  split_ifs with hnil
  · rw [hnil]
    rfl
  · have hlen := length_pos_of_ne_nil hnil
    have hlast : d.deltas.getLast?.map (·.sequence) =
        some (expected t + (d.deltas.length - 1)) := by
      conv_lhs => rw [hdelt]
      rw [getLast?_numberFrom, length_map, if_neg (mt map_eq_nil_iff.mp hnil)]
    rw [hthru, hlast, some_or, getD_some]
    simp only [expected, elim_some]
    omega

lemma accept_frame (source : KvEventSourceConfig) (state : State) (d : KvDeltaResponse)
    (t : Option ℕ) (now : ℕ → ℕ) : Frame source state (state.accept source d t now) where
  cursors id hid := by rw [accept, lookup_insert_eq, if_neg hid]
  facts x hx := by
    refine applyDeltas_facts_ne ?_ 0 d.deltas state.index
    rintro rfl
    exact hx rfl
  coherent h := applyDeltas_coherent 0 d.deltas h
  implementation := applyDeltas_implementation 0 d.deltas state.index
  ttl := applyDeltas_ttl 0 d.deltas state.index

section

variable (hconfined : Confined source state)
  (hnamed : ∀ c, state.cursors.lookup source.eventSourceId = some c → c.epoch ≠ "")
  (hd : d.epoch ≠ "")
include hconfined hnamed hd

/-- An answer is applied to the facts of its epoch, or none. -/
lemma base_facts {x : KvEventSourceId} (hx : x.eventSourceId = source.eventSourceId) :
    (state.base source d).index.facts x =
      if (state.cursor source).epoch = d.epoch then state.index.facts x
      else Facts.empty state.index.implementation := by
  rw [base]
  cases hcur : state.cursors.lookup source.eventSourceId with
  | none =>
    have hepoch : (state.cursor source).epoch = "" := by
      rw [cursor, hcur]
      rfl
    have hreset : ¬ state.epochReset source d = true := by simp [epochReset, hepoch]
    rw [if_neg hreset, hepoch, if_neg (Ne.symm hd)]
    by_contra hfacts
    obtain ⟨c, hc, -⟩ := hconfined x hx hfacts
    simp [hcur] at hc
  | some c =>
    have hepoch : (state.cursor source).epoch = c.epoch := by
      rw [cursor, hcur]
      rfl
    have hne := hnamed c hcur
    by_cases hsame : c.epoch = d.epoch
    · have hreset : ¬ state.epochReset source d = true := by simp [epochReset, hepoch, hsame]
      rw [if_neg hreset, hepoch, if_pos hsame]
    · have hreset : state.epochReset source d = true := by simp [epochReset, hepoch, hne, hsame]
      rw [if_pos hreset, hepoch, if_neg hsame, (clear_forgotten hconfined).facts x hx,
        (clear_frame source state).implementation]

lemma accept_confined (t : Option ℕ) :
    Confined source ((state.base source d).accept source d t now) := by
  intro x hx hfacts
  refine ⟨_, by rw [accept, lookup_insert_eq, if_pos rfl], ?_⟩
  by_contra hne
  refine hfacts ?_
  have hother : ((state.base source d).accept source d t now).index.facts x =
      (state.base source d).index.facts x :=
    applyDeltas_facts_ne hne 0 d.deltas _
  rw [hother, base_facts hconfined hnamed hd hx, (accept_frame source _ d t now).implementation,
    (base_frame source state d).implementation]
  split_ifs with hepoch
  · by_contra hfacts'
    obtain ⟨c, hc, rfl⟩ := hconfined x hx hfacts'
    rw [cursor, hc, getD_some] at hepoch
    exact hne (by rw [hepoch])
  · rfl

end

end Accept

end State

/-! ### The end of a round -/

namespace KvIndexer

variable {I : KvIndexer} {source : KvEventSourceConfig}

lemma settle_accepted (now : ℕ → ℕ) (hiden : SameIdentity source d)
    (hseq : InSequence (I.state.cursor source) d) :
    (I.settle source (.ok d) now).1.state = (I.state.base source d).accept source d
        ((I.state.cursor source).position d.epoch) now ∧
      (I.settle source (.ok d) now).2 = none := by
  rw [settle, apply_accepted hiden hseq now]
  exact ⟨rfl, rfl⟩

/-- **A round with an error leaves nothing of its source.** -/
lemma settle_error (now : ℕ → ℕ) (hconfined : Confined source I.state)
    {r : Except KvIndexDegradedReason KvDeltaResponse}
    (h : ∀ d, r = .ok d →
      ¬ (SameIdentity source d ∧ InSequence (I.state.cursor source) d)) :
    (∃ reason, (I.settle source r now).2 = some reason) ∧
      Frame source I.state (I.settle source r now).1.state ∧
      Forgotten source (I.settle source r now).1.state := by
  cases r with
  | error reason =>
    exact ⟨⟨reason, rfl⟩, clear_frame source I.state, clear_forgotten hconfined⟩
  | ok d =>
    obtain ⟨reason, hreason, hframe, hforg⟩ :=
      apply_rejected hconfined (h d rfl) now
    rw [settle]
    generalize I.state.apply source d now = r at hreason hframe hforg ⊢
    obtain ⟨state, o⟩ := r
    obtain rfl : o = .error reason := hreason
    exact ⟨⟨reason, rfl⟩, hframe.trans (clear_frame source state),
      clear_forgotten hforg.confined⟩

lemma settle_frame (hconfined : Confined source I.state)
    (r : Except KvIndexDegradedReason KvDeltaResponse) (now : ℕ → ℕ) :
    Frame source I.state (I.settle source r now).1.state := by
  by_cases hacc : ∃ d, r = .ok d ∧ SameIdentity source d ∧
      InSequence (I.state.cursor source) d
  · obtain ⟨d, rfl, hiden, hseq⟩ := hacc
    rw [(settle_accepted now hiden hseq).1]
    exact (base_frame source _ d).trans (accept_frame source _ d _ now)
  · exact (settle_error now hconfined fun d hd hright => hacc ⟨d, hd, hright⟩).2.1

lemma settle_config (I : KvIndexer) (source : KvEventSourceConfig)
    (r : Except KvIndexDegradedReason KvDeltaResponse) (now : ℕ → ℕ) :
    (I.settle source r now).1.config = I.config := by
  cases r with
  | error => rfl
  | ok d =>
    rw [settle]
    generalize I.state.apply source d now = r
    obtain ⟨state, outcome⟩ := r
    cases outcome with
    | error | ok => rfl

end KvIndexer

end Foretoken.KvLocality
