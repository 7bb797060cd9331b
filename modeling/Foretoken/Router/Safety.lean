import Foretoken.Router.Session

/-!
Route selection is safe whatever its algorithms do.
-/

namespace Foretoken.Router

open List PipelineRouter Session

variable {Stats Score C : Type} {chosen : List (RouteCandidate Stats)}
  {candidate : RouteCandidate Stats}

/-! ### One selection -/

/-- What a successful selection guarantees of its choice. -/
structure SafeChoice (session : Session C) (stage : RoutingStage) (round : Round Stats Score C)
    (reservations : RoutingReservations) (selection : Selection Stats) : Prop where
  route : ∃ route : RouteTarget, route.Serves session.router round.observation session.request ∧
    selection.candidate.RankOf route
  decision : ∃ source, selection.decision =
    { selection.candidate.decision with kvSource := source }
  notBusy : stage = .initial →
    (selection.candidate.routeTargetId, selection.candidate.dataParallelRank) ∉
      session.request.busyTargets
  noEncoder : stage = .initial → selection.candidate.role = .prefill →
    ∀ route ∈ session.router.modelRoutes.routes, route.Admits session.request →
      route.role = .encoder → route.pipelineScopeId ≠ selection.candidate.pipelineScopeId
  later : ∀ role ∈ selection.candidate.role.futureStages,
    ∃ attempt, session.attempt round reservations stage = some attempt ∧
      ∃ other ∈ attempt.filtered, other.role = role ∧
        other.pipelineScopeId = selection.candidate.pipelineScopeId

lemma mem_of_futureStagesAvailable {candidate : RouteCandidate Stats}
    {candidates : List (RouteCandidate Stats)}
    (h : futureStagesAvailable candidate candidates = true) {role : ModelServerRole}
    (hrole : role ∈ candidate.role.futureStages) :
    ∃ y ∈ candidates, y.role = role ∧
      y.pipelineScopeId = candidate.pipelineScopeId := by
  rw [futureStagesAvailable, all_eq_true] at h
  obtain ⟨y, hmem, hother⟩ := any_eq_true.mp (h role hrole)
  rw [Bool.and_eq_true, decide_eq_true_eq, decide_eq_true_eq] at hother
  exact ⟨y, hmem, hother.1, hother.2⟩

section Eligible

variable {R : PipelineRouter} {request : RouterRequest} {candidate : RouteCandidate Stats}
  {others : List (RouteCandidate Stats)}

section

variable (h : R.initialEligible request candidate others = true)
include h

lemma futureStagesAvailable_of_initialEligible :
    futureStagesAvailable candidate others = true := by
  rw [initialEligible] at h
  cases hrole : candidate.role with
  | aggregate => simp [futureStagesAvailable, hrole, ModelServerRole.futureStages]
  | encoder =>
    rw [hrole, Bool.and_eq_true] at h
    exact h.2
  | prefill =>
    simp only [hrole, Option.any_eq_true, Bool.and_eq_true] at h
    obtain ⟨z, -, -, h⟩ := h
    exact h
  | decode => simp [hrole] at h

/-- An initial prefill has no encoder in its scope. -/
lemma noEncoder_of_initialEligible (hrole : candidate.role = .prefill) {r : RouteTarget}
    (hmem : r ∈ R.modelRoutes.routes) (hadm : r.Admits request) (henc : r.role = .encoder) :
    r.pipelineScopeId ≠ candidate.pipelineScopeId := by
  intro hscope
  rw [initialEligible, hrole, Option.any_eq_true] at h
  obtain ⟨z, hcand, h⟩ := h
  rw [Bool.and_eq_true] at h
  have hhas : R.pipelineScopeHasEncoder request z = true :=
    pipelineScopeHasEncoder_iff.mpr ⟨r, hmem, hadm, henc, hscope.trans hcand⟩
  rw [hhas] at h
  cases h.1

end

end Eligible

section Select

variable {session : Session C} {stage : RoutingStage} {round : Round Stats Score C}
  {reservations : RoutingReservations} {attempt : Attempt Stats Score C}

/-- The later stages are among the candidates. -/
lemma futureStagesAvailable_of_turn {progress : RoutingProgress} {eligible : Eligibility Stats}
    (hturn : session.turn stage = some (progress, eligible)) {candidate : RouteCandidate Stats}
    {others : List (RouteCandidate Stats)} (h : eligible candidate others = true) :
    futureStagesAvailable candidate others = true := by
  obtain ⟨-, rfl⟩ | ⟨scope, -, -, rfl⟩ | ⟨scope, completed, -, -, rfl⟩ := (turn_cases hturn).2
  · exact futureStagesAvailable_of_initialEligible h
  · rw [prefillEligible, Bool.and_eq_true] at h
    exact h.2
  · rw [decodeEligible, Bool.and_eq_true, decide_eq_true_eq] at h
    rw [futureStagesAvailable, h.1]
    rfl

/-- **A successful selection is safe.** -/
lemma safeChoice (hatt : session.attempt round reservations stage = some attempt)
    {l : ScoredCandidate Stats Score} (hmem : l ∈ attempt.offered)
    (a : Option KvReuseSource) :
    SafeChoice session stage round reservations
      ⟨l.candidate, { l.candidate.decision with kvSource := a }⟩ := by
  obtain ⟨candidate, hfiltered, helig, hcand, hbusy⟩ := Attempt.of_mem_offered hmem
  have hmemCandidates := Attempt.mem_candidates_of_mem_filtered hfiltered
  obtain ⟨⟨progress, eligible⟩, hturn, rfl⟩ := Option.map_eq_some_iff.mp hatt
  obtain ⟨r, hserves, hrank⟩ := mem_candidates hmemCandidates
  rw [hcand]
  refine ⟨⟨r, hserves, ?_⟩, ⟨a, rfl⟩, ?_, ?_, ?_⟩
  · exact ⟨hrank.routeTargetId, hrank.target, hrank.admissionTargets, hrank.role, hrank.model,
      hrank.revision, hrank.pipelineScopeId, hrank.rank⟩
  · intro hini
    exact hbusy ((turn_cases hturn).1.trans hini)
  · rintro rfl hrole r hroute hadm henc
    cases hturn
    exact noEncoder_of_initialEligible helig hrole hroute hadm henc
  · intro role hrole
    obtain ⟨y, hother, hlater⟩ :=
      mem_of_futureStagesAvailable (futureStagesAvailable_of_turn hturn helig) hrole
    exact ⟨_, hatt, y, hother, hlater⟩

end Select

/-! ### The walk of a session -/

/-- All chosen candidates are in one scope. -/
def InScope (scope : String) (chosen : List (RouteCandidate Stats)) : Prop :=
  ∀ candidate ∈ chosen, candidate.pipelineScopeId = some scope

/-- What a session has chosen when it is at a stage. -/
def Shape : SessionStage → List (RouteCandidate Stats) → Prop
  | .initial, chosen => chosen = []
  | .encoder scope, chosen => chosen.map (·.role) = [.encoder] ∧ InScope scope chosen
  | .prefill scope false, chosen => chosen.map (·.role) = [.prefill] ∧ InScope scope chosen
  | .prefill scope true, chosen =>
    chosen.map (·.role) = [.encoder, .prefill] ∧ InScope scope chosen
  | .complete, chosen =>
    chosen.map (·.role) = [.aggregate] ∨
      ∃ scope, InScope scope chosen ∧
        (chosen.map (·.role) = [.prefill, .decode] ∨
          chosen.map (·.role) = [.encoder, .prefill, .decode])

/-- The stages of a request: `Aggregate`, `Prefill-Decode` or `Encoder-Prefill-Decode`, perhaps
not all of them yet, in one scope. -/
structure Legal (chosen : List (RouteCandidate Stats)) : Prop where
  roles : chosen.map (·.role) <+: [.aggregate] ∨ chosen.map (·.role) <+: [.prefill, .decode] ∨
    chosen.map (·.role) <+: [.encoder, .prefill, .decode]
  scope : ∃ scope, ∀ candidate ∈ chosen, candidate.role ≠ .aggregate →
    candidate.pipelineScopeId = some scope

/-- An initial selection begins the walk, another one continues it. -/
def extend (stage : RoutingStage) (chosen : List (RouteCandidate Stats))
    (candidate : RouteCandidate Stats) : List (RouteCandidate Stats) :=
  match stage with
  | .initial => [candidate]
  | .prefill | .decode => chosen ++ [candidate]

lemma InScope.concat {z : String} (h : InScope z chosen)
    (hcand : candidate.pipelineScopeId = some z) :
    InScope z (chosen ++ [candidate]) := by
  simpa [InScope, or_imp, forall_and, hcand] using h

lemma inScope_singleton {z : String} (h : candidate.pipelineScopeId = some z) :
    InScope z [candidate] := by
  simpa [InScope] using h

/-- **The walk keeps its shape.** -/
lemma Shape.follows {stage next : SessionStage} {turn : RoutingStage} (h : Shape stage chosen)
    (hfol : Follows stage turn candidate next) :
    Shape next (extend turn chosen candidate) := by
  cases hfol with
  | aggregate hrole => exact .inl (congrArg (fun role => [role]) hrole)
  | encoder hrole hscope | initialPrefill hrole hscope =>
    exact ⟨congrArg (fun role => [role]) hrole, inScope_singleton hscope⟩
  | prefill hrole hscope =>
    exact ⟨by simp [extend, h.1, hrole], h.2.concat hscope⟩
  | @decode candidate z completed hrole hscope =>
    cases completed with
    | false => exact .inr ⟨z, h.2.concat hscope, .inl (by simp [extend, h.1, hrole])⟩
    | true => exact .inr ⟨z, h.2.concat hscope, .inr (by simp [extend, h.1, hrole])⟩

lemma Shape.legal {stage : SessionStage} (h : Shape stage chosen) : Legal chosen := by
  have hscop : ∀ {scope}, InScope scope chosen → ∃ scope, ∀ candidate ∈ chosen,
      candidate.role ≠ .aggregate → candidate.pipelineScopeId = some scope :=
    fun hscope => ⟨_, fun candidate hcand _ => hscope candidate hcand⟩
  cases stage with
  | initial =>
    rw [h]
    exact ⟨.inl nil_prefix, "", fun _ hmem => absurd hmem not_mem_nil⟩
  | encoder => exact ⟨.inr (.inr ⟨_, by rw [h.1]; rfl⟩), hscop h.2⟩
  | prefill scope completed =>
    cases completed with
    | false => exact ⟨.inr (.inl ⟨_, by rw [h.1]; rfl⟩), hscop h.2⟩
    | true => exact ⟨.inr (.inr ⟨_, by rw [h.1]; rfl⟩), hscop h.2⟩
  | complete =>
    rcases h with h | ⟨scope, hscope, h | h⟩
    · refine ⟨.inl (by rw [h]), "", fun candidate hcand hrole => ?_⟩
      have hmem : candidate.role ∈ chosen.map (·.role) := mem_map_of_mem hcand
      rw [h, mem_singleton] at hmem
      exact absurd hmem hrole
    · exact ⟨.inr (.inl (by rw [h])), hscop hscope⟩
    · exact ⟨.inr (.inr (by rw [h])), hscop hscope⟩

/-! ### Runs -/

/-- What a session chooses by a command: it starts with nothing, and a selection extends it. -/
def walkStep (handle : ℕ) (chosen : List (RouteCandidate Stats)) :
    Command Stats Score C × Reply Stats → List (RouteCandidate Stats)
  | (.start other _ _ _, .done) => if other = handle then [] else chosen
  | (.call other (.select stage _), .selected selection) =>
    if other = handle then extend stage chosen selection.candidate else chosen
  | _ => chosen

/-- What a session has chosen since its last initial selection. -/
def walk (handle : ℕ) (trace : List (Command Stats Score C × Reply Stats)) :
    List (RouteCandidate Stats) :=
  trace.foldl (walkStep handle) []

/-- Every live session has the shape of its stage. -/
def Shaped (state : System C) (trace : List (Command Stats Score C × Reply Stats)) : Prop :=
  ∀ handle session, state.sessions.lookup handle = some session →
    Shape session.stage (walk handle trace)

lemma shape_call {session : Session C} {reservations : RoutingReservations} {handle : ℕ}
    {chosen : List (RouteCandidate Stats)} (h : Shape session.stage chosen)
    (call : Call Stats Score C) :
    Shape (session.call reservations call).2.1.stage
      (walkStep handle chosen (.call handle call, (session.call reservations call).1)) := by
  cases call with
  | select stage round =>
    rcases session.selecting_cases stage round reservations with ⟨e, context, hsel⟩ |
      ⟨attempt, -, -, scored, -, next, hfol, source, context, track, tokens, hsel⟩
    · rwa [Session.call, hsel]
    · rw [Session.call, hsel]
      dsimp only [Reply.ofResult, walkStep]
      rw [if_pos rfl]
      exact h.follows hfol
  | responseStarted | outputTokensGenerated | stageComplete => exact h

lemma walkStep_call_of_ne {handle y : ℕ} (hne : handle ≠ y)
    (chosen : List (RouteCandidate Stats)) (call : Call Stats Score C) (r : Reply Stats) :
    walkStep y chosen (.call handle call, r) = chosen := by
  cases call with
  | select =>
    cases r with
    | selected => rw [walkStep, if_neg hne]
    | fault | done | ignored => rfl
  | responseStarted | outputTokensGenerated | stageComplete => rfl

lemma Shaped.step {state : System C} {trace : List (Command Stats Score C × Reply Stats)}
    (h : Shaped state trace) (command : Command Stats Score C) :
    Shaped (Router.step state command).1 (trace ++ [(command, (Router.step state command).2)]) := by
  intro handle session hsess
  rw [walk, foldl_concat, ← walk]
  cases command with
  | start other R round request =>
    by_cases hother : other ∈ state.sessions
    · rw [next_start_of_mem hother] at hsess ⊢
      exact h handle session hsess
    obtain ⟨context, hnext⟩ := next_start hother R round request
    rw [hnext] at hsess ⊢
    rw [Table.lookup_insert_eq] at hsess
    rw [walkStep]
    split_ifs at hsess with hhandle
    · cases hsess
      rw [if_pos hhandle.symm]
      rfl
    · rw [if_neg fun heq => hhandle heq.symm]
      exact h handle session hsess
  | call other call =>
    cases hother : state.sessions.lookup other with
    | none =>
      rw [next_call_of_none hother] at hsess ⊢
      by_cases hhandle : other = handle
      · rw [← hhandle, hother] at hsess
        cases hsess
      · rw [walkStep_call_of_ne hhandle]
        exact h handle session hsess
    | some called =>
      rw [next_call hother] at hsess ⊢
      rw [Table.lookup_insert_eq] at hsess
      split_ifs at hsess with hhandle
      · cases hsess
        rw [hhandle]
        exact shape_call (h other called hother) call
      · rw [walkStep_call_of_ne fun heq => hhandle heq.symm]
        exact h handle session hsess
  | drop other =>
    cases hother : state.sessions.lookup other with
    | none =>
      rw [next_drop_of_none hother] at hsess
      exact h handle session hsess
    | some =>
      rw [next_drop hother, Table.lookup_erase_eq] at hsess
      split_ifs at hsess with hhandle
      exact h handle session hsess

/-- No call panics. -/
lemma call_ne_panic (session : Session C) (reservations : RoutingReservations)
    (call : Call Stats Score C) (m : String) :
    (session.call reservations call).1 ≠ .fault (.panic m) := by
  cases call with
  | select stage round =>
    rcases session.selecting_cases stage round reservations with ⟨e, context, hsel⟩ |
      ⟨attempt, -, -, scored, -, next, -, source, context, track, tokens, hsel⟩
    all_goals
      rw [Session.call, hsel]
      rintro ⟨⟩
  | responseStarted | outputTokensGenerated | stageComplete => rintro ⟨⟩

lemma step_ne_panic (s : System C) (c : Command Stats Score C) (m : String) :
    (step s c).2 ≠ .fault (.panic m) := by
  cases c with
  | start handle R round request =>
    by_cases hhandle : handle ∈ s.sessions
    · simp [next_start_of_mem hhandle]
    · obtain ⟨context, hnext⟩ := next_start hhandle R round request
      simp [hnext]
  | call handle call =>
    cases hhandle : s.sessions.lookup handle with
    | none => simp [next_call_of_none hhandle]
    | some session =>
      rw [next_call hhandle]
      exact call_ne_panic session s.reservations call m
  | drop handle =>
    cases hhandle : s.sessions.lookup handle with
    | none => simp [next_drop_of_none hhandle]
    | some => simp [next_drop hhandle]

/-- **Route selection is safe.** Whatever the algorithms answer, in every run of any number of
sessions: a selection chooses safely or fails without a reservation; it fails so where an
algorithm does not answer as it should; nothing panics; and what a session has chosen since its
last initial selection is a legal walk. -/
theorem route_selection_safe (commands : List (Command Stats Score C)) :
    let machine := system Stats Score C
    let state := machine.after commands
    (∀ handle session stage round, state.sessions.lookup handle = some session →
      let command : Command Stats Score C := .call handle (.select stage round)
      ((∃ selection, machine.reply state command = .selected selection ∧
          SafeChoice session stage round state.reservations selection) ∨
        ∃ e, machine.reply state command = .fault (.error e) ∧
          (machine.next state command).reservations = state.reservations) ∧
      ∀ attempt, session.attempt round state.reservations stage = some attempt →
        attempt.Faulty →
        ∃ e, machine.reply state command = .fault (.error e) ∧
          (machine.next state command).reservations = state.reservations) ∧
    (∀ command message, machine.reply state command ≠ .fault (.panic message)) ∧
    ∀ handle session, state.sessions.lookup handle = some session →
      Legal (walk handle (machine.trace machine.init commands)) := by
  intro machine state
  refine ⟨fun handle session stage round hsession => ?_, fun command message =>
    step_ne_panic state command message, fun handle session hsession => ?_⟩
  · intro command
    have hstep := next_call hsession (.select stage round)
    rcases session.selecting_cases stage round state.reservations with ⟨e, context, hselect⟩ |
      ⟨attempt, hattempt, hfaulty, scored, hmem, next, -, source, context, track, tokens, hselect⟩
    · rw [Session.call, hselect] at hstep
      have hfailed : ∃ e, machine.reply state command = .fault (.error e) ∧
          (machine.next state command).reservations = state.reservations :=
        ⟨e, congrArg Prod.snd hstep, congrArg (fun result => result.1.reservations) hstep⟩
      exact ⟨.inr hfailed, fun _ _ _ => hfailed⟩
    · rw [Session.call, hselect] at hstep
      refine ⟨.inl ⟨_, congrArg Prod.snd hstep, safeChoice hattempt hmem source⟩, ?_⟩
      intro attempt' hattempt' hfaulty'
      exact absurd (Option.some.inj (hattempt'.symm.trans hattempt) ▸ hfaulty') hfaulty
  · have hshaped : Shaped state (machine.trace machine.init commands) := by
      refine Machine.trace_preserves (fun _ _ command h => h.step command) ?_ commands
      intro handle session hnone
      cases hnone
    exact (hshaped handle session hsession).legal

/-! ### A session that starts over -/

namespace StartedOver

/-- Algorithms that keep every candidate and take the first. -/
def firstPipeline : RouterPipeline Unit Unit Unit where
  filter _ candidates _ context := (List.range candidates.length, context)
  scoreForSelection _ candidates _ context := (candidates.map fun _ => (), context)
  pick _ _ _ context := (some 0, context)
  prefillTokenLoad request _ := request.tokenCount
  needsActiveSequences := false
  tracksOutputBlocks := true
  customizedContextFactory _ := ()

/-- Every backend is healthy, and the first candidate is picked. -/
def round : Round Unit Unit Unit where
  observation :=
    { isRouteTargetHealthy := fun _ => true
      effectiveCapabilities := fun _ => []
      kvTransfer := fun _ => none
      kvBlockSize := fun _ => none
      prefixCacheEnabled := fun _ => none
      stats := fun _ => none
      prefixMatches := fun _ _ => none }
  pipelines := ⟨firstPipeline, ∅⟩

/-- A text request of three tokens. -/
def request : RouterRequest where
  model := "m"
  allowedPools := []
  busyTargets := []
  body := .text ⟨"r", [1, 2, 3], false, none, none, none, false⟩

/-- A route of the model for a stage. -/
def route (id : RouteTargetId) (role : ModelServerRole) (ready : Bool) : RouteTarget where
  routeTargetId := id
  target := ⟨"service", "pool", "uid"⟩
  admissionTargets := []
  model := "m"
  revision := "1"
  capabilities := []
  maxInputTokens := none
  ready := ready
  role := role
  pipelineScopeId := some "scope"
  dataParallelSize := 2

/-- One aggregate route. -/
def single : PipelineRouter where
  modelRoutes := .new [route "a" .aggregate true]
  snapshotVersion := 1

/-- A prefill and a decode route in the scope of an encoder that is not ready. -/
def split : PipelineRouter where
  modelRoutes := .new [route "d" .decode true, route "e" .encoder false, route "p" .prefill true]
  snapshotVersion := 1

/-- The initial selection is asked for twice. -/
def restarted : List (Command Unit Unit Unit) :=
  [.start 0 single round request, .call 0 (.select .initial round),
    .call 0 (.select .initial round)]

/-- The decode stage is selected after the prefill completed. -/
def stages : List (Command Unit Unit Unit) :=
  [.start 0 split round request, .call 0 (.select .initial round), .call 0 .stageComplete,
    .call 0 (.select .decode round)]

/-- The roles of all successful selections of a run. -/
def chosenRoles (trace : List (Command Unit Unit Unit × Reply Unit)) : List ModelServerRole :=
  trace.filterMap fun event =>
    match event.2 with
    | .selected selection => some selection.candidate.role
    | .fault _ | .done | .ignored => none

end StartedOver

open StartedOver

/-- What both stages of a split pipeline choose is a legal walk. -/
theorem route_selection_safe_split :
    let machine := system Unit Unit Unit
    Legal (walk 0 (machine.trace machine.init stages)) ∧
      (walk 0 (machine.trace machine.init stages)).map (·.role) =
        [.prefill, .decode] := by
  intro machine
  have hlive : ((machine.after stages).sessions.lookup 0).isSome := by
    decide +kernel
  obtain ⟨session, hsession⟩ := Option.isSome_iff_exists.mp hlive
  exact ⟨(route_selection_safe stages).2.2 0 session hsession, by decide +kernel⟩

/-- A session may select an initial stage again, and an initial prefill may be in the scope of
an encoder route within the pools and the token limit, if that is not ready. -/
theorem initial_selected_again :
    let machine := system Unit Unit Unit
    let roles := chosenRoles (machine.trace machine.init restarted)
    (roles = [.aggregate, .aggregate] ∧
      ¬ (roles <+: [.aggregate] ∨ roles <+: [.prefill, .decode] ∨
        roles <+: [.encoder, .prefill, .decode])) ∧
      (walk 0 (machine.trace machine.init stages)).map
          (fun candidate => (candidate.role, candidate.pipelineScopeId)) =
        [(.prefill, some "scope"), (.decode, some "scope")] ∧
      ∃ route ∈ split.modelRoutes.routes, route.role = .encoder ∧
        route.pipelineScopeId = some "scope" ∧ route.model = request.model ∧
        request.allowedPools = [] ∧ route.maxInputTokens = none := by
  intro machine roles
  have hroles : roles = [.aggregate, .aggregate] := by decide +kernel
  have hwalk : ¬ (roles <+: [.aggregate] ∨ roles <+: [.prefill, .decode] ∨
      roles <+: [.encoder, .prefill, .decode]) := by
    rw [hroles]
    decide
  refine ⟨⟨hroles, hwalk⟩, by decide +kernel, route "e" .encoder false, ?_, rfl, rfl,
    rfl, rfl, rfl⟩
  rw [split, ModelRouteTable.new, mem_insertionSort]
  exact mem_cons_of_mem _ mem_cons_self

end Foretoken.Router
