import Foretoken.Lib.Machine
import Foretoken.Router.Selection

/-!
Routing sessions over shared reservations (`selection/pipeline_router.rs`).

A session walks one request through its stages. Sessions of any number of routers share the
reservations of a frontend, which a lock serializes; a run of `system` is an interleaving of the
sessions' calls.
-/

namespace Foretoken.Router

open PipelineRouter Option

variable {Stats Score C : Type}

/-! ### Starting -/

/-- Backends that exchange cached blocks. -/
structure KvPrefixReuseScope where
  prefillRouteTargetIds : List String
  decodeRouteTargetIds : List String
  deriving DecidableEq, Repr

/-- What the backends of a reuse scope have in common. -/
structure ReuseKey where
  serviceUid : String
  model : String
  revision : String
  pipelineScopeId : String
  connector : String
  deriving DecidableEq, Ord, Repr

namespace PipelineRouter

/-- One route of `kvReuseScopes`. -/
def reuseScope (observation : Observation Stats)
    (scopes : Table ReuseKey (List String × List String)) (route : RouteTarget) :
    Except Fault (Table ReuseKey (List String × List String)) :=
  match route.pipelineScopeId, observation.kvTransfer route.routeTargetId with
  | none, _ => .ok scopes
  | some _, none => .ok scopes
  | some pipelineScopeId, some transfer =>
    if !transfer.bidirectionalKvXfer then .ok scopes
    else
      let key : ReuseKey := ⟨route.target.serviceUid, route.model, route.revision,
        pipelineScopeId, transfer.connector⟩
      match route.role with
      | .prefill => .ok (scopes.modify key fun roles => (route.routeTargetId :: roles.1, roles.2))
      | .decode => .ok (scopes.modify key fun roles => (roles.1, route.routeTargetId :: roles.2))
      | .aggregate | .encoder =>
        .error (.panic "internal error: entered unreachable code")

/-- The healthy prefill and decode routes, by what they have in common. -/
def kvReuseScopes (router : PipelineRouter) (observation : Observation Stats)
    (request : RouterRequest) : Except Fault (List KvPrefixReuseScope) := do
  let routes := router.modelRoutes.routes.filter fun route =>
    route.ready && route.model = request.model &&
      (route.role = .prefill || route.role = .decode) &&
      (request.allowedPools.isEmpty || request.allowedPools.contains route.target.name) &&
      observation.isRouteTargetHealthy route.routeTargetId
  let scopes ← routes.foldlM (reuseScope observation) ∅
  return ((scopes.toList.map (·.2)).filter fun roles =>
    !roles.1.isEmpty && !roles.2.isEmpty).map fun roles =>
      ⟨orderedSet roles.1, orderedSet roles.2⟩

end PipelineRouter

/-- How far a session is. -/
inductive SessionStage where
  | initial
  | encoder (pipelineScopeId : String)
  | prefill (pipelineScopeId : String) (encoderCompleted : Bool)
  | complete
  deriving DecidableEq, Repr

/-- A request on its way through the stages. -/
structure Session (C : Type) where
  router : PipelineRouter
  request : RouterRequest
  customizedContext : C
  stage : SessionStage
  selected : List ReservationKey
  trackOutputBlocks : Bool

/-- The reuse scopes only prepare the prefix indexer, whose answers a round observes. -/
def PipelineRouter.start (router : PipelineRouter) (round : Round Stats Score C)
    (request : RouterRequest) : Except Fault (Session C) := do
  let _reuseScopes ← router.kvReuseScopes round.observation request
  return {
    router := router
    request := request
    customizedContext :=
      (router.pipeline round request.model .initial).customizedContextFactory request
    stage := .initial
    selected := []
    trackOutputBlocks := false }

/-! ### The calls of a session -/

/-- What a successful selection chose, and the decision it returns. -/
structure Selection (Stats : Type) where
  candidate : RouteCandidate Stats
  decision : RouteDecision

/-- What a call of a selection returns: its result, the session and the reservations. -/
abbrev Selected (Stats C : Type) :=
  Except Fault (Selection Stats) × Session C × RoutingReservations

namespace Session

variable (session : Session C) (reservations : RoutingReservations)

/-- The prompts of the selected stages have been processed. -/
def responseStarted : RoutingReservations :=
  session.selected.foldl
    (fun reservations key => reservations.releasePromptLoad key session.request.requestId)
    reservations

/-- Counted at the selected stages, if the pipeline tracks them. -/
def outputTokensGenerated (count : ℕ) (reservations : RoutingReservations) : RoutingReservations :=
  if !session.trackOutputBlocks || count = 0 then reservations
  else
    session.selected.foldl
      (fun reservations key =>
        reservations.recordOutputTokens key session.request.requestId count)
      reservations

/-- The selected stages are released. -/
def stageComplete : Session C × RoutingReservations :=
  ({ session with trackOutputBlocks := false, selected := [] },
    session.selected.foldl
      (fun reservations key => reservations.release key session.request.requestId) reservations)

/-- What the algorithms are told. -/
def progress (currentStage : RoutingStage)
    (completedStages : List ModelServerRole) (pipelineScopeId : Option String) :
    RoutingProgress where
  snapshotVersion := session.router.snapshotVersion
  currentStage := currentStage
  completedStages := completedStages
  pipelineScopeId := pipelineScopeId

/-- The part the three selections share: record what was selected and where the session is. -/
def conclude (round : Round Stats Score C) (currentStage : RoutingStage)
    (nextStage : RouteCandidate Stats → Except Fault SessionStage)
    (decision : RouteCandidate Stats → RouteDecision) (selecting : Selecting Stats C) :
    Selected Stats C :=
  let (result, context, reservations) := selecting
  let session := { session with customizedContext := context }
  match result with
  | .error fault => (.error fault, session, reservations)
  | .ok candidate =>
    let pipeline := session.router.pipeline round session.request.model currentStage
    let session := { session with trackOutputBlocks := pipeline.tracksOutputBlocks }
    match nextStage candidate with
    | .error fault => (.error fault, session, reservations)
    | .ok stage =>
      (.ok ⟨candidate, decision candidate⟩,
        { session with
          stage := stage
          selected :=
            session.selected ++ [(candidate.routeTargetId, candidate.dataParallelRank)] },
        reservations)

/-- Where an initial selection leads. -/
def afterInitial (candidate : RouteCandidate Stats) : Except Fault SessionStage :=
  match candidate.role, candidate.pipelineScopeId with
  | .encoder, some scope => .ok (.encoder scope)
  | .encoder, none => .error (.panic "eligible encoder has a pipeline scope")
  | .prefill, some scope => .ok (.prefill scope false)
  | .prefill, none => .error (.panic "eligible prefill has a pipeline scope")
  | .aggregate, _ => .ok .complete
  | .decode, _ => .error (.panic "initial eligibility rejects Decode")

/-- Where a selection after an encoder leads. -/
def afterPrefill (candidate : RouteCandidate Stats) : Except Fault SessionStage :=
  match candidate.pipelineScopeId with
  | some scope => .ok (.prefill scope true)
  | none => .error (.panic "eligible prefill has a pipeline scope")

/-- The first selection. -/
def selectInitial (session : Session C) (round : Round Stats Score C)
    (reservations : RoutingReservations) : Selected Stats C :=
  session.conclude round .initial afterInitial
    (decision round.observation session.request)
    (session.router.selectInitial round session.request (session.progress .initial [] none)
      session.customizedContext reservations)

/-- The selection after an encoder. -/
def selectPrefill (round : Round Stats Score C)
    (reservations : RoutingReservations) : Selected Stats C :=
  match session.stage with
  | .encoder scope =>
    session.conclude round .prefill afterPrefill
      (decision round.observation session.request)
      (session.router.selectPrefillInPipelineScope round session.request
        (session.progress .prefill [.encoder] (some scope)) session.customizedContext
        reservations)
  | .initial | .prefill _ _ | .complete =>
    (.error (.error .prefillBeforeEncoder), session, reservations)

/-- The selection after a prefill. -/
def selectDecode (round : Round Stats Score C)
    (reservations : RoutingReservations) : Selected Stats C :=
  match session.stage with
  | .prefill scope encoderCompleted =>
    session.conclude round .decode (fun _ => .ok .complete) RouteCandidate.decision
      (session.router.selectDecodeInPipelineScope round session.request
        (session.progress .decode
          (if encoderCompleted then [.encoder, .prefill] else [.prefill]) (some scope))
        session.customizedContext reservations)
  | .initial | .encoder _ | .complete =>
    (.error (.error .decodeBeforePrefill), session, reservations)

/-- The selection of a stage. -/
def select (stage : RoutingStage) (round : Round Stats Score C)
    (reservations : RoutingReservations) : Selected Stats C :=
  match stage with
  | .initial => session.selectInitial round reservations
  | .prefill => session.selectPrefill round reservations
  | .decode => session.selectDecode round reservations

end Session

/-! ### Sessions over shared reservations -/

/-- The live sessions of a frontend, each under a handle, and what they have reserved. -/
structure System (C : Type) where
  reservations : RoutingReservations
  sessions : Table ℕ (Session C)

/-- The calls of a session. -/
inductive Call (Stats Score C : Type) where
  | select (stage : RoutingStage) (round : Round Stats Score C)
  | responseStarted
  | outputTokensGenerated (count : ℕ)
  | stageComplete

/-- A session is started, called or dropped. -/
inductive Command (Stats Score C : Type) where
  | start (handle : ℕ) (router : PipelineRouter) (round : Round Stats Score C)
      (request : RouterRequest)
  | call (handle : ℕ) (call : Call Stats Score C)
  | drop (handle : ℕ)

/-- What a command returns. -/
inductive Reply (Stats : Type) where
  | selected (selection : Selection Stats)
  | fault (fault : Fault)
  | done
  | ignored

/-- The reply of a selection. -/
def Reply.ofResult : Except Fault (Selection Stats) → Reply Stats
  | .ok selection => .selected selection
  | .error problem => .fault problem

/-- A call, given the session it is made on. -/
def Session.call (session : Session C) (reservations : RoutingReservations) :
    Call Stats Score C → Reply Stats × Session C × RoutingReservations
  | .select stage round =>
    let (result, session, reservations) := session.select stage round reservations
    (.ofResult result, session, reservations)
  | .responseStarted => (.done, session, session.responseStarted reservations)
  | .outputTokensGenerated count =>
    (.done, session, session.outputTokensGenerated count reservations)
  | .stageComplete => (.done, session.stageComplete reservations)

/-- The steps of a system: a handle is given once while its session lives, and a dropped session
completes its stage. -/
def step (system : System C) : Command Stats Score C → System C × Reply Stats
  | .start handle router round request =>
    if handle ∈ system.sessions then (system, .ignored)
    else
      match router.start round request with
      | .error fault => (system, .fault fault)
      | .ok session =>
        ({ system with sessions := system.sessions.insert handle session }, .done)
  | .call handle call =>
    match system.sessions.lookup handle with
    | none => (system, .ignored)
    | some session =>
      let (reply, session, reservations) := session.call system.reservations call
      (⟨reservations, system.sessions.insert handle session⟩, reply)
  | .drop handle =>
    match system.sessions.lookup handle with
    | none => (system, .ignored)
    | some session =>
      (⟨(session.stageComplete system.reservations).2, system.sessions.erase handle⟩, .done)

/-- Any number of sessions of a frontend. -/
def system (Stats Score C : Type) : Machine (System C) (Command Stats Score C) (Reply Stats) where
  init := ⟨.empty, ∅⟩
  step := step

/-! ### What the calls do -/

/-- The walk of a session: which candidate takes it from which stage to which. -/
inductive Follows : SessionStage → RoutingStage → RouteCandidate Stats → SessionStage → Prop
  | aggregate {stage : SessionStage} {candidate : RouteCandidate Stats}
      (role : candidate.role = .aggregate) : Follows stage .initial candidate .complete
  | encoder {stage : SessionStage} {candidate : RouteCandidate Stats} {scope : String}
      (role : candidate.role = .encoder) (hscope : candidate.pipelineScopeId = some scope) :
      Follows stage .initial candidate (.encoder scope)
  | initialPrefill {stage : SessionStage} {candidate : RouteCandidate Stats} {scope : String}
      (role : candidate.role = .prefill) (hscope : candidate.pipelineScopeId = some scope) :
      Follows stage .initial candidate (.prefill scope false)
  | prefill {candidate : RouteCandidate Stats} {scope : String}
      (role : candidate.role = .prefill) (hscope : candidate.pipelineScopeId = some scope) :
      Follows (.encoder scope) .prefill candidate (.prefill scope true)
  | decode {candidate : RouteCandidate Stats} {scope : String} {encoderCompleted : Bool}
      (role : candidate.role = .decode) (hscope : candidate.pipelineScopeId = some scope) :
      Follows (.prefill scope encoderCompleted) .decode candidate .complete

namespace Session

variable {session : Session C} {round : Round Stats Score C} {reservations : RoutingReservations}

/-- The progress and the eligibility of a selection, unless it is out of turn. -/
def turn (session : Session C) : RoutingStage → Option (RoutingProgress × Eligibility Stats)
  | .initial =>
    some (session.progress .initial [] none, session.router.initialEligible session.request)
  | .prefill =>
    match session.stage with
    | .encoder scope =>
      some (session.progress .prefill [.encoder] (some scope), prefillEligible scope)
    | .initial | .prefill _ _ | .complete => none
  | .decode =>
    match session.stage with
    | .prefill scope encoderCompleted =>
      some (session.progress .decode
        (if encoderCompleted then [.encoder, .prefill] else [.prefill]) (some scope),
        decodeEligible scope)
    | .initial | .encoder _ | .complete => none

/-- The attempt behind a selection, unless it is out of turn. -/
def attempt (session : Session C) (round : Round Stats Score C)
    (reservations : RoutingReservations) (stage : RoutingStage) :
    Option (Attempt Stats Score C) :=
  (session.turn stage).map fun turn =>
    { router := session.router
      round := round
      request := session.request
      progress := turn.1
      context := session.customizedContext
      eligible := turn.2
      reservations := reservations }

/-- **The turns of a session.** -/
lemma turn_cases {g : RoutingStage} {progress : RoutingProgress}
    {eligible : Eligibility Stats} (h : session.turn g = some (progress, eligible)) :
    progress.currentStage = g ∧
      (g = .initial ∧ eligible = session.router.initialEligible session.request ∨
        (∃ z, g = .prefill ∧ session.stage = .encoder z ∧
          eligible = prefillEligible z) ∨
        ∃ z completed, g = .decode ∧ session.stage = .prefill z completed ∧
          eligible = decodeEligible z) := by
  cases g with
  | initial =>
    cases h
    exact ⟨rfl, .inl ⟨rfl, rfl⟩⟩
  | prefill =>
    cases hstage : session.stage <;> simp only [turn, hstage, reduceCtorEq] at h
    cases h
    exact ⟨rfl, .inr (.inl ⟨_, rfl, rfl, rfl⟩)⟩
  | decode =>
    cases hstage : session.stage <;> simp only [turn, hstage, reduceCtorEq] at h
    cases h
    exact ⟨rfl, .inr (.inr ⟨_, _, rfl, rfl, rfl⟩)⟩

/-- The stage after a selection. -/
def nextStage : RoutingStage → RouteCandidate Stats → Except Fault SessionStage
  | .initial => afterInitial
  | .prefill => afterPrefill
  | .decode => fun _ => .ok .complete

lemma follows_initial {R : PipelineRouter} {q : RouterRequest} {g : SessionStage}
    {d : RouteCandidate Stats} {others : List (RouteCandidate Stats)}
    (h : R.initialEligible q d others = true) :
    ∃ next, afterInitial d = .ok next ∧ Follows g .initial d next := by
  rw [initialEligible] at h
  rw [afterInitial]
  cases hrole : d.role with
  | aggregate => exact ⟨_, rfl, .aggregate hrole⟩
  | encoder =>
    rw [hrole, Bool.and_eq_true, isSome_iff_exists] at h
    obtain ⟨⟨z, hscope⟩, -⟩ := h
    rw [hscope]
    exact ⟨_, rfl, .encoder hrole hscope⟩
  | prefill =>
    rw [hrole, any_eq_true] at h
    obtain ⟨z, hscope, -⟩ := h
    rw [hscope]
    exact ⟨_, rfl, .initialPrefill hrole hscope⟩
  | decode =>
    simp [hrole] at h

/-- **What is offered keeps the session on its walk.** -/
lemma follows_of_mem_offered {g : RoutingStage} {j : Attempt Stats Score C}
    (hatt : session.attempt round reservations g = some j)
    {l : ScoredCandidate Stats Score} (h : l ∈ j.offered) :
    ∃ next, nextStage g l.candidate = .ok next ∧
      Follows session.stage g l.candidate next := by
  obtain ⟨d, -, helig, hcand, -⟩ := Attempt.of_mem_offered h
  obtain ⟨⟨progress, eligible⟩, hturn, rfl⟩ := map_eq_some_iff.mp hatt
  rw [hcand]
  obtain ⟨rfl, rfl⟩ | ⟨scope, rfl, hstage, rfl⟩ | ⟨scope, completed, rfl, hstage, rfl⟩ :=
    (turn_cases hturn).2
  · exact follows_initial helig
  · simp only [prefillEligible, Bool.and_eq_true, decide_eq_true_eq] at helig
    obtain ⟨⟨hrole, hscope⟩, -⟩ := helig
    rw [hstage]
    refine ⟨.prefill scope true, ?_, .prefill hrole hscope⟩
    rw [nextStage, afterPrefill, hscope]
  · simp only [decodeEligible, Bool.and_eq_true, decide_eq_true_eq] at helig
    rw [hstage]
    exact ⟨.complete, rfl, .decode helig.1 helig.2⟩

lemma decision_eq (o : Observation Stats) (q : RouterRequest)
    (d : RouteCandidate Stats) :
    ∃ a, decision o q d =
      { d.decision with kvSource := a } := by
  rw [decision]
  split_ifs
  · exact ⟨none, rfl⟩
  · exact ⟨none, rfl⟩
  · cases o.prefixMatches d.routeTargetId d.dataParallelRank <;> exact ⟨_, rfl⟩

lemma select_eq (session : Session C) (stage : RoutingStage) (round : Round Stats Score C)
    (reservations : RoutingReservations) :
    (∃ e, session.attempt round reservations stage = none ∧
      session.select stage round reservations = (.error (.error e), session, reservations)) ∨
    ∃ attempt error decision, session.attempt round reservations stage = some attempt ∧
      (∀ candidate, ∃ source, decision candidate = { candidate.decision with kvSource := source }) ∧
      session.select stage round reservations =
        session.conclude round stage (nextStage stage) decision (attempt.select error) := by
  cases stage with
  | initial => exact .inr ⟨_, _, _, rfl, decision_eq round.observation session.request, rfl⟩
  | prefill =>
    rw [select, selectPrefill, attempt, turn]
    cases session.stage with
    | encoder => exact .inr ⟨_, _, _, rfl, decision_eq round.observation session.request, rfl⟩
    | initial | prefill | complete => exact .inl ⟨_, rfl, rfl⟩
  | decode =>
    rw [select, selectDecode, attempt, turn]
    cases session.stage with
    | prefill => exact .inr ⟨_, _, _, rfl, fun candidate => ⟨none, rfl⟩, rfl⟩
    | initial | encoder | complete => exact .inl ⟨_, rfl, rfl⟩

/-- **A selection** fails, or follows the walk and is recorded. -/
lemma selecting_cases (session : Session C) (g : RoutingStage)
    (round : Round Stats Score C) (reservations : RoutingReservations) :
    (∃ e context, session.select g round reservations =
      (.error (.error e), { session with customizedContext := context }, reservations)) ∨
    ∃ j, session.attempt round reservations g = some j ∧ ¬ j.Faulty ∧
      ∃ l ∈ j.offered, ∃ next, Follows session.stage g l.candidate next ∧
        ∃ a context track ts, session.select g round reservations =
          (.ok ⟨l.candidate, { l.candidate.decision with kvSource := a }⟩,
            { session with
              customizedContext := context
              stage := next
              selected := session.selected ++
                [(l.candidate.routeTargetId, l.candidate.dataParallelRank)]
              trackOutputBlocks := track },
            reservations.reserve session.request l.candidate ts) := by
  rcases session.select_eq g round reservations with
    ⟨e, -, hsel⟩ | ⟨j, error, decision, hatt, hdec, hsel⟩
  · exact .inl ⟨e, session.customizedContext, hsel⟩
  have hresvs : j.reservations = reservations ∧ j.request = session.request := by
    obtain ⟨turn, -, rfl⟩ := map_eq_some_iff.mp hatt
    exact ⟨rfl, rfl⟩
  rw [hsel]
  rcases j.select_cases error with ⟨e, context, h⟩ | ⟨hfaulty, l, hmem, h⟩
  · rw [h, hresvs.1]
    exact .inl ⟨e, context, rfl⟩
  obtain ⟨next, hnext, hfol⟩ := follows_of_mem_offered hatt hmem
  obtain ⟨a, hsrc⟩ := hdec l.candidate
  refine .inr ⟨j, hatt, hfaulty, l, hmem, next, hfol, a, j.picking.2,
    (session.router.pipeline round session.request.model g).tracksOutputBlocks,
    j.pipeline.prefillTokenLoad j.request l.candidate, ?_⟩
  rw [h, conclude, hnext, hsrc, hresvs.1, hresvs.2]

end Session

/-! ### Starting never panics -/

lemma reuseScope_ok (observation : Observation Stats)
    (scopes : Table ReuseKey (List String × List String)) {route : RouteTarget}
    (h : route.role = .prefill ∨ route.role = .decode) :
    ∃ scopes', reuseScope observation scopes route = .ok scopes' := by
  rw [reuseScope]
  split
  · exact ⟨_, rfl⟩
  · exact ⟨_, rfl⟩
  · split_ifs
    · exact ⟨_, rfl⟩
    · rcases h with h | h <;> exact ⟨_, by rw [h]⟩

lemma foldlM_reuseScope_ok (observation : Observation Stats) {routes : List RouteTarget}
    (h : ∀ route ∈ routes, route.role = .prefill ∨ route.role = .decode)
    (scopes : Table ReuseKey (List String × List String)) :
    ∃ scopes', routes.foldlM (reuseScope observation) scopes = .ok scopes' := by
  induction routes generalizing scopes with
  | nil => exact ⟨scopes, rfl⟩
  | cons route routes ih =>
    obtain ⟨scopes', hroute⟩ := reuseScope_ok observation scopes (h route List.mem_cons_self)
    rw [List.foldlM_cons, hroute]
    exact ih (fun other hother => h other (List.mem_cons_of_mem _ hother)) scopes'

/-- **A session starts** without meeting an encoder. -/
lemma start_ok (router : PipelineRouter) (round : Round Stats Score C) (request : RouterRequest) :
    ∃ context, router.start round request =
      .ok ⟨router, request, context, .initial, [], false⟩ := by
  let routes := router.modelRoutes.routes.filter fun route =>
    route.ready && route.model = request.model && (route.role = .prefill || route.role = .decode) &&
      (request.allowedPools.isEmpty || request.allowedPools.contains route.target.name) &&
      round.observation.isRouteTargetHealthy route.routeTargetId
  have hroles : ∀ route ∈ routes, route.role = .prefill ∨ route.role = .decode := by
    intro route hroute
    simp only [routes, List.mem_filter, Bool.and_eq_true, Bool.or_eq_true, decide_eq_true_eq]
      at hroute
    exact hroute.2.1.1.2
  obtain ⟨scopes, hscopes⟩ := foldlM_reuseScope_ok round.observation hroles ∅
  rw [PipelineRouter.start, kvReuseScopes, hscopes]
  exact ⟨_, rfl⟩

/-! ### Steps of a system -/

section System

variable {s : System C} {handle : ℕ}

lemma next_start (h : handle ∉ s.sessions) (R : PipelineRouter)
    (round : Round Stats Score C) (q : RouterRequest) :
    ∃ context, step s (.start handle R round q) =
      ({ s with
          sessions := s.sessions.insert handle
            ⟨R, q, context, .initial, [], false⟩ }, .done) := by
  obtain ⟨context, hstart⟩ := start_ok R round q
  refine ⟨context, ?_⟩
  rw [step, if_neg h, hstart]

lemma next_start_of_mem {R : PipelineRouter} {round : Round Stats Score C}
    {q : RouterRequest} (h : handle ∈ s.sessions) :
    step s (.start handle R round q) = (s, .ignored) := by
  rw [step, if_pos h]

lemma next_call {session : Session C} (h : s.sessions.lookup handle = some session)
    (call : Call Stats Score C) :
    step s (.call handle call) = (⟨(session.call s.reservations call).2.2,
        s.sessions.insert handle (session.call s.reservations call).2.1⟩,
        (session.call s.reservations call).1) := by
  rw [step, h]

lemma next_call_of_none (h : s.sessions.lookup handle = none) (call : Call Stats Score C) :
    step s (.call handle call) = (s, .ignored) := by
  rw [step, h]

lemma next_drop {session : Session C} (h : s.sessions.lookup handle = some session) :
    step s (.drop handle : Command Stats Score C) =
      (⟨(session.stageComplete s.reservations).2, s.sessions.erase handle⟩, .done) := by
  rw [step, h]

lemma next_drop_of_none (h : s.sessions.lookup handle = none) :
    step s (.drop handle : Command Stats Score C) = (s, .ignored) := by
  rw [step, h]

end System

end Foretoken.Router
