import Foretoken.Router.Load

/-!
One selection round (`inventory/model_route_table.rs`, `selection/pipeline_router.rs`).

A round observes the inventory, expands the compatible routes to one candidate a data-parallel
rank, and runs the three algorithms of a pipeline over them. The algorithms and observations of a
round are arbitrary functions (`Round`): they may fail to return what they promise, and another
round may have others. `expect` and `unreachable!` of the source are the fault `panic`.
-/

namespace Foretoken.Router

open List

/-! ### Static routes -/

/-- The static routes of an inventory. -/
structure ModelRouteTable where
  routes : List RouteTarget

namespace ModelRouteTable

/-- The routes, sorted by their names. -/
def new (routes : List RouteTarget) : ModelRouteTable where
  routes := routes.insertionSort fun a b => (compare a.routeTargetId b.routeTargetId).isLE

/-- The role of an initial round: an encoder route decides it, then a prefill route. -/
def initialRole : ModelServerRole → List RouteTarget → ModelServerRole
  | role, [] => role
  | role, route :: routes =>
    match route.role with
    | .encoder => .encoder
    | .prefill => initialRole .prefill routes
    | .aggregate | .decode => initialRole role routes

/-- The role whose pipeline a round runs. -/
def selectionRole (table : ModelRouteTable) (model : String) (round : RoutingStage) :
    ModelServerRole :=
  match round with
  | .prefill => .prefill
  | .decode => .decode
  | .initial => initialRole .aggregate (table.routes.filter (·.model = model))

/-- The routes that a request may take by its static conditions. -/
def candidates (table : ModelRouteTable) (request : RouterRequest) : List RouteTarget :=
  table.routes.filter fun route =>
    route.ready && route.model = request.model &&
      (request.allowedPools.isEmpty || request.allowedPools.contains route.target.name) &&
      route.maxInputTokens.all fun limit => request.tokenCount ≤ limit

end ModelRouteTable

/-- The capability a structured output asks for. -/
def StructuredOutputConstraint.capability : StructuredOutputConstraint → String
  | .json => "structured_output.json_schema"
  | .jsonObject => "structured_output.json_object"
  | .regex => "structured_output.regex"
  | .choice => "structured_output.choice"
  | .grammar => "structured_output.grammar"
  | .structuralTag => "structured_output.structural_tag"

/-- The backend can force the form of the output. -/
def supportsStructuredOutput (capabilities : List String) (text : GenerateRequest) : Bool :=
  text.structuredOutputs.all fun constraint => capabilities.contains constraint.capability

/-- The backend takes all modalities of the request. -/
def supportsMultimodal (capabilities : List String) (text : GenerateRequest) : Bool :=
  text.mmFeatures.all fun features =>
    capabilities.contains "multimodal" &&
      features.all fun modality => capabilities.contains ("multimodal." ++ modality)

/-- Video backends take video requests only. -/
def supportsRequest (capabilities : List String) (request : RouterRequest)
    (requiresEncoder : Bool) : Bool :=
  match request.generateRequest with
  | none => capabilities.contains "video"
  | some text =>
    if capabilities.contains "video" then false
    else (!text.hasLoraRequest || capabilities.contains "lora") &&
      supportsStructuredOutput capabilities text &&
      (!requiresEncoder || supportsMultimodal capabilities text)

/-! ### Observations and algorithms -/

/-- How a backend transfers cached blocks. -/
structure RuntimeKvTransferMetadata where
  connector : String
  bidirectionalKvXfer : Bool
  deriving DecidableEq, Repr

/-- What the readers of a router report during a round. The matches of a lookup are the sources
they carry; an unavailable answer is `none`. -/
structure Observation (Stats : Type) where
  isRouteTargetHealthy : RouteTargetId → Bool
  effectiveCapabilities : RouteTargetId → List String
  kvTransfer : RouteTargetId → Option RuntimeKvTransferMetadata
  kvBlockSize : RouteTargetId → Option ℕ
  prefixCacheEnabled : RouteTargetId → Option Bool
  stats : RouteTargetId → Option Stats
  prefixMatches : RouteTargetId → ℕ → Option (List (Option KvReuseSource))

/-- The algorithms of a pipeline. Each may change the context of the request; what they read of
the prefix indexer is part of the function. -/
structure RouterPipeline (Stats Score C : Type) where
  filter : RouterRequest → List (RouteCandidate Stats) → RoutingProgress → C → List ℕ × C
  scoreForSelection : RouterRequest → List (RouteCandidate Stats) → RoutingProgress → C →
    List Score × C
  pick : RouterRequest → List (ScoredCandidate Stats Score) → RoutingProgress → C → Option ℕ × C
  prefillTokenLoad : RouterRequest → RouteCandidate Stats → ℕ
  needsActiveSequences : Bool
  tracksOutputBlocks : Bool
  customizedContextFactory : RouterRequest → C

/-- One value for each role. -/
structure ModelRoutingStages (T : Type) where
  aggregate : T
  encoder : T
  prefill : T
  decode : T

/-- The value of a role. -/
def ModelRoutingStages.get {T : Type} (stages : ModelRoutingStages T) : ModelServerRole → T
  | .aggregate => stages.aggregate
  | .encoder => stages.encoder
  | .prefill => stages.prefill
  | .decode => stages.decode

/-- The pipelines of an inventory. -/
structure RouterPipelines (Stats Score C : Type) where
  default : RouterPipeline Stats Score C
  models : Table String (ModelRoutingStages (RouterPipeline Stats Score C))

/-- The pipeline of a model and role. -/
def RouterPipelines.get {Stats Score C : Type} (pipelines : RouterPipelines Stats Score C)
    (model : String) (role : ModelServerRole) : RouterPipeline Stats Score C :=
  ((pipelines.models.lookup model).map (·.get role)).getD pipelines.default

/-- What a selection round meets. -/
structure Round (Stats Score C : Type) where
  observation : Observation Stats
  pipelines : RouterPipelines Stats Score C

/-- How a selection does not succeed: an error of the source, or a panic. -/
inductive Fault where
  | error (error : RouteError)
  | panic (message : String)
  deriving DecidableEq, Repr

/-- The router of a snapshot. -/
structure PipelineRouter where
  modelRoutes : ModelRouteTable
  snapshotVersion : ℕ

namespace PipelineRouter

variable {Stats Score C : Type}

variable (router : PipelineRouter) (request : RouterRequest)

/-- The pipeline of a round. -/
def pipeline (round : Round Stats Score C) (model : String)
    (stage : RoutingStage) : RouterPipeline Stats Score C :=
  round.pipelines.get model (router.modelRoutes.selectionRole model stage)

/-- A scope starts with an encoder. -/
def pipelineScopeHasEncoder
    (pipelineScopeId : String) : Bool :=
  (router.modelRoutes.candidates request).any fun route =>
    route.role = .encoder && route.pipelineScopeId = some pipelineScopeId

/-- Behind an encoder, prefill and decode consume its result. -/
def requiresEncoder (route : RouteTarget) : Bool :=
  !(route.role = .prefill || route.role = .decode) ||
    !route.pipelineScopeId.any fun scope => router.pipelineScopeHasEncoder request scope

/-- The ranks of a route as candidates. -/
def expand (observation : Observation Stats) (reservations : RoutingReservations)
    (includeActiveSequences : Bool) (route : RouteTarget) : List (RouteCandidate Stats) :=
  (List.range route.dataParallelSize).map fun rank =>
    { routeTargetId := route.routeTargetId
      target := route.target
      admissionTargets := route.admissionTargets
      role := route.role
      model := route.model
      revision := route.revision
      pipelineScopeId := route.pipelineScopeId
      dataParallelRank := rank
      kvBlockSize := observation.kvBlockSize route.routeTargetId
      prefixCacheEnabled := observation.prefixCacheEnabled route.routeTargetId
      routeTargetStats := observation.stats route.routeTargetId
      localLoad := reservations.snapshot (route.routeTargetId, rank)
      activeSequences :=
        if includeActiveSequences then reservations.activeSequences (route.routeTargetId, rank)
        else []
      stageEligible := false }

/-- The ranks of the healthy, capable routes. -/
def candidates (router : PipelineRouter) (observation : Observation Stats)
    (request : RouterRequest) (reservations : RoutingReservations)
    (includeActiveSequences : Bool) : List (RouteCandidate Stats) :=
  (((router.modelRoutes.candidates request).filter fun route =>
      observation.isRouteTargetHealthy route.routeTargetId).filter fun route =>
        supportsRequest (observation.effectiveCapabilities route.routeTargetId) request
          (router.requiresEncoder request route)).flatMap
    (expand observation reservations includeActiveSequences)

/-- The last source with the most matched tokens. -/
def maxByMatchedTokens : Option KvReuseSource → List KvReuseSource → Option KvReuseSource
  | best, [] => best
  | none, source :: sources => maxByMatchedTokens (some source) sources
  | some best, source :: sources =>
    maxByMatchedTokens
      (some (if best.matchedTokens ≤ source.matchedTokens then source else best)) sources

/-- A prefill that reads the cache is given the best source. -/
def decision (observation : Observation Stats) (request : RouterRequest)
    (candidate : RouteCandidate Stats) : RouteDecision :=
  if candidate.role ≠ .prefill then candidate.decision
  else if !request.readsPrefixCache then candidate.decision
  else
    match observation.prefixMatches candidate.routeTargetId candidate.dataParallelRank with
    | none => candidate.decision
    | some hits =>
      { candidate.decision with kvSource := maxByMatchedTokens none (hits.filterMap id) }

/-! ### Selecting -/

/-- The candidates at the indexes a filter returns, in its order. -/
def retain (candidates : List (RouteCandidate Stats)) :
    List ℕ → List ℕ → Except RouteError (List (RouteCandidate Stats))
  | _, [] => .ok []
  | seen, index :: rest =>
    if index ∈ seen then .error (.duplicateFilterIndex index)
    else
      match candidates[index]? with
      | none => .error (.invalidFilterIndex index)
      | some candidate => (candidate :: ·) <$> retain candidates (index :: seen) rest

/-- A test of a candidate among others. -/
abbrev Eligibility (Stats : Type) := RouteCandidate Stats → List (RouteCandidate Stats) → Bool

/-- The eligibility of each candidate among those that were filtered. -/
def mark (eligible : Eligibility Stats) (filtered : List (RouteCandidate Stats)) :
    List (RouteCandidate Stats) :=
  filtered.map fun candidate => { candidate with stageEligible := eligible candidate filtered }

/-- What the picker is offered. -/
def selectable (stage : RoutingStage)
    (scored : List (ScoredCandidate Stats Score)) : List (ScoredCandidate Stats Score) :=
  scored.filter fun scored =>
    scored.candidate.stageEligible &&
      (stage ≠ .initial ||
        !request.busyTargets.contains
          (scored.candidate.routeTargetId, scored.candidate.dataParallelRank))

/-- What a selection returns: its result, the context of the request and the reservations. -/
abbrev Selecting (Stats C : Type) :=
  Except Fault (RouteCandidate Stats) × C × RoutingReservations

/-- The picker chooses, and its choice is reserved. -/
def pickSelectable (pipeline : RouterPipeline Stats Score C) (request : RouterRequest)
    (progress : RoutingProgress) (context : C) (reservations : RoutingReservations)
    (selectable : List (ScoredCandidate Stats Score)) : Selecting Stats C :=
  if selectable.isEmpty then (.error (.error .busy), context, reservations)
  else
    let (picked, context) := pipeline.pick request selectable progress context
    match picked with
    | none => (.error (.error .emptyPickerResult), context, reservations)
    | some index =>
      match selectable[index]? with
      | none => (.error (.error (.invalidPickerIndex index)), context, reservations)
      | some scored =>
        (.ok scored.candidate, context,
          reservations.reserve request scored.candidate
            (pipeline.prefillTokenLoad request scored.candidate))

/-- The scorer sees every filtered candidate with its eligibility, the picker the selectable
ones. -/
def scoreFiltered (pipeline : RouterPipeline Stats Score C) (request : RouterRequest)
    (progress : RoutingProgress) (context : C) (reservations : RoutingReservations)
    (filtered : List (RouteCandidate Stats)) : Selecting Stats C :=
  let (scores, context) := pipeline.scoreForSelection request filtered progress context
  if scores.length ≠ filtered.length then
    (.error (.error (.invalidScorerResult filtered.length scores.length)), context, reservations)
  else
    pickSelectable pipeline request progress context reservations
      (selectable request progress.currentStage (filtered.zipWith ScoredCandidate.mk scores))

/-- One selection round. -/
def select (round : Round Stats Score C) (request : RouterRequest)
    (progress : RoutingProgress) (context : C) (eligible : Eligibility Stats) (error : RouteError)
    (reservations : RoutingReservations) : Selecting Stats C :=
  let pipeline := router.pipeline round request.model progress.currentStage
  let candidates := router.candidates round.observation request reservations
    pipeline.needsActiveSequences
  if !candidates.any fun candidate => eligible candidate candidates then
    (.error (.error error), context, reservations)
  else
    let (filteredIndexes, context) := pipeline.filter request candidates progress context
    match retain candidates [] filteredIndexes with
    | .error error => (.error (.error error), context, reservations)
    | .ok filtered =>
      scoreFiltered pipeline request progress context reservations (mark eligible filtered)

/-- Every later stage has a candidate in the scope. -/
def futureStagesAvailable (candidate : RouteCandidate Stats)
    (candidates : List (RouteCandidate Stats)) : Bool :=
  candidate.role.futureStages.all fun role =>
    candidates.any fun other =>
      other.role = role && other.pipelineScopeId = candidate.pipelineScopeId

/-- Who may start: not decode, nor prefill behind an encoder. -/
def initialEligible : Eligibility Stats :=
  fun candidate candidates =>
    match candidate.role with
    | .aggregate => true
    | .prefill =>
      candidate.pipelineScopeId.any fun scope =>
        !router.pipelineScopeHasEncoder request scope &&
          futureStagesAvailable candidate candidates
    | .encoder => candidate.pipelineScopeId.isSome && futureStagesAvailable candidate candidates
    | .decode => false

/-- Who may follow an encoder. -/
def prefillEligible (pipelineScopeId : String) : Eligibility Stats :=
  fun candidate candidates =>
    candidate.role = .prefill && candidate.pipelineScopeId = some pipelineScopeId &&
      futureStagesAvailable candidate candidates

/-- Who may follow a prefill. -/
def decodeEligible (pipelineScopeId : String) : Eligibility Stats :=
  fun candidate _ => candidate.role = .decode && candidate.pipelineScopeId = some pipelineScopeId

/-- The first selection of a session. -/
def selectInitial (round : Round Stats Score C)
    (request : RouterRequest) (progress : RoutingProgress) (context : C)
    (reservations : RoutingReservations) : Selecting Stats C :=
  router.select round request progress context (router.initialEligible request)
    (.noCompatibleTarget request.model) reservations

/-- The selection after an encoder. -/
def selectPrefillInPipelineScope (round : Round Stats Score C)
    (request : RouterRequest) (progress : RoutingProgress) (context : C)
    (reservations : RoutingReservations) : Selecting Stats C :=
  match progress.pipelineScopeId with
  | none =>
    (.error (.panic "prefill selection context has a pipeline scope"), context, reservations)
  | some scope =>
    router.select round request progress context (prefillEligible scope)
      (.noCompatibleTarget request.model) reservations

/-- The selection after a prefill. -/
def selectDecodeInPipelineScope (round : Round Stats Score C)
    (request : RouterRequest) (progress : RoutingProgress) (context : C)
    (reservations : RoutingReservations) : Selecting Stats C :=
  match progress.pipelineScopeId with
  | none =>
    (.error (.panic "decode selection context has a pipeline scope"), context, reservations)
  | some scope =>
    router.select round request progress context (decodeEligible scope)
      (.noMatchingDecode request.model) reservations

end PipelineRouter

/-! ### Candidates of a round -/

/-- The static conditions of a request on a route. -/
structure RouteTarget.Admits (route : RouteTarget) (request : RouterRequest) : Prop where
  ready : route.ready = true
  model : route.model = request.model
  pool : request.allowedPools = [] ∨ route.target.name ∈ request.allowedPools
  limit : ∀ limit, route.maxInputTokens = some limit → request.tokenCount ≤ limit

lemma ModelRouteTable.mem_candidates {table : ModelRouteTable} {request : RouterRequest}
    {r : RouteTarget} :
    r ∈ table.candidates request ↔ r ∈ table.routes ∧ r.Admits request := by
  rw [candidates, List.mem_filter]
  refine and_congr_right fun _ => ?_
  simp only [Bool.and_eq_true, decide_eq_true_eq, Bool.or_eq_true, List.isEmpty_iff,
    List.contains_iff_mem, Option.all_eq_true]
  constructor
  · rintro ⟨⟨⟨hready, hmodel⟩, hpool⟩, hlimit⟩
    exact ⟨hready, hmodel, hpool, hlimit⟩
  · intro h
    exact ⟨⟨⟨h.ready, h.model⟩, h.pool⟩, h.limit⟩

/-- A route that may take the request in a round. -/
structure RouteTarget.Serves {Stats : Type} (route : RouteTarget) (router : PipelineRouter)
    (observation : Observation Stats) (request : RouterRequest) : Prop where
  mem : route ∈ router.modelRoutes.routes
  admits : route.Admits request
  healthy : observation.isRouteTargetHealthy route.routeTargetId = true
  capable : supportsRequest (observation.effectiveCapabilities route.routeTargetId) request
    (router.requiresEncoder request route) = true

/-- A candidate is a rank of a route. -/
structure RouteCandidate.RankOf {Stats : Type} (candidate : RouteCandidate Stats)
    (route : RouteTarget) : Prop where
  routeTargetId : candidate.routeTargetId = route.routeTargetId
  target : candidate.target = route.target
  admissionTargets : candidate.admissionTargets = route.admissionTargets
  role : candidate.role = route.role
  model : candidate.model = route.model
  revision : candidate.revision = route.revision
  pipelineScopeId : candidate.pipelineScopeId = route.pipelineScopeId
  rank : candidate.dataParallelRank < route.dataParallelSize

namespace PipelineRouter

variable {Stats Score C : Type} {router : PipelineRouter} {round : Round Stats Score C}
  {request : RouterRequest} {reservations : RoutingReservations}

lemma pipelineScopeHasEncoder_iff {scope : String} :
    router.pipelineScopeHasEncoder request scope = true ↔
      ∃ route ∈ router.modelRoutes.routes, route.Admits request ∧ route.role = .encoder ∧
        route.pipelineScopeId = some scope := by
  simp only [pipelineScopeHasEncoder, any_eq_true, ModelRouteTable.mem_candidates,
    Bool.and_eq_true, decide_eq_true_eq, and_assoc]

/-- **The candidates are ranks of routes that serve the request.** -/
lemma mem_candidates {observation : Observation Stats} {includeActiveSequences : Bool}
    {candidate : RouteCandidate Stats}
    (h : candidate ∈ router.candidates observation request reservations includeActiveSequences) :
    ∃ route : RouteTarget, route.Serves router observation request ∧ candidate.RankOf route := by
  rw [candidates, mem_flatMap] at h
  obtain ⟨route, hroute, hrank⟩ := h
  rw [mem_filter, mem_filter, ModelRouteTable.mem_candidates] at hroute
  obtain ⟨⟨⟨hmem, hadm⟩, hhealthy⟩, hcapable⟩ := hroute
  rw [expand, mem_map] at hrank
  obtain ⟨rank, hrank, rfl⟩ := hrank
  exact ⟨route, ⟨hmem, hadm, hhealthy, hcapable⟩,
    ⟨rfl, rfl, rfl, rfl, rfl, rfl, rfl, mem_range.mp hrank⟩⟩

/-- A route that serves the request has a candidate in the round. -/
lemma exists_mem_candidates {observation : Observation Stats} {route : RouteTarget}
    (h : route.Serves router observation request) (hranks : 0 < route.dataParallelSize)
    (reservations : RoutingReservations) (includeActiveSequences : Bool) :
    ∃ candidate ∈ router.candidates observation request reservations includeActiveSequences,
      candidate.RankOf route := by
  refine ⟨_, mem_flatMap.mpr ⟨route, ?_, mem_map_of_mem (mem_range.mpr hranks)⟩,
    ⟨rfl, rfl, rfl, rfl, rfl, rfl, rfl, hranks⟩⟩
  rw [mem_filter, mem_filter, ModelRouteTable.mem_candidates]
  exact ⟨⟨⟨h.mem, h.admits⟩, h.healthy⟩, h.capable⟩

/-- **Indexes are taken if they are distinct and in range.** -/
lemma retain_eq_ok {candidates filtered : List (RouteCandidate Stats)} {seen indexes : List ℕ} :
    retain candidates seen indexes = .ok filtered ↔
      indexes.Nodup ∧ (∀ ix ∈ indexes, ix ∉ seen) ∧
        indexes.map (candidates[·]?) = filtered.map some := by
  fun_induction retain candidates seen indexes generalizing filtered with
  | case1 => cases filtered <;> simp
  | case2 _ _ _ hseen => simp [hseen]
  | case3 _ _ _ _ hget => cases filtered <;> simp [hget]
  | case4 seen ix indexes hseen candidate hget ih =>
    have hcons : (candidate :: ·) <$> retain candidates (ix :: seen) indexes = .ok filtered ↔
        ∃ kept, retain candidates (ix :: seen) indexes = .ok kept ∧
          candidate :: kept = filtered := by
      cases retain candidates (ix :: seen) indexes <;> simp [Functor.map, Except.map]
    rw [hcons, nodup_cons, forall_mem_cons]
    simp only [ih, mem_cons, not_or, map_cons, hget]
    constructor
    · rintro ⟨kept, ⟨hnodup, hfresh, hmap⟩, rfl⟩
      refine ⟨⟨fun hmem => (hfresh ix hmem).1 rfl, hnodup⟩,
        ⟨hseen, fun i hi => (hfresh i hi).2⟩, ?_⟩
      rw [hmap, map_cons]
    · rintro ⟨⟨hnew, hnodup⟩, ⟨-, hfresh⟩, hmap⟩
      obtain ⟨_, kept, rfl, hhead, hmap⟩ := map_eq_cons_iff.mp hmap.symm
      refine ⟨kept, ⟨hnodup, fun i hi => ⟨?_, hfresh i hi⟩, hmap.symm⟩,
        by rw [Option.some.inj hhead]⟩
      rintro rfl
      exact hnew hi

/-! ### What a selection does -/

/-- What a selection is called with. -/
structure Attempt (Stats Score C : Type) where
  router : PipelineRouter
  round : Round Stats Score C
  request : RouterRequest
  progress : RoutingProgress
  context : C
  eligible : Eligibility Stats
  reservations : RoutingReservations

namespace Attempt

variable (attempt : Attempt Stats Score C)

/-- The pipeline the attempt runs. -/
def pipeline : RouterPipeline Stats Score C :=
  attempt.router.pipeline attempt.round attempt.request.model attempt.progress.currentStage

/-- What the filter is given. -/
def candidates : List (RouteCandidate Stats) :=
  attempt.router.candidates attempt.round.observation attempt.request attempt.reservations
    attempt.pipeline.needsActiveSequences

/-- What the filter answers. -/
def filtering : List ℕ × C :=
  attempt.pipeline.filter attempt.request attempt.candidates attempt.progress attempt.context

/-- The candidates at the filter's indexes. -/
def filtered : List (RouteCandidate Stats) :=
  attempt.filtering.1.filterMap (attempt.candidates[·]?)

/-- What the scorer answers. -/
def scoring : List Score × C :=
  attempt.pipeline.scoreForSelection attempt.request (mark attempt.eligible attempt.filtered)
    attempt.progress attempt.filtering.2

/-- What the picker is given. -/
def offered : List (ScoredCandidate Stats Score) :=
  selectable attempt.request attempt.progress.currentStage
    ((mark attempt.eligible attempt.filtered).zipWith ScoredCandidate.mk attempt.scoring.1)

/-- What the picker answers. -/
def picking : Option ℕ × C :=
  attempt.pipeline.pick attempt.request attempt.offered attempt.progress attempt.scoring.2

/-- An algorithm does not answer as it should: a filter with an index twice or out of range, a
scorer with too few or too many scores, a picker with no index or one out of range. -/
def Faulty : Prop :=
  ¬ attempt.filtering.1.Nodup ∨ (∃ index ∈ attempt.filtering.1, attempt.candidates.length ≤ index) ∨
    attempt.scoring.1.length ≠ attempt.filtered.length ∨
    attempt.picking.1 = none ∨ ∃ index, attempt.picking.1 = some index ∧
      attempt.offered.length ≤ index

/-- The selection, which fails by `error` when nobody is eligible. -/
def select (error : RouteError) : Selecting Stats C :=
  attempt.router.select attempt.round attempt.request attempt.progress attempt.context
    attempt.eligible error attempt.reservations

variable {attempt}

lemma retain_cases :
    (∃ e, retain attempt.candidates [] attempt.filtering.1 = .error e) ∨ attempt.filtering.1.Nodup ∧
        (∀ i ∈ attempt.filtering.1, i < attempt.candidates.length) ∧
        retain attempt.candidates [] attempt.filtering.1 = .ok attempt.filtered := by
  cases hretain : retain attempt.candidates [] attempt.filtering.1 with
  | error e => exact .inl ⟨e, rfl⟩
  | ok kept =>
    refine .inr ?_
    obtain ⟨hnodup, -, hmap⟩ := retain_eq_ok.mp hretain
    refine ⟨hnodup, fun i hindex => ?_, ?_⟩
    · have hsome : attempt.candidates[i]? ∈ kept.map some := by
        rw [← hmap]
        exact mem_map_of_mem hindex
      obtain ⟨d, -, hget⟩ := mem_map.mp hsome
      exact (List.getElem?_eq_some_iff.mp hget.symm).1
    · have hkept : (attempt.filtering.1.map (attempt.candidates[·]?)).filterMap id = kept := by
        rw [hmap, filterMap_map, Function.id_comp, filterMap_some]
      rw [filtered, ← hkept, filterMap_map, Function.id_comp]

lemma pickSelectable_cases :
    (∃ e context, pickSelectable attempt.pipeline attempt.request attempt.progress
        attempt.scoring.2 attempt.reservations attempt.offered =
      (.error (.error e), context, attempt.reservations)) ∨
    ∃ i, attempt.picking.1 = some i ∧ i < attempt.offered.length ∧
      ∃ l ∈ attempt.offered, pickSelectable attempt.pipeline attempt.request attempt.progress
          attempt.scoring.2 attempt.reservations attempt.offered =
        (.ok l.candidate, attempt.picking.2,
          attempt.reservations.reserve attempt.request l.candidate
            (attempt.pipeline.prefillTokenLoad attempt.request l.candidate)) := by
  rw [pickSelectable]
  split_ifs
  · exact .inl ⟨_, _, rfl⟩
  rw [← picking]
  cases hpicked : attempt.picking with
  | mk picked =>
    cases picked with
    | none => exact .inl ⟨_, _, rfl⟩
    | some i =>
      dsimp only
      cases hget : attempt.offered[i]? with
      | none => exact .inl ⟨_, _, rfl⟩
      | some l =>
        exact .inr ⟨i, rfl, (List.getElem?_eq_some_iff.mp hget).1, l,
          mem_of_getElem? hget, rfl⟩

/-- **A selection** fails and reserves nothing, or reserves what was offered. -/
lemma select_cases (error : RouteError) :
    (∃ e context, attempt.select error = (.error (.error e), context, attempt.reservations)) ∨
      ¬ attempt.Faulty ∧ ∃ l ∈ attempt.offered, attempt.select error =
        (.ok l.candidate, attempt.picking.2,
          attempt.reservations.reserve attempt.request l.candidate
            (attempt.pipeline.prefillTokenLoad attempt.request l.candidate)) := by
  have hslct : attempt.select error =
      if !attempt.candidates.any fun d => attempt.eligible d attempt.candidates then
        (.error (.error error), attempt.context, attempt.reservations)
      else
        match retain attempt.candidates [] attempt.filtering.1 with
        | .error e => (.error (.error e), attempt.filtering.2, attempt.reservations)
        | .ok kept =>
          scoreFiltered attempt.pipeline attempt.request attempt.progress attempt.filtering.2
            attempt.reservations (mark attempt.eligible kept) := rfl
  rw [hslct]
  split_ifs
  · exact .inl ⟨_, _, rfl⟩
  rcases attempt.retain_cases with ⟨e, hretain⟩ | ⟨hnodup, hrange, hretain⟩ <;> rw [hretain]
  · exact .inl ⟨_, _, rfl⟩
  have hscore : scoreFiltered attempt.pipeline attempt.request attempt.progress
      attempt.filtering.2 attempt.reservations (mark attempt.eligible attempt.filtered) =
      if attempt.scoring.1.length ≠ (mark attempt.eligible attempt.filtered).length then
        (.error (.error (.invalidScorerResult (mark attempt.eligible attempt.filtered).length
          attempt.scoring.1.length)), attempt.scoring.2, attempt.reservations)
      else
        pickSelectable attempt.pipeline attempt.request attempt.progress attempt.scoring.2
          attempt.reservations attempt.offered := rfl
  dsimp only
  rw [hscore]
  split_ifs with hscores
  · exact .inl ⟨_, _, rfl⟩
  rcases attempt.pickSelectable_cases with hfailed | ⟨ix, hpicked, hindex, hsel⟩
  · exact .inl hfailed
  refine .inr ⟨?_, hsel⟩
  rw [mark, length_map, not_not] at hscores
  rintro (h | ⟨i, hi, hout⟩ | h | h | ⟨i, hi, hout⟩)
  · exact h hnodup
  · exact absurd (hrange i hi) hout.not_gt
  · exact h hscores
  · cases hpicked.symm.trans h
  · cases hpicked.symm.trans hi
    exact absurd hindex hout.not_gt

/-- What is offered was filtered, is eligible and not busy. -/
lemma of_mem_offered {l : ScoredCandidate Stats Score} (h : l ∈ attempt.offered) :
    ∃ d ∈ attempt.filtered, attempt.eligible d attempt.filtered = true ∧
      l.candidate = { d with stageEligible := true } ∧
      (attempt.progress.currentStage = .initial →
        (d.routeTargetId, d.dataParallelRank) ∉ attempt.request.busyTargets) := by
  rw [offered, selectable, mem_filter, Bool.and_eq_true] at h
  obtain ⟨hmem, helig, hbusy⟩ := h
  obtain ⟨i, hi, rfl⟩ := mem_iff_getElem.mp hmem
  rw [getElem_zipWith] at helig hbusy ⊢
  simp only [mark, getElem_map] at helig hbusy ⊢
  refine ⟨_, getElem_mem _, helig, by rw [helig], fun hini => ?_⟩
  simpa [hini] using hbusy

lemma mem_candidates_of_mem_filtered {d : RouteCandidate Stats}
    (h : d ∈ attempt.filtered) : d ∈ attempt.candidates := by
  obtain ⟨i, -, hget⟩ := mem_filterMap.mp h
  exact mem_of_getElem? hget

end Attempt

end PipelineRouter

end Foretoken.Router
