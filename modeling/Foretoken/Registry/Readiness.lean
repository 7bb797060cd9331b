import Foretoken.Registry.Acceptance

/-!
Readiness and routability (`backend-registry/src/registry.rs`).

Waiting requests ask the registry whether a model is ready in their pools, where the stages of a
scope are taken from **all** of its routes. A request that is dispatched is offered to the router,
which decides on its own what a complete path is and looks at the routes **in the pools**.
-/

namespace Foretoken.Registry

open List Foretoken.Router

variable {role : ModelServerRole} {r : RouteTarget}

/-! ### The registry -/

/-- What a backend reports of itself that routing reads. -/
structure RuntimeMetadata where
  capabilities : List String
  kvTransfer : Option RuntimeKvTransferMetadata
  kvBlockSize : Option ℕ
  prefixCacheEnabled : Option Bool
  deriving DecidableEq, Repr

/-- The routes of a snapshot and what was observed of them. -/
structure BackendRegistry where
  modelRoutes : ModelRouteTable
  components : Table RouteTargetId Component
  health : Table RouteTargetId Bool
  metadata : Table RouteTargetId RuntimeMetadata

/-- Which of the stages of a scope are healthy. -/
structure StageHealth where
  encoder : Bool
  prefill : Bool
  decode : Bool
  deriving DecidableEq, Repr, Inhabited

namespace StageHealth

/-- The health of a stage. -/
def get (stages : StageHealth) : ModelServerRole → Bool
  | .encoder => stages.encoder
  | .prefill => stages.prefill
  | .decode => stages.decode
  | .aggregate => false

/-- A stage has a healthy route. -/
def mark (stages : StageHealth) : ModelServerRole → StageHealth
  | .encoder => { stages with encoder := true }
  | .prefill => { stages with prefill := true }
  | .decode => { stages with decode := true }
  | .aggregate => stages

lemma get_mark {stages : StageHealth} {marked : ModelServerRole} :
    (stages.mark marked).get role = true ↔
      stages.get role = true ∨ role = marked ∧ role ≠ .aggregate := by
  cases marked <;> cases role <;> simp [mark, get]

end StageHealth

/-- What the scan of the routes has found. -/
structure HealthScan where
  models : List String
  pipelineScopes : Table (String × String) StageHealth

/-- The healthy stages of a scope. -/
def HealthScan.stages (scan : HealthScan) (model scope : String) : StageHealth :=
  (scan.pipelineScopes.lookup (model, scope)).getD default

variable {scan : HealthScan}

/-- A route lies in the allowed pools; an empty list allows all. -/
def allowsPool (allowedPools : List String) (route : RouteTarget) : Bool :=
  allowedPools.isEmpty || allowedPools.contains route.target.name

namespace BackendRegistry

variable (registry : BackendRegistry)

/-- The last observation was healthy. -/
def isRouteTargetHealthy (id : RouteTargetId) : Bool := (registry.health.lookup id).any (·)

/-- Capabilities that the backend must confirm. -/
def requiresRuntimeObservation (capability : String) : Bool :=
  capability = "lora" || capability = "video"

/-- The declared capabilities, those the engine must prove only when it reports them. -/
def effectiveCapabilities (id : RouteTargetId) : List String :=
  match registry.modelRoutes.routes.find? (·.routeTargetId = id), registry.metadata.lookup id with
  | some route, some observed =>
    route.capabilities.filter fun capability =>
      !requiresRuntimeObservation capability || observed.capabilities.contains capability
  | _, _ => []

section

variable (model : String) (allowedPools : List String)

/-- A healthy route is noted, for its model or for its scope. -/
def scanRoute (scan : HealthScan) (route : RouteTarget) : HealthScan :=
  let healthy := registry.isRouteTargetHealthy route.routeTargetId
  if !allowsPool allowedPools route then scan
  else if route.role = .aggregate ∧ healthy = true then
    { scan with models := route.model :: scan.models }
  else
    match route.pipelineScopeId with
    | none => scan
    | some scope =>
      let stages := scan.stages route.model scope
      { scan with
        pipelineScopes := scan.pipelineScopes.insert (route.model, scope)
          (if healthy then stages.mark route.role else stages) }

/-- A scope needs its encoders when any of its routes is one. -/
def scopeHasEncoder (scope : String) : Bool :=
  registry.modelRoutes.routes.any fun route =>
    route.model = model && route.pipelineScopeId = some scope && route.role = .encoder

/-- The models with an aggregate route or a whole pipeline. -/
def healthyModelsInPools : List String :=
  let scan := registry.modelRoutes.routes.foldl (registry.scanRoute allowedPools) ⟨[], ∅⟩
  let split := scan.pipelineScopes.entries.filter fun entry =>
    entry.2.prefill && entry.2.decode &&
      (!registry.scopeHasEncoder entry.1.1 entry.1.2 || entry.2.encoder)
  orderedSet (scan.models ++ split.map (·.1.1))

/-- The model is among the healthy ones. -/
def isModelReady : Bool :=
  (registry.healthyModelsInPools allowedPools).any (· = model)

/-- What the router reads of the registry; statistics and prefix matches come from elsewhere. -/
def observe {Stats : Type} (stats : RouteTargetId → Option Stats)
    (prefixMatches : RouteTargetId → ℕ → Option (List (Option KvReuseSource))) :
    Observation Stats where
  isRouteTargetHealthy := registry.isRouteTargetHealthy
  effectiveCapabilities := registry.effectiveCapabilities
  kvTransfer id := (registry.metadata.lookup id).bind (·.kvTransfer)
  kvBlockSize id := (registry.metadata.lookup id).bind (·.kvBlockSize)
  prefixCacheEnabled id := (registry.metadata.lookup id).bind (·.prefixCacheEnabled)
  stats := stats
  prefixMatches := prefixMatches

/-! ### What readiness asks -/

/-- A route of a model in a role. -/
def Offers (route : RouteTarget) : Prop :=
  route ∈ registry.modelRoutes.routes ∧ allowsPool allowedPools route = true ∧ route.model = model

/-- A healthy route of a model in the pools. -/
def Runs (route : RouteTarget) : Prop :=
  registry.Offers model allowedPools route ∧
    registry.isRouteTargetHealthy route.routeTargetId = true

/-- An aggregate route of the model is up. -/
def RunsAggregate : Prop :=
  ∃ route, registry.Runs model allowedPools route ∧ route.role = .aggregate

/-- A healthy route of a scope in a role. -/
def RunsStage (scope : String)
    (role : ModelServerRole) : Prop :=
  ∃ route, registry.Runs model allowedPools route ∧ route.role = role ∧
    route.pipelineScopeId = some scope

/-- A scope keeps an encoder route in the pools, healthy or not. -/
def OffersEncoder (scope : String) : Prop :=
  ∃ route, registry.Offers model allowedPools route ∧ route.role = .encoder ∧
    route.pipelineScopeId = some scope

/-- A complete path runs in the pools: an aggregate route, or the stages of a scope, with an
encoder where any route of the scope is one. -/
def RunsPath : Prop :=
  registry.RunsAggregate model allowedPools ∨
    ∃ scope, registry.RunsStage model allowedPools scope .prefill ∧
      registry.RunsStage model allowedPools scope .decode ∧
      (registry.OffersEncoder model [] scope →
        registry.RunsStage model allowedPools scope .encoder)

end

variable {registry} {model : String} {allowedPools : List String} {scope : String}

lemma models_scanRoute :
    model ∈ (registry.scanRoute allowedPools scan r).models ↔
      model ∈ scan.models ∨ allowsPool allowedPools r = true ∧ r.model = model ∧
        registry.isRouteTargetHealthy r.routeTargetId = true ∧ r.role = .aggregate := by
  rw [scanRoute]
  cases hpool : allowsPool allowedPools r with
  | false => simp
  | true =>
    by_cases hagg : r.role = .aggregate ∧
        registry.isRouteTargetHealthy r.routeTargetId = true
    · simp [hagg, or_comm, eq_comm]
    · have hnot : ¬ (registry.isRouteTargetHealthy r.routeTargetId = true ∧
          r.role = .aggregate) := fun h => hagg ⟨h.2, h.1⟩
      cases r.pipelineScopeId <;> simp [hagg, hnot]

lemma stages_scanRoute (hrole : role ≠ .aggregate) :
    ((registry.scanRoute allowedPools scan r).stages model scope).get role = true ↔
      (scan.stages model scope).get role = true ∨
        allowsPool allowedPools r = true ∧ r.model = model ∧
          registry.isRouteTargetHealthy r.routeTargetId = true ∧ r.role = role ∧
            r.pipelineScopeId = some scope := by
  rw [scanRoute]
  cases hpool : allowsPool allowedPools r with
  | false => simp
  | true =>
    by_cases hagg : r.role = .aggregate ∧
        registry.isRouteTargetHealthy r.routeTargetId = true
    · have hne : ¬ ModelServerRole.aggregate = role := hrole.symm
      simp [hagg, hne, HealthScan.stages]
    rw [Bool.not_true, if_neg Bool.false_ne_true, if_neg hagg]
    cases hscope : r.pipelineScopeId with
    | none => simp
    | some found =>
      rw [HealthScan.stages, Table.lookup_insert_eq]
      by_cases hkey : (model, scope) = (r.model, found)
      · obtain ⟨rfl, rfl⟩ := Prod.mk.inj hkey
        cases registry.isRouteTargetHealthy r.routeTargetId with
        | false => simp
        | true => simp [StageHealth.get_mark, hrole, eq_comm (a := role)]
      · rw [if_neg hkey]
        have hother : ¬ (r.model = model ∧ found = scope) := fun h =>
          hkey (by rw [h.1, h.2])
        refine (or_iff_left ?_).symm
        rintro ⟨-, hmodel, -, -, hfound⟩
        exact hother ⟨hmodel, Option.some.inj hfound⟩

lemma models_scan {routes : List RouteTarget} :
    model ∈ (routes.foldl (registry.scanRoute allowedPools) scan).models ↔
      model ∈ scan.models ∨ ∃ r ∈ routes, allowsPool allowedPools r = true ∧
        r.model = model ∧ registry.isRouteTargetHealthy r.routeTargetId = true ∧
          r.role = .aggregate := by
  induction routes generalizing scan with
  | nil => simp
  | cons r routes ih =>
    rw [foldl_cons, ih, models_scanRoute, exists_mem_cons_iff, or_assoc]

lemma stages_scan {routes : List RouteTarget} (hrole : role ≠ .aggregate) :
    ((routes.foldl (registry.scanRoute allowedPools) scan).stages model scope).get role = true ↔
      (scan.stages model scope).get role = true ∨
        ∃ r ∈ routes, allowsPool allowedPools r = true ∧ r.model = model ∧
          registry.isRouteTargetHealthy r.routeTargetId = true ∧ r.role = role ∧
            r.pipelineScopeId = some scope := by
  induction routes generalizing scan with
  | nil => simp
  | cons r routes ih =>
    rw [foldl_cons, ih, stages_scanRoute hrole, exists_mem_cons_iff, or_assoc]

lemma stages_scan_iff (role : ModelServerRole) (hrole : role ≠ .aggregate) :
    ((registry.modelRoutes.routes.foldl (registry.scanRoute allowedPools) ⟨[], ∅⟩).stages model
      scope).get role = true ↔ registry.RunsStage model allowedPools scope role := by
  have hempty : ¬ (HealthScan.stages ⟨[], ∅⟩ model scope).get role = true := by
    cases role <;> exact nofun
  rw [stages_scan hrole, or_iff_right hempty, RunsStage]
  simp only [Runs, Offers]
  exact exists_congr fun r => by tauto

lemma scopeHasEncoder_iff :
    registry.scopeHasEncoder model scope = true ↔ registry.OffersEncoder model [] scope := by
  simp only [scopeHasEncoder, any_eq_true, Bool.and_eq_true, decide_eq_true_eq, OffersEncoder,
    Offers, allowsPool, isEmpty_nil, Bool.true_or]
  exact exists_congr fun r => by tauto

/-- **A model is ready** when a complete path runs in the pools. -/
theorem isModelReady_iff :
    registry.isModelReady model allowedPools = true ↔ registry.RunsPath model allowedPools := by
  set scan := registry.modelRoutes.routes.foldl (registry.scanRoute allowedPools) ⟨[], ∅⟩ with hscan
  have hagg : model ∈ scan.models ↔ registry.RunsAggregate model allowedPools := by
    rw [models_scan, or_iff_right not_mem_nil, RunsAggregate]
    simp only [Runs, Offers]
    exact exists_congr fun r => by tauto
  have hready : registry.isModelReady model allowedPools = true ↔ model ∈ scan.models ∨
      ∃ scope stages, scan.pipelineScopes.lookup (model, scope) = some stages ∧
        stages.prefill = true ∧ stages.decode = true ∧
          (registry.scopeHasEncoder model scope = true → stages.encoder = true) := by
    simp only [isModelReady, healthyModelsInPools, any_eq_true, decide_eq_true_eq,
      exists_eq_right, mem_orderedSet, mem_append, mem_map, mem_filter,
      Bool.and_eq_true, Bool.or_eq_true, Bool.not_eq_true', ← hscan]
    refine or_congr_right ⟨?_, ?_⟩
    · rintro ⟨⟨⟨m, scope⟩, stages⟩, ⟨hmem, ⟨hpre, hdec⟩, henc⟩, rfl⟩
      refine ⟨scope, stages, AList.mem_lookup_iff.mpr hmem, hpre, hdec, fun hhas => ?_⟩
      exact henc.resolve_left (by rw [hhas]; exact Bool.noConfusion)
    · rintro ⟨scope, stages, hlook, hpre, hdec, henc⟩
      refine ⟨⟨(model, scope), stages⟩, ⟨AList.mem_lookup_iff.mp hlook, ⟨hpre, hdec⟩, ?_⟩, rfl⟩
      cases hhas : registry.scopeHasEncoder model scope with
      | false => exact .inl rfl
      | true => exact .inr (henc hhas)
  rw [hready, hagg, RunsPath]
  refine or_congr_right (exists_congr fun scope => ?_)
  rw [← stages_scan_iff .prefill (by decide), ← stages_scan_iff .decode (by decide),
    ← stages_scan_iff .encoder (by decide), ← scopeHasEncoder_iff, ← hscan, HealthScan.stages]
  cases hlook : scan.pipelineScopes.lookup (model, scope) with
  | none => exact iff_of_false (by rintro ⟨-, ⟨⟩, -⟩) fun h => absurd h.1 (by decide)
  | some => simp [StageHealth.get]

/-! ### What routing asks -/

/-- The router over the routes of a registry. -/
def router (registry : BackendRegistry) (snapshotVersion : ℕ) : PipelineRouter where
  modelRoutes := registry.modelRoutes
  snapshotVersion := snapshotVersion

/-- A tokenized request without optional features. -/
def Plain (request : RouterRequest) : Prop :=
  ∃ text, request.body = .text text ∧ text.hasLoraRequest = false ∧
    text.structuredOutputs = none ∧ text.mmFeatures = none

/-- A prompt within every input limit. -/
def WithinLimits (registry : BackendRegistry) (request : RouterRequest) : Prop :=
  ∀ route ∈ registry.modelRoutes.routes, ∀ limit, route.maxInputTokens = some limit →
    request.tokenCount ≤ limit

/-- The routes of a registry that a snapshot has been projected to, none of them a video route and
each with a rank. -/
structure Serving (validEndpoint : String → Bool) (snapshot : ServingSnapshot)
    (registry : BackendRegistry) : Prop where
  projected : projectRegistry validEndpoint snapshot =
    .ok (registry.modelRoutes, registry.components)
  ranks : ∀ route ∈ registry.modelRoutes.routes, 0 < route.dataParallelSize
  text : ∀ route ∈ registry.modelRoutes.routes, "video" ∉ route.capabilities

lemma video_notMem_effectiveCapabilities
    (h : ∀ r ∈ registry.modelRoutes.routes, "video" ∉ r.capabilities) (id : RouteTargetId) :
    "video" ∉ registry.effectiveCapabilities id := by
  rw [effectiveCapabilities]
  split
  · rename_i r observed hroute hobs
    intro hmem
    exact h r (mem_of_find?_eq_some hroute) (mem_of_mem_filter hmem)
  · exact not_mem_nil

lemma supportsRequest_of_plain {request : RouterRequest} (h : Plain request)
    {capabilities : List String} (hvideo : "video" ∉ capabilities) (requiresEncoder : Bool) :
    supportsRequest capabilities request requiresEncoder = true := by
  obtain ⟨text, hbody, hlora, hstruct, hmm⟩ := h
  simp [supportsRequest, RouterRequest.generateRequest, hbody, hvideo, hlora,
    supportsStructuredOutput, hstruct, supportsMultimodal, hmm]

section Routing

variable {validEndpoint : String → Bool} {snapshot : ServingSnapshot} {Stats : Type}
  {stats : RouteTargetId → Option Stats}
  {prefixMatches : RouteTargetId → ℕ → Option (List (Option KvReuseSource))} {version : ℕ}
  {request : RouterRequest}

section

variable (hserv : registry.Serving validEndpoint snapshot)
include hserv

lemma offers_iff (hlim : registry.WithinLimits request) :
    registry.Offers request.model request.allowedPools r ↔
      r ∈ registry.modelRoutes.routes ∧ r.Admits request := by
  refine and_congr_right fun hmem => ⟨?_, fun h => ⟨?_, h.model⟩⟩
  · rintro ⟨hpool, hmodel⟩
    refine ⟨(projectRegistry_routes hserv.projected hmem).1, hmodel, ?_, hlim r hmem⟩
    simpa [allowsPool] using hpool
  · simpa [allowsPool] using h.pool

/-- **What runs a model is what serves a plain request.** -/
lemma runs_iff (hplain : Plain request) (hlim : registry.WithinLimits request) (r : RouteTarget)
    (version : ℕ) (stats : RouteTargetId → Option Stats)
    (prefixMatches : RouteTargetId → ℕ → Option (List (Option KvReuseSource))) :
    registry.Runs request.model request.allowedPools r ↔
      r.Serves (registry.router version) (registry.observe stats prefixMatches) request := by
  rw [Runs, offers_iff hserv hlim]
  constructor
  · rintro ⟨⟨hmem, hadm⟩, hhealthy⟩
    exact ⟨hmem, hadm, hhealthy, supportsRequest_of_plain hplain
      (video_notMem_effectiveCapabilities hserv.text _) _⟩
  · intro h
    exact ⟨⟨h.mem, h.admits⟩, h.healthy⟩

lemma pipelineScopeHasEncoder_iff (hlim : registry.WithinLimits request) :
    (registry.router version).pipelineScopeHasEncoder request scope = true ↔
      registry.OffersEncoder request.model request.allowedPools scope := by
  rw [PipelineRouter.pipelineScopeHasEncoder_iff]
  refine exists_congr fun r => ?_
  rw [offers_iff hserv hlim, and_assoc]
  rfl

end

variable {reservations : RoutingReservations} {includeActiveSequences : Bool}

/-- The candidates of a request in a round. -/
def candidates (registry : BackendRegistry) (version : ℕ) (stats : RouteTargetId → Option Stats)
    (prefixMatches : RouteTargetId → ℕ → Option (List (Option KvReuseSource)))
    (request : RouterRequest) (reservations : RoutingReservations)
    (includeActiveSequences : Bool) : List (RouteCandidate Stats) :=
  (registry.router version).candidates (registry.observe stats prefixMatches) request reservations
    includeActiveSequences

section

variable (hserv : registry.Serving validEndpoint snapshot) (hplain : Plain request)
  (hlim : registry.WithinLimits request)
include hserv hplain hlim

lemma exists_candidate {route : RouteTarget}
    (hruns : registry.Runs request.model request.allowedPools route) :
    ∃ candidate ∈ registry.candidates version stats prefixMatches request reservations
        includeActiveSequences,
      candidate.RankOf route :=
  PipelineRouter.exists_mem_candidates
    ((runs_iff hserv hplain hlim route version stats prefixMatches).mp hruns)
    (hserv.ranks route hruns.1.1) reservations includeActiveSequences

lemma runsStage_iff :
    (∃ d ∈ registry.candidates version stats prefixMatches request reservations
        includeActiveSequences,
      d.role = role ∧ d.pipelineScopeId = some scope) ↔
      registry.RunsStage request.model request.allowedPools scope role := by
  constructor
  · rintro ⟨d, hcand, hrole, hscope⟩
    obtain ⟨r, hserves, hrank⟩ := PipelineRouter.mem_candidates hcand
    exact ⟨r, (runs_iff hserv hplain hlim r version stats prefixMatches).mpr hserves,
      by rw [← hrank.role, hrole], by rw [← hrank.pipelineScopeId, hscope]⟩
  · rintro ⟨r, hruns, hrole, hscope⟩
    obtain ⟨d, hcand, hrank⟩ := exists_candidate hserv hplain hlim hruns
    exact ⟨d, hcand, by rw [hrank.role, hrole], by rw [hrank.pipelineScopeId, hscope]⟩

section

variable {d : RouteCandidate Stats} (hscope : d.pipelineScopeId = some scope)
include hscope

lemma futureStagesAvailable_iff :
    PipelineRouter.futureStagesAvailable d (registry.candidates version stats prefixMatches
        request reservations includeActiveSequences) = true ↔
      ∀ role ∈ d.role.futureStages,
        registry.RunsStage request.model request.allowedPools scope role := by
  simp only [PipelineRouter.futureStagesAvailable, all_eq_true, any_eq_true,
    Bool.and_eq_true, decide_eq_true_eq, hscope, runsStage_iff hserv hplain hlim]

lemma initialEligible_iff :
    (registry.router version).initialEligible request d (registry.candidates version stats
        prefixMatches request reservations includeActiveSequences) = true ↔
      d.role = .aggregate ∨
      (d.role = .prefill ∧
        ¬ registry.OffersEncoder request.model request.allowedPools scope ∧
        registry.RunsStage request.model request.allowedPools scope .decode) ∨
      d.role = .encoder ∧
        registry.RunsStage request.model request.allowedPools scope .prefill ∧
        registry.RunsStage request.model request.allowedPools scope .decode := by
  rw [PipelineRouter.initialEligible]
  cases hrole : d.role with
  | aggregate | decode => simp
  | prefill =>
    have henc : (registry.router version).pipelineScopeHasEncoder request scope = false ↔
        ¬ registry.OffersEncoder request.model request.allowedPools scope := by
      rw [← Bool.not_eq_true, pipelineScopeHasEncoder_iff hserv hlim]
    simp [hscope, futureStagesAvailable_iff hserv hplain hlim hscope, hrole,
      ModelServerRole.futureStages, henc]
  | encoder =>
    simp [hscope, futureStagesAvailable_iff hserv hplain hlim hscope, hrole,
      ModelServerRole.futureStages]

end

/-- **A path can start** at an aggregate route, or in a scope whose prefill and decode stages run
and whose encoder stage runs or has no route in the pools. -/
theorem exists_initialEligible_iff :
    (∃ d ∈ registry.candidates version stats prefixMatches request reservations
        includeActiveSequences,
      (registry.router version).initialEligible request d (registry.candidates version stats
        prefixMatches request reservations includeActiveSequences) = true) ↔
      registry.RunsAggregate request.model request.allowedPools ∨
        ∃ scope, registry.RunsStage request.model request.allowedPools scope .prefill ∧
          registry.RunsStage request.model request.allowedPools scope .decode ∧
          (registry.RunsStage request.model request.allowedPools scope .encoder ∨
            ¬ registry.OffersEncoder request.model request.allowedPools scope) := by
  constructor
  · rintro ⟨d, hcand, helig⟩
    obtain ⟨r, hserves, hrank⟩ := PipelineRouter.mem_candidates hcand
    have hruns := (runs_iff hserv hplain hlim r version stats prefixMatches).mpr hserves
    have hscopes := (projectRegistry_routes hserv.projected hserves.mem).2
    rw [← hrank.role, ← hrank.pipelineScopeId] at hscopes
    by_cases hagg : d.role = .aggregate
    · exact .inl ⟨r, hruns, by rw [← hrank.role, hagg]⟩
    obtain ⟨scope, hscope⟩ := Option.ne_none_iff_exists'.mp (hscopes.not.mp hagg)
    have hstage : registry.RunsStage request.model request.allowedPools scope d.role :=
      ⟨r, hruns, hrank.role.symm, hrank.pipelineScopeId ▸ hscope⟩
    refine .inr ⟨scope, ?_⟩
    rcases ((initialEligible_iff hserv hplain hlim hscope).mp helig).resolve_left
      hagg with ⟨hrole, henc, hdec⟩ | ⟨hrole, hpre, hdec⟩
    · exact ⟨hrole ▸ hstage, hdec, .inr henc⟩
    · exact ⟨hpre, hdec, .inl (hrole ▸ hstage)⟩
  · rintro (⟨r, hruns, hrole⟩ | ⟨scope, hpre, hdec, henc⟩)
    · obtain ⟨d, hcand, hrank⟩ := exists_candidate hserv hplain hlim hruns
      refine ⟨d, hcand, ?_⟩
      rw [PipelineRouter.initialEligible, hrank.role, hrole]
    · rcases henc with henc | henc
      · obtain ⟨d, hcand, hrole, hscope⟩ :=
          (runsStage_iff hserv hplain hlim).mpr henc
        exact ⟨d, hcand, (initialEligible_iff hserv hplain hlim hscope).mpr
          (.inr (.inr ⟨hrole, hpre, hdec⟩))⟩
      · obtain ⟨d, hcand, hrole, hscope⟩ :=
          (runsStage_iff hserv hplain hlim).mpr hpre
        exact ⟨d, hcand, (initialEligible_iff hserv hplain hlim hscope).mpr
          (.inr (.inl ⟨hrole, henc, hdec⟩))⟩

end

end Routing

end BackendRegistry

open BackendRegistry

/-! ### Agreement -/

/-- No scope whose prefill and decode stages run loses all of its encoders to the pools. -/
def BackendRegistry.KeepsEncoders (registry : BackendRegistry) (model : String)
    (allowedPools : List String) : Prop :=
  ∀ scope, registry.RunsStage model allowedPools scope .prefill →
    registry.RunsStage model allowedPools scope .decode →
    registry.OffersEncoder model [] scope → registry.OffersEncoder model allowedPools scope

lemma BackendRegistry.OffersEncoder.all {registry : BackendRegistry} {model scope : String}
    {allowedPools : List String} (h : registry.OffersEncoder model allowedPools scope) :
    registry.OffersEncoder model [] scope := by
  obtain ⟨r, ⟨hmem, -, hmodel⟩, henc⟩ := h
  exact ⟨r, ⟨hmem, rfl, hmodel⟩, henc⟩

/-- **Readiness agrees with routability exactly when a complete path runs in the pools or no scope
loses its encoders to them**, whatever the health and metadata of the routes. -/
theorem ready_agrees_iff_keepsEncoders {validEndpoint : String → Bool} {snapshot : ServingSnapshot}
    {registry : BackendRegistry} (hserving : registry.Serving validEndpoint snapshot)
    {request : RouterRequest} (hplain : Plain request)
    (hlimits : registry.WithinLimits request) {Stats : Type} (version : ℕ)
    (stats : RouteTargetId → Option Stats)
    (prefixMatches : RouteTargetId → ℕ → Option (List (Option KvReuseSource)))
    (reservations : RoutingReservations) (includeActiveSequences : Bool) :
    (registry.isModelReady request.model request.allowedPools = true ↔
      ∃ candidate ∈ registry.candidates version stats prefixMatches request reservations
          includeActiveSequences,
        (registry.router version).initialEligible request candidate (registry.candidates version
          stats prefixMatches request reservations includeActiveSequences) = true) ↔
      registry.RunsPath request.model request.allowedPools ∨
        registry.KeepsEncoders request.model request.allowedPools := by
  rw [exists_initialEligible_iff hserving hplain hlimits, isModelReady_iff]
  constructor
  · intro hagree
    by_cases hready : registry.RunsPath request.model request.allowedPools
    · exact .inl hready
    · -- a scope without an encoder in the pools would let a path start
      refine .inr fun scope hprefill hdecode _ => ?_
      by_contra hencoder
      exact hready (hagree.mpr (.inr ⟨scope, hprefill, hdecode, .inr hencoder⟩))
  · intro hkeeps
    constructor
    · intro hready
      refine hready.imp_right ?_
      rintro ⟨scope, hprefill, hdecode, hencoder⟩
      refine ⟨scope, hprefill, hdecode, ?_⟩
      by_cases hoffers : registry.OffersEncoder request.model request.allowedPools scope
      · exact .inl (hencoder hoffers.all)
      · exact .inr hoffers
    · intro hroutable
      refine hkeeps.elim id fun hkeeps => ?_
      refine hroutable.imp_right ?_
      rintro ⟨scope, hprefill, hdecode, hencoder⟩
      refine ⟨scope, hprefill, hdecode, fun hall => ?_⟩
      exact hencoder.resolve_right (not_not.mpr (hkeeps scope hprefill hdecode hall))

/-! ### A scope that loses its encoder -/

namespace LeftOut

/-- A stage of one service, in a pool of its own. -/
def stage (id pool : String) (role : ModelServerRole) (bootstrap : Option String) :
    SnapshotEpdComponent where
  serviceUid := "s"
  poolUid := pool
  poolName := pool
  routeTargetId := id
  model := "m"
  source := .hf
  revision := "main"
  tokenizer := "m"
  tokenizerRevision := "main"
  prefixCacheIsolation := none
  capabilities := ["text"]
  maxInputTokens := none
  endpoint := "http://" ++ id
  kvScopeId := "kv"
  dataParallelSize := 1
  role := role
  prefillBootstrapEndpoint := bootstrap

/-- A pool of the service. -/
def pool (name : String) : ScalingTarget where
  serviceUid := "s"
  name := name
  uid := name

/-- An algorithm without parameters. -/
def algorithm : AlgorithmStage := ⟨"default", ""⟩

/-- The pools of the service; the second encoder pool has no backend yet. -/
def pools : List ScalingTarget := [pool "d", pool "e1", pool "e2", pool "p"]

/-- One service with two encoder pools, a prefill and a decode pool. -/
def snapshot : ServingSnapshot where
  routerPipeline := ⟨algorithm, algorithm, algorithm⟩
  version := 1
  models := [{
    serviceUid := "s", model := "m", source := .hf, revision := "main", tokenizer := "m"
    tokenizerRevision := "main", prefixCacheIsolation := none, capabilities := ["text"]
    admissionTargetSets := [pools], routerPipeline := none }]
  groups := []
  pdComponents := []
  pdPipelineScopes := []
  epdComponents := [stage "1" "e1" .encoder none, stage "2" "p" .prefill (some "http://2:1"),
    stage "3" "d" .decode none]
  epdPipelineScopes := [⟨"scope", ["1"], ["2"], ["3"]⟩]

/-- The routes of the snapshot. -/
def routes : List RouteTarget :=
  snapshot.epdComponents.map fun c => c.route c.role (some "scope") pools

/-- Every backend of the service is healthy. -/
def registry : BackendRegistry where
  modelRoutes := ⟨routes⟩
  components := (((∅ : Table RouteTargetId Component).insert "1" (.encoder "http://1")).insert "2"
    (.prefill "http://2" (some "http://2:1") .mooncake)).insert "3" (.decode "http://3" .mooncake)
  health := (((∅ : Table RouteTargetId Bool).insert "1" true).insert "2" true).insert "3" true
  metadata := ∅

/-- A text request of a caller that may use the second encoder pool. -/
def request : RouterRequest where
  model := "m"
  allowedPools := ["d", "e2", "p"]
  busyTargets := []
  body := .text ⟨"r", [1], false, none, none, none, false⟩

lemma serving : registry.Serving (fun _ => true) snapshot where
  projected := rfl
  ranks := by decide
  text := by decide

lemma plain (ps : List String) :
    Plain { request with allowedPools := ps } :=
  ⟨_, rfl, rfl, rfl, rfl⟩

lemma withinLimits (ps : List String) :
    registry.WithinLimits { request with allowedPools := ps } := by
  intro r hroute l hlimit
  have hnone : ∀ r ∈ registry.modelRoutes.routes, r.maxInputTokens = none := by decide
  simp [hnone r hroute] at hlimit

/-- What a round over the registry offers a request. -/
def candidates (request : RouterRequest) : List (RouteCandidate Unit) :=
  registry.candidates 1 (fun _ => none) (fun _ _ => none) request .empty false

end LeftOut

open LeftOut

/-- A scope can start at its prefill route, past its encoder, while the model is not ready. -/
theorem encoder_pool_left_out :
    (registry.Serving (fun _ => true) snapshot ∧
      Plain request ∧ registry.WithinLimits request) ∧
    registry.isModelReady request.model request.allowedPools = false ∧
    ∃ candidate ∈ candidates request,
      (registry.router 1).initialEligible request candidate
        (candidates request) = true :=
  ⟨⟨serving, plain ["d", "e2", "p"], withinLimits ["d", "e2", "p"]⟩, by decide, by decide⟩

/-- With all pools allowed no scope loses an encoder, so the two agree. -/
theorem ready_agrees_all_pools :
    registry.isModelReady "m" [] = true ↔
      ∃ candidate ∈ candidates { request with allowedPools := [] },
        (registry.router 1).initialEligible { request with allowedPools := [] }
          candidate (candidates { request with allowedPools := [] }) = true :=
  (ready_agrees_iff_keepsEncoders serving (plain []) (withinLimits []) 1
    (fun _ => none) (fun _ _ => none) .empty false).mpr (.inr fun _ _ _ hoffers => hoffers)

end Foretoken.Registry
