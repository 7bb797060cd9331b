import Foretoken.ServingConfig.Types

/-!
The routes of the selected cohorts (`internal/servingconfig/routes.go`,
`controllers/frontend/routing.go`).

A service selects one revision of each of its Pools. The Ready Groups of that revision become
routes: independent ones of an aggregate service, one scope of prefill and decode routes, or
encoder scopes in which all stages fit together.
-/

namespace Foretoken.ServingConfig

open Foretoken.Router (ModelServerRole RouteTargetId)

/-! ### Ownership and readiness -/

/-- The cohort of a Pool that its service has selected, or the empty text. -/
def servingRevision (service : ModelService) (pool : ModelPool) : String :=
  ((service.servingPoolRevisions.find? fun selected =>
    selected.poolName = pool.poolName && selected.poolUid = pool.uid).map (·.revision)).getD ""

/-- The pool's reference and owner both name the service. -/
def modelPoolOwnedBy (pool : ModelPool) (service : ModelService) : Bool :=
  pool.modelServiceRef.name = service.name && pool.modelServiceRef.uid = service.uid &&
    controllerOwnerMatches pool.owners .modelService service.name service.uid

/-- An owned pool that is not being deleted. -/
def routingPoolOwnedBy (pool : ModelPool) (service : ModelService) : Bool :=
  modelPoolOwnedBy pool service && !pool.deleting

/-- The group's reference and owner both name the pool. -/
def modelGroupOwnedBy (group : ModelGroup) (pool : ModelPool) : Bool :=
  group.modelPoolRef.name = pool.name && group.modelPoolRef.uid = pool.uid &&
    controllerOwnerMatches group.owners .modelPool pool.name pool.uid

/-- An owned group that is not being deleted. -/
def routingGroupOwnedBy (group : ModelGroup) (pool : ModelPool) : Bool :=
  modelGroupOwnedBy group pool && !group.deleting

/-- All members of the current Group configuration are ready. -/
def routingGroupReady (group : ModelGroup) : Bool :=
  !group.deleting &&
    (group.ready.any fun condition =>
      condition.status && condition.observedGeneration = group.generation) &&
    group.readyMembers = group.memberCount

/-- The pools of a service. -/
def ownedRoutingPools (service : ModelService) (pools : List ModelPool) : List ModelPool :=
  pools.filter (routingPoolOwnedBy · service)

/-- The service has selected its pool revisions. -/
def hasServingCohort (service : ModelService) : Bool :=
  !service.deleting && !service.servingPoolRevisions.isEmpty

/-- The Pools of a service with a selected cohort. -/
def selectedPools (service : ModelService) (pools : List ModelPool) : List ModelPool :=
  (ownedRoutingPools service pools).filter (servingRevision service · ≠ "")

/-- Some pool is an encoder. -/
def poolsHaveEPD (pools : List ModelPool) : Bool := pools.any (·.role = .encoder)

/-- Every stage of E/P/D has a pool. -/
def poolsContainCompleteEPD (pools : List ModelPool) : Bool :=
  [ModelServerRole.encoder, .prefill, .decode].all fun role => pools.any (·.role = role)

/-- Some pool is for prefill or decode. -/
def poolsHavePD (pools : List ModelPool) : Bool :=
  pools.any fun pool => pool.role = .prefill || pool.role = .decode

/-! ### A route of a Group -/

/-- The names and digests of a Group. The service name is its own name where that is a DNS label;
the digest is SHA-256 over the parts of a Group that its cache depends on, in hexadecimal. -/
structure Naming where
  serviceName : ModelGroup → String
  scopeDigest : ModelGroup → String

/-- The capabilities every text model has, then the declared ones in order. -/
def routingCapabilities (features : ModelFeatures) : List String :=
  let tools := if features.tools then ["tool_calling"] else []
  let reasoning := if features.reasoning then ["reasoning"] else []
  let formats := features.structuredOutputs.map fun
    | .jsonObject => "structured_output.json_object"
    | .jsonSchema => "structured_output.json_schema"
    | .structuralTag => "structured_output.structural_tag"
  let images := if .image ∈ features.multimodal then ["multimodal.image"] else []
  let multimodal := if features.multimodal.isEmpty then [] else ["multimodal"]
  ["chat", "text"] ++ orderedSet (tools ++ reasoning ++ formats ++ images ++ multimodal)

section Routes

variable (naming : Naming)

/-- The URL of a group. -/
def modelGroupEndpoint (group : ModelGroup) (port : ℤ) : String :=
  "http://" ++ naming.serviceName group ++ "." ++ group.ns ++ ".svc:" ++ toString port

/-- Separate policies have separate namespaces. -/
def kvScopeId (group : ModelGroup) : String :=
  match group.artifacts.prefixCacheIsolation with
  | some true => "caller:" ++ naming.scopeDigest group
  | some false => "shared:" ++ naming.scopeDigest group
  | none => naming.scopeDigest group

/-- The groups that share cached blocks through a store. -/
def sharedKVLookupScope (group : ModelGroup) : String :=
  match group.mooncakeStore with
  | none => ""
  | some uid =>
    if group.role ≠ .aggregate ∧ group.role ≠ .prefill then ""
    else if uid ≠ "" then "kvservice:" ++ uid
    else "modelgroup:" ++ group.uid

/-- A group as a route. -/
def routingGroup (group : ModelGroup) : Group where
  toRoutingIdentity := group.artifacts
  routeTargetId := group.uid
  serviceUid := ""
  poolUid := ""
  poolName := ""
  maxInputTokens := none
  capabilities := routingCapabilities group.features
  endpoint := modelGroupEndpoint naming group group.port
  kvScopeId := kvScopeId naming group
  kvLookupScope := sharedKVLookupScope group
  dataParallelSize := group.parallelism.dp

/-- The route of a group, with its service and pool. -/
def routingGroupForService (service : ModelService) (pool : ModelPool) (group : ModelGroup) :
    Group :=
  let route := routingGroup naming group
  { route with
    maxInputTokens := pool.maxInputTokens
    capabilities := if group.backend = .vllmOmni then ["video"] else route.capabilities
    serviceUid := service.uid
    poolUid := group.modelPoolRef.uid
    poolName := pool.poolName }

/-- Two routes serve the same artifacts. -/
def matchingRoutingIdentity (left right : RoutingIdentity) : Bool := left = right

/-! ### Compatible stages -/

/-- The transfer settings are there and valid. -/
def completePDRuntime (runtime : Option ModelGroupPDRuntimeConfig) : Bool :=
  runtime.any fun pd =>
    (pd.connector = .mooncake || pd.connector = .nixl) &&
      (pd.protocol = "rdma" || pd.protocol = "tcp") && 0 < pd.bootstrapPort &&
      pd.bootstrapPort ≤ 65535 && 0 ≤ pd.abortRequestTimeoutSeconds

/-- The encoder cache settings are there, for a role. -/
def completeECRuntime (runtime : Option ModelGroupECRuntimeConfig) (role : ECTransferRole) : Bool :=
  runtime.any fun ec =>
    ec.profileName ≠ "" && ec.profileRevision ≠ "" && ec.connector = "ECExampleConnector" &&
      ec.role = role && ec.sharedStorageClaim ≠ "" && ec.sharedStoragePath ≠ ""

/-- One node without pipeline or context parallelism. -/
def supportsNixlTopology (group : ModelGroup) : Bool :=
  group.nodeCount = 1 && group.parallelism.pp = 1 && group.parallelism.pcp = 1 &&
    group.parallelism.dcp = 1

/-- The engine arguments that do not change what is transferred. -/
def localEngineArgs : List String :=
  ["gpu-memory-utilization", "kv-cache-memory-bytes", "max-num-seqs", "max-num-batched-tokens",
    "max-model-len", "enforce-eager", "compilation-config", "cuda-graph-sizes",
    "max-cudagraph-capture-size", "scheduling-policy", "enable-chunked-prefill",
    "mm-processor-cache-gb", "mm-encoder-only", "distributed-executor-backend",
    "data-parallel-backend"]

/-- An engine argument as it is compared. -/
def comparedEngineArg (group : ModelGroup) (name : String) : Option String :=
  let value := group.engineArgs.lookup name
  if name = "load-format" ∧ (value = some "auto" ∨ value = some "modelexpress") then none
  else value

/-- Two groups can exchange cached blocks. -/
def compatibleKVTransfer (left right : ModelGroup) : Bool :=
  completePDRuntime left.pdRuntime && completePDRuntime right.pdRuntime &&
    left.pdRuntime.map (·.connector) = right.pdRuntime.map (·.connector) &&
    left.backend = right.backend && left.image = right.image &&
    1 ≤ left.parallelism.tp && 1 ≤ right.parallelism.tp &&
    (left.parallelism.tp % right.parallelism.tp = 0 ||
      right.parallelism.tp % left.parallelism.tp = 0) &&
    (left.pdRuntime.map (·.connector) ≠ some .nixl ||
      left.parallelism.tp = right.parallelism.tp && supportsNixlTopology left &&
        supportsNixlTopology right) &&
    (left.engineArgs.keys ++ right.engineArgs.keys).all fun name =>
      name ∈ localEngineArgs || comparedEngineArg left name = comparedEngineArg right name

/-- Two groups are of one service and transfer alike. -/
def matchingPDRuntime (left right : Option ModelGroupPDRuntimeConfig) : Bool :=
  completePDRuntime left && completePDRuntime right &&
    left.map (fun pd => (pd.serviceUid, pd.connector, pd.protocol)) =
      right.map fun pd => (pd.serviceUid, pd.connector, pd.protocol)

/-- Both runtimes have been checked to be there. -/
def matchingECRuntime (left right : Option ModelGroupECRuntimeConfig) : Bool :=
  match left, right with
  | some left, some right =>
    left.serviceUid = right.serviceUid && left.generation = right.generation &&
      left.profileName = right.profileName && left.profileRevision = right.profileRevision &&
      left.connector = right.connector && left.sharedStorageClaim = right.sharedStorageClaim &&
      left.sharedStoragePath = right.sharedStoragePath
  | _, _ => false

/-- A prefill and a decode group can form a pipeline. -/
def compatiblePDGroups (prefill decode : ModelGroup) : Bool :=
  matchingRoutingIdentity prefill.artifacts decode.artifacts &&
    compatibleKVTransfer prefill decode && matchingPDRuntime prefill.pdRuntime decode.pdRuntime

/-- An encoder and a prefill group can form a pipeline. -/
def compatibleEncoderPrefill (encoder prefill : ModelGroup) : Bool :=
  matchingRoutingIdentity encoder.artifacts prefill.artifacts &&
    completePDRuntime prefill.pdRuntime &&
    prefill.pdRuntime.map (·.connector) = some .mooncake &&
    completeECRuntime encoder.ecRuntime .producer &&
    completeECRuntime prefill.ecRuntime .consumer &&
    matchingECRuntime encoder.ecRuntime prefill.ecRuntime

/-- Why there is no snapshot. -/
inductive ProjectionError where
  | splitRouting (service reason : String)
  | routingIdentityConflict (reason : String)
  | modelCatalog (service : String) (missing : List ServingPoolRevision)
  | backendDeploymentRequired (service : String)
  | configuration (reason : String)
  deriving DecidableEq, Repr

/-- A name in an error text. -/
def quoted (name : String) : String := "\"" ++ name ++ "\""

/-- Every pairing that a published scope permits. -/
def validatePDGroupPairs (service : String) (prefills decodes : List ModelGroup) :
    Except ProjectionError Unit :=
  match (prefills.product decodes).find? fun pair => !compatiblePDGroups pair.1 pair.2 with
  | some pair => .error (.splitRouting service ("Ready prefill ModelGroup " ++ quoted pair.1.name ++
      " is incompatible with decode ModelGroup " ++ quoted pair.2.name))
  | none => .ok ()

/-! ### Prefill and decode scopes -/

/-- The Ready Groups of the selected cohorts in the given stages, Pool after Pool. -/
def stageGroups (service : ModelService) (pools : List ModelPool) (groups : List ModelGroup)
    (stages : List ModelServerRole) : List ModelGroup :=
  pools.flatMap fun pool =>
    if servingRevision service pool ≠ "" ∧ pool.role ∈ stages then
      groups.filter fun group =>
        routingGroupOwnedBy group pool && group.revision = servingRevision service pool &&
          routingGroupReady group && group.role = pool.role
    else []

/-- The owner of a Group selected from these Pools. -/
def routingPool (pools : List ModelPool) (group : ModelGroup) : Option ModelPool :=
  pools.find? (·.uid = group.modelPoolRef.uid)

/-- What the split routes have in common: encoder scopes own the multimodal input. -/
def splitRoute (service : ModelService) (pool : ModelPool) (group : ModelGroup)
    (features : ModelFeatures) : Group :=
  { routingGroup naming group with
    capabilities := routingCapabilities features
    serviceUid := service.uid
    poolUid := group.modelPoolRef.uid
    poolName := pool.poolName
    maxInputTokens := pool.maxInputTokens }

/-- The route of a group of a P/D pipeline. -/
def routingPDComponent (service : ModelService) (group : ModelGroup) (pool : ModelPool)
    (pd : ModelGroupPDRuntimeConfig) (pipelineScopeId : String) : PDComponent where
  toGroup := splitRoute naming service pool group { group.features with multimodal := [] }
  role := group.role
  pipelineScopeId := pipelineScopeId
  connector := pd.connector
  protocol := pd.protocol
  prefillBootstrapEndpoint :=
    if group.role = .prefill ∧ pd.connector = .mooncake then
      modelGroupEndpoint naming group pd.bootstrapPort
    else ""
  parallelism := group.parallelism

/-- The components of a scope. A selected Group has an owning Pool and, where it has to transfer
its cache, a runtime: the source panics otherwise. -/
def pdComponents (service : ModelService) (pools : List ModelPool) (scope : String)
    (groups : List ModelGroup) : List PDComponent :=
  groups.filterMap fun group => do
    let pool ← routingPool pools group
    let pd ← group.pdRuntime
    pure (routingPDComponent naming service group pool pd scope)

/-- The text of a role. -/
def roleText : ModelServerRole → String
  | .aggregate => "aggregate"
  | .encoder => "encoder"
  | .prefill => "prefill"
  | .decode => "decode"

/-- The P/D pipeline of a service. -/
def projectServicePDComponents (service : ModelService) (pools : List ModelPool)
    (groups : List ModelGroup) : Except ProjectionError (List PDComponent × PDPipelineScope) :=
  let ready := stageGroups service pools groups [.prefill, .decode]
  let prefills := ready.filter (·.role = .prefill)
  let decodes := ready.filter (·.role ≠ .prefill)
  match ready.find? fun group => !completePDRuntime group.pdRuntime with
  | some group =>
    .error (.splitRouting service.name ("Ready " ++ roleText group.role ++ " ModelGroup " ++
      quoted group.name ++ " has an incomplete pdRuntime"))
  | none =>
    if prefills = [] ∨ decodes = [] then
      .error (.splitRouting service.name
        "requires at least one Ready prefill ModelGroup and one Ready decode ModelGroup")
    else do
      validatePDGroupPairs service.name prefills decodes
      let pipelineScopeId := "pd:" ++ service.uid
      .ok (pdComponents naming service pools pipelineScopeId (prefills ++ decodes),
        { pipelineScopeId
          prefillRouteTargetIds := sortByOrd (prefills.map (·.uid))
          decodeRouteTargetIds := sortByOrd (decodes.map (·.uid)) })

/-! ### Encoder scopes -/

/-- The groups of an E/P/D pipeline. -/
structure EpdScope where
  encoders : List ModelGroup
  prefills : List ModelGroup
  decodes : List ModelGroup

/-- Split the Ready Groups into scopes: a seed of each stage, and every remaining Group that fits
the seeds. Each round takes its first encoder, so there are at most as many rounds as encoders. -/
def partitionEpd (service : String) : ℕ → List ModelGroup → List ModelGroup → List ModelGroup →
    Except ProjectionError (List EpdScope)
  | _, [], [], [] => .ok []
  | rounds + 1, seedEncoder :: encoders, prefill :: prefills, decode :: decodes =>
    match (prefill :: prefills).find? (compatibleEncoderPrefill seedEncoder) with
    | none => .error (.splitRouting service ("encoder ModelGroup " ++ quoted seedEncoder.name ++
        " has no compatible prefill scope"))
    | some seedPrefill =>
      match (decode :: decodes).find? (compatiblePDGroups seedPrefill) with
      | none => .error (.splitRouting service ("prefill ModelGroup " ++
          quoted seedPrefill.name ++ " has no compatible decode scope"))
      | some seedDecode => do
          let fitsEncoder := fun candidate => compatibleEncoderPrefill candidate seedPrefill
          let fitsPrefill := fun candidate =>
            compatibleEncoderPrefill seedEncoder candidate &&
              compatiblePDGroups candidate seedDecode
          let fitsDecode := compatiblePDGroups seedPrefill
          let otherPrefills := (prefill :: prefills).eraseP (compatibleEncoderPrefill seedEncoder)
          let otherDecodes := (decode :: decodes).eraseP (compatiblePDGroups seedPrefill)
          let scopes ← partitionEpd service rounds (encoders.filter (!fitsEncoder ·))
            (otherPrefills.filter (!fitsPrefill ·)) (otherDecodes.filter (!fitsDecode ·))
          .ok ({ encoders := seedEncoder :: encoders.filter fitsEncoder
                 prefills := seedPrefill :: otherPrefills.filter fitsPrefill
                 decodes := seedDecode :: otherDecodes.filter fitsDecode } :: scopes)
  | _, _, _, _ => .error (.splitRouting service
      "ready E/P/D groups cannot be partitioned into complete compatible scopes")

/-- The route of a group of an E/P/D pipeline. -/
def routingEPDComponent (service : ModelService) (group : ModelGroup) (pool : ModelPool) :
    EPDComponent where
  toGroup := splitRoute naming service pool group
    (if group.role = .prefill ∨ group.role = .decode then { group.features with multimodal := [] }
      else group.features)
  role := group.role
  prefillBootstrapEndpoint :=
    match group.role, group.pdRuntime with
    | .prefill, some pd => modelGroupEndpoint naming group pd.bootstrapPort
    | _, _ => ""
  parallelism := group.parallelism

/-- All groups of the pipeline. -/
def EpdScope.groups (scope : EpdScope) : List ModelGroup :=
  scope.encoders ++ scope.prefills ++ scope.decodes

/-- The scope that is published. -/
def EpdScope.pipelineScope (scope : EpdScope) (service : ModelService) (index : ℕ) :
    EPDPipelineScope where
  pipelineScopeId := "epd:" ++ service.uid ++ ":" ++ toString index
  encoderRouteTargetIds := sortByOrd (scope.encoders.map (·.uid))
  prefillRouteTargetIds := sortByOrd (scope.prefills.map (·.uid))
  decodeRouteTargetIds := sortByOrd (scope.decodes.map (·.uid))

/-- The routes of the groups that have a pool. -/
def epdComponents (service : ModelService) (pools : List ModelPool) (groups : List ModelGroup) :
    List EPDComponent :=
  groups.filterMap fun group =>
    (routingPool pools group).map (routingEPDComponent naming service group)

/-- The E/P/D pipelines of a service. -/
def projectServiceEPDComponents (service : ModelService) (pools : List ModelPool)
    (groups : List ModelGroup) :
    Except ProjectionError (List EPDComponent × List EPDPipelineScope) :=
  let ready := stageGroups service pools groups [.encoder, .prefill, .decode]
  let stage := fun role => sortOn (·.uid) (ready.filter (·.role = role))
  if stage .encoder = [] ∨ stage .prefill = [] ∨ stage .decode = [] then
    .error (.splitRouting service.name
      "requires at least one Ready encoder, prefill, and decode ModelGroup")
  else do
    let scopes ← partitionEpd service.name (stage .encoder).length (stage .encoder)
      (stage .prefill) (stage .decode)
    scopes.forM fun scope => validatePDGroupPairs service.name scope.prefills scope.decodes
    .ok (scopes.flatMap fun scope => epdComponents naming service pools scope.groups,
      scopes.mapIdx fun index scope => scope.pipelineScope service index)

/-! ### All services -/

/-- The routes of a projection. -/
structure Routing where
  groups : List Group := []
  pdComponents : List PDComponent := []
  pdPipelineScopes : List PDPipelineScope := []
  epdComponents : List EPDComponent := []
  epdPipelineScopes : List EPDPipelineScope := []

/-- The routes of an aggregate service. -/
def aggregateRoutes (service : ModelService) (pools : List ModelPool) (groups : List ModelGroup) :
    List Group :=
  pools.flatMap fun pool =>
    (groups.filter fun group =>
      routingGroupOwnedBy group pool && group.revision = servingRevision service pool &&
        routingGroupReady group && group.role = .aggregate).map
      (routingGroupForService naming service pool)

/-- The routes of a service, by the topology of its pools. -/
def serviceRouting (pools : List ModelPool) (groups : List ModelGroup) (service : ModelService) :
    Except ProjectionError Routing :=
  if ¬ service.spec.backend.Served ∨ hasServingCohort service = false then .ok {}
  else
    let servicePools := selectedPools service pools
    if poolsHaveEPD servicePools then do
      let (epdComponents, epdPipelineScopes) ←
        projectServiceEPDComponents naming service servicePools groups
      .ok { epdComponents, epdPipelineScopes }
    else if poolsHavePD servicePools then do
      let (pdComponents, scope) ← projectServicePDComponents naming service servicePools groups
      .ok { pdComponents, pdPipelineScopes := [scope] }
    else .ok { groups := aggregateRoutes naming service servicePools groups }

/-- The topology a record of a model claims, its route target or service, and its identity. -/
structure IdentityRecord where
  topology : String
  routeTargetId : String
  identity : RoutingIdentity

/-- One public model has one topology and one identity. -/
def addIdentityRecord (byModel : Table String IdentityRecord) (current : IdentityRecord) :
    Except ProjectionError (Table String IdentityRecord) :=
  match byModel.lookup current.identity.model with
  | none => .ok (byModel.insert current.identity.model current)
  | some previous =>
    if previous.topology ≠ "" ∧ current.topology ≠ "" ∧ previous.topology ≠ current.topology then
      .error (.routingIdentityConflict ("public model " ++ quoted current.identity.model ++
        " is provided by both " ++ previous.topology ++ " and " ++ current.topology ++ " routes"))
    else if previous.identity ≠ current.identity then
      .error (.routingIdentityConflict ("public model " ++ quoted current.identity.model ++
        " has conflicting " ++ current.topology ++ " route identities " ++
        quoted previous.routeTargetId ++ " and " ++ quoted current.routeTargetId))
    else if previous.topology = "" ∧ current.topology ≠ "" then
      .ok (byModel.insert current.identity.model current)
    else .ok byModel

/-- The artifacts that each model and route serves. -/
def identityRecordsOf (models : List Model) (routing : Routing) : List IdentityRecord :=
  models.map (fun model => ⟨model.topology, model.serviceUid, model.toRoutingIdentity⟩) ++
    routing.groups.map (fun group =>
      ⟨"aggregate", group.routeTargetId, group.toRoutingIdentity⟩) ++
    routing.pdComponents.map (fun component =>
      ⟨"P/D", component.routeTargetId, component.toRoutingIdentity⟩) ++
    routing.epdComponents.map fun component =>
      ⟨"E/P/D", component.routeTargetId, component.toRoutingIdentity⟩

/-- Whoever serves a model must serve the same artifacts. -/
def validateRoutingIdentities (models : List Model) (routing : Routing) :
    Except ProjectionError (Table String IdentityRecord) :=
  (identityRecordsOf models routing).foldlM addIdentityRecord ∅

/-- The routes of the services that could be projected, in the order of their targets. -/
def gatherRouting (parts : List Routing) : Routing where
  groups := sortOn (·.routeTargetId) (parts.flatMap (·.groups))
  pdComponents := sortOn (·.routeTargetId) (parts.flatMap (·.pdComponents))
  pdPipelineScopes := sortOn (·.pipelineScopeId) (parts.flatMap (·.pdPipelineScopes))
  epdComponents := sortOn (·.routeTargetId) (parts.flatMap (·.epdComponents))
  epdPipelineScopes := sortOn (·.pipelineScopeId) (parts.flatMap (·.epdPipelineScopes))

/-- A service whose stages are incomplete contributes no route and does not withdraw those of the
others. -/
def projectableRouting (services : List ModelService) (pools : List ModelPool)
    (groups : List ModelGroup) : Except ProjectionError Routing := do
  let routing := gatherRouting
    (services.filterMap fun service => (serviceRouting naming pools groups service).toOption)
  let _ ← validateRoutingIdentities [] routing
  .ok routing

end Routes

end Foretoken.ServingConfig
