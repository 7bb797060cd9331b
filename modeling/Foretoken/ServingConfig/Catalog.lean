import Foretoken.ServingConfig.Routes

/-!
The model catalog (`controllers/frontend/catalog.go`, `admission.go`,
`internal/servingconfig/catalog.go`, `internal/compiler/modelservice.go`): one row for every live
service.
-/

namespace Foretoken.ServingConfig

open Foretoken.Router (ModelServerRole ScalingTarget)
open Foretoken.Registry (ModelSource RouterPipelineConfig)

/-! ### Compiled services -/

/-- What discovery reads of a normalized Pool template. -/
structure CompiledPool where
  name : String
  maxInputTokens : Option ℕ
  identity : RoutingIdentity
  backend : Backend
  role : ModelServerRole
  features : ModelFeatures
  deriving DecidableEq, Repr

/-- What the compilers of services and runtimes refuse beyond the checks below, and Go's
`time.ParseDuration` with the canonical text of its result. -/
structure Compilation where
  specError : ModelServiceSpec → Option String
  templateError : CompiledPool → Option String
  parseDuration : String → Option (ℤ × String)

/-- The default revision of a source. -/
def artifactRevision : ModelSource → String
  | .local => "local"
  | .hf => "main"
  | .modelScope => "master"

/-- The artifacts a spec serves, with its defaults. -/
def ModelServiceSpec.identity (spec : ModelServiceSpec) : RoutingIdentity where
  model := spec.model
  source := spec.source.getD .hf
  revision := artifactRevision (spec.source.getD .hf)
  tokenizer := if spec.tokenizer = "" then spec.model else spec.tokenizer
  tokenizerRevision := artifactRevision (spec.source.getD .hf)
  prefixCacheIsolation := spec.prefixCacheIsolation

/-- A pool of a spec, with its defaults. -/
def compilePool (spec : ModelServiceSpec) (entry : ModelPoolTemplate) : CompiledPool where
  name := entry.name
  maxInputTokens := entry.maxInputTokens
  identity := spec.identity
  backend := spec.backend
  role := entry.role.getD .aggregate
  features := entry.features

/-- Aggregate and split roles are exclusive, and split topologies have all their stages. -/
def validateModelPoolRoles (pools : List ModelPoolTemplate) : Except String Unit :=
  let has := fun role => pools.any fun pool => pool.role.getD .aggregate = role
  if has .aggregate && (has .encoder || has .prefill || has .decode) then
    .error "modelPools cannot mix aggregate and split roles"
  else if has .encoder then
    if !has .prefill || !has .decode then
      .error "E/P/D modelPools must contain encoder, prefill, and decode roles"
    else .ok ()
  else if has .prefill ≠ has .decode then
    .error "modelPools must contain both prefill and decode roles"
  else .ok ()

/-- The Pool of a service that does not list any. -/
def defaultPool (spec : ModelServiceSpec) : ModelPoolTemplate where
  name := "default"
  role := some .aggregate
  maxInputTokens := spec.maxInputTokens
  features := spec.features

/-- Unsupported fields of an admission block are refused by name. -/
def validateAdmission (config : Option AdmissionConfig) : Except String Unit :=
  match config with
  | none => .ok ()
  | some config =>
    if config.unrecognizedFields = [] then .ok ()
    else .error ("unsupported admission fields: " ++
      ", ".intercalate (sortByOrd config.unrecognizedFields))

section Catalog

variable (naming : Naming) (compilation : Compilation)

/-- The pools of a spec by name, or the reason why it is rejected. -/
def compileModelService (spec : ModelServiceSpec) : Except String (List CompiledPool) := do
  validateAdmission spec.admission
  match compilation.specError spec with
  | some reason => .error reason
  | none =>
    if spec.modelPools = [] then .ok [compilePool spec (defaultPool spec)]
    else do
      validateModelPoolRoles spec.modelPools
      .ok (sortOn (·.name) (spec.modelPools.map (compilePool spec)))

/-! ### Admission -/

/-- What a frontend is configured with. -/
structure FrontendSpec where
  routerPipeline : RouterPipelineConfig
  requestTimeout : String
  streamIdle : String
  logLevel : String
  admission : Option AdmissionConfig
  roleRules : Option (List RoleRule)
  /-- The ledger of the selected application. -/
  admissionStore : Option String
  deriving DecidableEq, Repr

/-- A queue timeout in its canonical text. -/
def canonicalTimeout (given : String) : Except String String :=
  if given = "" then .ok ""
  else
    match compilation.parseDuration given with
    | some (nanoseconds, text) =>
      if nanoseconds ≤ 0 then .error "queueTimeout must be a positive duration" else .ok text
    | none => .error "queueTimeout must be a positive duration"

/-- Allowed Pools name Pools of the model, and together have every stage. -/
def resolveRoleRule (model : String) (pools : List CompiledPool) (rule : RoleRule) :
    Except String RoleRule :=
  if rule.role = "" then .error "roleRules role must not be empty"
  else if rule.perCaller.maxWaitingRequests = 0 ∨ rule.perCaller.maxConcurrentRequests = 0 then
    .error ("roleRules " ++ quoted rule.role ++ " perCaller capacities must be positive")
  else
    let unknown := rule.allowedPools.find? fun name =>
      model ≠ "" && pools.all (·.name ≠ name)
    match unknown with
    | some name => .error ("roleRules " ++ quoted rule.role ++
        " allowedPools references unknown Pool " ++ quoted name)
    | none =>
      if rule.allowedPools = [] then .ok rule
      else
        let allowed := rule.allowedPools.filterMap fun name => pools.find? (·.name = name)
        match pools.find? fun pool => allowed.all (·.role ≠ pool.role) with
        | some pool => .error ("roleRules " ++ quoted rule.role ++
            " allowedPools has no complete execution path: missing " ++ roleText pool.role ++
            " Pool")
        | none => .ok { rule with allowedPools := orderedSet rule.allowedPools }

/-- Whole blocks of a service replace those of its frontend; video has its own lifecycle. -/
def effectiveModelAdmission (frontend : FrontendSpec) (model : ModelServiceSpec) :
    Except String Admission :=
  if model.backend = .vllmOmni then (compileModelService compilation model).map fun _ => {}
  else do
    let selected := model.admission.or frontend.admission
    validateAdmission selected
    let maxWaitingRequests := selected.bind (·.maxWaitingRequests)
    if maxWaitingRequests = some 0 then .error "maxWaitingRequests must be positive"
    else do
      let queueTimeout ← canonicalTimeout compilation (selected.elim "" (·.queueTimeout))
      let rules := (model.roleRules.or frontend.roleRules).getD []
      if rules = [] then .ok { maxWaitingRequests, queueTimeout }
      else if maxWaitingRequests = none then .error "roleRules requires maxWaitingRequests"
      else do
        let pools ←
          if model.model ≠ "" ∧ ∃ rule ∈ rules, rule.allowedPools ≠ [] then
            (compileModelService compilation model).mapError ("resolve allowedPools: " ++ ·)
          else .ok []
        let resolved ← rules.mapM (resolveRoleRule model.model pools)
        let roleRules := sortOn (·.role) resolved
        match (roleRules.map (·.role)).find? fun role =>
            1 < (roleRules.map (·.role)).count role with
        | some role => .error ("roleRules contains duplicate role " ++ quoted role)
        | none => .ok { maxWaitingRequests, queueTimeout, roleRules }

section

variable (service : ModelService) (pools : List ModelPool) (groups : List ModelGroup)
  (previousModels : List Model)

/-- The Pools whose scaling admits a service's requests. -/
def admissionTargetSetsForService : List (List ScalingTarget) :=
  let targets := sortOn (·.uid) (pools.map fun pool =>
    { serviceUid := service.uid, name := pool.poolName, uid := pool.uid : ScalingTarget })
  if poolsHaveEPD pools then
    if poolsContainCompleteEPD pools then [targets] else []
  else if poolsHavePD pools ∨ (pools = [] ∧ ∃ pool ∈ service.spec.modelPools,
      pool.role = some .prefill ∨ pool.role = some .decode) then
    if (pools.any (·.role = .prefill)) && pools.any (·.role = .decode) then [targets] else []
  else targets.map fun target => [target]

/-! ### Identity of a service -/

deriving instance Ord for ServingPoolRevision

/-- The revisions in the order of the snapshot. -/
def sortedServingPoolRevisions (revisions : List ServingPoolRevision) : List ServingPoolRevision :=
  sortByOrd revisions

/-- The text of the topology that the roles form. -/
def catalogTopology (roles : List ModelServerRole) : String :=
  if .encoder ∈ roles then "E/P/D"
  else if .prefill ∈ roles ∨ .decode ∈ roles then "P/D"
  else "aggregate"

/-- An identity with the capabilities that go with it. -/
structure CatalogIdentity extends RoutingIdentity where
  capabilities : List String
  deriving DecidableEq

/-- Split stages do not take multimodal input themselves. -/
def stageFeatures (role : ModelServerRole) (features : ModelFeatures) : ModelFeatures :=
  if role = .prefill ∨ role = .decode then { features with multimodal := [] } else features

/-- The Groups of a selected revision, also those that drain. -/
def selectedArtifacts
    (selected : ServingPoolRevision) : List ModelGroup :=
  (pools.filter fun pool =>
    modelPoolOwnedBy pool service && pool.uid = selected.poolUid &&
      pool.poolName = selected.poolName).flatMap fun pool =>
    groups.filter fun group => modelGroupOwnedBy group pool && group.revision = selected.revision

/-- What a group serves and can do. -/
def artifactIdentity (group : ModelGroup) : CatalogIdentity where
  toRoutingIdentity := group.artifacts
  capabilities :=
    if group.role = .prefill ∨ group.role = .decode then
      routingCapabilities (stageFeatures group.role group.features)
    else if group.backend = .vllmOmni then ["video"]
    else routingCapabilities group.features

/-- Merge identities that match. -/
def mergeIdentities (reason : String) : List CatalogIdentity →
    Except ProjectionError (Option CatalogIdentity)
  | [] => .ok none
  | identity :: others =>
    if others.all (·.toRoutingIdentity = identity.toRoutingIdentity) then
      .ok (some { identity with
        capabilities := identity.capabilities ++ others.flatMap (·.capabilities) })
    else .error (.routingIdentityConflict reason)

/-- The previous entry of the service, if it selected the same revisions. -/
def retainedModel : Option Model :=
  previousModels.find? fun model =>
    model.serviceUid = service.uid && model.topology ≠ "" &&
      model.selectedPoolRevisions = sortedServingPoolRevisions service.servingPoolRevisions

/-- The identity of the selected cohort. A published identity of the same selection stands in for
missing stages, which keep their topology. -/
def selectedCatalogIdentity : Except ProjectionError (CatalogIdentity × String) :=
  let selected := sortedServingPoolRevisions service.servingPoolRevisions
  let artifacts := selected.flatMap (selectedArtifacts service pools groups)
  let missing := selected.filter fun revision =>
    selectedArtifacts service pools groups revision = []
  let topology := catalogTopology (artifacts.map (·.role))
  match retainedModel service previousModels with
  | some retained =>
    if artifacts ≠ [] ∧ topology ≠ retained.topology ∧
        ¬ (missing ≠ [] ∧ topology = "P/D" ∧ retained.topology = "E/P/D") then
      .error (.routingIdentityConflict ("ModelService " ++ quoted service.name ++
        " selected artifacts conflict with its published topology"))
    else do
      let published : CatalogIdentity :=
        { toRoutingIdentity := retained.toRoutingIdentity
          capabilities := if missing ≠ [] then retained.capabilities else [] }
      let merged ← mergeIdentities ("ModelService " ++ quoted service.name ++
        " has conflicting selected model identities")
          (artifacts.map artifactIdentity ++ [published])
      let identity ← orError merged (.modelCatalog service.name missing)
      .ok (identity, retained.topology)
  | none => do
      let merged ← mergeIdentities ("ModelService " ++ quoted service.name ++
        " has conflicting selected model identities") (artifacts.map artifactIdentity)
      if missing ≠ [] then .error (.modelCatalog service.name missing)
      else do
        let identity ← orError merged (.modelCatalog service.name missing)
        .ok (identity, topology)

/-- What a pool is to serve and can do. -/
def configuredTemplateIdentity (template : CompiledPool) : Except ProjectionError CatalogIdentity :=
  match compilation.templateError template with
  | some reason => .error (.configuration reason)
  | none => .ok
      { toRoutingIdentity := template.identity
        capabilities :=
          if template.backend = .vllmOmni then ["video"]
          else routingCapabilities (stageFeatures template.role template.features) }

/-- The identity and topology of a service; none while its selected artifacts are unavailable. -/
def configuredIdentity (compiled : List CompiledPool) :
    Except ProjectionError (Option (CatalogIdentity × String)) :=
  if service.servingPoolRevisions ≠ [] then
    match selectedCatalogIdentity service pools groups previousModels with
    | .ok identity => .ok (some identity)
    | .error (.modelCatalog _ _) => .ok none
    | .error conflict => .error conflict
  else do
    let identities ← compiled.mapM (configuredTemplateIdentity compilation)
    let merged ← mergeIdentities ("ModelService " ++ quoted service.name ++
      " has conflicting configured model identities") identities
    .ok (merged.map fun identity => (identity, catalogTopology (compiled.map (·.role))))

/-! ### The catalog -/

/-- What the first service of a public model contributed. -/
structure Contribution where
  service : String
  topology : String
  identity : RoutingIdentity

/-- The catalog so far, with the services that share a model. -/
structure CatalogState where
  models : List Model := []
  admission : Table String Admission := ∅
  providers : Table String Contribution := ∅

/-- Bounded admission needs one ledger in the frontend and in every selected backend. -/
def ledgerDeployed (frontend : FrontendSpec) (service : ModelService) (pools : List ModelPool)
    (groups : List ModelGroup) : Bool :=
  match frontend.admissionStore with
  | none => false
  | some store => pools.all fun pool =>
    servingRevision service pool = "" || groups.all fun group =>
      !(modelGroupOwnedBy group pool && group.revision = servingRevision service pool) ||
        group.admissionStore = some store

/-- The first compiled Pool whose live limits have not reached the Pool that carries them. -/
def unmaterialized (compiled : List CompiledPool) (pools : List ModelPool) : Option CompiledPool :=
  compiled.find? fun desired => pools.any fun pool =>
    pool.poolName = desired.name && pool.maxInputTokens ≠ desired.maxInputTokens

/-- The Pools a service's admission reads. -/
def admissionPools : List ModelPool :=
  if service.servingPoolRevisions ≠ [] then selectedPools service pools
  else ownedRoutingPools service pools

/-- The row of a service. -/
def catalogModel (identity : CatalogIdentity)
    (topology : String) : Model where
  toRoutingIdentity := identity.toRoutingIdentity
  serviceName := service.name
  serviceGeneration := service.generation
  serviceUid := service.uid
  routerPipeline := service.spec.routerPipeline
  selectedPoolRevisions := sortedServingPoolRevisions service.servingPoolRevisions
  topology := topology
  capabilities := orderedSet identity.capabilities
  admissionTargetSets := admissionTargetSetsForService service (admissionPools service pools)

end

/-- Enter a row beside those of the other services of its model. -/
def CatalogState.enter (state : CatalogState) (service : ModelService) (config : Admission)
    (row : Model) : Except ProjectionError CatalogState :=
  match state.providers.lookup row.model with
  | some previous =>
    if previous.topology ≠ row.topology ∨ previous.identity ≠ row.toRoutingIdentity ∨
        state.admission.lookup row.model ≠ some config then
      .error (.routingIdentityConflict ("public model " ++ quoted row.model ++
        " has conflicting identity, topology, admission or prefix-cache settings in " ++
        "ModelServices " ++ quoted previous.service ++ " and " ++ quoted service.name))
    else .ok { state with models := state.models ++ [row] }
  | none => .ok
      { models := state.models ++ [row]
        admission := state.admission.insert row.model config
        providers := state.providers.insert row.model
          ⟨service.name, row.topology, row.toRoutingIdentity⟩ }

/-- A service is added to the catalog. -/
def addConfiguredModel (frontend : FrontendSpec) (pools : List ModelPool)
    (groups : List ModelGroup) (previousModels : List Model) (state : CatalogState)
    (service : ModelService) : Except ProjectionError CatalogState :=
  if ¬ service.spec.backend.Served ∨ service.deleting = true then .ok state
  else do
    let config ← (effectiveModelAdmission compilation frontend service.spec).mapError fun reason =>
      .configuration ("ModelService " ++ quoted service.name ++ " admission: " ++ reason)
    let servicePools := ownedRoutingPools service pools
    if config.maxWaitingRequests ≠ none ∧
        ledgerDeployed frontend service servicePools groups = false then
      .error (.backendDeploymentRequired service.name)
    else do
      let compiled ← (compileModelService compilation service.spec).mapError fun reason =>
        .configuration ("compile ModelService " ++ quoted service.name ++ " catalog: " ++ reason)
      match unmaterialized compiled servicePools with
      | some desired => .error (.configuration ("ModelService " ++ quoted service.name ++
          " Pool " ++ quoted desired.name ++ " request limits are not yet materialized"))
      | none => do
        let found ← configuredIdentity compilation service pools groups previousModels compiled
        match found with
        | none => .ok state
        | some (identity, topology) =>
          state.enter service config (catalogModel service pools identity topology)

/-- The models of the catalog and their admission. -/
def projectConfiguredModels (frontend : FrontendSpec) (services : List ModelService)
    (pools : List ModelPool) (groups : List ModelGroup) (previousModels : List Model) :
    Except ProjectionError (List Model × List (String × Admission)) := do
  let state ← services.foldlM
    (addConfiguredModel compilation frontend pools groups previousModels) {}
  .ok (sortOn (fun model => [model.model, model.serviceUid]) state.models, state.admission.toList)

/-! ### One projection -/

/-- The resources one reconcile observes. -/
structure Cluster where
  services : List ModelService
  pools : List ModelPool
  groups : List ModelGroup

/-- A timeout must be a positive number of whole seconds. -/
def wholeDurationSeconds (given : String) : Except ProjectionError ℤ :=
  match compilation.parseDuration given with
  | none => .error (.configuration "parse timeout")
  | some (nanoseconds, _) =>
    if nanoseconds ≤ 0 ∨ nanoseconds % 1000000000 ≠ 0 then
      .error (.configuration "duration must be a positive whole number of seconds")
    else .ok (nanoseconds / 1000000000)

/-- The configuration of the current intent, before it has a version and members. Only services
with a catalog row contribute routes. -/
def projectServing (frontend : FrontendSpec) (cluster : Cluster) (previousModels : List Model) :
    Except ProjectionError Snapshot := do
  let requestTimeoutSeconds ← wholeDurationSeconds compilation frontend.requestTimeout
  let streamIdleSeconds ← wholeDurationSeconds compilation frontend.streamIdle
  let (models, admission) ← projectConfiguredModels compilation frontend cluster.services
    cluster.pools cluster.groups previousModels
  let routingServices := cluster.services.filter fun service =>
    models.any (·.serviceUid = service.uid)
  let routing ← projectableRouting naming routingServices cluster.pools cluster.groups
  let _ ← validateRoutingIdentities models routing
  .ok { settings :=
          { routerPipeline := frontend.routerPipeline
            requestTimeoutSeconds
            streamIdleSeconds
            logLevel := frontend.logLevel }
        version := 0
        frontendInstances := []
        backendInstances := []
        models
        admission
        groups := routing.groups
        pdComponents := routing.pdComponents
        pdPipelineScopes := routing.pdPipelineScopes
        epdComponents := routing.epdComponents
        epdPipelineScopes := routing.epdPipelineScopes }

end Catalog

end Foretoken.ServingConfig
