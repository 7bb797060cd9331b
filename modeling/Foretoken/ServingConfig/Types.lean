import Foretoken.Registry.Snapshot

/-!
The serving configuration as the controller builds it (`internal/servingconfig/types.go` and
`equality.go`), and the API objects it is built from (`api/v1alpha1`).
-/

namespace Foretoken.ServingConfig

open Foretoken.Router (ModelServerRole RouteTargetId ScalingTarget)
open Foretoken.Registry (ModelSource KvConnector RouterPipelineConfig ModelRouterPipeline)

/-! ### The snapshot -/

/-- The settings of a frontend. -/
structure Settings where
  routerPipeline : RouterPipelineConfig
  requestTimeoutSeconds : ℤ
  streamIdleSeconds : ℤ
  logLevel : String
  deriving DecidableEq, Repr

/-- How much a caller may have admitted. -/
structure CallerCapacity where
  maxWaitingRequests : ℕ
  maxConcurrentRequests : ℕ
  deriving DecidableEq, Repr

/-- The admission of the callers with a role. -/
structure RoleRule where
  role : String
  priority : ℤ
  perCaller : CallerCapacity
  allowedPools : List String
  deriving DecidableEq, Repr

/-- The resolved admission of a model. -/
structure Admission where
  maxWaitingRequests : Option ℕ := none
  queueTimeout : String := ""
  roleRules : List RoleRule := []
  deriving DecidableEq, Repr

/-- The revision of a pool that a service selected. -/
structure ServingPoolRevision where
  poolName : String
  poolUid : String
  revision : String
  deriving DecidableEq, Repr

/-- What compatible routes and the catalog share. -/
structure RoutingIdentity where
  model : String
  source : ModelSource
  revision : String
  tokenizer : String
  tokenizerRevision : String
  prefixCacheIsolation : Option Bool
  deriving DecidableEq, Repr

/-- One service behind a public model. -/
structure Model extends RoutingIdentity where
  serviceName : String
  serviceGeneration : ℤ
  serviceUid : String
  routerPipeline : Option ModelRouterPipeline
  selectedPoolRevisions : List ServingPoolRevision
  topology : String
  capabilities : List String
  admissionTargetSets : List (List ScalingTarget)
  deriving DecidableEq, Repr

/-- A route. -/
structure Group extends RoutingIdentity where
  routeTargetId : RouteTargetId
  serviceUid : String
  poolUid : String
  poolName : String
  maxInputTokens : Option ℕ
  capabilities : List String
  endpoint : String
  kvScopeId : String
  kvLookupScope : String
  dataParallelSize : ℕ
  deriving DecidableEq, Repr

/-- The sizes of the parallel dimensions. -/
structure Parallelism where
  tp : ℕ
  pp : ℕ
  dp : ℕ
  pcp : ℕ
  dcp : ℕ
  ep : Bool
  deriving DecidableEq, Repr

/-- A route of a P/D pipeline. -/
structure PDComponent extends Group where
  role : ModelServerRole
  pipelineScopeId : String
  connector : KvConnector
  protocol : String
  prefillBootstrapEndpoint : String
  parallelism : Parallelism
  deriving DecidableEq, Repr

/-- The routes of a P/D pipeline. -/
structure PDPipelineScope where
  pipelineScopeId : String
  prefillRouteTargetIds : List RouteTargetId
  decodeRouteTargetIds : List RouteTargetId
  deriving DecidableEq, Repr

/-- A route of an E/P/D pipeline. -/
structure EPDComponent extends Group where
  role : ModelServerRole
  prefillBootstrapEndpoint : String
  parallelism : Parallelism
  deriving DecidableEq, Repr

/-- The routes of an E/P/D pipeline. -/
structure EPDPipelineScope where
  pipelineScopeId : String
  encoderRouteTargetIds : List RouteTargetId
  prefillRouteTargetIds : List RouteTargetId
  decodeRouteTargetIds : List RouteTargetId
  deriving DecidableEq, Repr

/-- The published configuration of a frontend. The admission map is listed in the order of its
keys, as its payload is. -/
structure Snapshot where
  settings : Settings
  version : ℕ
  frontendInstances : List String
  backendInstances : List String
  models : List Model
  admission : List (String × Admission)
  groups : List Group
  pdComponents : List PDComponent
  pdPipelineScopes : List PDPipelineScope
  epdComponents : List EPDComponent
  epdPipelineScopes : List EPDPipelineScope
  deriving DecidableEq, Repr

namespace Snapshot

/-- Every field but the version is compared. -/
def SameConfiguration (snapshot other : Snapshot) : Prop :=
  snapshot.settings = other.settings ∧
    snapshot.frontendInstances = other.frontendInstances ∧
    snapshot.backendInstances = other.backendInstances ∧
    snapshot.admission = other.admission ∧ snapshot.models = other.models ∧
    snapshot.groups = other.groups ∧ snapshot.pdComponents = other.pdComponents ∧
    snapshot.pdPipelineScopes = other.pdPipelineScopes ∧
    snapshot.epdComponents = other.epdComponents ∧
    snapshot.epdPipelineScopes = other.epdPipelineScopes

instance (snapshot other : Snapshot) : Decidable (snapshot.SameConfiguration other) :=
  inferInstanceAs (Decidable (_ ∧ _))

/-- The snapshot under another version. -/
def withVersion (snapshot : Snapshot) (version : ℕ) : Snapshot := { snapshot with version }

/-- The snapshot with other members. -/
def withMembers (snapshot : Snapshot) (frontendInstances backendInstances : List String) :
    Snapshot :=
  { snapshot with frontendInstances, backendInstances }

lemma sameConfiguration_iff {S y : Snapshot} :
    S.SameConfiguration y ↔ S.withVersion 0 = y.withVersion 0 := by
  rw [SameConfiguration, Snapshot.mk.injEq]
  tauto

namespace SameConfiguration

variable {a b c : Snapshot}

lemma refl (a : Snapshot) : a.SameConfiguration a := sameConfiguration_iff.mpr rfl

lemma symm (h : a.SameConfiguration b) : b.SameConfiguration a :=
  sameConfiguration_iff.mpr (sameConfiguration_iff.mp h).symm

lemma trans (hab : a.SameConfiguration b) (hbc : b.SameConfiguration c) : a.SameConfiguration c :=
  sameConfiguration_iff.mpr ((sameConfiguration_iff.mp hab).trans (sameConfiguration_iff.mp hbc))

lemma withMembers (h : a.SameConfiguration b) (frontendInstances backendInstances : List String) :
    (a.withMembers frontendInstances backendInstances).SameConfiguration
      (b.withMembers frontendInstances backendInstances) := by
  rw [sameConfiguration_iff] at h ⊢
  exact congrArg (fun s => Snapshot.withMembers s frontendInstances backendInstances) h

end SameConfiguration

end Snapshot

/-! ### API objects -/

/-- The API kinds of owner references that are compared. -/
inductive OwnerKind where
  | modelService
  | modelPool
  | modelGroup
  | frontendService
  | deployment
  | replicaSet
  | statefulSet
  | leaderWorkerSet
  | pod
  | other
  deriving DecidableEq, Repr

/-- An owner of an object. -/
structure OwnerReference where
  kind : OwnerKind
  name : String
  uid : String
  controller : Bool
  deriving DecidableEq, Repr

/-- The controlling owner is the given object. -/
def controllerOwnerMatches (owners : List OwnerReference) (kind : OwnerKind) (name uid : String) :
    Bool :=
  owners.any fun owner =>
    owner.controller && owner.kind = kind && owner.name = name && owner.uid = uid

/-- The controller reference of an object. -/
def controllerOf (owners : List OwnerReference) : Option OwnerReference :=
  owners.find? (·.controller)

/-- A reference that also fixes the object's uid. -/
structure LocalObjectReference where
  name : String
  uid : String
  deriving DecidableEq, Repr

/-- The engine of a service. -/
inductive Backend where
  | vllm
  | vllmOmni
  | other (name : String)
  deriving DecidableEq, Repr

/-- The engines a frontend can route to. -/
def Backend.Served (backend : Backend) : Prop := backend = .vllm ∨ backend = .vllmOmni

instance (backend : Backend) : Decidable backend.Served := inferInstanceAs (Decidable (_ ∨ _))

/-- A form that an output can be forced to. -/
inductive StructuredOutputFormat where
  | jsonObject
  | jsonSchema
  | structuralTag
  deriving DecidableEq, Repr

/-- An input besides text. -/
inductive MultimodalModality where
  | image
  deriving DecidableEq, Repr

/-- What a model can do. -/
structure ModelFeatures where
  tools : Bool := false
  reasoning : Bool := false
  structuredOutputs : List StructuredOutputFormat := []
  multimodal : List MultimodalModality := []
  deriving DecidableEq, Repr

/-- Unsupported fields of an admission block are kept by name, so that they can be refused. -/
structure AdmissionConfig where
  maxWaitingRequests : Option ℕ := none
  queueTimeout : String := ""
  unrecognizedFields : List String := []
  deriving DecidableEq, Repr

/-- A pool as a service asks for it. -/
structure ModelPoolTemplate where
  name : String
  role : Option ModelServerRole
  maxInputTokens : Option ℕ
  features : ModelFeatures
  deriving DecidableEq, Repr

/-- What a service is configured with. -/
structure ModelServiceSpec where
  model : String
  source : Option ModelSource
  tokenizer : String
  backend : Backend
  prefixCacheIsolation : Option Bool
  admission : Option AdmissionConfig
  roleRules : Option (List RoleRule)
  routerPipeline : Option ModelRouterPipeline
  maxInputTokens : Option ℕ
  features : ModelFeatures
  modelPools : List ModelPoolTemplate
  deriving DecidableEq, Repr

/-- A service and the pool revisions it selected. -/
structure ModelService where
  name : String
  uid : String
  generation : ℤ
  deleting : Bool
  spec : ModelServiceSpec
  servingPoolRevisions : List ServingPoolRevision
  deriving DecidableEq, Repr

/-- A pool of a service. -/
structure ModelPool where
  name : String
  uid : String
  deleting : Bool
  owners : List OwnerReference
  modelServiceRef : LocalObjectReference
  poolName : String
  maxInputTokens : Option ℕ
  role : ModelServerRole
  deriving DecidableEq, Repr

/-- How a group transfers cached blocks. -/
structure ModelGroupPDRuntimeConfig where
  serviceUid : String
  connector : KvConnector
  protocol : String
  bootstrapPort : ℤ
  abortRequestTimeoutSeconds : ℤ
  deriving DecidableEq, Repr

/-- The ends of the encoder cache. -/
inductive ECTransferRole where
  | producer
  | consumer
  deriving DecidableEq, Repr

/-- How a group shares the encoder cache. -/
structure ModelGroupECRuntimeConfig where
  generation : ℤ
  serviceUid : String
  profileName : String
  profileRevision : String
  connector : String
  role : ECTransferRole
  sharedStorageClaim : String
  sharedStoragePath : String
  deriving DecidableEq, Repr

/-- The ready condition of a Group, when it has one. -/
structure ReadyCondition where
  status : Bool
  observedGeneration : ℤ
  deriving DecidableEq, Repr

/-- A Group with its runtime. Its artifacts are listed with the cache isolation of the runtime. The
ledger connection and the engine arguments are only compared: their canonical texts stand for
them. Of a KV runtime the UID of its Mooncake store's service is read. -/
structure ModelGroup where
  name : String
  ns : String
  uid : String
  generation : ℤ
  deleting : Bool
  owners : List OwnerReference
  modelPoolRef : LocalObjectReference
  revision : String
  role : ModelServerRole
  artifacts : RoutingIdentity
  backend : Backend
  image : String
  port : ℤ
  admissionStore : Option String
  engineArgs : Table String String
  pdRuntime : Option ModelGroupPDRuntimeConfig
  ecRuntime : Option ModelGroupECRuntimeConfig
  mooncakeStore : Option String
  nodeCount : ℕ
  memberCount : ℕ
  parallelism : Parallelism
  features : ModelFeatures
  ready : Option ReadyCondition
  readyMembers : ℕ
  deriving DecidableEq

end Foretoken.ServingConfig
