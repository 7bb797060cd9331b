import Foretoken.Lib.Table

/-!
The records of route selection (`frontend/src/router`, `frontend/src/serving-types`).

A `RouteTarget` is a static route of a model, a `RouteCandidate` one data-parallel rank of it
together with what was observed of it in a round. The statistics of a target are only handed
on to the algorithms and stay a parameter.
-/

namespace Foretoken.Router

/-- Execution responsibility of a route. -/
inductive ModelServerRole where
  | aggregate
  | encoder
  | prefill
  | decode
  deriving DecidableEq, Repr

/-- The name of a route. -/
abbrev RouteTargetId := String

/-- A pool of a service. -/
structure ScalingTarget where
  serviceUid : String
  name : String
  uid : String
  deriving DecidableEq, Repr

/-- A static route record. -/
structure RouteTarget where
  routeTargetId : RouteTargetId
  target : ScalingTarget
  admissionTargets : List ScalingTarget
  model : String
  revision : String
  capabilities : List String
  maxInputTokens : Option ℕ
  ready : Bool
  role : ModelServerRole
  pipelineScopeId : Option String
  dataParallelSize : ℕ
  deriving DecidableEq, Repr

/-! ### Requests -/

/-- The form that an output must have. -/
inductive StructuredOutputConstraint where
  | json
  | jsonObject
  | regex
  | choice
  | grammar
  | structuralTag
  deriving DecidableEq, Repr

/-- What routing reads of a tokenized request: of the features their modalities. -/
structure GenerateRequest where
  requestId : String
  promptTokenIds : List ℕ
  hasLoraRequest : Bool
  structuredOutputs : Option StructuredOutputConstraint
  mmFeatures : Option (List String)
  skipReadingPrefixCache : Option Bool
  hasPromptLogprobs : Bool
  deriving DecidableEq, Repr

/-- The two constructors of a routing request: a tokenized one, or a video under its name. -/
inductive RequestBody where
  | text (request : GenerateRequest)
  | video (requestId : String)
  deriving DecidableEq, Repr

/-- A request with what restricts its routes. -/
structure RouterRequest where
  model : String
  allowedPools : List String
  busyTargets : List (RouteTargetId × ℕ)
  body : RequestBody
  deriving DecidableEq, Repr

namespace RouterRequest

/-- The tokenized request, if it is one. -/
def generateRequest (request : RouterRequest) : Option GenerateRequest :=
  match request.body with
  | .text text => some text
  | .video _ => none

/-- The id of the request. -/
def requestId (request : RouterRequest) : String :=
  match request.body with
  | .text text => text.requestId
  | .video id => id

/-- The tokens of the prompt. -/
def tokenCount (request : RouterRequest) : ℕ :=
  (request.generateRequest.map (·.promptTokenIds.length)).getD 0

/-- Prompt log probabilities turn the prefix cache off. -/
def readsPrefixCache (request : RouterRequest) : Bool :=
  request.generateRequest.any fun text =>
    !text.skipReadingPrefixCache.getD text.hasPromptLogprobs

end RouterRequest

/-! ### Candidates -/

/-- What a frontend has reserved at a target and rank. -/
structure RoutingLoadSnapshot where
  requests : Int64
  tokens : Int64
  deriving DecidableEq

/-- A request that was routed to a target and rank. -/
structure ActiveSequence where
  request : Option GenerateRequest
  prefixShareable : Bool
  prefillTokens : ℕ
  outputTokens : ℕ
  deriving DecidableEq, Repr

/-- A rank of a route in a round. -/
structure RouteCandidate (Stats : Type) where
  routeTargetId : RouteTargetId
  target : ScalingTarget
  admissionTargets : List ScalingTarget
  role : ModelServerRole
  model : String
  revision : String
  pipelineScopeId : Option String
  dataParallelRank : ℕ
  kvBlockSize : Option ℕ
  prefixCacheEnabled : Option Bool
  routeTargetStats : Option Stats
  localLoad : RoutingLoadSnapshot
  activeSequences : List ActiveSequence
  stageEligible : Bool

/-- A candidate and its score. -/
structure ScoredCandidate (Stats Score : Type) where
  candidate : RouteCandidate Stats
  score : Score

/-- A backend that offers cached blocks of the prompt. -/
structure KvReuseSource where
  routeTargetId : String
  modelServerEndpoint : String
  dpRank : ℕ
  instanceId : String
  offerId : String
  matchedTokens : ℕ
  deriving DecidableEq, Repr

/-- Where a stage is to run. -/
structure RouteDecision where
  routeTargetId : RouteTargetId
  admissionTargets : List ScalingTarget
  role : ModelServerRole
  model : String
  revision : String
  dataParallelRank : ℕ
  kvSource : Option KvReuseSource
  deriving DecidableEq, Repr

/-- The roles that must run after a role. -/
def ModelServerRole.futureStages : ModelServerRole → List ModelServerRole
  | .aggregate | .decode => []
  | .prefill => [.decode]
  | .encoder => [.prefill, .decode]

/-- The decision for a candidate, without a source. -/
def RouteCandidate.decision {Stats : Type} (candidate : RouteCandidate Stats) : RouteDecision where
  routeTargetId := candidate.routeTargetId
  admissionTargets := candidate.admissionTargets
  role := candidate.role
  model := candidate.model
  revision := candidate.revision
  dataParallelRank := candidate.dataParallelRank
  kvSource := none

/-! ### Rounds -/

/-- The selections of a session. -/
inductive RoutingStage where
  | initial
  | prefill
  | decode
  deriving DecidableEq, Repr

/-- What the algorithms see of a session. -/
structure RoutingProgress where
  snapshotVersion : ℕ
  currentStage : RoutingStage
  completedStages : List ModelServerRole
  pipelineScopeId : Option String
  deriving DecidableEq, Repr

/-- Why nothing is selected. -/
inductive RouteError where
  | busy
  | noCompatibleTarget (model : String)
  | noMatchingDecode (model : String)
  | invalidFilterIndex (index : ℕ)
  | duplicateFilterIndex (index : ℕ)
  | invalidScorerResult (expected actual : ℕ)
  | emptyPickerResult
  | invalidPickerIndex (index : ℕ)
  | prefillBeforeEncoder
  | decodeBeforePrefill
  deriving DecidableEq, Repr

end Foretoken.Router
