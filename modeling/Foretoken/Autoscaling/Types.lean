import Foretoken.Lib.Table

/-!
The records of the autoscaling pipeline (`control-plane/internal/autoscaling/core`).

Replica counts are integers; the code's `int32` bounds appear where it caps a sum. Instants and
durations are nanoseconds. A string type of the code with named constants is an enumeration, with
`unset` for its zero value where a zero value is ever read.
-/

namespace Foretoken.Autoscaling

/-- Where a decision takes a target. -/
inductive Direction where
  | up
  | down
  | hold
  deriving DecidableEq, Repr

/-- The stage that a target serves. -/
inductive TargetRole where
  | aggregate
  | encoder
  | prefill
  | decode
  deriving DecidableEq, Repr

/-- The identity of a target; its kind is always a Pool. -/
structure TargetID where
  serviceNamespace : String
  serviceName : String
  serviceUID : String
  name : String
  uid : String
  role : TargetRole
  deriving DecidableEq, Repr

/-- How good the observed metrics are. -/
inductive MetricsState where
  | unset
  | unavailable
  | fresh
  | stale
  deriving DecidableEq, Repr

/-- One scheduler sample. -/
structure EngineLoad where
  groupUID : String
  dataParallelRank : ℕ
  queuedPrefillTokens : UInt64
  scheduledDecodeKVTokens : UInt64
  queuedDecodeKVTokens : UInt64
  contextLength : UInt64
  kvCapacityTokens : UInt64
  deriving DecidableEq

/-- What the algorithms read of the observed metrics. -/
structure MetricsSnapshot where
  state : MetricsState
  windowComplete : Bool
  waitingRequests : ℤ
  activeRequests : ℤ
  engineLoads : List EngineLoad
  deriving DecidableEq

/-- The replicas of a target. -/
structure ReplicaState where
  baselineReplicas : ℤ
  requestedReplicas : ℤ
  transitioning : Bool
  deriving DecidableEq, Repr

/-- The configured bounds of a target. -/
structure ReplicaLimits where
  minReplicas : ℤ
  maxReplicas : ℤ
  deriving DecidableEq, Repr

/-- A target as one evaluation sees it. -/
structure ScalingSnapshot where
  target : TargetID
  evaluatedAt : ℤ
  replicas : ReplicaState
  limits : ReplicaLimits
  metrics : MetricsSnapshot
  deriving DecidableEq

/-! ### What the stages return -/

/-- Whether a target is to be evaluated. -/
inductive TriggerDisposition where
  | unset
  | fire
  | insufficientData
  deriving DecidableEq, Repr

/-- Why a trigger decides as it does. -/
inductive TriggerReason where
  | unset
  | periodic
  | metricsUnavailable
  | metricsStale
  | metricsIncomplete
  deriving DecidableEq, Repr

/-- The result of the trigger stage. -/
structure TriggerDecision where
  disposition : TriggerDisposition
  reason : TriggerReason
  message : String
  deriving DecidableEq, Repr

/-- Whether a decision algorithm had the data it needs. -/
inductive RecommendationState where
  | unset
  | available
  | insufficientData
  deriving DecidableEq, Repr

/-- Why an algorithm recommends what it does. -/
inductive RecommendationReason where
  | manualIntent
  | queuePressure
  | queueBelowTarget
  | idle
  | stable
  | metricsUnavailable
  | metricsStale
  | metricsIncomplete
  | loadPressure
  | loadBelowTarget
  deriving DecidableEq, Repr

/-- The result of the decision stage. -/
structure ReplicaRecommendation where
  state : RecommendationState
  replicas : ℤ
  reason : RecommendationReason
  message : String
  deriving DecidableEq, Repr

/-- Why an adjustment is what it is. -/
inductive AdjustmentReason where
  | direct
  | stepUp
  | stepDown
  | scaleUpLimited
  | scaleDownLimited
  | scaleUpStabilized
  | scaleDownStabilized
  | hold
  deriving DecidableEq, Repr

/-- What an adjustment algorithm reads. -/
structure AdjustmentInput where
  target : TargetID
  evaluatedAt : ℤ
  currentReplicas : ℤ
  recommendedReplicas : ℤ
  limits : ReplicaLimits

/-- The result of the adjustment stage. -/
structure ReplicaAdjustment where
  replicas : ℤ
  reason : AdjustmentReason
  message : String
  deriving DecidableEq, Repr

/-- What kept a decision from its adjustment. -/
inductive ConstraintReason where
  | unset
  | atMinimum
  | atMaximum
  | transitionInProgress
  deriving DecidableEq, Repr

/-- The planned replicas of a target, with the results of all stages. -/
structure ScalingDecision where
  target : TargetID
  decisionAlgorithm : String
  adjustmentAlgorithm : String
  recommendation : ReplicaRecommendation
  adjustment : ReplicaAdjustment
  appliedReplicas : ℤ
  direction : Direction
  constraint : ConstraintReason
  message : String
  trigger : TriggerDecision
  deriving DecidableEq, Repr

/-- The errors of an evaluation, with the values their texts show. -/
inductive PlanError where
  | duplicateTarget (name : String)
  | triggerRequired
  | invalidDisposition (trigger : String) (disposition : TriggerDisposition) (target : String)
  | invalidBounds (target : String)
  | negativeReplicas (target : String)
  | invalidState (decision : String) (state : RecommendationState) (target : String)
  | outsideBounds (adjustment : String) (replicas : ℤ) (target : String)
      (minReplicas maxReplicas : ℤ)
  | insteadOfHardBound (adjustment : String) (replicas : ℤ) (target : String) (bound : ℤ)
  deriving DecidableEq, Repr

/-! ### Parameters -/

/-- A parameter's JSON value, as far as the declared fields tell values apart. -/
inductive ParameterValue where
  | null
  | integer (value : ℤ)
  | real (value : Float)
  | text (value : String)
  | other

/-- The optional parameters object of a stage. -/
inductive Parameters where
  | absent
  | notObject
  | object (fields : Table String ParameterValue)

/-- The types a declared parameter is decoded to. -/
inductive FieldType where
  | int64
  | uint64
  | float64
  | string
  deriving DecidableEq, Repr

/-- Why a configuration is rejected. -/
inductive BuildError where
  | unknownAlgorithm (stage name : String)
  | parametersNotObject
  | unknownParameter (name : String)
  | nullParameter (name : String)
  | invalidParameter (name : String)
  | invalidValue (message : String)
  deriving DecidableEq, Repr

/-- Whether Go's decoder takes a value for a field; a number must round to a finite `float64`. -/
def FieldType.accepts : FieldType → ParameterValue → Bool
  | .int64, .integer value => -2 ^ 63 ≤ value && value < 2 ^ 63
  | .uint64, .integer value => 0 ≤ value && value < 2 ^ 64
  | .float64, .integer value => |value| < 2 ^ 1024 - 2 ^ 970
  | .float64, .real value => value.isFinite
  | .string, .text _ => true
  | _, _ => false

/-- The declared parameters that are given; the omitted ones keep their defaults. -/
def decodeParameters (parameters : Parameters) (fields : List (String × FieldType)) :
    Except BuildError (String → Option ParameterValue) :=
  match parameters with
  | .absent => .ok fun _ => none
  | .notObject => .error .parametersNotObject
  | .object given => do
      for entry in given.entries do
        match fields.lookup entry.1 with
        | none => throw (.unknownParameter entry.1)
        | some type =>
          match entry.2 with
          | .null => throw (.nullParameter entry.1)
          | value => if !type.accepts value then throw (.invalidParameter entry.1)
      return fun name => given.lookup name

/-- A decoded integer. -/
def ParameterValue.toInt : ParameterValue → ℤ
  | .integer value => value
  | _ => 0

/-- A decoded number. -/
def ParameterValue.toFloat : ParameterValue → Float
  | .integer value => Float.ofInt value
  | .real value => value
  | _ => 0

/-- A decoded string. -/
def ParameterValue.toText : ParameterValue → String
  | .text value => value
  | _ => ""

end Foretoken.Autoscaling
