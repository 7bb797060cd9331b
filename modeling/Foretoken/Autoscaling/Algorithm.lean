import Foretoken.Autoscaling.Types

/-!
The compiled algorithms of the three stages (`internal/autoscaling/algorithm`), the history that
stabilizes recommendations (`core/adjustment.go`) and the assembly of an autoscaler.
-/

namespace Foretoken.Autoscaling

/-- `math.MaxInt32`. -/
def maxInt32 : ℤ := 2 ^ 31 - 1

/-! ### Triggers -/

/-- The compiled triggers: `periodic` with its interval. -/
structure TriggerAlgorithm where
  interval : ℤ
  deriving DecidableEq, Repr

/-- The name a configuration selects the trigger by. -/
def TriggerAlgorithm.name (_ : TriggerAlgorithm) : String := "periodic"

/-- The insufficient-data result of metrics that cannot be evaluated. -/
def metricsTriggerDecision (snapshot : ScalingSnapshot) : Option TriggerDecision :=
  match snapshot.metrics.state with
  | .unavailable =>
    some ⟨.insufficientData, .metricsUnavailable, "scaling metrics are unavailable"⟩
  | .stale => some ⟨.insufficientData, .metricsStale, "scaling metrics are stale"⟩
  | .fresh =>
    if snapshot.metrics.windowComplete then none
    else some ⟨.insufficientData, .metricsIncomplete, "scaling metrics are incomplete"⟩
  | .unset => some ⟨.insufficientData, .metricsUnavailable, "scaling metrics are unavailable"⟩

/-- Fire whenever the metrics can be evaluated. -/
def TriggerAlgorithm.decide (_ : TriggerAlgorithm) (snapshot : ScalingSnapshot) :
    TriggerDecision :=
  (metricsTriggerDecision snapshot).getD ⟨.fire, .periodic, "periodic evaluation"⟩

/-! ### Decisions -/

/-- What the thresholds of a token load are measured for. -/
inductive TokenLoadMode where
  | throughput
  | latency
  | load
  deriving DecidableEq, Repr

/-- A token-load policy with its thresholds. -/
structure TokenLoad where
  mode : TokenLoadMode
  prefillUp : Float
  prefillDown : Float
  decodeUp : Float
  decodeDown : Float

/-- The compiled decision algorithms. -/
inductive DecisionAlgorithm where
  | aimd (additiveIncrease multiplicativeDecreasePercent scaleUpQueuedRequests : ℤ)
  | manual
  | queue (targetAverageQueuedRequests : ℤ)
  | queueThreshold (scaleUpQueuedRequests scaleDownQueuedRequests : ℤ)
  | tokenLoad (policy : TokenLoad)

/-- The name a configuration selects the algorithm by. -/
def DecisionAlgorithm.name : DecisionAlgorithm → String
  | .aimd .. => "aimd"
  | .manual => "manual"
  | .queue _ => "queue"
  | .queueThreshold .. => "queue_threshold"
  | .tokenLoad _ => "token_load"

/-- Go's division truncates. -/
def divideRoundUp (value divisor : ℤ) : ℤ :=
  let replicas := value.tdiv divisor
  let replicas := if value.tmod divisor ≠ 0 then replicas + 1 else replicas
  if replicas > maxInt32 then maxInt32 else replicas

/-- Additive increase under queue pressure, multiplicative decrease when idle. -/
def aimdRecommend (additiveIncrease multiplicativeDecreasePercent scaleUpQueuedRequests : ℤ)
    (snapshot : ScalingSnapshot) : ReplicaRecommendation :=
  let current := snapshot.replicas.requestedReplicas
  if snapshot.metrics.waitingRequests > scaleUpQueuedRequests then
    let desired := current + additiveIncrease
    let desired := if desired > maxInt32 then maxInt32 else desired
    ⟨.available, desired, .queuePressure, "queue depth exceeds the AIMD scale-up threshold"⟩
  else if snapshot.metrics.waitingRequests = 0 ∧ snapshot.metrics.activeRequests = 0 then
    ⟨.available, (current * multiplicativeDecreasePercent).tdiv 100, .idle,
      "the idle target is reduced by the AIMD multiplicative factor"⟩
  else ⟨.available, current, .stable, "request activity keeps current AIMD capacity"⟩

/-- The replicas of the ModelService. -/
def manualRecommend (snapshot : ScalingSnapshot) : ReplicaRecommendation :=
  ⟨.available, snapshot.replicas.baselineReplicas, .manualIntent,
    "capacity follows ModelService replicas"⟩

/-- As many replicas as keep the queue at its target average. -/
def queueRecommend (targetAverageQueuedRequests : ℤ) (snapshot : ScalingSnapshot) :
    ReplicaRecommendation :=
  let current := snapshot.replicas.requestedReplicas
  let requests := snapshot.metrics.waitingRequests
  if requests > 0 then
    let desired := divideRoundUp requests targetAverageQueuedRequests
    if desired > current then
      ⟨.available, desired, .queuePressure, "queued requests exceed target average capacity"⟩
    else
      ⟨.available, desired, .queueBelowTarget,
        "queued requests require lower average-value capacity"⟩
  else if snapshot.metrics.activeRequests = 0 then
    ⟨.available, 0, .idle, "the target is idle"⟩
  else ⟨.available, current, .stable, "active requests keep current capacity"⟩

/-- One replica more above a queue depth, one fewer when idle. -/
def queueThresholdRecommend (scaleUpQueuedRequests scaleDownQueuedRequests : ℤ)
    (snapshot : ScalingSnapshot) : ReplicaRecommendation :=
  let current := snapshot.replicas.requestedReplicas
  if snapshot.metrics.waitingRequests > scaleUpQueuedRequests then
    let desired := if current < maxInt32 then current + 1 else current
    ⟨.available, desired, .queuePressure, "queue depth exceeds the scale-up threshold"⟩
  else if snapshot.metrics.waitingRequests ≤ scaleDownQueuedRequests ∧
      snapshot.metrics.activeRequests = 0 then
    let desired := if current - 1 < 0 then 0 else current - 1
    ⟨.available, desired, .idle, "queue depth is within the idle threshold"⟩
  else ⟨.available, current, .stable, "queue depth remains between scaling thresholds"⟩

/-- Go's `math.Max` on values that are not negative. -/
def mathMax (x y : Float) : Float :=
  if x == 1.0 / 0.0 || y == 1.0 / 0.0 then 1.0 / 0.0
  else if x.isNaN || y.isNaN then 0.0 / 0.0
  else if x > y then x else y

namespace TokenLoad

variable (policy : TokenLoad) (role : TargetRole)

/-- The load of one engine. -/
def value (engine : EngineLoad) : Float :=
  match role with
  | .prefill =>
    let value := engine.queuedPrefillTokens.toFloat
    if policy.mode ≠ .load then value / engine.contextLength.toFloat else value
  | .aggregate =>
    (engine.scheduledDecodeKVTokens.toFloat + engine.queuedDecodeKVTokens.toFloat +
      engine.queuedPrefillTokens.toFloat) / engine.kvCapacityTokens.toFloat
  | .decode | .encoder =>
    (engine.scheduledDecodeKVTokens.toFloat + engine.queuedDecodeKVTokens.toFloat) /
      engine.kvCapacityTokens.toFloat

/-- The load above which a role is scaled up. -/
def up : Float := if role = .prefill then policy.prefillUp else policy.decodeUp

/-- The load below which a role may be scaled down. -/
def down : Float := if role = .prefill then policy.prefillDown else policy.decodeDown

/-- A load is above its threshold; some thresholds count themselves. -/
def exceeds (value : Float) : Bool :=
  value > policy.up role ||
    (role = .prefill || policy.mode = .load) && value == policy.up role

/-- A load is below its threshold; some thresholds count themselves. -/
def below (value : Float) : Bool :=
  value < policy.down role ||
    (policy.mode = .load || role = .prefill && policy.mode = .latency) &&
      value == policy.down role

/-- The loop over the engines: one that exceeds its threshold, or the highest load and whether
all are below. -/
def scan : List EngineLoad → Float → Bool → EngineLoad ⊕ Float × Bool
  | [], maximum, allBelow => .inr (maximum, allBelow)
  | engine :: engines, maximum, allBelow =>
    let value := policy.value role engine
    if policy.exceeds role value then .inl engine
    else scan engines (mathMax maximum value) (allBelow && policy.below role value)

/-- The recommendation of a token load. -/
def recommend (snapshot : ScalingSnapshot) : ReplicaRecommendation :=
  let current := snapshot.replicas.requestedReplicas
  let role := snapshot.target.role
  if role = .encoder then
    ⟨.insufficientData, current, .metricsUnavailable,
      "token load does not define an encoder policy"⟩
  else if snapshot.metrics.engineLoads.isEmpty then
    ⟨.insufficientData, current, .metricsUnavailable,
      "token load requires scheduler token observations"⟩
  else
    match policy.scan role snapshot.metrics.engineLoads 0 true with
    | .inl engine =>
      let desired := if current < maxInt32 then current + 1 else current
      ⟨.available, desired, .loadPressure,
        "Group " ++ engine.groupUID ++ " DP rank " ++ toString engine.dataParallelRank ++
          " exceeds its token-load threshold"⟩
    | .inr (maximum, allBelow) =>
      if current > 1 && allBelow &&
          maximum * Float.ofInt current / Float.ofInt (current - 1) < policy.up role then
        ⟨.available, current - 1, .loadBelowTarget,
          "all engines remain below saturation after consolidation"⟩
      else ⟨.available, current, .stable, "engine token load keeps current capacity"⟩

end TokenLoad

/-- No compiled algorithm reports an error of its own. -/
def DecisionAlgorithm.recommendReplicas : DecisionAlgorithm → ScalingSnapshot →
    ReplicaRecommendation
  | .aimd increase percent threshold => aimdRecommend increase percent threshold
  | .manual => manualRecommend
  | .queue target => queueRecommend target
  | .queueThreshold scaleUp scaleDown => queueThresholdRecommend scaleUp scaleDown
  | .tokenLoad policy => policy.recommend

/-! ### Adjustments -/

/-- A value within bounds. -/
def clip (value minimum maximum : ℤ) : ℤ :=
  if value < minimum then minimum else if value > maximum then maximum else value

/-- What is remembered of a target. -/
structure TargetRecommendations where
  retention : ℤ
  /-- The recommendations with their instants, oldest first. -/
  values : List (ℤ × ℤ)
  deriving DecidableEq, Repr

/-- The recommendations of all targets. -/
abbrev RecommendationHistory := Table TargetID TargetRecommendations

/-- Forget what is older than each target's own retention. -/
def forget (history : RecommendationHistory) (now : ℤ) : RecommendationHistory :=
  (history.mapValues fun record =>
    { record with values := record.values.filter fun value => now - record.retention ≤ value.1 }
    ).retain fun _ record => !record.values.isEmpty

/-- The larger recommendations since a cutoff hold back a smaller one. -/
def holdUp (values : List (ℤ × ℤ)) (cutoff recommended : ℤ) : ℤ :=
  values.foldl
    (fun held value => if cutoff ≤ value.1 ∧ value.2 > held then value.2 else held) recommended

/-- The smaller recommendations since a cutoff hold back a larger one. -/
def holdDown (values : List (ℤ × ℤ)) (cutoff recommended : ℤ) : ℤ :=
  values.foldl
    (fun held value => if cutoff ≤ value.1 ∧ value.2 < held then value.2 else held) recommended

/-- A recommendation held back by the recent ones of its target. -/
def conservative (values : List (ℤ × ℤ)) (now current recommended scaleUpWindow
    scaleDownWindow : ℤ) : ℤ :=
  if recommended < current ∧ scaleDownWindow > 0 then
    let held := holdUp values (now - scaleDownWindow) recommended
    if held > current then current else held
  else if recommended > current ∧ scaleUpWindow > 0 then
    let held := holdDown values (now - scaleUpWindow) recommended
    if held < current then current else held
  else recommended

/-- Record a recommendation and hold it back; without a history it is taken as it is. -/
def stabilize (history : Option RecommendationHistory) (target : TargetID) (now current
    recommended scaleUpWindow scaleDownWindow : ℤ) : ℤ × Option RecommendationHistory :=
  match history with
  | none => (recommended, none)
  | some history =>
    let retention := max scaleUpWindow scaleDownWindow
    if retention = 0 then (recommended, some (history.erase target))
    else
      let values := ((history.lookup target).map (·.values)).getD []
      let record : TargetRecommendations := ⟨retention, values ++ [(now, recommended)]⟩
      let history := forget (history.insert target record) now
      -- the record is the target's own, with what was just kept of it
      let values := ((history.lookup target).map (·.values)).getD []
      (conservative values now current recommended scaleUpWindow scaleDownWindow, some history)

/-- The compiled adjustment algorithms. -/
inductive AdjustmentAlgorithm where
  | direct
  | step (scaleUpWindow scaleDownWindow : ℤ)
  deriving DecidableEq, Repr

/-- The name a configuration selects the adjustment by. -/
def AdjustmentAlgorithm.name : AdjustmentAlgorithm → String
  | .direct => "direct"
  | .step .. => "step"

/-- The recommendation within the bounds. -/
def directAdjust (input : AdjustmentInput) : ReplicaAdjustment :=
  ⟨clip input.recommendedReplicas input.limits.minReplicas input.limits.maxReplicas, .direct,
    "replica recommendation is applied directly"⟩

/-- One replica at a time, with the reason of what was done. -/
def limitStep (current raw desired : ℤ) : ReplicaAdjustment :=
  if desired > current + 1 then
    ⟨current + 1, .scaleUpLimited, "replica adjustment is limited to one additional replica"⟩
  else if desired < current - 1 then
    ⟨current - 1, .scaleDownLimited, "replica adjustment is limited to one fewer replica"⟩
  else if desired ≠ raw then
    if raw > current then
      ⟨desired, .scaleUpStabilized, "recent recommendations stabilize scale up"⟩
    else ⟨desired, .scaleDownStabilized, "recent recommendations stabilize scale down"⟩
  else if raw > current then
    ⟨desired, .stepUp, "replica recommendation increases current replicas"⟩
  else if raw < current then
    ⟨desired, .stepDown, "replica recommendation decreases current replicas"⟩
  else ⟨desired, .hold, "replica recommendation keeps current replicas"⟩

/-- One step towards the stabilized recommendation, or to the bound that is violated. -/
def stepAdjust (scaleUpWindow scaleDownWindow : ℤ) (history : Option RecommendationHistory)
    (input : AdjustmentInput) : ReplicaAdjustment × Option RecommendationHistory :=
  if input.currentReplicas < input.limits.minReplicas then
    (⟨input.limits.minReplicas, .scaleUpLimited,
      "current replicas are below the configured minimum"⟩, history)
  else if input.currentReplicas > input.limits.maxReplicas then
    (⟨input.limits.maxReplicas, .scaleDownLimited,
      "current replicas are above the configured maximum"⟩, history)
  else
    let raw := clip input.recommendedReplicas input.limits.minReplicas input.limits.maxReplicas
    let (desired, history) := stabilize history input.target input.evaluatedAt
      input.currentReplicas raw scaleUpWindow scaleDownWindow
    (limitStep input.currentReplicas raw desired, history)

/-- The adjustment of a recommendation, and the history it leaves. -/
def AdjustmentAlgorithm.adjust (history : Option RecommendationHistory)
    (input : AdjustmentInput) :
    AdjustmentAlgorithm → ReplicaAdjustment × Option RecommendationHistory
  | .direct => (directAdjust input, history)
  | .step scaleUpWindow scaleDownWindow =>
    stepAdjust scaleUpWindow scaleDownWindow history input

/-! ### Assembly -/

/-- A stage's choice; an empty name selects its default. -/
structure AlgorithmConfiguration where
  algorithm : String
  parameters : Parameters

/-- The choices of the three stages. -/
structure Configuration where
  decision : AlgorithmConfiguration
  trigger : AlgorithmConfiguration
  adjustment : AlgorithmConfiguration

/-- Checked parameters of `aimd`. -/
def newAIMD (parameters : Parameters) : Except BuildError DecisionAlgorithm := do
  let given ← decodeParameters parameters [("additiveIncrease", .int64),
    ("multiplicativeDecreasePercent", .int64), ("scaleUpQueuedRequests", .int64)]
  let increase : ℤ := ((given "additiveIncrease").map (·.toInt)).getD 1
  let retainedPercent : ℤ := ((given "multiplicativeDecreasePercent").map (·.toInt)).getD 50
  let threshold : ℤ := ((given "scaleUpQueuedRequests").map (·.toInt)).getD 0
  if increase ≤ 0 ∨ increase > maxInt32 then
    throw (.invalidValue "autoscaling AIMD additiveIncrease must be between 1 and 2147483647")
  if retainedPercent ≤ 0 ∨ retainedPercent ≥ 100 then
    throw (.invalidValue
      "autoscaling AIMD multiplicativeDecreasePercent must be between 1 and 99")
  if threshold < 0 then
    throw (.invalidValue "autoscaling AIMD scaleUpQueuedRequests must not be negative")
  return .aimd increase retainedPercent threshold

/-- `manual` takes no parameters. -/
def newManual (parameters : Parameters) : Except BuildError DecisionAlgorithm := do
  let _ ← decodeParameters parameters []
  return .manual

/-- Checked parameters of `queue`. -/
def newQueue (parameters : Parameters) : Except BuildError DecisionAlgorithm := do
  let given ← decodeParameters parameters [("targetAverageQueuedRequests", .int64)]
  let target : ℤ := ((given "targetAverageQueuedRequests").map (·.toInt)).getD 1
  if target ≤ 0 then
    throw (.invalidValue "autoscaling targetAverageQueuedRequests must be positive")
  return .queue target

/-- Checked parameters of `queue_threshold`. -/
def newQueueThreshold (parameters : Parameters) : Except BuildError DecisionAlgorithm := do
  let given ← decodeParameters parameters
    [("scaleUpQueuedRequests", .int64), ("scaleDownQueuedRequests", .int64)]
  let scaleUp : ℤ := ((given "scaleUpQueuedRequests").map (·.toInt)).getD 1
  let scaleDown : ℤ := ((given "scaleDownQueuedRequests").map (·.toInt)).getD 0
  if scaleUp < 0 ∨ scaleDown < 0 ∨ scaleDown > scaleUp then
    throw (.invalidValue "autoscaling queue thresholds are invalid")
  return .queueThreshold scaleUp scaleDown

/-- Checked parameters of `token_load`: a mode, or four thresholds. -/
def newTokenLoad (parameters : Parameters) : Except BuildError DecisionAlgorithm := do
  let given ← decodeParameters parameters [("mode", .string),
    ("prefillScaleUpQueueTokens", .uint64), ("prefillScaleDownQueueTokens", .uint64),
    ("decodeScaleUpTokenRatio", .float64), ("decodeScaleDownTokenRatio", .float64)]
  let mode := ((given "mode").map (·.toText)).getD "throughput"
  let prefillUp := (given "prefillScaleUpQueueTokens").map (·.toInt)
  let prefillDown := (given "prefillScaleDownQueueTokens").map (·.toInt)
  let decodeUp := (given "decodeScaleUpTokenRatio").map (·.toFloat)
  let decodeDown := (given "decodeScaleDownTokenRatio").map (·.toFloat)
  if mode = "throughput" ∨ mode = "latency" then
    if prefillUp.isSome ∨ prefillDown.isSome ∨ decodeUp.isSome ∨ decodeDown.isSome then
      throw (.invalidValue "token_load custom thresholds require mode load")
    if mode = "latency" then return .tokenLoad ⟨.latency, 0.1, 0, 0.4, 0.1⟩
    return .tokenLoad ⟨.throughput, 1, 0.1, 1, 0.6⟩
  else if mode = "load" then
    match prefillUp, prefillDown, decodeUp, decodeDown with
    | some prefillUp, some prefillDown, some decodeUp, some decodeDown =>
      if prefillUp ≤ prefillDown ∨
          !(decodeDown ≥ 0 && decodeUp ≤ 1 && decodeUp > decodeDown) then
        throw (.invalidValue ("token_load scale-up thresholds must exceed scale-down " ++
          "thresholds; token ratios must be in [0, 1]"))
      return .tokenLoad ⟨.load, Float.ofInt prefillUp, Float.ofInt prefillDown, decodeUp,
        decodeDown⟩
    | _, _, _, _ =>
      throw (.invalidValue "token_load mode load requires all four token thresholds")
  else throw (.invalidValue "token_load mode must be throughput, latency, or load")

/-- The decision algorithm of a name. -/
def buildDecision (name : String) (parameters : Parameters) :
    Except BuildError DecisionAlgorithm :=
  match name with
  | "aimd" => newAIMD parameters
  | "manual" => newManual parameters
  | "queue" => newQueue parameters
  | "queue_threshold" => newQueueThreshold parameters
  | "token_load" => newTokenLoad parameters
  | _ => .error (.unknownAlgorithm "decision" name)

section Durations

-- `parseDuration` is Go's `time.ParseDuration`
variable (parseDuration : String → Option ℤ)

section

variable (name : String) (parameters : Parameters)

/-- Checked parameters of `periodic`. -/
def newPeriodic : Except BuildError TriggerAlgorithm := do
  let given ← decodeParameters parameters [("interval", .string)]
  match parseDuration (((given "interval").map (·.toText)).getD "5s") with
  | some interval =>
    if interval ≤ 0 then
      throw (.invalidValue "autoscaling periodic interval must be a positive duration")
    return ⟨interval⟩
  | none => throw (.invalidValue "autoscaling periodic interval must be a positive duration")

/-- `direct` takes no parameters. -/
def newDirect : Except BuildError AdjustmentAlgorithm := do
  let _ ← decodeParameters parameters []
  return .direct

/-- A window of the step adjustment. -/
def stepWindow (given : String) : Except BuildError ℤ :=
  match parseDuration given with
  | some window =>
    if window < 0 then
      .error (.invalidValue
        ("autoscaling step " ++ name ++ " must be a non-negative duration"))
    else .ok window
  | none =>
    .error (.invalidValue ("autoscaling step " ++ name ++ " must be a non-negative duration"))

/-- Checked parameters of `step`. -/
def newStep : Except BuildError AdjustmentAlgorithm := do
  let given ← decodeParameters parameters
    [("scaleUpStabilizationWindow", .string), ("scaleDownStabilizationWindow", .string)]
  let upWindow ← stepWindow parseDuration "scaleUpStabilizationWindow"
    (((given "scaleUpStabilizationWindow").map (·.toText)).getD "0s")
  let downWindow ← stepWindow parseDuration "scaleDownStabilizationWindow"
    (((given "scaleDownStabilizationWindow").map (·.toText)).getD "300s")
  return .step upWindow downWindow

/-- The trigger of a name. -/
def buildTrigger : Except BuildError TriggerAlgorithm :=
  match name with
  | "periodic" => newPeriodic parseDuration parameters
  | _ => .error (.unknownAlgorithm "trigger" name)

/-- The adjustment of a name. -/
def buildAdjustment : Except BuildError AdjustmentAlgorithm :=
  match name with
  | "direct" => newDirect parameters
  | "step" => newStep parseDuration parameters
  | _ => .error (.unknownAlgorithm "adjustment" name)

end

/-- The assembled pipeline; the resolver may allow changes during a transition. -/
structure Autoscaler where
  decision : DecisionAlgorithm
  trigger : Option TriggerAlgorithm
  adjustment : AdjustmentAlgorithm
  allowDuringTransition : Bool
  automatic : Bool

/-- The autoscaler of a configuration; a manual one has no trigger and adjusts directly. -/
def new (configuration : Configuration) : Except BuildError Autoscaler := do
  let decisionName :=
    if configuration.decision.algorithm = "" then "manual" else configuration.decision.algorithm
  let decision ← buildDecision decisionName configuration.decision.parameters
  let automatic := decisionName ≠ "manual"
  let adjustmentName :=
    if !automatic then "direct"
    else if configuration.adjustment.algorithm = "" then "step"
    else configuration.adjustment.algorithm
  let adjustment ← buildAdjustment parseDuration adjustmentName
    configuration.adjustment.parameters
  if !automatic then
    return ⟨decision, none, adjustment, true, false⟩
  let triggerName :=
    if configuration.trigger.algorithm = "" then "periodic" else configuration.trigger.algorithm
  let trigger ← buildTrigger parseDuration triggerName configuration.trigger.parameters
  return ⟨decision, some trigger, adjustment, false, true⟩

end Durations

end Foretoken.Autoscaling
