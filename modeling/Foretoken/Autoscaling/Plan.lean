import Foretoken.Lib.Checked
import Foretoken.Autoscaling.Algorithm

/-!
Planning (`core/pipeline.go`, `core/result.go`): every target passes through trigger, decision,
adjustment and resolution.
-/

namespace Foretoken.Autoscaling

open List ScalingSnapshot DecisionAlgorithm ConstraintReason

variable {Ss : List ScalingSnapshot}

/-! ### The pipeline -/

/-- Why there is no recommendation when a trigger does not fire. -/
def recommendationReason : TriggerReason → RecommendationReason
  | .metricsUnavailable => .metricsUnavailable
  | .metricsStale => .metricsStale
  | .metricsIncomplete => .metricsIncomplete
  | .periodic | .unset => .stable

/-- The direction of a change of capacity. -/
def direction (current desired : ℤ) : Direction :=
  if desired > current then .up else if desired < current then .down else .hold

/-- The checks of a snapshot. -/
def validateSnapshot (snapshot : ScalingSnapshot) : Except PlanError Unit :=
  if snapshot.limits.minReplicas < 0 ∨
      snapshot.limits.maxReplicas < snapshot.limits.minReplicas then
    .error (.invalidBounds snapshot.target.name)
  else if snapshot.replicas.baselineReplicas < 0 ∨ snapshot.replicas.requestedReplicas < 0 then
    .error (.negativeReplicas snapshot.target.name)
  else .ok ()

/-- The capacity before the transition check, with its constraint and message. -/
def resolveBounds (snapshot : ScalingSnapshot) (recommendation : ReplicaRecommendation)
    (adjustment : ReplicaAdjustment) : ℤ × ConstraintReason × String :=
  let current := snapshot.replicas.requestedReplicas
  if current < snapshot.limits.minReplicas then
    (snapshot.limits.minReplicas, .atMinimum, adjustment.message)
  else if current > snapshot.limits.maxReplicas then
    (snapshot.limits.maxReplicas, .atMaximum, adjustment.message)
  else if recommendation.state = .available then
    (adjustment.replicas, .unset, adjustment.message)
  else (current, .unset, recommendation.message)

/-- The transition check, and the decision. -/
def holdTransition (allowDuringTransition : Bool) (snapshot : ScalingSnapshot)
    (decisionName : String) (recommendation : ReplicaRecommendation) (adjustmentName : String)
    (adjustment : ReplicaAdjustment) (bounded : ℤ × ConstraintReason × String) :
    ScalingDecision :=
  let current := snapshot.replicas.requestedReplicas
  let (applied, constraint, message) :=
    if bounded.2.1 = .unset ∧ snapshot.replicas.transitioning ∧ ¬ allowDuringTransition ∧
        bounded.1 ≠ current then
      (current, transitionInProgress,
        "replica transition is in progress; holding current replicas")
    else bounded
  { target := snapshot.target
    decisionAlgorithm := decisionName
    adjustmentAlgorithm := adjustmentName
    recommendation := recommendation
    adjustment := adjustment
    appliedReplicas := applied
    direction := direction current applied
    constraint := constraint
    message := message
    trigger := ⟨.unset, .unset, ""⟩ }

/-- Bounds and transition over an adjustment, and the checks of what the stages returned. -/
def resolve (allowDuringTransition : Bool) (snapshot : ScalingSnapshot) (decisionName : String)
    (recommendation : ReplicaRecommendation) (adjustmentName : String)
    (adjustment : ReplicaAdjustment) : Except PlanError ScalingDecision :=
  match validateSnapshot snapshot with
  | .error e => .error e
  | .ok () =>
    if recommendation.state ≠ .available ∧ recommendation.state ≠ .insufficientData then
      .error (.invalidState decisionName recommendation.state snapshot.target.name)
    else
      let bounded := resolveBounds snapshot recommendation adjustment
      if bounded.1 < snapshot.limits.minReplicas ∨ bounded.1 > snapshot.limits.maxReplicas then
        .error (.outsideBounds adjustmentName bounded.1 snapshot.target.name
          snapshot.limits.minReplicas snapshot.limits.maxReplicas)
      else if bounded.2.1 ≠ .unset ∧ adjustment.replicas ≠ bounded.1 then
        .error (.insteadOfHardBound adjustmentName adjustment.replicas snapshot.target.name
          bounded.1)
      else
        .ok (holdTransition allowDuringTransition snapshot decisionName recommendation
          adjustmentName adjustment bounded)

/-- The requested capacity is outside the bounds. -/
def ScalingSnapshot.OutsideBounds (snapshot : ScalingSnapshot) : Prop :=
  snapshot.replicas.requestedReplicas < snapshot.limits.minReplicas ∨
    snapshot.replicas.requestedReplicas > snapshot.limits.maxReplicas

instance (snapshot : ScalingSnapshot) : Decidable snapshot.OutsideBounds :=
  inferInstanceAs (Decidable (_ ∨ _))

namespace Autoscaler

variable (autoscaler : Autoscaler)

/-- The trigger and decision stages. -/
def recommend (snapshot : ScalingSnapshot) :
    Except PlanError (TriggerDecision × ReplicaRecommendation) :=
  if autoscaler.automatic then
    match autoscaler.trigger with
    | none => .error .triggerRequired
    | some algorithm =>
      let trigger := algorithm.decide snapshot
      match trigger.disposition with
      | .fire => .ok (trigger, autoscaler.decision.recommendReplicas snapshot)
      | .insufficientData =>
        .ok (trigger, ⟨.insufficientData, snapshot.replicas.requestedReplicas,
          recommendationReason trigger.reason, trigger.message⟩)
      | .unset =>
        .error (.invalidDisposition algorithm.name trigger.disposition snapshot.target.name)
  else .ok (⟨.unset, .unset, ""⟩, autoscaler.decision.recommendReplicas snapshot)

/-- The adjustment stage; a recommendation for want of data is only adjusted to the bounds. -/
def adjust (history : Option RecommendationHistory) (snapshot : ScalingSnapshot)
    (recommendation : ReplicaRecommendation) :
    ReplicaAdjustment × Option RecommendationHistory :=
  if recommendation.state = .available ∨ snapshot.OutsideBounds then
    autoscaler.adjustment.adjust history
      { target := snapshot.target
        evaluatedAt := snapshot.evaluatedAt
        currentReplicas := snapshot.replicas.requestedReplicas
        recommendedReplicas := recommendation.replicas
        limits := snapshot.limits }
  else
    (⟨snapshot.replicas.requestedReplicas, .hold, "replica adjustment is not required"⟩, history)

/-- One target through all stages. -/
def evaluate (history : Option RecommendationHistory) (snapshot : ScalingSnapshot) :
    Except PlanError ScalingDecision × Option RecommendationHistory :=
  match autoscaler.recommend snapshot with
  | .error e => (.error e, history)
  | .ok (trigger, recommendation) =>
    let (adjustment, history) := autoscaler.adjust history snapshot recommendation
    let result := resolve autoscaler.allowDuringTransition snapshot autoscaler.decision.name
      recommendation autoscaler.adjustment.name adjustment
    (result.map fun decision =>
      if autoscaler.automatic then { decision with trigger := trigger } else decision, history)

/-- The loop over the targets, with those seen before. -/
def planFrom : Option RecommendationHistory → List TargetID → List ScalingSnapshot →
    Except PlanError (List ScalingDecision) × Option RecommendationHistory
  | history, _, [] => (.ok [], history)
  | history, seen, snapshot :: snapshots =>
    if snapshot.target ∈ seen then (.error (.duplicateTarget snapshot.target.name), history)
    else
      match autoscaler.evaluate history snapshot with
      | (.error e, history) => (.error e, history)
      | (.ok decision, history) =>
        let (result, history) := planFrom history (snapshot.target :: seen) snapshots
        ((decision :: ·) <$> result, history)

/-- A plan has a decision for every target, or is refused as a whole. -/
def plan (history : Option RecommendationHistory) (snapshots : List ScalingSnapshot) :
    Except PlanError (List ScalingDecision) × Option RecommendationHistory :=
  autoscaler.planFrom history [] snapshots

end Autoscaler

open Autoscaler

/-! ### Values within bounds -/

lemma clip_mem (value : ℤ) {minimum maximum : ℤ} (h : minimum ≤ maximum) :
    minimum ≤ clip value minimum maximum ∧ clip value minimum maximum ≤ maximum := by
  rw [clip]
  all_goals omega

/-- The scan ends at the largest value it considers. -/
lemma isGreatest_hold {α : Type*} [LinearOrder α] (cutoff : ℤ) (vs : List (ℤ × α)) (x : α) :
    IsGreatest {y | y = x ∨ ∃ t, (t, y) ∈ vs ∧ cutoff ≤ t}
      (vs.foldl (fun held v => if cutoff ≤ v.1 ∧ v.2 > held then v.2 else held) x) := by
  induction vs generalizing x with
  | nil => simp [IsGreatest, upperBounds]
  | cons v vs ih =>
    obtain ⟨hmem, hle⟩ := ih (if cutoff ≤ v.1 ∧ v.2 > x then v.2 else x)
    have hheld : (if cutoff ≤ v.1 ∧ v.2 > x then v.2 else x) ≤ _ := hle (.inl rfl)
    rw [foldl_cons]
    refine ⟨by grind, ?_⟩
    rintro y (rfl | ⟨t, hy, ht⟩)
    · refine le_trans ?_ hheld
      split_ifs <;> order
    · rcases mem_cons.mp hy with rfl | hy
      · refine le_trans ?_ hheld
        split_ifs with h
        · exact le_rfl
        · exact not_lt.mp fun hlt => h ⟨ht, hlt⟩
      · exact hle (.inr ⟨t, hy, ht⟩)

section

variable (vs : List (ℤ × ℤ))

/-- What holds up is the largest recommendation since the cutoff. -/
lemma isGreatest_holdUp (cutoff x : ℤ) :
    IsGreatest {y | y = x ∨ ∃ t, (t, y) ∈ vs ∧ cutoff ≤ t} (holdUp vs cutoff x) :=
  isGreatest_hold cutoff vs x

/-- What holds down is the smallest since the cutoff. -/
lemma isLeast_holdDown (cutoff x : ℤ) :
    IsLeast {y | y = x ∨ ∃ t, (t, y) ∈ vs ∧ cutoff ≤ t} (holdDown vs cutoff x) :=
  isGreatest_hold (α := ℤᵒᵈ) cutoff vs x

/-- What is held back lies between the capacity and itself. -/
lemma conservative_mem (now c recommended scaleUpWindow w : ℤ) :
    conservative vs now c recommended scaleUpWindow w ∈
      Set.uIcc c recommended := by
  have hup := (isGreatest_holdUp vs (now - w) recommended).2 (.inl rfl)
  have hdown := (isLeast_holdDown vs (now - scaleUpWindow) recommended).2 (.inl rfl)
  rw [conservative, Set.mem_uIcc]
  dsimp only
  all_goals omega

end

/-- **Stabilizing holds back**, towards the capacity and not past it. -/
lemma stabilize_mem (history : Option RecommendationHistory) (t : TargetID) (now c
    recommended scaleUpWindow w : ℤ) :
    (stabilize history t now c recommended scaleUpWindow w).1 ∈
      Set.uIcc c recommended := by
  fun_cases stabilize with
  | case3 => exact conservative_mem _ _ _ _ _ _
  | _ => exact Set.right_mem_uIcc

/-- A step is at most one replica. -/
lemma limitStep_mem {c raw n : ℤ} (h : n ∈ Set.uIcc c raw) :
    (limitStep c raw n).replicas ∈ Set.uIcc c raw ∧
      |(limitStep c raw n).replicas - c| ≤ 1 := by
  rw [Set.mem_uIcc] at h ⊢
  rw [limitStep, abs_le]
  split_ifs <;> dsimp only <;> omega

/-! ### Assembled autoscalers -/

/-- What an assembled autoscaler is. -/
structure Built (autoscaler : Autoscaler) : Prop where
  manual : autoscaler.automatic = false → autoscaler.decision = .manual ∧
    autoscaler.adjustment = .direct ∧ autoscaler.allowDuringTransition = true
  automatic : autoscaler.automatic = true → autoscaler.trigger.isSome = true ∧
    autoscaler.allowDuringTransition = false

/-- **An accepted configuration is manual or automatic.** -/
lemma built_of_new {parseDuration : String → Option ℤ} {configuration : Configuration}
    {autoscaler : Autoscaler} (h : new parseDuration configuration = .ok autoscaler) :
    Built autoscaler := by
  obtain ⟨decision, hdec, h⟩ := ok_of_bind h
  obtain ⟨adjustment, hadj, h⟩ := ok_of_bind h
  by_cases hmanual : (if configuration.decision.algorithm = "" then "manual"
      else configuration.decision.algorithm) = "manual"
  · rw [hmanual] at hdec hadj h
    obtain ⟨_, -, hdec⟩ := ok_of_bind hdec
    obtain ⟨_, -, hadj⟩ := ok_of_bind hadj
    cases h
    cases hdec
    cases hadj
    exact ⟨fun _ => ⟨rfl, rfl, rfl⟩, Bool.noConfusion⟩
  · simp only [hmanual, ne_eq, not_false_eq_true, decide_true, Bool.not_true, Bool.false_eq_true,
      if_false] at h
    obtain ⟨trigger, -, h⟩ := ok_of_bind h
    cases h
    exact ⟨Bool.noConfusion, fun _ => ⟨rfl, rfl⟩⟩

/-! ### Resolution -/

/-- The bound that is nearest to the requested capacity, or that capacity itself. -/
def ScalingSnapshot.nearestBound (snapshot : ScalingSnapshot) : ℤ :=
  clip snapshot.replicas.requestedReplicas snapshot.limits.minReplicas
    snapshot.limits.maxReplicas

/-- `0 ≤ min ≤ max` and capacities that are not negative. -/
structure ScalingSnapshot.Valid (snapshot : ScalingSnapshot) : Prop where
  minReplicas : 0 ≤ snapshot.limits.minReplicas
  maxReplicas : snapshot.limits.minReplicas ≤ snapshot.limits.maxReplicas
  baselineReplicas : 0 ≤ snapshot.replicas.baselineReplicas
  requestedReplicas : 0 ≤ snapshot.replicas.requestedReplicas

lemma validateSnapshot_ok_iff {snapshot : ScalingSnapshot} :
    validateSnapshot snapshot = .ok () ↔ snapshot.Valid := by
  fun_cases validateSnapshot with
  | case1 | case2 =>
    refine iff_of_false (by simp) fun h => ?_
    obtain ⟨hmin, hmax, hbase, hreq⟩ := h
    omega
  | case3 => exact iff_of_true rfl ⟨by omega, by omega, by omega, by omega⟩

section Resolve

variable {allowDuringTransition : Bool} {snapshot : ScalingSnapshot}
  {decisionName adjustmentName : String} {recommendation : ReplicaRecommendation}
  {adjustment : ReplicaAdjustment} {decision : ScalingDecision}

/-- Outside its bounds a target goes to the nearest one. -/
lemma resolveBounds_of_outside (recommendation : ReplicaRecommendation)
    (adjustment : ReplicaAdjustment) (h : snapshot.OutsideBounds) :
    (resolveBounds snapshot recommendation adjustment).1 = snapshot.nearestBound ∧
      (resolveBounds snapshot recommendation adjustment).2.1 ≠ .unset := by
  rw [OutsideBounds] at h
  rw [resolveBounds, nearestBound, clip]
  split_ifs <;> first | omega | exact ⟨rfl, noConfusion⟩

lemma resolveBounds_of_inside (h : ¬ snapshot.OutsideBounds) :
    resolveBounds snapshot recommendation adjustment = if recommendation.state = .available then
        (adjustment.replicas, .unset, adjustment.message)
      else (snapshot.replicas.requestedReplicas, .unset, recommendation.message) := by
  rw [OutsideBounds, not_or] at h
  rw [resolveBounds, if_neg h.1, if_neg h.2]

/-- What a resolved decision is. -/
structure Resolved (allowDuringTransition : Bool) (snapshot : ScalingSnapshot)
    (recommendation : ReplicaRecommendation) (adjustment : ReplicaAdjustment)
    (decision : ScalingDecision) : Prop where
  valid : snapshot.Valid
  target : decision.target = snapshot.target
  bounds : snapshot.limits.minReplicas ≤ decision.appliedReplicas ∧
    decision.appliedReplicas ≤ snapshot.limits.maxReplicas
  outside : snapshot.OutsideBounds → decision.appliedReplicas = snapshot.nearestBound ∧
    adjustment.replicas = snapshot.nearestBound
  inside : ¬ snapshot.OutsideBounds → decision.appliedReplicas =
    if recommendation.state = .available ∧
        (snapshot.replicas.transitioning = true → allowDuringTransition = true) then
      adjustment.replicas
    else snapshot.replicas.requestedReplicas
  direction : decision.direction =
    Autoscaling.direction snapshot.replicas.requestedReplicas decision.appliedReplicas
  stated : decision.recommendation = recommendation

/-- A transition holds the capacity, unless a bound is violated. -/
lemma holdTransition_applied {bounded : ℤ × ConstraintReason × String} :
    (holdTransition allowDuringTransition snapshot decisionName recommendation adjustmentName
        adjustment bounded).appliedReplicas =
      if bounded.2.1 = .unset ∧ snapshot.replicas.transitioning = true ∧
          allowDuringTransition = false then
        snapshot.replicas.requestedReplicas
      else bounded.1 := by
  simp only [holdTransition]
  split_ifs <;> simp_all

/-- **What the resolver makes of an adjustment.** -/
lemma resolved_of_resolve (h : resolve allowDuringTransition snapshot decisionName recommendation
    adjustmentName adjustment = .ok decision) :
    Resolved allowDuringTransition snapshot recommendation adjustment decision := by
  revert h
  fun_cases resolve with
  | case5 hcheck hstate bounded hbounds hhard =>
    rintro ⟨⟩
    have hvalid := validateSnapshot_ok_iff.mp hcheck
    have hreq : ¬ snapshot.OutsideBounds →
        snapshot.limits.minReplicas ≤ snapshot.replicas.requestedReplicas ∧
          snapshot.replicas.requestedReplicas ≤ snapshot.limits.maxReplicas := by
      rw [OutsideBounds]
      omega
    refine ⟨hvalid, rfl, ?_, fun hout => ?_, fun hins => ?_, rfl, rfl⟩
    · rw [holdTransition_applied]
      split_ifs with hheld
      · refine hreq fun hout => ?_
        exact (resolveBounds_of_outside recommendation adjustment hout).2 hheld.1
      · omega
    · obtain ⟨hbound, hset⟩ :=
        resolveBounds_of_outside recommendation adjustment hout
      rw [holdTransition_applied, if_neg fun hheld => hset hheld.1]
      refine ⟨hbound, ?_⟩
      by_contra hne
      exact hhard ⟨hset, fun heq => hne (heq.trans hbound)⟩
    · simp only [holdTransition_applied, bounded, resolveBounds_of_inside hins]
      by_cases havail : recommendation.state = .available
      · rw [if_pos havail]
        cases snapshot.replicas.transitioning <;> cases allowDuringTransition <;> simp [havail]
      · simp [havail]
  | _ => rintro ⟨⟩

/-- **The resolver** takes an adjustment that agrees with the bounds. -/
lemma resolve_ok (allowDuringTransition : Bool) (decisionName adjustmentName : String)
    (hvalid : snapshot.Valid)
    (hstate : recommendation.state = .available ∨ recommendation.state = .insufficientData)
    (hout : snapshot.OutsideBounds → adjustment.replicas = snapshot.nearestBound)
    (hins : ¬ snapshot.OutsideBounds → recommendation.state = .available →
      snapshot.limits.minReplicas ≤ adjustment.replicas ∧
        adjustment.replicas ≤ snapshot.limits.maxReplicas) :
    ∃ decision, resolve allowDuringTransition snapshot decisionName recommendation adjustmentName
      adjustment = .ok decision := by
  have hknown : ¬ (recommendation.state ≠ .available ∧
      recommendation.state ≠ .insufficientData) := by
    rintro ⟨h, h'⟩
    exact hstate.elim h h'
  rw [resolve, validateSnapshot_ok_iff.mpr hvalid]
  dsimp only
  rw [if_neg hknown]
  by_cases h : snapshot.OutsideBounds
  · obtain ⟨hbound, -⟩ := resolveBounds_of_outside recommendation adjustment h
    have hmem := clip_mem snapshot.replicas.requestedReplicas hvalid.maxReplicas
    rw [hbound, if_neg, if_neg fun hcase => hcase.2 (hout h)]
    · exact ⟨_, rfl⟩
    · rw [nearestBound]
      omega
  · rw [resolveBounds_of_inside h]
    rw [OutsideBounds] at h
    by_cases havail : recommendation.state = .available
    · obtain ⟨hmin, hmax⟩ := hins h havail
      rw [if_pos havail, if_neg (by dsimp only; omega)]
      exact ⟨_, rfl⟩
    · rw [if_neg havail, if_neg (by dsimp only; omega)]
      exact ⟨_, rfl⟩

end Resolve

/-! ### One target -/

/-- An algorithm recommends, or keeps the capacity. -/
lemma recommendReplicas_state (algorithm : DecisionAlgorithm) (snapshot : ScalingSnapshot) :
    (algorithm.recommendReplicas snapshot).state = .available ∨
      (algorithm.recommendReplicas snapshot).state = .insufficientData ∧
        (algorithm.recommendReplicas snapshot).replicas = snapshot.replicas.requestedReplicas := by
  cases algorithm with
  | aimd =>
    rw [recommendReplicas]
    fun_cases aimdRecommend <;> exact .inl rfl
  | manual => exact .inl rfl
  | queue =>
    rw [recommendReplicas]
    fun_cases queueRecommend <;> exact .inl rfl
  | queueThreshold =>
    rw [recommendReplicas]
    fun_cases queueThresholdRecommend <;> exact .inl rfl
  | tokenLoad p =>
    rw [recommendReplicas]
    fun_cases TokenLoad.recommend with
    | case1 | case2 => exact .inr ⟨rfl, rfl⟩
    | _ => exact .inl rfl

/-- The metrics can be evaluated. -/
def ScalingSnapshot.Measured (snapshot : ScalingSnapshot) : Prop :=
  snapshot.metrics.state = .fresh ∧ snapshot.metrics.windowComplete = true

instance (snapshot : ScalingSnapshot) : Decidable snapshot.Measured :=
  inferInstanceAs (Decidable (_ ∧ _))

/-- A trigger fires, or reports that there is not enough data. -/
lemma decide_disposition (algorithm : TriggerAlgorithm) (snapshot : ScalingSnapshot) :
    (algorithm.decide snapshot).disposition =
      if snapshot.Measured then .fire else .insufficientData := by
  rw [TriggerAlgorithm.decide, metricsTriggerDecision]
  cases hstate : snapshot.metrics.state <;> cases hcomplete : snapshot.metrics.windowComplete <;>
    simp [ScalingSnapshot.Measured, hstate, hcomplete]

/-- **The recommendation** of a built autoscaler. -/
lemma Built.recommend_ok {autoscaler : Autoscaler} (h : Built autoscaler)
    (snapshot : ScalingSnapshot) :
    ∃ trigger recommendation, autoscaler.recommend snapshot = .ok (trigger, recommendation) ∧
      (recommendation.state = .available ∨ recommendation.state = .insufficientData ∧
        recommendation.replicas = snapshot.replicas.requestedReplicas) ∧
      (autoscaler.automatic = false → recommendation.state = .available ∧
        recommendation.replicas = snapshot.replicas.baselineReplicas) ∧
      recommendation.replicas = if autoscaler.automatic = true → snapshot.Measured then
        (autoscaler.decision.recommendReplicas snapshot).replicas
      else snapshot.replicas.requestedReplicas := by
  rw [recommend]
  cases hauto : autoscaler.automatic with
  | false =>
    rw [(h.manual hauto).1]
    exact ⟨_, _, rfl, .inl rfl, fun _ => ⟨rfl, rfl⟩, (if_pos Bool.noConfusion).symm⟩
  | true =>
    obtain ⟨algorithm, htrigger⟩ := Option.isSome_iff_exists.mp (h.automatic hauto).1
    have hdisp := decide_disposition algorithm snapshot
    rw [htrigger]
    dsimp only
    by_cases hmeasured : snapshot.Measured
    · rw [if_pos hmeasured] at hdisp
      rw [hdisp]
      exact ⟨_, _, rfl, recommendReplicas_state _ _, Bool.noConfusion,
        (if_pos fun _ => hmeasured).symm⟩
    · rw [if_neg hmeasured] at hdisp
      rw [hdisp]
      exact ⟨_, _, rfl, .inr ⟨rfl, rfl⟩, Bool.noConfusion,
        (if_neg fun hall => hmeasured (hall rfl)).symm⟩

/-- What the resolver asks of an adjustment. -/
def Agrees (snapshot : ScalingSnapshot) (recommendation : ReplicaRecommendation)
    (adjustment : ReplicaAdjustment) : Prop :=
  (snapshot.OutsideBounds → adjustment.replicas = snapshot.nearestBound) ∧
    (¬ snapshot.OutsideBounds → recommendation.state = .available →
      snapshot.limits.minReplicas ≤ adjustment.replicas ∧
        adjustment.replicas ≤ snapshot.limits.maxReplicas)

section Adjust

variable {autoscaler : Autoscaler} {history : Option RecommendationHistory}
  {snapshot : ScalingSnapshot} {recommendation : ReplicaRecommendation}

lemma adjust_direct (history : Option RecommendationHistory) (h : autoscaler.adjustment = .direct)
    (hadjusted : recommendation.state = .available ∨ snapshot.OutsideBounds) :
    (autoscaler.adjust history snapshot recommendation).1.replicas =
      clip recommendation.replicas snapshot.limits.minReplicas snapshot.limits.maxReplicas := by
  rw [adjust, if_pos hadjusted, h]
  rfl

/-- Outside the bounds, a step goes to the nearest one. -/
lemma adjust_step_outside {scaleUpWindow w : ℤ}
    (h : autoscaler.adjustment = .step scaleUpWindow w)
    (hout : snapshot.OutsideBounds) :
    (autoscaler.adjust history snapshot recommendation).1.replicas = snapshot.nearestBound := by
  rw [adjust, if_pos (.inr hout), h, AdjustmentAlgorithm.adjust, stepAdjust]
  by_cases hlow : snapshot.replicas.requestedReplicas < snapshot.limits.minReplicas
  · simp [hlow, nearestBound, clip]
  · simp [hlow, hout.resolve_left hlow, nearestBound, clip]

/-- Within the bounds, a step goes one replica at most. -/
lemma adjust_step_inside (history : Option RecommendationHistory)
    {scaleUpWindow w : ℤ}
    (h : autoscaler.adjustment = .step scaleUpWindow w)
    (hins : ¬ snapshot.OutsideBounds) (havail : recommendation.state = .available) :
    (autoscaler.adjust history snapshot recommendation).1.replicas ∈
        Set.uIcc snapshot.replicas.requestedReplicas
          (clip recommendation.replicas snapshot.limits.minReplicas snapshot.limits.maxReplicas) ∧
      |(autoscaler.adjust history snapshot recommendation).1.replicas -
        snapshot.replicas.requestedReplicas| ≤ 1 := by
  rw [adjust, if_pos (.inl havail), h, AdjustmentAlgorithm.adjust, stepAdjust]
  rw [OutsideBounds, not_or] at hins
  rw [if_neg hins.1, if_neg hins.2]
  exact limitStep_mem (stabilize_mem _ _ _ _ _ _ _)

/-- **An adjustment agrees with the bounds**, or ignores the hard one. -/
lemma agrees_adjust (history : Option RecommendationHistory) (hvalid : snapshot.Valid)
    (hdir : autoscaler.adjustment = .direct → snapshot.OutsideBounds →
      clip recommendation.replicas snapshot.limits.minReplicas snapshot.limits.maxReplicas =
        snapshot.nearestBound) :
    Agrees snapshot recommendation (autoscaler.adjust history snapshot recommendation).1 := by
  have hclip := clip_mem recommendation.replicas hvalid.maxReplicas
  cases hadj : autoscaler.adjustment with
  | direct =>
    refine ⟨fun hout => ?_, fun _ havail => ?_⟩
    · rw [adjust_direct history hadj (.inr hout), hdir hadj hout]
    · rwa [adjust_direct history hadj (.inl havail)]
  | step =>
    refine ⟨adjust_step_outside hadj, fun hins havail => ?_⟩
    have hmem := (adjust_step_inside history hadj hins havail).1
    rw [Set.mem_uIcc] at hmem
    rw [OutsideBounds] at hins
    omega

end Adjust

/-! ### Evaluations and plans -/

section Evaluate

variable {autoscaler : Autoscaler} {history : Option RecommendationHistory}
  {snapshot : ScalingSnapshot}

lemma evaluate_eq {trigger : TriggerDecision} {recommendation : ReplicaRecommendation}
    (h : autoscaler.recommend snapshot = .ok (trigger, recommendation)) :
    (autoscaler.evaluate history snapshot).1 =
      (resolve autoscaler.allowDuringTransition snapshot autoscaler.decision.name recommendation
        autoscaler.adjustment.name
        (autoscaler.adjust history snapshot recommendation).1).map fun decision =>
          if autoscaler.automatic then { decision with trigger := trigger } else decision := by
  rw [evaluate, h]

/-- A decision is the resolver's, with the trigger filled in. -/
lemma resolved_of_evaluate {trigger : TriggerDecision} {recommendation : ReplicaRecommendation}
    (hrec : autoscaler.recommend snapshot = .ok (trigger, recommendation))
    {decision : ScalingDecision} (h : (autoscaler.evaluate history snapshot).1 = .ok decision) :
    Resolved autoscaler.allowDuringTransition snapshot recommendation
      (autoscaler.adjust history snapshot recommendation).1 decision := by
  rw [evaluate_eq hrec] at h
  cases hres : resolve autoscaler.allowDuringTransition snapshot autoscaler.decision.name
      recommendation autoscaler.adjustment.name
      (autoscaler.adjust history snapshot recommendation).1 with
  | error =>
    rw [hres] at h
    cases h
  | ok =>
    rw [hres] at h
    obtain ⟨hvalid, htgt, hbounds, hout, hins, hdirection, hstated⟩ :=
      resolved_of_resolve hres
    cases h
    split_ifs
    all_goals exact ⟨hvalid, htgt, hbounds, hout, hins, hdirection, hstated⟩

/-- Within the bounds, a capacity is the one that is nearest to the requested one. -/
def ScalingSnapshot.Beyond (snapshot : ScalingSnapshot) (replicas : ℤ) : Prop :=
  clip replicas snapshot.limits.minReplicas snapshot.limits.maxReplicas = snapshot.nearestBound

/-- What an algorithm recommends does not cross the bound that is violated; those that move by one
replica never do. -/
def DecisionAlgorithm.MeetsHardBound (snapshot : ScalingSnapshot) : DecisionAlgorithm → Prop
  | .aimd increase percent threshold =>
    (threshold < snapshot.metrics.waitingRequests →
      snapshot.Beyond (min (snapshot.replicas.requestedReplicas + increase) maxInt32)) ∧
    (snapshot.metrics.waitingRequests ≤ threshold → snapshot.metrics.waitingRequests = 0 →
      snapshot.metrics.activeRequests = 0 →
      snapshot.Beyond ((snapshot.replicas.requestedReplicas * percent).tdiv 100))
  | .manual => snapshot.Beyond snapshot.replicas.baselineReplicas
  | .queue target =>
    (0 < snapshot.metrics.waitingRequests →
      snapshot.Beyond (divideRoundUp snapshot.metrics.waitingRequests target)) ∧
    (snapshot.metrics.waitingRequests ≤ 0 → snapshot.metrics.activeRequests = 0 →
      snapshot.Beyond 0)
  | .queueThreshold .. | .tokenLoad _ => True

/-- The direct adjustment of a target outside its bounds is its hard bound: metrics that cannot be
evaluated keep the capacity, and a recommendation does not cross the bound. -/
def Autoscaler.MeetsHardBound (autoscaler : Autoscaler) (snapshot : ScalingSnapshot) : Prop :=
  autoscaler.adjustment = .direct → snapshot.OutsideBounds →
    (autoscaler.automatic = true → snapshot.Measured) → autoscaler.decision.MeetsHardBound snapshot

lemma beyond_requested : snapshot.Beyond snapshot.replicas.requestedReplicas := rfl

/-- One replica does not lead across a bound that is violated. -/
lemma beyond_of_step (hvalid : snapshot.Valid) (hout : snapshot.OutsideBounds) {r : ℤ}
    (hr : |r - snapshot.replicas.requestedReplicas| ≤ 1) : snapshot.Beyond r := by
  have hle := hvalid.maxReplicas
  rw [abs_le] at hr
  rw [OutsideBounds] at hout
  rw [Beyond, nearestBound, clip, clip]
  split_ifs
  all_goals omega

/-- **When an algorithm crosses a bound**, by what it reads. -/
lemma beyond_recommendReplicas_iff (hvalid : snapshot.Valid) (hout : snapshot.OutsideBounds)
    (algorithm : DecisionAlgorithm) :
    snapshot.Beyond (algorithm.recommendReplicas snapshot).replicas ↔
      algorithm.MeetsHardBound snapshot := by
  cases algorithm with
  | aimd increase percent threshold =>
    rw [recommendReplicas, aimdRecommend, DecisionAlgorithm.MeetsHardBound]
    dsimp only
    split_ifs with hpressure hcap hidle
    · simp [hpressure, not_le.mpr hpressure, min_eq_right hcap.le]
    · simp [hpressure, not_le.mpr hpressure, min_eq_left (not_lt.mp hcap)]
    · simp only [hidle, true_imp_iff]
      grind
    · exact iff_of_true beyond_requested (by grind)
  | manual => rfl
  | queue target =>
    rw [recommendReplicas, queueRecommend, DecisionAlgorithm.MeetsHardBound]
    dsimp only
    split_ifs with hwaiting hmore hidle
    · simp [hwaiting, not_le.mpr hwaiting]
    · simp [hwaiting, not_le.mpr hwaiting]
    · simp [hwaiting, not_lt.mp hwaiting, hidle]
    · exact iff_of_true beyond_requested (by grind)
  | queueThreshold =>
    refine iff_of_true (beyond_of_step hvalid hout ?_) trivial
    have hrequested := hvalid.requestedReplicas
    rw [recommendReplicas, queueThresholdRecommend, abs_le]
    split_ifs <;> dsimp only <;> omega
  | tokenLoad policy =>
    refine iff_of_true (beyond_of_step hvalid hout ?_) trivial
    rw [recommendReplicas, TokenLoad.recommend, abs_le]
    cases policy.scan snapshot.target.role snapshot.metrics.engineLoads 0 true with
    | inl | inr =>
      dsimp only
      split_ifs <;> dsimp only <;> omega

/-- **A target is planned if it meets its hard bound**, and only then. -/
lemma Built.evaluate_ok_iff (h : Built autoscaler) (history : Option RecommendationHistory)
    (hvalid : snapshot.Valid) :
    (∃ decision, (autoscaler.evaluate history snapshot).1 = .ok decision) ↔
      autoscaler.MeetsHardBound snapshot := by
  obtain ⟨trigger, recommendation, hrec, hstate, -, hreplicas⟩ := h.recommend_ok snapshot
  have hbeyond (hout : snapshot.OutsideBounds) : snapshot.Beyond recommendation.replicas ↔
      ((autoscaler.automatic = true → snapshot.Measured) →
        autoscaler.decision.MeetsHardBound snapshot) := by
    rw [hreplicas]
    split_ifs with hmeasured
    · rw [beyond_recommendReplicas_iff hvalid hout, imp_iff_right hmeasured]
    · exact iff_of_true beyond_requested fun h => absurd h hmeasured
  constructor
  · rintro ⟨decision, hdec⟩ hdir hout
    rw [← hbeyond hout, Beyond, ← adjust_direct history hdir (.inr hout)]
    exact ((resolved_of_evaluate hrec hdec).outside hout).2
  · intro hmeets
    obtain ⟨hout, hins⟩ := agrees_adjust history hvalid
      fun hdir hout => (hbeyond hout).mpr (hmeets hdir hout)
    obtain ⟨decision, hdec⟩ := resolve_ok autoscaler.allowDuringTransition
      autoscaler.decision.name autoscaler.adjustment.name hvalid (hstate.imp id And.left)
      hout hins
    rw [evaluate_eq hrec, hdec]
    exact ⟨_, rfl⟩

end Evaluate

section Loop

variable {autoscaler : Autoscaler}

/-- A plan of a first target and the rest. -/
lemma planFrom_cons {history : Option RecommendationHistory} {seen : List TargetID}
    {snapshot : ScalingSnapshot} {decisions : List ScalingDecision} :
    (autoscaler.planFrom history seen (snapshot :: Ss)).1 = .ok decisions ↔
      snapshot.target ∉ seen ∧ ∃ decision rest,
        (autoscaler.evaluate history snapshot).1 = .ok decision ∧
        (autoscaler.planFrom (autoscaler.evaluate history snapshot).2 (snapshot.target :: seen)
          Ss).1 = .ok rest ∧
        decisions = decision :: rest := by
  rw [planFrom]
  split_ifs with hseen
  · simp [hseen]
  rcases autoscaler.evaluate history snapshot with ⟨_ | decision, t⟩
  · simp
  cases hrest : (autoscaler.planFrom t (snapshot.target :: seen) Ss).1 <;>
    simp [hseen, hrest, eq_comm]

/-- **A plan has one evaluation for each target**, in order. -/
lemma forall₂_of_planFrom {history : Option RecommendationHistory} {seen : List TargetID}
    {decisions : List ScalingDecision}
    (h : (autoscaler.planFrom history seen Ss).1 = .ok decisions) :
    Forall₂ (fun snapshot decision => ∃ history,
      (autoscaler.evaluate history snapshot).1 = .ok decision) Ss decisions := by
  induction Ss generalizing history seen decisions with
  | nil =>
    cases h
    exact .nil
  | cons snapshot Ss ih =>
    obtain ⟨-, decision, rest, hdec, hrest, rfl⟩ := planFrom_cons.mp h
    exact .cons ⟨history, hdec⟩ (ih hrest)

/-- **Targets are planned if each meets its hard bound.** -/
lemma Built.planFrom_ok_iff (h : Built autoscaler) (history : Option RecommendationHistory)
    (seen : List TargetID) (hseen : ∀ snapshot ∈ Ss, snapshot.target ∉ seen)
    (hdist : (Ss.map (·.target)).Nodup) (hvalid : ∀ snapshot ∈ Ss, snapshot.Valid) :
    (∃ decisions, (autoscaler.planFrom history seen Ss).1 = .ok decisions) ↔
      ∀ snapshot ∈ Ss, autoscaler.MeetsHardBound snapshot := by
  induction Ss generalizing history seen with
  | nil =>
    exact iff_of_true ⟨[], rfl⟩ fun _ hmem => absurd hmem not_mem_nil
  | cons snapshot Ss ih =>
    rw [map_cons, nodup_cons] at hdist
    have hunseen : ∀ y ∈ Ss, y.target ∉ snapshot.target :: seen := by
      intro y hother hmem
      rcases mem_cons.mp hmem with heq | hmem
      · exact hdist.1 (mem_map.mpr ⟨y, hother, heq⟩)
      · exact hseen y (mem_cons_of_mem _ hother) hmem
    have heval := h.evaluate_ok_iff history (hvalid snapshot mem_cons_self)
    have hrest := ih (autoscaler.evaluate history snapshot).2 (snapshot.target :: seen) hunseen
      hdist.2 fun y hother => hvalid y (mem_cons_of_mem _ hother)
    rw [forall_mem_cons, ← heval, ← hrest]
    simp only [planFrom_cons]
    constructor
    · rintro ⟨decisions, -, decision, rest, hdec, hplan, -⟩
      exact ⟨⟨decision, hdec⟩, rest, hplan⟩
    · rintro ⟨⟨decision, hdec⟩, rest, hplan⟩
      exact ⟨decision :: rest, hseen snapshot mem_cons_self, decision, rest, hdec, hplan, rfl⟩

end Loop

end Foretoken.Autoscaling
