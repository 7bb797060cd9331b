import Foretoken.Autoscaling.Plan

/-!
What a plan guarantees, and when there is one.
-/

namespace Foretoken.Autoscaling

open List

/-! ### Bounds, evidence and rate -/

/-- What a planned decision obeys. -/
structure Obeys (autoscaler : Autoscaler) (snapshot : ScalingSnapshot)
    (decision : ScalingDecision) : Prop where
  target : decision.target = snapshot.target
  bounds : snapshot.limits.minReplicas ≤ decision.appliedReplicas ∧
    decision.appliedReplicas ≤ snapshot.limits.maxReplicas
  nearest : snapshot.OutsideBounds → decision.appliedReplicas = snapshot.nearestBound
  evidence : autoscaler.automatic = true → ¬ snapshot.OutsideBounds →
    decision.recommendation.state = .insufficientData ∨
      snapshot.replicas.transitioning = true →
    decision.appliedReplicas = snapshot.replicas.requestedReplicas
  rate : autoscaler.automatic = true → ¬ snapshot.OutsideBounds →
    ∀ scaleUpWindow scaleDownWindow,
      autoscaler.adjustment = .step scaleUpWindow scaleDownWindow →
      |decision.appliedReplicas - snapshot.replicas.requestedReplicas| ≤ 1 ∧
        decision.appliedReplicas ∈ Set.uIcc snapshot.replicas.requestedReplicas
          (clip decision.recommendation.replicas snapshot.limits.minReplicas
            snapshot.limits.maxReplicas)
  manual : autoscaler.automatic = false → decision.appliedReplicas =
    clip snapshot.replicas.baselineReplicas snapshot.limits.minReplicas
      snapshot.limits.maxReplicas
  direction : (decision.direction = .up ↔
      snapshot.replicas.requestedReplicas < decision.appliedReplicas) ∧
    (decision.direction = .down ↔
      decision.appliedReplicas < snapshot.replicas.requestedReplicas) ∧
    (decision.direction = .hold ↔
      decision.appliedReplicas = snapshot.replicas.requestedReplicas)

section Planned

variable {parseDuration : String → Option ℤ} {configuration : Configuration}
  {autoscaler : Autoscaler}

/-- The direction tells how the capacity changes. -/
lemma direction_iff (c n : ℤ) :
    (direction c n = .up ↔ c < n) ∧
      (direction c n = .down ↔ n < c) ∧
      (direction c n = .hold ↔ n = c) := by
  rw [direction]
  split_ifs
  all_goals
    simp only [true_iff, false_iff]
    omega

/-- **Every evaluated decision obeys.** -/
lemma Built.obeys (h : Built autoscaler) {history : Option RecommendationHistory}
    {snapshot : ScalingSnapshot} {decision : ScalingDecision}
    (hdec : (autoscaler.evaluate history snapshot).1 = .ok decision) :
    Obeys autoscaler snapshot decision := by
  obtain ⟨trigger, recommendation, hrec, -, hmanual, -⟩ := h.recommend_ok snapshot
  have hres := resolved_of_evaluate hrec hdec
  refine ⟨hres.target, hres.bounds, fun hout => (hres.outside hout).1, ?_, ?_, ?_, ?_⟩
  · intro hauto hins hheld
    rw [hres.inside hins, if_neg]
    rintro ⟨havail, hallowed⟩
    rw [hres.stated, havail] at hheld
    have htrans := hheld.resolve_left RecommendationState.noConfusion
    have hallow := hallowed htrans
    simp [(h.automatic hauto).2] at hallow
  · intro hauto hins scaleUpWindow scaleDownWindow hstep
    rw [hres.inside hins, hres.stated]
    split_ifs with hcase
    · obtain ⟨hmem, hrate⟩ := adjust_step_inside history hstep hins hcase.1
      exact ⟨hrate, hmem⟩
    · rw [sub_self]
      exact ⟨zero_le_one, Set.left_mem_uIcc⟩
  · intro hauto
    obtain ⟨havail, hbaseline⟩ := hmanual hauto
    obtain ⟨-, hdir, hallow⟩ := h.manual hauto
    have hadj := adjust_direct history hdir
      (.inl havail : recommendation.state = .available ∨ snapshot.OutsideBounds)
    rw [hbaseline] at hadj
    by_cases hout : snapshot.OutsideBounds
    · obtain ⟨happlied, hbound⟩ := hres.outside hout
      rw [happlied, ← hbound, hadj]
    · rw [hres.inside hout, if_pos ⟨havail, fun _ => hallow⟩, hadj]
  · rw [hres.direction]
    exact direction_iff _ _

/-- Every decision of a plan obeys. -/
lemma Built.forall₂_obeys (h : Built autoscaler) {xs : Option RecommendationHistory}
    {Ss : List ScalingSnapshot} {decisions : List ScalingDecision}
    (hplan : (autoscaler.plan xs Ss).1 = .ok decisions) :
    Forall₂ (Obeys autoscaler) Ss decisions := by
  refine (forall₂_of_planFrom hplan).imp ?_
  rintro S d ⟨xs', hdec⟩
  exact h.obeys hdec

/-- **Applied capacity obeys bounds, evidence and rate**: every decision of every plan of an
accepted autoscaler, whatever its history. -/
theorem applied_capacity_obeys (hnew : new parseDuration configuration = .ok autoscaler)
    (history : Option RecommendationHistory) {snapshots : List ScalingSnapshot}
    {decisions : List ScalingDecision}
    (hplan : (autoscaler.plan history snapshots).1 = .ok decisions) :
    Forall₂ (Obeys autoscaler) snapshots decisions :=
  (built_of_new hnew).forall₂_obeys hplan

/-! ### Plans that fail -/

/-- **Planning fails only off the hard bound**: for distinct valid targets, an accepted autoscaler
returns a decision for each target, in order and with the nearest bound applied outside the
bounds, exactly if no direct adjustment of a target outside its bounds is another value. -/
theorem plan_ok_iff_meetsHardBound (hnew : new parseDuration configuration = .ok autoscaler)
    (history : Option RecommendationHistory) {snapshots : List ScalingSnapshot}
    (hdistinct : (snapshots.map (·.target)).Nodup)
    (hvalid : ∀ snapshot ∈ snapshots, snapshot.Valid) :
    (∃ decisions, (autoscaler.plan history snapshots).1 = .ok decisions ∧
      decisions.map (·.target) = snapshots.map (·.target) ∧
      Forall₂ (fun snapshot decision => snapshot.OutsideBounds →
        decision.appliedReplicas = snapshot.nearestBound) snapshots decisions) ↔
      ∀ snapshot ∈ snapshots, autoscaler.MeetsHardBound snapshot := by
  have hbuilt := built_of_new hnew
  rw [← hbuilt.planFrom_ok_iff history [] (fun _ _ => not_mem_nil) hdistinct hvalid]
  constructor
  · rintro ⟨decisions, hplan, -⟩
    exact ⟨decisions, hplan⟩
  · rintro ⟨decisions, hplan⟩
    have hobeys := hbuilt.forall₂_obeys hplan
    have htargets : Forall₂ (· = ·) (decisions.map (·.target))
        (snapshots.map (·.target)) := by
      rw [forall₂_map_left_iff, forall₂_map_right_iff]
      exact hobeys.flip.imp fun _ _ h => h.target
    rw [forall₂_eq_eq_eq] at htargets
    exact ⟨decisions, hplan, htargets, hobeys.imp fun _ _ h => h.nearest⟩

end Planned

namespace Shrunk

/-- A queue policy with a given adjustment. -/
def configuration (adjustment : String) : Configuration where
  decision := ⟨"queue", .absent⟩
  trigger := ⟨"", .absent⟩
  adjustment := ⟨adjustment, .absent⟩

/-- The durations of the defaults. -/
def parseDuration : String → Option ℤ
  | "0s" => some 0
  | "5s" => some 5000000000
  | "300s" => some 300000000000
  | _ => none

/-- The autoscaler that is built of it. -/
def autoscaler (adjustment : AdjustmentAlgorithm) : Autoscaler :=
  ⟨.queue 1, some ⟨5000000000⟩, adjustment, false, true⟩

/-- A target with ten replicas whose maximum was lowered to five, and three requests waiting. -/
def snapshot : ScalingSnapshot where
  target := ⟨"ns", "service", "service-uid", "pool", "pool-uid", .aggregate⟩
  evaluatedAt := 0
  replicas := ⟨1, 10, false⟩
  limits := ⟨1, 5⟩
  metrics := ⟨.fresh, true, 3, 0, []⟩

/-- The target passes the checks. -/
lemma valid : snapshot.Valid := ⟨by decide, by decide, by decide, by decide⟩

end Shrunk

open Shrunk

/-- With the step adjustment the target is planned. -/
theorem plan_ok_iff_meetsHardBound_step :
    ∃ decisions, ((Shrunk.autoscaler (.step 0 300000000000)).plan none
        [Shrunk.snapshot]).1 = .ok decisions ∧
      decisions.map (·.target) = [Shrunk.snapshot.target] := by
  have hnew : new Shrunk.parseDuration (Shrunk.configuration "step") =
      .ok (Shrunk.autoscaler (.step 0 300000000000)) := rfl
  have hmeets : ∀ snapshot ∈ [Shrunk.snapshot],
      (Shrunk.autoscaler (.step 0 300000000000)).MeetsHardBound snapshot := by
    rintro snapshot - ⟨⟩
  have hvalid : ∀ snapshot ∈ [Shrunk.snapshot], snapshot.Valid := by
    intro snapshot hmem
    rw [mem_singleton.mp hmem]
    exact Shrunk.valid
  obtain ⟨decisions, hplan, htargets, -⟩ :=
    (plan_ok_iff_meetsHardBound hnew none (by decide) hvalid).mpr hmeets
  exact ⟨decisions, hplan, htargets⟩

/-- With the direct adjustment it is refused: the recommendation is three, the hard bound five. -/
theorem direct_plan_refused :
    new parseDuration (configuration "direct") = .ok (autoscaler .direct) ∧
      snapshot.Valid ∧
      ((autoscaler .direct).plan none [snapshot]).1 =
        .error (.insteadOfHardBound "direct" 3 "pool" 5) :=
  ⟨rfl, valid, rfl⟩

/-- The step adjustment of the target applies its maximum. -/
theorem applied_capacity_obeys_step :
    ∃ decisions, ((autoscaler (.step 0 300000000000)).plan none
        [snapshot]).1 = .ok decisions ∧ decisions.map (·.appliedReplicas) = [5] ∧
      Forall₂ (Obeys (autoscaler (.step 0 300000000000))) [snapshot]
        decisions := by
  have hnew : new parseDuration (configuration "step") =
      .ok (autoscaler (.step 0 300000000000)) := rfl
  have hplan : ((autoscaler (.step 0 300000000000)).plan none
      [snapshot]).1 = .ok _ := rfl
  exact ⟨_, hplan, rfl, applied_capacity_obeys hnew none hplan⟩

end Foretoken.Autoscaling
