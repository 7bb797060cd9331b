import Foretoken.Autoscaling.Plan

/-!
Stabilization over a whole sequence of calls.

The history is one table for all targets, and every call drops what is older than each target's
retention. The retention is the larger of a target's two windows and time does not go back, so
whatever a call drops is outside the windows of every later call.
-/

namespace Foretoken.Autoscaling

open List Option AList

/-- One call of `Stabilize`. -/
structure StabilizeCall where
  target : TargetID
  now : ℤ
  current : ℤ
  recommended : ℤ
  scaleUpWindow : ℤ
  scaleDownWindow : ℤ

/-- What the call returns, and the history it leaves. -/
def StabilizeCall.run (history : Option RecommendationHistory) (call : StabilizeCall) :
    ℤ × Option RecommendationHistory :=
  stabilize history call.target call.now call.current call.recommended call.scaleUpWindow
    call.scaleDownWindow

/-- The history of a controller after its calls. -/
def historyAfter (calls : List StabilizeCall) : Option RecommendationHistory :=
  calls.foldl (fun history call => (call.run history).2) (some ∅)

/-- What the calls recorded for a target. -/
def recorded (target : TargetID) (calls : List StabilizeCall) : List (ℤ × ℤ) :=
  (calls.filter (·.target = target)).map fun call => (call.now, call.recommended)

/-- The recommendations recorded for a target in a window up to now. -/
def inWindow (target : TargetID) (calls : List StabilizeCall) (window now : ℤ) : Set ℤ :=
  {r | ∃ t ∈ Set.Icc (now - window) now, (t, r) ∈ recorded target calls}

/-- Calls in the order of time, with constant windows for a target; of the calls for other
targets nothing is asked but their order. -/
structure Steady (calls : List StabilizeCall) (target : TargetID) (up down : ℤ) : Prop where
  ordered : calls.Pairwise (·.now ≤ ·.now)
  windows : ∀ call ∈ calls, call.target = target →
    call.scaleUpWindow = up ∧ call.scaleDownWindow = down
  nonneg : 0 ≤ up ∧ 0 ≤ down
  positive : 0 < max up down

/-- The calls before the last are steady. -/
lemma Steady.init {calls : List StabilizeCall} {call : StabilizeCall} {target : TargetID}
    {up down : ℤ} (h : Steady (calls ++ [call]) target up down) : Steady calls target up down :=
  { h with
    ordered := (pairwise_append.mp h.ordered).1
    windows := fun c hc => h.windows c (mem_append_left _ hc) }

/-! ### The retained recommendations -/

/-- The recommendations a history holds for a target. -/
def valuesOf (history : RecommendationHistory) (target : TargetID) : List (ℤ × ℤ) :=
  ((history.lookup target).map (·.values)).getD []

/-- What the history holds for a target: its retention, and what was recorded that far back. -/
structure Kept (history : RecommendationHistory) (target : TargetID) (ρ : ℤ)
    (calls : List StabilizeCall) : Prop where
  retains : ∀ record, history.lookup target = some record → record.retention = ρ
  values : ∀ now, (∀ call ∈ calls, call.now ≤ now) →
    (valuesOf history target).filter (now - ρ ≤ ·.1) =
      (recorded target calls).filter (now - ρ ≤ ·.1)

section Kept

variable {history : RecommendationHistory} {target : TargetID} {up down now ρ : ℤ}
  {calls : List StabilizeCall} {call : StabilizeCall}

/-- What is forgotten of one target. -/
lemma lookup_forget :
    (forget history now).lookup target = ((history.lookup target).map fun r =>
      { r with values := r.values.filter (now - r.retention ≤ ·.1) }).filter
        (!·.values.isEmpty) := by
  rw [forget, Table.lookup_retain, Table.lookup_mapValues]

lemma Kept.valuesOf_forget (h : Kept history target ρ calls) :
    valuesOf (forget history now) target =
      (valuesOf history target).filter (now - ρ ≤ ·.1) := by
  rw [valuesOf, lookup_forget, valuesOf]
  cases hlook : history.lookup target with
  | none => rfl
  | some record =>
    rw [map_some, map_some, getD_some, h.retains record hlook, filter_some]
    split_ifs with hempty
    · rfl
    · simpa using hempty

/-- Nothing is dropped that a later call reaches. -/
lemma Kept.forget (h : Kept history target ρ calls) (hcall : call ∈ calls) :
    Kept (forget history call.now) target ρ calls where
  retains record hrec := by
    rw [lookup_forget] at hrec
    obtain ⟨hrec, -⟩ := filter_eq_some_iff.mp hrec
    obtain ⟨old, hold, rfl⟩ := map_eq_some_iff.mp hrec
    exact h.retains old hold
  values now hnow := by
    rw [h.valuesOf_forget, ← h.values now hnow, List.filter_filter]
    refine filter_congr fun v _ => ?_
    have := hnow call hcall
    simp only [Bool.and_eq_left_iff_imp, decide_eq_true_eq]
    omega

/-- What one more call records. -/
lemma recorded_concat :
    recorded target (calls ++ [call]) = recorded target calls ++
      if call.target = target then [(call.now, call.recommended)] else [] := by
  rw [recorded, recorded, filter_append, map_append, filter_singleton]
  split_ifs with h
  all_goals simp [h]

/-- A recommendation is entered. -/
lemma Kept.record (h : Kept history target ρ calls) (htarget : call.target = target) :
    Kept (history.insert target ⟨ρ, valuesOf history target ++ [(call.now, call.recommended)]⟩)
      target ρ (calls ++ [call]) where
  retains r hr := by
    rw [lookup_insert] at hr
    rw [← Option.some.inj hr]
  values now hnow := by
    rw [recorded_concat, if_pos htarget, filter_append,
      ← h.values now fun c hc => hnow c (mem_append_left _ hc), ← filter_append, valuesOf,
      lookup_insert]
    rfl

/-- A call for another target leaves what is held for this one. -/
lemma Kept.other {history' : RecommendationHistory} (h : Kept history target ρ calls)
    (htarget : call.target ≠ target) (hlook : history'.lookup target = history.lookup target) :
    Kept history' target ρ (calls ++ [call]) where
  retains r hr := h.retains r (hlook ▸ hr)
  values now hnow := by
    rw [recorded_concat, if_neg htarget, append_nil,
      ← h.values now fun c hc => hnow c (mem_append_left _ hc), valuesOf, hlook, valuesOf]

/-- **One call keeps it.** -/
lemma Kept.step (hsteady : Steady (calls ++ [call]) target up down)
    (h : Kept history target (max up down) calls) :
    ∃ history', (call.run (some history)).2 = some history' ∧
      Kept history' target (max up down) (calls ++ [call]) := by
  have hlast : call ∈ calls ++ [call] := mem_append_right _ (mem_singleton_self _)
  rw [StabilizeCall.run, stabilize]
  dsimp only
  by_cases htarget : call.target = target
  · obtain ⟨hup, hdown⟩ := hsteady.windows call hlast htarget
    rw [hup, hdown, htarget, if_neg hsteady.positive.ne']
    exact ⟨_, rfl, (h.record htarget).forget hlast⟩
  · split_ifs
    · exact ⟨_, rfl, h.other htarget (lookup_erase_ne (Ne.symm htarget))⟩
    · exact ⟨_, rfl, (h.other htarget (lookup_insert_ne (Ne.symm htarget))).forget hlast⟩

/-- **What the windows reach is never dropped.** -/
lemma after_kept (hsteady : Steady calls target up down) :
    ∃ history, historyAfter calls = some history ∧ Kept history target (max up down) calls := by
  induction calls using reverseRecOn with
  | nil =>
    refine ⟨∅, rfl, fun r hr => ?_, fun _ _ => rfl⟩
    simp [lookup_empty] at hr
  | append_singleton calls call ih =>
    obtain ⟨history, hafter, hkept⟩ := ih hsteady.init
    rw [historyAfter] at hafter ⊢
    rw [foldl_append, hafter]
    exact hkept.step hsteady

end Kept

/-! ### The sliding window -/

/-- What was recorded as far back as a call's retention. -/
def reached (calls : List StabilizeCall) (call : StabilizeCall) : List (ℤ × ℤ) :=
  (recorded call.target (calls ++ [call])).filter
    (call.now - max call.scaleUpWindow call.scaleDownWindow ≤ ·.1)

namespace Steady

variable {calls : List StabilizeCall} {call : StabilizeCall}
  (h : Steady (calls ++ [call]) call.target call.scaleUpWindow call.scaleDownWindow)

include h

/-- The last call is the latest. -/
lemma now_le : ∀ c ∈ calls ++ [call], c.now ≤ call.now := by
  intro c hc
  rcases mem_append.mp hc with hc | hc
  · exact (pairwise_append.mp h.ordered).2.2 c hc call (mem_singleton_self _)
  · rw [mem_singleton.mp hc]

/-- A call reads what was recorded as far back as its retention. -/
lemma run_eq : (call.run (historyAfter calls)).1 =
    conservative (reached calls call) call.now call.current call.recommended call.scaleUpWindow
      call.scaleDownWindow := by
  obtain ⟨history, hafter, hkept⟩ := after_kept h.init
  have hcall := hkept.record (show call.target = call.target from rfl)
  have hvalues := hcall.values call.now h.now_le
  rw [← hcall.valuesOf_forget] at hvalues
  rw [hafter, StabilizeCall.run, stabilize]
  dsimp only
  rw [if_neg h.positive.ne', reached, ← hvalues]
  rfl

/-- What a scan considers is what the window holds. -/
lemma considered_eq {window : ℤ} (hpos : 0 ≤ window)
    (hle : window ≤ max call.scaleUpWindow call.scaleDownWindow) :
    {y | y = call.recommended ∨ ∃ t, (t, y) ∈ reached calls call ∧ call.now - window ≤ t} =
      inWindow call.target (calls ++ [call]) window call.now := by
  ext y
  simp only [Set.mem_ofPred_eq, inWindow, reached, mem_filter, decide_eq_true_eq, Set.mem_Icc]
  constructor
  · rintro (rfl | ⟨t, ⟨hmem, -⟩, ht⟩)
    · refine ⟨call.now, ⟨by omega, le_rfl⟩, ?_⟩
      rw [recorded_concat, if_pos rfl]
      exact mem_append_right _ (mem_singleton_self _)
    · obtain ⟨c, hc, heq⟩ := mem_map.mp hmem
      obtain ⟨rfl, rfl⟩ := Prod.mk.inj heq
      exact ⟨c.now, ⟨ht, h.now_le c (mem_of_mem_filter hc)⟩, hmem⟩
  · rintro ⟨t, ⟨ht, -⟩, hmem⟩
    exact .inr ⟨t, ⟨hmem, by omega⟩, ht⟩

/-- **A smaller recommendation is the largest of the down window.** -/
lemma run_down (hlt : call.recommended < call.current) (hdown : 0 < call.scaleDownWindow) :
    ∃ m, IsGreatest (inWindow call.target (calls ++ [call]) call.scaleDownWindow call.now) m ∧
      (call.run (historyAfter calls)).1 = min call.current m := by
  have hheld := isGreatest_holdUp (reached calls call) (call.now - call.scaleDownWindow)
    call.recommended
  rw [h.considered_eq hdown.le (le_max_right _ _)] at hheld
  refine ⟨_, hheld, ?_⟩
  rw [h.run_eq, conservative, if_pos ⟨hlt, hdown⟩]
  dsimp only
  split_ifs with hheld
  · exact (min_eq_left hheld.le).symm
  · exact (min_eq_right (not_lt.mp hheld)).symm

/-- **A larger recommendation is the smallest of the up window.** -/
lemma run_up (hlt : call.current < call.recommended) (hup : 0 < call.scaleUpWindow) :
    ∃ m, IsLeast (inWindow call.target (calls ++ [call]) call.scaleUpWindow call.now) m ∧
      (call.run (historyAfter calls)).1 = max call.current m := by
  have hheld := isLeast_holdDown (reached calls call) (call.now - call.scaleUpWindow)
    call.recommended
  rw [h.considered_eq hup.le (le_max_left _ _)] at hheld
  refine ⟨_, hheld, ?_⟩
  rw [h.run_eq, conservative, if_neg fun hgt => hlt.not_gt hgt.1, if_pos ⟨hlt, hup⟩]
  dsimp only
  split_ifs with hheld
  · exact (max_eq_left hheld.le).symm
  · exact (max_eq_right (not_lt.mp hheld)).symm

/-- Without a window, nothing is held back. -/
lemma run_raw (hdown : call.recommended < call.current → call.scaleDownWindow = 0)
    (hup : call.current < call.recommended → call.scaleUpWindow = 0) :
    (call.run (historyAfter calls)).1 = call.recommended := by
  rw [h.run_eq, conservative, if_neg fun hlt => (hdown hlt.1).not_gt hlt.2,
    if_neg fun hlt => (hup hlt.1).not_gt hlt.2]

/-- **A lowered capacity is not below the down window.** -/
lemma lowered (hdown : 0 < call.scaleDownWindow)
    (hlower : (limitStep call.current call.recommended
      (call.run (historyAfter calls)).1).replicas < call.current) :
    ∀ r ∈ inWindow call.target (calls ++ [call]) call.scaleDownWindow call.now,
      r ≤ (limitStep call.current call.recommended (call.run (historyAfter calls)).1).replicas := by
  intro r hr
  have hmem : (call.run (historyAfter calls)).1 ∈ Set.uIcc call.current call.recommended :=
    stabilize_mem _ _ _ _ _ _ _
  have hle : (call.run (historyAfter calls)).1 ≤ (limitStep call.current call.recommended
      (call.run (historyAfter calls)).1).replicas := by
    rw [limitStep] at hlower ⊢
    split_ifs at hlower ⊢
    all_goals
      dsimp only at hlower ⊢
      omega
  have hlt : call.recommended < call.current := by
    rw [Set.mem_uIcc] at hmem
    omega
  obtain ⟨m, hgreatest, hresult⟩ := h.run_down hlt hdown
  have hrm := hgreatest.2 hr
  omega

end Steady

/-- The call that a step adjustment makes. -/
def stepCall (up down : ℤ) (input : AdjustmentInput) : StabilizeCall where
  target := input.target
  now := input.evaluatedAt
  current := input.currentReplicas
  recommended :=
    clip input.recommendedReplicas input.limits.minReplicas input.limits.maxReplicas
  scaleUpWindow := up
  scaleDownWindow := down

/-- **Stabilization is an exact sliding window.** -/
theorem stabilize_sliding_window (calls : List StabilizeCall) :
    (∀ call : StabilizeCall,
      Steady (calls ++ [call]) call.target call.scaleUpWindow call.scaleDownWindow →
      (call.recommended = call.current →
        (call.run (historyAfter calls)).1 = call.recommended) ∧
      (call.recommended < call.current →
        (0 < call.scaleDownWindow → ∃ m,
          IsGreatest (inWindow call.target (calls ++ [call]) call.scaleDownWindow call.now) m ∧
          (call.run (historyAfter calls)).1 = min call.current m) ∧
        (call.scaleDownWindow = 0 → (call.run (historyAfter calls)).1 = call.recommended)) ∧
      (call.current < call.recommended →
        (0 < call.scaleUpWindow → ∃ m,
          IsLeast (inWindow call.target (calls ++ [call]) call.scaleUpWindow call.now) m ∧
          (call.run (historyAfter calls)).1 = max call.current m) ∧
        (call.scaleUpWindow = 0 → (call.run (historyAfter calls)).1 = call.recommended))) ∧
    ∀ (up down : ℤ) (input : AdjustmentInput),
      Steady (calls ++ [stepCall up down input]) input.target up down → 0 < down →
      input.limits.minReplicas ≤ input.currentReplicas →
      input.currentReplicas ≤ input.limits.maxReplicas →
      (stepAdjust up down (historyAfter calls) input).1.replicas < input.currentReplicas →
      ∀ r ∈ inWindow input.target (calls ++ [stepCall up down input]) down input.evaluatedAt,
        r ≤ (stepAdjust up down (historyAfter calls) input).1.replicas := by
  refine ⟨fun call h => ⟨fun heq => ?_, fun hlt => ⟨h.run_down hlt, fun hzero => ?_⟩,
    fun hlt => ⟨h.run_up hlt, fun hzero => ?_⟩⟩, fun up down input h hdown hmin hmax => ?_⟩
  · exact h.run_raw (fun hlt => absurd heq hlt.ne) fun hlt => absurd heq hlt.ne'
  · exact h.run_raw (fun _ => hzero) fun hgt => absurd hgt hlt.not_gt
  · exact h.run_raw (fun hgt => absurd hgt hlt.not_gt) fun _ => hzero
  · rw [stepAdjust, if_neg (not_lt.mpr hmin), if_neg (not_lt.mpr hmax)]
    exact Steady.lowered h hdown

namespace Lowered

/-- The target of the calls. -/
def target : TargetID := ⟨"ns", "service", "service-uid", "pool", "pool-uid", .decode⟩

/-- A recommendation at the instant zero, with ten replicas. -/
def calls (recommended up down : ℤ) : List StabilizeCall :=
  [⟨target, 0, 10, recommended, up, down⟩]

/-- It is followed by a call with the same windows. -/
lemma steady {recommended up down : ℤ} (hup : 0 ≤ up) (hdown : 0 ≤ down) (h : 0 < max up down)
    {call : StabilizeCall} (hcall : 0 ≤ call.now) (hup' : call.scaleUpWindow = up)
    (hdown' : call.scaleDownWindow = down) :
    Steady (calls recommended up down ++ [call]) target up down :=
  ⟨by simpa [calls] using hcall, by simp [calls, hup', hdown'], ⟨hup, hdown⟩, h⟩

/-- A recommendation of one replica is held back by that of nine five instants before. -/
theorem stabilize_sliding_window_held :
    (∃ m, IsGreatest (inWindow target (calls 9 0 300 ++ [⟨target, 5, 10, 1, 0, 300⟩]) 300 5) m ∧
      (StabilizeCall.run (historyAfter (calls 9 0 300)) ⟨target, 5, 10, 1, 0, 300⟩).1 =
        min 10 m) ∧
    9 ≤ (stepAdjust 0 300 (historyAfter (calls 9 0 300))
      ⟨target, 5, 10, 1, ⟨1, 10⟩⟩).1.replicas := by
  have hsteady : ∀ {call : StabilizeCall}, 0 ≤ call.now → call.scaleUpWindow = 0 →
      call.scaleDownWindow = 300 → Steady (calls 9 0 300 ++ [call]) target 0 300 :=
    steady le_rfl (by decide) (by decide)
  refine ⟨(((stabilize_sliding_window (calls 9 0 300)).1 ⟨target, 5, 10, 1, 0, 300⟩
    (hsteady (by decide) rfl rfl)).2.1 (by decide)).1 (by decide), ?_⟩
  refine (stabilize_sliding_window (calls 9 0 300)).2 0 300 ⟨target, 5, 10, 1, ⟨1, 10⟩⟩
    (hsteady (by decide) rfl rfl) (by decide) (by decide) (by decide) (by decide) 9 ?_
  exact ⟨0, ⟨by decide, by decide⟩, by simp [recorded, calls]⟩

/-- A lowered maximum is applied at once, whatever was recommended, and without a down window
a recommendation of the same instant holds nothing back. -/
theorem lowered_below_recorded :
    (Steady (calls 10 0 300 ++ [stepCall 0 300 ⟨target, 5, 10, 10, ⟨1, 4⟩⟩]) target 0 300 ∧
      (stepAdjust 0 300 (historyAfter (calls 10 0 300))
        ⟨target, 5, 10, 10, ⟨1, 4⟩⟩).1.replicas = 4 ∧
      10 ∈ inWindow target (calls 10 0 300) 300 5) ∧
    (Steady (calls 10 300 0 ++ [stepCall 300 0 ⟨target, 0, 10, 1, ⟨1, 10⟩⟩]) target 300 0 ∧
      (stepAdjust 300 0 (historyAfter (calls 10 300 0))
        ⟨target, 0, 10, 1, ⟨1, 10⟩⟩).1.replicas = 9 ∧
      10 ∈ inWindow target (calls 10 300 0) 0 0) := by
  refine ⟨⟨steady le_rfl (by decide) (by decide) (by decide) rfl rfl, rfl, 0,
      ⟨by decide, by decide⟩, ?_⟩,
    ⟨steady (by decide) le_rfl (by decide) (by decide) rfl rfl, rfl, 0,
      ⟨by decide, by decide⟩, ?_⟩⟩
  all_goals simp [recorded, calls]

end Lowered

end Foretoken.Autoscaling
