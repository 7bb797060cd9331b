import Mathlib.Tactic

/-!
Runs of a deterministic transition system with replies.

A component that serves one command at a time is a `Machine`. A concurrent system whose commands
are executed atomically is such a machine too; an interleaving of its clients is a list of
commands. The rules are those of invariants, of last causes, of simulation and of progress.
-/

namespace Foretoken

open List

/-- A deterministic transition system that answers every command. -/
structure Machine (σ α ρ : Type*) where
  init : σ
  step : σ → α → σ × ρ

namespace Machine

variable {σ α ρ : Type*} (M : Machine σ α ρ)

/-- The state after a command. -/
def next (s : σ) (c : α) : σ := (M.step s c).1

/-- The reply to a command. -/
def reply (s : σ) (c : α) : ρ := (M.step s c).2

/-- The state after a list of commands. -/
def run (s : σ) (cs : List α) : σ := cs.foldl M.next s

@[simp] lemma run_nil (s : σ) : M.run s [] = s := rfl

@[simp] lemma run_cons (s : σ) (c : α) (cs : List α) :
    M.run s (c :: cs) = M.run (M.next s c) cs := rfl

lemma run_append (s : σ) (cs ds : List α) : M.run s (cs ++ ds) = M.run (M.run s cs) ds :=
  foldl_append

lemma run_concat (s : σ) (cs : List α) (c : α) :
    M.run s (cs ++ [c]) = M.next (M.run s cs) c := by
  rw [run_append, run_cons, run_nil]

/-- The commands of a run with their replies. -/
def trace : σ → List α → List (α × ρ)
  | _, [] => []
  | s, c :: cs => (c, M.reply s c) :: trace (M.next s c) cs

lemma trace_concat (s : σ) (cs : List α) (c : α) :
    M.trace s (cs ++ [c]) = M.trace s cs ++ [(c, M.reply (M.run s cs) c)] := by
  induction cs generalizing s with
  | nil => rfl
  | cons d cs ih =>
    rw [cons_append, trace, ih]
    rfl

/-- The state after a list of commands from the start. -/
def after (cs : List α) : σ := M.run M.init cs

lemma after_append (cs ds : List α) : M.after (cs ++ ds) = M.run (M.after cs) ds :=
  foldl_append

lemma after_concat (cs : List α) (c : α) : M.after (cs ++ [c]) = M.next (M.after cs) c :=
  M.run_concat M.init cs c

/-- The states that are reached from the start. -/
def Reachable (s : σ) : Prop := ∃ cs, M.after cs = s

/-- Every command of the list meets the condition in the state it is applied in. -/
def Along (P : σ → α → Prop) : σ → List α → Prop
  | _, [] => True
  | s, c :: cs => P s c ∧ Along P (M.next s c) cs

instance Along.decidable (P : σ → α → Prop) [∀ s c, Decidable (P s c)] :
    ∀ s cs, Decidable (M.Along P s cs)
  | _, [] => .isTrue trivial
  | s, c :: cs =>
    have := Along.decidable P (M.next s c) cs
    inferInstanceAs (Decidable (P s c ∧ M.Along P (M.next s c) cs))

variable {M} {s : σ}

lemma reachable_init : M.Reachable M.init := ⟨[], rfl⟩

lemma reachable_after (cs : List α) : M.Reachable (M.after cs) := ⟨cs, rfl⟩

lemma Reachable.run (h : M.Reachable s) (cs : List α) : M.Reachable (M.run s cs) := by
  obtain ⟨ds, rfl⟩ := h
  exact ⟨ds ++ cs, M.run_append M.init ds cs⟩

lemma Reachable.next (h : M.Reachable s) (c : α) : M.Reachable (M.next s c) := h.run [c]

/-- **The invariant rule**: what holds initially and is kept by every step from a
reachable state holds in every reachable state. -/
theorem Reachable.rec_on {I : σ → Prop} (h : M.Reachable s) (hinit : I M.init)
    (hstep : ∀ s c, M.Reachable s → I s → I (M.next s c)) : I s := by
  obtain ⟨cs, rfl⟩ := h
  induction cs using reverseRecOn with
  | nil => exact hinit
  | append_singleton cs c ih =>
    rw [after_concat]
    exact hstep _ c (reachable_after cs) ih

lemma along_append {P : σ → α → Prop} {cs ds : List α} :
    M.Along P s (cs ++ ds) ↔ M.Along P s cs ∧ M.Along P (M.run s cs) ds := by
  induction cs generalizing s with
  | nil => simp [Along]
  | cons c cs ih => rw [cons_append, Along, Along, ih, run_cons, and_assoc]

section

variable {P : σ → α → Prop} {cs ds : List α} (h : M.Along P s (cs ++ ds))
include h

lemma Along.left :
    M.Along P s cs :=
  (along_append.mp h).1

lemma Along.right :
    M.Along P (M.run s cs) ds :=
  (along_append.mp h).2

end

lemma along_concat {P : σ → α → Prop} {cs : List α} {c : α} :
    M.Along P s (cs ++ [c]) ↔ M.Along P s cs ∧ P (M.run s cs) c := by
  rw [along_append, Along, Along, and_true]

/-- **The run rule**: what every step that meets a condition keeps is kept by a run
all of whose steps meet it. -/
theorem run_preserves {I : σ → Prop} {P : σ → α → Prop} (hr : M.Reachable s)
    (hstep : ∀ s c, M.Reachable s → I s → P s c → I (M.next s c)) (hI : I s) {cs : List α}
    (h : M.Along P s cs) : I (M.run s cs) := by
  induction cs generalizing s with
  | nil => exact hI
  | cons c cs ih => exact ih (hr.next c) (hstep s c hr hI h.1) h.2

/-- The run rule without a condition on the commands. -/
theorem run_stable {I : σ → Prop} (hr : M.Reachable s)
    (hstep : ∀ s c, M.Reachable s → I s → I (M.next s c)) (hI : I s) (cs : List α) :
    I (M.run s cs) := by
  induction cs generalizing s with
  | nil => exact hI
  | cons c cs ih => exact ih (hr.next c) (hstep s c hr hI)

/-- **The run rule for a state with its trace.** -/
theorem trace_preserves {I : σ → List (α × ρ) → Prop}
    (hstep : ∀ s t c, I s t → I (M.next s c) (t ++ [(c, M.reply s c)])) (hI : I s [])
    (cs : List α) : I (M.run s cs) (M.trace s cs) := by
  induction cs using reverseRecOn with
  | nil => exact hI
  | append_singleton cs c ih =>
    rw [run_concat, trace_concat]
    exact hstep _ _ c ih

/-- **The rule of last causes**: if a property does not hold initially, and every step
of the run after which it holds either makes it hold or leaves it without undoing it,
then after the run it holds because of a last command that makes it hold, and no
command since has undone it. -/
theorem since (P : σ → Prop) (makes : α → Prop) (undoes : σ → α → Prop) {cs : List α}
    (hinit : ¬ P M.init)
    (hstep : ∀ pre c post, cs = pre ++ c :: post → P (M.next (M.after pre) c) →
      makes c ∨ (P (M.after pre) ∧ ¬ undoes (M.after pre) c))
    (h : P (M.after cs)) :
    ∃ pre c post, cs = pre ++ c :: post ∧ makes c ∧ (∀ d ∈ post, ¬ makes d) ∧
      ∀ mid d rest, post = mid ++ d :: rest → ¬ undoes (M.after (pre ++ c :: mid)) d := by
  induction cs using reverseRecOn with
  | nil => exact absurd h hinit
  | append_singleton cs d ih =>
    rw [after_concat] at h
    by_cases hd : makes d
    · exact ⟨cs, d, [], rfl, hd, by simp, by simp⟩
    obtain ⟨hP, hkeep⟩ := (hstep cs d [] rfl h).resolve_left hd
    obtain ⟨pre, c, post, rfl, hc, hlast, hsince⟩ := ih
      (fun pre c post hsplit hnext => hstep pre c (post ++ [d]) (by rw [hsplit]; simp) hnext) hP
    refine ⟨pre, c, post ++ [d], by simp, hc, ?_, ?_⟩
    · intro x hx
      rcases mem_append.mp hx with hx | hx
      · exact hlast x hx
      · rwa [mem_singleton.mp hx]
    · intro mid x rest hsplit
      -- the command is the new last one or one of those before it
      rcases eq_nil_or_concat rest with rfl | ⟨rest, y, rfl⟩
      · obtain ⟨rfl, hx⟩ := append_inj' hsplit rfl
        obtain rfl : d = x := by simpa using hx
        exact hkeep
      · have hsplit' : post ++ [d] = (mid ++ x :: rest) ++ [y] := by rw [hsplit]; simp
        exact hsince mid x rest (append_inj' hsplit' rfl).1

/-- **The rule of simulation**: a relation between two machines that the same command keeps,
where the second one meets a condition, is kept by a run that meets it throughout. -/
theorem simulates {τ ρ' : Type*} {N : Machine τ α ρ'} {R : σ → τ → Prop} {P : τ → α → Prop}
    (hstep : ∀ s t c, R s t → P t c → R (M.next s c) (N.next t c)) {t : τ} (h : R s t)
    {cs : List α} (hP : N.Along P t cs) : R (M.run s cs) (N.run t cs) := by
  induction cs generalizing s t with
  | nil => exact h
  | cons c cs ih => exact ih (hstep s t c h hP.1) hP.2

/-- How many commands of a list meet a condition in the state they are applied in. -/
def count (M : Machine σ α ρ) (P : σ → α → Bool) : σ → List α → ℕ
  | _, [] => 0
  | s, c :: cs => (if P s c then 1 else 0) + count M P (M.next s c) cs

/-- **The rule of progress**: if no command increases a measure, and those that are counted
lower it or reach the goal, then a run with more of them than the measure of its first state
reaches the goal. -/
theorem progress {I : σ → Prop} {Q : σ → α → Prop} {P : σ → α → Bool}
    (measure : σ → ℕ) (goal : σ → Prop)
    (hstep : ∀ s c, I s → Q s c → I (M.next s c) ∧ measure (M.next s c) ≤ measure s ∧
      (P s c = true → measure (M.next s c) < measure s ∨ goal (M.next s c)))
    (hI : I s) {cs : List α} (hQ : M.Along Q s cs) (hcount : measure s < M.count P s cs) :
    ∃ pre post, cs = pre ++ post ∧ goal (M.run s pre) := by
  induction cs generalizing s with
  | nil => exact absurd hcount (Nat.not_lt_zero _)
  | cons c cs ih =>
    obtain ⟨hnext, hle, hless⟩ := hstep s c hI hQ.1
    rw [count] at hcount
    by_cases hgoal : goal (M.next s c)
    · exact ⟨[c], cs, rfl, hgoal⟩
    have hcount' : measure (M.next s c) < M.count P (M.next s c) cs := by
      split_ifs at hcount with hP
      · have := (hless hP).resolve_right hgoal
        omega
      · omega
    obtain ⟨pre, post, rfl, hreached⟩ := ih hnext hQ.2 hcount'
    exact ⟨c :: pre, post, rfl, hreached⟩

end Machine

end Foretoken
