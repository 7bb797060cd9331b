import Mathlib.Tactic

/-!
Registers in which the newest write wins: the order in which messages arrive and their repetition do
not matter, as long as a version determines its value.
-/

namespace Foretoken.Register

open List Option

variable {V α : Type*} [LinearOrder V]

/-- A write of a versioned value. -/
def write (r : Option (V × α)) (m : V × α) : Option (V × α) :=
  if r.all (·.1 < m.1) then some m else r

/-- The register after a list of writes. -/
def writes (ms : List (V × α)) : Option (V × α) := ms.foldl write none

/-- A message none of the others is newer than. -/
structure IsNewest (ms : List (V × α)) (m : V × α) : Prop where
  mem : m ∈ ms
  newest : ∀ m' ∈ ms, m'.1 ≤ m.1

@[simp] lemma writes_nil : writes ([] : List (V × α)) = none := rfl

lemma writes_concat (ms : List (V × α)) (m : V × α) :
    writes (ms ++ [m]) = write (writes ms) m := by
  rw [writes, writes, foldl_append, foldl_cons, foldl_nil]

lemma write_ne_none (r : Option (V × α)) (m : V × α) : write r m ≠ none := by
  cases r with
  | none => simp [write]
  | some =>
    rw [write]
    split_ifs <;> simp

/-- The register is empty before the first write. -/
lemma writes_eq_none {ms : List (V × α)} : writes ms = none ↔ ms = [] := by
  induction ms using reverseRecOn with
  | nil => simp
  | append_singleton ms m =>
    rw [writes_concat]
    simpa using write_ne_none (writes ms) m

/-- **The register holds a newest message.** -/
theorem isNewest_of_writes {ms : List (V × α)} {m : V × α} (h : writes ms = some m) :
    IsNewest ms m := by
  induction ms using reverseRecOn generalizing m with
  | nil => cases h
  | append_singleton ms m' ih =>
    rw [writes_concat, write] at h
    split_ifs at h with hnew
    · obtain rfl := some.inj h
      refine ⟨by simp, fun x hx => ?_⟩
      rcases mem_append.mp hx with hx | hx
      · cases hms : writes ms with
        | none =>
          simp [writes_eq_none.mp hms] at hx
        | some =>
          rw [hms] at hnew
          simp only [all_some, decide_eq_true_eq] at hnew
          exact ((ih hms).newest x hx).trans hnew.le
      · rw [mem_singleton.mp hx]
    · obtain ⟨hmem, hnewest⟩ := ih h
      refine ⟨mem_append_left _ hmem, fun x hx => ?_⟩
      rcases mem_append.mp hx with hx | hx
      · exact hnewest x hx
      · rw [h] at hnew
        simp only [all_some, decide_eq_true_eq, not_lt] at hnew
        rwa [mem_singleton.mp hx]

/-- **The order of the messages is immaterial** if a version determines its value. -/
theorem writes_congr {ms ms' : List (V × α)}
    (hcons : ∀ m ∈ ms, ∀ m' ∈ ms, m.1 = m'.1 → m = m') (hset : ∀ m, m ∈ ms ↔ m ∈ ms') :
    writes ms = writes ms' := by
  cases h : writes ms with
  | none =>
    have hempty := writes_eq_none.mp h
    have hempty' : ms' = [] := by
      refine eq_nil_iff_forall_not_mem.mpr fun m hm => ?_
      have hm' := (hset m).mpr hm
      simp [hempty] at hm'
    rw [hempty']
    rfl
  | some m =>
    have hm := isNewest_of_writes h
    cases h' : writes ms' with
    | none =>
      have hm' := (hset m).mp hm.mem
      simp [writes_eq_none.mp h'] at hm'
    | some m' =>
      have hm' := isNewest_of_writes h'
      have hmem := (hset m').mpr hm'.mem
      have hle := hm.newest m' hmem
      have hge := hm'.newest m ((hset m).mp hm.mem)
      rw [hcons m hm.mem m' hmem (le_antisymm hge hle)]

/-- The register holds nothing older than was written. -/
lemma write_seen {ms : List (V × α)} {m : V × α} (h : m ∈ ms) :
    ∃ cur, writes ms = some cur ∧ m.1 ≤ cur.1 := by
  obtain ⟨cur, hcur⟩ : ∃ cur, writes ms = some cur := by
    refine ne_none_iff_exists'.mp fun hnone => ?_
    simp [writes_eq_none.mp hnone] at h
  exact ⟨cur, hcur, (isNewest_of_writes hcur).newest m h⟩

end Foretoken.Register
