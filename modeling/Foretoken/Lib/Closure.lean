import Mathlib.Data.Finset.Card
import Mathlib.Tactic

/-!
Saturation of a finite set under a growing step: with more rounds than elements left to find, the
loop has stopped by itself, and its result is the least closed set.
-/

namespace Foretoken

open Finset

variable {α : Type*} [DecidableEq α]

/-- Add what `grow` finds until nothing new is found, in at most `n` rounds. -/
def saturate (grow : Finset α → Finset α) : ℕ → Finset α → Finset α
  | 0, s => s
  | n + 1, s => if (s ∪ grow s).card = s.card then s else saturate grow n (s ∪ grow s)

variable {grow : Finset α → Finset α}

lemma subset_saturate (n : ℕ) (s : Finset α) : s ⊆ saturate grow n s := by
  induction n generalizing s with
  | zero => exact Subset.refl s
  | succ n ih =>
    rw [saturate]
    split_ifs
    · exact Subset.refl s
    · exact subset_union_left.trans (ih _)

/-- **The loop stops by itself** when it has more rounds than there are elements left. -/
theorem saturate_closed {bound : Finset α} (hbound : ∀ s, grow s ⊆ bound) {n : ℕ} {s : Finset α}
    (hn : (bound \ s).card < n) : grow (saturate grow n s) ⊆ saturate grow n s := by
  induction n generalizing s with
  | zero => exact absurd hn (Nat.not_lt_zero _)
  | succ n ih =>
    rw [saturate]
    split_ifs with hcard
    · have hsame : s ∪ grow s = s :=
        (eq_of_subset_of_card_le subset_union_left hcard.le).symm
      exact union_eq_left.mp hsame
    · apply ih
      -- a round that does not stop finds an element of the bound outside the set
      obtain ⟨x, hx, hxs⟩ : ∃ x ∈ grow s, x ∉ s := by
        by_contra! hall
        exact hcard (by rw [union_eq_left.mpr hall])
      have hlt : (bound \ (s ∪ grow s)).card < (bound \ s).card := by
        apply card_lt_card
        refine ⟨sdiff_subset_sdiff (Subset.refl _) subset_union_left, ?_⟩
        intro hsub
        have hmem := hsub (mem_sdiff.mpr ⟨hbound s hx, hxs⟩)
        exact (mem_sdiff.mp hmem).2 (mem_union_right s hx)
      omega

/-- A set that contains the start and what the step finds in its subsets contains the result. -/
theorem saturate_subset {target : Set α} (hgrow : ∀ s : Finset α, ↑s ⊆ target → ↑(grow s) ⊆ target)
    (n : ℕ) {s : Finset α} (hs : ↑s ⊆ target) : ↑(saturate grow n s) ⊆ target := by
  induction n generalizing s with
  | zero => exact hs
  | succ n ih =>
    rw [saturate]
    split_ifs
    · exact hs
    · refine ih ?_
      rw [coe_union]
      exact Set.union_subset hs (hgrow s hs)

end Foretoken
