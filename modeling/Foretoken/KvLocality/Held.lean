import Foretoken.KvLocality.Branch
import Foretoken.KvLocality.Index
import Foretoken.KvLocality.Subtree

/-!
What an index holds for a source, whatever its implementation is: bounds on what an event can add,
and on what it must take away. They assume that hashes name blocks (`Unambiguous`).
-/

namespace Foretoken.KvLocality

open RadixTree List Option

variable {hashes : List KvBlockHash}

namespace Facts

/-- The facts contain the block at the placement and in the group. -/
def Holds (facts : Facts) (place : RadixTree.TreeKey) (block : KvStoredBlock) (u : ℕ) : Prop :=
  match facts with
  | .positionalHash entries =>
    PositionalHash.Holds entries place.placement block u ∧
      block.partition.groupIdx = place.groupIdx
  | .radixTree trees => RadixTree.Holds (trees place) block u

/-- All blocks of the facts are in a set. -/
def Within (facts : Facts) (S : Set KvStoredBlock) : Prop :=
  ∀ place b u, facts.Holds place b u → b ∈ S

variable {facts : Facts} {place : RadixTree.TreeKey} {b : KvStoredBlock} {u now : ℕ}
  {S : Set KvStoredBlock}

lemma not_holds_empty {im : KvLocalityIndexResolvedImplementation} :
    ¬ (empty im).Holds place b u := by
  cases im with
  | positionalHash => exact fun h => not_mem_nil h.1
  | radixTree => exact not_holds_default

lemma Within.entries {es : List PositionalHash.Entry}
    (h : (Facts.positionalHash es).Within S) : ∀ e ∈ es, e.block ∈ S :=
  fun e hmem =>
    h ⟨e.placement, e.block.partition.groupIdx⟩ e.block e.observedAt ⟨hmem, rfl⟩

/-- **A store adds its own blocks and nothing else.** -/
lemma Holds.of_stored (hS : Unambiguous S) (hcoh : facts.Coherent) (hin : facts.Within S)
    {bs : List KvStoredBlock} (hblocks : ∀ bl ∈ bs, bl ∈ S) {p : KvPlacement}
    (h : (facts.apply (.blockStored bs p) now).Holds place b u) :
    (p = place.placement ∧ b ∈ bs ∧ u = now) ∨ facts.Holds place b u := by
  cases facts with
  | positionalHash =>
    rcases PositionalHash.mem_foldl_storeBlock hS hin.entries hblocks h.1 with ⟨hp, hb, hu⟩ | hold
    · exact .inl ⟨hp.symm, hb, hu⟩
    · exact .inr ⟨hold, h.2⟩
  | radixTree =>
    rw [Facts.apply, Holds, applyTree] at h
    split_ifs at h with hp
    · rcases Holds.of_foldl_storeBlock hS (hcoh place) (hin place)
        (fun bl hmem => hblocks bl (mem_filter.mp hmem).1) h with ⟨hb, hu⟩ | hold
      · exact .inl ⟨hp, (mem_filter.mp hb).1, hu⟩
      · exact .inr hold
    · exact .inr h

lemma Holds.of_removed (hcoh : facts.Coherent) {p : KvPlacement} {g : Option ℕ}
    (h : (facts.apply (.blockRemoved hashes p g) now).Holds place b u) :
    facts.Holds place b u := by
  cases facts with
  | positionalHash => exact ⟨PositionalHash.mem_of_mem_removeBlocks h.1, h.2⟩
  | radixTree =>
    rw [Facts.apply, Holds, applyTree] at h
    split_ifs at h
    · exact Holds.of_removeBlocks (hcoh place) h
    · exact h

section

variable (hS : Unambiguous S) (hcoh : facts.Coherent) (hin : facts.Within S)
include hS hcoh hin

/-- **A removal takes the branch of a named block**, as far as it is held. -/
lemma not_holds_of_removed {b : ℕ → KvStoredBlock} {n : ℕ} (hb : b 0 ∈ S) (hlink : Linked b n)
    (hheld : ∀ l, 0 < l → l < n → ∃ u, facts.Holds place (b l) u)
    (hnamed : (b 0).blockHash ∈ hashes) :
    ¬ (facts.apply (.blockRemoved hashes place.placement place.groupIdx) now).Holds place
      (b n) u := by
  cases facts with
  | positionalHash =>
    rintro ⟨hlast, hgroup⟩
    refine PositionalHash.segment_removeBlocks hS hin.entries hb hlink hgroup ?_ hnamed hlast
    intro l hpos hl
    obtain ⟨v, hv⟩ := hheld l hpos hl
    exact ⟨v, hv.1⟩
  | radixTree =>
    intro hlast
    rw [Facts.apply, Holds, applyTree] at hlast
    rw [if_pos ⟨rfl, rfl⟩] at hlast
    exact segment_removeBlocks hS (hcoh place) (hin place) hb hlink hheld hnamed hlast

/-- A removal takes the later blocks of a held chain. -/
lemma not_holds_of_ancestor_removed {ch : List KvStoredBlock} (hchain : ∀ b ∈ ch, b ∈ S)
    (hlinked : ∀ l a b, ch[l]? = some a → ch[l + 1]? = some b → b.parentHash = a.blockHash)
    {i j : ℕ} (hj : j ≤ i) {a : KvStoredBlock} (hb : ch[i]? = some b) (ha : ch[j]? = some a)
    (hnamed : a.blockHash ∈ hashes)
    (hbetw : ∀ l, j < l → l < i → ∃ b u, ch[l]? = some b ∧ facts.Holds place b u) :
    ¬ (facts.apply (.blockRemoved hashes place.placement place.groupIdx) now).Holds place b u := by
  -- the segment of the chain from the named block to the last one
  let segment : ℕ → KvStoredBlock := fun l => (ch[j + l]?).getD b
  have hget : ∀ l ≤ i - j, ch[j + l]? = some (segment l) := by
    intro l hl
    have hi := (List.getElem?_eq_some_iff.mp hb).1
    simp only [segment, List.getElem?_eq_getElem (show j + l < ch.length by omega),
      getD_some]
  have hfirst : segment 0 = a := some.inj ((hget 0 (Nat.zero_le _)).symm.trans ha)
  have hlast : segment (i - j) = b := by
    have hget' := hget (i - j) le_rfl
    rw [Nat.add_sub_cancel' hj, hb] at hget'
    exact (some.inj hget').symm
  rw [← hlast]
  refine not_holds_of_removed hS hcoh hin ?_ (fun l hl => ?_) (fun l hpos hl => ?_) ?_
  · rw [hfirst]
    exact hchain a (mem_of_getElem? ha)
  · exact hlinked (j + l) _ _ (hget l hl.le) (hget (l + 1) hl)
  · obtain ⟨c, v, hc, hv⟩ := hbetw (j + l) (by omega) (by omega)
    rw [hget l hl.le] at hc
    rw [some.inj hc]
    exact ⟨v, hv⟩
  · rwa [hfirst]

end

lemma not_holds_of_cleared : ¬ (facts.apply .allBlocksCleared now).Holds place b u := by
  cases facts with
  | positionalHash => exact fun h => not_mem_nil h.1
  | radixTree => exact not_holds_default

lemma Holds.of_touch (h : (facts.touch now).Holds place b u) :
    (u = now ∧ ∃ v, facts.Holds place b v) ∨ facts.Holds place b u := by
  cases facts with
  | positionalHash =>
    obtain ⟨h, hgroup⟩ := h
    obtain ⟨⟨bl, p, v⟩, hmem, heq⟩ := mem_map.mp h
    obtain ⟨rfl, rfl, rfl⟩ : bl = b ∧ p = place.placement ∧ now = u := by simpa using heq
    exact .inl ⟨rfl, v, hmem, hgroup⟩
  | radixTree => exact Holds.of_touchTree h

lemma Holds.of_prune (hcoh : facts.Coherent) {ttl : ℕ} (h : (facts.prune ttl now).Holds place b u) :
    facts.Holds place b u ∧ now - u ≤ ttl := by
  cases facts with
  | positionalHash =>
    obtain ⟨hmem, htime⟩ := PositionalHash.mem_pruneEntries h.1
    exact ⟨⟨hmem, h.2⟩, htime⟩
  | radixTree => exact Holds.of_pruneTree (hcoh place) h

end Facts

end Foretoken.KvLocality
