import Foretoken.KvLocality.PositionalHash

/-!
What the flat index holds, and how each operation changes it.
-/

namespace Foretoken.KvLocality

open List

namespace PositionalHash

variable {e : Entry} {hashes : List KvBlockHash} {S : Set KvStoredBlock}

/-- An entry for the block at the placement. -/
def Holds (entries : List Entry) (placement : KvPlacement) (block : KvStoredBlock) (u : ℕ) :
    Prop :=
  ⟨block, placement, u⟩ ∈ entries

variable {entries : List Entry} {placement p : KvPlacement} {block : KvStoredBlock} {now u : ℕ}

lemma root_mem_descendants (root : KvBlockHash) : root ∈ descendants entries {root} :=
  subset_saturate _ _ (Finset.mem_singleton_self root)

lemma mem_descendants {roots : Finset KvBlockHash} (hentry : e ∈ entries)
    (hpar : e.block.parentHash ∈ descendants entries roots) :
    e.block.blockHash ∈ descendants entries roots := by
  have hbound : ∀ removed : Finset KvBlockHash,
      ((entries.filter fun e => e.block.parentHash ∈ removed).map
        (·.block.blockHash)).toFinset ⊆ (entries.map (·.block.blockHash)).toFinset := by
    intro removed hash hhash
    rw [mem_toFinset] at hhash ⊢
    exact (filter_sublist.map _).subset hhash
  have hcard : ((entries.map (·.block.blockHash)).toFinset \ roots).card < entries.length + 1 := by
    refine Nat.lt_succ_of_le ((Finset.card_le_card Finset.sdiff_subset).trans ?_)
    refine (toFinset_card_le _).trans ?_
    rw [length_map]
  refine saturate_closed hbound hcard (mem_toFinset.mpr (mem_map.mpr ⟨e, ?_, rfl⟩))
  exact mem_filter.mpr ⟨hentry, decide_eq_true hpar⟩

lemma mem_removeBranch {root : KvBlockHash} :
    e ∈ removeBranch entries placement root ↔ e ∈ entries ∧ (e.placement ≠ placement ∨
        e.block.blockHash ∉ descendants entries {root}) := by
  rw [removeBranch, mem_filter, decide_eq_true_eq]

lemma mem_of_mem_foldl_removeBranch {rs : List KvBlockHash}
    (h : e ∈ rs.foldl (fun entries root => removeBranch entries placement root) entries) :
    e ∈ entries := by
  induction rs generalizing entries with
  | nil => exact h
  | cons root rs ih => exact (mem_removeBranch.mp (ih h)).1

section Segment

variable {b : ℕ → KvStoredBlock} {n : ℕ}

section

variable {l : ℕ} (hlink : Linked b n) (hheld : ∀ l ≤ n, ∃ u, Holds entries placement (b l) u)
include hlink hheld

/-- A branch with a block of a segment has its last block. -/
lemma last_mem_descendants {roots : Finset KvBlockHash} (hl : l ≤ n)
    (hmem : (b l).blockHash ∈ descendants entries roots) :
    (b n).blockHash ∈ descendants entries roots := by
  induction n, hl using Nat.le_induction with
  | base => exact hmem
  | succ n hn ih =>
    obtain ⟨u, hu⟩ := hheld (n + 1) le_rfl
    refine mem_descendants hu ?_
    rw [hlink n (Nat.lt_succ_self n)]
    exact ih (fun k hk => hlink k (Nat.lt_succ_of_lt hk))
      (fun k hk => hheld k (Nat.le_succ_of_le hk))

/-- With its last block, a whole segment survives. -/
lemma segment_removeBranch {root : KvBlockHash}
    (hlast : Holds (removeBranch entries placement root) placement (b n) u) (hl : l ≤ n) :
    (∃ u, Holds (removeBranch entries placement root) placement (b l) u) ∧
      (b l).blockHash ≠ root := by
  have hout : (b l).blockHash ∉ descendants entries {root} := by
    intro hmem
    rcases (mem_removeBranch.mp hlast).2 with hne | hnot
    · exact hne rfl
    · exact hnot (last_mem_descendants hlink hheld hl hmem)
  refine ⟨?_, ?_⟩
  · obtain ⟨v, hv⟩ := hheld l hl
    exact ⟨v, mem_removeBranch.mpr ⟨hv, .inr hout⟩⟩
  · rintro rfl
    exact hout (root_mem_descendants _)

end

lemma segment_foldl_removeBranch (hlink : Linked b n) {rs : List KvBlockHash}
    (hheld : ∀ l ≤ n, ∃ u, Holds entries placement (b l) u) (hroot : (b 0).blockHash ∈ rs) :
    ¬ Holds (rs.foldl (fun entries root => removeBranch entries placement root) entries)
      placement (b n) u := by
  induction rs generalizing entries with
  | nil => cases hroot
  | cons root rs ih =>
    intro hlast
    have hkept := fun l (hl : l ≤ n) =>
      segment_removeBranch hlink hheld (mem_of_mem_foldl_removeBranch hlast) hl
    have hrest := (mem_cons.mp hroot).resolve_left (hkept 0 (Nat.zero_le n)).2
    exact ih (fun l hl => (hkept l hl).1) hrest hlast

/-- A filter that keeps the length keeps everything. -/
lemma forall_of_length_orderedSet {test : KvBlockHash → Bool}
    (h : (orderedSet (hashes.filter test)).length = hashes.length) :
    ∀ hash ∈ hashes, test hash = true := by
  have hlen : (orderedSet (hashes.filter test)).length ≤ (hashes.filter test).length := by
    rw [orderedSet, sortByOrd, length_insertionSort]
    exact (dedup_sublist _).length_le
  have hself : hashes.filter test = hashes :=
    filter_sublist.eq_of_length_le (by omega)
  exact filter_eq_self.mp hself

lemma segment_removeBlocks (hS : Unambiguous S) (hents : ∀ e ∈ entries, e.block ∈ S)
    (hb : b 0 ∈ S) (hlink : Linked b n) {g : Option ℕ}
    (hgroup : (b n).partition.groupIdx = g)
    (hheld : ∀ l, 0 < l → l < n → ∃ u, Holds entries placement (b l) u)
    (hnamed : (b 0).blockHash ∈ hashes) :
    ¬ Holds (removeBlocks entries hashes placement g) placement (b n) u := by
  rw [removeBlocks]
  split_ifs with hlen
  · intro hlast
    rw [Holds, clearGroup, mem_filter] at hlast
    simp [hgroup] at hlast
  · have hall := forall_of_length_orderedSet (not_not.mp hlen)
    have hfirst : ∃ u, Holds entries placement (b 0) u := by
      have hholds := hall _ hnamed
      rw [holds, any_eq_true] at hholds
      obtain ⟨⟨block, place, v⟩, hmem, hentry⟩ := hholds
      obtain ⟨rfl, -, hhash⟩ := of_decide_eq_true hentry
      obtain rfl := hS block (hents _ hmem) (b 0) hb hhash
      exact ⟨v, hmem⟩
    have hroot : (b 0).blockHash ∈ orderedSet (hashes.filter (PositionalHash.holds entries placement
        g)) :=
      mem_orderedSet.mpr (mem_filter.mpr ⟨hnamed, hall _ hnamed⟩)
    intro hlast
    refine segment_foldl_removeBranch hlink (fun l hl => ?_) hroot hlast
    rcases Nat.eq_zero_or_pos l with rfl | hpos
    · exact hfirst
    rcases Nat.lt_or_eq_of_le hl with hlt | rfl
    · exact hheld l hpos hlt
    · exact ⟨_, mem_of_mem_foldl_removeBranch hlast⟩

end Segment

lemma mem_of_mem_removeBlocks {g : Option ℕ}
    (h : e ∈ removeBlocks entries hashes placement g) : e ∈ entries := by
  rw [removeBlocks] at h
  split_ifs at h
  · exact (mem_filter.mp h).1
  · exact mem_of_mem_foldl_removeBranch h

lemma mem_of_mem_foldl_prune {branches : List (KvPlacement × KvBlockHash)}
    (h : e ∈ branches.foldl (fun entries br => removeBranch entries br.1 br.2)
      entries) : e ∈ entries ∧ (e.placement, e.block.blockHash) ∉ branches := by
  induction branches generalizing entries with
  | nil => exact ⟨h, not_mem_nil⟩
  | cons br branches ih =>
    obtain ⟨hmem, hrest⟩ := ih h
    obtain ⟨hmem, hout⟩ := mem_removeBranch.mp hmem
    refine ⟨hmem, ?_⟩
    rw [mem_cons, not_or]
    refine ⟨?_, hrest⟩
    rintro rfl
    rcases hout with hne | hnot
    · exact hne rfl
    · exact hnot (root_mem_descendants _)

/-- Expiry takes all entries that are too old. -/
lemma mem_pruneEntries {ttl : ℕ} (h : e ∈ pruneEntries ttl now entries) :
    e ∈ entries ∧ now - e.observedAt ≤ ttl := by
  obtain ⟨hmem, hout⟩ := mem_of_mem_foldl_prune h
  refine ⟨hmem, Nat.le_of_not_lt fun hold => hout ?_⟩
  exact mem_map.mpr ⟨e, mem_filter.mpr ⟨hmem, decide_eq_true hold⟩, rfl⟩

section

variable (hS : Unambiguous S) (hents : ∀ e ∈ entries, e.block ∈ S)
include hS hents

lemma mem_storeBlock (hblock : block ∈ S) (h : e ∈ storeBlock placement now entries block) :
    e = ⟨block, placement, now⟩ ∨ e ∈ entries := by
  rw [storeBlock] at h
  split at h
  · rename_i i hfind
    obtain ⟨hlt, htest, -⟩ := findIdx?_eq_some_iff_getElem.mp hfind
    obtain ⟨hplace, hhash⟩ := of_decide_eq_true htest
    have hsame : entries[i].block = block :=
      hS _ (hents _ (getElem_mem hlt)) _ hblock hhash
    obtain ⟨k, hk⟩ := mem_iff_getElem?.mp h
    rw [getElem?_modify] at hk
    obtain ⟨old, hold, rfl⟩ := Option.map_eq_some_iff.mp hk
    split_ifs with hik
    · subst hik
      obtain rfl : entries[i] = old := by
        rw [getElem?_eq_getElem hlt] at hold
        exact Option.some.inj hold
      left
      rw [hsame, hplace]
    · exact .inr (mem_of_getElem? hold)
  · rcases mem_append.mp h with h | h
    · exact .inr h
    · exact .inl (mem_singleton.mp h)

lemma block_mem_storeBlock (hblock : block ∈ S) :
    ∀ e ∈ storeBlock placement now entries block, e.block ∈ S := by
  intro e hmem
  rcases mem_storeBlock hS hents hblock hmem with rfl | hmem
  · exact hblock
  · exact hents e hmem

lemma mem_foldl_storeBlock {bs : List KvStoredBlock} (hblocks : ∀ block ∈ bs, block ∈ S)
    (h : e ∈ bs.foldl (storeBlock placement now) entries) :
    (e.placement = placement ∧ e.block ∈ bs ∧ e.observedAt = now) ∨
      e ∈ entries := by
  induction bs generalizing entries with
  | nil => exact .inr h
  | cons block bs ih =>
    rw [forall_mem_cons] at hblocks
    rcases ih (block_mem_storeBlock hS hents hblocks.1) hblocks.2 h with
      ⟨hplace, hmem, htime⟩ | hmem
    · exact .inl ⟨hplace, mem_cons_of_mem _ hmem, htime⟩
    · rcases mem_storeBlock hS hents hblocks.1 hmem with rfl | hmem
      · exact .inl ⟨rfl, mem_cons_self, rfl⟩
      · exact .inr hmem

end

end PositionalHash

end Foretoken.KvLocality
