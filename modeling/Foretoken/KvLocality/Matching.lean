import Foretoken.KvLocality.Held

/-!
What a query reports is held.

The flat index walks the chain and stops at the first block it does not find. The radix tree takes
the deepest boundary of the query path that is stored and looks at none before it; a stored path is
that of a stored parent followed by 32 bytes, so those are stored as well (`stored_of_boundary`).
-/

namespace Foretoken.KvLocality

open List Option Nat Table

variable {b : KvStoredBlock} {l : List ℕ} {path : List UInt8}

/-! ### Hash chains -/

section Chain

variable {key : KeyedDigest} {partition : KvPartition} {cacheSalt : Option String}
  {parent : KvBlockHash} {index : ℕ} {chunks : List (List ℕ)}

lemma partition_of_mem_hashChain (h : b ∈ hashChain key partition cacheSalt parent index chunks) :
    b.partition = partition := by
  induction chunks generalizing parent index with
  | nil => cases h
  | cons tokens rest ih =>
    rcases mem_cons.mp h with rfl | h
    · rfl
    · exact ih h

lemma length_hashChain :
    (hashChain key partition cacheSalt parent index chunks).length = chunks.length := by
  induction chunks generalizing parent index with
  | nil => rfl
  | cons ts rest ih => rw [hashChain, length_cons, length_cons, ih]

/-- The parent of a block of a chain is the block before it. -/
lemma hashChain_linked {l : ℕ} {b' : KvStoredBlock}
    (h : (hashChain key partition cacheSalt parent index chunks)[l]? = some b)
    (h' : (hashChain key partition cacheSalt parent index chunks)[l + 1]? = some b') :
    b'.parentHash = b.blockHash := by
  induction chunks generalizing parent index l with
  | nil => cases h
  | cons ts rest ih =>
    cases l with
    | zero =>
      cases rest with
      | nil => cases h'
      | cons =>
        rw [← some.inj h, ← some.inj h']
    | succ =>
      exact ih h h'

end Chain

lemma mem_of_max?_getD (h : 0 < l.max?.getD 0) : l.max?.getD 0 ∈ l := by
  cases hmax : l.max? with
  | none => rw [hmax] at h; exact absurd h (lt_irrefl 0)
  | some => exact max?_mem hmax

lemma mem_of_min?_getD (h : 0 < l.min?.getD 0) : l.min?.getD 0 ∈ l := by
  cases hmin : l.min? with
  | none => rw [hmin] at h; exact absurd h (lt_irrefl 0)
  | some => exact min?_mem hmin

lemma mem_of_foldl_max (h : 0 < l.foldl max 0) : l.foldl max 0 ∈ l := by
  rw [foldl_max] at h ⊢
  exact mem_of_max?_getD h

lemma le_foldl_max {n : ℕ} (h : n ∈ l) : n ≤ l.foldl max 0 := by
  rw [foldl_max]
  exact (le_max?_getD_of_mem h).trans (le_max_right _ _)

/-! ### The flat index -/

namespace PositionalHash

variable {entries : List Entry} {query : KvPrefixQuery} {key : KeyedDigest}
  {placement : KvPlacement} {partition : KvPartition} {m : KvPrefixMatch}

lemma matchedCompleteBlocks_held {cacheSalt : Option String} {parent : KvBlockHash} {index : ℕ}
    {chunks : List (List ℕ)} {i : ℕ}
    (hi : i < matchedCompleteBlocks entries placement key partition cacheSalt parent index chunks) :
    ∃ b u, (hashChain key partition cacheSalt parent index chunks)[i]? = some b ∧
      Holds entries placement b u := by
  induction chunks generalizing parent index i with
  | nil => exact absurd hi (not_lt_zero i)
  | cons ts rest ih =>
    rw [matchedCompleteBlocks] at hi
    split_ifs at hi with hfound
    · cases i with
      | zero =>
        obtain ⟨⟨b, p, u⟩, hmem, hentry⟩ := any_eq_true.mp hfound
        obtain ⟨rfl, rfl, rfl, rfl, hhash⟩ := of_decide_eq_true hentry
        refine ⟨b, u, ?_, hmem⟩
        rw [hashChain, getElem?_cons_zero, ← hhash]
      | succ =>
        exact ih (lt_of_succ_lt_succ hi)
    · exact absurd hi (not_lt_zero i)

/-- What is reported comes from a partition of some group. -/
lemma mem_matching (h : m ∈ matching entries query key) :
    ∃ partition ∈ matchingPartitions entries query,
      m.matchedTokens = matchedTokens entries query key m.placement partition := by
  rw [matching, mem_sortByOrd] at h
  obtain ⟨placement, -, h⟩ := mem_filterMap.mp h
  dsimp only at h
  generalize hgrps : (orderedSet ((matchingPartitions entries query).map (·.groupIdx))).map
    (fun group => (((matchingPartitions entries query).filter (·.groupIdx = group)).map
      (matchedTokens entries query key placement)).foldl max 0) = matchedByGroup at h
  have hfound : ∀ n ∈ matchedByGroup, 0 < n → ∃ partition ∈ matchingPartitions entries query,
      n = matchedTokens entries query key placement partition := by
    intro n hn hpos
    rw [← hgrps] at hn
    obtain ⟨group, -, rfl⟩ := mem_map.mp hn
    obtain ⟨partition, hpart, heq⟩ := mem_map.mp (mem_of_foldl_max hpos)
    exact ⟨partition, (mem_filter.mp hpart).1, heq.symm⟩
  split_ifs at h with hall hlen hpos hpos hpos
  · cases h
    exact hfound _ (mem_of_min?_getD hpos) hpos
  · exact absurd hpos (lt_irrefl 0)
  · cases h
    exact hfound _ (mem_of_max?_getD hpos) hpos

/-- The best is at least what a partition contributes. -/
lemma matchedTokens_le_max {placement : KvPlacement} {partition : KvPartition}
    (hpart : partition ∈ matchingPartitions entries query) :
    matchedTokens entries query key placement partition ≤
      ((orderedSet ((matchingPartitions entries query).map (·.groupIdx))).map fun group =>
        (((matchingPartitions entries query).filter (·.groupIdx = group)).map
          (matchedTokens entries query key placement)).foldl max 0).max?.getD 0 := by
  have hmember : matchedTokens entries query key placement partition ∈
      ((matchingPartitions entries query).filter (·.groupIdx = partition.groupIdx)).map
        (matchedTokens entries query key placement) :=
    mem_map.mpr ⟨partition, mem_filter.mpr ⟨hpart, decide_eq_true rfl⟩, rfl⟩
  refine (le_foldl_max hmember).trans (le_max?_getD_of_mem ?_)
  exact mem_map.mpr ⟨partition.groupIdx,
    mem_orderedSet.mpr (mem_map.mpr ⟨partition, hpart, rfl⟩), rfl⟩

end PositionalHash

open PositionalHash

/-! ### The radix tree -/

namespace RadixTree

variable {tree : GroupTree} {query : KvPrefixQuery} {key : KeyedDigest}
  {partition : KvPartition} {S : Set KvStoredBlock}

/-- The bytes a block adds to a path. -/
def bytesOf (block : KvStoredBlock) : List UInt8 := (hashBytes block.blockHash).getD []

/-- The query path is made of the hashes of the chain. -/
lemma queryPathFrom_eq {cacheSalt : Option String} {parent : KvBlockHash} (index : ℕ)
    {chunks : List (List ℕ)} (h : queryPathFrom key partition cacheSalt parent chunks = some path) :
    path = (hashChain key partition cacheSalt parent index chunks).flatMap bytesOf ∧
      ∀ b ∈ hashChain key partition cacheSalt parent index chunks,
        hashBytes b.blockHash = some (bytesOf b) := by
  induction chunks generalizing parent index path with
  | nil =>
    obtain rfl : [] = path := by simpa [queryPathFrom] using h
    exact ⟨rfl, fun b hb => by cases hb⟩
  | cons tokens rest ih =>
    obtain ⟨bytes, hbytes, h⟩ := bind_eq_some_iff.mp h
    obtain ⟨tail, htail, rfl⟩ := map_eq_some_iff.mp h
    obtain ⟨rfl, hall⟩ := ih (index + 1) htail
    have hown : bytesOf ⟨partition, index, parent,
        normalizedKvBlockHash key parent tokens partition cacheSalt⟩ = bytes := by
      rw [bytesOf, hbytes, getD_some]
    rw [hashChain, flatMap_cons, hown]
    refine ⟨rfl, forall_mem_cons.mpr ⟨?_, hall⟩⟩
    rwa [hown]

lemma length_bytesOf (h : hashBytes b.blockHash = some (bytesOf b)) :
    (bytesOf b).length = hashLength :=
  (hashBytes_eq_some.mp h).2

section

variable {l : List KvStoredBlock} (h : ∀ b ∈ l, hashBytes b.blockHash = some (bytesOf b))
include h

lemma length_flatMap_bytesOf :
    (l.flatMap bytesOf).length = l.length * hashLength := by
  induction l with
  | nil => simp
  | cons b l ih =>
    rw [forall_mem_cons] at h
    rw [flatMap_cons, length_append, length_cons, ih h.2, length_bytesOf h.1,
      add_one_mul, add_comm]

lemma take_flatMap_bytesOf (k : ℕ) :
    (l.flatMap bytesOf).take (k * hashLength) = (l.take k).flatMap bytesOf := by
  induction l generalizing k with
  | nil => simp
  | cons b l ih =>
    rw [forall_mem_cons] at h
    cases k with
    | zero => simp
    | succ k =>
      have hlen : (k + 1) * hashLength = (bytesOf b).length + k * hashLength := by
        rw [length_bytesOf h.1, add_one_mul, add_comm]
      rw [take_succ_cons, flatMap_cons, flatMap_cons, hlen,
        take_length_add_append, ih h.2]

end

/-- **The boundaries before a stored one are stored.** -/
lemma stored_of_boundary (hS : Unambiguous S) (hcoh : Coherent tree)
    (htree : ∀ b u, Holds tree b u → b ∈ S) {chain : List KvStoredBlock}
    (hchain : ∀ b ∈ chain, b ∈ S)
    (hbytes : ∀ b ∈ chain, hashBytes b.blockHash = some (bytesOf b)) {k : ℕ}
    (hk : k ≤ chain.length) {entry : Entry}
    (h : tree.entriesByPath.lookup ((chain.take k).flatMap bytesOf) = some entry) {i : ℕ}
    (hi : i < k) : ∃ b path, chain[i]? = some b ∧ StoredAt tree b path := by
  induction k generalizing entry with
  | zero => exact absurd hi (not_lt_zero i)
  | succ k ih =>
    have hlast : chain[k]? = some chain[k] := getElem?_eq_getElem hk
    have hmem : chain[k] ∈ chain := getElem_mem hk
    rw [take_add_one, hlast, toList_some, flatMap_append, flatMap_singleton]
      at h
    obtain ⟨above, bytes, habove, hown, heq⟩ := hcoh.path_eq h
    obtain ⟨rfl, rfl⟩ := append_inj' heq (by
      rw [length_bytesOf (hbytes _ hmem), (hashBytes_eq_some.mp hown).2])
    have hsame : entry.block = chain[k] :=
      hS _ (htree _ entry.observedAt (.inl ⟨_, h⟩)) _ (hchain _ hmem)
        (hashBytes_inj hown (hbytes _ hmem))
    rcases lt_or_eq_of_le (le_of_lt_succ hi) with hlt | rfl
    · -- the path of the parent is the boundary before
      rcases parentPath_eq_some.mp habove with ⟨-, hnil⟩ | ⟨-, hpar⟩
      · have hzero : ((chain.take k).flatMap bytesOf).length = k * hashLength := by
          rw [length_flatMap_bytesOf fun b hb => hbytes b (mem_of_mem_take hb),
            length_take, min_eq_left (le_of_succ_le hk)]
        rw [hnil, length_nil, hashLength] at hzero
        omega
      · obtain ⟨entry', hentry', -⟩ := hcoh.path_stored hpar
        exact ih (le_of_succ_le hk) hentry' hlt
    · have hstored : StoredAt tree entry.block _ := ⟨entry.observedAt, h⟩
      rw [hsame] at hstored
      exact ⟨_, _, hlast, hstored⟩

/-- A boundary between two hashes of a path that is a stored path. -/
def StoredBoundary (tree : GroupTree) (path : List UInt8) (length : ℕ) : Prop :=
  length ≤ path.length ∧ hashLength ∣ length ∧
    ∃ entry, tree.entriesByPath.lookup (path.take length) = some entry

/-- A reported boundary is stored, in the partition. -/
lemma bestBoundary_found :
    ∀ length ∈ bestBoundary tree partition path, length ≤ path.length ∧ hashLength ∣ length ∧
      ∃ entry, tree.entriesByPath.lookup (path.take length) = some entry ∧
        entry.block.partition = partition := by
  -- the invariant of the loop: the best boundary so far is stored
  refine foldlRecOn (motive := fun best =>
    ∀ length ∈ best, length ≤ path.length ∧ hashLength ∣ length ∧
      ∃ entry, tree.entriesByPath.lookup (path.take length) = some entry ∧
        entry.block.partition = partition) _ _ ?_ ?_
  · intro length hmax
    obtain ⟨⟨long, entry⟩, hfield, rfl⟩ := mem_map.mp (max?_mem hmax)
    obtain ⟨hfield, htest⟩ := mem_filter.mp hfield
    obtain ⟨hlong, hdvd, hpart⟩ := of_decide_eq_true htest
    refine ⟨hlong.length_le, dvd_of_mod_eq_zero hdvd, entry, ?_, hpart⟩
    rw [← prefix_iff_eq_take.mp hlong]
    exact mem_toList.mp hfield
  · intro best hbest boundary hboundary length hlen
    obtain ⟨i, hi, rfl⟩ := mem_map.mp hboundary
    split at hlen
    · rename_i entry hentry
      split_ifs at hlen with hpart
      · cases hlen
        refine ⟨?_, Dvd.intro_left _ rfl, entry, hentry, hpart⟩
        exact (mul_le_mul_right _ (mem_range.mp hi)).trans (div_mul_le_self _ _)
      · exact hbest length hlen
    · exact hbest length hlen

lemma bestBoundary_stored :
    ∀ length ∈ bestBoundary tree partition path, StoredBoundary tree path length := by
  intro length hlen
  obtain ⟨hle, hdvd, entry, hentry, -⟩ := bestBoundary_found length hlen
  exact ⟨hle, hdvd, entry, hentry⟩

/-- What a partition contributes is stored, block after block. -/
lemma matchedTokens_stored (hS : Unambiguous S) (hcoh : Coherent tree)
    (htree : ∀ b u, Holds tree b u → b ∈ S) (hchain : ∀ b ∈ query.chain key partition, b ∈ S)
    (hpos : 0 < matchedTokens tree query key partition) :
    ∃ k, matchedTokens tree query key partition = k * partition.hashBlockSize ∧
      ∀ i < k, ∃ b path, (query.chain key partition)[i]? = some b ∧ StoredAt tree b path := by
  rw [matchedTokens] at hpos ⊢
  cases hbest : bestBoundary tree partition (queryPath key query partition) with
  | none =>
    rw [hbest] at hpos
    exact absurd hpos (lt_irrefl 0)
  | some length =>
    obtain ⟨hle, ⟨k, rfl⟩, entry, hentry⟩ := bestBoundary_stored length hbest
    refine ⟨k, ?_, fun i hi => ?_⟩
    · rw [hashLength]
      dsimp only
      rw [Nat.mul_div_cancel_left _ (by decide)]
    · rw [queryPath] at hle hentry
      cases hpath : queryPathFrom key partition query.cacheSalt ""
          (chunksExact partition.hashBlockSize query.tokens) with
      | none =>
        rw [hpath, getD_none, length_nil, hashLength] at hle
        omega
      | some =>
        obtain ⟨rfl, hbytes⟩ := queryPathFrom_eq 0 hpath
        rw [hpath, getD_some] at hle hentry
        rw [length_flatMap_bytesOf hbytes, mul_comm] at hle
        rw [mul_comm, take_flatMap_bytesOf hbytes] at hentry
        exact stored_of_boundary hS hcoh htree hchain hbytes
          (le_of_mul_le_mul_right hle (by decide)) hentry hi

/-- What is reported comes from a partition of some group. -/
lemma mem_matching {sourceTree : SourceTree} {m : KvPrefixMatch}
    (h : m ∈ matching sourceTree query key) :
    ∃ groupIdx tree, (query.matchAllGroups = false → groupIdx = query.groupIdx) ∧
      sourceTree.lookup ⟨m.placement, groupIdx⟩ = some tree ∧
      ∃ partition ∈ matchingPartitions tree query, 0 < matchedTokens tree query key partition ∧
        m.matchedTokens = matchedTokens tree query key partition := by
  rw [matching, mem_sortByOrd] at h
  obtain ⟨placement, -, h⟩ := mem_filterMap.mp h
  dsimp only at h
  generalize hseld : (toList sourceTree).filter (fun field => field.1.placement = placement ∧
    (query.matchAllGroups ∨ field.1.groupIdx = query.groupIdx)) = selectedGroups at h
  have hfound : ∀ n ∈ selectedGroups.map (fun field => groupMatch field.2 query key), 0 < n →
      ∃ groupIdx tree, (query.matchAllGroups = false → groupIdx = query.groupIdx) ∧
        sourceTree.lookup ⟨placement, groupIdx⟩ = some tree ∧
        ∃ partition ∈ matchingPartitions tree query, 0 < matchedTokens tree query key partition ∧
          n = matchedTokens tree query key partition := by
    intro n hn hpos
    obtain ⟨⟨place, tree⟩, hfield, rfl⟩ := mem_map.mp hn
    rw [← hseld] at hfield
    obtain ⟨hmem, htest⟩ := mem_filter.mp hfield
    obtain ⟨rfl, hgroup⟩ := of_decide_eq_true htest
    obtain ⟨partition, hpart, heq⟩ := mem_map.mp (mem_of_foldl_max hpos)
    refine ⟨place.groupIdx, tree, fun hsingle => ?_, mem_toList.mp hmem, partition, hpart,
      ?_, heq.symm⟩
    · rw [hsingle] at hgroup
      exact hgroup.resolve_left Bool.false_ne_true
    · rwa [heq]
  split_ifs at h with hloc hempty hall hpos hpos
  · cases h
    exact hfound _ (mem_of_min?_getD hpos) hpos
  · cases h
    exact hfound _ (mem_of_max?_getD hpos) hpos

end RadixTree

/-! ### Queries -/

lemma KvPrefixQuery.groupIdx_of_selects {query : KvPrefixQuery} {partition : KvPartition}
    (hsingle : query.matchAllGroups = false) (h : query.selects partition = true) :
    partition.groupIdx = query.groupIdx := by
  simp only [selects, hsingle, Bool.false_or, Bool.and_eq_true, decide_eq_true_eq] at h
  exact h.1.1.1.2

lemma KvPrefixQuery.hashBlockSize_of_selects {query : KvPrefixQuery} {partition : KvPartition}
    (h : query.selects partition = true) : 0 < partition.hashBlockSize := by
  simp only [selects, Bool.and_eq_true, decide_eq_true_eq] at h
  exact h.2

namespace KvLocalityIndexes

variable {index : KvLocalityIndexes} {source : KvEventSourceId} {query : KvPrefixQuery}
  {key : KeyedDigest} {now : ℕ} {m : KvPrefixMatch} {S : Set KvStoredBlock}

/-- **What a query reports is held**: the first blocks of the query's own hash chain in
some partition, after expiry. -/
theorem mem_query (hS : Unambiguous S) (hcoh : index.Coherent) (hin : (index.facts source).Within S)
    (hchain : ∀ place b u, (index.facts source).Holds place b u → query.selects b.partition →
      ∀ c ∈ query.chain key b.partition, c ∈ S)
    (h : m ∈ (index.query source query key now).2) :
    ∃ groupIdx partition k, (query.matchAllGroups = false → groupIdx = query.groupIdx) ∧
      query.selects partition ∧ (∀ c ∈ query.chain key partition, c ∈ S) ∧
      m.matchedTokens = k * partition.hashBlockSize ∧
      ∀ i < k, ∃ b u, (query.chain key partition)[i]? = some b ∧
        ((index.facts source).prune index.ttl now).Holds ⟨m.placement, groupIdx⟩ b u := by
  cases index with
  | positionalHash index =>
    have hm : m ∈ (index.query source query key now).2 := h
    rw [index.query_snd] at hm
    obtain ⟨partition, hpart, htok⟩ := mem_matching hm
    obtain ⟨hmem, hsel⟩ := mem_filter.mp (mem_orderedSet.mp hpart)
    obtain ⟨entry, hentry, rfl⟩ := mem_map.mp hmem
    have hheld : (KvLocalityIndexes.positionalHash index).facts source |>.Holds
        ⟨entry.placement, entry.block.partition.groupIdx⟩ entry.block entry.observedAt :=
      ⟨(mem_pruneEntries hentry).1, rfl⟩
    refine ⟨entry.block.partition.groupIdx, entry.block.partition, _,
      fun hsingle => query.groupIdx_of_selects hsingle hsel, hsel,
      hchain _ _ _ hheld hsel, htok, fun i hi => ?_⟩
    obtain ⟨b, u, hb, hheld⟩ := matchedCompleteBlocks_held hi
    refine ⟨b, u, hb, hheld, ?_⟩
    rw [partition_of_mem_hashChain (mem_of_getElem? hb)]
  | radixTree index =>
    have hm : m ∈ (((index.prune now).treesBySource.lookup source).map fun sourceTree =>
        RadixTree.matching sourceTree query key).getD [] := h
    cases hsrc : (index.prune now).treesBySource.lookup source with
    | none =>
      simp [hsrc] at hm
    | some =>
      rw [hsrc] at hm
      obtain ⟨groupIdx, tree, hgroup, htree, partition, hpart, hpos, htok⟩ :=
        RadixTree.mem_matching hm
      -- the tree that is matched is the pruned tree of the source
      have hprun : tree = RadixTree.pruneTree index.ttl now
          (index.tree source ⟨m.placement, groupIdx⟩) := by
        rw [← index.tree_prune source _ now (hcoh source _),
          RadixTreeIndex.tree_of_lookup _ hsrc, htree, getD_some]
      obtain ⟨hmem, hsel⟩ := mem_filter.mp (mem_orderedSet.mp hpart)
      obtain ⟨⟨path, entry⟩, hfield, rfl⟩ := mem_map.mp hmem
      have hcoh' := hcoh source ⟨m.placement, groupIdx⟩
      have hold : ∀ b u, RadixTree.Holds tree b u →
          RadixTree.Holds (index.tree source ⟨m.placement, groupIdx⟩) b u := by
        intro b u hb
        rw [hprun] at hb
        exact (hb.of_pruneTree hcoh').1
      have hentry := hold entry.block entry.observedAt (.inl ⟨path, mem_toList.mp hfield⟩)
      obtain ⟨k, hk, hstored⟩ := RadixTree.matchedTokens_stored hS
        (by rw [hprun]; exact hcoh'.pruneTree index.ttl)
        (fun b u hb => hin _ b u (hold b u hb)) (hchain _ _ _ hentry hsel) hpos
      refine ⟨groupIdx, entry.block.partition, k, hgroup, hsel,
        hchain _ _ _ hentry hsel, htok.trans hk, fun i hi => ?_⟩
      obtain ⟨b, path, hb, u, hu⟩ := hstored i hi
      refine ⟨b, u, hb, ?_⟩
      rw [hprun] at hu
      exact .inl ⟨path, hu⟩

end KvLocalityIndexes

end Foretoken.KvLocality
