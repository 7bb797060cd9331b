import Foretoken.KvLocality.Interchange
import Foretoken.KvLocality.Sync

/-!
What a route reads from the synchronized index (`event_prefix_matches` in
`kv-indexer/src/sync.rs`).

The last token of a prompt is always computed, so no match may reach it. The matches of a source
are cut to the blocks before that token, but only if all its matching partitions have one block
size.
-/

namespace Foretoken.KvLocality

open List

/-! ### Lookups -/

/-- A prompt to look up at a rank of a route. -/
structure KvPrefixLookup where
  routeTargetId : String
  dataParallelRank : ℕ
  promptTokenIds : List ℕ
  cacheSalt : Option String
  loraName : Option String
  multimodal : List String

/-- Why there is no answer. -/
inductive KvPrefixUnavailableReason where
  | disabled
  | sourceUnhealthy
  | missingBinding
  | unsupportedLayout
  | unsupportedRequest
  | rankMismatch
  deriving DecidableEq, Repr

/-- The query for a source and a group. -/
def KvPrefixLookup.query (lookup : KvPrefixLookup) (source : KvEventSourceConfig)
    (group : KvCacheGroup) : KvPrefixQuery :=
  ⟨lookup.promptTokenIds, lookup.cacheSalt, source.modelRevision, source.scopeId,
    .normalizedKeyedBlake3V1, some group.groupIdx, false, group.specKind, group.slidingWindow⟩

/-- The placements that a route can use. -/
def KvRouteBinding.reads (binding : KvRouteBinding) (placement : KvPlacement) : Bool :=
  placement.locality ≠ .unspecified && placement ∈ binding.readablePlacements &&
    (placement.tier = .device || binding.canRestoreOrTransfer)

/-- No match reaches the last of the tokens, if the block size is known. -/
def clampMatches (tokens : ℕ) : Option ℕ → List KvPrefixMatch → List KvPrefixMatch
  | none, ms => ms
  | some blockSize, ms => ms.map fun m =>
    { m with matchedTokens := min m.matchedTokens ((tokens - 1) / blockSize * blockSize) }

namespace KvIndexer

/-- The source of a rank. -/
def routeSource (indexer : KvIndexer) (routeTargetId : String) (dataParallelRank : ℕ) :
    Except KvPrefixUnavailableReason (KvRouteBinding × KvEventSourceConfig) :=
  match indexer.config.routeBindings.lookup routeTargetId with
  | none => .error .missingBinding
  | some binding =>
    match binding.dataParallelRankEventSourceIds.lookup dataParallelRank with
    | none => .error .rankMismatch
    | some id =>
      match indexer.config.eventSources.find? (·.eventSourceId = id) with
      | none => .error .missingBinding
      | some source => .ok (binding, source)

/-- The query of a lookup; it drops what has expired. -/
def queried (indexer : KvIndexer) (lookup : KvPrefixLookup) (source : KvEventSourceConfig)
    (group : KvCacheGroup) (now : ℕ) : KvLocalityIndexes × List KvPrefixMatch :=
  indexer.state.index.query (source.identity (indexer.state.cursor source).epoch)
    (lookup.query source group) indexer.state.key now

/-- The matches at the rank's source, as far as its route can read them. -/
def eventPrefixMatches (indexer : KvIndexer) (lookup : KvPrefixLookup) (now : ℕ) :
    KvIndexer × Except KvPrefixUnavailableReason (List KvPrefixMatch) :=
  if lookup.loraName.isSome || !lookup.multimodal.isEmpty then
    (indexer, .error .unsupportedRequest)
  else
    match indexer.routeSource lookup.routeTargetId lookup.dataParallelRank with
    | .error reason => (indexer, .error reason)
    | .ok (binding, source) =>
      let cursor := indexer.state.cursor source
      if !(indexer.health.sources.lookup source.eventSourceId).getD false ∨ cursor.epoch = "" then
        (indexer, .error .sourceUnhealthy)
      else
        match cursor.cacheGroups with
        | some [group] =>
          if group.specKind ≠ "full_attention" ∨ group.slidingWindow.isSome then
            (indexer, .error .unsupportedLayout)
          else
            let (index, ms) := indexer.queried lookup source group now
            let blockSize := index.blockSize (source.identity cursor.epoch)
              (lookup.query source group)
            let readable := clampMatches lookup.promptTokenIds.length blockSize
              (ms.filter (binding.reads ·.placement))
            ({ indexer with state := { indexer.state with index := index } },
              .ok (sortByOrd (readable.filter (0 < ·.matchedTokens))))
        | _ => (indexer, .error .unsupportedLayout)

end KvIndexer

/-! ### Prompts that are stored whole -/

lemma le_mul_iff_of_le_div {n size count : ℕ} (hcount : count ≤ n / size) :
    n ≤ count * size ↔ size ∣ n ∧ n / size ≤ count := by
  constructor
  · intro hle
    have hback : n / size * size ≤ n := Nat.div_mul_le_self n size
    have hmul : count * size ≤ n / size * size := Nat.mul_le_mul_right size hcount
    refine ⟨Dvd.intro_left _ (hback.antisymm (hle.trans hmul)), Nat.div_le_of_le_mul ?_⟩
    rwa [Nat.mul_comm]
  · rintro ⟨hdvd, hle⟩
    calc n = n / size * size := (Nat.div_mul_cancel hdvd).symm
      _ ≤ count * size := Nat.mul_le_mul_right size hle

section

variable {query : KvPrefixQuery} {key : KeyedDigest} {partition : KvPartition}

lemma KvPrefixQuery.length_chain :
    (query.chain key partition).length = query.tokens.length / partition.hashBlockSize := by
  rw [KvPrefixQuery.chain, length_hashChain, Holdings.length_chunksExact]

/-- The whole prompt counts when each block has an entry. -/
lemma PositionalHash.length_le_matchedTokens_iff {entries : List PositionalHash.Entry}
    {placement : KvPlacement} :
    query.tokens.length ≤ PositionalHash.matchedTokens entries query key placement partition ↔
      partition.hashBlockSize ∣ query.tokens.length ∧ ∀ b ∈ query.chain key partition,
        ∃ e ∈ entries, e.placement = placement ∧ e.block = b := by
  let F : Holdings := { f | ⟨f.block, f.placement, f.observedAt⟩ ∈ entries }
  have hlists : PositionalHash.Lists entries F := fun _ _ _ => Iff.rfl
  have hcount : PositionalHash.matchedCompleteBlocks entries placement key partition
      query.cacheSalt "" 0 (chunksExact partition.hashBlockSize query.tokens) ≤
        query.tokens.length / partition.hashBlockSize :=
    (hlists.le_matched_iff.mp le_rfl).length_le.trans KvPrefixQuery.length_chain.le
  rw [PositionalHash.matchedTokens, le_mul_iff_of_le_div hcount, hlists.le_matched_iff,
    ← KvPrefixQuery.chain, ← KvPrefixQuery.length_chain]
  refine and_congr_right fun _ => ?_
  constructor
  · intro hcovers b hb
    obtain ⟨i, hi, rfl⟩ := getElem_of_mem hb
    obtain ⟨b, ⟨u, hu⟩, hget⟩ := hcovers i hi
    exact ⟨⟨b, placement, u⟩, hu, rfl, Option.some.inj (hget.symm.trans (getElem?_eq_getElem hi))⟩
  · intro hall i hi
    obtain ⟨e, he, rfl, heq⟩ := hall _ (getElem_mem hi)
    exact ⟨_, ⟨e.observedAt, he⟩, (getElem?_eq_getElem hi).trans (congrArg some heq.symm)⟩

/-- The whole prompt counts when its path is stored. -/
lemma RadixTree.length_le_matchedTokens_iff {tree : RadixTree.GroupTree}
    (hprompt : 0 < query.tokens.length) :
    query.tokens.length ≤ RadixTree.matchedTokens tree query key partition ↔
      partition.hashBlockSize ∣ query.tokens.length ∧
        ∃ entry ∈ tree.entriesByPath.lookup ((query.chain key partition).flatMap bytesOf),
          entry.block.partition = partition := by
  have hbytes : ∀ b ∈ query.chain key partition, hashBytes b.blockHash = some (bytesOf b) :=
    fun b hb => hashBytes_of_mem_hashChain hb
  have hpath := length_flatMap_bytesOf hbytes
  rw [KvPrefixQuery.length_chain] at hpath
  rw [RadixTree.matchedTokens, queryPath_eq]
  constructor
  · intro hle
    cases hbest : bestBoundary tree partition ((query.chain key partition).flatMap bytesOf) with
    | none =>
      rw [hbest] at hle
      exact absurd hle (Nat.not_le.mpr hprompt)
    | some length =>
      obtain ⟨hlength, ⟨count, rfl⟩, entry, hentry, hpart⟩ := bestBoundary_found length hbest
      rw [hbest] at hle
      dsimp only at hle
      rw [Nat.mul_div_cancel_left _ (by decide)] at hle
      rw [hpath, Nat.mul_comm] at hlength
      have hcount := Nat.le_of_mul_le_mul_right hlength (by decide)
      obtain ⟨hdvd, hall⟩ := (le_mul_iff_of_le_div hcount).mp hle
      refine ⟨hdvd, entry, ?_, hpart⟩
      rwa [take_of_length_le (by rw [hpath, Nat.mul_comm]; exact Nat.mul_le_mul_left _ hall)]
        at hentry
  · rintro ⟨hdvd, entry, hentry, hpart⟩
    obtain ⟨k, hk⟩ : ∃ k, query.tokens.length / partition.hashBlockSize = k + 1 :=
      Nat.exists_eq_succ_of_ne_zero (Nat.div_pos (Nat.le_of_dvd hprompt hdvd)
        (Nat.pos_of_dvd_of_pos hdvd hprompt)).ne'
    rw [hk] at hpath
    rw [← take_of_length_le hpath.le] at hentry
    obtain ⟨length, hbest, hle⟩ := le_bestBoundary hpath.ge hentry hpart
    rw [hbest]
    calc query.tokens.length = (k + 1) * partition.hashBlockSize := by
          rw [← hk, Nat.div_mul_cancel hdvd]
      _ ≤ length / hashLength * partition.hashBlockSize :=
          Nat.mul_le_mul_right _ ((Nat.le_div_iff_mul_le (by decide)).mpr hle)

end

namespace KvLocalityIndexes

/-- All blocks of the prompt in a partition are stored at a placement. -/
def StoresPrompt (index : KvLocalityIndexes) (source : KvEventSourceId) (query : KvPrefixQuery)
    (key : KeyedDigest) (placement : KvPlacement) (partition : KvPartition) : Prop :=
  partition.hashBlockSize ∣ query.tokens.length ∧
    match index with
    | .positionalHash index => ∀ b ∈ query.chain key partition,
        ∃ e ∈ index.entries source, e.placement = placement ∧ e.block = b
    | .radixTree index =>
        let tree := ((index.treesBySource.lookup source).getD ∅).lookup ⟨placement, query.groupIdx⟩
        let path := (query.chain key partition).flatMap RadixTree.bytesOf
        (tree.bind (·.entriesByPath.lookup path)).any (·.block.partition = partition) = true

instance (index : KvLocalityIndexes) (source : KvEventSourceId) (query : KvPrefixQuery)
    (key : KeyedDigest) (placement : KvPlacement) (partition : KvPartition) :
    Decidable (index.StoresPrompt source query key placement partition) :=
  match index with
  | .positionalHash _ => inferInstanceAs (Decidable (_ ∧ ∀ b ∈ _, ∃ e ∈ _, _ ∧ _))
  | .radixTree _ => inferInstanceAs (Decidable (_ ∧ _ = true))

variable {index : KvLocalityIndexes} {source : KvEventSourceId} {query : KvPrefixQuery}
  {key : KeyedDigest} {now : ℕ} {m : KvPrefixMatch} (hsingle : query.matchAllGroups = false)
include hsingle

/-- **A match consists of blocks of a matching partition.** -/
lemma dvd_of_mem_query (h : m ∈ (index.query source query key now).2) :
    ∃ p ∈ (index.query source query key now).1.partitions source query,
      p.hashBlockSize ∣ m.matchedTokens := by
  cases index with
  | positionalHash index =>
    have hm : m ∈ (index.query source query key now).2 := h
    rw [index.query_snd, ← index.entries_prune] at hm
    obtain ⟨p, hp, htokens⟩ := PositionalHash.mem_matching hm
    exact ⟨p, hp, htokens ▸ Dvd.intro_left _ rfl⟩
  | radixTree index =>
    have hm : m ∈ (index.query source query key now).2 := h
    rw [index.query_snd] at hm
    obtain ⟨groupIdx, tree, hgroup, htree, p, hp, -, htokens⟩ := RadixTree.mem_matching hm
    refine ⟨p, mem_flatMap.mpr ⟨(⟨m.placement, groupIdx⟩, tree), mem_filter.mpr
      ⟨Table.mem_toList.mpr htree, decide_eq_true (hgroup hsingle)⟩, hp⟩, ?_⟩
    rw [htokens, RadixTree.matchedTokens]
    split
    · exact Dvd.intro_left _ rfl
    · exact dvd_zero _

/-- A match of the whole prompt is stored. -/
lemma storesPrompt_of_mem_query (hprompt : 0 < query.tokens.length)
    (h : m ∈ (index.query source query key now).2) (hle : query.tokens.length ≤ m.matchedTokens) :
    ∃ p ∈ (index.query source query key now).1.partitions source query,
      (index.query source query key now).1.StoresPrompt source query key m.placement p := by
  cases index with
  | positionalHash index =>
    have hm : m ∈ (index.query source query key now).2 := h
    rw [index.query_snd, ← index.entries_prune] at hm
    obtain ⟨p, hp, htokens⟩ := PositionalHash.mem_matching hm
    exact ⟨p, hp, PositionalHash.length_le_matchedTokens_iff.mp (htokens ▸ hle)⟩
  | radixTree index =>
    have hm : m ∈ (index.query source query key now).2 := h
    rw [index.query_snd] at hm
    obtain ⟨groupIdx, tree, hgroup, htree, p, hp, -, htokens⟩ := RadixTree.mem_matching hm
    obtain ⟨hdvd, entry, hentry, hpart⟩ :=
      (RadixTree.length_le_matchedTokens_iff hprompt).mp (htokens ▸ hle)
    refine ⟨p, mem_flatMap.mpr ⟨(⟨m.placement, groupIdx⟩, tree), mem_filter.mpr
      ⟨Table.mem_toList.mpr htree, decide_eq_true (hgroup hsingle)⟩, hp⟩, hdvd, ?_⟩
    rw [hgroup hsingle] at htree
    exact (Option.any_eq_true _ _).mpr
      ⟨entry, Option.bind_eq_some_iff.mpr ⟨tree, htree, hentry⟩, decide_eq_true hpart⟩

omit hsingle in
/-- What covers tokens at a placement is stored there. -/
lemma placement_of_matchedTokens {entries : List PositionalHash.Entry} {placement : KvPlacement}
    {partition : KvPartition}
    (h : 0 < PositionalHash.matchedTokens entries query key placement partition) :
    placement ∈ entries.map (·.placement) := by
  rw [PositionalHash.matchedTokens] at h
  cases hchunks : chunksExact partition.hashBlockSize query.tokens with
  | nil =>
    rw [hchunks, PositionalHash.matchedCompleteBlocks, Nat.zero_mul] at h
    exact absurd h (lt_irrefl 0)
  | cons tokens rest =>
    rw [hchunks, PositionalHash.matchedCompleteBlocks] at h
    split_ifs at h with hfound
    · obtain ⟨entry, hentry, htest⟩ := any_eq_true.mp hfound
      exact mem_map.mpr ⟨entry, hentry, (of_decide_eq_true htest).1⟩
    · rw [Nat.zero_mul] at h
      exact absurd h (lt_irrefl 0)

/-- A prompt that is stored whole is matched. -/
lemma mem_query_of_storesPrompt {placement : KvPlacement} {p : KvPartition}
    (hprompt : 0 < query.tokens.length) (hloc : placement.locality ≠ .unspecified)
    (hp : p ∈ (index.query source query key now).1.partitions source query)
    (h : (index.query source query key now).1.StoresPrompt source query key placement p) :
    ∃ m ∈ (index.query source query key now).2, m.placement = placement ∧
      query.tokens.length ≤ m.matchedTokens := by
  cases index with
  | positionalHash index =>
    have hle := PositionalHash.length_le_matchedTokens_iff.mpr h
    change ∃ m ∈ (index.query source query key now).2, _
    rw [index.query_snd, ← index.entries_prune]
    change p ∈ PositionalHash.matchingPartitions ((index.prune now).entries source) query at hp
    change _ ≤ PositionalHash.matchedTokens ((index.prune now).entries source) query key placement p
      at hle
    generalize (index.prune now).entries source = entries at hp hle ⊢
    have hpos := hprompt.trans_le hle
    have hmax := @PositionalHash.matchedTokens_le_max entries query key placement p hp
    have hplace : placement ∈ orderedSet ((entries.map (·.placement)).filter fun placement =>
        placement.locality ≠ .unspecified) :=
      mem_orderedSet.mpr (mem_filter.mpr ⟨placement_of_matchedTokens hpos, decide_eq_true hloc⟩)
    refine ⟨⟨placement, _⟩, mem_sortByOrd.mpr (mem_filterMap.mpr ⟨placement, hplace, ?_⟩), rfl,
      hle.trans hmax⟩
    dsimp only
    rw [hsingle, if_neg Bool.false_ne_true, if_pos (hpos.trans_le hmax)]
    rfl
  | radixTree index =>
    obtain ⟨hdvd, hstored⟩ := h
    obtain ⟨entry, hentry, hpart⟩ := (Option.any_eq_true _ _).mp hstored
    obtain ⟨tree, htree, hentry⟩ := Option.bind_eq_some_iff.mp hentry
    obtain rfl := of_decide_eq_true hpart
    obtain ⟨_, -, hselects⟩ := mem_flatMap.mp hp
    have hpart : entry.block.partition ∈ RadixTree.matchingPartitions tree query := by
      have hfield := Table.mem_toList.mpr hentry
      exact mem_orderedSet.mpr (mem_filter.mpr ⟨mem_map.mpr ⟨_, hfield, rfl⟩,
        (mem_filter.mp (mem_orderedSet.mp hselects)).2⟩)
    change ∃ m ∈ (index.query source query key now).2, _
    rw [index.query_snd]
    exact RadixTree.exists_mem_matching hsingle htree hloc hpart hprompt
      ((RadixTree.length_le_matchedTokens_iff hprompt).mpr ⟨hdvd, entry, hentry, rfl⟩)

omit hsingle

/-- The block size is that of every matching partition. -/
lemma hashBlockSize_of_blockSize {size : ℕ} (h : index.blockSize source query = some size) :
    ∀ p ∈ index.partitions source query, p.hashBlockSize = size := by
  intro p hp
  have hmem : p.hashBlockSize ∈
      orderedSet ((index.partitions source query).map (·.hashBlockSize)) :=
    mem_orderedSet.mpr (mem_map.mpr ⟨p, hp, rfl⟩)
  rw [blockSize_eq] at h
  split at h
  · rename_i hsizes
    cases h
    rw [hsizes] at hmem
    exact mem_singleton.mp hmem
  · cases h

/-- If the matching partitions have one block size, it is read. -/
lemma blockSize_of_one {p : KvPartition} (hp : p ∈ index.partitions source query)
    (hone : ∀ q ∈ index.partitions source query, q.hashBlockSize = p.hashBlockSize) :
    index.blockSize source query = some p.hashBlockSize := by
  have hset : orderedSet ((index.partitions source query).map (·.hashBlockSize)) =
      orderedSet [p.hashBlockSize] := by
    refine orderedSet_congr fun n => ?_
    rw [mem_map, mem_singleton]
    constructor
    · rintro ⟨q, hq, rfl⟩
      exact hone q hq
    · exact fun hn => ⟨p, hp, hn.symm⟩
  rw [blockSize_eq, hset]
  rfl

end KvLocalityIndexes

lemma mem_clampMatches {tokens b : ℕ} {ms : List KvPrefixMatch} {m : KvPrefixMatch}
    (h : m ∈ clampMatches tokens (some b) ms) :
    m.matchedTokens ≤ tokens - 1 ∧ ∃ m' ∈ ms, b ∣ m'.matchedTokens → b ∣ m.matchedTokens := by
  obtain ⟨m', hm', rfl⟩ := mem_map.mp h
  refine ⟨(min_le_right _ _).trans (Nat.div_mul_le_self _ _), m', hm', fun hdvd => ?_⟩
  dsimp only
  rcases min_choice m'.matchedTokens ((tokens - 1) / b * b) with hmin | hmin
  · rwa [hmin]
  · rw [hmin]
    exact Dvd.intro_left _ rfl

/-! ### The last token -/

namespace KvIndexer

/-- The partitions of a source that a lookup can match. -/
def partitions (indexer : KvIndexer) (lookup : KvPrefixLookup) (source : KvEventSourceConfig)
    (group : KvCacheGroup) (now : ℕ) : List KvPartition :=
  (indexer.queried lookup source group now).1.partitions
    (source.identity (indexer.state.cursor source).epoch) (lookup.query source group)

/-- All blocks of the prompt in a partition are stored at a placement, after expiry. -/
def StoresPrompt (indexer : KvIndexer) (lookup : KvPrefixLookup) (source : KvEventSourceConfig)
    (group : KvCacheGroup) (now : ℕ) (placement : KvPlacement) (partition : KvPartition) : Prop :=
  (indexer.queried lookup source group now).1.StoresPrompt
    (source.identity (indexer.state.cursor source).epoch) (lookup.query source group)
    indexer.state.key placement partition

end KvIndexer

/-- **When the last token is left.** The matches consist of whole blocks before the last token of
the prompt if and only if the partitions of the source that the lookup can match have one block
size, or at no placement that the route reads all blocks of the prompt are stored. -/
theorem matches_leave_last_token_iff {indexer : KvIndexer} {lookup : KvPrefixLookup} {now : ℕ}
    {binding : KvRouteBinding} {source : KvEventSourceConfig} {group : KvCacheGroup}
    {ms : List KvPrefixMatch}
    (hprompt : lookup.promptTokenIds ≠ [])
    (hroute : indexer.routeSource lookup.routeTargetId lookup.dataParallelRank =
      .ok (binding, source))
    (hgroup : (indexer.state.cursor source).cacheGroups = some [group])
    (h : (indexer.eventPrefixMatches lookup now).2 = .ok ms) :
    (∀ m ∈ ms, m.matchedTokens ≤ lookup.promptTokenIds.length - 1 ∧
      ∃ p ∈ indexer.partitions lookup source group now, p.hashBlockSize ∣ m.matchedTokens) ↔
    (∀ p ∈ indexer.partitions lookup source group now,
      ∀ q ∈ indexer.partitions lookup source group now, q.hashBlockSize = p.hashBlockSize) ∨
    ∀ placement, binding.reads placement = true →
      ∀ p ∈ indexer.partitions lookup source group now,
        ¬ indexer.StoresPrompt lookup source group now placement p := by
  have hlength : 0 < (lookup.query source group).tokens.length := length_pos_iff.mpr hprompt
  rw [KvIndexer.eventPrefixMatches, hroute] at h
  dsimp only at h
  rw [hgroup] at h
  dsimp only at h
  split_ifs at h
  obtain rfl := Except.ok.inj h
  simp only [mem_sortByOrd, mem_filter, decide_eq_true_eq]
  have hdvd : ∀ m ∈ (indexer.queried lookup source group now).2,
      ∃ p ∈ indexer.partitions lookup source group now, p.hashBlockSize ∣ m.matchedTokens :=
    fun m hm => KvLocalityIndexes.dvd_of_mem_query rfl hm
  by_cases hone : ∀ p ∈ indexer.partitions lookup source group now,
      ∀ q ∈ indexer.partitions lookup source group now, q.hashBlockSize = p.hashBlockSize
  · refine iff_of_true ?_ (.inl hone)
    rintro m ⟨hm, -⟩
    cases hblock : (indexer.queried lookup source group now).1.blockSize
        (source.identity (indexer.state.cursor source).epoch) (lookup.query source group) with
    | none =>
      rw [hblock] at hm
      obtain ⟨p, hp, -⟩ := hdvd m (mem_of_mem_filter hm)
      cases hblock.symm.trans (KvLocalityIndexes.blockSize_of_one hp (hone p hp))
    | some size =>
      rw [hblock] at hm
      obtain ⟨hle, m', hm', hclamped⟩ := mem_clampMatches hm
      obtain ⟨p, hp, hdvd'⟩ := hdvd m' (mem_of_mem_filter hm')
      have hsize := KvLocalityIndexes.hashBlockSize_of_blockSize hblock p hp
      exact ⟨hle, p, hp, hsize ▸ hclamped (hsize ▸ hdvd')⟩
  · -- with two sizes the matches are not cut
    have hblock : (indexer.queried lookup source group now).1.blockSize
        (source.identity (indexer.state.cursor source).epoch) (lookup.query source group) =
          none := by
      refine Option.eq_none_iff_forall_ne_some.mpr fun size hsize => hone fun p hp q hq => ?_
      rw [KvLocalityIndexes.hashBlockSize_of_blockSize hsize p hp,
        KvLocalityIndexes.hashBlockSize_of_blockSize hsize q hq]
    rw [or_iff_right hone, hblock, clampMatches]
    constructor
    · intro hall placement hreads p hp hstores
      have hloc : placement.locality ≠ .unspecified := by
        simp only [KvRouteBinding.reads, Bool.and_eq_true, decide_eq_true_eq] at hreads
        exact hreads.1.1
      obtain ⟨m, hm, rfl, hle⟩ :=
        KvLocalityIndexes.mem_query_of_storesPrompt rfl hlength hloc hp hstores
      exact absurd (hall m ⟨mem_filter.mpr ⟨hm, hreads⟩, hlength.trans_le hle⟩).1
        (Nat.not_le.mpr (Nat.lt_of_lt_of_le (Nat.sub_lt hlength Nat.one_pos) hle))
    · rintro hnone m ⟨hm, -⟩
      obtain ⟨hm, hreads⟩ := mem_filter.mp hm
      refine ⟨Nat.le_sub_one_of_lt (Nat.not_le.mp fun hle => ?_), hdvd m hm⟩
      obtain ⟨p, hp, hstores⟩ := KvLocalityIndexes.storesPrompt_of_mem_query rfl hlength hm hle
      exact hnone m.placement hreads p hp hstores

namespace TwoSizes

/-- The first rank of the model. -/
def source : KvEventSourceConfig := ⟨"model:dp:0", "model", "server", 0, "revision", "scope"⟩

/-- A route to that rank, which reads the device. -/
def binding : KvRouteBinding :=
  ⟨(∅ : Table ℕ String).insert 0 "model:dp:0", [⟨.device, .local_⟩], true⟩

/-- The only group of layers. -/
def group : KvCacheGroup := ⟨0, "full_attention", none⟩

/-- A prompt of three tokens is stored in blocks of a size. -/
def stored (size : ℕ) (tier : KvStorageTier) : KvDeltaEvent :=
  .blockStored (LateParent.query.chain LateParent.lastBytes
    { LateParent.partition with hashBlockSize := size }) ⟨tier, .local_⟩

/-- An indexer without facts that reads an answer. -/
def synchronized (implementation : KvLocalityIndexResolvedImplementation)
    (events : List KvDeltaEvent) : KvIndexer :=
  (KvIndexer.settle ⟨⟨[source], (∅ : Table String KvRouteBinding).insert "route" binding, .auto⟩,
      implementation, none, ⟨LateParent.lastBytes, .new implementation factLifetime, ∅⟩,
      ⟨.starting, none, ∅⟩⟩
    source (.ok ⟨"model:dp:0", "model", "epoch", 0, events.length - 1, events.length - 1,
      some [group], RingLog.numberFrom 0 events⟩) id).1

/-- A prompt of three tokens. -/
def lookup : KvPrefixLookup := ⟨"route", 0, [1, 2, 3], none, none, []⟩

/-- The first two tokens in blocks of one, and all three in a block of three elsewhere. -/
def apart : KvIndexer :=
  synchronized .radixTree [.blockStored ((LateParent.query.chain LateParent.lastBytes
    LateParent.partition).take 2) ⟨.device, .local_⟩, stored 3 .hostPinned]

/-- A route that reads the device finds the two tokens that are stored there. -/
theorem two_of_three_matched :
    (apart.eventPrefixMatches lookup 4).2 = .ok [⟨⟨.device, .local_⟩, 2⟩] ∧
      2 ≤ lookup.promptTokenIds.length - 1 ∧
      ∃ p ∈ apart.partitions lookup source group 4, p.hashBlockSize ∣ 2 := by
  have hnone : ∀ placement, binding.reads placement = true →
      ∀ p ∈ apart.partitions lookup source group 4,
        ¬ apart.StoresPrompt lookup source group 4 placement p := by
    intro placement hreads
    obtain rfl : placement = ⟨.device, .local_⟩ := by
      simp only [KvRouteBinding.reads, Bool.and_eq_true, decide_eq_true_eq] at hreads
      exact mem_singleton.mp hreads.1.2
    unfold KvIndexer.StoresPrompt
    decide +kernel
  exact ⟨rfl, (@matches_leave_last_token_iff apart lookup 4 binding source group _ (by decide) rfl
    rfl rfl).mpr (.inr hnone) ⟨⟨.device, .local_⟩, 2⟩ (mem_singleton_self _)⟩

/-- **With two block sizes the whole prompt is matched**, in both indexes. -/
theorem whole_prompt_matched :
    [.positionalHash, .radixTree].map (fun implementation =>
      ((synchronized implementation [stored 1 .device, stored 2 .hostPinned]).eventPrefixMatches
        lookup 4).2) =
      List.replicate 2 (.ok [⟨⟨.device, .local_⟩, lookup.promptTokenIds.length⟩]) := rfl

end TwoSizes

end Foretoken.KvLocality
