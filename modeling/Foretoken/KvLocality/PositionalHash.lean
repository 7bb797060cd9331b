import Foretoken.KvLocality.Types
import Foretoken.Lib.Closure

/-!
The flat block index (`kv-indexer/src/index/positional_hash.rs`): one list of entries per source.

The functions on a list of entries come first, each the body of the method of the same name for one
source; the index then applies them to the list of a source.
-/

namespace Foretoken.KvLocality

open Table Option

namespace PositionalHash

/-- A block at a placement. -/
structure Entry where
  block : KvStoredBlock
  placement : KvPlacement
  observedAt : ℕ
  deriving DecidableEq, Repr

/-! ### The entries of one source -/

variable (entries : List Entry) (placement : KvPlacement)

/-- The roots and the blocks below them. A round that goes on has found a new block of
`entries`, so the loop ends by itself. -/
def descendants (roots : Finset KvBlockHash) : Finset KvBlockHash :=
  saturate
    (fun removed => ((entries.filter fun entry => entry.block.parentHash ∈ removed).map
      (·.block.blockHash)).toFinset)
    (entries.length + 1) roots

/-- A block is removed with all that follow it. -/
def removeBranch (root : KvBlockHash) : List Entry :=
  let removed := descendants entries {root}
  entries.filter fun entry => entry.placement ≠ placement ∨ entry.block.blockHash ∉ removed

/-- The body of `prune`: the branches of the entries that were not seen for `ttl`. -/
def pruneEntries (ttl now : ℕ) (entries : List Entry) : List Entry :=
  let expired := (entries.filter fun entry => ttl < now - entry.observedAt).map
    fun entry => (entry.placement, entry.block.blockHash)
  expired.foldl (fun entries branch => removeBranch entries branch.1 branch.2) entries

/-- A group is removed at a placement. -/
def clearGroup (groupIdx : Option ℕ) : List Entry :=
  entries.filter fun entry =>
    entry.placement ≠ placement ∨ entry.block.partition.groupIdx ≠ groupIdx

/-- One round of the loop over stored blocks. -/
def storeBlock (now : ℕ) (entries : List Entry)
    (block : KvStoredBlock) : List Entry :=
  match entries.findIdx? fun entry =>
      entry.placement = placement ∧ entry.block.blockHash = block.blockHash with
  | some i => entries.modify i fun entry => { entry with observedAt := now }
  | none => entries ++ [⟨block, placement, now⟩]

/-- The index holds a block at a placement and for a group. -/
def holds (groupIdx : Option ℕ)
    (hash : KvBlockHash) : Bool :=
  entries.any fun entry =>
    entry.placement = placement ∧ entry.block.partition.groupIdx = groupIdx ∧
      entry.block.blockHash = hash

/-- Unless every block is known, the whole group is removed. -/
def removeBlocks (blockHashes : List KvBlockHash)
    (placement : KvPlacement) (groupIdx : Option ℕ) : List Entry :=
  let roots := orderedSet (blockHashes.filter (holds entries placement groupIdx))
  if roots.length ≠ blockHashes.length then clearGroup entries placement groupIdx
  else roots.foldl (fun entries root => removeBranch entries placement root) entries

/-- `apply` on the entries of its source. -/
def applyEntries (event : KvDeltaEvent) (now : ℕ) : List Entry :=
  match event with
  | .blockStored blocks placement => blocks.foldl (storeBlock placement now) entries
  | .blockRemoved blockHashes placement groupIdx =>
    removeBlocks entries blockHashes placement groupIdx
  | .allBlocksCleared => []

/-- All entries are observed again. -/
def touchEntries (now : ℕ) : List Entry :=
  entries.map fun entry => { entry with observedAt := now }

/-! ### Matching -/

/-- The partitions a query selects. -/
def matchingPartitions (query : KvPrefixQuery) : List KvPartition :=
  orderedSet ((entries.map (·.block.partition)).filter query.selects)

/-- The loop over the chunks of the prompt: how many of them are found one after the
other. -/
def matchedCompleteBlocks (entries : List Entry) (placement : KvPlacement) (key : KeyedDigest)
    (partition : KvPartition) (cacheSalt : Option String) :
    KvBlockHash → ℕ → List (List ℕ) → ℕ
  | _, _, [] => 0
  | parent, blockIndex, tokens :: rest =>
    let hash := normalizedKvBlockHash key parent tokens partition cacheSalt
    let found := entries.any fun entry =>
      entry.placement = placement ∧ entry.block.partition = partition ∧
        entry.block.blockIndex = blockIndex ∧ entry.block.parentHash = parent ∧
        entry.block.blockHash = hash
    if found then
      matchedCompleteBlocks entries placement key partition cacheSalt hash (blockIndex + 1)
        rest + 1
    else 0

/-- The tokens whose blocks are all held. -/
def matchedTokens (query : KvPrefixQuery) (key : KeyedDigest)
    (placement : KvPlacement) (partition : KvPartition) : ℕ :=
  matchedCompleteBlocks entries placement key partition query.cacheSalt "" 0
    (chunksExact partition.hashBlockSize query.tokens) * partition.hashBlockSize

/-- The matches at each placement. -/
def matching (query : KvPrefixQuery) (key : KeyedDigest) : List KvPrefixMatch :=
  let placements := orderedSet
    ((entries.map (·.placement)).filter fun placement => placement.locality ≠ .unspecified)
  let partitions := matchingPartitions entries query
  let groups :=
    if query.matchAllGroups then
      orderedSet (((entries.map (·.block.partition)).filter fun partition =>
        partition.modelRevision = query.modelRevision ∧ partition.scopeId = query.scopeId ∧
          partition.hashFormat = query.hashFormat).map (·.groupIdx))
    else orderedSet (partitions.map (·.groupIdx))
  sortByOrd <| placements.filterMap fun placement =>
    -- `matched_by_group`: the best partition of each group
    let matchedByGroup := (orderedSet (partitions.map (·.groupIdx))).map fun group =>
      ((partitions.filter (·.groupIdx = group)).map
        (matchedTokens entries query key placement)).foldl max 0
    let matchedTokens :=
      if query.matchAllGroups then
        if matchedByGroup.length = groups.length then matchedByGroup.min?.getD 0 else 0
      else matchedByGroup.max?.getD 0
    if 0 < matchedTokens then some ⟨placement, matchedTokens⟩ else none

end PositionalHash

/-! ### The index -/

/-- The entries of each source. -/
structure PositionalHashIndex where
  ttl : ℕ
  entriesBySource : Table KvEventSourceId (List PositionalHash.Entry)

namespace PositionalHashIndex

open PositionalHash

/-- An empty index. -/
def new (ttl : ℕ) : PositionalHashIndex := ⟨ttl, ∅⟩

section

variable (index : PositionalHashIndex) (source : KvEventSourceId)

/-- The expired entries are dropped. -/
def prune (now : ℕ) : PositionalHashIndex :=
  { index with
    entriesBySource := (index.entriesBySource.mapValues (pruneEntries index.ttl now)).retain
      fun _ entries => entries ≠ [] }

/-- The block size for a query, if there is one. -/
def blockSize (query : KvPrefixQuery) : Option ℕ :=
  (index.entriesBySource.lookup source).bind fun entries =>
    match orderedSet ((matchingPartitions entries query).map (·.hashBlockSize)) with
    | [size] => some size
    | _ => none

/-- A source is forgotten. -/
def clearSource : PositionalHashIndex :=
  { index with entriesBySource := index.entriesBySource.erase source }

/-- All epochs of a source are forgotten. -/
def clearEventSource (id : String) : PositionalHashIndex :=
  { index with
    entriesBySource := index.entriesBySource.retain fun source _ => source.eventSourceId ≠ id }

/-- An event of a source. -/
def apply (event : KvDeltaEvent)
    (now : ℕ) : PositionalHashIndex :=
  match event with
  | .blockStored blocks placement =>
    { index with
      entriesBySource := index.entriesBySource.modify source fun entries =>
        blocks.foldl (storeBlock placement now) entries }
  | .blockRemoved blockHashes placement groupIdx =>
    match index.entriesBySource.lookup source with
    | none => index
    | some entries =>
      { index with
        entriesBySource := index.entriesBySource.insert source
          (removeBlocks entries blockHashes placement groupIdx) }
  | .allBlocksCleared => index.clearSource source

/-- A source is observed again. -/
def touchSource (now : ℕ) : PositionalHashIndex :=
  match index.entriesBySource.lookup source with
  | none => index
  | some entries =>
    { index with entriesBySource := index.entriesBySource.insert source (touchEntries entries now) }

/-- The matches of a query, after pruning. -/
def query (index : PositionalHashIndex) (source : KvEventSourceId) (query : KvPrefixQuery)
    (key : KeyedDigest) (now : ℕ) : PositionalHashIndex × List KvPrefixMatch :=
  let index := index.prune now
  (index, ((index.entriesBySource.lookup source).map fun entries =>
    matching entries query key).getD [])

/-! ### What the methods do to the entries of a source -/

/-- The entries of a source. -/
def entries : List Entry :=
  (index.entriesBySource.lookup source).getD []

end

variable (index : PositionalHashIndex) (source x : KvEventSourceId)

lemma entries_of_lookup {index : PositionalHashIndex} {source : KvEventSourceId}
    {entries : List Entry} (h : index.entriesBySource.lookup source = some entries) :
    index.entries source = entries := by
  rw [PositionalHashIndex.entries, h, getD_some]

lemma entries_of_lookup_none {index : PositionalHashIndex} {source : KvEventSourceId}
    (h : index.entriesBySource.lookup source = none) : index.entries source = [] := by
  rw [entries, h, getD_none]

lemma entries_insert (held : List Entry) :
    entries { index with entriesBySource := index.entriesBySource.insert source held } x =
      if x = source then held else index.entries x := by
  rw [entries, lookup_insert_eq]
  split_ifs <;> rfl

lemma entries_clearSource :
    (index.clearSource source).entries x = if x = source then [] else index.entries x := by
  rw [entries, clearSource, lookup_erase_eq]
  split_ifs <;> rfl

lemma entries_clearEventSource (id : String) :
    (index.clearEventSource id).entries x =
      if x.eventSourceId = id then [] else index.entries x := by
  rw [entries, clearEventSource, lookup_retain]
  by_cases hid : x.eventSourceId = id
  · simp [hid]
  · cases hlook : index.entriesBySource.lookup x with
    | none => simp [entries, hlook]
    | some => simp [hid, entries, hlook, filter_some]

lemma entries_touchSource (now : ℕ) :
    (index.touchSource source now).entries x =
      if x = source then touchEntries (index.entries source) now else index.entries x := by
  rw [touchSource]
  cases hlook : index.entriesBySource.lookup source with
  | none =>
    split_ifs with hx
    · rw [hx, entries_of_lookup_none hlook]
      rfl
    · rfl
  | some =>
    rw [entries_insert, entries_of_lookup hlook]

lemma entries_prune (now : ℕ) :
    (index.prune now).entries x = pruneEntries index.ttl now (index.entries x) := by
  rw [entries, prune, lookup_retain, lookup_mapValues, entries]
  cases index.entriesBySource.lookup x with
  | none => rfl
  | some held =>
    by_cases hnil : pruneEntries index.ttl now held = []
    all_goals simp [hnil, filter_some]

lemma removeBlocks_nil (blockHashes : List KvBlockHash) (p : KvPlacement)
    (g : Option ℕ) : removeBlocks [] blockHashes p g = [] := by
  have hroots : blockHashes.filter (holds [] p g) = [] :=
    List.filter_eq_nil_iff.mpr (by simp [holds])
  rw [removeBlocks, hroots]
  split_ifs <;> rfl

lemma entries_apply (event : KvDeltaEvent) (now : ℕ) :
    (index.apply source event now).entries x =
      if x = source then applyEntries (index.entries source) event now else index.entries x := by
  cases event with
  | blockStored =>
    rw [apply, Table.modify, entries_insert]
    rfl
  | blockRemoved =>
    rw [apply]
    cases hlook : index.entriesBySource.lookup source with
    | none =>
      split_ifs with hx
      · rw [hx, entries_of_lookup_none hlook, applyEntries, removeBlocks_nil]
      · rfl
    | some =>
      rw [entries_insert, entries_of_lookup hlook]
      rfl
  | allBlocksCleared =>
    rw [apply, entries_clearSource]
    rfl

lemma ttl_apply (e : KvDeltaEvent) (now : ℕ) :
    (index.apply source e now).ttl = index.ttl := by
  cases e with
  | blockStored | allBlocksCleared => rfl
  | blockRemoved =>
    rw [apply]
    split
    · rfl
    · rfl

lemma ttl_touchSource (now : ℕ) : (index.touchSource source now).ttl = index.ttl := by
  rw [touchSource]
  split <;> rfl

lemma query_snd (q : KvPrefixQuery) (key : KeyedDigest) (now : ℕ) :
    (index.query source q key now).2 =
      matching (pruneEntries index.ttl now (index.entries source)) q key := by
  rw [← entries_prune, PositionalHashIndex.query, entries]
  cases (index.prune now).entriesBySource.lookup source with
  | none | some => rfl

end PositionalHashIndex

end Foretoken.KvLocality
