import Foretoken.KvLocality.Types

/-!
The radix tree index (`kv-indexer/src/index/radix_tree.rs`).

The Patricia map is a table keyed by byte paths; what the source asks of it (lookup, the keys that
continue or begin another) depends on the keys only. `pending_by_parent` is keyed by parent and
block, and the trees of a source by placement and group: the inner maps of the source are never
empty where that can be seen.

`storeBlock` calls itself for the children that waited for the new block. The calls are counted
down: a call that makes further calls has taken a block off the waiting ones (`storeBlock_eq`). The
loop of `wouldFormPendingCycle` visits each waiting parent at most once.
-/

namespace Foretoken.KvLocality

open List Nat Table

namespace RadixTree

/-- `HASH_BYTES`. -/
def hashLength : ℕ := 32

/-- A block on a path. -/
structure Entry where
  block : KvStoredBlock
  observedAt : ℕ
  deriving DecidableEq, Repr

/-- A block whose parent has not been seen. -/
structure PendingBlock where
  block : KvStoredBlock
  observedAt : ℕ
  deriving DecidableEq, Repr

/-- A block that waits and the parent it waits for. -/
structure PendingKey where
  parent : KvBlockHash
  block : KvBlockHash
  deriving DecidableEq, Ord, Repr

/-- The blocks of a group at a placement, by their paths. -/
structure GroupTree where
  entriesByPath : Table (List UInt8) Entry
  pathsByHash : Table KvBlockHash (List UInt8)
  pendingByParent : Table PendingKey PendingBlock

instance : Inhabited GroupTree := ⟨⟨∅, ∅, ∅⟩⟩

/-- The place of a group tree below its source. -/
structure TreeKey where
  placement : KvPlacement
  groupIdx : Option ℕ
  deriving DecidableEq, Ord, Repr

/-- The trees of a source. -/
abbrev SourceTree := Table TreeKey GroupTree

/-! ### One group tree -/

/-- A path segment: the bytes of a hash. -/
def hashBytes (hash : KvBlockHash) : Option (List UInt8) :=
  (Base64.decode hash).filter fun bytes => bytes.length = hashLength

section

variable (tree : GroupTree)

/-- The parent a block waits for. -/
def pendingParent (child : KvBlockHash) : Option KvBlockHash :=
  (tree.pendingByParent.toList.find? fun field => field.1.block = child).map (·.1.parent)

/-- How many blocks wait. -/
def waitingCount : ℕ := tree.pendingByParent.entries.length

/-- The loop of `would_form_pending_cycle`. -/
def cycleFrom (tree : GroupTree) (block : KvBlockHash) :
    ℕ → List KvBlockHash → KvBlockHash → Bool
  | 0, _, parent => parent ≠ ""
  | rounds + 1, visited, parent =>
    if parent ≠ "" ∧ parent ∉ visited then
      if parent = block then true
      else
        match pendingParent tree parent with
        | none => false
        | some next => cycleFrom tree block rounds (parent :: visited) next
    else parent ≠ ""

/-- Waiting for its parent, the block would wait for itself. -/
def wouldFormPendingCycle (block : KvStoredBlock) : Bool :=
  if block.parentHash = block.blockHash then true
  else cycleFrom tree block.blockHash (waitingCount tree + 2) [] block.parentHash

/-- The observation of a block that is already stored. -/
def refresh (path : List UInt8) (now : ℕ) : GroupTree :=
  match tree.entriesByPath.lookup path with
  | none => tree
  | some entry =>
    { tree with entriesByPath := tree.entriesByPath.insert path { entry with observedAt := now } }

/-- The path below which the children of a hash are stored. -/
def parentPath (parent : KvBlockHash) : Option (List UInt8) :=
  if parent = "" then some [] else tree.pathsByHash.lookup parent

/-- A block waits for its parent. -/
def park (block : KvStoredBlock) (now : ℕ) : GroupTree :=
  { tree with
    pendingByParent := tree.pendingByParent.insert ⟨block.parentHash, block.blockHash⟩
      ⟨block, now⟩ }

/-- The blocks that wait for a parent. -/
def waitingFor (parent : KvBlockHash) : List PendingBlock :=
  (tree.pendingByParent.toList.filter fun field => field.1.parent = parent).map (·.2)

/-- Store a block at its path and take its children off the waiting blocks. -/
def materialize (path : List UInt8) (block : KvStoredBlock) (now : ℕ) : GroupTree where
  pathsByHash := tree.pathsByHash.insert block.blockHash path
  entriesByPath := tree.entriesByPath.insert path ⟨block, now⟩
  pendingByParent := tree.pendingByParent.retain fun key _ => key.parent ≠ block.blockHash

/-- The body of `store_block`; `call` is the call it makes for each child. -/
def storeBlockBody (call : GroupTree → KvStoredBlock → ℕ → GroupTree) (tree : GroupTree)
    (block : KvStoredBlock) (now : ℕ) : GroupTree :=
  match tree.pathsByHash.lookup block.blockHash with
  | some path => refresh tree path now
  | none =>
    match hashBytes block.blockHash with
    | none => tree
    | some blockBytes =>
      match parentPath tree block.parentHash with
      | none => if wouldFormPendingCycle tree block then default else park tree block now
      | some path =>
        (waitingFor tree block.blockHash).foldl
          (fun tree child => call tree child.block child.observedAt)
          (materialize tree (path ++ blockBytes) block now)

/-- `store_block` with a bound on the depth of its calls. -/
def storeBlockWithin : ℕ → GroupTree → KvStoredBlock → ℕ → GroupTree
  | 0 => fun tree _ _ => tree
  | depth + 1 => storeBlockBody (storeBlockWithin depth)

/-- A block is stored with those that waited for it. -/
def storeBlock (block : KvStoredBlock) (now : ℕ) : GroupTree :=
  storeBlockWithin (waitingCount tree + 1) tree block now

/-- A block is removed with all below it. -/
def removeSubtree (root : KvBlockHash) : GroupTree :=
  match tree.pathsByHash.lookup root with
  | none => tree
  | some path =>
    let removed := (tree.entriesByPath.toList.filter fun field => path <+: field.1).map
      (·.2.block.blockHash)
    { entriesByPath := tree.entriesByPath.retain fun key _ => ¬ path <+: key
      pathsByHash := tree.pathsByHash.retain fun hash _ => hash ∉ removed
      pendingByParent := tree.pendingByParent.retain fun key _ =>
        key.parent ∉ removed ∧ key.parent ≠ root }

/-- The body of the branch for removed blocks. -/
def removeBlocks (blockHashes : List KvBlockHash) : GroupTree :=
  if blockHashes.all fun hash => (tree.pathsByHash.lookup hash).isSome then
    blockHashes.foldl removeSubtree tree
  else default

/-- The body of `prune`: stale subtrees and stale waiting blocks. -/
def pruneTree (ttl now : ℕ) (tree : GroupTree) : GroupTree :=
  let expired := (tree.entriesByPath.toList.filter fun field => ttl < now - field.2.observedAt).map
    (·.2.block.blockHash)
  let tree := expired.foldl removeSubtree tree
  { tree with
    pendingByParent := tree.pendingByParent.retain fun _ pending =>
      now - pending.observedAt ≤ ttl }

/-- All entries are observed again. -/
def touchTree (now : ℕ) : GroupTree :=
  { tree with
    entriesByPath := tree.entriesByPath.mapValues fun entry => { entry with observedAt := now } }

end

/-- `apply` on the tree of a placement and a group. -/
def applyTree (place : TreeKey) (tree : GroupTree) (event : KvDeltaEvent) (now : ℕ) : GroupTree :=
  match event with
  | .blockStored blocks placement =>
    if placement = place.placement then
      (blocks.filter (·.partition.groupIdx = place.groupIdx)).foldl
        (fun tree block => storeBlock tree block now) tree
    else tree
  | .blockRemoved blockHashes placement groupIdx =>
    if placement = place.placement ∧ groupIdx = place.groupIdx then removeBlocks tree blockHashes
    else tree
  | .allBlocksCleared => default

/-! ### The bounds suffice -/

lemma waitingCount_park (T : GroupTree) (b : KvStoredBlock) (now : ℕ) :
    waitingCount (park T b now) ≤ waitingCount T + 1 := by
  exact succ_le_succ (kerase_sublist _ _).length_le

/-- The children of a stored block no longer wait. -/
lemma waitingCount_materialize (tree : GroupTree) (path : List UInt8) (block : KvStoredBlock)
    (now : ℕ) :
    waitingCount (materialize tree path block now) + (waitingFor tree block.blockHash).length =
      waitingCount tree := by
  have hperm := perm_insertionSort (fun a b => (compare a.1 b.1).isLE = true)
    (tree.pendingByParent.entries.map fun e => (e.1, e.2))
  have hwait : (waitingFor tree block.blockHash).length =
      (tree.pendingByParent.entries.filter fun e => e.1.parent = block.blockHash).length := by
    rw [waitingFor, length_map, toList, (hperm.filter _).length_eq, filter_map,
      length_map]
    rfl
  have hsplit := length_eq_length_filter_add (l := tree.pendingByParent.entries)
    fun e => decide (e.1.parent = block.blockHash)
  rw [hwait, waitingCount, waitingCount, hsplit, materialize, retain, add_comm]
  simp only [decide_not]

lemma waitingCount_foldl_le {β : Type*} (f : GroupTree → β → GroupTree)
    (hf : ∀ T b, waitingCount (f T b) ≤ waitingCount T + 1) (l : List β)
    (T : GroupTree) : waitingCount (l.foldl f T) ≤ waitingCount T + l.length := by
  induction l generalizing T with
  | nil => exact le_refl _
  | cons b l ih =>
    have hfirst := hf T b
    have hrest := ih (f T b)
    rw [foldl_cons, length_cons]
    omega

lemma waitingCount_storeBlockBody {call : GroupTree → KvStoredBlock → ℕ → GroupTree}
    (hcall : ∀ T b now, waitingCount (call T b now) ≤ waitingCount T + 1)
    (T : GroupTree) (b : KvStoredBlock) (now : ℕ) :
    waitingCount (storeBlockBody call T b now) ≤ waitingCount T + 1 := by
  rw [storeBlockBody]
  split
  · rw [refresh]
    split <;> exact le_succ _
  · split
    · exact le_succ _
    · split
      · split_ifs
        · exact zero_le _
        · exact waitingCount_park T b now
      · refine (waitingCount_foldl_le _ (fun T c => hcall T _ _) _ _).trans ?_
        rw [waitingCount_materialize]
        exact le_succ _

lemma waitingCount_storeBlockWithin (n : ℕ) (T : GroupTree) (b : KvStoredBlock)
    (now : ℕ) : waitingCount (storeBlockWithin n T b now) ≤ waitingCount T + 1 := by
  induction n generalizing T b now with
  | zero => exact le_succ _
  | succ n ih => exact waitingCount_storeBlockBody ih T b now

section Call

variable {call call' : GroupTree → KvStoredBlock → ℕ → GroupTree}

lemma foldl_call_congr {bound : ℕ}
    (hcall : ∀ tree block now, waitingCount (call tree block now) ≤ waitingCount tree + 1)
    (hagree : ∀ tree block now, waitingCount tree < bound →
      call tree block now = call' tree block now)
    (children : List PendingBlock) (tree : GroupTree)
    (hbound : waitingCount tree + children.length ≤ bound) :
    children.foldl (fun tree child => call tree child.block child.observedAt) tree =
      children.foldl (fun tree child => call' tree child.block child.observedAt) tree := by
  induction children generalizing tree with
  | nil => rfl
  | cons child children ih =>
    rw [length_cons] at hbound
    have hcount := hcall tree child.block child.observedAt
    rw [foldl_cons, foldl_cons, ← hagree tree _ _ (by omega)]
    exact ih _ (by omega)

/-- A body calls on trees with fewer waiting blocks. -/
lemma storeBlockBody_congr {T : GroupTree}
    (hcall : ∀ T b now, waitingCount (call T b now) ≤ waitingCount T + 1)
    (hagree : ∀ below b now, waitingCount below < waitingCount T →
      call below b now = call' below b now) (b : KvStoredBlock) (now : ℕ) :
    storeBlockBody call T b now = storeBlockBody call' T b now := by
  rw [storeBlockBody, storeBlockBody]
  split
  · rfl
  · split
    · rfl
    · split
      · rfl
      · exact foldl_call_congr hcall hagree _ _ (waitingCount_materialize ..).le

end Call

lemma storeBlockWithin_congr {n n' : ℕ} {T : GroupTree}
    (hdepth : waitingCount T < n) (hdepth' : waitingCount T < n')
    (b : KvStoredBlock) (now : ℕ) :
    storeBlockWithin n T b now = storeBlockWithin n' T b now := by
  induction n generalizing n' T b now with
  | zero => exact absurd hdepth (not_lt_zero _)
  | succ n ih =>
    obtain ⟨n', rfl⟩ := exists_eq_succ_of_ne_zero (ne_zero_of_lt hdepth')
    refine storeBlockBody_congr (waitingCount_storeBlockWithin n) ?_ b now
    intro below b now hbelow
    exact ih (by omega) (by omega) b now

/-- **`store_block` calls itself as the source has it**: the bound is never reached. -/
theorem storeBlock_eq (T : GroupTree) (b : KvStoredBlock) (now : ℕ) :
    storeBlock T b now = storeBlockBody storeBlock T b now := by
  refine storeBlockBody_congr (waitingCount_storeBlockWithin _) ?_ b now
  intro below b now hbelow
  exact storeBlockWithin_congr hbelow (lt_succ_self _) b now

/-- The parents that are waited for. -/
def waitedParents (tree : GroupTree) : Finset KvBlockHash :=
  (tree.pendingByParent.entries.map (·.1.parent)).toFinset

lemma pendingParent_mem {tree : GroupTree} {child parent : KvBlockHash}
    (h : pendingParent tree child = some parent) : parent ∈ waitedParents tree := by
  obtain ⟨field, hfind, rfl⟩ := Option.map_eq_some_iff.mp h
  have hlook := mem_toList.mp (mem_of_find?_eq_some hfind)
  exact mem_toFinset.mpr (mem_map.mpr ⟨_, AList.mem_lookup_iff.mp hlook, rfl⟩)

lemma cycleFrom_congr (tree : GroupTree) (block : KvBlockHash) {seen : Finset KvBlockHash}
    (hseen : waitedParents tree ⊆ seen) (rounds rounds' : ℕ) (visited : List KvBlockHash)
    (parent : KvBlockHash) (hpar : parent ∈ seen)
    (hrnds : (seen \ visited.toFinset).card < rounds)
    (hrnds' : (seen \ visited.toFinset).card < rounds') :
    cycleFrom tree block rounds visited parent = cycleFrom tree block rounds' visited parent := by
  induction rounds generalizing rounds' visited parent with
  | zero => exact absurd hrnds (not_lt_zero _)
  | succ rounds ih =>
    obtain ⟨rounds', rfl⟩ := exists_eq_succ_of_ne_zero (ne_zero_of_lt hrnds')
    rw [cycleFrom, cycleFrom]
    by_cases hgo : parent ≠ "" ∧ parent ∉ visited
    · rw [if_pos hgo]
      split_ifs
      · rfl
      · cases hnext : pendingParent tree parent with
        | none => rfl
        | some =>
          -- the parent visited in this round is one fewer to come
          have hlt : (seen \ (parent :: visited).toFinset).card <
              (seen \ visited.toFinset).card := by
            rw [toFinset_cons, Finset.sdiff_insert]
            refine Finset.card_erase_lt_of_mem (Finset.mem_sdiff.mpr ⟨hpar, ?_⟩)
            simpa using hgo.2
          exact ih _ _ _ (hseen (pendingParent_mem hnext)) (by omega) (by omega)
    · rw [if_neg hgo, if_neg hgo]

/-- **The cycle check ends by itself**: further rounds do not change its answer. -/
theorem cycleFrom_rounds (T : GroupTree) (b : KvStoredBlock) {ns : ℕ}
    (hrnds : waitingCount T + 2 ≤ ns) :
    cycleFrom T b.blockHash ns [] b.parentHash =
      cycleFrom T b.blockHash (waitingCount T + 2) [] b.parentHash := by
  have hcard : (insert b.parentHash (waitedParents T)).card < waitingCount T + 2 := by
    refine lt_succ_of_le ((Finset.card_insert_le _ _).trans (succ_le_succ ?_))
    refine (toFinset_card_le _).trans ?_
    rw [length_map, waitingCount]
  refine cycleFrom_congr T b.blockHash (Finset.subset_insert _ _) _ _ _ _
    (Finset.mem_insert_self _ _) ?_ ?_
  · simpa using hcard.trans_le hrnds
  · simpa using hcard

/-! ### Matching -/

section

variable (tree : GroupTree) (query : KvPrefixQuery) (key : KeyedDigest) (partition : KvPartition)

/-- The partitions a query selects. -/
def matchingPartitions : List KvPartition :=
  orderedSet ((tree.entriesByPath.toList.map (·.2.block.partition)).filter query.selects)

/-- The loop of `query_path`; `none` when a hash has no 32 bytes. -/
def queryPathFrom (key : KeyedDigest) (partition : KvPartition) (cacheSalt : Option String) :
    KvBlockHash → List (List ℕ) → Option (List UInt8)
  | _, [] => some []
  | parent, tokens :: rest =>
    let hash := normalizedKvBlockHash key parent tokens partition cacheSalt
    (hashBytes hash).bind fun bytes =>
      (queryPathFrom key partition cacheSalt hash rest).map (bytes ++ ·)

/-- The path of a prompt. -/
def queryPath (query : KvPrefixQuery) (partition : KvPartition) : List UInt8 :=
  (queryPathFrom key partition query.cacheSalt ""
    (chunksExact partition.hashBlockSize query.tokens)).getD []

/-- The length of the deepest stored boundary of a query path. -/
def bestBoundary (path : List UInt8) : Option ℕ :=
  let common := ((tree.entriesByPath.toList.filter fun field =>
    field.1 <+: path ∧ field.1.length % hashLength = 0 ∧
      field.2.block.partition = partition).map (·.1.length)).max?
  ((List.range (path.length / hashLength)).map fun i => (i + 1) * hashLength).foldl
    (fun best boundary =>
      match tree.entriesByPath.lookup (path.take boundary) with
      | some entry => if entry.block.partition = partition then some boundary else best
      | none => best)
    common

/-- The tokens of the longest stored path. -/
def matchedTokens : ℕ :=
  match bestBoundary tree partition (queryPath key query partition) with
  | some length => length / hashLength * partition.hashBlockSize
  | none => 0

/-- The longest match in a group. -/
def groupMatch : ℕ :=
  ((matchingPartitions tree query).map (matchedTokens tree query key)).foldl max 0

end

/-- The matches at each placement. -/
def matching (sourceTree : SourceTree) (query : KvPrefixQuery) (key : KeyedDigest) :
    List KvPrefixMatch :=
  let expectedGroups := orderedSet (sourceTree.toList.map (·.1.groupIdx))
  let placements := orderedSet (sourceTree.toList.map (·.1.placement))
  sortByOrd <| placements.filterMap fun placement =>
    if placement.locality = .unspecified then none
    else
      let selectedGroups := sourceTree.toList.filter fun field =>
        field.1.placement = placement ∧
          (query.matchAllGroups ∨ field.1.groupIdx = query.groupIdx)
      if selectedGroups.isEmpty ∨
          (query.matchAllGroups ∧ selectedGroups.length ≠ expectedGroups.length) then none
      else
        let matchedByGroup := selectedGroups.map fun field => groupMatch field.2 query key
        let matchedTokens :=
          if query.matchAllGroups then matchedByGroup.min?.getD 0 else matchedByGroup.max?.getD 0
        if 0 < matchedTokens then some ⟨placement, matchedTokens⟩ else none

end RadixTree

/-! ### The index -/

/-- The trees of each source. -/
structure RadixTreeIndex where
  ttl : ℕ
  treesBySource : Table KvEventSourceId RadixTree.SourceTree

namespace RadixTreeIndex

open RadixTree

/-- An empty index. -/
def new (ttl : ℕ) : RadixTreeIndex := ⟨ttl, ∅⟩

section

variable (index : RadixTreeIndex) (source : KvEventSourceId)

/-- The expired entries are dropped, and trees left empty. -/
def prune (now : ℕ) : RadixTreeIndex :=
  { index with
    treesBySource := (index.treesBySource.mapValues fun sourceTree =>
      retain (sourceTree.mapValues (pruneTree index.ttl now)) fun _ tree =>
        !tree.entriesByPath.entries.isEmpty || !tree.pendingByParent.entries.isEmpty).retain
      fun _ sourceTree => !sourceTree.entries.isEmpty }

/-- The block size for a query, if there is one. -/
def blockSize (query : KvPrefixQuery) : Option ℕ :=
  (index.treesBySource.lookup source).bind fun sourceTree =>
    let partitions := (sourceTree.toList.filter fun field =>
      field.1.groupIdx = query.groupIdx).flatMap fun field => matchingPartitions field.2 query
    match orderedSet (partitions.map (·.hashBlockSize)) with
    | [size] => some size
    | _ => none

/-- A source is forgotten. -/
def clearSource : RadixTreeIndex :=
  { index with treesBySource := index.treesBySource.erase source }

/-- All epochs of a source are forgotten. -/
def clearEventSource (id : String) : RadixTreeIndex :=
  { index with
    treesBySource := index.treesBySource.retain fun source _ => source.eventSourceId ≠ id }

/-- An event of a source. -/
def apply (event : KvDeltaEvent) (now : ℕ) : RadixTreeIndex :=
  match event with
  | .blockStored blocks placement =>
    { index with
      treesBySource := index.treesBySource.modify source fun sourceTree =>
        blocks.foldl (fun sourceTree block =>
          sourceTree.modify ⟨placement, block.partition.groupIdx⟩ fun tree =>
            storeBlock tree block now) sourceTree }
  | .blockRemoved blockHashes placement groupIdx =>
    match index.treesBySource.lookup source with
    | none => index
    | some sourceTree =>
      match sourceTree.lookup ⟨placement, groupIdx⟩ with
      | none => index
      | some tree =>
        { index with
          treesBySource := index.treesBySource.insert source
            (sourceTree.insert ⟨placement, groupIdx⟩ (removeBlocks tree blockHashes)) }
  | .allBlocksCleared => index.clearSource source

/-- A source is observed again. -/
def touchSource (now : ℕ) : RadixTreeIndex :=
  match index.treesBySource.lookup source with
  | none => index
  | some sourceTree =>
    { index with
      treesBySource := index.treesBySource.insert source
        (sourceTree.mapValues fun tree => touchTree tree now) }

/-- The matches of a query, after pruning. -/
def query (index : RadixTreeIndex) (source : KvEventSourceId) (query : KvPrefixQuery)
    (key : KeyedDigest) (now : ℕ) : RadixTreeIndex × List KvPrefixMatch :=
  let index := index.prune now
  (index, ((index.treesBySource.lookup source).map fun sourceTree =>
    matching sourceTree query key).getD [])

/-! ### What the methods do to the trees of a source -/

/-- The tree of a source at a placement and for a group. -/
def tree (place : TreeKey) : GroupTree :=
  (((index.treesBySource.lookup source).getD ∅).lookup place).getD default

end

variable (index : RadixTreeIndex) (source x : KvEventSourceId) (place : TreeKey)

lemma tree_of_lookup {index : RadixTreeIndex} {source : KvEventSourceId} {T : SourceTree}
    (h : index.treesBySource.lookup source = some T) :
    index.tree source place = (T.lookup place).getD default := by
  rw [tree, h, Option.getD_some]

lemma tree_of_lookup_none {index : RadixTreeIndex} {source : KvEventSourceId}
    (h : index.treesBySource.lookup source = none) : index.tree source place = default := by
  rw [tree, h]
  rfl

lemma tree_insert (T : SourceTree) :
    tree { index with treesBySource := index.treesBySource.insert source T } x place =
      if x = source then (T.lookup place).getD default else index.tree x place := by
  rw [tree, lookup_insert_eq]
  split_ifs <;> rfl

lemma tree_clearSource :
    (index.clearSource source).tree x place =
      if x = source then default else index.tree x place := by
  rw [tree, clearSource, lookup_erase_eq]
  split_ifs <;> rfl

lemma tree_clearEventSource (id : String) :
    (index.clearEventSource id).tree x place =
      if x.eventSourceId = id then default else index.tree x place := by
  rw [tree, clearEventSource, lookup_retain]
  cases hlook : index.treesBySource.lookup x with
  | none => simp [tree, hlook]
  | some =>
    by_cases hid : x.eventSourceId = id
    · simp [hid]
    · simp [hid, tree, hlook, Option.filter_some]

lemma tree_touchSource (now : ℕ) :
    (index.touchSource source now).tree x place =
      if x = source then touchTree (index.tree source place) now else index.tree x place := by
  rw [touchSource]
  cases hlook : index.treesBySource.lookup source with
  | none =>
    split_ifs with hx
    · rw [hx, tree_of_lookup_none place hlook]
      rfl
    · rfl
  | some T =>
    rw [tree_insert, tree_of_lookup place hlook, lookup_mapValues]
    cases T.lookup place with
    | none | some => rfl

/-- The tree of a place changes by its own blocks. -/
lemma lookup_foldl_store (p : KvPlacement) (now : ℕ) (bs : List KvStoredBlock)
    (T : SourceTree) :
    ((bs.foldl (fun T b =>
        T.modify ⟨p, b.partition.groupIdx⟩ fun tr =>
          storeBlock tr b now) T).lookup place).getD default =
      applyTree place ((T.lookup place).getD default) (.blockStored bs p)
        now := by
  induction bs generalizing T with
  | nil => simp [applyTree]
  | cons b bs ih =>
    rw [foldl_cons, ih, lookup_modify]
    by_cases hplace : place = ⟨p, b.partition.groupIdx⟩
    · subst hplace
      simp [applyTree]
    · rw [applyTree, applyTree]
      split_ifs with hplc
      · have hgroup : b.partition.groupIdx ≠ place.groupIdx := by
          rintro hgroup
          exact hplace (by rw [hplc, hgroup])
        rw [filter_cons_of_neg (by simpa using hgroup)]
      · rfl

lemma removeBlocks_default (blockHashes : List KvBlockHash) :
    removeBlocks default blockHashes = default := by
  cases blockHashes with
  | nil | cons => rfl

lemma tree_apply (e : KvDeltaEvent) (now : ℕ) :
    (index.apply source e now).tree x place =
      if x = source then applyTree place (index.tree source place) e now
      else index.tree x place := by
  cases e with
  | blockStored =>
    rw [apply, Table.modify, tree_insert, lookup_foldl_store]
    rfl
  | blockRemoved blockHashes p g =>
    rw [apply]
    cases hlook : index.treesBySource.lookup source with
    | none =>
      split_ifs with hx
      · rw [hx, tree_of_lookup_none place hlook, applyTree, removeBlocks_default, ite_self]
      · rfl
    | some T =>
      dsimp only
      rw [applyTree, tree_of_lookup place hlook]
      cases htree : T.lookup ⟨p, g⟩ with
      | none =>
        split_ifs with hx hplace
        · obtain rfl : place = ⟨p, g⟩ := by rw [hplace.1, hplace.2]
          rw [hx, tree_of_lookup _ hlook, htree, Option.getD_none, removeBlocks_default]
        · rw [hx, tree_of_lookup _ hlook]
        · rfl
      | some =>
        rw [tree_insert, lookup_insert_eq]
        by_cases hplace : place = ⟨p, g⟩
        · subst hplace
          simp [htree]
        · have hne : ¬(p = place.placement ∧ g = place.groupIdx) :=
            fun h => hplace (by rw [h.1, h.2])
          rw [if_neg hplace, if_neg hne]
  | allBlocksCleared =>
    rw [apply, tree_clearSource]
    rfl

lemma ttl_apply (e : KvDeltaEvent) (now : ℕ) :
    (index.apply source e now).ttl = index.ttl := by
  cases e with
  | blockStored | allBlocksCleared => rfl
  | blockRemoved =>
    rw [apply]
    split
    · rfl
    · split
      · rfl
      · rfl

lemma ttl_touchSource (now : ℕ) : (index.touchSource source now).ttl = index.ttl := by
  rw [touchSource]
  split <;> rfl

end RadixTreeIndex

end Foretoken.KvLocality
