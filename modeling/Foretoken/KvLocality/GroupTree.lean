import Foretoken.KvLocality.RadixTree

/-!
The representation invariant of a group tree, which every operation keeps whatever the blocks are.
-/

namespace Foretoken.KvLocality

open Option Table

variable {hash root : KvBlockHash}

namespace RadixTree

/-- The two maps agree, paths follow the parents, and no stored block is waited for. -/
structure Coherent (tree : GroupTree) : Prop where
  path_stored : ∀ {hash path}, tree.pathsByHash.lookup hash = some path →
    ∃ entry, tree.entriesByPath.lookup path = some entry ∧ entry.block.blockHash = hash
  stored_path : ∀ {path entry}, tree.entriesByPath.lookup path = some entry →
    tree.pathsByHash.lookup entry.block.blockHash = some path
  path_eq : ∀ {path entry}, tree.entriesByPath.lookup path = some entry →
    ∃ above bytes, parentPath tree entry.block.parentHash = some above ∧
      hashBytes entry.block.blockHash = some bytes ∧ path = above ++ bytes
  waiting : ∀ {key pending}, tree.pendingByParent.lookup key = some pending →
    pending.block.parentHash = key.parent ∧ pending.block.blockHash = key.block ∧
      parentPath tree key.parent = none

lemma coherent_default : Coherent default where
  path_stored h := by cases h
  stored_path h := by cases h
  path_eq h := by cases h
  waiting h := by cases h

lemma hashBytes_eq_some {bytes : List UInt8} :
    hashBytes hash = some bytes ↔ Base64.decode hash = some bytes ∧ bytes.length = hashLength := by
  rw [hashBytes]
  simp

lemma hashBytes_inj {hash' : KvBlockHash} {bytes : List UInt8} (h : hashBytes hash = some bytes)
    (h' : hashBytes hash' = some bytes) : hash = hash' :=
  Base64.decode_inj (hashBytes_eq_some.mp h).1 (hashBytes_eq_some.mp h').1

lemma parentPath_eq_some {tree : GroupTree} {p : KvBlockHash} {path : List UInt8} :
    parentPath tree p = some path ↔
      (p = "" ∧ path = []) ∨ (p ≠ "" ∧ tree.pathsByHash.lookup p = some path) := by
  rw [parentPath]
  split_ifs with hpar <;> simp [hpar]

variable {tree tree' : GroupTree} {b : KvStoredBlock} {path : List UInt8} {now : ℕ}

section

variable (h : Coherent tree)
include h

/-- Times do not matter, and waiting blocks may be dropped. -/
lemma Coherent.of_blocks (hpaths : tree'.pathsByHash = tree.pathsByHash)
    (hents : ∀ path, (tree'.entriesByPath.lookup path).map (·.block) =
      (tree.entriesByPath.lookup path).map (·.block))
    (hpend : ∀ key pending, tree'.pendingByParent.lookup key = some pending →
      tree.pendingByParent.lookup key = some pending) : Coherent tree' := by
  have hpar : ∀ parent, parentPath tree' parent = parentPath tree parent := by
    intro parent
    rw [parentPath, parentPath, hpaths]
  have hentry : ∀ {path entry}, tree'.entriesByPath.lookup path = some entry →
      ∃ old, tree.entriesByPath.lookup path = some old ∧ old.block = entry.block := by
    intro path entry hlook
    have hmap := hents path
    rwa [hlook, map_some, eq_comm, map_eq_some_iff] at hmap
  refine ⟨?_, ?_, ?_, ?_⟩
  · intro hash path hlook
    rw [hpaths] at hlook
    obtain ⟨old, hold, hhash⟩ := h.path_stored hlook
    have hmap := hents path
    rw [hold, map_some, map_eq_some_iff] at hmap
    obtain ⟨entry, hentry', hblock⟩ := hmap
    exact ⟨entry, hentry', by rw [hblock, hhash]⟩
  · intro path entry hlook
    obtain ⟨old, hold, hblock⟩ := hentry hlook
    rw [hpaths, ← hblock]
    exact h.stored_path hold
  · intro path entry hlook
    obtain ⟨old, hold, hblock⟩ := hentry hlook
    rw [hpar, ← hblock]
    exact h.path_eq hold
  · intro key pending hlook
    rw [hpar]
    exact h.waiting (hpend key pending hlook)

lemma Coherent.refresh : Coherent (refresh tree path now) := by
  rw [RadixTree.refresh]
  cases hlook : tree.entriesByPath.lookup path with
  | none => exact h
  | some =>
    refine h.of_blocks rfl (fun x => ?_) (fun _ _ hpend => hpend)
    rcases eq_or_ne x path with rfl | hx <;> simp [*]

lemma Coherent.touchTree : Coherent (touchTree tree now) := by
  refine h.of_blocks rfl (fun x => ?_) (fun _ _ hpend => hpend)
  rw [RadixTree.touchTree]
  rw [lookup_mapValues, map_map]
  rfl

lemma Coherent.park (hpar : parentPath tree b.parentHash = none) :
    Coherent (park tree b now) where
  path_stored := h.path_stored
  stored_path := h.stored_path
  path_eq := h.path_eq
  waiting := by
    intro key pending hlook
    rw [RadixTree.park, lookup_insert_eq] at hlook
    split_ifs at hlook with hkey
    · cases hlook
      exact hkey ▸ ⟨rfl, rfl, hpar⟩
    · exact h.waiting hlook

end

/-! ### Storing a block at its path -/

section Materialize

variable {above bytes : List UInt8}

lemma parentPath_materialize (hnew : tree.pathsByHash.lookup b.blockHash = none)
    {pa : KvBlockHash} (hpar : parentPath tree pa = some path) (p : List UInt8) :
    parentPath (materialize tree p b now) pa = some path := by
  rw [parentPath_eq_some] at hpar ⊢
  refine hpar.imp_right fun ⟨hne, hlook⟩ => ⟨hne, ?_⟩
  rw [materialize, lookup_insert_eq, if_neg, hlook]
  rintro rfl
  simp [hnew] at hlook

section

variable (h : Coherent tree) (hnew : tree.pathsByHash.lookup b.blockHash = none)
  (hbytes : hashBytes b.blockHash = some bytes)
include h hnew hbytes

/-- The path of a new block is not taken. -/
lemma Coherent.path_free :
    tree.entriesByPath.lookup (above ++ bytes) = none := by
  cases hlook : tree.entriesByPath.lookup (above ++ bytes) with
  | none => rfl
  | some =>
    obtain ⟨above', bytes', -, hbytes', heq⟩ := h.path_eq hlook
    have hlen : bytes.length = bytes'.length := by
      rw [(hashBytes_eq_some.mp hbytes).2, (hashBytes_eq_some.mp hbytes').2]
    obtain rfl : bytes = bytes' := (List.append_inj' heq hlen).2
    have hpath := h.stored_path hlook
    rw [hashBytes_inj hbytes' hbytes, hnew] at hpath
    cases hpath

lemma Coherent.materialize (hpar : parentPath tree b.parentHash = some above) :
    Coherent (materialize tree (above ++ bytes) b now) where
  path_stored := by
    intro hash path hlook
    rw [RadixTree.materialize, lookup_insert_eq] at hlook ⊢
    split_ifs at hlook with hhash
    · cases hlook
      exact ⟨⟨b, now⟩, if_pos rfl, hhash.symm⟩
    · obtain ⟨e, hentry, heq⟩ := h.path_stored hlook
      have hfree : tree.entriesByPath.lookup (above ++ bytes) = none := h.path_free hnew hbytes
      exact ⟨e, by grind, heq⟩
  stored_path := by
    intro path e hlook
    rw [RadixTree.materialize, lookup_insert_eq] at hlook ⊢
    grind [h.stored_path]
  path_eq := by
    intro path e hlook
    rw [RadixTree.materialize, lookup_insert_eq] at hlook
    split_ifs at hlook with hpath
    · cases hlook
      exact ⟨above, bytes, parentPath_materialize hnew hpar _, hbytes, hpath⟩
    · obtain ⟨above', bytes', hpar', hbytes', heq⟩ := h.path_eq hlook
      exact ⟨above', bytes', parentPath_materialize hnew hpar' _, hbytes', heq⟩
  waiting := by
    intro key pending hlook
    rw [RadixTree.materialize, lookup_retain, filter_eq_some_iff] at hlook
    obtain ⟨hlook, hkey⟩ := hlook
    obtain ⟨hpar', hblock, hnone⟩ := h.waiting hlook
    refine ⟨hpar', hblock, ?_⟩
    rw [parentPath] at hnone ⊢
    split_ifs at hnone ⊢ with hempty
    rw [RadixTree.materialize, lookup_insert_eq, if_neg (by simpa using hkey), hnone]

end

end Materialize

lemma Coherent.storeBlockWithin (n : ℕ) (h : Coherent tree) :
    Coherent (storeBlockWithin n tree b now) := by
  induction n generalizing tree b now with
  | zero => exact h
  | succ n ih =>
    rw [RadixTree.storeBlockWithin, storeBlockBody]
    cases hnew : tree.pathsByHash.lookup b.blockHash with
    | some => exact h.refresh
    | none =>
      cases hbytes : hashBytes b.blockHash with
      | none => exact h
      | some =>
        cases hpar : parentPath tree b.parentHash with
        | none =>
          split_ifs
          · exact coherent_default
          · exact h.park hpar
        | some =>
          refine List.foldlRecOn _ _ (h.materialize hnew hbytes hpar) ?_
          intro tree htree c _
          exact ih htree

lemma Coherent.storeBlock (h : Coherent tree) : Coherent (storeBlock tree b now) :=
  h.storeBlockWithin _

/-! ### Removing a subtree -/

/-- The removed blocks are those below the root's path. -/
lemma Coherent.mem_removed (h : Coherent tree) :
    hash ∈ (tree.entriesByPath.toList.filter fun f => path <+: f.1).map
        (·.2.block.blockHash) ↔
      ∃ long, tree.pathsByHash.lookup hash = some long ∧ path <+: long := by
  simp only [List.mem_map, List.mem_filter, decide_eq_true_eq]
  constructor
  · rintro ⟨⟨long, e⟩, ⟨hmem, hlong⟩, rfl⟩
    exact ⟨long, h.stored_path (mem_toList.mp hmem), hlong⟩
  · rintro ⟨long, hlook, hlong⟩
    obtain ⟨e, hentry, hhash⟩ := h.path_stored hlook
    exact ⟨(long, e), ⟨mem_toList.mpr hentry, hlong⟩, hhash⟩

lemma Coherent.removeSubtree_eq (h : Coherent tree)
    (hroot : tree.pathsByHash.lookup root = some path) :
    (∀ hash long, (removeSubtree tree root).pathsByHash.lookup hash = some long ↔
      tree.pathsByHash.lookup hash = some long ∧ ¬ path <+: long) ∧
    (∀ long e, (removeSubtree tree root).entriesByPath.lookup long = some e ↔
      tree.entriesByPath.lookup long = some e ∧ ¬ path <+: long) := by
  rw [removeSubtree, hroot]
  refine ⟨fun hash long => ?_, fun long e => ?_⟩
  · dsimp only
    rw [lookup_retain, filter_eq_some_iff, decide_eq_true_eq, h.mem_removed]
    refine and_congr_right fun hlook => ?_
    rw [hlook]
    simp
  · dsimp only
    rw [lookup_retain, filter_eq_some_iff, decide_eq_true_eq]

lemma pending_removeSubtree {key : PendingKey} {pending : PendingBlock}
    (hlook : (removeSubtree tree root).pendingByParent.lookup key = some pending) :
    tree.pendingByParent.lookup key = some pending := by
  rw [removeSubtree] at hlook
  split at hlook
  · exact hlook
  · dsimp only at hlook
    rw [lookup_retain, filter_eq_some_iff] at hlook
    exact hlook.1

lemma removeSubtree_of_unknown (hroot : tree.pathsByHash.lookup root = none) :
    removeSubtree tree root = tree := by
  rw [removeSubtree, hroot]

section

variable (h : Coherent tree)
include h

lemma Coherent.removeSubtree (root : KvBlockHash) :
    Coherent (removeSubtree tree root) := by
  cases hroot : tree.pathsByHash.lookup root with
  | none =>
    rwa [removeSubtree_of_unknown hroot]
  | some =>
    obtain ⟨hpaths, hents⟩ := h.removeSubtree_eq hroot
    refine ⟨?_, ?_, ?_, ?_⟩
    · intro hash long hlook
      obtain ⟨hlook, hlong⟩ := (hpaths _ _).mp hlook
      obtain ⟨e, hentry, hhash⟩ := h.path_stored hlook
      exact ⟨e, (hents _ _).mpr ⟨hentry, hlong⟩, hhash⟩
    · intro long e hlook
      obtain ⟨hlook, hlong⟩ := (hents _ _).mp hlook
      exact (hpaths _ _).mpr ⟨h.stored_path hlook, hlong⟩
    · intro long e hlook
      obtain ⟨hlook, hlong⟩ := (hents _ _).mp hlook
      obtain ⟨above, bytes, hpar, hbytes, rfl⟩ := h.path_eq hlook
      refine ⟨above, bytes, ?_, hbytes, rfl⟩
      rw [parentPath_eq_some] at hpar ⊢
      -- a parent that was removed would have taken its child with it
      refine hpar.imp_right fun ⟨hne, hlook⟩ => ⟨hne, (hpaths _ _).mpr ⟨hlook, ?_⟩⟩
      exact fun habove => hlong (habove.trans (List.prefix_append _ _))
    · intro key pending hlook
      obtain ⟨hpar, hblock, hnone⟩ := h.waiting (pending_removeSubtree hlook)
      refine ⟨hpar, hblock, ?_⟩
      cases hsome : parentPath (RadixTree.removeSubtree tree root) key.parent with
      | none => rfl
      | some above =>
        have hsome' : parentPath tree key.parent = some above := by
          rw [parentPath_eq_some] at hsome ⊢
          exact hsome.imp_right fun ⟨hne, hlook⟩ => ⟨hne, ((hpaths _ _).mp hlook).1⟩
        simp [hsome'] at hnone

lemma Coherent.foldl_removeSubtree (rs : List KvBlockHash) :
    Coherent (rs.foldl RadixTree.removeSubtree tree) :=
  List.foldlRecOn _ _ h fun _ htree root _ => htree.removeSubtree root

lemma Coherent.removeBlocks (blockHashes : List KvBlockHash) :
    Coherent (removeBlocks tree blockHashes) := by
  rw [RadixTree.removeBlocks]
  split_ifs
  · exact h.foldl_removeSubtree blockHashes
  · exact coherent_default

lemma Coherent.pruneTree (ttl : ℕ) : Coherent (pruneTree ttl now tree) := by
  refine (h.foldl_removeSubtree _).of_blocks rfl (fun _ => rfl) (fun key pending hlook => ?_)
  rw [RadixTree.pruneTree, lookup_retain, filter_eq_some_iff] at hlook
  exact hlook.1

/-- **Every event keeps a tree coherent.** -/
lemma Coherent.applyTree (p : TreeKey) (e : KvDeltaEvent) :
    Coherent (applyTree p tree e now) := by
  cases e with
  | blockStored =>
    rw [RadixTree.applyTree]
    split_ifs
    · exact List.foldlRecOn _ _ h fun _ htree _ _ => htree.storeBlock
    · exact h
  | blockRemoved blockHashes =>
    rw [RadixTree.applyTree]
    split_ifs
    · exact h.removeBlocks blockHashes
    · exact h
  | allBlocksCleared => exact coherent_default

/-- A tree with no stored and no waiting block is empty. -/
lemma Coherent.eq_default (hents : tree.entriesByPath.entries = [])
    (hpend : tree.pendingByParent.entries = []) : tree = default := by
  have hents' : tree.entriesByPath = ∅ := AList.ext hents
  have hpaths : tree.pathsByHash = ∅ := by
    refine eq_empty_of_lookup fun hash => ?_
    cases hlook : tree.pathsByHash.lookup hash with
    | none => rfl
    | some =>
      obtain ⟨e, hentry, -⟩ := h.path_stored hlook
      simp [hents'] at hentry
  have hpend' : tree.pendingByParent = ∅ := AList.ext hpend
  obtain ⟨es, paths, pending⟩ := tree
  dsimp only at hents' hpaths hpend'
  rw [hents', hpaths, hpend']
  rfl

end

end RadixTree

namespace RadixTreeIndex

open RadixTree

/-- Dropping empty sources changes no tree. -/
lemma getD_retain_nonempty (T : Option SourceTree) (p : TreeKey) :
    (((T.filter fun T => !T.entries.isEmpty).getD ∅).lookup
      p).getD default = ((T.getD ∅).lookup p).getD default := by
  cases T with
  | none => rfl
  | some T =>
    rw [filter_some]
    split_ifs with hempty
    · rfl
    · obtain rfl : T = ∅ := AList.ext (by simpa using hempty)
      rfl

lemma tree_prune (i : RadixTreeIndex) (x : KvEventSourceId) (p : TreeKey) (now : ℕ)
    (h : RadixTree.Coherent (i.tree x p)) :
    (i.prune now).tree x p = pruneTree i.ttl now (i.tree x p) := by
  rw [tree, prune, lookup_retain, getD_retain_nonempty, lookup_mapValues]
  cases hsrc : i.treesBySource.lookup x with
  | none =>
    rw [tree_of_lookup_none p hsrc]
    rfl
  | some T =>
    rw [tree_of_lookup p hsrc] at h ⊢
    rw [map_some, getD_some, lookup_retain, lookup_mapValues]
    cases htree : T.lookup p with
    | none => rfl
    | some =>
      rw [htree] at h
      rw [map_some, filter_some]
      split_ifs with hempty
      · rfl
      · simp only [Bool.or_eq_true, Bool.not_eq_true', not_or, Bool.not_eq_false,
          List.isEmpty_iff] at hempty
        exact ((h.pruneTree i.ttl).eq_default hempty.1 hempty.2).symm

end RadixTreeIndex

end Foretoken.KvLocality
