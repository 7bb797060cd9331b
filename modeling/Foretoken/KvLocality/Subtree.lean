import Foretoken.KvLocality.GroupTree

/-!
What a group tree holds, and how each operation changes it.

The paths of a stored segment continue each other, and below a stored block every held block is
stored, since none waits for a stored parent. Hence a removal that names the first block of a held
segment takes its last one.
-/

namespace Foretoken.KvLocality

open List Option Table

namespace RadixTree

/-- The block is stored, or it waits for its parent. -/
def Holds (tree : GroupTree) (block : KvStoredBlock) (u : ℕ) : Prop :=
  (∃ path, tree.entriesByPath.lookup path = some ⟨block, u⟩) ∨
    ∃ key, tree.pendingByParent.lookup key = some ⟨block, u⟩

variable {tree : GroupTree} {block b : KvStoredBlock} {path : List UInt8} {now u : ℕ}
  {S : Set KvStoredBlock}

lemma not_holds_default : ¬ Holds default b u := by
  rintro (⟨path, h⟩ | ⟨key, h⟩)
  · cases h
  · cases h

lemma Holds.of_refresh (hS : Unambiguous S) (hcoh : Coherent tree)
    (htree : ∀ b u, Holds tree b u → b ∈ S) (hblock : block ∈ S)
    (hpath : tree.pathsByHash.lookup block.blockHash = some path)
    (h : Holds (refresh tree path now) b u) : (b = block ∧ u = now) ∨ Holds tree b u := by
  obtain ⟨e, hentry, hhash⟩ := hcoh.path_stored hpath
  have hsame : e.block = block := hS _ (htree _ _ (.inl ⟨path, hentry⟩)) _ hblock hhash
  rw [refresh, hentry] at h
  rcases h with ⟨path', h⟩ | h
  · rw [lookup_insert_eq] at h
    split_ifs at h with hpath'
    · obtain ⟨rfl, rfl⟩ : e.block = b ∧ now = u := by simpa using h
      exact .inl ⟨hsame, rfl⟩
    · exact .inr (.inl ⟨path', h⟩)
  · exact .inr (.inr h)

lemma Holds.of_park (h : Holds (park tree block now) b u) :
    (b = block ∧ u = now) ∨ Holds tree b u := by
  rcases h with h | ⟨key, h⟩
  · exact .inr (.inl h)
  · rw [park, lookup_insert_eq] at h
    split_ifs at h
    · obtain ⟨rfl, rfl⟩ : block = b ∧ now = u := by simpa using h
      exact .inl ⟨rfl, rfl⟩
    · exact .inr (.inr ⟨key, h⟩)

lemma Holds.of_materialize (h : Holds (materialize tree path block now) b u) :
    (b = block ∧ u = now) ∨ Holds tree b u := by
  rcases h with ⟨path', h⟩ | ⟨key, h⟩
  · rw [materialize, lookup_insert_eq] at h
    split_ifs at h
    · obtain ⟨rfl, rfl⟩ : block = b ∧ now = u := by simpa using h
      exact .inl ⟨rfl, rfl⟩
    · exact .inr (.inl ⟨path', h⟩)
  · rw [materialize, lookup_retain, filter_eq_some_iff] at h
    exact .inr (.inr ⟨key, h.1⟩)

lemma holds_of_mem_waitingFor {hash : KvBlockHash} {c : PendingBlock}
    (h : c ∈ waitingFor tree hash) : Holds tree c.block c.observedAt := by
  obtain ⟨⟨key, pending⟩, hmem, rfl⟩ := mem_map.mp h
  exact .inr ⟨key, mem_toList.mp (mem_filter.mp hmem).1⟩

/-- A call that stores a block adds nothing else. -/
def AddsOnly (S : Set KvStoredBlock) (call : GroupTree → KvStoredBlock → ℕ → GroupTree) : Prop :=
  ∀ {tree block now b u}, Coherent tree → (∀ b u, Holds tree b u → b ∈ S) → block ∈ S →
    Holds (call tree block now) b u → (b = block ∧ u = now) ∨ Holds tree b u

section Call

variable {call : GroupTree → KvStoredBlock → ℕ → GroupTree}

lemma AddsOnly.foldl (hcall : AddsOnly S call)
    (hkeep : ∀ {tree block now}, Coherent tree → Coherent (call tree block now))
    (htree : ∀ b u, Holds tree b u → b ∈ S) (hblock : block ∈ S)
    {cs : List PendingBlock} {m : GroupTree} (hstart : Coherent m)
    (hheld : ∀ b u, Holds m b u → (b = block ∧ u = now) ∨ Holds tree b u)
    (hchildren : ∀ c ∈ cs, Holds tree c.block c.observedAt)
    (h : Holds (cs.foldl (fun tree c => call tree c.block c.observedAt) m)
      b u) : (b = block ∧ u = now) ∨ Holds tree b u := by
  induction cs generalizing m with
  | nil => exact hheld b u h
  | cons c cs ih =>
    rw [forall_mem_cons] at hchildren
    have hin : ∀ b u, Holds m b u → b ∈ S := by
      intro b u hb
      rcases hheld b u hb with ⟨rfl, -⟩ | hb
      · exact hblock
      · exact htree b u hb
    refine ih (hkeep hstart) (fun b u hb => ?_) hchildren.2 h
    rcases hcall hstart hin (htree _ _ hchildren.1) hb with ⟨rfl, rfl⟩ | hb
    · exact .inr hchildren.1
    · exact hheld b u hb

lemma AddsOnly.storeBlockBody (hS : Unambiguous S) (hcall : AddsOnly S call)
    (hkeep : ∀ {tree block now}, Coherent tree → Coherent (call tree block now)) :
    AddsOnly S (storeBlockBody call) := by
  intro tree block now b u hcoh htree hblock h
  rw [RadixTree.storeBlockBody] at h
  split at h
  · rename_i path hpath
    exact h.of_refresh hS hcoh htree hblock hpath
  · rename_i hnew
    split at h
    · exact .inr h
    · rename_i bs hbytes
      split at h
      · split_ifs at h
        · exact absurd h not_holds_default
        · exact h.of_park
      · rename_i a hpar
        exact hcall.foldl hkeep htree hblock (hcoh.materialize hnew hbytes hpar)
          (fun b u hb => hb.of_materialize) (fun c => holds_of_mem_waitingFor) h

end Call

/-- **A store adds its own block**, and no other. -/
lemma addsOnly_storeBlockWithin (hS : Unambiguous S) (dp : ℕ) :
    AddsOnly S (storeBlockWithin dp) := by
  induction dp with
  | zero => exact fun _ _ _ h => .inr h
  | succ dp ih => exact ih.storeBlockBody hS fun h => h.storeBlockWithin dp

lemma Holds.of_foldl_storeBlock (hS : Unambiguous S) {bs : List KvStoredBlock}
    (hcoh : Coherent tree) (htree : ∀ b u, Holds tree b u → b ∈ S)
    (hblocks : ∀ block ∈ bs, block ∈ S)
    (h : Holds (bs.foldl (fun tree block => storeBlock tree block now) tree) b u) :
    (b ∈ bs ∧ u = now) ∨ Holds tree b u := by
  induction bs generalizing tree with
  | nil => exact .inr h
  | cons block bs ih =>
    rw [forall_mem_cons] at hblocks
    have hstep : ∀ b u, Holds (storeBlock tree block now) b u →
        (b = block ∧ u = now) ∨ Holds tree b u :=
      fun b u => addsOnly_storeBlockWithin hS _ hcoh htree hblocks.1
    have hin : ∀ b u, Holds (storeBlock tree block now) b u → b ∈ S := by
      intro b u hb
      rcases hstep b u hb with ⟨rfl, -⟩ | hb
      · exact hblocks.1
      · exact htree b u hb
    rcases ih hcoh.storeBlock hin hblocks.2 h with ⟨hmem, rfl⟩ | hb
    · exact .inl ⟨mem_cons_of_mem _ hmem, rfl⟩
    · rcases hstep b u hb with ⟨rfl, rfl⟩ | hb
      · exact .inl ⟨mem_cons_self, rfl⟩
      · exact .inr hb

/-! #### Removals -/

/-- What a removal leaves was there and is not the root. -/
lemma entries_removeSubtree (hcoh : Coherent tree) {root : KvBlockHash} {e : Entry}
    (h : (removeSubtree tree root).entriesByPath.lookup path = some e) :
    tree.entriesByPath.lookup path = some e ∧ e.block.blockHash ≠ root := by
  cases hroot : tree.pathsByHash.lookup root with
  | none =>
    rw [removeSubtree_of_unknown hroot] at h
    refine ⟨h, ?_⟩
    rintro rfl
    simp [hcoh.stored_path h] at hroot
  | some =>
    obtain ⟨hold, hout⟩ := ((hcoh.removeSubtree_eq hroot).2 _ _).mp h
    refine ⟨hold, ?_⟩
    rintro rfl
    rw [hcoh.stored_path hold] at hroot
    rw [some.inj hroot] at hout
    exact hout prefix_rfl

lemma entries_foldl_removeSubtree (hcoh : Coherent tree) {roots : List KvBlockHash} {entry : Entry}
    (h : (roots.foldl removeSubtree tree).entriesByPath.lookup path = some entry) :
    tree.entriesByPath.lookup path = some entry ∧ entry.block.blockHash ∉ roots := by
  induction roots generalizing tree with
  | nil => exact ⟨h, not_mem_nil⟩
  | cons root roots ih =>
    obtain ⟨hnext, hrest⟩ := ih (hcoh.removeSubtree root) h
    obtain ⟨hold, hne⟩ := entries_removeSubtree hcoh hnext
    refine ⟨hold, ?_⟩
    rw [mem_cons, not_or]
    exact ⟨hne, hrest⟩

lemma pending_foldl_removeSubtree {rs : List KvBlockHash} {key : PendingKey}
    {pending : PendingBlock}
    (h : (rs.foldl removeSubtree tree).pendingByParent.lookup key = some pending) :
    tree.pendingByParent.lookup key = some pending := by
  induction rs generalizing tree with
  | nil => exact h
  | cons root rs ih => exact pending_removeSubtree (ih h)

lemma Holds.of_foldl_removeSubtree (hcoh : Coherent tree) {roots : List KvBlockHash}
    (h : Holds (roots.foldl removeSubtree tree) b u) : Holds tree b u := by
  rcases h with ⟨path, h⟩ | ⟨key, h⟩
  · exact .inl ⟨path, (entries_foldl_removeSubtree hcoh h).1⟩
  · exact .inr ⟨key, pending_foldl_removeSubtree h⟩

lemma Holds.of_removeBlocks (hcoh : Coherent tree) {hashes : List KvBlockHash}
    (h : Holds (removeBlocks tree hashes) b u) : Holds tree b u := by
  rw [removeBlocks] at h
  split_ifs at h
  · exact h.of_foldl_removeSubtree hcoh
  · exact absurd h not_holds_default

/-- The block is stored at the path. -/
def StoredAt (tree : GroupTree) (block : KvStoredBlock) (path : List UInt8) : Prop :=
  ∃ u, tree.entriesByPath.lookup path = some ⟨block, u⟩

section

variable (hcoh : Coherent tree) (h : StoredAt tree block path)
include hcoh h

lemma StoredAt.path_eq :
    tree.pathsByHash.lookup block.blockHash = some path := by
  obtain ⟨u, h⟩ := h
  exact hcoh.stored_path h

lemma StoredAt.parent :
    ∃ above bytes, parentPath tree block.parentHash = some above ∧
      hashBytes block.blockHash = some bytes ∧ path = above ++ bytes := by
  obtain ⟨u, h⟩ := h
  exact hcoh.path_eq h

lemma StoredAt.hash_ne :
    block.blockHash ≠ "" := by
  obtain ⟨above, bytes, -, hbytes, -⟩ := h.parent hcoh
  intro hempty
  rw [hempty] at hbytes
  cases hbytes

end

lemma storedAt_of_path (hS : Unambiguous S) (hcoh : Coherent tree)
    (htree : ∀ b u, Holds tree b u → b ∈ S) (hblock : block ∈ S)
    (h : tree.pathsByHash.lookup block.blockHash = some path) : StoredAt tree block path := by
  obtain ⟨⟨b, u⟩, hentry, hhash⟩ := hcoh.path_stored h
  obtain rfl := hS b (htree b u (.inl ⟨path, hentry⟩)) block hblock hhash
  exact ⟨u, hentry⟩

/-- The path of a stored child continues that of its parent. -/
lemma StoredAt.above (hcoh : Coherent tree) {parent : KvStoredBlock} {above : List UInt8}
    (hpar : StoredAt tree parent above) (hlink : block.parentHash = parent.blockHash)
    (h : StoredAt tree block path) : above <+: path := by
  obtain ⟨above', bytes, habove', -, rfl⟩ := h.parent hcoh
  rw [parentPath, hlink, if_neg (hpar.hash_ne hcoh), hpar.path_eq hcoh] at habove'
  cases habove'
  exact prefix_append _ _

lemma Holds.stored (hcoh : Coherent tree) {p : KvStoredBlock} {a : List UInt8}
    (hpar : StoredAt tree p a) (hlink : block.parentHash = p.blockHash)
    (h : Holds tree block u) : ∃ path, StoredAt tree block path := by
  rcases h with ⟨path, h⟩ | ⟨key, h⟩
  · exact ⟨path, u, h⟩
  · obtain ⟨hkey, -, hnone⟩ := hcoh.waiting h
    rw [parentPath, ← hkey, hlink, if_neg (hpar.hash_ne hcoh), hpar.path_eq hcoh] at hnone
    cases hnone

lemma StoredAt.not_waiting (hcoh : Coherent tree) (hstored : StoredAt tree block path)
    {key : PendingKey} : tree.pendingByParent.lookup key ≠ some ⟨block, u⟩ := by
  intro h
  obtain ⟨hkey, -, hnone⟩ := hcoh.waiting h
  obtain ⟨above, bytes, habove, -, -⟩ := hstored.parent hcoh
  simp [← hkey, habove] at hnone

section Segment

variable {b : ℕ → KvStoredBlock} {n : ℕ}

section

variable {l : ℕ} (hcoh : Coherent tree) (hlink : Linked b n)
  (hstored : ∀ l ≤ n, ∃ path, StoredAt tree (b l) path)
include hcoh hlink hstored

lemma segment_above (hl : l ≤ n) {a : List UInt8} (habove : StoredAt tree (b l) a)
    (hpath : StoredAt tree (b n) path) :
    a <+: path := by
  induction n, hl using Nat.le_induction generalizing path with
  | base =>
    have hsame := habove.path_eq hcoh
    rw [hpath.path_eq hcoh] at hsame
    rw [some.inj hsame]
  | succ n hn ih =>
    obtain ⟨middle, hmiddle⟩ := hstored n (Nat.le_succ n)
    have hfirst := ih (fun k hk => hlink k (Nat.lt_succ_of_lt hk))
      (fun k hk => hstored k (Nat.le_succ_of_le hk)) hmiddle
    exact hfirst.trans (hmiddle.above hcoh (hlink n (Nat.lt_succ_self n)) hpath)

/-- With its last block, a whole segment survives. -/
lemma segment_removeSubtree {root : KvBlockHash} (hlast : Holds (removeSubtree tree root) (b n) u)
    (hl : l ≤ n) :
    ∃ path, StoredAt (removeSubtree tree root) (b l) path := by
  obtain ⟨path, v, hpath⟩ := hstored l hl
  cases hroot : tree.pathsByHash.lookup root with
  | none =>
    rw [removeSubtree_of_unknown hroot]
    exact ⟨path, v, hpath⟩
  | some cut =>
    obtain ⟨-, hents⟩ := hcoh.removeSubtree_eq hroot
    obtain ⟨long, hlong⟩ := hstored n (Nat.le_refl n)
    -- the last block is stored and survives, so its path does not continue the root's
    have hout : ¬ cut <+: long := by
      obtain ⟨long', hkept⟩ | ⟨key, hkept⟩ := hlast
      · obtain ⟨hold, hout⟩ := (hents _ _).mp hkept
        have hsame := StoredAt.path_eq hcoh ⟨u, hold⟩
        rw [hlong.path_eq hcoh] at hsame
        rwa [some.inj hsame]
      · exact absurd (pending_removeSubtree hkept) (hlong.not_waiting hcoh)
    have hcut : ¬ cut <+: path := fun h =>
      hout (h.trans (segment_above hcoh hlink hstored hl ⟨v, hpath⟩ hlong))
    exact ⟨path, v, (hents _ _).mpr ⟨hpath, hcut⟩⟩

end

lemma segment_foldl_removeSubtree (hcoh : Coherent tree) (hlink : Linked b n)
    (hstored : ∀ l ≤ n, ∃ path, StoredAt tree (b l) path) {rs : List KvBlockHash}
    (hroot : (b 0).blockHash ∈ rs) : ¬ Holds (rs.foldl removeSubtree tree) (b n) u := by
  induction rs generalizing tree with
  | nil => cases hroot
  | cons root rs ih =>
    intro hlast
    have hkept := fun l (hl : l ≤ n) => segment_removeSubtree hcoh hlink hstored
      (Holds.of_foldl_removeSubtree (hcoh.removeSubtree root) hlast) hl
    obtain ⟨path, v, hfirst⟩ := hkept 0 (Nat.zero_le n)
    have hrest := (mem_cons.mp hroot).resolve_left (entries_removeSubtree hcoh hfirst).2
    exact ih (hcoh.removeSubtree root) hkept hrest hlast

lemma segment_removeBlocks (hS : Unambiguous S) (hcoh : Coherent tree)
    (htree : ∀ b u, Holds tree b u → b ∈ S) (hb : b 0 ∈ S) (hlink : Linked b n)
    (hheld : ∀ l, 0 < l → l < n → ∃ u, Holds tree (b l) u) {hashes : List KvBlockHash}
    (hnamed : (b 0).blockHash ∈ hashes) : ¬ Holds (removeBlocks tree hashes) (b n) u := by
  rw [removeBlocks]
  split_ifs with hknown
  · intro hlast
    have hheld' : ∀ l, 0 < l → l ≤ n → ∃ u, Holds tree (b l) u := by
      intro l hpos hl
      rcases Nat.lt_or_eq_of_le hl with hlt | rfl
      · exact hheld l hpos hlt
      · exact ⟨u, hlast.of_foldl_removeSubtree hcoh⟩
    -- the named block is stored, hence everything held below it
    have hstored : ∀ l ≤ n, ∃ path, StoredAt tree (b l) path := by
      intro l
      induction l with
      | zero =>
        intro _
        obtain ⟨path, hpath⟩ := isSome_iff_exists.mp (all_eq_true.mp hknown _ hnamed)
        exact ⟨path, storedAt_of_path hS hcoh htree hb hpath⟩
      | succ l ih =>
        intro hl
        obtain ⟨a, habove⟩ := ih (Nat.le_of_succ_le hl)
        obtain ⟨v, hv⟩ := hheld' (l + 1) (Nat.succ_pos l) hl
        exact hv.stored hcoh habove (hlink l hl)
    exact segment_foldl_removeSubtree hcoh hlink hstored hnamed hlast
  · exact not_holds_default

end Segment

/-! #### Touching and expiry -/

lemma Holds.of_touchTree (h : Holds (touchTree tree now) b u) :
    u = now ∧ (∃ v, Holds tree b v) ∨ Holds tree b u := by
  rcases h with ⟨path, h⟩ | h
  · rw [touchTree, lookup_mapValues, map_eq_some_iff] at h
    obtain ⟨⟨b', v⟩, hentry, heq⟩ := h
    obtain ⟨rfl, rfl⟩ : b' = b ∧ now = u := by simpa using heq
    exact .inl ⟨rfl, v, .inl ⟨path, hentry⟩⟩
  · exact .inr (.inr h)

/-- Expiry takes all blocks that are too old. -/
lemma Holds.of_pruneTree (hcoh : Coherent tree) {ttl : ℕ} (h : Holds (pruneTree ttl now tree) b u) :
    Holds tree b u ∧ now - u ≤ ttl := by
  rcases h with ⟨path, h⟩ | ⟨key, h⟩
  · obtain ⟨hold, hout⟩ := entries_foldl_removeSubtree hcoh h
    refine ⟨.inl ⟨path, hold⟩, Nat.le_of_not_lt fun hexp => hout ?_⟩
    refine mem_map.mpr ⟨(path, ⟨b, u⟩), mem_filter.mpr ⟨?_, ?_⟩, rfl⟩
    · exact mem_toList.mpr hold
    · exact decide_eq_true hexp
  · rw [pruneTree, lookup_retain, filter_eq_some_iff] at h
    exact ⟨.inr ⟨key, pending_foldl_removeSubtree h.1⟩, of_decide_eq_true h.2⟩

end RadixTree

end Foretoken.KvLocality
