import Foretoken.KvLocality.FlatHoldings
import Foretoken.KvLocality.Soundness
import Foretoken.KvLocality.TreeHoldings

/-!
What an index must keep.

These are the bounds of `Facts.Holds` in the other direction, for events of a producer that may
have lost track of what the index dropped: blocks may arrive below a parent that is no longer
there.
-/

namespace Foretoken.KvLocality

open List Table RadixTree PositionalHash Option

variable {bs : List KvStoredBlock}

/-- The blocks name their parents, in the same group and one deeper. -/
structure Lineage (S : Set KvStoredBlock) : Prop where
  unambiguous : Unambiguous S
  named : ∀ b ∈ S, ∃ bytes : List UInt8, bytes.length = 32 ∧ b.blockHash = Base64.encode bytes
  child : ∀ b ∈ S, b.parentHash ≠ "" → ∃ a ∈ S, b.parentHash = a.blockHash ∧
    b.partition.groupIdx = a.partition.groupIdx ∧ b.blockIndex = a.blockIndex + 1

lemma Lineage.hash_ne {S : Set KvStoredBlock} (h : Lineage S) {b : KvStoredBlock} (hb : b ∈ S) :
    b.blockHash ≠ "" := by
  obtain ⟨bs, hlen, hhash⟩ := h.named b hb
  rw [hhash]
  exact encode_ne_empty hlen

namespace RadixTree

variable {tree : GroupTree} {S : Set KvStoredBlock} {block b c : KvStoredBlock} {now : ℕ}

/-- The block is stored or waits, whenever it was observed. -/
def Held (tree : GroupTree) (b : KvStoredBlock) : Prop := ∃ u, Holds tree b u

lemma held_iff : Held tree b ↔ (∃ pth, StoredAt tree b pth) ∨
    ∃ key u, tree.pendingByParent.lookup key = some ⟨b, u⟩ := by
  simp only [Held, Holds, StoredAt, exists_or]
  rw [exists_comm, exists_comm (β := PendingKey)]

/-! ### Stores -/

/-- **The cycle check does not fire**: parents lie ever higher. -/
lemma wouldFormPendingCycle_eq_false (hS : Lineage S) (hcoh : Coherent tree)
    (hin : ∀ b, Held tree b → b ∈ S) (hblock : block ∈ S)
    (hpar : parentPath tree block.parentHash = none) :
    wouldFormPendingCycle tree block = false := by
  have hne : ∀ {pa}, parentPath tree pa = none → pa ≠ "" := by
    rintro _ hnone rfl
    cases hnone
  -- the loop, from a block above the new one and with enough rounds
  have hloop : ∀ ns (a : KvStoredBlock) visited, a ∈ S → a.blockIndex < ns →
      a.blockIndex < block.blockIndex →
      (∀ hash ∈ visited, ∃ v ∈ S, v.blockHash = hash ∧ a.blockIndex < v.blockIndex) →
      cycleFrom tree block.blockHash ns visited a.blockHash = false := by
    intro ns
    induction ns with
    | zero => exact fun a visited _ hrnds => absurd hrnds (Nat.not_lt_zero _)
    | succ ns ih =>
      intro a visited ha hrnds hless hvisited
      have hfresh : a.blockHash ∉ visited := by
        intro hmem
        obtain ⟨v, hv, hhash, hdeeper⟩ := hvisited _ hmem
        rw [hS.unambiguous v hv a ha hhash] at hdeeper
        exact Nat.lt_irrefl _ hdeeper
      have hother : a.blockHash ≠ block.blockHash := by
        intro hhash
        rw [hS.unambiguous a ha block hblock hhash] at hless
        exact Nat.lt_irrefl _ hless
      rw [cycleFrom, if_pos ⟨hS.hash_ne ha, hfresh⟩, if_neg hother]
      cases hnext : pendingParent tree a.blockHash with
      | none => rfl
      | some =>
        obtain ⟨⟨key, pending⟩, hfind, rfl⟩ := map_eq_some_iff.mp hnext
        have hlook := mem_toList.mp (mem_of_find?_eq_some hfind)
        have hkey : key.block = a.blockHash := by simpa using find?_some hfind
        obtain ⟨hlink, hhash, hnone⟩ := hcoh.waiting hlook
        -- the waiting block is the one that the hash names
        have hpend : pending.block ∈ S :=
          hin _ (held_iff.mpr (.inr ⟨key, pending.observedAt, hlook⟩))
        have hsame : pending.block = a :=
          hS.unambiguous _ hpend a ha (hhash.trans hkey)
        rw [hsame] at hlink
        obtain ⟨ab, habove, hlink', -, hindex⟩ := hS.child a ha (by
          rw [hlink]
          exact hne hnone)
        rw [← hlink, hlink']
        refine ih ab _ habove (by omega) (by omega) fun hash hmem => ?_
        rcases mem_cons.mp hmem with rfl | hmem
        · exact ⟨a, ha, rfl, by omega⟩
        · obtain ⟨v, hv, hhash, hdeeper⟩ := hvisited hash hmem
          exact ⟨v, hv, hhash, by omega⟩
  obtain ⟨a, ha, hlink, -, hindex⟩ := hS.child block hblock (hne hpar)
  have hself : block.parentHash ≠ block.blockHash := by
    intro heq
    rw [hlink] at heq
    rw [hS.unambiguous a ha block hblock heq] at hindex
    omega
  rw [wouldFormPendingCycle, if_neg hself,
    ← cycleFrom_rounds tree block (Nat.le_add_right _ (a.blockIndex + 1)), hlink]
  exact hloop _ a [] ha (by omega) (by omega) (by simp)

lemma StoredAt.refresh {path path' : List UInt8} (h : StoredAt tree c path') :
    StoredAt (refresh tree path now) c path' := by
  obtain ⟨u, hu⟩ := h
  rw [RadixTree.refresh]
  cases hlook : tree.entriesByPath.lookup path with
  | none => exact ⟨u, hu⟩
  | some =>
    rcases eq_or_ne path' path with rfl | hpath
    · obtain rfl := some.inj (hlook.symm.trans hu)
      exact ⟨now, by simp⟩
    · exact ⟨u, by simp [hpath, hu]⟩

lemma Held.refresh {pth : List UInt8} (h : Held tree c) : Held (refresh tree pth now) c := by
  rcases held_iff.mp h with ⟨pth', hpath'⟩ | ⟨key, u, hkey⟩
  · exact held_iff.mpr (.inl ⟨pth', hpath'.refresh⟩)
  · refine held_iff.mpr (.inr ⟨key, u, ?_⟩)
    rw [RadixTree.refresh]
    split <;> exact hkey

/-- A block that waits under the same name is the same block. -/
lemma Held.park (hS : Lineage S) (hcoh : Coherent tree) (hin : ∀ b, Held tree b → b ∈ S)
    (hblock : block ∈ S) (h : Held tree c ∨ c = block) : Held (park tree block now) c := by
  have hnew : Held (RadixTree.park tree block now) block := by
    refine held_iff.mpr (.inr ⟨⟨block.parentHash, block.blockHash⟩, now, ?_⟩)
    simp [RadixTree.park]
  rcases h with h | rfl
  · rcases held_iff.mp h with ⟨path, hpath⟩ | ⟨key, u, hkey⟩
    · exact held_iff.mpr (.inl ⟨path, hpath⟩)
    · by_cases hsame : key = ⟨block.parentHash, block.blockHash⟩
      · obtain ⟨-, hhash, -⟩ := hcoh.waiting hkey
        rw [hsame] at hhash
        rwa [hS.unambiguous c (hin c h) block hblock hhash]
      · exact held_iff.mpr (.inr ⟨key, u, by simp [RadixTree.park, hsame, hkey]⟩)
  · exact hnew

/-- Only the children of a new block stop waiting. -/
lemma Held.materialize (hcoh : Coherent tree) {a bs : List UInt8}
    (hnew : tree.pathsByHash.lookup block.blockHash = none)
    (hbytes : hashBytes block.blockHash = some bs) (h : Held tree c ∨ c = block) :
    Held (materialize tree (a ++ bs) block now) c ∨
      ∃ k ∈ waitingFor tree block.blockHash, k.block = c := by
  rcases h with h | rfl
  · rcases held_iff.mp h with ⟨pth, u, hu⟩ | ⟨key, u, hkey⟩
    · refine .inl (held_iff.mpr (.inl ⟨pth, u, ?_⟩))
      rw [RadixTree.materialize, Table.lookup_insert_eq, if_neg, hu]
      rintro rfl
      simp [hcoh.path_free hnew hbytes] at hu
    · by_cases hpar : key.parent = block.blockHash
      · right
        exact ⟨⟨c, u⟩, mem_map.mpr ⟨(key, ⟨c, u⟩),
          mem_filter.mpr ⟨mem_toList.mpr hkey, decide_eq_true hpar⟩, rfl⟩, rfl⟩
      · refine .inl (held_iff.mpr (.inr ⟨key, u, ?_⟩))
        simp [RadixTree.materialize, Table.lookup_retain, hkey, hpar]
  · exact .inl (held_iff.mpr (.inl ⟨a ++ bs, now, by simp [materialize]⟩))

/-- A store adds blocks of the set only. -/
lemma within_storeBlock (hS : Lineage S) (hcoh : Coherent tree) (hin : ∀ b, Held tree b → b ∈ S)
    (hblock : block ∈ S) (h : Held (storeBlock tree block now) b) : b ∈ S := by
  obtain ⟨u, hu⟩ := h
  rcases addsOnly_storeBlockWithin hS.unambiguous _ hcoh (fun b u hb => hin b ⟨u, hb⟩) hblock hu
    with ⟨rfl, -⟩ | hold
  · exact hblock
  · exact hin b ⟨u, hold⟩

/-- The released children are stored one by one. -/
lemma held_foldl_children (hS : Lineage S) {bound : ℕ}
    (hcall : ∀ (tree : GroupTree) (block : KvStoredBlock) (now : ℕ), waitingCount tree < bound →
      Coherent tree → (∀ b, Held tree b → b ∈ S) → block ∈ S →
      ∀ c, Held tree c ∨ c = block → Held (storeBlock tree block now) c)
    {cs : List PendingBlock} (hchildren : ∀ k ∈ cs, k.block ∈ S)
    {n : GroupTree} (hstart : Coherent n) (hin : ∀ b, Held n b → b ∈ S)
    (hbound : waitingCount n + cs.length ≤ bound)
    (h : Held n c ∨ ∃ k ∈ cs, k.block = c) :
    Held (cs.foldl (fun tree k => storeBlock tree k.block k.observedAt) n)
      c := by
  induction cs generalizing n with
  | nil => exact h.resolve_right fun ⟨_, hmem, _⟩ => not_mem_nil hmem
  | cons k cs ih =>
    rw [forall_mem_cons] at hchildren
    rw [length_cons] at hbound
    have hstep := hcall n k.block k.observedAt (by omega) hstart hin hchildren.1
    have hcount : waitingCount (storeBlock n k.block k.observedAt) ≤
        waitingCount n + 1 := waitingCount_storeBlockWithin _ _ _ _
    have hrest : waitingCount (storeBlock n k.block k.observedAt) +
        cs.length ≤ bound := by omega
    refine ih hchildren.2 hstart.storeBlock
      (fun b hb => within_storeBlock hS hstart hin hchildren.1 hb) hrest ?_
    rcases h with h | ⟨y, hother, rfl⟩
    · exact .inl (hstep c (.inl h))
    · rcases mem_cons.mp hother with rfl | hother
      · exact .inl (hstep _ (.inr rfl))
      · exact .inr ⟨y, hother, rfl⟩

section

variable (hS : Lineage S) (hcoh : Coherent tree) (hin : ∀ b, Held tree b → b ∈ S)
include hS hcoh hin

/-- **A store keeps what is held and adds its block.** -/
lemma Held.storeBlock (hblock : block ∈ S) (h : Held tree c ∨ c = block) :
    Held (storeBlock tree block now) c := by
  induction hn : waitingCount tree using Nat.strong_induction_on generalizing tree block now c with
  | _ n ih =>
    subst hn
    rw [storeBlock_eq, storeBlockBody]
    cases hknown : tree.pathsByHash.lookup block.blockHash with
    | some pth =>
      refine Held.refresh ?_
      rcases h with h | rfl
      · exact h
      · exact held_iff.mpr (.inl ⟨pth, storedAt_of_path hS.unambiguous hcoh
          (fun b u hb => hin b ⟨u, hb⟩) hblock hknown⟩)
    | none =>
      obtain ⟨bs, hbytes⟩ := hashBytes_of_named (hS.named block hblock)
      rw [hbytes]
      cases hpar : parentPath tree block.parentHash with
      | none =>
        rw [wouldFormPendingCycle_eq_false hS hcoh hin hblock hpar]
        exact Held.park hS hcoh hin hblock h
      | some =>
        refine held_foldl_children hS ?_
          (fun k hchild => hin _ ⟨_, holds_of_mem_waitingFor hchild⟩)
          (hcoh.materialize hknown hbytes hpar) ?_ (waitingCount_materialize ..).le
          (Held.materialize hcoh hknown hbytes h)
        · intro below block now hbelow hcoh hin hblock c hc
          exact ih _ hbelow hcoh hin hblock hc rfl
        · rintro b ⟨u, hu⟩
          rcases hu.of_materialize with ⟨rfl, -⟩ | hold
          · exact hblock
          · exact hin b ⟨u, hold⟩

lemma Held.foldl_storeBlock (hblocks : ∀ block ∈ bs, block ∈ S) (h : Held tree c ∨ c ∈ bs) :
    Held (bs.foldl (fun tree block => RadixTree.storeBlock tree block now) tree) c := by
  induction bs generalizing tree with
  | nil => exact h.resolve_right not_mem_nil
  | cons block bs ih =>
    rw [forall_mem_cons] at hblocks
    refine ih hcoh.storeBlock (fun b hb => within_storeBlock hS hcoh hin hblocks.1 hb) hblocks.2 ?_
    rcases h with h | h
    · exact .inl (Held.storeBlock hS hcoh hin hblocks.1 (.inl h))
    · rcases mem_cons.mp h with h | h
      · exact .inl (Held.storeBlock hS hcoh hin hblocks.1 (.inr h))
      · exact .inr h

end

/-! ### Removals -/

section

variable (hcoh : Coherent tree) (hin : ∀ b, Held tree b → b ∈ S) (h : Held tree c)
include hcoh hin h

/-- **A removal takes nothing but the branch of its root.** -/
lemma Held.removeSubtree {root : KvBlockHash} (hc : ¬ Under S root c) :
    Held (removeSubtree tree root) c := by
  cases hroot : tree.pathsByHash.lookup root with
  | none =>
    rwa [removeSubtree_of_unknown hroot]
  | some cut =>
    rcases held_iff.mp h with ⟨pth, hpath⟩ | ⟨key, u, hkey⟩
    · obtain ⟨u, hu⟩ := id hpath
      refine held_iff.mpr (.inl ⟨pth, u, ((hcoh.removeSubtree_eq hroot).2 _ _).mpr ⟨hu, ?_⟩⟩)
      exact fun hcut => hc (hcoh.under_of_continues
        (fun a pth ha => hin a (held_iff.mpr (.inl ⟨pth, ha⟩))) hroot hpath hcut)
    · refine held_iff.mpr (.inr ⟨key, u, ?_⟩)
      -- no block waits for one that is stored
      have hwaits : ∀ hash long, tree.pathsByHash.lookup hash = some long → key.parent ≠ hash := by
        rintro hash long hlook rfl
        have hnone := (hcoh.waiting hkey).2.2
        rw [parentPath] at hnone
        split_ifs at hnone
        simp [hlook] at hnone
      rw [RadixTree.removeSubtree, hroot]
      rw [lookup_retain, hkey, filter_some, if_pos]
      refine decide_eq_true ⟨fun hrem => ?_, hwaits root cut hroot⟩
      obtain ⟨long, hlong, -⟩ := hcoh.mem_removed.mp hrem
      exact hwaits _ long hlong rfl

lemma Held.foldl_removeSubtree {rs : List KvBlockHash} (hc : ∀ root ∈ rs, ¬ Under S root c) :
    Held (rs.foldl RadixTree.removeSubtree tree) c := by
  induction rs generalizing tree with
  | nil => exact h
  | cons root rs ih =>
    rw [forall_mem_cons] at hc
    refine ih (hcoh.removeSubtree root) (fun b hb => ?_) (h.removeSubtree hcoh hin hc.1) hc.2
    obtain ⟨u, hu⟩ := hb
    have hone : Holds ([root].foldl RadixTree.removeSubtree tree) b u := hu
    exact hin b ⟨u, hone.of_foldl_removeSubtree hcoh⟩

end

end RadixTree

open RadixTree

namespace PositionalHash

variable {entries : List Entry} {S : Set KvStoredBlock} {p q : KvPlacement}
  {block b c : KvStoredBlock} {now : ℕ}

/-- The block is held at the placement, whenever it was observed. -/
def Held (entries : List Entry) (p : KvPlacement) (b : KvStoredBlock) : Prop :=
  ∃ u, Holds entries p b u

section

variable (hS : Unambiguous S) (hin : ∀ e ∈ entries, e.block ∈ S)
include hS hin

lemma held_storeBlock (hblock : block ∈ S) (h : Held entries q c ∨ (q = p ∧ c = block)) :
    Held (storeBlock p now entries block) q c := by
  rw [storeBlock]
  cases hfind : entries.findIdx? (fun e =>
      e.placement = p ∧ e.block.blockHash = block.blockHash) with
  | none =>
    rcases h with ⟨u, hu⟩ | ⟨rfl, rfl⟩
    · exact ⟨u, mem_append_left _ hu⟩
    · exact ⟨now, mem_append_right _ (mem_singleton_self _)⟩
  | some i =>
    obtain ⟨hi, htest, -⟩ := findIdx?_eq_some_iff_getElem.mp hfind
    obtain ⟨hplace, hhash⟩ := of_decide_eq_true htest
    -- an entry stays at its position, at most its time is renewed
    have hkept : ∀ (k : ℕ) (e : Entry), entries[k]? = some e → Held
        (entries.modify i fun e => { e with observedAt := now }) e.placement
        e.block := by
      intro k e hk
      by_cases hik : i = k
      · exact ⟨now, mem_iff_getElem?.mpr ⟨k, by simp [hk, hik]⟩⟩
      · exact ⟨e.observedAt, mem_iff_getElem?.mpr ⟨k, by simp [hk, hik]⟩⟩
    rcases h with ⟨u, hu⟩ | ⟨rfl, rfl⟩
    · obtain ⟨k, hk⟩ := mem_iff_getElem?.mp hu
      exact hkept k _ hk
    · have hsame := hS _ (hin _ (getElem_mem hi)) _ hblock hhash
      have hkept' := hkept i _ (getElem?_eq_getElem hi)
      rwa [hsame, hplace] at hkept'

/-- **A store keeps what is held and adds its blocks.** -/
lemma held_foldl_storeBlock (hblocks : ∀ block ∈ bs, block ∈ S)
    (h : Held entries q c ∨ (q = p ∧ c ∈ bs)) :
    Held (bs.foldl (storeBlock p now) entries) q c := by
  induction bs generalizing entries with
  | nil => exact h.resolve_right fun ⟨_, hmem⟩ => not_mem_nil hmem
  | cons block bs ih =>
    rw [forall_mem_cons] at hblocks
    refine ih (block_mem_storeBlock hS hin hblocks.1) hblocks.2 ?_
    rcases h with h | ⟨rfl, h⟩
    · exact .inl (held_storeBlock hS hin hblocks.1 (.inl h))
    · rcases mem_cons.mp h with rfl | h
      · exact .inl (held_storeBlock hS hin hblocks.1 (.inr ⟨rfl, rfl⟩))
      · exact .inr ⟨rfl, h⟩

end

lemma under_of_mem_descendants (hin : ∀ e ∈ entries, e.block ∈ S) {r : KvStoredBlock}
    (hr : r ∈ S) {hash : KvBlockHash} (h : hash ∈ descendants entries {r.blockHash}) :
    ∃ a ∈ S, a.blockHash = hash ∧ Under S r.blockHash a := by
  have hsub : ↑(descendants entries {r.blockHash}) ⊆
      { hash | ∃ a ∈ S, a.blockHash = hash ∧ Under S r.blockHash a } := by
    refine saturate_subset (fun found hfound hash hhash => ?_) _ ?_
    · obtain ⟨e, hentry, rfl⟩ := mem_map.mp (mem_toFinset.mp hhash)
      obtain ⟨hmem, hpar⟩ := mem_filter.mp hentry
      obtain ⟨a, ha, hlink, hunder⟩ := hfound (of_decide_eq_true hpar)
      exact ⟨e.block, hin e hmem, rfl, .child ha hunder hlink.symm⟩
    · rw [Finset.coe_singleton, Set.singleton_subset_iff]
      exact ⟨r, hr, rfl, .self rfl⟩
  exact hsub h

section

variable (hS : Unambiguous S) (hin : ∀ e ∈ entries, e.block ∈ S)
include hS hin

/-- **A removal takes nothing but the branch of its root.** -/
lemma Held.removeBranch {r : KvStoredBlock} (hr : r ∈ S) (h : Held entries q c)
    (hc : q = p → ¬ Under S r.blockHash c) : Held (removeBranch entries p r.blockHash) q c := by
  obtain ⟨u, hu⟩ := h
  refine ⟨u, mem_removeBranch.mpr ⟨hu, ?_⟩⟩
  by_cases hplace : q = p
  · right
    intro hmem
    obtain ⟨a, ha, hhash, hunder⟩ := under_of_mem_descendants hin hr hmem
    rw [hS a ha c (hin _ hu) hhash] at hunder
    exact hc hplace hunder
  · exact .inl hplace

lemma Held.foldl_removeBranch {rs : List KvBlockHash}
    (hroots : ∀ root ∈ rs, ∃ r ∈ S, r.blockHash = root) (h : Held entries q c)
    (hc : q = p → ∀ root ∈ rs, ¬ Under S root c) :
    Held (rs.foldl (fun entries root => PositionalHash.removeBranch entries p root) entries)
      q c := by
  induction rs generalizing entries with
  | nil => exact h
  | cons root rs ih =>
    rw [forall_mem_cons] at hroots
    obtain ⟨⟨r, hr, rfl⟩, hrest⟩ := hroots
    refine ih (fun e hentry => hin e (mem_removeBranch.mp hentry).1) hrest
      (h.removeBranch hS hin hr fun hplace => hc hplace _ mem_cons_self)
      fun hplace root hroot => hc hplace root (mem_cons_of_mem _ hroot)

/-- **A removal takes nothing but branches**, if it names known blocks. -/
lemma Held.removeBlocks {hashes : List KvBlockHash} {g : Option ℕ} (hnodup : hashes.Nodup)
    (hknown : p = q → g = c.partition.groupIdx → ∀ hash ∈ hashes,
      ∃ r, Held entries p r ∧ r.partition.groupIdx = g ∧ r.blockHash = hash)
    (h : Held entries q c) (hc : q = p → ∀ root ∈ hashes, ¬ Under S root c) :
    Held (removeBlocks entries hashes p g) q c := by
  rw [PositionalHash.removeBlocks]
  split_ifs with hlen
  · -- the group that is cleared is another one
    obtain ⟨u, hu⟩ := h
    refine ⟨u, mem_filter.mpr ⟨hu, decide_eq_true ?_⟩⟩
    by_contra hplace
    obtain ⟨hplace, hgroup⟩ := not_or.mp hplace
    have hfilt : hashes.filter (holds entries p g) = hashes := by
      refine filter_eq_self.mpr fun hash hmem => ?_
      obtain ⟨r, ⟨v, hv⟩, hr, hhash⟩ :=
        hknown (not_not.mp hplace).symm (not_not.mp hgroup).symm hash hmem
      exact any_eq_true.mpr ⟨_, hv, decide_eq_true ⟨rfl, hr, hhash⟩⟩
    rw [hfilt] at hlen
    exact hlen (length_orderedSet hnodup)
  · refine h.foldl_removeBranch hS hin (fun root hroot => ?_) fun hplace root hroot =>
      hc hplace root (mem_filter.mp (mem_orderedSet.mp hroot)).1
    obtain ⟨e, he, htest⟩ := any_eq_true.mp (mem_filter.mp (mem_orderedSet.mp hroot)).2
    exact ⟨e.block, hin e he, (of_decide_eq_true htest).2.2⟩

end

end PositionalHash

namespace Facts

variable {facts : Facts} {S : Set KvStoredBlock} {p q : KvPlacement} {b c : KvStoredBlock}
  {now : ℕ}

/-- The block is held at the placement, whenever it was observed. -/
def Held (facts : Facts) (p : KvPlacement) (b : KvStoredBlock) : Prop :=
  ∃ u, facts.Holds ⟨p, b.partition.groupIdx⟩ b u

/-- The block is held and found under its hash. In the tree it has its place below its parent. -/
def Known : Facts → KvPlacement → KvStoredBlock → Prop
  | .positionalHash entries, p, b => PositionalHash.Held entries p b
  | .radixTree trees, p, b => ∃ path, StoredAt (trees ⟨p, b.partition.groupIdx⟩) b path

lemma held_positionalHash {entries : List PositionalHash.Entry} :
    (Facts.positionalHash entries).Held p b ↔ PositionalHash.Held entries p b :=
  exists_congr fun _ => and_iff_left rfl

lemma Within.trees {trees : TreeKey → GroupTree}
    (h : (Facts.radixTree trees).Within S) (pl : TreeKey) (b : KvStoredBlock)
    (hb : RadixTree.Held (trees pl) b) : b ∈ S := by
  obtain ⟨u, hu⟩ := hb
  exact h pl b u hu

section

variable (hS : Lineage S) (hcoh : facts.Coherent) (hin : facts.Within S)
include hS hcoh hin

/-- **A store keeps what is held and adds its blocks.** -/
lemma Held.stored (hblocks : ∀ block ∈ bs, block ∈ S) (h : facts.Held q c ∨ (q = p ∧ c ∈ bs)) :
    (facts.apply (.blockStored bs p) now).Held q c := by
  cases facts with
  | positionalHash =>
    rw [held_positionalHash] at h
    exact held_positionalHash.mpr
      (PositionalHash.held_foldl_storeBlock hS.unambiguous hin.entries hblocks h)
  | radixTree =>
    rw [Facts.Held, Facts.apply]
    dsimp only [Facts.Holds]
    rw [applyTree]
    by_cases hplace : p = q
    · rw [if_pos hplace]
      refine RadixTree.Held.foldl_storeBlock hS (hcoh _) (hin.trees _)
        (fun block hmem => hblocks block (mem_filter.mp hmem).1) ?_
      rcases h with h | ⟨-, h⟩
      · exact .inl h
      · exact .inr (mem_filter.mpr ⟨h, decide_eq_true rfl⟩)
    · rw [if_neg hplace]
      exact h.resolve_right fun hnew => hplace hnew.1.symm

/-- **A removal takes nothing but branches**, if it names known blocks. -/
lemma Held.removed {hashes : List KvBlockHash} {g : Option ℕ} (hnodup : hashes.Nodup)
    (hknown : p = q → g = c.partition.groupIdx → ∀ hash ∈ hashes,
      ∃ r, facts.Known p r ∧ r.partition.groupIdx = g ∧ r.blockHash = hash)
    (h : facts.Held q c) (hc : q = p → ∀ root ∈ hashes, ¬ Under S root c) :
    (facts.apply (.blockRemoved hashes p g) now).Held q c := by
  cases facts with
  | positionalHash =>
    exact held_positionalHash.mpr (PositionalHash.Held.removeBlocks hS.unambiguous hin.entries
      hnodup hknown (held_positionalHash.mp h) hc)
  | radixTree trees =>
    rw [Facts.Held, Facts.apply]
    dsimp only [Facts.Holds]
    rw [applyTree]
    by_cases hplace : p = q ∧ g = c.partition.groupIdx
    · obtain ⟨rfl, rfl⟩ := hplace
      have hall : hashes.all fun hash =>
          ((trees ⟨p, c.partition.groupIdx⟩).pathsByHash.lookup hash).isSome := by
        refine all_eq_true.mpr fun hash hmem => ?_
        obtain ⟨r, ⟨path, hpath⟩, hgroup, rfl⟩ := hknown rfl rfl hash hmem
        rw [hgroup] at hpath
        rw [hpath.path_eq (hcoh _)]
        rfl
      rw [if_pos ⟨rfl, rfl⟩, RadixTree.removeBlocks, if_pos hall]
      exact RadixTree.Held.foldl_removeSubtree (hcoh _) (hin.trees _) h (hc rfl)
    · rwa [if_neg hplace]

end

lemma Held.known (hcoh : facts.Coherent) (h : facts.Held p b)
    (hpar : b.parentHash = "" ∨ ∃ a, facts.Known p a ∧ b.parentHash = a.blockHash ∧
      b.partition.groupIdx = a.partition.groupIdx) : facts.Known p b := by
  cases facts with
  | positionalHash => exact held_positionalHash.mp h
  | radixTree =>
    obtain ⟨u, hu⟩ := h
    rcases hpar with hroot | ⟨a, ⟨pth, ha⟩, hlink, hgroup⟩
    · rcases hu with ⟨pth, hpath⟩ | ⟨key, hkey⟩
      · exact ⟨pth, u, hpath⟩
      · obtain ⟨hlink, -, hnone⟩ := (hcoh _).waiting hkey
        rw [← hlink, hroot] at hnone
        cases hnone
    · rw [← hgroup] at ha
      exact Holds.stored (hcoh _) ha hlink hu

lemma Known.prune {ttl : ℕ} (h : facts.Known p b)
    (hfresh : ∀ pl b u, facts.Holds pl b u → now ≤ u + ttl) :
    (facts.prune ttl now).Known p b := by
  cases facts with
  | positionalHash entries =>
    have hnone : entries.filter (fun e => ttl < now - e.observedAt) = [] := by
      refine filter_eq_nil_iff.mpr fun e hmem => ?_
      have hle := hfresh ⟨e.placement, e.block.partition.groupIdx⟩ e.block
        e.observedAt ⟨hmem, rfl⟩
      rw [decide_eq_true_eq]
      omega
    rwa [Facts.prune, pruneEntries, hnone]
  | radixTree trees =>
    obtain ⟨pth, hpath⟩ := h
    have hnone : (trees ⟨p, b.partition.groupIdx⟩).entriesByPath.toList.filter
        (fun f => ttl < now - f.2.observedAt) = [] := by
      refine filter_eq_nil_iff.mpr fun f hmem => ?_
      have hle := hfresh ⟨p, b.partition.groupIdx⟩ f.2.block f.2.observedAt
        (.inl ⟨f.1, mem_toList.mp hmem⟩)
      rw [decide_eq_true_eq]
      omega
    rw [Facts.prune]
    dsimp only [Facts.Known]
    rw [pruneTree, hnone]
    exact ⟨pth, hpath⟩

end Facts

lemma RadixTreeIndex.exists_tree {index : RadixTreeIndex} {source : KvEventSourceId}
    {pl : TreeKey} {b : KvStoredBlock} {pth : List UInt8}
    (h : StoredAt (index.tree source pl) b pth) :
    ∃ T tree, index.treesBySource.lookup source = some T ∧
      T.lookup pl = some tree ∧ index.tree source pl = tree := by
  obtain ⟨u, hu⟩ := h
  cases hsrc : index.treesBySource.lookup source with
  | none =>
    rw [tree_of_lookup_none pl hsrc] at hu
    cases hu
  | some T =>
    rw [tree_of_lookup pl hsrc] at hu ⊢
    cases htree : T.lookup pl with
    | none =>
      rw [htree] at hu
      cases hu
    | some tree => exact ⟨T, tree, rfl, htree, rfl⟩

namespace KvLocalityIndexes

variable {index : KvLocalityIndexes} {source : KvEventSourceId} {query : KvPrefixQuery}
  {key : KeyedDigest} {now : ℕ} {partition : KvPartition} {p : KvPlacement}

/-- **A query reports what is known**, at least. -/
lemma exists_mem_query (hcoh : index.Coherent) (hsingle : query.matchAllGroups = false)
    (hsel : query.selects partition = true) (hloc : p.locality ≠ .unspecified)
    (hfresh : ∀ place b u, (index.facts source).Holds place b u → now ≤ u + index.ttl)
    (hne : query.chain key partition ≠ [])
    (hknown : ∀ b ∈ query.chain key partition, (index.facts source).Known p b) :
    ∃ m ∈ (index.query source query key now).2, m.placement = p ∧
      (query.chain key partition).length * partition.hashBlockSize ≤ m.matchedTokens := by
  have hprun : ∀ b ∈ query.chain key partition,
      ((index.facts source).prune index.ttl now).Known p b :=
    fun b hb => (hknown b hb).prune hfresh
  cases index with
  | positionalHash index =>
    generalize hents : pruneEntries index.ttl now (index.entries source) = entries
    have hlists : Lists entries
        { f | ⟨f.block, f.placement, f.observedAt⟩ ∈ entries } := fun _ _ _ => Iff.rfl
    have hreply : (index.query source query key now).2 =
        matching entries query key := by
      rw [index.query_snd, hents]
    have hreports : Holdings.Reports { f | ⟨f.block, f.placement, f.observedAt⟩ ∈ entries }
        query key (index.query source query key now).2 := by
      rw [hreply]
      exact hlists.reports hsingle
    refine hreports.exists_mem hsel hloc hne fun b hb => ?_
    rw [← hents]
    exact hprun b hb
  | radixTree index =>
    have hstored : ∀ b ∈ query.chain key partition, ∃ path,
        StoredAt ((index.prune now).tree source ⟨p, query.groupIdx⟩) b path := by
      intro b hb
      obtain ⟨path, hpath⟩ := hprun b hb
      rw [partition_of_mem_hashChain hb, query.groupIdx_of_selects hsingle hsel] at hpath
      rw [index.tree_prune source _ now (hcoh source _)]
      exact ⟨path, hpath⟩
    have hcoh' : RadixTree.Coherent ((index.prune now).tree source ⟨p, query.groupIdx⟩) := by
      rw [index.tree_prune source _ now (hcoh source _)]
      exact (hcoh source _).pruneTree index.ttl
    obtain ⟨first, hfirst⟩ := exists_mem_of_ne_nil _ hne
    obtain ⟨path, u, hu⟩ := hstored first hfirst
    obtain ⟨sourceTree, tree, hsrc, htree, heq⟩ := RadixTreeIndex.exists_tree ⟨u, hu⟩
    rw [heq] at hstored hcoh' hu
    have hpart : partition ∈ matchingPartitions tree query := by
      refine mem_orderedSet.mpr (mem_filter.mpr ⟨?_, hsel⟩)
      refine mem_map.mpr ⟨(path, ⟨first, u⟩), mem_toList.mpr hu, ?_⟩
      exact partition_of_mem_hashChain hfirst
    have hreply : (index.query source query key now).2 =
        matching sourceTree query key := by
      rw [RadixTreeIndex.query, hsrc]
      rfl
    have hcount := hcoh'.le_matchedTokens fun i (hi : i < (query.chain key partition).length) => by
      have hget := getElem?_eq_getElem hi
      obtain ⟨path, hpath⟩ := hstored _ (mem_of_getElem? hget)
      exact ⟨_, path, hget, hpath⟩
    have hpos : 0 < (query.chain key partition).length * partition.hashBlockSize :=
      Nat.mul_pos (length_pos_of_ne_nil hne) (KvPrefixQuery.hashBlockSize_of_selects hsel)
    have hmatch := exists_mem_matching hsingle htree hloc hpart hpos hcount
    rwa [← hreply] at hmatch

end KvLocalityIndexes

end Foretoken.KvLocality
