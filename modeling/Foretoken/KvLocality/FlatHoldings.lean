import Foretoken.KvLocality.Holdings

/-!
The flat index keeps the holdings.

It looks for descendants among the entries of all placements. In sound holdings this finds nothing
else at the placement of the removal, since a block is never there without its parent
(`under_everywhere`).
-/

namespace Foretoken.KvLocality

open List

open Holdings

namespace PositionalHash

/-- Two entries do not name the same block at one placement. -/
def Apart (e e' : Entry) : Prop :=
  e.placement = e'.placement → e.block.blockHash ≠ e'.block.blockHash

/-- The entries are the holdings. -/
def Lists (entries : List Entry) (F : Holdings) : Prop :=
  ∀ p b u, ⟨b, p, u⟩ ∈ entries ↔ ⟨p, b, u⟩ ∈ F

/-- The entries are the holdings, each once. -/
structure Represents (entries : List Entry) (F : Holdings) : Prop where
  mem_iff : Lists entries F
  apart : entries.Pairwise Apart

variable {entries : List Entry} {F : Holdings} {S : Set KvStoredBlock} {p : KvPlacement}
  {b : KvStoredBlock} {now : ℕ}

lemma Lists.mem_blocksAt (h : Lists entries F) {e : Entry} (hmem : e ∈ entries) :
    e.block ∈ F.blocksAt e.placement :=
  ⟨e.observedAt, (h _ _ _).mp hmem⟩

lemma Represents.mem_blocksAt (h : Represents entries F) {e : Entry} (hmem : e ∈ entries) :
    e.block ∈ F.blocksAt e.placement :=
  h.mem_iff.mem_blocksAt hmem

lemma represents_nil : Represents [] ∅ where
  mem_iff _ _ _ := iff_of_false not_mem_nil (Set.notMem_empty _)
  apart := Pairwise.nil

/-- A part of the entries represents the part of the holdings. -/
lemma Represents.filter (h : Represents entries F) {G : Holdings} (test : Entry → Bool)
    (hG : ∀ p b u, ⟨p, b, u⟩ ∈ G ↔ ⟨p, b, u⟩ ∈ F ∧ test ⟨b, p, u⟩ = true) :
    Represents (entries.filter test) G where
  mem_iff p b u := by rw [mem_filter, h.mem_iff, hG]
  apart := h.apart.filter _

/-! ### Stores -/

/-- The only entry of a block is renewed in its place. -/
lemma modify_eq_map (h : entries.Pairwise Apart) {i : ℕ} (hfind : entries.findIdx? (fun entry =>
      entry.placement = p ∧ entry.block.blockHash = b.blockHash) = some i) (f : Entry → Entry) :
    entries.modify i f = entries.map fun entry =>
      if entry.placement = p ∧ entry.block.blockHash = b.blockHash then f entry else entry := by
  obtain ⟨hi, htest, -⟩ := findIdx?_eq_some_iff_getElem.mp hfind
  obtain ⟨hplace, hhash⟩ := of_decide_eq_true htest
  refine ext_getElem? fun k => ?_
  rw [getElem?_modify, getElem?_map]
  cases hk : entries[k]? with
  | none => rfl
  | some =>
    obtain ⟨hlt, rfl⟩ := List.getElem?_eq_some_iff.mp hk
    refine congrArg some ?_
    dsimp only
    by_cases hik : i = k
    · subst hik
      rw [if_pos rfl, if_pos ⟨hplace, hhash⟩]
    · rw [if_neg hik, if_neg]
      rintro ⟨hplace', hhash'⟩
      -- two entries for the same block would have to stand apart
      rcases Nat.lt_or_gt_of_ne hik with hless | hless
      · exact pairwise_iff_getElem.mp h i k hi hlt hless (hplace.trans hplace'.symm)
          (hhash.trans hhash'.symm)
      · exact pairwise_iff_getElem.mp h k i hlt hi hless (hplace'.trans hplace.symm)
          (hhash'.trans hhash.symm)

section

variable (hS : Genuine S) (hsound : F.Sound S)
include hS hsound

/-- **A store.** -/
lemma Represents.storeBlock (h : Represents entries F) (hb : b ∈ S) :
    Represents (storeBlock p now entries b) (F.store p now b) := by
  rw [PositionalHash.storeBlock]
  cases hfind : entries.findIdx? (fun entry =>
      entry.placement = p ∧ entry.block.blockHash = b.blockHash) with
  | none =>
    have hnew : ∀ entry ∈ entries, entry.placement = p → entry.block.blockHash ≠ b.blockHash := by
      intro entry hmem hplace hhash
      have htest := findIdx?_eq_none_iff.mp hfind entry hmem
      exact absurd ⟨hplace, hhash⟩ (of_decide_eq_false htest)
    refine ⟨fun q a u => ?_, ?_⟩
    · dsimp only
      rw [mem_append, h.mem_iff, mem_singleton]
      constructor
      · rintro (hold | hnew')
        · refine .inl ⟨hold, ?_⟩
          rintro ⟨rfl, rfl⟩
          exact hnew _ ((h.mem_iff _ _ _).mpr hold) rfl rfl
        · obtain ⟨rfl, rfl, rfl⟩ := Entry.mk.inj hnew'
          exact .inr rfl
      · rintro (⟨hold, -⟩ | hnew')
        · exact .inl hold
        · obtain ⟨rfl, rfl, rfl⟩ := Holding.mk.inj (Set.mem_singleton_iff.mp hnew')
          exact .inr rfl
    · refine pairwise_append.mpr ⟨h.apart, pairwise_singleton _ _, ?_⟩
      intro entry hmem entry' hmem' hplace
      obtain rfl := mem_singleton.mp hmem'
      exact hnew entry hmem hplace
  | some i =>
    dsimp only
    rw [modify_eq_map h.apart hfind]
    -- the block of the renewed entry is the stored one
    have hsame : ∀ entry ∈ entries, entry.block.blockHash = b.blockHash → entry.block = b :=
      fun entry hmem hhash =>
        hS.unambiguous _ (hsound.within _ (h.mem_blocksAt hmem)) _ hb hhash
    obtain ⟨hi, htest, -⟩ := findIdx?_eq_some_iff_getElem.mp hfind
    obtain ⟨hplace, hhash⟩ := of_decide_eq_true htest
    refine ⟨fun q a u => ?_, ?_⟩
    · rw [mem_map]
      constructor
      · rintro ⟨entry, hmem, heq⟩
        split_ifs at heq with hentry
        · obtain ⟨hblock, hplace', rfl⟩ := Entry.mk.inj heq
          rw [hsame entry hmem hentry.2] at hblock
          obtain ⟨rfl, rfl⟩ : b = a ∧ p = q := ⟨hblock, hentry.1.symm.trans hplace'⟩
          exact .inr rfl
        · subst heq
          refine .inl ⟨(h.mem_iff _ _ _).mp hmem, ?_⟩
          rintro ⟨rfl, rfl⟩
          exact hentry ⟨rfl, rfl⟩
      · rintro (⟨hold, hout⟩ | hnew)
        · refine ⟨⟨a, q, u⟩, (h.mem_iff _ _ _).mpr hold, if_neg ?_⟩
          rintro ⟨rfl, hhash'⟩
          exact hout ⟨rfl, hsame _ ((h.mem_iff _ _ _).mpr hold) hhash'⟩
        · obtain ⟨rfl, rfl, rfl⟩ := Holding.mk.inj (Set.mem_singleton_iff.mp hnew)
          refine ⟨entries[i], getElem_mem hi, ?_⟩
          rw [if_pos ⟨hplace, hhash⟩, hsame _ (getElem_mem hi) hhash, hplace]
    · refine pairwise_map.mpr (h.apart.imp fun {e e'} hapart => ?_)
      split_ifs
      all_goals exact hapart

/-! ### Removals -/

lemma under_everywhere {root : KvBlockHash} (hb : b ∈ F.blocksAt p)
    (h : Under { a | ∃ q, a ∈ F.blocksAt q } root b) :
    Under (F.blocksAt p) root b := by
  refine h.restrict hb fun a ⟨q, ha⟩ c hc hlink => ?_
  rcases hsound.rooted p c hc with hroot | ⟨a', ha', hlink'⟩
  · exact absurd (hlink.symm.trans hroot) (hS.hash_ne (hsound.within q ha))
  · rwa [hS.unambiguous a (hsound.within q ha) a' (hsound.within p ha') (hlink.symm.trans hlink')]

section

variable {root : KvBlockHash} (h : Represents entries F) (hroot : root ≠ "")
include h hroot

/-- **The descendants of a root are the blocks of its branch.** -/
lemma Represents.mem_descendants_iff (hb : b ∈ F.blocksAt p) :
    b.blockHash ∈ descendants entries {root} ↔ Under (F.blocksAt p) root b := by
  constructor
  · intro hmem
    -- the closure stays within the blocks below the root
    let target : Set KvBlockHash := { hash | hash = root ∨
      ∃ a, (∃ q, a ∈ F.blocksAt q) ∧ a.blockHash = hash ∧
        Under { a | ∃ q, a ∈ F.blocksAt q } root a }
    have hsub : ↑(descendants entries {root}) ⊆ target := by
      refine saturate_subset (fun found hfound hash hhash => ?_) _ ?_
      · obtain ⟨e, hentry, rfl⟩ := mem_map.mp (mem_toFinset.mp hhash)
        obtain ⟨hmem, hpar⟩ := mem_filter.mp hentry
        have hblock := h.mem_blocksAt hmem
        rcases hfound (of_decide_eq_true hpar) with hself | ⟨a, ha, hlink, hunder⟩
        · rcases hsound.rooted _ _ hblock with hnone | ⟨a, ha, hlink⟩
          · exact absurd (hself.symm.trans hnone) hroot
          · exact .inr ⟨e.block, ⟨_, hblock⟩, rfl,
              .child ⟨_, ha⟩ (.self (hlink.symm.trans hself)) hlink⟩
        · exact .inr ⟨e.block, ⟨_, hblock⟩, rfl, .child ha hunder hlink.symm⟩
      · intro hash hhash
        exact .inl (Finset.mem_singleton.mp hhash)
    refine under_everywhere hS hsound hb ?_
    rcases hsub hmem with hself | ⟨a, ⟨q, ha⟩, hhash, hunder⟩
    · exact .self hself
    · rwa [← hS.unambiguous a (hsound.within q ha) b (hsound.within p hb) hhash]
  · intro hunder
    induction hunder with
    | self hself =>
      rw [hself]
      exact root_mem_descendants root
    | child ha _ hlink ih =>
      obtain ⟨u, hu⟩ := hb
      refine mem_descendants ((h.mem_iff _ _ _).mpr hu) ?_
      rw [hlink]
      exact ih ha

lemma Represents.removeBranch :
    Represents (removeBranch entries p root) (F.cut {(p, root)}) := by
  refine h.filter _ fun q b u => ?_
  rw [decide_eq_true_eq]
  constructor
  · rintro ⟨hf, hkept⟩
    refine ⟨hf, ?_⟩
    by_cases hq : q = p
    · subst hq
      right
      rw [h.mem_descendants_iff hS hsound hroot ⟨u, hf⟩]
      exact hkept root rfl
    · exact .inl hq
  · rintro ⟨hf, hout⟩
    refine ⟨hf, fun root' hroot' => ?_⟩
    obtain ⟨rfl, rfl⟩ := Prod.mk.inj (Set.mem_singleton_iff.mp hroot')
    rw [← h.mem_descendants_iff hS hsound hroot ⟨u, hf⟩]
    exact hout.resolve_left fun hne => hne rfl

end

lemma Represents.foldl_removeBranch (h : Represents entries F)
    {branches : List (KvPlacement × KvBlockHash)} (hroots : ∀ br ∈ branches, br.2 ≠ "") :
    Represents (branches.foldl (fun entries br =>
      PositionalHash.removeBranch entries br.1 br.2) entries)
      (F.cut { br | br ∈ branches }) := by
  rw [← foldl_cut]
  induction branches generalizing entries F with
  | nil => exact h
  | cons br branches ih =>
    rw [forall_mem_cons] at hroots
    exact ih (hsound.cut _) (h.removeBranch hS hsound hroots.1) hroots.2

end

lemma Represents.holds_iff (h : Represents entries F) {g : Option ℕ} {hash : KvBlockHash} :
    holds entries p g hash = true ↔ F.Named p g hash := by
  rw [holds, any_eq_true]
  constructor
  · rintro ⟨e, hmem, htest⟩
    obtain ⟨rfl, hgroup, hhash⟩ := of_decide_eq_true htest
    exact ⟨e.block, h.mem_blocksAt hmem, hgroup, hhash⟩
  · rintro ⟨b, ⟨u, hu⟩, hgroup, hhash⟩
    exact ⟨⟨b, p, u⟩, (h.mem_iff _ _ _).mpr hu, decide_eq_true ⟨rfl, hgroup, hhash⟩⟩

/-- **A removal.** -/
lemma Represents.removeBlocks (hS : Genuine S) (hsound : F.Sound S) (h : Represents entries F)
    {hashes : List KvBlockHash} (hnodup : hashes.Nodup) (g : Option ℕ) :
    Represents (removeBlocks entries hashes p g) (F.remove hashes p g) := by
  rw [PositionalHash.removeBlocks, Holdings.remove]
  by_cases hall : ∀ hash ∈ hashes, F.Named p g hash
  · have hfilt : hashes.filter (holds entries p g) = hashes :=
      filter_eq_self.mpr fun hash hmem => h.holds_iff.mpr (hall hash hmem)
    rw [hfilt, if_pos hall, if_neg (not_not.mpr (length_orderedSet hnodup))]
    have hroots : ∀ br ∈ (orderedSet hashes).map (p, ·), br.2 ≠ "" := by
      intro br hbranch
      obtain ⟨hash, hmem, rfl⟩ := mem_map.mp hbranch
      obtain ⟨b, hb, -, hhash⟩ := hall hash (mem_orderedSet.mp hmem)
      rw [← hhash]
      exact hS.hash_ne (hsound.within p hb)
    have hfold := h.foldl_removeBranch hS hsound hroots
    rw [foldl_map] at hfold
    convert hfold using 2
    ext ⟨q, hash⟩
    simp [and_comm, eq_comm]
  · have hlen : (orderedSet (hashes.filter (holds entries p g))).length ≠ hashes.length := by
      intro hlen
      exact hall fun hash hmem => h.holds_iff.mp (forall_of_length_orderedSet hlen hash hmem)
    rw [if_pos hlen, if_neg hall]
    refine h.filter _ fun q b u => ?_
    rw [decide_eq_true_eq, ← not_and_or]
    exact and_congr_right fun hf => not_congr ⟨fun hin => hin.2, fun hin => ⟨hf, hin⟩⟩

/-! ### Touching and expiry -/

lemma Represents.touchEntries (h : Represents entries F) :
    Represents (touchEntries entries now) (F.touch now) where
  mem_iff p b u := by
    rw [PositionalHash.touchEntries, mem_map]
    constructor
    · rintro ⟨e, hmem, heq⟩
      obtain ⟨rfl, rfl, rfl⟩ := Entry.mk.inj heq
      exact ⟨h.mem_blocksAt hmem, rfl⟩
    · rintro ⟨⟨v, hv⟩, rfl⟩
      exact ⟨⟨b, p, v⟩, (h.mem_iff _ _ _).mpr hv, rfl⟩
  apart := pairwise_map.mpr (h.apart.imp id)

section

variable (hS : Genuine S) (hsound : F.Sound S) (h : Represents entries F)
include hS hsound h

/-- **Expiry.** -/
lemma Represents.pruneEntries (ttl : ℕ) :
    Represents (pruneEntries ttl now entries) (F.prune ttl now) := by
  have hexp : F.expired ttl now = { br | br ∈
      (entries.filter fun e => ttl < now - e.observedAt).map
        fun e => (e.placement, e.block.blockHash) } := by
    ext br
    constructor
    · rintro ⟨f, hf, hold, rfl⟩
      refine mem_map.mpr ⟨⟨f.block, f.placement, f.observedAt⟩, mem_filter.mpr ⟨?_, ?_⟩, rfl⟩
      · exact (h.mem_iff _ _ _).mpr hf
      · exact decide_eq_true hold
    · intro hmem
      obtain ⟨e, hentry, rfl⟩ := mem_map.mp hmem
      obtain ⟨hentry, hold⟩ := mem_filter.mp hentry
      exact ⟨⟨e.placement, e.block, e.observedAt⟩, (h.mem_iff _ _ _).mp hentry,
        of_decide_eq_true hold, rfl⟩
  rw [Holdings.prune, hexp]
  refine h.foldl_removeBranch hS hsound fun br hbranch => ?_
  obtain ⟨e, hentry, rfl⟩ := mem_map.mp hbranch
  exact hS.hash_ne (hsound.within _ (h.mem_blocksAt (mem_filter.mp hentry).1))

/-- **Every event that is admitted.** -/
lemma Represents.applyEntries {e : KvDeltaEvent} (hadm : F.Admits S now e) :
    Represents (applyEntries entries e now) (F.apply e now) := by
  cases e with
  | blockStored bs =>
    induction bs generalizing entries F with
    | nil => exact h
    | cons bl bs ih =>
      exact ih (hsound.store hadm.1) (h.storeBlock hS hsound hadm.1.1) hadm.2
  | blockRemoved hashes pl g => exact h.removeBlocks hS hsound hadm g
  | allBlocksCleared => exact represents_nil

end

/-! ### Queries -/

variable {query : KvPrefixQuery} {key : KeyedDigest} {partition : KvPartition}

section

variable (h : Lists entries F)
include h

/-- The loop over the chunks counts the blocks that are there. -/
lemma Lists.le_matched_iff {z : Option String} {pa : KvBlockHash} {ix : ℕ} {cs : List (List ℕ)}
    {k : ℕ} :
    k ≤ matchedCompleteBlocks entries p key partition z pa ix cs ↔
      F.Covers p (hashChain key partition z pa ix cs) k := by
  constructor
  · intro hk i hi
    obtain ⟨b, u, hb, hheld⟩ := matchedCompleteBlocks_held (hi.trans_le hk)
    exact ⟨b, ⟨u, (h _ _ _).mp hheld⟩, hb⟩
  · intro hcov
    induction cs generalizing pa ix k with
    | nil => exact hcov.length_le
    | cons ts rest ih =>
      cases k with
      | zero => exact Nat.zero_le _
      | succ k =>
        rw [hashChain] at hcov
        obtain ⟨b, ⟨u, hu⟩, hb⟩ := hcov 0 (Nat.succ_pos k)
        cases hb
        have hrest : k ≤ matchedCompleteBlocks entries p key partition z
            (normalizedKvBlockHash key pa ts partition z) (ix + 1) rest := by
          refine ih fun i hi => ?_
          obtain ⟨b, hb, hget⟩ := hcov (i + 1) (Nat.succ_lt_succ hi)
          exact ⟨b, hb, by rw [getElem?_cons_succ] at hget; exact hget⟩
        rw [matchedCompleteBlocks, if_pos]
        · exact Nat.succ_le_succ hrest
        · exact any_eq_true.mpr ⟨_, (h _ _ _).mpr hu, decide_eq_true ⟨rfl, rfl, rfl, rfl, rfl⟩⟩

lemma Lists.mem_matchingPartitions :
    partition ∈ matchingPartitions entries query ↔
      query.selects partition = true ∧ ∃ q, ∃ b ∈ F.blocksAt q, b.partition = partition := by
  rw [matchingPartitions, mem_orderedSet, mem_filter, and_comm]
  refine and_congr_right fun _ => ?_
  constructor
  · intro hmem
    obtain ⟨entry, hentry, rfl⟩ := mem_map.mp hmem
    exact ⟨_, _, h.mem_blocksAt hentry, rfl⟩
  · rintro ⟨q, b, ⟨u, hu⟩, rfl⟩
    exact mem_map.mpr ⟨⟨b, q, u⟩, (h _ _ _).mpr hu, rfl⟩

/-- The loop over groups and partitions finds the best. -/
lemma Lists.matched_eq_best :
    ((orderedSet ((matchingPartitions entries query).map (·.groupIdx))).map fun group =>
      (((matchingPartitions entries query).filter (·.groupIdx = group)).map
        (matchedTokens entries query key p)).foldl max 0).max?.getD 0 = F.best query key p := by
  symm
  refine best_eq (fun hpos => ?_) fun n hn => ?_
  · obtain ⟨group, -, hgroup⟩ := mem_map.mp (mem_of_max?_getD hpos)
    rw [← hgroup] at hpos ⊢
    obtain ⟨partition, hpart, heq⟩ := mem_map.mp (mem_of_foldl_max hpos)
    rw [← heq]
    exact ⟨partition, _, (h.mem_matchingPartitions.mp (mem_filter.mp hpart).1).1,
      h.le_matched_iff.mp le_rfl, rfl⟩
  · obtain ⟨partition, k, hsel, hcov, rfl⟩ := hn
    rcases Nat.eq_zero_or_pos k with rfl | hpos
    · rw [Nat.zero_mul]
      exact Nat.zero_le _
    obtain ⟨b, hb, hget⟩ := hcov 0 hpos
    have hpart : partition ∈ matchingPartitions entries query :=
      h.mem_matchingPartitions.mpr
        ⟨hsel, p, b, hb, partition_of_mem_hashChain (mem_of_getElem? hget)⟩
    have htok : k * partition.hashBlockSize ≤ matchedTokens entries query key p partition :=
      Nat.mul_le_mul_right _ (h.le_matched_iff.mpr hcov)
    exact htok.trans (matchedTokens_le_max hpart)

/-- **A query reports the best match of each placement.** -/
lemma Lists.reports (hsingle : query.matchAllGroups = false) :
    F.Reports query key (matching entries query key) := by
  refine reports_sortByOrd (nodup_orderedSet _) (fun q hq m => ?_) fun q hloc hpos => ?_
  · have hloc := (mem_filter.mp (mem_orderedSet.mp hq)).2
    rw [hsingle]
    simp only [Bool.false_eq_true, if_false]
    rw [h.matched_eq_best]
    split_ifs with hpos
    · simp [hpos, of_decide_eq_true hloc, eq_comm]
    · simp [hpos]
  · obtain ⟨b, ⟨u, hu⟩, -⟩ := exists_of_best_pos hpos
    refine mem_orderedSet.mpr (mem_filter.mpr ⟨?_, decide_eq_true hloc⟩)
    exact mem_map.mpr ⟨⟨b, q, u⟩, (h _ _ _).mpr hu, rfl⟩

end

end PositionalHash

end Foretoken.KvLocality
