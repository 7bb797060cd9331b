import Foretoken.KvLocality.Holdings

/-!
The radix tree keeps the holdings.

As long as only blocks are stored whose parent is there, nothing ever waits, and every operation on
a tree is the operation on the holdings of its group. A removal looks at paths, which are made of
the hashes of the blocks above (`Represents.continues_iff`).
-/

namespace Foretoken.KvLocality

open List Option Table Nat Holdings

namespace RadixTree

variable {pl : TreeKey} {l : List KvStoredBlock} {hash parent : KvBlockHash} {entry : Entry}
  {groupIdx : Option ℕ} {index k : ℕ}

/-- The entries of the tree are the holdings at the placement. -/
structure Represents (tree : GroupTree) (p : KvPlacement) (G : Holdings) : Prop where
  coherent : Coherent tree
  settled : tree.pendingByParent = ∅
  stored_iff : ∀ b u, (∃ path, tree.entriesByPath.lookup path = some ⟨b, u⟩) ↔ ⟨p, b, u⟩ ∈ G

variable {tree : GroupTree} {p : KvPlacement} {G F : Holdings} {S : Set KvStoredBlock}
  {b : KvStoredBlock} {now : ℕ} {path : List UInt8}

lemma Represents.storedAt_iff (h : Represents tree p G) :
    (∃ path, StoredAt tree b path) ↔ b ∈ G.blocksAt p := by
  constructor
  · rintro ⟨path, u, hu⟩
    exact ⟨u, (h.stored_iff b u).mp ⟨path, hu⟩⟩
  · rintro ⟨u, hu⟩
    obtain ⟨path, hpath⟩ := (h.stored_iff b u).mpr hu
    exact ⟨path, u, hpath⟩

lemma represents_default : Represents default p ∅ where
  coherent := coherent_default
  settled := rfl
  stored_iff _ _ := iff_of_false (fun ⟨_, h⟩ => by cases h) (Set.notMem_empty _)

lemma Represents.known_iff (h : Represents tree p G) :
    (tree.pathsByHash.lookup hash).isSome = true ↔ ∃ b ∈ G.blocksAt p, b.blockHash = hash := by
  constructor
  · intro hknown
    obtain ⟨path, hpath⟩ := isSome_iff_exists.mp hknown
    obtain ⟨entry, hentry, hhash⟩ := h.coherent.path_stored hpath
    exact ⟨entry.block, h.storedAt_iff.mp ⟨path, entry.observedAt, hentry⟩, hhash⟩
  · rintro ⟨b, hb, rfl⟩
    obtain ⟨path, hpath⟩ := h.storedAt_iff.mpr hb
    rw [hpath.path_eq h.coherent]
    rfl

/-! ### Stores -/

lemma hashBytes_of_named
    (h : ∃ bytes : List UInt8, bytes.length = 32 ∧ hash = Base64.encode bytes) :
    ∃ bytes, hashBytes hash = some bytes := by
  obtain ⟨bytes, hlen, rfl⟩ := h
  exact ⟨bytes, hashBytes_eq_some.mpr ⟨Base64.decode_encode bytes, hlen⟩⟩

/-- An entry is written where its block is. -/
lemma Represents.stored_insert (h : Represents tree p G)
    (hpath : ∀ {path' a u}, tree.entriesByPath.lookup path' = some ⟨a, u⟩ → (path' = path ↔ a = b))
    (a : KvStoredBlock) (u : ℕ) :
    (∃ path', (tree.entriesByPath.insert path ⟨b, now⟩).lookup path' = some ⟨a, u⟩) ↔
      ⟨p, a, u⟩ ∈ G.store p now b := by
  constructor
  · rintro ⟨path', hlook⟩
    rw [lookup_insert_eq] at hlook
    split_ifs at hlook with hsame
    · obtain ⟨rfl, rfl⟩ := Entry.mk.inj (some.inj hlook)
      exact .inr rfl
    · exact .inl ⟨(h.stored_iff a u).mp ⟨path', hlook⟩, fun hab => hsame ((hpath hlook).mpr hab.2)⟩
  · rintro (⟨hold, hne⟩ | hnew)
    · obtain ⟨path', hlook⟩ := (h.stored_iff a u).mpr hold
      refine ⟨path', ?_⟩
      rw [lookup_insert_eq, if_neg fun hsame => hne ⟨rfl, (hpath hlook).mp hsame⟩, hlook]
    · obtain ⟨-, rfl, rfl⟩ := Holding.mk.inj (Set.mem_singleton_iff.mp hnew)
      exact ⟨path, by rw [lookup_insert_eq, if_pos rfl]⟩

lemma Represents.refresh (hS : Genuine S) (h : Represents tree p G) (hG : G.blocksAt p ⊆ S)
    (hb : b ∈ S) (hpath : tree.pathsByHash.lookup b.blockHash = some path) :
    Represents (refresh tree path now) p (G.store p now b) := by
  refine ⟨h.coherent.refresh, ?_, ?_⟩
  · rw [RadixTree.refresh]
    split
    all_goals exact h.settled
  obtain ⟨⟨b', v⟩, hentry, hhash⟩ := h.coherent.path_stored hpath
  obtain rfl : b' = b :=
    hS.unambiguous b' (hG (h.storedAt_iff.mp ⟨path, v, hentry⟩)) b hb hhash
  rw [RadixTree.refresh, hentry]
  refine h.stored_insert fun hlook => ⟨?_, ?_⟩
  · rintro rfl
    rw [hentry] at hlook
    exact (Entry.mk.inj (some.inj hlook)).1.symm
  · rintro rfl
    exact some.inj ((h.coherent.stored_path hlook).symm.trans hpath)

lemma Represents.materialize (h : Represents tree p G) {ab bs : List UInt8}
    (hnew : tree.pathsByHash.lookup b.blockHash = none)
    (hbytes : hashBytes b.blockHash = some bs)
    (hpar : parentPath tree b.parentHash = some ab) :
    Represents (materialize tree (ab ++ bs) b now) p (G.store p now b) := by
  refine ⟨h.coherent.materialize hnew hbytes hpar, ?_, h.stored_insert fun hlook => ⟨?_, ?_⟩⟩
  · rw [RadixTree.materialize, h.settled]
    rfl
  · rintro rfl
    simp [h.coherent.path_free hnew hbytes] at hlook
  · rintro rfl
    simp [h.coherent.stored_path hlook] at hnew

/-- **A store.** -/
lemma Represents.storeBlock (hS : Genuine S) (h : Represents tree p G) (hG : G.blocksAt p ⊆ S)
    (hadm : G.AdmitsBlock S p b) : Represents (storeBlock tree b now) p (G.store p now b) := by
  rw [storeBlock_eq, storeBlockBody]
  cases hknown : tree.pathsByHash.lookup b.blockHash with
  | some => exact h.refresh hS hG hadm.1 hknown
  | none =>
    obtain ⟨bytes, hbytes⟩ := hashBytes_of_named (hS.named b hadm.1)
    obtain ⟨above, habove⟩ : ∃ above, parentPath tree b.parentHash = some above := by
      rw [parentPath]
      split_ifs with hroot
      · exact ⟨[], rfl⟩
      · obtain ⟨a, ha, hlink⟩ := hadm.2.resolve_left hroot
        obtain ⟨path, hpath⟩ := h.storedAt_iff.mpr ha
        exact ⟨path, by rw [hlink, hpath.path_eq h.coherent]⟩
    have hnone : waitingFor tree b.blockHash = [] := by
      rw [waitingFor, h.settled]
      rfl
    rw [hbytes, habove]
    rw [hnone]
    exact h.materialize hknown hbytes habove

/-! ### Removals -/

/-- Paths are made of whole hashes. -/
lemma Coherent.length_path (hcoh : Coherent tree)
    (h : tree.entriesByPath.lookup path = some entry) :
    hashLength ∣ path.length ∧ 0 < path.length := by
  induction hn : path.length using Nat.strong_induction_on generalizing path entry with
  | _ n ih =>
    obtain ⟨a, bytes, habove, hbytes, rfl⟩ := hcoh.path_eq h
    have hlen := (hashBytes_eq_some.mp hbytes).2
    rw [length_append, hlen] at hn
    subst hn
    have hpos : 0 < hashLength := by decide
    refine ⟨dvd_add ?_ (dvd_refl _), by omega⟩
    rcases parentPath_eq_some.mp habove with ⟨-, rfl⟩ | ⟨-, hpar⟩
    · exact dvd_zero _
    · obtain ⟨entry', hentry', -⟩ := hcoh.path_stored hpar
      exact (ih a.length (by omega) hentry' rfl).1

/-- **Every whole-hash beginning of a stored path is stored.** -/
lemma Coherent.boundary_stored (hcoh : Coherent tree)
    (h : tree.entriesByPath.lookup path = some entry) {cut : List UInt8} (hcut : cut <+: path)
    (hne : cut ≠ []) (hdvd : hashLength ∣ cut.length) :
    ∃ entry, tree.entriesByPath.lookup cut = some entry := by
  induction hn : path.length using Nat.strong_induction_on generalizing path entry with
  | _ n ih =>
    have hpath := (hcoh.length_path h).1
    obtain ⟨above, bytes, habove, hbytes, rfl⟩ := hcoh.path_eq h
    have hlen := (hashBytes_eq_some.mp hbytes).2
    have hbound := hcut.length_le
    rw [length_append, hlen, hashLength] at hn hpath hbound
    by_cases hle : cut.length ≤ above.length
    · have hcut' : cut <+: above := prefix_of_prefix_length_le hcut (prefix_append _ _) hle
      rcases parentPath_eq_some.mp habove with ⟨-, rfl⟩ | ⟨-, hpar⟩
      · exact absurd (prefix_nil.mp hcut') hne
      · obtain ⟨entry', hentry', -⟩ := hcoh.path_stored hpar
        exact ih above.length (by omega) hentry' hcut' rfl
    · -- both lengths are multiples of the hash length, so nothing is cut off
      rw [hashLength] at hdvd
      rw [hcut.eq_of_length (by rw [length_append, hlen, hashLength]; omega)]
      exact ⟨entry, h⟩

/-- **A path that continues that of a root lies below the root.** -/
lemma Coherent.under_of_continues (hcoh : Coherent tree) {T : Set KvStoredBlock}
    (hT : ∀ a path, StoredAt tree a path → a ∈ T) {root : KvBlockHash} {cut : List UInt8}
    (hroot : tree.pathsByHash.lookup root = some cut) (hb : StoredAt tree b path)
    (hcont : cut <+: path) : Under T root b := by
  obtain ⟨first, hfirst, hhash⟩ := hcoh.path_stored hroot
  induction hn : path.length using Nat.strong_induction_on generalizing path b with
  | _ n ih =>
    by_cases hsame : cut = path
    · subst hsame
      obtain ⟨u, hu⟩ := hb
      rw [hu] at hfirst
      cases hfirst
      exact .self hhash
    obtain ⟨u, hu⟩ := id hb
    obtain ⟨above, bytes, habove, hbytes, heq⟩ := hcoh.path_eq hu
    have hbytesLength := (hashBytes_eq_some.mp hbytes).2
    obtain ⟨hcut, hcutPos⟩ := hcoh.length_path hfirst
    have hpath := (hcoh.length_path hu).1
    have hlen : path.length = above.length + hashLength := by
      rw [heq, length_append, hbytesLength]
    -- both lengths are multiples of the hash length, so the root ends above the block
    have hless : cut.length < path.length :=
      lt_of_le_of_ne hcont.length_le fun heq => hsame (hcont.eq_of_length heq)
    have hle : cut.length ≤ above.length := by
      rw [hashLength] at *
      omega
    have habove' : cut <+: above := by
      refine prefix_of_prefix_length_le hcont ?_ hle
      rw [heq]
      exact prefix_append _ _
    rcases parentPath_eq_some.mp habove with ⟨-, rfl⟩ | ⟨-, hpar⟩
    · rw [length_nil] at hle
      omega
    · obtain ⟨⟨a, v⟩, hentry, hlink⟩ := hcoh.path_stored hpar
      have hpos : 0 < hashLength := by decide
      refine .child (hT a above ⟨v, hentry⟩) ?_ hlink.symm
      exact ih above.length (by omega) ⟨v, hentry⟩ habove' rfl

/-- **A path continues that of a root exactly below the root.** -/
lemma Represents.continues_iff (h : Represents tree p G) {root : KvBlockHash} {cut : List UInt8}
    (hroot : tree.pathsByHash.lookup root = some cut) (hb : StoredAt tree b path) :
    cut <+: path ↔ Under (G.blocksAt p) root b := by
  constructor
  · exact h.coherent.under_of_continues (fun a path ha => h.storedAt_iff.mp ⟨path, ha⟩) hroot hb
  · intro hunder
    induction hunder generalizing path with
    | self hself =>
      have hpath := hb.path_eq h.coherent
      rw [hself, hroot] at hpath
      rw [some.inj hpath]
    | child ha _ hlink ih =>
      obtain ⟨ab, habove⟩ := h.storedAt_iff.mpr ha
      exact (ih habove).trans (habove.above h.coherent hlink hb)

lemma not_under_of_unknown {root : KvBlockHash} (hroot : ∀ b ∈ G.blocksAt p, b.blockHash ≠ root)
    (hb : b ∈ G.blocksAt p) : ¬ Under (G.blocksAt p) root b := by
  intro hunder
  induction hunder with
  | self hself => exact hroot _ hb hself
  | child ha _ _ ih => exact ih ha

section

variable (h : Represents tree p G)
include h

lemma Represents.removeSubtree (root : KvBlockHash) :
    Represents (removeSubtree tree root) p (G.cut {(p, root)}) := by
  have hcut : ∀ b u, ⟨p, b, u⟩ ∈ G.cut {(p, root)} ↔
      ⟨p, b, u⟩ ∈ G ∧ ¬ Under (G.blocksAt p) root b := by
    intro b u
    refine and_congr_right fun _ => ⟨fun hkept => hkept root rfl, fun hkept root' hroot' => ?_⟩
    obtain ⟨-, rfl⟩ := Prod.mk.inj (Set.mem_singleton_iff.mp hroot')
    exact hkept
  refine ⟨h.coherent.removeSubtree root, ?_, fun b u => ?_⟩
  · rw [RadixTree.removeSubtree]
    split
    · exact h.settled
    · rw [h.settled]
      rfl
  rw [hcut, ← h.stored_iff]
  cases hroot : tree.pathsByHash.lookup root with
  | none =>
    rw [removeSubtree_of_unknown hroot]
    refine ⟨fun hstored => ⟨hstored, ?_⟩, fun hstored => hstored.1⟩
    refine not_under_of_unknown (fun a ha hhash => ?_) ⟨u, (h.stored_iff b u).mp hstored⟩
    have hknown := h.known_iff.mpr ⟨a, ha, hhash⟩
    simp [hroot] at hknown
  | some =>
    obtain ⟨-, hents⟩ := h.coherent.removeSubtree_eq hroot
    constructor
    · rintro ⟨path, hpath⟩
      obtain ⟨hold, hout⟩ := (hents path _).mp hpath
      refine ⟨⟨path, hold⟩, ?_⟩
      rwa [← h.continues_iff hroot ⟨u, hold⟩]
    · rintro ⟨⟨path, hold⟩, hout⟩
      refine ⟨path, (hents path _).mpr ⟨hold, ?_⟩⟩
      rwa [h.continues_iff hroot ⟨u, hold⟩]

lemma Represents.foldl_removeSubtree (rs : List KvBlockHash) :
    Represents (rs.foldl RadixTree.removeSubtree tree) p
      (G.cut { br | br.1 = p ∧ br.2 ∈ rs }) := by
  have hbranches : { br : KvPlacement × KvBlockHash | br.1 = p ∧ br.2 ∈ rs } =
      { br | br ∈ rs.map (p, ·) } := by
    ext ⟨q, root⟩
    simp [and_comm, eq_comm]
  rw [hbranches, ← foldl_cut]
  clear hbranches
  induction rs generalizing tree G with
  | nil => exact h
  | cons root rs ih => exact ih (h.removeSubtree root)

/-! ### Touching and expiry -/

lemma Represents.touchTree :
    Represents (touchTree tree now) p (G.touch now) where
  coherent := h.coherent.touchTree
  settled := h.settled
  stored_iff b u := by
    simp only [RadixTree.touchTree, Table.lookup_mapValues, map_eq_some_iff]
    constructor
    · rintro ⟨path, ⟨a, v⟩, hentry, heq⟩
      obtain ⟨rfl, rfl⟩ := Entry.mk.inj heq
      exact ⟨⟨v, (h.stored_iff _ _).mp ⟨path, hentry⟩⟩, rfl⟩
    · rintro ⟨⟨v, hv⟩, rfl⟩
      obtain ⟨path, hpath⟩ := (h.stored_iff _ _).mpr hv
      exact ⟨path, ⟨b, v⟩, hpath, rfl⟩

/-- **Expiry.** -/
lemma Represents.pruneTree (ttl now : ℕ) :
    Represents (pruneTree ttl now tree) p
      (G.cut { br | br.1 = p ∧ br ∈ G.expired ttl now }) := by
  let roots := (tree.entriesByPath.toList.filter fun fd => ttl < now - fd.2.observedAt).map
    (·.2.block.blockHash)
  have hexp : { br : KvPlacement × KvBlockHash | br.1 = p ∧ br ∈ G.expired ttl now } =
      { br | br.1 = p ∧ br.2 ∈ roots } := by
    ext ⟨q, root⟩
    refine and_congr_right fun hq => ?_
    subst hq
    constructor
    · rintro ⟨f, hf, hold, heq⟩
      obtain ⟨rfl, rfl⟩ := Prod.mk.inj heq
      obtain ⟨path, hpath⟩ := (h.stored_iff f.block f.observedAt).mpr hf
      exact mem_map.mpr ⟨(path, ⟨f.block, f.observedAt⟩),
        mem_filter.mpr ⟨Table.mem_toList.mpr hpath, decide_eq_true hold⟩, rfl⟩
    · intro hmem
      obtain ⟨⟨path, entry⟩, hentry, rfl⟩ := mem_map.mp hmem
      obtain ⟨hentry, hold⟩ := mem_filter.mp hentry
      exact ⟨⟨q, entry.block, entry.observedAt⟩,
        (h.stored_iff _ _).mp ⟨path, Table.mem_toList.mp hentry⟩, of_decide_eq_true hold, rfl⟩
  rw [hexp]
  have hcut := h.foldl_removeSubtree roots
  refine ⟨h.coherent.pruneTree ttl, ?_, hcut.stored_iff⟩
  rw [RadixTree.pruneTree]
  rw [show (roots.foldl RadixTree.removeSubtree tree).pendingByParent = ∅ from hcut.settled]
  rfl

end

/-! ### The trees of a source -/

/-- Every tree represents the holdings of its placement and group. -/
def TreesRepresent (trees : TreeKey → GroupTree) (F : Holdings) : Prop :=
  ∀ place, Represents (trees place) place.placement (F.part place.placement place.groupIdx)

section Trees

variable {trees : TreeKey → GroupTree}

lemma part_store (pl : TreeKey) :
    (F.store p now b).part pl.placement pl.groupIdx =
      if p = pl.placement ∧ b.partition.groupIdx = pl.groupIdx then
        (F.part pl.placement pl.groupIdx).store p now b
      else F.part pl.placement pl.groupIdx := by
  ext f
  split_ifs with hplace
  · constructor
    · rintro ⟨⟨hf, hne⟩ | hnew, hpart⟩
      · exact .inl ⟨⟨hf, hpart⟩, hne⟩
      · exact .inr hnew
    · rintro (⟨⟨hf, hpart⟩, hne⟩ | hnew)
      · exact ⟨.inl ⟨hf, hne⟩, hpart⟩
      · obtain rfl := Set.mem_singleton_iff.mp hnew
        exact ⟨.inr rfl, hplace⟩
  · constructor
    · rintro ⟨⟨hf, -⟩ | hnew, hpart⟩
      · exact ⟨hf, hpart⟩
      · obtain rfl := Set.mem_singleton_iff.mp hnew
        exact absurd hpart hplace
    · rintro ⟨hf, hpart⟩
      refine ⟨.inl ⟨hf, ?_⟩, hpart⟩
      rintro ⟨rfl, rfl⟩
      exact hplace hpart

/-- The blocks of an event go to the trees of their groups. -/
lemma Represents.storeBlocks (hS : Genuine S) (hsound : F.Sound S)
    (h : Represents tree pl.placement (F.part pl.placement pl.groupIdx)) {bs : List KvStoredBlock}
    (hadm : AdmitsBlocks S pl.placement now F bs) :
    Represents ((bs.filter (·.partition.groupIdx = pl.groupIdx)).foldl
        (fun tree bl => RadixTree.storeBlock tree bl now) tree) pl.placement
      ((bs.foldl (fun F bl => F.store pl.placement now bl) F).part pl.placement
        pl.groupIdx) := by
  induction bs generalizing F tree with
  | nil => exact h
  | cons bl bs ih =>
    have hnext : (F.store pl.placement now bl).Sound S := hsound.store hadm.1
    by_cases hgroup : bl.partition.groupIdx = pl.groupIdx
    · rw [filter_cons_of_pos (by simpa using hgroup)]
      refine ih hnext ?_ hadm.2
      rw [part_store, if_pos ⟨rfl, hgroup⟩]
      refine h.storeBlock hS (fun c hc => hsound.within _ (blocksAt_part.mp hc).1) ⟨hadm.1.1, ?_⟩
      refine hadm.1.2.imp_right fun ⟨a, ha, hlink⟩ => ⟨a, blocksAt_part.mpr ⟨ha, ?_⟩, hlink⟩
      rwa [← (hS.parent (hsound.within _ ha) hadm.1.1 hlink).1]
    · rw [filter_cons_of_neg (by simpa using hgroup)]
      refine ih hnext ?_ hadm.2
      rwa [part_store, if_neg fun hin => hgroup hin.2]

lemma part_foldl_store_of_ne (hne : p ≠ pl.placement) (bs : List KvStoredBlock) :
    (bs.foldl (fun F bl => F.store p now bl) F).part pl.placement pl.groupIdx =
      F.part pl.placement pl.groupIdx := by
  induction bs generalizing F with
  | nil => rfl
  | cons bl bs ih => rw [foldl_cons, ih, part_store, if_neg fun hin => hne hin.1]

lemma named_iff :
    (∃ b ∈ (F.part p groupIdx).blocksAt p, b.blockHash = hash) ↔ F.Named p groupIdx hash := by
  constructor
  · rintro ⟨b, hb, hhash⟩
    obtain ⟨hb, hgroup⟩ := blocksAt_part.mp hb
    exact ⟨b, hb, hgroup, hhash⟩
  · rintro ⟨b, hb, hgroup, hhash⟩
    exact ⟨b, blocksAt_part.mpr ⟨hb, hgroup⟩, hhash⟩

section

variable (hS : Genuine S) (hsound : F.Sound S)
include hS hsound

lemma part_remove_of_ne {hashes : List KvBlockHash}
    (hne : ¬ (p = pl.placement ∧ groupIdx = pl.groupIdx)) :
    (F.remove hashes p groupIdx).part pl.placement pl.groupIdx =
      F.part pl.placement pl.groupIdx := by
  rw [remove]
  split_ifs with hall
  · rw [part_cut hS hsound, cut_part_congr hS hsound, cut_empty]
    · intro root hnamed
      refine iff_of_false ?_ (Set.notMem_empty _)
      rintro ⟨hplace, hmem⟩
      obtain ⟨b, hb, hgroup, hhash⟩ := hnamed
      obtain ⟨b', hb', hgroup', hhash'⟩ := hall root hmem
      obtain rfl := hS.unambiguous b (hsound.within _ hb) b' (hsound.within _ hb')
        (hhash.trans hhash'.symm)
      exact hne ⟨hplace.symm, hgroup'.symm.trans hgroup⟩
    · rintro root ⟨hplace, hmem⟩
      obtain ⟨b, hb, -, hhash⟩ := hall root hmem
      dsimp only at hplace
      exact ⟨b, hplace ▸ hb, hhash⟩
    · exact fun root hroot => absurd hroot (Set.notMem_empty _)
  · ext f
    constructor
    · rintro ⟨⟨hf, -⟩, hpart⟩
      exact ⟨hf, hpart⟩
    · rintro ⟨hf, hpart⟩
      exact ⟨⟨hf, fun hin => hne ⟨hin.2.1.symm.trans hpart.1, hin.2.2.symm.trans hpart.2⟩⟩, hpart⟩

/-- **A removal.** -/
lemma Represents.removeBlocks (h : Represents tree p (F.part p groupIdx))
    (hashes : List KvBlockHash) :
    Represents (removeBlocks tree hashes) p ((F.remove hashes p groupIdx).part p groupIdx) := by
  have hknown : (hashes.all fun hash => (tree.pathsByHash.lookup hash).isSome) = true ↔
      ∀ hash ∈ hashes, F.Named p groupIdx hash := by
    rw [List.all_eq_true]
    exact forall₂_congr fun hash _ => h.known_iff.trans named_iff
  rw [RadixTree.removeBlocks, remove]
  by_cases hall : ∀ hash ∈ hashes, F.Named p groupIdx hash
  · rw [if_pos (hknown.mpr hall), if_pos hall, part_cut hS hsound]
    exact h.foldl_removeSubtree hashes
  · have hnone : part (F \ F.part p groupIdx) p groupIdx = ∅ := by
      refine Set.eq_empty_of_forall_notMem fun f hf => ?_
      exact hf.1.2 ⟨hf.1.1, hf.2⟩
    rw [if_neg fun hin => hall (hknown.mp hin), if_neg hall, hnone]
    exact represents_default

/-- **Every event that is admitted.** -/
lemma TreesRepresent.apply (h : TreesRepresent trees F) {e : KvDeltaEvent} (hadm : F.Admits S now
  e) :
    TreesRepresent (fun pl => applyTree pl (trees pl) e now) (F.apply e now) := by
  intro pl
  dsimp only
  cases e with
  | blockStored =>
    rw [applyTree, Holdings.apply]
    split_ifs with hplace
    · subst hplace
      exact (h pl).storeBlocks hS hsound hadm
    · rw [part_foldl_store_of_ne hplace]
      exact h pl
  | blockRemoved hashes =>
    rw [applyTree, Holdings.apply]
    split_ifs with hplace
    · obtain ⟨rfl, rfl⟩ := hplace
      exact (h pl).removeBlocks hS hsound hashes
    · rw [part_remove_of_ne hS hsound hplace]
      exact h pl
  | allBlocksCleared =>
    have hnone : part (∅ : Holdings) pl.placement pl.groupIdx = ∅ :=
      Set.eq_empty_of_forall_notMem fun f hf => hf.1
    rw [Holdings.apply, hnone]
    exact represents_default

end

lemma TreesRepresent.touch (h : TreesRepresent trees F) :
    TreesRepresent (fun pl => RadixTree.touchTree (trees pl) now) (F.touch now) := by
  intro pl
  have hpart : (F.touch now).part pl.placement pl.groupIdx =
      (F.part pl.placement pl.groupIdx).touch now := by
    ext f
    constructor
    · rintro ⟨⟨hf, htime⟩, hplace, hgroup⟩
      refine ⟨?_, htime⟩
      rw [hplace] at hf ⊢
      exact blocksAt_part.mpr ⟨hf, hgroup⟩
    · rintro ⟨⟨u, hf, hplace, hgroup⟩, htime⟩
      exact ⟨⟨⟨u, hf⟩, htime⟩, hplace, hgroup⟩
  rw [hpart]
  exact (h pl).touchTree

lemma TreesRepresent.prune (hS : Genuine S) (hsound : F.Sound S) (h : TreesRepresent trees F)
    (ttl : ℕ) :
    TreesRepresent (fun pl => RadixTree.pruneTree ttl now (trees pl)) (F.prune ttl now) := by
  intro pl
  rw [Holdings.prune, part_cut hS hsound]
  have htree := (h pl).pruneTree ttl now
  rwa [cut_part_congr hS hsound] at htree
  · rintro root ⟨b, hb, hgroup, hhash⟩
    constructor
    · rintro ⟨-, f, hf, hold, heq⟩
      exact ⟨f, hf.1, hold, heq⟩
    · rintro ⟨f, hf, hold, heq⟩
      obtain ⟨hplace, rfl⟩ := Prod.mk.inj heq
      -- the expired block is the one that the root names
      have hsame := hS.unambiguous b (hsound.within _ hb) f.block
        (hsound.within _ ⟨f.observedAt, hf⟩) hhash
      exact ⟨rfl, f, ⟨hf, hplace.symm, hsame ▸ hgroup⟩, hold, heq⟩
  · rintro root ⟨-, f, hf, -, heq⟩
    obtain ⟨-, rfl⟩ := Prod.mk.inj heq
    exact ⟨f.block, ⟨f.observedAt, hf.2.1 ▸ hf.1⟩, rfl⟩
  · rintro root ⟨f, hf, -, heq⟩
    obtain ⟨hplace, rfl⟩ := Prod.mk.inj heq
    exact ⟨f.block, ⟨f.observedAt, hplace ▸ hf⟩, rfl⟩

end Trees

/-! ### Queries -/

section Query

variable {query : KvPrefixQuery} {key : KeyedDigest} {partition : KvPartition}
  {cacheSalt : Option String} {chunks : List (List ℕ)}

lemma hashBytes_of_mem_hashChain (h : b ∈ hashChain key partition cacheSalt parent index chunks) :
    hashBytes b.blockHash = some (bytesOf b) := by
  obtain ⟨bytes, hbytes⟩ := hashBytes_of_named (named_of_mem_hashChain h)
  rw [bytesOf, hbytes, getD_some]

lemma blockIndex_hashChain
    (h : (hashChain key partition cacheSalt parent index chunks)[k]? = some b) :
    b.blockIndex = index + k := by
  induction chunks generalizing parent index k with
  | nil => cases h
  | cons ts rest ih =>
    cases k with
    | zero =>
      cases h
      rfl
    | succ =>
      rw [ih h]
      omega

lemma parentHash_hashChain_zero
    (h : (hashChain key partition cacheSalt parent index chunks)[0]? = some b) :
    b.parentHash = parent := by
  cases chunks with
  | nil => cases h
  | cons =>
    cases h
    rfl

lemma flatMap_take_succ (hget : l[k]? = some b) :
    (l.take (k + 1)).flatMap bytesOf = (l.take k).flatMap bytesOf ++ bytesOf b := by
  rw [take_add_one, hget, toList_some, flatMap_append, flatMap_singleton]

lemma Coherent.storedAt_next (h : Coherent tree)
    (hbytes : ∀ b ∈ l, hashBytes b.blockHash = some (bytesOf b)) (hget : l[k]? = some b)
    (hpath : StoredAt tree b path)
    (habove : parentPath tree b.parentHash = some ((l.take k).flatMap bytesOf)) :
    StoredAt tree b ((l.take (k + 1)).flatMap bytesOf) := by
  obtain ⟨a, bytes, habove', hbytes', rfl⟩ := hpath.parent h
  obtain rfl := some.inj (habove'.symm.trans habove)
  obtain rfl := some.inj (hbytes'.symm.trans (hbytes b (mem_of_getElem? hget)))
  rwa [flatMap_take_succ hget]

/-- The blocks of a chain are stored below each other. -/
lemma Coherent.storedAt_chain (h : Coherent tree)
    (hchain : l = hashChain key partition cacheSalt "" 0 chunks)
    (hstored : ∀ i < k + 1, ∃ b path, l[i]? = some b ∧ StoredAt tree b path) :
    ∃ b, l[k]? = some b ∧ StoredAt tree b ((l.take (k + 1)).flatMap bytesOf) := by
  have hbytes : ∀ b ∈ l, hashBytes b.blockHash = some (bytesOf b) :=
    fun b hb => hashBytes_of_mem_hashChain (hchain ▸ hb)
  induction k with
  | zero =>
    obtain ⟨b, path, hget, hpath⟩ := hstored 0 zero_lt_one
    refine ⟨b, hget, h.storedAt_next hbytes hget hpath ?_⟩
    rw [parentPath, if_pos (parentHash_hashChain_zero (hchain ▸ hget))]
    rfl
  | succ k ih =>
    obtain ⟨b, path, hget, hpath⟩ := hstored (k + 1) (lt_succ_self _)
    obtain ⟨a, hgetA, hpathA⟩ := ih fun i hi => hstored i (by omega)
    have hlink : b.parentHash = a.blockHash := hashChain_linked (hchain ▸ hgetA) (hchain ▸ hget)
    refine ⟨b, hget, h.storedAt_next hbytes hget hpath ?_⟩
    rw [parentPath, hlink, if_neg (hpathA.hash_ne h), hpathA.path_eq h]

/-- A block with the data of a block of the chain is that block. -/
lemma eq_of_hashChain {a : KvStoredBlock}
    (hget : (hashChain key partition cacheSalt "" 0 chunks)[k]? = some a)
    (hpartition : b.partition = partition) (hindex : b.blockIndex = k)
    (hpar : b.parentHash = a.parentHash) (hhash : b.blockHash = a.blockHash) : b = a := by
  have hpartition' := partition_of_mem_hashChain (mem_of_getElem? hget)
  have hindex' := blockIndex_hashChain hget
  obtain ⟨partition', index, parent, hash⟩ := b
  obtain ⟨partition'', index', parent', hash'⟩ := a
  dsimp only at *
  rw [hpartition, hpartition', hindex, hindex', hpar, hhash, zero_add]

/-- A stored boundary comes from the chain. -/
lemma Represents.covers_of_boundary (hS : Genuine S) (h : Represents tree p G)
    (hG : G.blocksAt p ⊆ S) (hchain : l = hashChain key partition cacheSalt "" 0 chunks)
    (hk : k < l.length)
    (hentry : tree.entriesByPath.lookup ((l.take (k + 1)).flatMap bytesOf) = some entry)
    (hpartition : entry.block.partition = partition) :
    l[k]? = some entry.block ∧ G.Covers p l (k + 1) := by
  have hbytes : ∀ b ∈ l, hashBytes b.blockHash = some (bytesOf b) :=
    fun b hb => hashBytes_of_mem_hashChain (hchain ▸ hb)
  induction k generalizing entry with
  | zero =>
    obtain ⟨c, hget⟩ : ∃ c, l[0]? = some c := ⟨_, getElem?_eq_getElem hk⟩
    have hstored : entry.block ∈ G.blocksAt p := h.storedAt_iff.mp ⟨_, entry.observedAt, hentry⟩
    rw [flatMap_take_succ hget] at hentry
    obtain ⟨a, bytes, habove, hown, heq⟩ := h.coherent.path_eq hentry
    obtain ⟨rfl, rfl⟩ := append_inj' heq (by
      rw [length_bytesOf (hbytes _ (mem_of_getElem? hget)), (hashBytes_eq_some.mp hown).2])
    -- nothing is stored at the empty path, so the block is a root
    have hroot : entry.block.parentHash = "" := by
      rcases parentPath_eq_some.mp habove with ⟨hroot, -⟩ | ⟨-, hpar⟩
      · exact hroot
      · obtain ⟨entry', hentry', -⟩ := h.coherent.path_stored hpar
        exact absurd (h.coherent.length_path hentry').2 (lt_irrefl 0)
    have hsame : entry.block = c := by
      refine eq_of_hashChain (hchain ▸ hget) hpartition (hS.root _ (hG hstored) hroot) ?_
        (hashBytes_inj hown (hbytes _ (mem_of_getElem? hget)))
      rw [hroot, parentHash_hashChain_zero (hchain ▸ hget)]
    refine ⟨by rw [hsame, hget], fun i hi => ⟨entry.block, hstored, ?_⟩⟩
    obtain rfl : i = 0 := by omega
    rw [hsame, hget]
  | succ k ih =>
    obtain ⟨c, hget⟩ : ∃ c, l[k + 1]? = some c := ⟨_, getElem?_eq_getElem hk⟩
    have hstored : entry.block ∈ G.blocksAt p := h.storedAt_iff.mp ⟨_, entry.observedAt, hentry⟩
    rw [flatMap_take_succ hget] at hentry
    obtain ⟨a, bytes, habove, hown, heq⟩ := h.coherent.path_eq hentry
    obtain ⟨rfl, rfl⟩ := append_inj' heq (by
      rw [length_bytesOf (hbytes _ (mem_of_getElem? hget)), (hashBytes_eq_some.mp hown).2])
    have hne : (l.take (k + 1)).flatMap bytesOf ≠ [] := by
      intro hnil
      have hlen := congrArg length hnil
      rw [length_flatMap_bytesOf fun b hb => hbytes b (mem_of_mem_take hb),
        length_take, length_nil, hashLength] at hlen
      omega
    obtain ⟨-, hpar⟩ := (parentPath_eq_some.mp habove).resolve_left fun hroot => hne hroot.2
    obtain ⟨entry', hentry', hlink⟩ := h.coherent.path_stored hpar
    have hstored' : entry'.block ∈ G.blocksAt p :=
      h.storedAt_iff.mp ⟨_, entry'.observedAt, hentry'⟩
    obtain ⟨hspart, hindex⟩ := hS.parent (hG hstored') (hG hstored) hlink.symm
    obtain ⟨hget', hcov⟩ := ih (by omega) hentry' (hspart.symm.trans hpartition)
    have hindex' := blockIndex_hashChain (hchain ▸ hget')
    have hlink' : c.parentHash = entry'.block.blockHash :=
      hashChain_linked (hchain ▸ hget') (hchain ▸ hget)
    have hsame : entry.block = c :=
      eq_of_hashChain (hchain ▸ hget) hpartition (by omega) (by rw [hlink', hlink])
        (hashBytes_inj hown (hbytes _ (mem_of_getElem? hget)))
    refine ⟨by rw [hsame, hget], fun i hi => ?_⟩
    rcases lt_or_eq_of_le (le_of_lt_succ hi) with hlt | rfl
    · exact hcov i hlt
    · exact ⟨entry.block, hstored, by rw [hsame, hget]⟩

/-- The last stored boundary is reported. -/
lemma le_bestBoundary {path : List UInt8} (hk : (k + 1) * hashLength ≤ path.length)
    (hentry : tree.entriesByPath.lookup (path.take ((k + 1) * hashLength)) = some entry)
    (hpartition : entry.block.partition = partition) :
    ∃ length, bestBoundary tree partition path = some length ∧ (k + 1) * hashLength ≤ length := by
  rw [bestBoundary]
  have hless : k < path.length / hashLength := (le_div_iff_mul_le (by decide)).mpr hk
  generalize path.length / hashLength = n at hless
  induction n with
  | zero => exact absurd hless (not_lt_zero k)
  | succ n ih =>
    rw [range_succ, map_append, foldl_append, map_singleton, foldl_cons,
      foldl_nil]
    rcases lt_or_eq_of_le (le_of_lt_succ hless) with hlt | rfl
    · obtain ⟨length, hlen, hle⟩ := ih hlt
      rw [hlen]
      split
      · split_ifs
        · exact ⟨_, rfl, mul_le_mul_right _ (by omega)⟩
        · exact ⟨length, rfl, hle⟩
      · exact ⟨length, rfl, hle⟩
    · rw [hentry]
      dsimp only
      rw [if_pos hpartition]
      exact ⟨_, rfl, le_refl _⟩

lemma queryPath_eq (key : KeyedDigest) (query : KvPrefixQuery) (partition : KvPartition) :
    queryPath key query partition = (query.chain key partition).flatMap bytesOf := by
  have hsome : ∀ (chunks : List (List ℕ)) (parent : KvBlockHash),
      ∃ path, queryPathFrom key partition query.cacheSalt parent chunks = some path := by
    intro chunks
    induction chunks with
    | nil => exact fun _ => ⟨[], rfl⟩
    | cons tokens rest ih =>
      intro parent
      obtain ⟨bytes, hbytes⟩ := hashBytes_of_named
        (named_normalizedKvBlockHash key parent tokens partition query.cacheSalt)
      obtain ⟨path, hpath⟩ := ih (normalizedKvBlockHash key parent tokens partition query.cacheSalt)
      exact ⟨bytes ++ path, by rw [queryPathFrom, hbytes, hpath]; rfl⟩
  obtain ⟨path, hpath⟩ := hsome (chunksExact partition.hashBlockSize query.tokens) ""
  rw [queryPath, hpath]
  exact (queryPathFrom_eq 0 hpath).1

lemma Represents.matchedTokens_covers (hS : Genuine S) (h : Represents tree p G)
    (hG : G.blocksAt p ⊆ S) (query : KvPrefixQuery) (key : KeyedDigest) (partition : KvPartition) :
    ∃ k, matchedTokens tree query key partition = k * partition.hashBlockSize ∧
      G.Covers p (query.chain key partition) k := by
  rw [matchedTokens, queryPath_eq]
  cases hbest : bestBoundary tree partition ((query.chain key partition).flatMap bytesOf) with
  | none => exact ⟨0, by simp, fun i hi => absurd hi (not_lt_zero i)⟩
  | some length =>
    have hbytes : ∀ b ∈ query.chain key partition, hashBytes b.blockHash = some (bytesOf b) :=
      fun b hb => hashBytes_of_mem_hashChain hb
    obtain ⟨hle, ⟨k, rfl⟩, entry, hentry, hpartition⟩ := bestBoundary_found length hbest
    refine ⟨k, ?_, ?_⟩
    · dsimp only
      rw [Nat.mul_div_cancel_left _ (by decide)]
    · rw [length_flatMap_bytesOf hbytes, mul_comm] at hle
      have hk := le_of_mul_le_mul_right hle (by decide)
      rw [mul_comm, take_flatMap_bytesOf hbytes] at hentry
      cases k with
      | zero => exact fun i hi => absurd hi (not_lt_zero i)
      | succ => exact (h.covers_of_boundary hS hG rfl hk hentry hpartition).2

lemma Coherent.le_matchedTokens (h : Coherent tree)
    (hstored : ∀ i < k, ∃ b path, (query.chain key partition)[i]? = some b ∧ StoredAt tree b path) :
    k * partition.hashBlockSize ≤ matchedTokens tree query key partition := by
  cases k with
  | zero =>
    rw [zero_mul]
    exact zero_le _
  | succ k =>
    have hbytes : ∀ b ∈ query.chain key partition, hashBytes b.blockHash = some (bytesOf b) :=
      fun b hb => hashBytes_of_mem_hashChain hb
    obtain ⟨b, hget, u, hu⟩ : ∃ b, (query.chain key partition)[k]? = some b ∧
        StoredAt tree b (((query.chain key partition).take (k + 1)).flatMap bytesOf) :=
      h.storedAt_chain rfl hstored
    have hlen := (List.getElem?_eq_some_iff.mp hget).1
    rw [← take_flatMap_bytesOf hbytes] at hu
    obtain ⟨length, hbest, hle⟩ := le_bestBoundary (by
      rw [length_flatMap_bytesOf hbytes]
      exact mul_le_mul_right _ hlen) hu
      (partition_of_mem_hashChain (mem_of_getElem? hget))
    rw [matchedTokens, queryPath_eq, hbest]
    exact mul_le_mul_right _ ((le_div_iff_mul_le (by decide)).mpr hle)

lemma Represents.le_matchedTokens (h : Represents tree p G)
    (hcov : G.Covers p (query.chain key partition) k) :
    k * partition.hashBlockSize ≤ matchedTokens tree query key partition := by
  refine h.coherent.le_matchedTokens fun i hi => ?_
  obtain ⟨b, hb, hget⟩ := hcov i hi
  obtain ⟨path, hpath⟩ := h.storedAt_iff.mpr hb
  exact ⟨b, path, hget, hpath⟩

lemma Represents.mem_matchingPartitions (h : Represents tree p G) :
    partition ∈ matchingPartitions tree query ↔
      query.selects partition = true ∧ ∃ b ∈ G.blocksAt p, b.partition = partition := by
  rw [matchingPartitions, mem_orderedSet, mem_filter, and_comm]
  refine and_congr_right fun _ => ?_
  constructor
  · intro hmem
    obtain ⟨⟨path, entry⟩, hentry, rfl⟩ := mem_map.mp hmem
    exact ⟨entry.block, h.storedAt_iff.mp ⟨path, entry.observedAt, mem_toList.mp hentry⟩, rfl⟩
  · rintro ⟨b, hb, rfl⟩
    obtain ⟨path, u, hu⟩ := h.storedAt_iff.mpr hb
    exact mem_map.mpr ⟨(path, ⟨b, u⟩), mem_toList.mpr hu, rfl⟩

/-- The trees of a table represent the holdings. -/
def TableRepresents (sourceTree : SourceTree) (F : Holdings) : Prop :=
  ∀ place, Represents ((sourceTree.lookup place).getD default) place.placement
    (F.part place.placement place.groupIdx)

variable {sourceTree : SourceTree}

lemma TableRepresents.lookup (h : TableRepresents sourceTree F)
    (htree : sourceTree.lookup pl = some tree) :
    Represents tree pl.placement (F.part pl.placement pl.groupIdx) := by
  have hplace := h pl
  rwa [htree] at hplace

lemma TableRepresents.exists_tree (h : TableRepresents sourceTree F) (hb : b ∈ F.blocksAt p) :
    ∃ tree, sourceTree.lookup ⟨p, b.partition.groupIdx⟩ = some tree := by
  cases htree : sourceTree.lookup ⟨p, b.partition.groupIdx⟩ with
  | some tree => exact ⟨tree, rfl⟩
  | none =>
    have hplace := h ⟨p, b.partition.groupIdx⟩
    rw [htree] at hplace
    obtain ⟨path, u, hu⟩ := hplace.storedAt_iff.mpr (blocksAt_part.mpr ⟨hb, rfl⟩)
    cases hu

/-- The loop finds what the query's group contributes. -/
lemma matchedTokens_le_max (htree : sourceTree.lookup ⟨p, query.groupIdx⟩ = some tree)
    (hpartition : partition ∈ matchingPartitions tree query) :
    matchedTokens tree query key partition ≤
      ((sourceTree.toList.filter fun f => f.1.placement = p ∧
        (query.matchAllGroups ∨ f.1.groupIdx = query.groupIdx)).map
          fun f => groupMatch f.2 query key).max?.getD 0 := by
  have hfound : matchedTokens tree query key partition ≤ groupMatch tree query key :=
    le_foldl_max (mem_map.mpr ⟨partition, hpartition, rfl⟩)
  refine hfound.trans (le_max?_getD_of_mem ?_)
  refine mem_map.mpr ⟨(⟨p, query.groupIdx⟩, tree), mem_filter.mpr ⟨?_, ?_⟩, rfl⟩
  · exact mem_toList.mpr htree
  · exact decide_eq_true ⟨rfl, .inr rfl⟩

/-- **A query reports what is stored**, at least. -/
lemma exists_mem_matching (hsingle : query.matchAllGroups = false)
    (htree : sourceTree.lookup ⟨p, query.groupIdx⟩ = some tree)
    (hloc : p.locality ≠ .unspecified) (hpartition : partition ∈ matchingPartitions tree query)
    {n : ℕ} (hpos : 0 < n) (hn : n ≤ matchedTokens tree query key partition) :
    ∃ m ∈ matching sourceTree query key, m.placement = p ∧ n ≤ m.matchedTokens := by
  have hmax := hn.trans (matchedTokens_le_max htree hpartition)
  have hfield := Table.mem_toList.mpr htree
  have hplace : p ∈ orderedSet (sourceTree.toList.map (·.1.placement)) :=
    mem_orderedSet.mpr (mem_map.mpr ⟨_, hfield, rfl⟩)
  have hseld : (sourceTree.toList.filter fun f => f.1.placement = p ∧
      (query.matchAllGroups ∨ f.1.groupIdx = query.groupIdx)).isEmpty = false := by
    rw [isEmpty_eq_false_iff]
    exact ne_nil_of_mem (mem_filter.mpr ⟨hfield, decide_eq_true ⟨rfl, .inr rfl⟩⟩)
  refine ⟨⟨p, _⟩, mem_sortByOrd.mpr (mem_filterMap.mpr ⟨p, hplace, ?_⟩), rfl, hmax⟩
  dsimp only
  generalize filter _ (Table.toList sourceTree) = selected at hmax hseld ⊢
  rw [if_neg hloc, if_neg (by simp [hseld, hsingle]), hsingle, if_neg Bool.false_ne_true,
    if_pos (hpos.trans_le hmax)]
  rfl

lemma TableRepresents.matched_eq_best (p : KvPlacement) (key : KeyedDigest) (hS : Genuine S)
  (hsound : F.Sound S)
    (h : TableRepresents sourceTree F) (hsingle : query.matchAllGroups = false) :
    ((sourceTree.toList.filter fun field => field.1.placement = p ∧
      (query.matchAllGroups ∨ field.1.groupIdx = query.groupIdx)).map
        fun field => groupMatch field.2 query key).max?.getD 0 = F.best query key p := by
  symm
  refine best_eq (fun hpos => ?_) fun n hn => ?_
  · obtain ⟨⟨place, tree⟩, hseld, hgroup⟩ := mem_map.mp (mem_of_max?_getD hpos)
    obtain ⟨hfield, htest⟩ := mem_filter.mp hseld
    obtain ⟨rfl, -⟩ := of_decide_eq_true htest
    have htree := h.lookup (mem_toList.mp hfield)
    rw [← hgroup, groupMatch] at hpos ⊢
    obtain ⟨partition, hpartition, heq⟩ := mem_map.mp (mem_of_foldl_max hpos)
    obtain ⟨k, hk, hcov⟩ := htree.matchedTokens_covers hS
      (fun c hc => hsound.within _ (blocksAt_part.mp hc).1) query key partition
    refine ⟨partition, k, (htree.mem_matchingPartitions.mp hpartition).1, fun i hi => ?_, ?_⟩
    · obtain ⟨b, hb, hget⟩ := hcov i hi
      exact ⟨b, (blocksAt_part.mp hb).1, hget⟩
    · rw [← heq, hk]
  · obtain ⟨partition, k, hsel, hcov, rfl⟩ := hn
    rcases Nat.eq_zero_or_pos k with rfl | hpos
    · rw [zero_mul]
      exact zero_le _
    have hgroup := query.groupIdx_of_selects hsingle hsel
    have hmember : ∀ c ∈ query.chain key partition, c.partition = partition :=
      fun c hc => partition_of_mem_hashChain hc
    obtain ⟨b, hb, hget⟩ := hcov 0 hpos
    have hpartition := hmember b (mem_of_getElem? hget)
    obtain ⟨tree, htree⟩ := h.exists_tree hb
    have hrep := h.lookup htree
    rw [hpartition, hgroup] at htree hrep
    have hcov' : Covers (F.part p query.groupIdx) p (query.chain key partition) k := by
      intro i hi
      obtain ⟨c, hc, hget⟩ := hcov i hi
      refine ⟨c, blocksAt_part.mpr ⟨hc, ?_⟩, hget⟩
      rw [hmember c (mem_of_getElem? hget), hgroup]
    refine (hrep.le_matchedTokens hcov').trans (matchedTokens_le_max htree ?_)
    exact hrep.mem_matchingPartitions.mpr
      ⟨hsel, b, blocksAt_part.mpr ⟨hb, by rw [hpartition, hgroup]⟩, hpartition⟩

/-- **A query reports the best match of each placement.** -/
lemma TableRepresents.reports (hS : Genuine S) (hsound : F.Sound S)
    (h : TableRepresents sourceTree F) (hsingle : query.matchAllGroups = false) :
    F.Reports query key (matching sourceTree query key) := by
  refine reports_sortByOrd (nodup_orderedSet _) (fun q hq m => ?_) fun q hloc hpos => ?_
  · have hbest := h.matched_eq_best q key hS hsound hsingle
    rw [hsingle] at hbest ⊢
    simp only [Bool.false_eq_true, false_and, or_false, if_false] at hbest ⊢
    generalize filter _ (toList sourceTree) = selected at hbest ⊢
    by_cases hloc : q.locality = .unspecified
    · simp [hloc]
    rw [hbest]
    by_cases hempty : selected.isEmpty = true
    · rw [isEmpty_iff.mp hempty] at hbest ⊢
      simp [← hbest]
    · rw [if_neg hempty]
      split_ifs with hpos
      · simp [hloc, hpos, eq_comm]
      · simp [hpos]
  · obtain ⟨b, hb, -⟩ := exists_of_best_pos hpos
    obtain ⟨tree, htree⟩ := h.exists_tree hb
    refine mem_orderedSet.mpr (mem_map.mpr ⟨(_, tree), mem_toList.mpr htree, rfl⟩)

lemma TableRepresents.mem_partitions (h : TableRepresents sourceTree F)
    (hsingle : query.matchAllGroups = false) :
    partition ∈ ((sourceTree.toList.filter fun field =>
        field.1.groupIdx = query.groupIdx).flatMap fun field => matchingPartitions field.2 query) ↔
      query.selects partition = true ∧ ∃ q, ∃ b ∈ F.blocksAt q, b.partition = partition := by
  rw [mem_flatMap]
  constructor
  · rintro ⟨⟨place, tree⟩, hfield, hpartition⟩
    have htree := h.lookup (mem_toList.mp (mem_filter.mp hfield).1)
    obtain ⟨hsel, b, hb, rfl⟩ := htree.mem_matchingPartitions.mp hpartition
    exact ⟨hsel, place.placement, b, (blocksAt_part.mp hb).1, rfl⟩
  · rintro ⟨hsel, q, b, hb, rfl⟩
    obtain ⟨tree, htree⟩ := h.exists_tree hb
    refine ⟨(_, tree), mem_filter.mpr ⟨mem_toList.mpr htree, ?_⟩, ?_⟩
    · exact decide_eq_true (query.groupIdx_of_selects hsingle hsel)
    · exact (h.lookup htree).mem_matchingPartitions.mpr ⟨hsel, b, blocksAt_part.mpr ⟨hb, rfl⟩, rfl⟩

end Query

end RadixTree

end Foretoken.KvLocality
