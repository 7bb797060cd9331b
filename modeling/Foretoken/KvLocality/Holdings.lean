import Foretoken.KvLocality.Matching

/-!
What an index is for: it remembers which blocks are cached where, and when that was last seen.

`Holdings` is such a memory as a plain set; neither implementation appears here. A removal and an
expiry cut off branches, and the order in which branches are cut does not matter (`cut_cut`).
-/

namespace Foretoken.KvLocality

open List KvCacheLocality KvStorageTier KvPrefixMatch Base64

variable {bs : List KvStoredBlock} {qu : KvPrefixQuery}

variable {q : KvPlacement} {now n : ℕ} {groupIdx : Option ℕ}

/-! ### Orders -/

lemma KvStorageTier.compare_eq (a b : KvStorageTier) :
    compare a b = compare a.ctorIdx b.ctorIdx := by
  cases a <;> cases b <;> rfl

lemma KvStorageTier.ctorIdx_injective : Function.Injective KvStorageTier.ctorIdx := by
  intro a b h
  cases a <;> cases b <;> first | rfl | cases h

lemma KvCacheLocality.compare_eq (a b : KvCacheLocality) :
    compare a b = compare a.ctorIdx b.ctorIdx := by
  cases a <;> cases b <;> rfl

lemma KvCacheLocality.ctorIdx_injective : Function.Injective KvCacheLocality.ctorIdx := by
  intro a b h
  cases a <;> cases b <;> first | rfl | cases h

lemma KvPlacement.compare_eq (a b : KvPlacement) :
    compare a b = (compare a.tier b.tier).then (compare a.locality b.locality) :=
  congrArg (Ordering.then _) Ordering.then_eq

lemma KvPrefixMatch.compare_eq (a b : KvPrefixMatch) :
    compare a b =
      (compare a.placement b.placement).then (compare a.matchedTokens b.matchedTokens) :=
  congrArg (Ordering.then _) Ordering.then_eq

instance : Std.TransOrd KvStorageTier := transOrd_of_on compare_eq

instance : Std.LawfulEqOrd KvStorageTier :=
  lawfulEqOrd_of_on compare_eq ctorIdx_injective

instance : Std.TransOrd KvCacheLocality := transOrd_of_on compare_eq

instance : Std.LawfulEqOrd KvCacheLocality :=
  lawfulEqOrd_of_on compare_eq ctorIdx_injective

instance : Std.TransOrd KvPlacement := transOrd_of_lex KvPlacement.compare_eq

instance : Std.LawfulEqOrd KvPlacement :=
  lawfulEqOrd_of_lex KvPlacement.compare_eq fun ⟨_, _⟩ ⟨_, _⟩ => KvPlacement.mk.injEq .. ▸ And.intro

instance : Std.TransOrd KvPrefixMatch := transOrd_of_lex compare_eq

instance : Std.LawfulEqOrd KvPrefixMatch :=
  lawfulEqOrd_of_lex compare_eq
    fun ⟨_, _⟩ ⟨_, _⟩ => mk.injEq .. ▸ And.intro

/-! ### Blocks of prompts -/

/-- The blocks name each other as the blocks of prompts do. -/
structure Genuine (S : Set KvStoredBlock) : Prop where
  unambiguous : Unambiguous S
  named : ∀ b ∈ S, ∃ bytes : List UInt8, bytes.length = 32 ∧ b.blockHash = encode bytes
  root : ∀ b ∈ S, b.parentHash = "" → b.blockIndex = 0
  child : ∀ b ∈ S, b.parentHash ≠ "" → ∃ a ∈ S, b.parentHash = a.blockHash ∧
    b.partition = a.partition ∧ b.blockIndex = a.blockIndex + 1

/-- Tokens with what else enters their hashes. -/
structure Prompt where
  partition : KvPartition
  cacheSalt : Option String
  tokens : List ℕ
  deriving DecidableEq, Repr

/-- The complete blocks of a prompt. -/
def Prompt.chain (key : KeyedDigest) (prompt : Prompt) : List KvStoredBlock :=
  hashChain key prompt.partition prompt.cacheSalt "" 0
    (chunksExact prompt.partition.hashBlockSize prompt.tokens)

/-- The blocks of the prompts. -/
def promptBlocks (key : KeyedDigest) (prompts : Set Prompt) : Set KvStoredBlock :=
  { b | ∃ prompt ∈ prompts, b ∈ prompt.chain key }

section Chain

variable {key : KeyedDigest} {partition : KvPartition} {cacheSalt : Option String}
  {pa : KvBlockHash} {ix : ℕ} {cs : List (List ℕ)} {b : KvStoredBlock}

lemma named_normalizedKvBlockHash (key : KeyedDigest) (pa : KvBlockHash) (tokens : List ℕ)
    (partition : KvPartition) (cacheSalt : Option String) :
    ∃ bytes : List UInt8, bytes.length = 32 ∧
      normalizedKvBlockHash key pa tokens partition cacheSalt = encode bytes :=
  ⟨_, key.length_digest _, rfl⟩

lemma encode_ne_empty {bytes : List UInt8} (h : bytes.length = 32) : encode bytes ≠ "" := by
  intro heq
  have hdec := decode_encode bytes
  rw [heq] at hdec
  obtain rfl : [] = bytes := Option.some.inj hdec
  cases h

section

variable (h : b ∈ hashChain key partition cacheSalt pa ix cs)
include h

lemma named_of_mem_hashChain :
    ∃ bytes : List UInt8, bytes.length = 32 ∧ b.blockHash = encode bytes := by
  induction cs generalizing pa ix with
  | nil => cases h
  | cons tokens rest ih =>
    rcases mem_cons.mp h with rfl | h
    · exact named_normalizedKvBlockHash key pa tokens partition cacheSalt
    · exact ih h

/-- A block of a chain starts it, or follows a block of it. -/
lemma parent_of_mem_hashChain :
    (b.parentHash = pa ∧ b.blockIndex = ix) ∨
      ∃ a ∈ hashChain key partition cacheSalt pa ix cs,
        b.parentHash = a.blockHash ∧ b.blockIndex = a.blockIndex + 1 := by
  induction cs generalizing pa ix with
  | nil => cases h
  | cons ts rest ih =>
    rcases mem_cons.mp h with rfl | h
    · exact .inl ⟨rfl, rfl⟩
    · right
      rcases ih h with ⟨hpar, hindex⟩ | ⟨a, ha, hlink⟩
      · exact ⟨_, mem_cons_self, hpar, hindex⟩
      · exact ⟨a, mem_cons_of_mem _ ha, hlink⟩

end

end Chain

/-- **The blocks of prompts are genuine** unless two of them share a hash. -/
theorem genuine_promptBlocks {key : KeyedDigest} {prompts : Set Prompt}
    (h : Unambiguous (promptBlocks key prompts)) : Genuine (promptBlocks key prompts) where
  unambiguous := h
  named := by
    rintro b ⟨prompt, -, hb⟩
    exact named_of_mem_hashChain hb
  root := by
    rintro b ⟨prompt, -, hb⟩ hroot
    rcases parent_of_mem_hashChain hb with ⟨-, hindex⟩ | ⟨a, ha, hpar, -⟩
    · exact hindex
    · obtain ⟨bytes, hlen, hhash⟩ := named_of_mem_hashChain ha
      exact absurd (hhash.symm.trans (hpar.symm.trans hroot)) (encode_ne_empty hlen)
  child := by
    rintro b ⟨prompt, hprom, hb⟩ hroot
    rcases parent_of_mem_hashChain hb with ⟨hpar, -⟩ | ⟨a, ha, hpar, hindex⟩
    · exact absurd hpar hroot
    · refine ⟨a, ⟨prompt, hprom, ha⟩, hpar, ?_, hindex⟩
      rw [partition_of_mem_hashChain hb, partition_of_mem_hashChain ha]

section Genuine

variable {S : Set KvStoredBlock} {a b : KvStoredBlock}

lemma Genuine.hash_ne (h : Genuine S) (hb : b ∈ S) : b.blockHash ≠ "" := by
  obtain ⟨bs, hlen, hhash⟩ := h.named b hb
  rw [hhash]
  exact encode_ne_empty hlen

/-- A block of the set with the parent's hash is the parent. -/
lemma Genuine.parent (h : Genuine S) (ha : a ∈ S) (hb : b ∈ S)
    (hlink : b.parentHash = a.blockHash) :
    b.partition = a.partition ∧ b.blockIndex = a.blockIndex + 1 := by
  obtain ⟨a', ha', hlink', hpart, hindex⟩ :=
    h.child b hb (by rw [hlink]; exact h.hash_ne ha)
  obtain rfl := h.unambiguous a ha a' ha' (hlink.symm.trans hlink')
  exact ⟨hpart, hindex⟩

end Genuine

/-! ### Branches -/

/-- The block is the root or lies below it, reached through blocks of the set. -/
inductive Under (S : Set KvStoredBlock) (root : KvBlockHash) : KvStoredBlock → Prop
  | self {b : KvStoredBlock} (hroot : b.blockHash = root) : Under S root b
  | child {a b : KvStoredBlock} (ha : a ∈ S) (hunder : Under S root a)
      (hlink : b.parentHash = a.blockHash) : Under S root b

section Under

variable {S T : Set KvStoredBlock} {root : KvBlockHash} {b : KvStoredBlock}

lemma Under.mono (h : Under S root b) (hsub : S ⊆ T) : Under T root b := by
  induction h with
  | self hroot => exact .self hroot
  | child ha _ hlink ih => exact .child (hsub ha) ih hlink

/-- Only the blocks above a block matter. -/
lemma Under.restrict (h : Under S root b) (hb : b ∈ T)
    (hclosed : ∀ a ∈ S, ∀ b ∈ T, b.parentHash = a.blockHash → a ∈ T) : Under T root b := by
  induction h with
  | self hroot => exact .self hroot
  | child ha _ hlink ih =>
    have ha' := hclosed _ ha _ hb hlink
    exact .child ha' (ih ha') hlink

lemma Under.partition (hS : Genuine S) (h : Under T root b) (hT : T ⊆ S) (hb : b ∈ S)
    {r : KvStoredBlock} (hr : r ∈ S) (hroot : r.blockHash = root) : b.partition = r.partition := by
  induction h with
  | self hself => rw [hS.unambiguous _ hb r hr (hself.trans hroot.symm)]
  | child ha _ hlink ih => exact ((hS.parent (hT ha) hb hlink).1).trans (ih (hT ha))

end Under

/-! ### Holdings -/

/-- A block is cached at a placement; this was last seen at a time. -/
structure Holding where
  placement : KvPlacement
  block : KvStoredBlock
  observedAt : ℕ

/-- What an engine holds, as a set. -/
abbrev Holdings := Set Holding

namespace Holdings

section

variable (F : Holdings) (placement : KvPlacement)

/-- The blocks at a placement. -/
def blocksAt : Set KvStoredBlock :=
  { b | ∃ u, ⟨placement, b, u⟩ ∈ F }

/-- A block is seen at a placement. -/
def store (now : ℕ) (block : KvStoredBlock) : Holdings :=
  { f | f ∈ F ∧ ¬ (f.placement = placement ∧ f.block = block) } ∪ {⟨placement, block, now⟩}

/-- The branches of a set of roots, each at a placement, are dropped. -/
def cut (branches : Set (KvPlacement × KvBlockHash)) : Holdings :=
  { f | f ∈ F ∧ ∀ root, (f.placement, root) ∈ branches →
    ¬ Under (F.blocksAt f.placement) root f.block }

/-- The holdings of a group at a placement. -/
def part (groupIdx : Option ℕ) : Holdings :=
  { f | f ∈ F ∧ f.placement = placement ∧ f.block.partition.groupIdx = groupIdx }

/-- A hash names a block of a group at a placement. -/
def Named (groupIdx : Option ℕ) (hash : KvBlockHash) : Prop :=
  ∃ b ∈ F.blocksAt placement, b.partition.groupIdx = groupIdx ∧ b.blockHash = hash

end

open Classical in
/-- The branches of the named blocks are dropped; a name that is not known cannot be placed
and takes the whole group. -/
noncomputable def remove (F : Holdings) (hashes : List KvBlockHash) (placement : KvPlacement)
    (groupIdx : Option ℕ) : Holdings :=
  if ∀ hash ∈ hashes, F.Named placement groupIdx hash then
    F.cut { branch | branch.1 = placement ∧ branch.2 ∈ hashes }
  else F \ F.part placement groupIdx

/-- An event of the engine. -/
noncomputable def apply (F : Holdings) (event : KvDeltaEvent) (now : ℕ) : Holdings :=
  match event with
  | .blockStored blocks placement => blocks.foldl (fun F block => F.store placement now block) F
  | .blockRemoved hashes placement groupIdx => F.remove hashes placement groupIdx
  | .allBlocksCleared => ∅

/-- Everything that is held is observed again. -/
def touch (F : Holdings) (now : ℕ) : Holdings :=
  { f | f.block ∈ F.blocksAt f.placement ∧ f.observedAt = now }

/-- What was not seen for too long. -/
def expired (F : Holdings) (ttl now : ℕ) : Set (KvPlacement × KvBlockHash) :=
  { branch | ∃ f ∈ F, ttl < now - f.observedAt ∧ branch = (f.placement, f.block.blockHash) }

/-- What expired is dropped with what follows it. -/
def prune (F : Holdings) (ttl now : ℕ) : Holdings := F.cut (F.expired ttl now)

/-- All blocks are genuine, and the parent of each one is there as well. -/
structure Sound (S : Set KvStoredBlock) (F : Holdings) : Prop where
  within : ∀ placement, F.blocksAt placement ⊆ S
  rooted : ∀ placement, ∀ b ∈ F.blocksAt placement,
    b.parentHash = "" ∨ ∃ a ∈ F.blocksAt placement, b.parentHash = a.blockHash

/-- The store is of a block of the set, and its parent is there. -/
def AdmitsBlock (S : Set KvStoredBlock) (F : Holdings) (placement : KvPlacement)
    (block : KvStoredBlock) : Prop :=
  block ∈ S ∧ (block.parentHash = "" ∨ ∃ a ∈ F.blocksAt placement, block.parentHash = a.blockHash)

/-- Every store of the list is admitted when its turn comes. -/
def AdmitsBlocks (S : Set KvStoredBlock) (placement : KvPlacement) (now : ℕ) :
    Holdings → List KvStoredBlock → Prop
  | _, [] => True
  | F, block :: blocks =>
    F.AdmitsBlock S placement block ∧
      AdmitsBlocks S placement now (F.store placement now block) blocks

/-- The event is one that a cache can report: blocks are stored below stored blocks, and no
block is removed twice at once. -/
def Admits (S : Set KvStoredBlock) (F : Holdings) (now : ℕ) : KvDeltaEvent → Prop
  | .blockStored blocks placement => AdmitsBlocks S placement now F blocks
  | .blockRemoved hashes _ _ => hashes.Nodup
  | .allBlocksCleared => True

variable {F : Holdings} {S : Set KvStoredBlock} {p : KvPlacement} {a b : KvStoredBlock}
  {A B : Set (KvPlacement × KvBlockHash)}

/-! ### Cutting -/

lemma blocksAt_cut_subset : (F.cut A).blocksAt p ⊆ F.blocksAt p :=
  fun _ ⟨u, h⟩ => ⟨u, h.1⟩

lemma parent_mem_cut (hb : b ∈ (F.cut A).blocksAt p) (ha : a ∈ F.blocksAt p)
    (hlink : b.parentHash = a.blockHash) : a ∈ (F.cut A).blocksAt p := by
  obtain ⟨v, hv⟩ := ha
  obtain ⟨u, -, hkept⟩ := hb
  exact ⟨v, hv, fun root hroot hunder => hkept root hroot (.child ⟨v, hv⟩ hunder hlink)⟩

lemma under_cut {root : KvBlockHash} (hb : b ∈ (F.cut A).blocksAt p) :
    Under ((F.cut A).blocksAt p) root b ↔ Under (F.blocksAt p) root b := by
  constructor
  · exact fun h => h.mono blocksAt_cut_subset
  · exact fun h => h.restrict hb fun a ha b hb hlink => parent_mem_cut hb ha hlink

/-- **Cutting twice is cutting once.** -/
lemma cut_cut : (F.cut A).cut B = F.cut (A ∪ B) := by
  ext f
  constructor
  · rintro ⟨⟨hf, hA⟩, hB⟩
    refine ⟨hf, fun root hroot => ?_⟩
    rcases hroot with hroot | hroot
    · exact hA root hroot
    · rw [← under_cut ⟨f.observedAt, hf, hA⟩]
      exact hB root hroot
  · rintro ⟨hf, hAB⟩
    have hA : f ∈ F.cut A := ⟨hf, fun root hroot => hAB root (.inl hroot)⟩
    refine ⟨hA, fun root hroot => ?_⟩
    rw [under_cut ⟨f.observedAt, hA⟩]
    exact hAB root (.inr hroot)

lemma cut_empty : F.cut ∅ = F := by
  ext f
  exact ⟨fun h => h.1, fun h => ⟨h, fun _ => False.elim⟩⟩

lemma foldl_cut (branches : List (KvPlacement × KvBlockHash)) :
    branches.foldl (fun F br => F.cut {br}) F = F.cut { br | br ∈ branches } := by
  induction branches generalizing F with
  | nil =>
    have hnone : { br : KvPlacement × KvBlockHash | br ∈ [] } = ∅ := by simp
    rw [hnone, cut_empty]
    rfl
  | cons br branches ih =>
    rw [foldl_cons, ih, cut_cut]
    congr 1
    ext x
    simp

lemma mem_blocksAt_store :
    a ∈ (F.store p now b).blocksAt q ↔ a ∈ F.blocksAt q ∨ (q = p ∧ a = b) := by
  constructor
  · rintro ⟨u, ⟨hold, -⟩ | hnew⟩
    · exact .inl ⟨u, hold⟩
    · obtain ⟨rfl, rfl, -⟩ := Holding.mk.inj (Set.mem_singleton_iff.mp hnew)
      exact .inr ⟨rfl, rfl⟩
  · intro h
    by_cases hnew : q = p ∧ a = b
    · obtain ⟨rfl, rfl⟩ := hnew
      exact ⟨now, .inr rfl⟩
    · obtain ⟨u, hu⟩ := h.resolve_right hnew
      exact ⟨u, .inl ⟨hu, hnew⟩⟩

lemma mem_blocksAt_stores :
    a ∈ (bs.foldl (fun F bl => F.store p now bl) F).blocksAt q ↔
      a ∈ F.blocksAt q ∨ (q = p ∧ a ∈ bs) := by
  induction bs generalizing F with
  | nil => simp
  | cons bl bs ih =>
    rw [foldl_cons, ih, mem_blocksAt_store, mem_cons]
    tauto

lemma observedAt_of_mem_stores {f : Holding} (h : f ∈ bs.foldl (fun F bl => F.store p now bl) F) :
    f ∈ F ∨ f.observedAt = now := by
  induction bs generalizing F with
  | nil => exact .inl h
  | cons bl bs ih =>
    rcases ih h with (⟨hold, -⟩ | hnew) | htime
    · exact .inl hold
    · rw [Set.mem_singleton_iff.mp hnew]
      exact .inr rfl
    · exact .inr htime

lemma admitsBlocks_hashChain {key : KeyedDigest} {partition : KvPartition}
    {cacheSalt : Option String} {cs : List (List ℕ)} {pa : KvBlockHash} {ix : ℕ}
    (hS : ∀ b ∈ hashChain key partition cacheSalt pa ix cs, b ∈ S)
    (hpar : pa = "" ∨ ∃ a ∈ F.blocksAt p, pa = a.blockHash) :
    AdmitsBlocks S p now F (hashChain key partition cacheSalt pa ix cs) := by
  induction cs generalizing F pa ix with
  | nil => trivial
  | cons ts rest ih =>
    refine ⟨⟨hS _ mem_cons_self, hpar⟩, ?_⟩
    refine ih (fun b hb => hS b (mem_cons_of_mem _ hb)) (.inr ?_)
    exact ⟨_, mem_blocksAt_store.mpr (.inr ⟨rfl, rfl⟩), rfl⟩

/-! ### What keeps the holdings sound -/

lemma sound_empty : Sound S ∅ where
  within _ _ h := by
    obtain ⟨u, hu⟩ := h
    cases hu
  rooted _ _ h := by
    obtain ⟨u, hu⟩ := h
    cases hu

lemma Sound.store (h : F.Sound S) (hadm : F.AdmitsBlock S p b) :
    (F.store p now b).Sound S where
  within q a ha := by
    rcases mem_blocksAt_store.mp ha with ha | ⟨-, rfl⟩
    · exact h.within q ha
    · exact hadm.1
  rooted q a ha := by
    have hup : ∀ c ∈ F.blocksAt q, c ∈ (F.store p now b).blocksAt q :=
      fun c hc => mem_blocksAt_store.mpr (.inl hc)
    rcases mem_blocksAt_store.mp ha with ha | ⟨rfl, rfl⟩
    · exact (h.rooted q a ha).imp_right fun ⟨c, hc, hlink⟩ => ⟨c, hup c hc, hlink⟩
    · exact hadm.2.imp_right fun ⟨c, hc, hlink⟩ => ⟨c, hup c hc, hlink⟩

lemma Sound.cut (h : F.Sound S) (A : Set (KvPlacement × KvBlockHash)) : (F.cut A).Sound S where
  within p _ hb := h.within p (blocksAt_cut_subset hb)
  rooted p b hb := by
    refine (h.rooted p b (blocksAt_cut_subset hb)).imp_right fun ⟨a, ha, hlink⟩ => ⟨a, ?_, hlink⟩
    exact parent_mem_cut hb ha hlink

lemma mem_blocksAt_diff_part :
    b ∈ blocksAt (F \ F.part p groupIdx) q ↔
      b ∈ F.blocksAt q ∧ ¬ (q = p ∧ b.partition.groupIdx = groupIdx) := by
  constructor
  · rintro ⟨u, hu, hout⟩
    exact ⟨⟨u, hu⟩, fun hin => hout ⟨hu, hin⟩⟩
  · rintro ⟨⟨u, hu⟩, hout⟩
    exact ⟨u, hu, fun hin => hout hin.2⟩

/-- A group is closed under parents, so it can be dropped. -/
lemma Sound.diff_part (hS : Genuine S) (h : F.Sound S) (p : KvPlacement) (groupIdx : Option ℕ) :
    Sound S (F \ F.part p groupIdx) where
  within q _ hb := h.within q (mem_blocksAt_diff_part.mp hb).1
  rooted q b hb := by
    obtain ⟨hb, hout⟩ := mem_blocksAt_diff_part.mp hb
    refine (h.rooted q b hb).imp_right fun ⟨a, ha, hlink⟩ => ⟨a, ?_, hlink⟩
    refine mem_blocksAt_diff_part.mpr ⟨ha, fun hin => hout ⟨hin.1, ?_⟩⟩
    rw [(hS.parent (h.within q ha) (h.within q hb) hlink).1]
    exact hin.2

lemma blocksAt_touch : (F.touch now).blocksAt p = F.blocksAt p := by
  ext b
  exact ⟨fun ⟨_, hb, _⟩ => hb, fun hb => ⟨now, hb, rfl⟩⟩

lemma Sound.touch (h : F.Sound S) (now : ℕ) : (F.touch now).Sound S where
  within p := by
    rw [blocksAt_touch]
    exact h.within p
  rooted p := by
    rw [blocksAt_touch]
    exact h.rooted p

lemma Sound.stores (h : F.Sound S) (hadm : AdmitsBlocks S p now F bs) :
    Sound S (bs.foldl (fun F bl => F.store p now bl) F) := by
  induction bs generalizing F with
  | nil => exact h
  | cons bl bs ih => exact ih (h.store hadm.1) hadm.2

/-- **Every event that is admitted keeps the holdings sound.** -/
lemma Sound.apply (hS : Genuine S) (h : F.Sound S) {e : KvDeltaEvent}
    (hadm : F.Admits S now e) : (F.apply e now).Sound S := by
  cases e with
  | blockStored => exact h.stores hadm
  | blockRemoved hashes pl groupIdx =>
    rw [Holdings.apply, remove]
    split_ifs
    · exact h.cut _
    · exact h.diff_part hS pl groupIdx
  | allBlocksCleared => exact sound_empty

/-! ### Branches and groups -/

lemma blocksAt_part :
    b ∈ (F.part p groupIdx).blocksAt p ↔ b ∈ F.blocksAt p ∧ b.partition.groupIdx = groupIdx := by
  constructor
  · rintro ⟨u, hu, -, hgroup⟩
    exact ⟨⟨u, hu⟩, hgroup⟩
  · rintro ⟨⟨u, hu⟩, hgroup⟩
    exact ⟨u, hu, rfl, hgroup⟩

section

variable (hS : Genuine S) (h : F.Sound S)
include hS h

/-- A block of a group is reached through blocks of the group. -/
lemma under_part {root : KvBlockHash} (hb : b ∈ (F.part p groupIdx).blocksAt p) :
    Under ((F.part p groupIdx).blocksAt p) root b ↔ Under (F.blocksAt p) root b := by
  constructor
  · exact fun hunder => hunder.mono fun c hc => (blocksAt_part.mp hc).1
  · refine fun hunder => hunder.restrict hb fun a ha b hb hlink => ?_
    obtain ⟨hb, hgroup⟩ := blocksAt_part.mp hb
    refine blocksAt_part.mpr ⟨ha, ?_⟩
    rwa [← (hS.parent (h.within p ha) (h.within p hb) hlink).1]

lemma part_cut (A : Set (KvPlacement × KvBlockHash)) (groupIdx : Option ℕ) :
    (F.cut A).part p groupIdx = (F.part p groupIdx).cut A := by
  ext f
  constructor
  · rintro ⟨⟨hf, hkept⟩, rfl, hgroup⟩
    refine ⟨⟨hf, rfl, hgroup⟩, fun root hroot => ?_⟩
    rw [under_part hS h ⟨f.observedAt, hf, rfl, hgroup⟩]
    exact hkept root hroot
  · rintro ⟨⟨hf, rfl, hgroup⟩, hkept⟩
    refine ⟨⟨hf, fun root hroot => ?_⟩, rfl, hgroup⟩
    rw [← under_part hS h ⟨f.observedAt, hf, rfl, hgroup⟩]
    exact hkept root hroot

lemma cut_part_congr (hroots : ∀ root, F.Named p groupIdx root → ((p, root) ∈ A ↔ (p, root) ∈ B))
    (hA : ∀ root, (p, root) ∈ A → ∃ r ∈ F.blocksAt p, r.blockHash = root)
    (hB : ∀ root, (p, root) ∈ B → ∃ r ∈ F.blocksAt p, r.blockHash = root) :
    (F.part p groupIdx).cut A = (F.part p groupIdx).cut B := by
  -- a root that takes a block of the group is of the group itself
  have hnamed : ∀ {f root}, f ∈ F.part p groupIdx →
      Under ((F.part p groupIdx).blocksAt f.placement) root f.block →
      (∃ r ∈ F.blocksAt p, r.blockHash = root) → F.Named p groupIdx root := by
    rintro f root ⟨hf, rfl, hgroup⟩ hunder ⟨r, hr, hroot⟩
    refine ⟨r, hr, ?_, hroot⟩
    rw [← Under.partition hS hunder (fun c hc => h.within _ (blocksAt_part.mp hc).1)
      (h.within _ ⟨f.observedAt, hf⟩) (h.within _ hr) hroot]
    exact hgroup
  ext f
  constructor
  · rintro ⟨hf, hkept⟩
    refine ⟨hf, fun root hroot hunder => hkept root ?_ hunder⟩
    obtain rfl := hf.2.1
    exact (hroots root (hnamed hf hunder (hB root hroot))).mpr hroot
  · rintro ⟨hf, hkept⟩
    refine ⟨hf, fun root hroot hunder => hkept root ?_ hunder⟩
    obtain rfl := hf.2.1
    exact (hroots root (hnamed hf hunder (hA root hroot))).mp hroot

end

/-! ### Queries -/

/-- The first blocks of a chain are there. -/
def Covers (F : Holdings) (placement : KvPlacement) (chain : List KvStoredBlock) (k : ℕ) : Prop :=
  ∀ i < k, ∃ b ∈ F.blocksAt placement, chain[i]? = some b

/-- What a query of one group can count on at a placement. -/
def Counts (F : Holdings) (query : KvPrefixQuery) (key : KeyedDigest) (placement : KvPlacement) :
    Set ℕ :=
  { n | ∃ partition k, query.selects partition = true ∧
    F.Covers placement (query.chain key partition) k ∧ n = k * partition.hashBlockSize }

/-- The longest cached start of the prompt. -/
noncomputable def best (F : Holdings) (query : KvPrefixQuery) (key : KeyedDigest)
    (placement : KvPlacement) : ℕ :=
  sSup (F.Counts query key placement)

lemma Covers.length_le {l : List KvStoredBlock} {k : ℕ} (h : F.Covers p l k) :
    k ≤ l.length := by
  cases k with
  | zero => exact Nat.zero_le _
  | succ k =>
    obtain ⟨b, -, hb⟩ := h k (Nat.lt_succ_self k)
    exact (List.getElem?_eq_some_iff.mp hb).1

lemma length_chunksExact {α : Type*} (size : ℕ) (l : List α) :
    (chunksExact size l).length = l.length / size := by
  rw [chunksExact, length_map, length_range]

variable {key : KeyedDigest}

lemma counts_le (h : n ∈ F.Counts qu key p) : n ≤ qu.tokens.length := by
  obtain ⟨partition, k, -, hcov, rfl⟩ := h
  have hlen := hcov.length_le
  rw [KvPrefixQuery.chain, length_hashChain, length_chunksExact] at hlen
  exact (Nat.mul_le_mul_right _ hlen).trans (Nat.div_mul_le_self _ _)

/-- A number that counts and bounds all others is the best. -/
lemma best_eq (hn : 0 < n → n ∈ F.Counts qu key p)
    (hle : ∀ m ∈ F.Counts qu key p, m ≤ n) : F.best qu key p = n := by
  have hbdd : BddAbove (F.Counts qu key p) := ⟨n, hle⟩
  refine le_antisymm (csSup_le' hle) ?_
  rcases Nat.eq_zero_or_pos n with rfl | hpos
  · exact Nat.zero_le _
  · exact le_csSup hbdd (hn hpos)

lemma exists_of_best_pos (h : 0 < F.best qu key p) :
    ∃ b, b ∈ F.blocksAt p ∧ qu.selects b.partition = true := by
  by_contra! hnone
  refine absurd h (Nat.not_lt.mpr (csSup_le' fun n hn => ?_))
  obtain ⟨partition, k, hsel, hcov, rfl⟩ := hn
  rcases Nat.eq_zero_or_pos k with rfl | hpos
  · rw [Nat.zero_mul]
  · obtain ⟨b, hb, hget⟩ := hcov 0 hpos
    refine absurd ?_ (hnone b hb)
    rwa [partition_of_mem_hashChain (mem_of_getElem? hget)]

lemma le_best (hn : n ∈ F.Counts qu key p) : n ≤ F.best qu key p :=
  le_csSup ⟨qu.tokens.length, fun _ => counts_le⟩ hn

/-- The reply to a query of one group: the best match of each placement whose locality is
specified, in order. -/
structure Reports (F : Holdings) (query : KvPrefixQuery) (key : KeyedDigest)
    (reply : List KvPrefixMatch) : Prop where
  sorted : reply.Pairwise fun m m' => (compare m m').isLE = true
  nodup : reply.Nodup
  mem_iff : ∀ m, m ∈ reply ↔ m.placement.locality ≠ .unspecified ∧ 0 < m.matchedTokens ∧
    m.matchedTokens = F.best query key m.placement

/-- **The holdings determine the reply.** -/
lemma Reports.unique {l l' : List KvPrefixMatch} (h : F.Reports qu key l)
    (h' : F.Reports qu key l') : l = l' := by
  refine Perm.eq_of_pairwise' h.sorted h'.sorted ?_
  refine (perm_ext_iff_of_nodup h.nodup h'.nodup).mpr fun m => ?_
  rw [h.mem_iff, h'.mem_iff]

lemma Reports.exists_mem {l : List KvPrefixMatch} (h : F.Reports qu key l)
    {partition : KvPartition} (hsel : qu.selects partition = true)
    (hloc : p.locality ≠ .unspecified) (hne : qu.chain key partition ≠ [])
    (hstored : ∀ b ∈ qu.chain key partition, b ∈ F.blocksAt p) :
    ∃ m ∈ l, m.placement = p ∧
      (qu.chain key partition).length * partition.hashBlockSize ≤ m.matchedTokens := by
  have hcounts : (qu.chain key partition).length * partition.hashBlockSize ∈
      F.Counts qu key p := by
    refine ⟨partition, _, hsel, fun i hi => ?_, rfl⟩
    have hget := getElem?_eq_getElem hi
    exact ⟨_, hstored _ (mem_of_getElem? hget), hget⟩
  have hpos : 0 < (qu.chain key partition).length * partition.hashBlockSize :=
    Nat.mul_pos (length_pos_of_ne_nil hne) (KvPrefixQuery.hashBlockSize_of_selects hsel)
  refine ⟨⟨p, _⟩, (h.mem_iff _).mpr ⟨hloc, ?_, rfl⟩, rfl, le_best hcounts⟩
  exact hpos.trans_le (le_best hcounts)

lemma reports_sortByOrd {placements : List KvPlacement}
    {report : KvPlacement → Option KvPrefixMatch} (hnodup : placements.Nodup)
    (hreport : ∀ q ∈ placements, ∀ m, report q = some m ↔
      q.locality ≠ .unspecified ∧ 0 < F.best qu key q ∧ m = ⟨q, F.best qu key q⟩)
    (hall : ∀ q : KvPlacement, q.locality ≠ .unspecified → 0 < F.best qu key q →
      q ∈ placements) :
    F.Reports qu key (sortByOrd (placements.filterMap report)) where
  sorted := pairwise_insertionSort _ _
  nodup := by
    refine (perm_insertionSort _ _).nodup_iff.mpr ?_
    -- a match names its placement
    refine (pairwise_filterMap).mpr (hnodup.imp_of_mem fun {q q'} hq hq' hne m hm m' hm' => ?_)
    obtain ⟨-, -, rfl⟩ := (hreport q hq m).mp hm
    obtain ⟨-, -, rfl⟩ := (hreport q' hq' m').mp hm'
    exact fun heq => hne (mk.inj heq).1
  mem_iff m := by
    rw [mem_sortByOrd, mem_filterMap]
    constructor
    · rintro ⟨q, hq, hm⟩
      obtain ⟨hloc, hpos, rfl⟩ := (hreport q hq m).mp hm
      exact ⟨hloc, hpos, rfl⟩
    · obtain ⟨q, n⟩ := m
      rintro ⟨hloc, hpos, hbest⟩
      dsimp only at hloc hpos hbest
      subst hbest
      have hq := hall q hloc hpos
      exact ⟨q, hq, (hreport q hq _).mpr ⟨hloc, hpos, rfl⟩⟩

end Holdings

end Foretoken.KvLocality
