import Foretoken.KvLocality.Engine
import Foretoken.KvLocality.Holdings

/-!
What the raw hashes of an engine stand for.

An engine names a block by a raw hash of its own, and a store may begin anywhere in a prompt: it
only names the block above it. Its blocks are still those of the whole prompt (`chain_extend`).
-/

namespace Foretoken.KvLocality

open List

/-! ### Chunks -/

section Chunks

variable {α : Type*} {size : ℕ}

lemma chunksExact_nil : chunksExact size ([] : List α) = [] := by
  rw [chunksExact, length_nil, Nat.zero_div, range_zero, map_nil]

lemma chunksExact_append (hsize : 0 < size) {l : List α} (h : size ∣ l.length) (l' : List α) :
    chunksExact size (l ++ l') = chunksExact size l ++ chunksExact size l' := by
  obtain ⟨k, hk⟩ := h
  have hcount : (l ++ l').length / size = k + l'.length / size := by
    rw [length_append, hk, Nat.mul_add_div hsize]
  have hcount' : l.length / size = k := by rw [hk, Nat.mul_div_cancel_left k hsize]
  rw [chunksExact, chunksExact, chunksExact, hcount, hcount', range_add, map_append,
    map_map]
  congr 1
  · refine map_congr_left fun i hi => ?_
    have hle : i * size + size ≤ l.length := by
      rw [hk, Nat.mul_comm size, ← Nat.succ_mul]
      exact Nat.mul_le_mul_right size (mem_range.mp hi)
    rw [drop_append_of_le_length (by omega), take_append_of_le_length]
    rw [length_drop]
    omega
  · refine map_congr_left fun j _ => ?_
    rw [Function.comp_apply, Nat.add_mul, Nat.mul_comm k, ← hk, drop_append,
      drop_eq_nil_of_le (by omega), nil_append, Nat.add_sub_cancel_left]

lemma chunksExact_self (hsize : 0 < size) {l : List α} (h : l.length = size) :
    chunksExact size l = [l] := by
  rw [chunksExact, h, Nat.div_self hsize, range_one, map_singleton, Nat.zero_mul,
    drop_zero, ← h, take_length]

lemma dvd_length_flatten {chunks : List (List α)} (h : ∀ chunk ∈ chunks, chunk.length = size) :
    size ∣ chunks.flatten.length := by
  rw [length_flatten]
  refine dvd_sum fun n hn => ?_
  obtain ⟨chunk, hchunk, rfl⟩ := mem_map.mp hn
  rw [h chunk hchunk]

lemma chunksExact_flatten (hsize : 0 < size) {chunks : List (List α)}
    (h : ∀ chunk ∈ chunks, chunk.length = size) : chunksExact size chunks.flatten = chunks := by
  induction chunks with
  | nil => exact chunksExact_nil
  | cons chunk chunks ih =>
    have hchunk := h chunk mem_cons_self
    rw [flatten_cons, chunksExact_append hsize (by rw [hchunk]), chunksExact_self hsize hchunk,
      ih fun c hc => h c (mem_cons_of_mem _ hc)]
    rfl

end Chunks

/-! ### Chains -/

/-- The hash and the depth that a chain is continued with. -/
def chainEnd (start : KvBlockHash × ℕ) (chain : List KvStoredBlock) : KvBlockHash × ℕ :=
  chain.foldl (fun _ block => (block.blockHash, block.blockIndex + 1)) start

lemma chainEnd_eq {n : KvBlockHash × ℕ} {l : List KvStoredBlock} {b : KvStoredBlock}
    (h : l.getLast? = some b) : chainEnd n l = (b.blockHash, b.blockIndex + 1) := by
  obtain ⟨front, rfl⟩ := getLast?_eq_some_iff.mp h
  rw [chainEnd, foldl_append]
  rfl

section Chain

variable {key : KeyedDigest} {partition : KvPartition} {cacheSalt : Option String}
  {parent : KvBlockHash} {index : ℕ} {chunks : List (List ℕ)}

/-- **A chain is continued at its end.** -/
lemma hashChain_append (more : List (List ℕ)) :
    hashChain key partition cacheSalt parent index (chunks ++ more) =
      hashChain key partition cacheSalt parent index chunks ++ hashChain key partition cacheSalt
          (chainEnd (parent, index) (hashChain key partition cacheSalt parent index chunks)).1
          (chainEnd (parent, index) (hashChain key partition cacheSalt parent index chunks)).2
          more := by
  induction chunks generalizing parent index with
  | nil => rfl
  | cons ts rest ih =>
    rw [cons_append, hashChain, ih]
    rfl

lemma normalizedKvBlockHash_child (hpar : parent ≠ "") (ts : List ℕ) :
    normalizedKvBlockHash key parent ts partition cacheSalt =
      normalizedKvBlockHash key parent ts partition none := by
  cases cacheSalt with
  | none => rfl
  | some => simp only [normalizedKvBlockHash, hpar, false_and, if_false]

/-- **A salt has no effect below the first block.** -/
lemma hashChain_salt (hpar : parent ≠ "") (cacheSalt' : Option String) :
    hashChain key partition cacheSalt parent index chunks =
      hashChain key partition cacheSalt' parent index chunks := by
  induction chunks generalizing parent index with
  | nil => rfl
  | cons tokens rest ih =>
    have hhash : normalizedKvBlockHash key parent tokens partition cacheSalt =
        normalizedKvBlockHash key parent tokens partition cacheSalt' := by
      rw [normalizedKvBlockHash_child hpar, ← normalizedKvBlockHash_child hpar]
    obtain ⟨bytes, hlen, hbytes⟩ :=
      named_normalizedKvBlockHash key parent tokens partition cacheSalt'
    rw [hashChain, hashChain, hhash, ih]
    rw [hbytes]
    exact encode_ne_empty hlen

end Chain

namespace Prompt

/-- The prompt with further blocks. -/
def extend (prompt : Prompt) (chunks : List (List ℕ)) : Prompt :=
  { prompt with tokens := prompt.tokens ++ chunks.flatten }

/-- The prompt consists of complete blocks. -/
def Complete (prompt : Prompt) : Prop :=
  0 < prompt.partition.hashBlockSize ∧ prompt.partition.hashBlockSize ∣ prompt.tokens.length

variable {prompt : Prompt} {chunks : List (List ℕ)} {key : KeyedDigest}

section

variable (h : prompt.Complete)
  (hchks : ∀ chunk ∈ chunks, chunk.length = prompt.partition.hashBlockSize)
include h hchks

lemma Complete.extend :
    (prompt.extend chunks).Complete := by
  refine ⟨h.1, ?_⟩
  rw [Prompt.extend, length_append]
  exact Nat.dvd_add h.2 (dvd_length_flatten hchks)

/-- **The blocks of a prompt** are those of its start and the rest. -/
lemma chain_extend :
    (prompt.extend chunks).chain key =
      prompt.chain key ++ hashChain key prompt.partition prompt.cacheSalt
        (chainEnd ("", 0) (prompt.chain key)).1 (chainEnd ("", 0) (prompt.chain key)).2 chunks := by
  have hchks' : chunksExact prompt.partition.hashBlockSize (prompt.tokens ++ chunks.flatten) =
      chunksExact prompt.partition.hashBlockSize prompt.tokens ++ chunks := by
    rw [chunksExact_append h.1 h.2, chunksExact_flatten h.1 hchks]
  rw [chain, chain, extend, hchks', hashChain_append]

end

end Prompt

/-! ### Contents -/

/-- The prompt that each raw hash stands for, at a placement and in a group. -/
abbrev Contents := RawKey → Prompt

namespace PendingStore

/-- The private names of the blocks of a store. -/
def keys (store : PendingStore) : List RawKey := store.rawBlocks.map (store.rawKey ·.1)

/-- The prompt below which a store belongs. -/
def base (store : PendingStore) (content : Contents) : Prompt :=
  match store.parentKey with
  | some key => content key
  | none => ⟨store.partition, store.cacheSalt, []⟩

/-- The blocks of the store continue the prompt of its parent, in the same partition. -/
structure Truthful (store : PendingStore) (content : Contents) : Prop where
  partition : (store.base content).partition = store.partition
  named : ∀ i block, store.rawBlocks[i]? = some block →
    content (store.rawKey block.1) =
      (store.base content).extend ((store.rawBlocks.take (i + 1)).map (·.2))

end PendingStore

namespace RankState

/-- The blocks that a rank retains are those that their raw hashes stand for. -/
def Faithful (rank : RankState) (key : KeyedDigest) (content : Contents) : Prop :=
  ∀ k stored, rank.rawBlocks.lookup k = some stored →
    stored.placement = k.placement ∧ (content k).Complete ∧
      ((content k).chain key).getLast? = some stored.block

variable {rank : RankState} {key : KeyedDigest} {content : Contents} {store : PendingStore}

/-- The parent of a store ends the prompt above it. -/
lemma Faithful.parentOf (h : rank.Faithful key content) {parent : KvBlockHash × ℕ}
    (hpar : rank.parentOf store = some parent) :
    parent = chainEnd ("", 0) ((store.base content).chain key) ∧
      (store.WellFormed → (store.base content).Complete) ∧
      ((store.base content).cacheSalt = store.cacheSalt ∨ parent.1 ≠ "") := by
  rw [RankState.parentOf] at hpar
  rw [PendingStore.base]
  cases hkey : store.parentKey with
  | none =>
    rw [hkey] at hpar
    cases hpar
    refine ⟨?_, fun hwell => ⟨hwell.blockSize, Nat.dvd_zero _⟩, .inl rfl⟩
    rw [Prompt.chain, chunksExact_nil]
    rfl
  | some k =>
    rw [hkey] at hpar
    obtain ⟨st, hlook, rfl⟩ := Option.map_eq_some_iff.mp hpar
    obtain ⟨-, hcomp, hlast⟩ := h k st hlook
    refine ⟨(chainEnd_eq hlast).symm, fun _ => hcomp, .inr ?_⟩
    obtain ⟨bs, hlen, hbytes⟩ := named_of_mem_hashChain (mem_of_getLast? hlast)
    rw [hbytes]
    exact encode_ne_empty hlen

section

variable {parent : KvBlockHash × ℕ} (h : rank.Faithful key content) (hwell : store.WellFormed)
  (htrue : store.Truthful content) (hpar : rank.parentOf store = some parent)
include h hwell htrue hpar

/-- The blocks of a store, as `publishStore` computes them. -/
lemma Faithful.blocks {i : ℕ} {bl : List UInt8 × List ℕ} (hblock : store.rawBlocks[i]? = some bl) :
    ∃ b, (hashChain key store.partition store.cacheSalt parent.1 parent.2
        (store.rawBlocks.map (·.2)))[i]? = some b ∧
      (content (store.rawKey bl.1)).Complete ∧
      ((content (store.rawKey bl.1)).chain key).getLast? = some b := by
  obtain ⟨hend, hcomp, hsalt⟩ := h.parentOf hpar
  have hi : i < store.rawBlocks.length := (List.getElem?_eq_some_iff.mp hblock).1
  have hsize : ∀ chunk ∈ (store.rawBlocks.take (i + 1)).map (·.2),
      chunk.length = (store.base content).partition.hashBlockSize := by
    intro chunk hchunk
    obtain ⟨bl, hmem, rfl⟩ := mem_map.mp hchunk
    rw [htrue.partition]
    exact hwell.complete bl (mem_of_mem_take hmem)
  -- the blocks up to this one, and the later ones
  have hsplit : store.rawBlocks.map (·.2) =
      (store.rawBlocks.take (i + 1)).map (·.2) ++ (store.rawBlocks.drop (i + 1)).map (·.2) := by
    rw [← map_append, take_append_drop]
  have hchain : hashChain key store.partition store.cacheSalt parent.1 parent.2
        ((store.rawBlocks.take (i + 1)).map (·.2)) =
      hashChain key store.partition (store.base content).cacheSalt parent.1 parent.2
        ((store.rawBlocks.take (i + 1)).map (·.2)) := by
    rcases hsalt with hsalt | hne
    · rw [hsalt]
    · exact hashChain_salt hne _
  rw [htrue.named i bl hblock, Prompt.chain_extend (hcomp hwell) hsize, ← hend,
    htrue.partition, ← hchain, hsplit, hashChain_append]
  generalize hfront : hashChain key store.partition store.cacheSalt parent.1 parent.2
    ((store.rawBlocks.take (i + 1)).map (·.2)) = front
  have hlen : front.length = i + 1 := by
    rw [← hfront, length_hashChain, length_map, length_take]
    omega
  obtain ⟨b, hb⟩ : ∃ b, front[i]? = some b := ⟨front[i], getElem?_eq_getElem (by omega)⟩
  refine ⟨b, ?_, (hcomp hwell).extend hsize, ?_⟩
  · rw [getElem?_append_left (by omega), hb]
  · rw [getLast?_append_of_ne_nil]
    · rw [getLast?_eq_getElem?, hlen, Nat.add_sub_cancel, hb]
    · rintro rfl
      cases hlen

/-- A block of a store belongs to one of its prompts. -/
lemma Faithful.mem_chain {b : KvStoredBlock}
    (hb : b ∈ hashChain key store.partition store.cacheSalt parent.1 parent.2
      (store.rawBlocks.map (·.2))) :
    ∃ k ∈ store.keys, b ∈ (content k).chain key := by
  obtain ⟨i, hi⟩ := mem_iff_getElem?.mp hb
  have hlen : i < store.rawBlocks.length := by
    have hlt := (List.getElem?_eq_some_iff.mp hi).1
    rwa [length_hashChain, length_map] at hlt
  have hblock := getElem?_eq_getElem hlen
  obtain ⟨b', hb', -, hlast⟩ := h.blocks hwell htrue hpar hblock
  rw [hi] at hb'
  cases hb'
  exact ⟨_, mem_map_of_mem (mem_of_getElem? hblock), mem_of_getLast? hlast⟩

end

/-! ### Publishing a store -/

/-- The blocks of a store under their private names. -/
def retained (store : PendingStore) (blocks : List KvStoredBlock) : List (RawKey × StoredBlock) :=
  ((store.rawBlocks.map (·.1)).zip blocks).map fun entry =>
    (store.rawKey entry.1, ⟨entry.2, store.placement⟩)

lemma map_fst_retained {bs : List KvStoredBlock} (h : bs.length = store.rawBlocks.length) :
    (retained store bs).map Prod.fst = store.keys := by
  rw [retained, map_map]
  have hfst : (Prod.fst ∘ fun e : List UInt8 × KvStoredBlock =>
      (store.rawKey e.1, (⟨e.2, store.placement⟩ : StoredBlock))) =
      store.rawKey ∘ Prod.fst := rfl
  rw [hfst, ← map_map, map_fst_zip (by rw [length_map, h]), map_map]
  rfl

lemma rawBlocks_publishStore (parent : KvBlockHash × ℕ) :
    (publishStore key rank store parent).rawBlocks =
      (retained store (hashChain key store.partition store.cacheSalt parent.1 parent.2
        (store.rawBlocks.map (·.2)))).foldl
          (fun (t : Table RawKey StoredBlock) e => t.insert e.1 e.2) rank.rawBlocks := by
  rw [retained, foldl_map, publishStore]
  split_ifs <;> rfl

lemma lookup_publishStore_of_notMem {k : RawKey} (h : k ∉ store.keys) (parent : KvBlockHash × ℕ) :
    (publishStore key rank store parent).rawBlocks.lookup k = rank.rawBlocks.lookup k := by
  rw [rawBlocks_publishStore]
  refine Table.lookup_inserts_of_notMem ?_
  rw [map_fst_retained (by rw [length_hashChain, length_map])]
  exact h

lemma isSome_lookup_publishStore {k : RawKey}
    (h : k ∈ store.keys ∨ (rank.rawBlocks.lookup k).isSome = true) (parent : KvBlockHash × ℕ) :
    ((publishStore key rank store parent).rawBlocks.lookup k).isSome = true := by
  rw [rawBlocks_publishStore]
  refine Table.isSome_lookup_inserts ?_
  rw [map_fst_retained (by rw [length_hashChain, length_map])]
  exact h

lemma log_publishStore (key : KeyedDigest) (rank : RankState) (store : PendingStore)
    (parent : KvBlockHash × ℕ) :
    (publishStore key rank store parent).ring.log = rank.ring.log ++
      (if store.rawBlocks = [] then [] else
        [.blockStored (hashChain key store.partition store.cacheSalt parent.1 parent.2
          (store.rawBlocks.map (·.2))) store.placement]) := by
  have hempty : hashChain key store.partition store.cacheSalt parent.1 parent.2
      (store.rawBlocks.map (·.2)) = [] ↔ store.rawBlocks = [] := by
    rw [← length_eq_zero_iff, length_hashChain, length_map, length_eq_zero_iff]
  rw [publishStore]
  simp only [hempty]
  split_ifs
  · exact (append_nil _).symm
  · rfl

/-- **A truthful store keeps a rank faithful.** -/
lemma Faithful.publishStore (h : rank.Faithful key content) (hwell : store.WellFormed)
    (htrue : store.Truthful content) {parent : KvBlockHash × ℕ}
    (hpar : rank.parentOf store = some parent) :
    (publishStore key rank store parent).Faithful key content := by
  intro k st hlook
  rw [rawBlocks_publishStore] at hlook
  rcases Table.mem_of_lookup_inserts hlook with hmem | hold
  · obtain ⟨⟨raw, block⟩, hentry, heq⟩ := mem_map.mp hmem
    obtain ⟨rfl, rfl⟩ := Prod.mk.inj heq
    obtain ⟨i, hi⟩ := mem_iff_getElem?.mp hentry
    obtain ⟨hraw, hblock⟩ := getElem?_zip_eq_some.mp hi
    rw [getElem?_map, Option.map_eq_some_iff] at hraw
    obtain ⟨⟨raw, tokens⟩, hget, rfl⟩ := hraw
    obtain ⟨b, hb, hcomp, hlast⟩ := h.blocks hwell htrue hpar hget
    rw [hblock] at hb
    cases hb
    exact ⟨rfl, hcomp, hlast⟩
  · exact h k st hold

end RankState

end Foretoken.KvLocality
