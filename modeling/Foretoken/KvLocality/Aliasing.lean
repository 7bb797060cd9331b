import Foretoken.KvLocality.Delivery

/-!
Which blocks share a hash.

The hash of a block is taken of a text without delimiters (`blockInput`). In one partition this
text still determines the block: the tokens of two blocks take the same room, and a first block is
never taken for a later one, since the text of the partition would repeat the parent's name over
and over (`mem_of_periodic`) but ends in the bytes of a missing window, which no name contains.
-/

namespace Foretoken.KvLocality

open List LateParent Base64 RadixTree

/-- A list that continues with itself repeats its first part. -/
lemma mem_of_periodic {α : Type*} {p l t s : List α} (hp : p ≠ []) (h : l ++ t = p ++ (l ++ s))
    {x : α} (hx : x ∈ l) : x ∈ p := by
  have hpos := length_pos_of_ne_nil hp
  have hget : ∀ i, i < l.length → ∀ x, l[i]? = some x → x ∈ p := by
    intro i
    induction i using Nat.strong_induction_on with
    | _ i ih =>
      intro hi x hx
      have hleft : (l ++ t)[i]? = l[i]? := getElem?_append_left hi
      rw [← hleft, h] at hx
      by_cases hshort : i < p.length
      · rw [getElem?_append_left hshort] at hx
        exact mem_of_getElem? hx
      · -- one period earlier
        have hless : i - p.length < i := by omega
        rw [getElem?_append_right (by omega), getElem?_append_left (by omega)] at hx
        exact ih _ hless (by omega) x hx
  obtain ⟨i, hi⟩ := mem_iff_getElem?.mp hx
  exact hget i (List.getElem?_eq_some_iff.mp hi).1 x hi

/-! ### Bytes -/

lemma asBytes_injective : Function.Injective asBytes := by
  intro s t h
  have hdata := ByteArray.ext (Array.toList_inj.mp h)
  exact String.toByteArray_inj.mp hdata

lemma symbolCode_lt (n : ℕ) : symbolCode n < 128 := by
  rw [symbolCode]
  split_ifs <;> omega

lemma val_ofNat {n : ℕ} (h : n < 128) : (Char.ofNat n).val.toNat = n := by
  have hvalid : n.isValidChar := .inl (by omega)
  rw [Char.ofNat, dif_pos hvalid]
  rfl

lemma asBytes_encode_lt {bs : List UInt8} {byte : UInt8}
    (h : byte ∈ asBytes (encode bs)) : byte.toNat < 128 := by
  rw [asBytes, String.toUTF8, encode, String.toByteArray_ofList, utf8Encode,
    data_toByteArray, toList_toArray, flatMap_map] at h
  obtain ⟨n, -, hbyte⟩ := mem_flatMap.mp h
  have hcode : (symbol n).val.toNat = symbolCode n := val_ofNat (symbolCode_lt n)
  have hless := symbolCode_lt n
  have hsize : (symbol n).utf8Size = 1 := by
    rw [Char.utf8Size_eq_one_iff, UInt32.le_iff_toNat_le, hcode]
    exact Nat.le_of_lt_succ hless
  rw [String.utf8EncodeChar_eq_singleton hsize, mem_singleton] at hbyte
  rw [hbyte, UInt32.toNat_toUInt8]
  omega

lemma toLeBytes_inj {n n' : ℕ} (hn : n ≤ u32Max) (hn' : n' ≤ u32Max)
    (h : toLeBytes n = toLeBytes n') : n = n' := by
  rw [u32Max] at hn hn'
  simp only [toLeBytes, map_cons, map_nil, cons.injEq, and_true,
    UInt8.ofNat_eq_iff_mod_eq_toNat, UInt8.toNat_ofNat'] at h
  omega

lemma length_flatMap_toLeBytes (tokens : List ℕ) :
    (tokens.flatMap toLeBytes).length = 4 * tokens.length := by
  induction tokens with
  | nil => rfl
  | cons t tokens ih =>
    rw [flatMap_cons, length_append, ih, length_cons]
    change 4 + 4 * tokens.length = _
    omega

lemma flatMap_toLeBytes_inj {tokens tokens' : List ℕ} (h : ∀ n ∈ tokens, n ≤ u32Max)
    (h' : ∀ n ∈ tokens', n ≤ u32Max)
    (heq : tokens.flatMap toLeBytes = tokens'.flatMap toLeBytes) : tokens = tokens' := by
  induction tokens generalizing tokens' with
  | nil =>
    have hlen := congrArg length heq
    rw [length_flatMap_toLeBytes, length_flatMap_toLeBytes, length_nil] at hlen
    exact (length_eq_zero_iff.mp (by omega)).symm
  | cons t tokens ih =>
    cases tokens' with
    | nil => cases heq
    | cons =>
      rw [forall_mem_cons] at h h'
      obtain ⟨hfirst, hrest⟩ := append_inj heq rfl
      rw [toLeBytes_inj h.1 h'.1 hfirst, ih h.2 h'.2 hrest]

/-! ### What is hashed -/

/-- A salt that is hashed: an empty one counts as none. -/
def effectiveSalt (cacheSalt : Option String) : Option String := cacheSalt.filter (· ≠ "")

/-- The salt as it is hashed. -/
def saltBytes (cacheSalt : Option String) : List UInt8 :=
  match effectiveSalt cacheSalt with
  | some salt => asBytes "\x00cache_salt\x00" ++ asBytes salt
  | none => []

lemma saltBytes_none : saltBytes none = [] := rfl

lemma saltBytes_some (salt : String) :
    saltBytes (some salt) =
      if salt ≠ "" then asBytes "\x00cache_salt\x00" ++ asBytes salt else [] := by
  rw [saltBytes, effectiveSalt, Option.filter_some]
  by_cases hsalt : salt = "" <;> simp [hsalt]

/-- What is hashed of a partition. -/
def partitionBytes (partition : KvPartition) : List UInt8 :=
  asBytes partition.modelRevision ++ asBytes partition.scopeId ++
    toLeBytes partition.hashBlockSize ++ toLeBytes (partition.groupIdx.getD u32Max) ++
    asBytes partition.specKind ++ toLeBytes (partition.slidingWindow.getD u32Max)

/-- The text that the hash of a block is taken of. -/
def blockInput (partition : KvPartition) (cacheSalt : Option String) (parent : KvBlockHash)
    (tokens : List ℕ) : List UInt8 :=
  asBytes parent ++ (partitionBytes partition ++ (tokens.flatMap toLeBytes ++
    if parent = "" then saltBytes cacheSalt else []))

lemma normalizedKvBlockHash_eq (key : KeyedDigest) (partition : KvPartition)
    (cacheSalt : Option String) (parent : KvBlockHash) (tokens : List ℕ) :
    normalizedKvBlockHash key parent tokens partition cacheSalt =
      encode (key.digest (blockInput partition cacheSalt parent tokens)) := by
  simp only [normalizedKvBlockHash, blockInput, partitionBytes, append_assoc]
  cases cacheSalt with
  | none => rw [saltBytes_none, ite_self]
  | some =>
    rw [saltBytes_some]
    by_cases hpar : parent = "" <;> simp [hpar]

lemma saltBytes_inj {cacheSalt cacheSalt' : Option String}
    (h : saltBytes cacheSalt = saltBytes cacheSalt') :
    effectiveSalt cacheSalt = effectiveSalt cacheSalt' := by
  have hmark : asBytes "\x00cache_salt\x00" ≠ [] := by decide
  rw [saltBytes, saltBytes] at h
  rcases hsalt : effectiveSalt cacheSalt with _ | salt <;>
    rcases hsalt' : effectiveSalt cacheSalt' with _ | salt' <;> simp [hsalt, hsalt', hmark] at h ⊢
  exact asBytes_injective h

section Input

variable {partition : KvPartition} {cacheSalt cacheSalt' : Option String}
  {tokens tokens' : List ℕ} {parent parent' : KvBlockHash}

lemma blockInput_root (hlen : tokens.length = tokens'.length)
    (h : blockInput partition cacheSalt "" tokens = blockInput partition cacheSalt' "" tokens') :
    tokens.flatMap toLeBytes = tokens'.flatMap toLeBytes ∧
      effectiveSalt cacheSalt = effectiveSalt cacheSalt' := by
  have hrest := append_cancel_left (append_cancel_left h)
  obtain ⟨htok, hsalt⟩ := append_inj hrest (by
    rw [length_flatMap_toLeBytes, length_flatMap_toLeBytes, hlen])
  exact ⟨htok, saltBytes_inj hsalt⟩

lemma blockInput_child (hpar : parent ≠ "") (hpar' : parent' ≠ "")
    (hlen : tokens.length = tokens'.length)
    (h : blockInput partition cacheSalt parent tokens =
      blockInput partition cacheSalt' parent' tokens') :
    parent = parent' ∧ tokens.flatMap toLeBytes = tokens'.flatMap toLeBytes := by
  rw [blockInput, blockInput, if_neg hpar, if_neg hpar', append_nil, append_nil] at h
  have hlen' : (asBytes parent).length = (asBytes parent').length := by
    have hall := congrArg length h
    simp only [length_append, length_flatMap_toLeBytes] at hall
    omega
  obtain ⟨hbytes, hrest⟩ := append_inj h hlen'
  exact ⟨asBytes_injective hbytes, append_cancel_left hrest⟩

/-- **A first block is not a later one.** -/
lemma blockInput_ne (hwin : partition.slidingWindow = none) {bs : List UInt8}
    (hbytes : bs.length = 32) :
    blockInput partition cacheSalt "" tokens ≠
      blockInput partition cacheSalt' (encode bs) tokens' := by
  intro h
  have hne := encode_ne_empty hbytes
  have hroot : asBytes "" = [] := by decide
  rw [blockInput, hroot, nil_append] at h
  have hperiod : ∀ byte ∈ partitionBytes partition, byte ∈ asBytes (encode bs) := by
    refine fun byte => mem_of_periodic ?_ h
    intro hnil
    exact hne (asBytes_injective hnil)
  have hlast : (255 : UInt8) ∈ partitionBytes partition := by
    rw [partitionBytes, hwin]
    exact mem_append_right _ (by decide)
  exact absurd (asBytes_encode_lt (hperiod 255 hlast)) (by decide)

end Input

/-! ### Chains -/

/-- The texts that the hashes of a chain are taken of. -/
def chainInputs (key : KeyedDigest) (partition : KvPartition) (cacheSalt : Option String)
    (chunks : List (List ℕ)) : List (List UInt8) :=
  ((hashChain key partition cacheSalt "" 0 chunks).zip chunks).map fun entry =>
    blockInput partition cacheSalt entry.1.parentHash entry.2

/-- The tokens of complete blocks. -/
def Chunked (partition : KvPartition) (chunks : List (List ℕ)) : Prop :=
  ∀ chunk ∈ chunks, chunk.length = partition.hashBlockSize ∧ ∀ token ∈ chunk, token ≤ u32Max

section Chains

variable {key : KeyedDigest} {partition : KvPartition} {cacheSalt cacheSalt' : Option String}
  {chunks chunks' : List (List ℕ)} {b b' : KvStoredBlock}

/-- A block of a chain has its hash of its parent and its tokens. -/
lemma getElem?_hashChain {parent : KvBlockHash} {ix i : ℕ}
    (h : (hashChain key partition cacheSalt parent ix chunks)[i]? = some b) :
    ∃ tokens, chunks[i]? = some tokens ∧
      b.blockHash = normalizedKvBlockHash key b.parentHash tokens partition cacheSalt := by
  induction chunks generalizing parent ix i with
  | nil => cases h
  | cons tokens rest ih =>
    cases i with
    | zero =>
      cases h
      exact ⟨tokens, rfl, rfl⟩
    | succ => exact ih h

lemma mem_chainInputs {i : ℕ} {tokens : List ℕ}
    (hb : (hashChain key partition cacheSalt "" 0 chunks)[i]? = some b)
    (htok : chunks[i]? = some tokens) :
    blockInput partition cacheSalt b.parentHash tokens ∈
      chainInputs key partition cacheSalt chunks :=
  mem_map.mpr ⟨(b, tokens),
    mem_of_getElem? (getElem?_zip_eq_some.mpr ⟨hb, htok⟩), rfl⟩

lemma exists_parent {i : ℕ}
    (hb : (hashChain key partition cacheSalt "" 0 chunks)[i + 1]? = some b) :
    ∃ a, (hashChain key partition cacheSalt "" 0 chunks)[i]? = some a ∧ b.parentHash = a.blockHash ∧
      ∃ bytes : List UInt8, bytes.length = 32 ∧ b.parentHash = encode bytes := by
  have hlt := (List.getElem?_eq_some_iff.mp hb).1
  have hget := getElem?_eq_getElem (Nat.lt_of_succ_lt hlt)
  have hlink := hashChain_linked hget hb
  obtain ⟨bytes, hlen, hbytes⟩ := named_of_mem_hashChain (mem_of_getElem? hget)
  exact ⟨_, hget, hlink, bytes, hlen, hlink.trans hbytes⟩

section

variable {i j : ℕ} {inputs : Set (List UInt8)} (hchks : Chunked partition chunks)
  (hchks' : Chunked partition chunks') (hfree : Set.InjOn key.digest inputs)
  (hinp : ∀ input ∈ chainInputs key partition cacheSalt chunks, input ∈ inputs)
  (hinp' : ∀ input ∈ chainInputs key partition cacheSalt' chunks', input ∈ inputs)
  (hb : (hashChain key partition cacheSalt "" 0 chunks)[i]? = some b)
  (hb' : (hashChain key partition cacheSalt' "" 0 chunks')[j]? = some b')
  (hhash : b.blockHash = b'.blockHash)
include hchks hchks' hfree hinp hinp' hb hb' hhash

lemma input_of_hash :
    ∃ tokens tokens', chunks[i]? = some tokens ∧ chunks'[j]? = some tokens' ∧
      tokens.length = tokens'.length ∧
      (tokens.flatMap toLeBytes = tokens'.flatMap toLeBytes → tokens = tokens') ∧
      blockInput partition cacheSalt b.parentHash tokens =
        blockInput partition cacheSalt' b'.parentHash tokens' := by
  obtain ⟨tokens, htok, heq⟩ := getElem?_hashChain hb
  obtain ⟨tokens', htok', heq'⟩ := getElem?_hashChain hb'
  obtain ⟨hsize, hu32⟩ := hchks tokens (mem_of_getElem? htok)
  obtain ⟨hsize', hu32'⟩ := hchks' tokens' (mem_of_getElem? htok')
  refine ⟨tokens, tokens', htok, htok', hsize.trans hsize'.symm,
    flatMap_toLeBytes_inj hu32 hu32', ?_⟩
  refine hfree (hinp _ (mem_chainInputs hb htok)) (hinp' _ (mem_chainInputs hb' htok')) ?_
  rw [heq, heq', normalizedKvBlockHash_eq, normalizedKvBlockHash_eq] at hhash
  have hdec := congrArg decode hhash
  rw [decode_encode, decode_encode] at hdec
  exact Option.some.inj hdec

/-- **Chains that share a hash agree up to it.** -/
lemma eq_of_hash (hwin : partition.slidingWindow = none) :
    i = j ∧ chunks.take (i + 1) = chunks'.take (i + 1) ∧
      effectiveSalt cacheSalt = effectiveSalt cacheSalt' ∧ b.parentHash = b'.parentHash := by
  induction i generalizing j b b' with
  | zero =>
    obtain ⟨tokens, tokens', htok, htok', hlen, hinj, hinput⟩ :=
      input_of_hash hchks hchks' hfree hinp hinp' hb hb' hhash
    rw [parentHash_hashChain_zero hb] at hinput ⊢
    cases j with
    | zero =>
      rw [parentHash_hashChain_zero hb'] at hinput ⊢
      obtain ⟨hbytes, hsalt⟩ := blockInput_root hlen hinput
      refine ⟨rfl, ?_, hsalt, rfl⟩
      rw [take_add_one, take_add_one, htok, htok', hinj hbytes, take_zero, take_zero]
    | succ =>
      obtain ⟨a', -, -, bytes, hsize, hbytes⟩ := exists_parent hb'
      rw [hbytes] at hinput
      exact absurd hinput (blockInput_ne hwin hsize)
  | succ i ih =>
    obtain ⟨tokens, tokens', htok, htok', hlen, hinj, hinput⟩ :=
      input_of_hash hchks hchks' hfree hinp hinp' hb hb' hhash
    obtain ⟨a, ha, hlink, bytes, hsize, hbytes⟩ := exists_parent hb
    cases j with
    | zero =>
      rw [parentHash_hashChain_zero hb', hbytes] at hinput
      exact absurd hinput.symm (blockInput_ne hwin hsize)
    | succ =>
      obtain ⟨a', ha', hlink', bytes', hsize', hbytes'⟩ := exists_parent hb'
      obtain ⟨hpar, htext⟩ := blockInput_child (by rw [hbytes]; exact encode_ne_empty hsize)
        (by rw [hbytes']; exact encode_ne_empty hsize') hlen hinput
      rw [hlink, hlink'] at hpar
      obtain ⟨rfl, htake, hsalt, -⟩ := ih ha ha' hpar
      refine ⟨rfl, ?_, hsalt, ?_⟩
      · have hnext : chunks'.take (i + 1 + 1) = chunks'.take (i + 1) ++ [tokens'] := by
          rw [take_add_one, htok']
          rfl
        rw [hnext, take_add_one, htake, htok, hinj htext]
        rfl
      · rw [hlink, hlink', hpar]

end

end Chains

/-! ### Prompts -/

lemma mem_of_mem_chunksExact {α : Type*} {size : ℕ} {l chunk : List α} {a : α}
    (h : chunk ∈ chunksExact size l) (ha : a ∈ chunk) : a ∈ l := by
  obtain ⟨i, -, rfl⟩ := mem_map.mp h
  exact mem_of_mem_drop (mem_of_mem_take ha)

lemma flatten_take_chunksExact {α : Type*} {size : ℕ} {l : List α} {n : ℕ}
    (h : n ≤ (chunksExact size l).length) :
    ((chunksExact size l).take n).flatten = l.take (n * size) := by
  induction n with
  | zero => rw [take_zero, Nat.zero_mul, take_zero, flatten_nil]
  | succ n ih =>
    have hget : (chunksExact size l)[n]? = some ((l.drop (n * size)).take size) := by
      rw [Holdings.length_chunksExact] at h
      rw [chunksExact, getElem?_map, getElem?_range h]
      rfl
    rw [take_add_one, hget, flatten_append, ih (Nat.le_of_succ_le h), Nat.succ_mul,
      take_add]
    simp

namespace Prompt

/-- The texts that the hashes of the prompt's blocks are taken of. -/
def inputs (key : KeyedDigest) (prompt : Prompt) : List (List UInt8) :=
  chainInputs key prompt.partition prompt.cacheSalt
    (chunksExact prompt.partition.hashBlockSize prompt.tokens)

lemma chunked {prompt : Prompt} (h : ∀ t ∈ prompt.tokens, t ≤ u32Max) :
    Chunked prompt.partition (chunksExact prompt.partition.hashBlockSize prompt.tokens) :=
  fun _ hchunk => ⟨length_of_mem_chunksExact hchunk,
    fun t htoken => h t (mem_of_mem_chunksExact hchunk htoken)⟩

end Prompt

/-- The texts of the blocks of prompts. -/
def promptInputs (key : KeyedDigest) (prompts : Set Prompt) : Set (List UInt8) :=
  { input | ∃ prompt ∈ prompts, input ∈ prompt.inputs key }

/-- Prompts of one partition, with the tokens of a vocabulary. -/
def InPartition (partition : KvPartition) (prompts : Set Prompt) : Prop :=
  ∀ prompt ∈ prompts, prompt.partition = partition ∧ ∀ token ∈ prompt.tokens, token ≤ u32Max

section Prompts

variable {key : KeyedDigest} {partition : KvPartition} {prompts : Set Prompt}
  {prompt prompt' : Prompt} {b b' : KvStoredBlock} {i j : ℕ}

section

variable (hwin : partition.slidingWindow = none) (hprompts : InPartition partition prompts)
  (hfree : Set.InjOn key.digest (promptInputs key prompts))
include hwin hprompts hfree

lemma eq_of_prompt_hash (hprom : prompt ∈ prompts) (hprom' : prompt' ∈ prompts)
    (hb : (prompt.chain key)[i]? = some b) (hb' : (prompt'.chain key)[j]? = some b')
    (hhash : b.blockHash = b'.blockHash) :
    i = j ∧ prompt.tokens.take ((i + 1) * partition.hashBlockSize) =
        prompt'.tokens.take ((i + 1) * partition.hashBlockSize) ∧
      effectiveSalt prompt.cacheSalt = effectiveSalt prompt'.cacheSalt ∧ b = b' := by
  obtain ⟨rfl, htok⟩ := hprompts prompt hprom
  obtain ⟨hpartition, htok'⟩ := hprompts prompt' hprom'
  have hchunked' := Prompt.chunked htok'
  rw [Prompt.chain, hpartition] at hb'
  rw [hpartition] at hchunked'
  have hinp' : ∀ input ∈ chainInputs key prompt.partition prompt'.cacheSalt
      (chunksExact prompt.partition.hashBlockSize prompt'.tokens),
      input ∈ promptInputs key prompts := by
    intro input hinput
    refine ⟨prompt', hprom', ?_⟩
    rwa [Prompt.inputs, hpartition]
  obtain ⟨rfl, htake, hsalt, hpar⟩ := eq_of_hash (Prompt.chunked htok) hchunked' hfree
    (fun input hinput => ⟨prompt, hprom, hinput⟩) hinp' hb hb' hhash hwin
  have hlen : ∀ {salt chunks b},
      (hashChain key prompt.partition salt "" 0 chunks)[i]? = some b → i + 1 ≤ chunks.length := by
    intro salt chunks b hget
    have hlt := (List.getElem?_eq_some_iff.mp hget).1
    rwa [length_hashChain] at hlt
  refine ⟨rfl, ?_, hsalt, ?_⟩
  · rw [← flatten_take_chunksExact (hlen hb), htake, flatten_take_chunksExact (hlen hb')]
  · have hindex := blockIndex_hashChain hb
    have hindex' := blockIndex_hashChain hb'
    have hpart := partition_of_mem_hashChain (mem_of_getElem? hb)
    have hpart' := partition_of_mem_hashChain (mem_of_getElem? hb')
    cases b
    cases b'
    simp_all

lemma unambiguous_of_partition :
    Unambiguous (promptBlocks key prompts) := by
  rintro b ⟨prompt, hprom, hb⟩ b' ⟨prompt', hprom', hb'⟩ hhash
  obtain ⟨i, hi⟩ := mem_iff_getElem?.mp hb
  obtain ⟨j, hj⟩ := mem_iff_getElem?.mp hb'
  exact (eq_of_prompt_hash hwin hprompts hfree hprom hprom' hi hj hhash).2.2.2

end

end Prompts

/-- **Salts and prompts never alias.** In a partition without a window, two chains of complete
blocks share a hash only at the same depth, with the same tokens in every block up to it and the
same salt, or none. Hence every block that a query matches was stored for a prompt with the
query's own salt and tokens. -/
theorem salts_never_alias (key : KeyedDigest) (partition : KvPartition)
    (hwindow : partition.slidingWindow = none) :
    (∀ (cacheSalt cacheSalt' : Option String) (chunks chunks' : List (List ℕ)),
      Chunked partition chunks → Chunked partition chunks' →
      Set.InjOn key.digest { input | input ∈ chainInputs key partition cacheSalt chunks ∨
        input ∈ chainInputs key partition cacheSalt' chunks' } →
      ∀ (i j : ℕ) (b b' : KvStoredBlock),
        (hashChain key partition cacheSalt "" 0 chunks)[i]? = some b →
        (hashChain key partition cacheSalt' "" 0 chunks')[j]? = some b' →
        b.blockHash = b'.blockHash →
        i = j ∧ chunks.take (i + 1) = chunks'.take (i + 1) ∧
          effectiveSalt cacheSalt = effectiveSalt cacheSalt') ∧
    ∀ (implementation : KvLocalityIndexResolvedImplementation) (ttl : ℕ) (calls : List IndexCall)
      (prompts : Set Prompt) (source : KvEventSourceId) (query : KvPrefixQuery) (now : ℕ)
      (m : KvPrefixMatch),
      InPartition partition (insert ⟨partition, query.cacheSalt, query.tokens⟩ prompts) →
      Set.InjOn key.digest
        (promptInputs key (insert ⟨partition, query.cacheSalt, query.tokens⟩ prompts)) →
      (∀ b ∈ storedBlocks calls, b ∈ promptBlocks key prompts) →
      m ∈ (indexMachine implementation ttl key).reply
        ((indexMachine implementation ttl key).after calls)
        (.query source query now) →
      ∀ i < m.matchedTokens / partition.hashBlockSize, ∃ prompt ∈ prompts, ∃ b,
        (prompt.chain key)[i]? = some b ∧
        (∃ call ∈ calls, call.Names source m.placement b.blockHash) ∧
        effectiveSalt prompt.cacheSalt = effectiveSalt query.cacheSalt ∧
        prompt.tokens.take ((i + 1) * partition.hashBlockSize) =
          query.tokens.take ((i + 1) * partition.hashBlockSize) := by
  constructor
  · intro cacheSalt cacheSalt' chunks chunks' hchunks hchunks' hfree i j b b' hb hb' hhash
    obtain ⟨hdepth, htokens, hsalt, -⟩ := eq_of_hash hchunks hchunks' hfree
      (fun input hinput => Or.inl hinput) (fun input hinput => Or.inr hinput) hb hb' hhash hwindow
    exact ⟨hdepth, htokens, hsalt⟩
  · intro implementation ttl calls prompts source query now m hprompts hfree hstored hmatch i hi
    have hasked : (⟨partition, query.cacheSalt, query.tokens⟩ : Prompt) ∈
        insert (⟨partition, query.cacheSalt, query.tokens⟩ : Prompt) prompts := Or.inl rfl
    have hS := unambiguous_of_partition hwindow hprompts hfree
    have hcalls : ∀ b ∈ storedBlocks calls, b ∈ promptBlocks key
        (insert ⟨partition, query.cacheSalt, query.tokens⟩ prompts) := by
      intro b hb
      obtain ⟨prompt, hprompt, hchain⟩ := hstored b hb
      exact ⟨prompt, Or.inr hprompt, hchain⟩
    have hpartition : ∀ b ∈ storedBlocks calls, b.partition = partition := by
      intro b hb
      obtain ⟨prompt, hprompt, hchain⟩ := hstored b hb
      rw [partition_of_mem_hashChain hchain]
      exact (hprompts prompt (Or.inr hprompt)).1
    have hwithin : (((indexMachine implementation ttl key).after calls).facts source).Within
          { b | b ∈ storedBlocks calls } :=
      within_run (hS.mono hcalls) (fun b hb => hb) source
    obtain ⟨groupIdx, partition', k, -, hselects, hchain, htokens, hheld⟩ :=
      KvLocalityIndexes.mem_query hS (coherent_run calls)
        (fun place b u hb => hcalls b (hwithin place b u hb)) (by
          intro place b u hb hselects c hc
          rw [hpartition b (hwithin place b u hb)] at hc
          exact ⟨_, hasked, hc⟩) hmatch
    have hblock : ∀ l < k, ∃ b u, (query.chain key partition')[l]? = some b ∧
        (((indexMachine implementation ttl key).after
          calls).facts source).Holds ⟨m.placement, groupIdx⟩ b u := by
      intro l hl
      obtain ⟨b, u, hb, hpruned⟩ := hheld l hl
      exact ⟨b, u, hb, (hpruned.of_prune (coherent_run calls source)).1⟩
    have hk : 0 < k := by
      refine Nat.pos_of_ne_zero ?_
      rintro rfl
      simp [htokens] at hi
    -- all blocks are stored in the one partition
    obtain rfl : partition' = partition := by
      obtain ⟨b, u, hb, hu⟩ := hblock 0 hk
      rw [← hpartition b (hwithin _ b u hu), partition_of_mem_hashChain (mem_of_getElem? hb)]
    rw [htokens, Nat.mul_div_cancel _ (query.hashBlockSize_of_selects hselects)] at hi
    obtain ⟨b, u, hb, hu⟩ := hblock i hi
    obtain ⟨pre, call, post, hcall, hnames, -⟩ := standing_of_holds hS hcalls hchain
      (fun l a b ha hb => hashChain_linked ha hb) hb hu
    obtain ⟨prompt, hprompt, hmem⟩ := hstored b (hwithin _ b u hu)
    obtain ⟨j, hj⟩ := mem_iff_getElem?.mp hmem
    obtain ⟨rfl, htake, hsalt, -⟩ := eq_of_prompt_hash hwindow hprompts hfree
      (Or.inr hprompt) hasked
      hj hb rfl
    refine ⟨prompt, hprompt, b, hj, ⟨call, ?_, hnames⟩, hsalt, htake⟩
    rw [hcall]
    exact mem_append_right _ mem_cons_self

namespace Salted

/-- A prompt of one token, stored under a salt. -/
def stored : Prompt := ⟨ChildFirst.partition, some "tenant", [1]⟩

/-- The same prompt, asked for without a salt. -/
def asked : Prompt := ⟨ChildFirst.partition, none, [1]⟩

/-- The chain is stored on the device. -/
def calls : List IndexCall :=
  [.apply source (.blockStored (stored.chain lastBytes)
    ⟨.device, .local_⟩) 0]

lemma injOn : Set.InjOn lastBytes.digest
    (promptInputs lastBytes {asked, stored}) := by
  have hinp : ∀ input ∈ asked.inputs lastBytes ++ stored.inputs lastBytes,
      ∀ input' ∈ asked.inputs lastBytes ++ stored.inputs lastBytes,
      lastBytes.digest input = lastBytes.digest input' → input = input' := by
    decide +kernel
  have hmem : ∀ input ∈ promptInputs lastBytes {asked, stored},
      input ∈ asked.inputs lastBytes ++ stored.inputs lastBytes := by
    rintro input ⟨prompt, rfl | rfl, hinput⟩
    · exact mem_append_left _ hinput
    · exact mem_append_right _ hinput
  exact fun input hinput input' hinput' =>
    hinp input (hmem input hinput) input' (hmem input' hinput')

lemma inPartition : InPartition ChildFirst.partition {asked, stored} := by
  rintro prompt (rfl | rfl)
  all_goals exact ⟨rfl, by decide⟩

end Salted

open Salted

/-- A prompt that is stored under a salt is not matched without it. -/
theorem salts_never_alias_unsalted :
    (∀ b ∈ asked.chain lastBytes, ∀ b' ∈ stored.chain lastBytes,
      b.blockHash ≠ b'.blockHash) ∧
    ∀ m ∈ (indexMachine .positionalHash 300 lastBytes).reply
        ((indexMachine .positionalHash 300 lastBytes).after Salted.calls)
        (.query source Elsewhere.query 0),
      m.matchedTokens = 0 := by
  obtain ⟨hchains, hmatches⟩ := salts_never_alias lastBytes ChildFirst.partition rfl
  constructor
  · intro b hb b' hb' hhash
    obtain ⟨i, hi⟩ := mem_iff_getElem?.mp hb
    obtain ⟨j, hj⟩ := mem_iff_getElem?.mp hb'
    have hsame := (hchains none (some "tenant") _ _
      (Prompt.chunked (inPartition asked (Or.inl rfl)).2)
      (Prompt.chunked (inPartition stored (Or.inr rfl)).2)
        ?_ i j b b' hi hj hhash).2.2
    · exact absurd hsame (by decide)
    · refine injOn.mono ?_
      rintro input (hinput | hinput)
      · exact ⟨asked, Or.inl rfl, hinput⟩
      · exact ⟨stored, Or.inr rfl, hinput⟩
  · intro m hm
    by_contra hpos
    have hstored : ∀ b ∈ storedBlocks Salted.calls,
        b ∈ promptBlocks lastBytes {Salted.stored} := by
      have hchain : ∀ b ∈ storedBlocks Salted.calls, b ∈ Salted.stored.chain lastBytes := by
        decide +kernel
      exact fun b hb => ⟨stored, rfl, hchain b hb⟩
    have hfirst : 0 < m.matchedTokens / ChildFirst.partition.hashBlockSize :=
      (Nat.div_pos_iff.mpr ⟨Nat.one_pos, Nat.pos_of_ne_zero hpos⟩)
    obtain ⟨prompt, hprompt, -, -, -, hsalt, -⟩ := hmatches .positionalHash 300 Salted.calls
      {Salted.stored} source Elsewhere.query 0 m Salted.inPartition Salted.injOn hstored hm
      0 hfirst
    rw [Set.mem_singleton_iff.mp hprompt] at hsalt
    exact absurd hsalt (by decide)

end Foretoken.KvLocality
