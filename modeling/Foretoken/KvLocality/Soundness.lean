import Foretoken.KvLocality.Matching

/-!
Soundness of prefix matches: every block that a match covers was named by a store at that
placement, and nothing has withdrawn it since.

A block may be stored before its ancestors. If an ancestor is removed while a block in between is
missing, the index cannot know that the block belongs to the branch, and when the missing blocks
are stored later the chain is complete again (`removed_ancestor_matched`).

Hashes are assumed to name blocks, for the blocks that the calls store and those of the query's own
chains; no hash of a fixed length could be injective on all inputs.
-/

namespace Foretoken.KvLocality

open List KvLocalityIndexes Facts Machine

namespace IndexCall

/-- The blocks that a call stores. -/
def storedBlocks : IndexCall → List KvStoredBlock
  | .apply _ (.blockStored blocks _) _ => blocks
  | _ => []

/-- The time of a call that has one. -/
def time : IndexCall → Option ℕ
  | .apply _ _ now => some now
  | .touchSource _ now => some now
  | .query _ _ now => some now
  | _ => none

/-- The call stores the block at the placement under the source. -/
def Names (source : KvEventSourceId) (placement : KvPlacement) (hash : KvBlockHash) :
    IndexCall → Prop
  | .apply s (.blockStored blocks p) _ =>
    s = source ∧ p = placement ∧ ∃ b ∈ blocks, b.blockHash = hash
  | _ => False

/-- The call stores the block at the time, or touches its source. -/
def Observes (source : KvEventSourceId) (placement : KvPlacement) (hash : KvBlockHash) (u : ℕ)
    (call : IndexCall) : Prop :=
  call.time = some u ∧
    (call.Names source placement hash ∨ call = .touchSource source u)

/-- The call withdraws the block at a position of a chain. -/
def Withdraws (chain : List KvStoredBlock) (i : ℕ) (source : KvEventSourceId)
    (place : RadixTree.TreeKey) (index : KvLocalityIndexes) : IndexCall → Prop
  | .apply s .allBlocksCleared _ => s = source
  | .apply s (.blockRemoved hashes p g) _ =>
    s = source ∧ p = place.placement ∧ g = place.groupIdx ∧
      ∃ j ≤ i, (∃ a, chain[j]? = some a ∧ a.blockHash ∈ hashes) ∧
        ∀ l, j < l → l < i → ∃ b u, chain[l]? = some b ∧ (index.facts source).Holds place b u
  | .clearSource s => s = source
  | .clearEventSource id => id = source.eventSourceId
  | _ => False

end IndexCall

/-- The blocks that a sequence of calls stores. -/
def storedBlocks (calls : List IndexCall) : List KvStoredBlock :=
  calls.flatMap IndexCall.storedBlocks

/-- The blocks of the query's own chains, in the stored partitions that it selects. -/
def queriedBlocks (calls : List IndexCall) (query : KvPrefixQuery) (key : KeyedDigest) :
    List KvStoredBlock :=
  (((storedBlocks calls).map (·.partition)).filter query.selects).flatMap (query.chain key)

/-- The block at a position of a chain has a last store at the placement under the source,
and no call after it has withdrawn the block. -/
def Standing (implementation : KvLocalityIndexResolvedImplementation) (ttl : ℕ)
    (key : KeyedDigest) (calls : List IndexCall) (source : KvEventSourceId)
    (place : RadixTree.TreeKey) (chain : List KvStoredBlock) (i : ℕ) (block : KvStoredBlock) :
    Prop :=
  ∃ pre store post, calls = pre ++ store :: post ∧
    store.Names source place.placement block.blockHash ∧
    (∀ call ∈ post, ¬ call.Names source place.placement block.blockHash) ∧
    ∀ mid call rest, post = mid ++ call :: rest →
      ¬ call.Withdraws chain i source place
        ((indexMachine implementation ttl key).after (pre ++ store :: mid))

/-- The block was stored, or its source touched, within the last `ttl`. -/
def RecentlyObserved (ttl : ℕ) (calls : List IndexCall) (source : KvEventSourceId)
    (placement : KvPlacement) (block : KvStoredBlock) (now : ℕ) : Prop :=
  ∃ call ∈ calls, ∃ u, call.Observes source placement block.blockHash u ∧ u ≤ now ∧ now ≤ u + ttl

section Run

variable {implementation : KvLocalityIndexResolvedImplementation} {ttl : ℕ} {key : KeyedDigest}
  {S : Set KvStoredBlock} {index : KvLocalityIndexes} {call : IndexCall}
  {source : KvEventSourceId} {place : RadixTree.TreeKey} {b : KvStoredBlock} {u : ℕ}

lemma coherent_next (h : index.Coherent) :
    ((indexMachine implementation ttl key).next index call).Coherent := by
  cases call with
  | apply s event now => exact h.apply s event now
  | clearSource s => exact h.clearSource s
  | clearEventSource id => exact h.clearEventSource id
  | touchSource s now => exact h.touchSource s now
  | query s query now => exact h.query s query key now

section

variable (hS : Unambiguous S) (hcoh : index.Coherent) (hin : (index.facts source).Within S)
include hS hcoh hin

/-- **What a call leaves held.** -/
lemma holds_next (hblocks : ∀ b ∈ call.storedBlocks, b ∈ S)
    (h : (((indexMachine implementation ttl key).next index call).facts source).Holds place b u) :
    (call.Observes source place.placement b.blockHash u ∧
      (b ∈ call.storedBlocks ∧ call.Names source place.placement b.blockHash ∨
        ∃ v, (index.facts source).Holds place b v)) ∨
    (index.facts source).Holds place b u := by
  cases call with
  | apply s event now =>
    have h' : ((index.apply s event now).facts source).Holds place b u := h
    rw [facts_apply] at h'
    split_ifs at h' with hs
    · subst hs
      cases event with
      | blockStored blocks =>
        rcases h'.of_stored hS (hcoh source) hin hblocks with ⟨rfl, hb, rfl⟩ | hold
        · have hnames : IndexCall.Names source place.placement b.blockHash
              (.apply source (.blockStored blocks place.placement) u) :=
            ⟨rfl, rfl, b, hb, rfl⟩
          exact Or.inl ⟨⟨rfl, Or.inl hnames⟩, Or.inl ⟨hb, hnames⟩⟩
        · exact Or.inr hold
      | blockRemoved => exact Or.inr (h'.of_removed (hcoh source))
      | allBlocksCleared => exact absurd h' not_holds_of_cleared
    · exact Or.inr h'
  | clearSource s =>
    have h' : ((index.clearSource s).facts source).Holds place b u := h
    rw [facts_clearSource] at h'
    split_ifs at h'
    · exact absurd h' not_holds_empty
    · exact Or.inr h'
  | clearEventSource id =>
    have h' : ((index.clearEventSource id).facts source).Holds place b u := h
    rw [facts_clearEventSource] at h'
    split_ifs at h'
    · exact absurd h' not_holds_empty
    · exact Or.inr h'
  | touchSource s now =>
    have h' : ((index.touchSource s now).facts source).Holds place b u := h
    rw [facts_touchSource] at h'
    split_ifs at h' with hs
    · subst hs
      rcases h'.of_touch with ⟨rfl, v, hv⟩ | hold
      · exact Or.inl ⟨⟨rfl, Or.inr rfl⟩, Or.inr ⟨v, hv⟩⟩
      · exact Or.inr hold
    · exact Or.inr h'
  | query s query now =>
    have h' : ((index.query s query key now).1.facts source).Holds place b u := h
    rw [facts_query _ _ hcoh] at h'
    exact Or.inr (h'.of_prune (hcoh source)).1

/-- A block that is left held is not withdrawn. -/
lemma not_withdraws_of_holds {chain : List KvStoredBlock} (hchain : ∀ b ∈ chain, b ∈ S)
    (hlinked : ∀ l a b, chain[l]? = some a → chain[l + 1]? = some b → b.parentHash = a.blockHash)
    {i : ℕ} (hb : chain[i]? = some b)
    (h : (((indexMachine implementation ttl key).next index call).facts source).Holds place b u) :
    ¬ call.Withdraws chain i source place index := by
  cases call with
  | apply s event now =>
    have h' : ((index.apply s event now).facts source).Holds place b u := h
    rw [facts_apply] at h'
    cases event with
    | blockStored => exact id
    | blockRemoved =>
      rintro ⟨rfl, rfl, rfl, j, hj, ⟨a, ha, hnamed⟩, hbetw⟩
      rw [if_pos rfl] at h'
      exact not_holds_of_ancestor_removed hS (hcoh s) hin hchain hlinked hj hb ha hnamed
        hbetw h'
    | allBlocksCleared =>
      rintro rfl
      rw [if_pos rfl] at h'
      exact not_holds_of_cleared h'
  | clearSource s =>
    rintro rfl
    have h' : ((index.clearSource s).facts s).Holds place b u := h
    rw [facts_clearSource, if_pos rfl] at h'
    exact not_holds_empty h'
  | clearEventSource =>
    rintro rfl
    have h' : ((index.clearEventSource source.eventSourceId).facts source).Holds place b u := h
    rw [facts_clearEventSource, if_pos rfl] at h'
    exact not_holds_empty h'
  | touchSource | query => exact id

end

lemma coherent_run (cs : List IndexCall) :
    ((indexMachine implementation ttl key).after cs).Coherent :=
  Reachable.rec_on (reachable_after cs)
    (coherent_new implementation ttl) fun _ _ _ h => coherent_next h

lemma not_holds_init :
    ¬ ((indexMachine implementation ttl key).init.facts source).Holds place b u := by
  intro h
  have h' : ((new implementation ttl).facts source).Holds place b u := h
  rw [facts_new] at h'
  exact not_holds_empty h'

lemma within_run (hS : Unambiguous S) {calls : List IndexCall}
    (hblocks : ∀ b ∈ storedBlocks calls, b ∈ S) (source : KvEventSourceId) :
    (((indexMachine implementation ttl key).after calls).facts source).Within S := by
  induction calls using reverseRecOn with
  | nil =>
    intro place b u h
    exact absurd h not_holds_init
  | append_singleton calls call ih =>
    have hblocks' : (∀ b ∈ storedBlocks calls, b ∈ S) ∧ ∀ b ∈ call.storedBlocks, b ∈ S := by
      simpa [storedBlocks, or_imp, forall_and] using hblocks
    intro place b u h
    rw [after_concat] at h
    rcases holds_next hS (coherent_run calls) (ih hblocks'.1) hblocks'.2 h with
      ⟨-, ⟨hb, -⟩ | ⟨v, hv⟩⟩ | hold
    · exact hblocks'.2 b hb
    · exact ih hblocks'.1 place b v hv
    · exact ih hblocks'.1 place b u hold

lemma ttl_next : ((indexMachine implementation ttl key).next index call).ttl = index.ttl := by
  cases call with
  | apply s event now => exact ttl_apply s event now
  | clearSource s => exact ttl_clearSource s
  | clearEventSource id => exact ttl_clearEventSource id
  | touchSource s now => exact ttl_touchSource s now
  | query s query now => exact ttl_query s query key now

lemma ttl_run (cs : List IndexCall) :
    ((indexMachine implementation ttl key).after cs).ttl = ttl :=
  Reachable.rec_on (I := fun index : KvLocalityIndexes => index.ttl = ttl)
    (reachable_after cs)
    (by cases implementation <;> rfl) fun _ _ _ h => ttl_next.trans h

lemma storedBlocks_split {calls pre post : List IndexCall} {call : IndexCall}
    (hsplit : calls = pre ++ call :: post) (hblocks : ∀ b ∈ storedBlocks calls, b ∈ S) :
    (∀ b ∈ storedBlocks pre, b ∈ S) ∧ ∀ b ∈ call.storedBlocks, b ∈ S := by
  subst hsplit
  rw [storedBlocks, flatMap_append, flatMap_cons] at hblocks
  exact ⟨fun b hb => hblocks b (mem_append_left _ hb),
    fun b hb => hblocks b (mem_append_right _ (mem_append_left _ hb))⟩

section

variable {calls : List IndexCall} (hS : Unambiguous S) (hblocks : ∀ b ∈ storedBlocks calls, b ∈ S)
include hS hblocks

/-- A held block has a last store and is not withdrawn since. -/
lemma standing_of_holds {chain : List KvStoredBlock} (hchain : ∀ b ∈ chain, b ∈ S)
    (hlinked : ∀ l a b, chain[l]? = some a → chain[l + 1]? = some b → b.parentHash = a.blockHash)
    {i : ℕ} (hb : chain[i]? = some b)
    (h : (((indexMachine implementation ttl key).after calls).facts source).Holds place b u) :
    Standing implementation ttl key calls source place chain i b := by
  refine since (fun index => ∃ u, (index.facts source).Holds place b u)
    (IndexCall.Names source place.placement b.blockHash)
    (fun index => IndexCall.Withdraws chain i source place index) ?_ ?_ ⟨u, h⟩
  · rintro ⟨v, hv⟩
    exact not_holds_init hv
  · rintro pre call post hsplit ⟨v, hv⟩
    obtain ⟨hpre, hcall⟩ := storedBlocks_split hsplit hblocks
    have hin : (((indexMachine implementation ttl key).after pre).facts source).Within S :=
      within_run hS hpre source
    have hkept := not_withdraws_of_holds hS (coherent_run pre) hin hchain hlinked hb hv
    rcases holds_next hS (coherent_run pre) hin hcall hv with ⟨-, ⟨-, hnames⟩ | ⟨w, hw⟩⟩ | hold
    · exact Or.inl hnames
    · exact Or.inr ⟨⟨w, hw⟩, hkept⟩
    · exact Or.inr ⟨⟨v, hold⟩, hkept⟩

/-- A held block was observed by a store or a touch. -/
lemma exists_observation
    (h : (((indexMachine implementation ttl key).after calls).facts source).Holds place b u) :
    ∃ call ∈ calls, call.Observes source place.placement b.blockHash u := by
  have hlast := since (M := indexMachine implementation ttl key)
    (fun index => (index.facts source).Holds place b u)
    (IndexCall.Observes source place.placement b.blockHash u) (fun _ _ => False)
    not_holds_init ?_ h
  · obtain ⟨pre, call, post, rfl, hcall, -⟩ := hlast
    exact ⟨call, mem_append_right _ mem_cons_self, hcall⟩
  · intro pre call post hsplit hv
    obtain ⟨hpre, hcall⟩ := storedBlocks_split hsplit hblocks
    rcases holds_next hS (coherent_run pre) (within_run hS hpre source) hcall hv with
      ⟨hobs, -⟩ | hold
    · exact Or.inl hobs
    · exact Or.inr ⟨hold, id⟩

end

end Run

lemma Unambiguous.mono {S T : Set KvStoredBlock} (h : Unambiguous T) (hsub : S ⊆ T) :
    Unambiguous S :=
  fun b hb b' hb' => h b (hsub hb) b' (hsub hb')

/-- **Prefix matches are sound.** For every sequence of calls, if a query of one group
reports matched tokens at a placement, then for some partition of its block size every
block that the match covers on the query's own hash chain was named by a store at that
placement under that source; since its last store no call has withdrawn it; and it was
stored or touched within the last `ttl`. -/
theorem prefix_match_sound (implementation : KvLocalityIndexResolvedImplementation) (ttl : ℕ)
    (key : KeyedDigest) (calls : List IndexCall) (source : KvEventSourceId)
    (query : KvPrefixQuery) (now : ℕ) (m : KvPrefixMatch)
    (hfree : Unambiguous {b | b ∈ storedBlocks calls ++ queriedBlocks calls query key})
    (htimes : (calls.filterMap IndexCall.time ++ [now]).Pairwise (· ≤ ·))
    (hsingle : query.matchAllGroups = false)
    (hmatch : m ∈ (indexMachine implementation ttl key).reply
      ((indexMachine implementation ttl key).after calls)
      (.query source query now)) :
    ∃ partition, query.selects partition ∧ partition.hashBlockSize ∣ m.matchedTokens ∧
      ∀ i < m.matchedTokens / partition.hashBlockSize,
        ∃ block, (query.chain key partition)[i]? = some block ∧
          Standing implementation ttl key calls source ⟨m.placement, query.groupIdx⟩
            (query.chain key partition) i block ∧
          RecentlyObserved ttl calls source m.placement block now := by
  set M := indexMachine implementation ttl key
  have hcalls : ∀ b ∈ storedBlocks calls, b ∈ storedBlocks calls ++ queriedBlocks calls query key :=
    fun b hb => mem_append_left _ hb
  have hstored : ((M.after calls).facts source).Within {b | b ∈ storedBlocks calls} :=
    within_run (hfree.mono hcalls) (fun b hb => hb) source
  have hchain : ∀ place b u, ((M.after calls).facts source).Holds place b u →
      query.selects b.partition → ∀ c ∈ query.chain key b.partition,
        c ∈ storedBlocks calls ++ queriedBlocks calls query key := by
    intro place b u hb hselects c hc
    refine mem_append_right _ (mem_flatMap.mpr ⟨b.partition, ?_, hc⟩)
    exact mem_filter.mpr ⟨mem_map.mpr ⟨b, hstored place b u hb, rfl⟩, hselects⟩
  obtain ⟨groupIdx, partition, k, hgroup, hselects, hpartition, htokens, hheld⟩ :=
    mem_query hfree (coherent_run calls)
      (fun place b u hb => hcalls b (hstored place b u hb)) hchain hmatch
  rw [hgroup hsingle] at hheld
  have hsize : 0 < partition.hashBlockSize := query.hashBlockSize_of_selects hselects
  refine ⟨partition, hselects, htokens ▸ Dvd.intro_left k rfl, fun i hi => ?_⟩
  rw [htokens, Nat.mul_div_cancel _ hsize] at hi
  obtain ⟨block, u, hblock, hpruned⟩ := hheld i hi
  obtain ⟨hblock', htime⟩ := hpruned.of_prune (coherent_run calls source)
  rw [ttl_run] at htime
  refine ⟨block, hblock, ?_, ?_⟩
  · exact standing_of_holds hfree hcalls hpartition
      (fun l a b ha hb => hashChain_linked ha hb) hblock hblock'
  · obtain ⟨call, hcall, hobserves⟩ := exists_observation hfree hcalls hblock'
    have hle : u ≤ now := (pairwise_append.mp htimes).2.2 u
      (mem_filterMap.mpr ⟨call, hcall, hobserves.1⟩) now (mem_singleton_self now)
    exact ⟨call, hcall, u, hobserves, hle, by omega⟩

/-! ### A parent that comes late -/

namespace LateParent

/-- A digest for the example: the end of the input, read backwards. -/
def lastBytes : KeyedDigest where
  digest input := (input.reverse ++ List.replicate 32 0).take 32
  length_digest input := by
    rw [List.length_take, List.length_append, List.length_replicate]
    omega

/-- The first rank of the model. -/
def source : KvEventSourceId := ⟨"model:dp:0", "model", "epoch", 0⟩

/-- The tree of the device's memory. -/
def place : RadixTree.TreeKey := ⟨⟨.device, .local_⟩, some 0⟩

/-- Blocks of one token. -/
def partition : KvPartition :=
  ⟨"revision", "scope", .normalizedKeyedBlake3V1, 1, some 0, "full_attention", none⟩

/-- A prompt of three blocks of one token. -/
def query : KvPrefixQuery :=
  ⟨[1, 2, 3], none, "revision", "scope", .normalizedKeyedBlake3V1, some 0, false,
    "full_attention", none⟩

/-- The blocks of the prompt. -/
def chain : List KvStoredBlock := query.chain lastBytes partition

/-- The first and the third block are stored and the first is removed, all before the
second is known; then the first two are stored. -/
def calls : List IndexCall :=
  [.apply source (.blockStored (chain.take 1) place.placement) 0,
    .apply source (.blockStored (chain.drop 2) place.placement) 1,
    .apply source (.blockRemoved ((chain.take 1).map (·.blockHash)) place.placement
      place.groupIdx) 2,
    .apply source (.blockStored (chain.take 2) place.placement) 3]

/-- What the query reports after the calls. -/
def matched (implementation : KvLocalityIndexResolvedImplementation) : List KvPrefixMatch :=
  (indexMachine implementation 300 lastBytes).reply
    ((indexMachine implementation 300 lastBytes).after calls) (.query source query 4)

lemma matched_positionalHash : matched .positionalHash = [⟨place.placement, 3⟩] := by
  decide +kernel

lemma matched_radixTree : matched .radixTree = [⟨place.placement, 3⟩] := by
  decide +kernel

lemma mem_matched_radixTree : ⟨place.placement, 3⟩ ∈ matched .radixTree := by
  rw [matched_radixTree]
  exact mem_singleton_self _

lemma unambiguous :
    Unambiguous {b | b ∈ storedBlocks calls ++ queriedBlocks calls query lastBytes} := by
  have hlist : ∀ b ∈ storedBlocks calls ++ queriedBlocks calls query lastBytes,
      ∀ b' ∈ storedBlocks calls ++ queriedBlocks calls query lastBytes,
        b.blockHash = b'.blockHash → b = b' := by
    decide +kernel
  exact hlist

lemma ordered : (calls.filterMap IndexCall.time ++ [4]).Pairwise (· ≤ ·) := by decide

lemma chain_eq : ∃ first second third, chain = [first, second, third] ∧
    first.blockHash ≠ third.blockHash ∧ second.blockHash ≠ third.blockHash := by
  have hlen : chain.length = 3 := by decide +kernel
  have hnodup : (chain.map (·.blockHash)).Nodup := by decide +kernel
  obtain ⟨first, second, third, hchain⟩ := length_eq_three.mp hlen
  rw [hchain] at hnodup
  simp only [map_cons, map_nil, nodup_cons, mem_cons, not_or] at hnodup
  exact ⟨first, second, third, hchain, hnodup.1.2.1, hnodup.2.1.1⟩

end LateParent

open LateParent

/-- The prompt whose middle block came last meets the theorem. -/
theorem prefix_match_sound_late :
    ∃ partition, query.selects partition ∧ partition.hashBlockSize ∣ 3 ∧
      ∀ i < 3 / partition.hashBlockSize,
        ∃ block, (query.chain lastBytes partition)[i]? = some block ∧
          Standing .radixTree 300 lastBytes calls source
            place (query.chain lastBytes partition) i block ∧
          RecentlyObserved 300 calls source place.placement block
            4 :=
  prefix_match_sound .radixTree 300 lastBytes calls source
    query 4 ⟨place.placement, 3⟩ unambiguous ordered
    rfl mem_matched_radixTree

/-- **A removed ancestor does not always end a match.** Both implementations report all
three blocks of the prompt, although the first block was removed at the placement and for
the group after the last store of the third. -/
theorem removed_ancestor_matched :
    Unambiguous {b | b ∈ storedBlocks calls ++
      queriedBlocks calls query lastBytes} ∧
    (calls.filterMap IndexCall.time ++ [4]).Pairwise (· ≤ ·) ∧
    query.matchAllGroups = false ∧
    matched .positionalHash = [⟨place.placement, 3⟩] ∧
    matched .radixTree = [⟨place.placement, 3⟩] ∧
    ∃ first second third, chain = [first, second, third] ∧
      ∃ pre store post, calls = pre ++ store :: post ∧
        store.Names source place.placement third.blockHash ∧
        (∀ call ∈ post,
          ¬ call.Names source place.placement third.blockHash) ∧
        .apply source (.blockRemoved [first.blockHash] place.placement
          place.groupIdx) 2 ∈ post := by
  refine ⟨unambiguous, ordered, rfl, matched_positionalHash,
    matched_radixTree, ?_⟩
  obtain ⟨first, second, third, hchain, hfirst, hsecond⟩ := chain_eq
  refine ⟨first, second, third, hchain, calls.take 1, _, calls.drop 2, rfl,
    ?_, ?_, ?_⟩
  · rw [hchain]
    exact ⟨rfl, rfl, third, mem_singleton_self third, rfl⟩
  · simp [calls, hchain, IndexCall.Names, hfirst, hsecond]
  · simp [calls, hchain]

end Foretoken.KvLocality
