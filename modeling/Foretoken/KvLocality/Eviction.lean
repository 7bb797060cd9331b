import Foretoken.KvLocality.Delivery
import Foretoken.KvLocality.Kept

/-!
Evictions stay local.

The adapter forgets exactly the blocks that an engine evicts. An index drops whole branches, and
the group if it is told to remove a block that it does not know. So the two views part once a block
above another one is evicted, and an eviction of the lower block in a later event takes unrelated
prompts with it (`parent_then_child_unmatched`).
-/

namespace Foretoken.KvLocality

open List KvLocalityIndexes RankState ChildFirst KvDeltaEvent Machine Table Facts

/-! ### Standing blocks -/

/-- The blocks that a log publishes. -/
def published (log : List KvDeltaEvent) : Set KvStoredBlock :=
  { b | ∃ blocks p, blockStored blocks p ∈ log ∧ b ∈ blocks }

/-- The blocks that stand at each placement: a removal takes a block and all below it. -/
def standingMachine (S : Set KvStoredBlock) :
    Machine (Set (KvPlacement × KvStoredBlock)) KvDeltaEvent Unit where
  init := ∅
  step W event :=
    (match event with
      | .blockStored blocks p => W ∪ { x | x.1 = p ∧ x.2 ∈ blocks }
      | .blockRemoved hashes p _ => { x ∈ W | x.1 = p → ∀ root ∈ hashes, ¬ Under S root x.2 }
      | .allBlocksCleared => ∅, ())

/-- The block and all blocks above it stand. -/
inductive Intact (W : Set (KvPlacement × KvStoredBlock)) (p : KvPlacement) : KvStoredBlock → Prop
  | root {b : KvStoredBlock} (hstands : (p, b) ∈ W) (hroot : b.parentHash = "") : Intact W p b
  | child {a b : KvStoredBlock} (hstands : (p, b) ∈ W) (ha : Intact W p a)
      (hlink : b.parentHash = a.blockHash) : Intact W p b

lemma Intact.stands {W : Set (KvPlacement × KvStoredBlock)} {p : KvPlacement} {b : KvStoredBlock}
    (h : Intact W p b) : (p, b) ∈ W := by
  cases h with
  | root h | child h => exact h

/-- The event removes only intact blocks of a group at a placement. -/
def RemovesIntact (p : KvPlacement) (g : Option ℕ) (W : Set (KvPlacement × KvStoredBlock)) :
    KvDeltaEvent → Prop
  | .blockRemoved hashes p' g' => p' = p → g' = g →
    ∀ hash ∈ hashes, ∃ b, b.blockHash = hash ∧ Intact W p b
  | _ => True

/-- An event as a rank publishes it: a removal names each block once, and its group. -/
def Tidy (S : Set KvStoredBlock) : KvDeltaEvent → Prop
  | .blockStored blocks _ => ∀ b ∈ blocks, b ∈ S
  | .blockRemoved hashes _ groupIdx => hashes.Nodup ∧
      ∀ hash ∈ hashes, ∃ b ∈ S, b.blockHash = hash ∧ b.partition.groupIdx = groupIdx
  | .allBlocksCleared => False

variable {S T : Set KvStoredBlock} {log : List KvDeltaEvent} {event : KvDeltaEvent}
  {p : KvPlacement} {g : Option ℕ} {b : KvStoredBlock}

lemma published_mono {log' : List KvDeltaEvent} (h : log ⊆ log') :
    published log ⊆ published log' := by
  rintro b ⟨bs, p, hmem, hb⟩
  exact ⟨bs, p, h hmem, hb⟩

lemma Tidy.mono (h : Tidy S event) (hsub : S ⊆ T) : Tidy T event := by
  cases event with
  | blockStored => exact fun b hb => hsub (h b hb)
  | blockRemoved =>
    refine ⟨h.1, fun hash hhash => ?_⟩
    obtain ⟨b, hb, hnamed⟩ := h.2 hash hhash
    exact ⟨b, hsub hb, hnamed⟩
  | allBlocksCleared => exact h

/-- A stored block stands, unless a block above it was removed. -/
lemma mem_standing (htidy : ∀ event ∈ log, Tidy S event) {bs : List KvStoredBlock}
    (hstored : blockStored bs p ∈ log) (hb : b ∈ bs)
    (hkept : ∀ hashes g, blockRemoved hashes p g ∈ log →
      ∀ root ∈ hashes, ¬ Under S root b) :
    (p, b) ∈ (standingMachine S).after log := by
  induction log using reverseRecOn with
  | nil => cases hstored
  | append_singleton log event ih =>
    rw [after_concat]
    have hlast : event ∈ log ++ [event] := mem_append_right _ (mem_singleton_self _)
    have hbefore : ∀ {y}, y ∈ log → y ∈ log ++ [event] :=
      fun h => mem_append_left _ h
    rcases mem_append.mp hstored with hold | hnew
    · have hstd := ih (fun event hmem => htidy event (hbefore hmem)) hold
        fun hashes g hmem => hkept hashes g (hbefore hmem)
      cases event with
      | blockStored => exact .inl hstd
      | blockRemoved hashes q g =>
        refine ⟨hstd, ?_⟩
        rintro rfl
        exact hkept hashes g hlast
      | allBlocksCleared => exact (htidy _ hlast).elim
    · rw [← mem_singleton.mp hnew]
      exact .inr ⟨rfl, hb⟩

lemma Lineage.groupIdx_parent (h : Lineage S) {a : KvStoredBlock} (ha : a ∈ S) (hb : b ∈ S)
    (hlink : b.parentHash = a.blockHash) : b.partition.groupIdx = a.partition.groupIdx := by
  obtain ⟨a', ha', hlink', hgroup, -⟩ := h.child b hb (by rw [hlink]; exact h.hash_ne ha)
  rwa [h.unambiguous a ha a' ha' (hlink.symm.trans hlink')]

/-! ### What an index keeps -/

/-- The facts contain every block of the group that stands at the placement. -/
structure Keeps (S : Set KvStoredBlock) (p : KvPlacement) (g : Option ℕ) (time : ℕ → ℕ)
    (W : Set (KvPlacement × KvStoredBlock)) (facts : Facts) : Prop where
  coherent : facts.Coherent
  within : facts.Within S
  timed : ∀ place b u, facts.Holds place b u → ∃ i, u = time i
  stored : ∀ x ∈ W, x.2 ∈ S
  held : ∀ b, (p, b) ∈ W → b.partition.groupIdx = g → facts.Held p b

section Keeps

variable {time : ℕ → ℕ} {W : Set (KvPlacement × KvStoredBlock)} {facts : Facts}

lemma keeps_empty (im : KvLocalityIndexResolvedImplementation) :
    Keeps S p g time ∅ (empty im) where
  coherent := coherent_empty im
  within _ _ _ h := absurd h not_holds_empty
  timed _ _ _ h := absurd h not_holds_empty
  stored _ h := absurd h (Set.notMem_empty _)
  held _ h := absurd h (Set.notMem_empty _)

/-- **Intact blocks are found.** -/
lemma Keeps.known (hS : Lineage S) (h : Keeps S p g time W facts) (hb : Intact W p b)
    (hg : b.partition.groupIdx = g) : facts.Known p b := by
  induction hb with
  | root hstd hroot => exact (h.held _ hstd hg).known h.coherent (.inl hroot)
  | child hstd ha hlink ih =>
    have hgroup := hS.groupIdx_parent (h.stored _ ha.stands) (h.stored _ hstd) hlink
    exact (h.held _ hstd hg).known h.coherent
      (.inr ⟨_, ih (hgroup.symm.trans hg), hlink, hgroup⟩)

/-- **One event.** -/
lemma Keeps.apply (hS : Lineage S) (h : Keeps S p g time W facts) (htidy : Tidy S event)
    (hintact : RemovesIntact p g W event) (i : ℕ) :
    Keeps S p g time ((standingMachine S).next W event) (facts.apply event (time i)) := by
  have hkept : ∀ pl b u, (facts.apply event (time i)).Holds pl b u →
      b ∈ S ∧ ∃ i, u = time i := by
    intro pl b u hb
    cases event with
    | blockStored =>
      rcases hb.of_stored hS.unambiguous h.coherent h.within htidy with ⟨-, hnew, hu⟩ | hold
      · exact ⟨htidy b hnew, i, hu⟩
      · exact ⟨h.within pl b u hold, h.timed pl b u hold⟩
    | blockRemoved =>
      have hold := hb.of_removed h.coherent
      exact ⟨h.within pl b u hold, h.timed pl b u hold⟩
    | allBlocksCleared => exact htidy.elim
  refine ⟨h.coherent.apply event _, fun pl b u hb => (hkept pl b u hb).1,
    fun pl b u hb => (hkept pl b u hb).2, ?_, ?_⟩
  · intro x hx
    cases event with
    | blockStored => exact hx.elim (h.stored x) fun hnew => htidy _ hnew.2
    | blockRemoved => exact h.stored x hx.1
    | allBlocksCleared => exact htidy.elim
  · intro c hstd hc
    cases event with
    | blockStored =>
      refine Held.stored hS h.coherent h.within htidy ?_
      exact hstd.imp (fun hold => h.held c hold hc) id
    | blockRemoved =>
      refine Held.removed hS h.coherent h.within htidy.1 (fun hp hg hash hhash => ?_)
        (h.held c hstd.1 hc) hstd.2
      obtain ⟨r, hr, hb⟩ := hintact hp (hg.trans hc) hash hhash
      -- the hash names one block of one group
      obtain ⟨r', hr', hhash', hgroup⟩ := htidy.2 hash hhash
      rw [hS.unambiguous r' hr' r (h.stored _ hb.stands) (hhash'.trans hr.symm)] at hgroup
      exact ⟨r, hp ▸ h.known hS hb (hgroup.trans (hg.trans hc)), hgroup, hr⟩
    | allBlocksCleared => exact htidy.elim

/-- **The replication of a log.** -/
lemma keeps_replicate (hS : Lineage S) (implementation : KvLocalityIndexResolvedImplementation)
    (ttl : ℕ) (key : KeyedDigest) (source : KvEventSourceId) (time : ℕ → ℕ)
    (htidy : ∀ event ∈ log, Tidy S event)
    (hintact : (standingMachine S).Along (RemovesIntact p g) ∅ log) :
    Keeps S p g time ((standingMachine S).after log)
      (((indexMachine implementation ttl key).after (replicate source time log)).facts source) := by
  induction log using reverseRecOn with
  | nil =>
    have hnew : (new implementation ttl).facts source =
        empty implementation := facts_new source implementation ttl
    change Keeps S p g time ∅ ((new implementation ttl).facts source)
    rw [hnew]
    exact keeps_empty implementation
  | append_singleton log event ih =>
    obtain ⟨hbefore, hlast⟩ := along_concat.mp hintact
    have hkeeps := ih (fun event hmem => htidy event (mem_append_left _ hmem)) hbefore
    rw [replicate_concat, after_concat, after_concat]
    generalize (indexMachine implementation ttl key).after (replicate source time log) = index
      at hkeeps ⊢
    change Keeps S p g time _ ((index.apply source event (time log.length)).facts source)
    rw [facts_apply, if_pos rfl]
    exact hkeeps.apply hS
      (htidy event (mem_append_right _ (mem_singleton_self _))) hlast _

end Keeps

/-! ### Prompts -/

section Prompt

variable {key : KeyedDigest} {query : KvPrefixQuery} {partition : KvPartition}

/-- What lies above a block of a prompt belongs to the prompt. -/
lemma mem_chain_of_under (hS : Lineage S) (hchain : ∀ b ∈ query.chain key partition, b ∈ S)
    {root : KvBlockHash} (hb : b ∈ query.chain key partition) (h : Under S root b) :
    ∃ a ∈ query.chain key partition, a.blockHash = root := by
  induction h with
  | self hroot => exact ⟨_, hb, hroot⟩
  | child ha _ hlink ih =>
    rcases parent_of_mem_hashChain hb with ⟨hroot, -⟩ | ⟨a', ha', hlink', -⟩
    · exact absurd (hlink.symm.trans hroot) (hS.hash_ne ha)
    · refine ih ?_
      rwa [hS.unambiguous _ ha a' (hchain a' ha') (hlink.symm.trans hlink')]

lemma intact_of_chain {W : Set (KvPlacement × KvStoredBlock)}
    (hstd : ∀ b ∈ query.chain key partition, (p, b) ∈ W) {i : ℕ}
    (hi : (query.chain key partition)[i]? = some b) : Intact W p b := by
  induction i generalizing b with
  | zero =>
    exact .root (hstd b (mem_of_getElem? hi)) (RadixTree.parentHash_hashChain_zero hi)
  | succ i ih =>
    have hlt : i < (query.chain key partition).length := by
      have := (List.getElem?_eq_some_iff.mp hi).1
      omega
    have hget := getElem?_eq_getElem hlt
    exact .child (hstd b (mem_of_getElem? hi)) (ih hget) (hashChain_linked hget hi)

end Prompt

/-! ### Regular events -/

namespace RankState

/-- At a placement no two raw hashes name the same block. -/
def Identified (rank : RankState) : Prop :=
  rank.rawBlocks.entries.Pairwise fun e e' =>
    e.1.placement = e'.1.placement → e.2.block ≠ e'.2.block

/-- What an engine that agrees with the rank sends: stores below retained blocks, and removals
of blocks that are retained at the placement and in the group they name. -/
def Expects (rank : RankState) : EngineEvent → Prop
  | .cleared => False
  | .removed place groupIdx raws => ∀ raw ∈ raws, rank.rawBlocks.entries.any fun entry =>
    entry.1.raw = raw && selects place groupIdx entry.1.placement entry.1.groupIdx
  | .stored store => (rank.parentOf store).isSome = true
  | .leftOut => True

instance Expects.decidable (rank : RankState) : ∀ event, Decidable (rank.Expects event)
  | .cleared => .isFalse id
  | .removed place groupIdx raws =>
    inferInstanceAs (Decidable (∀ raw ∈ raws, rank.rawBlocks.entries.any fun entry =>
      entry.1.raw = raw && selects place groupIdx entry.1.placement entry.1.groupIdx))
  | .stored store => inferInstanceAs (Decidable ((rank.parentOf store).isSome = true))
  | .leftOut => .isTrue trivial

instance Identified.decidable (rank : RankState) : Decidable rank.Identified :=
  inferInstanceAs (Decidable (rank.rawBlocks.entries.Pairwise fun e e' =>
    e.1.placement = e'.1.placement → e.2.block ≠ e'.2.block))

end RankState

/-- A rank that ingests one event after the other. -/
def rankMachine (adapter : KvEventAdapter) (fresh : String) : Machine RankState Value Bool where
  init := .new fresh
  step := adapter.ingestEvent

/-- The event is valid and expected, and raw hashes go on to identify blocks. -/
def Regular (adapter : KvEventAdapter) (rank : RankState) (value : Value) : Prop :=
  ∃ event ∈ adapter.decode value,
    rank.Expects event ∧ (rank.perform adapter.key event).Identified

instance Regular.decidable (adapter : KvEventAdapter) (rank : RankState) (value : Value) :
    Decidable (Regular adapter rank value) :=
  match h : adapter.decode value with
  | none => .isFalse fun ⟨_, hmem, _⟩ => by
      simp [h] at hmem
  | some event =>
    decidable_of_iff (rank.Expects event ∧ (rank.perform adapter.key event).Identified)
      ⟨fun hevent => ⟨event, h, hevent⟩, fun ⟨_, hmem, hevent⟩ => by
        rw [h] at hmem
        cases hmem
        exact hevent⟩

namespace RankState

variable {rank : RankState} {key : KeyedDigest} {store : PendingStore}

/-- What a rank retains it has published; its removals are tidy, and the blocks it publishes
name their parents. -/
structure Steady (rank : RankState) : Prop where
  pending : rank.pendingStores = []
  retained : ∀ k stored, rank.rawBlocks.lookup k = some stored →
    stored.placement = k.placement ∧ stored.block.partition.groupIdx = k.groupIdx ∧
      ∃ blocks, blockStored blocks k.placement ∈ rank.ring.log ∧ stored.block ∈ blocks
  tidy : ∀ event ∈ rank.ring.log, Tidy (published rank.ring.log) event
  named : ∀ b ∈ published rank.ring.log,
    ∃ bytes : List UInt8, bytes.length = 32 ∧ b.blockHash = Base64.encode bytes
  child : ∀ b ∈ published rank.ring.log, b.parentHash ≠ "" →
    ∃ a ∈ published rank.ring.log, b.parentHash = a.blockHash ∧
      b.partition.groupIdx = a.partition.groupIdx ∧ b.blockIndex = a.blockIndex + 1

lemma Steady.lineage (h : rank.Steady) (hfree : Unambiguous (published rank.ring.log)) :
    Lineage (published rank.ring.log) :=
  ⟨hfree, h.named, h.child⟩

lemma steady_new (fresh : String) : (new fresh).Steady where
  pending := rfl
  retained _ _ h := by cases h
  tidy _ h := by cases h
  named := by
    rintro b ⟨bs, p, hmem, -⟩
    cases hmem
  child := by
    rintro b ⟨bs, p, hmem, -⟩
    cases hmem

lemma Identified.eq (h : rank.Identified) {k k' : RawKey} {st st' : StoredBlock}
    (hk : rank.rawBlocks.lookup k = some st) (hk' : rank.rawBlocks.lookup k' = some st')
    (hplace : k.placement = k'.placement) (hblock : st.block = st'.block) : k = k' := by
  by_contra hne
  have : Std.Symm fun e e' : Sigma fun _ : RawKey => StoredBlock =>
      e.1.placement = e'.1.placement → e.2.block ≠ e'.2.block :=
    ⟨fun e e' hee' hplace hblock => hee' hplace.symm hblock.symm⟩
  exact Pairwise.forall h (AList.mem_lookup_iff.mp hk) (AList.mem_lookup_iff.mp hk')
    (fun heq => hne (congrArg Sigma.fst heq)) hplace hblock

lemma applyPendingStore_eq (hpend : rank.pendingStores = []) {parent : KvBlockHash × ℕ}
    (hpar : rank.parentOf store = some parent) :
    rank.applyPendingStore key store = publishStore key rank store parent := by
  have hrelease : ∀ keys (r : RankState), r.pendingStores = [] →
      foldl releaseChildren (r, []) keys = (r, []) := by
    intro keys r hr
    have hone : ∀ k, releaseChildren (r, []) k = (r, []) := by
      cases r
      simp_all [releaseChildren]
    induction keys with
    | nil => rfl
    | cons k keys ih => rw [foldl_cons, hone, ih]
  have hstep : resolveStep key (rank, [store]) = some (publishStore key rank store parent, []) := by
    simp only [resolveStep, hpar]
    rw [hrelease]
    rw [pendingStores_publishStore, hpend]
  rw [applyPendingStore, Loop.run_eq (resolveStep_size key), hstep]
  rfl

/-- **A store.** -/
lemma Steady.publishStore (h : rank.Steady) (hwell : store.WellFormed) {parent : KvBlockHash × ℕ}
    (hpar : rank.parentOf store = some parent) :
    (publishStore key rank store parent).Steady := by
  generalize hblocks : hashChain key store.partition store.cacheSalt parent.1 parent.2
    (store.rawBlocks.map (·.2)) = blocks
  have hlog := log_publishStore key rank store parent
  rw [hblocks] at hlog
  generalize hlog' : (RankState.publishStore key rank store parent).ring.log = log' at hlog
  have hbefore : rank.ring.log ⊆ log' := by
    rw [hlog]
    exact subset_append_left _ _
  have hcases : ∀ event ∈ log', event ∈ rank.ring.log ∨
    event = .blockStored blocks store.placement := by
    intro event hmem
    rw [hlog, mem_append] at hmem
    refine hmem.imp_right fun hnew => ?_
    split_ifs at hnew <;> simp_all
  have hnew : ∀ b ∈ blocks, blockStored blocks store.placement ∈ log' := by
    intro b hb
    have hne : store.rawBlocks ≠ [] := by
      rintro hnil
      rw [← hblocks, hnil] at hb
      cases hb
    simp [hlog, hne]
  have hmem : ∀ b ∈ blocks, b ∈ published log' := fun b hb => ⟨blocks, _, hnew b hb, hb⟩
  have hpub : ∀ b ∈ published log', b ∈ published rank.ring.log ∨ b ∈ blocks := by
    rintro b ⟨others, p, hevent, hb⟩
    rcases hcases _ hevent with hold | heq
    · exact .inl ⟨others, p, hold, hb⟩
    · cases heq
      exact .inr hb
  have hpart : ∀ b ∈ blocks, b.partition.groupIdx = store.groupIdx := by
    intro b hb
    rw [← hblocks] at hb
    rw [partition_of_mem_hashChain hb, hwell.groupIdx]
  refine ⟨?_, ?_, ?_, ?_, ?_⟩
  · rw [pendingStores_publishStore, h.pending]
  · intro k stored hlook
    rw [rawBlocks_publishStore, hblocks] at hlook
    rw [hlog']
    rcases mem_of_lookup_inserts hlook with hins | hold
    · obtain ⟨⟨raw, block⟩, hentry, heq⟩ := mem_map.mp hins
      obtain ⟨rfl, rfl⟩ := Prod.mk.inj heq
      have hb := (of_mem_zip hentry).2
      exact ⟨rfl, hpart block hb, blocks, hnew block hb, hb⟩
    · obtain ⟨hplace, hgroup, others, hevent, hb⟩ := h.retained k stored hold
      exact ⟨hplace, hgroup, others, hbefore hevent, hb⟩
  · rw [hlog']
    intro event hevent
    rcases hcases event hevent with hold | rfl
    · exact (h.tidy event hold).mono (published_mono hbefore)
    · exact hmem
  · rw [hlog']
    intro b hb
    rcases hpub b hb with hold | hb
    · exact h.named b hold
    · rw [← hblocks] at hb
      exact named_of_mem_hashChain hb
  · rw [hlog']
    intro b hb hne
    rcases hpub b hb with hold | hb
    · obtain ⟨a, ha, hlink⟩ := h.child b hold hne
      exact ⟨a, published_mono hbefore ha, hlink⟩
    · have hb' := hb
      rw [← hblocks] at hb'
      rcases parent_of_mem_hashChain hb' with ⟨hlink, hindex⟩ | ⟨a, ha, hlink, hindex⟩
      · -- the first block lies below the retained parent
        rcases parentOf_eq_some hpar with ⟨-, rfl⟩ | ⟨k, stored, hkey, -, hlook, rfl⟩
        · exact absurd hlink hne
        · obtain ⟨-, hgroup, others, hevent, hmember⟩ := h.retained k stored hlook
          refine ⟨stored.block, ⟨others, _, hbefore hevent, hmember⟩, hlink, ?_, hindex⟩
          obtain ⟨raw, -, rfl⟩ := Option.map_eq_some_iff.mp hkey
          rw [hpart b hb, hgroup]
          rfl
      · rw [hblocks] at ha
        exact ⟨a, hmem a ha, hlink, by rw [hpart b hb, hpart a ha], hindex⟩

/-! ### Removals -/

/-- What the loop over the raw hashes of a removal has done. -/
structure Removing (rank : RankState) (state : RankState × Table RemovalKey (List KvBlockHash)) :
    Prop where
  ring : state.1.ring = rank.ring
  pending : state.1.pendingStores = []
  left : ∀ k stored, state.1.rawBlocks.lookup k = some stored →
    rank.rawBlocks.lookup k = some stored
  removed : ∀ place hashes, state.2.lookup place = some hashes → hashes.Nodup ∧
    ∀ hash ∈ hashes, ∃ k stored, rank.rawBlocks.lookup k = some stored ∧
      state.1.rawBlocks.lookup k = none ∧ k.placement = place.placement ∧
      k.groupIdx = place.groupIdx ∧ stored.block.blockHash = hash

/-- A removal names the placement and group of the block. -/
lemma removalKey_eq {pl : Option KvPlacement} {g : Option ℕ} {k : RawKey}
    (h : selects pl g k.placement k.groupIdx = true) :
    pl.getD k.placement = k.placement ∧ g.or k.groupIdx = k.groupIdx := by
  cases pl <;> cases g <;> simp_all [selects]

/-- **One raw hash.** -/
lemma Removing.removeRaw (hrank : rank.Steady) (hid : rank.Identified)
    (hfree : Unambiguous (published rank.ring.log)) {place : Option KvPlacement}
    {groupIdx : Option ℕ} {state : RankState × Table RemovalKey (List KvBlockHash)}
    (h : Removing rank state) (raw : List UInt8) :
    Removing rank (removeRaw place groupIdx state raw) := by
  have hpub : ∀ {k stored}, rank.rawBlocks.lookup k = some stored →
      stored.block ∈ published rank.ring.log := by
    intro k stored hlook
    obtain ⟨-, -, blocks, hevent, hb⟩ := hrank.retained k stored hlook
    exact ⟨blocks, _, hevent, hb⟩
  rw [RankState.removeRaw, h.pending]
  split
  · rename_i k stored hmatching
    obtain ⟨hentry, htest⟩ := mem_filter.mp (hmatching ▸ mem_singleton_self _)
    have hlook : state.1.rawBlocks.lookup k = some stored := AList.mem_lookup_iff.mpr hentry
    have hbefore := h.left k stored hlook
    obtain ⟨hplace, hgroup, -⟩ := hrank.retained k stored hbefore
    rw [Bool.and_eq_true] at htest
    obtain ⟨hkey, hkey'⟩ := removalKey_eq htest.2
    rw [hplace, hgroup, hkey, hkey']
    refine ⟨h.ring, rfl, fun x other hother => ?_, fun at_ hashes hhashes => ?_⟩
    · rw [lookup_erase_eq] at hother
      split_ifs at hother
      exact h.left x other hother
    · have hold : ∀ hashes', state.2.lookup at_ = some hashes' → ∀ hash ∈ hashes',
          ∃ x other, rank.rawBlocks.lookup x = some other ∧
            (state.1.rawBlocks.erase k).lookup x = none ∧ x.placement = at_.placement ∧
            x.groupIdx = at_.groupIdx ∧ other.block.blockHash = hash := by
        intro hashes' hlook' hash hhash
        obtain ⟨x, other, hx, hgone, hrest⟩ := (h.removed at_ hashes' hlook').2 hash hhash
        refine ⟨x, other, hx, ?_, hrest⟩
        rw [lookup_erase_eq, hgone, ite_self]
      rw [lookup_modify] at hhashes
      split_ifs at hhashes with hat
      · subst hat
        cases hhashes
        have hself : (state.1.rawBlocks.erase k).lookup k = none := by
          rw [lookup_erase_eq, if_pos rfl]
        cases hlook' : state.2.lookup ⟨k.placement, k.groupIdx⟩ with
        | none =>
          refine ⟨nodup_singleton _, fun hash hhash => ?_⟩
          rw [mem_singleton.mp hhash]
          exact ⟨k, stored, hbefore, hself, rfl, rfl, rfl⟩
        | some hashes' =>
          refine ⟨Nodup.append (h.removed _ _ hlook').1 (nodup_singleton _) ?_, ?_⟩
          · -- the block of a hash that was removed before is no longer retained
            rw [disjoint_singleton]
            intro hmem
            obtain ⟨x, other, hx, hgone, hsame, -, hhash⟩ := (h.removed _ _ hlook').2 _ hmem
            have hblock := hfree _ (hpub hx) _ (hpub hbefore) hhash
            rw [hid.eq hx hbefore hsame hblock, hlook] at hgone
            cases hgone
          · intro hash hhash
            rcases mem_append.mp hhash with hhash | hhash
            · exact hold hashes' hlook' hash hhash
            · rw [mem_singleton.mp hhash]
              exact ⟨k, stored, hbefore, hself, rfl, rfl, rfl⟩
      · exact ⟨(h.removed at_ hashes hhashes).1, hold hashes hhashes⟩
  · exact ⟨h.ring, rfl, h.left, h.removed⟩

/-- **A removal.** -/
lemma Steady.evict (h : rank.Steady) (hid : rank.Identified)
    (hfree : Unambiguous (published rank.ring.log)) (place : Option KvPlacement)
    (groupIdx : Option ℕ) (raws : List (List UInt8)) : (rank.evict place groupIdx raws).Steady := by
  have hrem : Removing rank (raws.foldl (removeRaw place groupIdx) (rank, ∅)) := by
    have hstart : Removing rank (rank, ∅) :=
      ⟨rfl, h.pending, fun _ _ hlook => hlook, fun _ _ hlook => by cases hlook⟩
    exact foldlRecOn raws _ hstart fun state hstate raw _ =>
      hstate.removeRaw h hid hfree raw
  rw [RankState.evict]
  generalize raws.foldl (removeRaw place groupIdx) (rank, ∅) = state at hrem ⊢
  obtain ⟨left, removed⟩ := state
  dsimp only
  generalize hevts : (removed.toList.map fun entry =>
    blockRemoved entry.2 entry.1.placement entry.1.groupIdx) = events
  have hfold : removed.toList.foldl (fun rank entry =>
      rank.push (.blockRemoved entry.2 entry.1.placement entry.1.groupIdx)) left =
      events.foldl push left := by
    rw [← hevts, foldl_map]
  have hring : left.ring = rank.ring := hrem.ring
  have hlog : (events.foldl push left).ring.log = rank.ring.log ++ events := by
    rw [log_foldl_push, hring]
  have hcases : ∀ event ∈ events, ∃ place hashes, removed.lookup place = some hashes ∧
      event = .blockRemoved hashes place.placement place.groupIdx := by
    intro event hmem
    rw [← hevts] at hmem
    obtain ⟨⟨place, hashes⟩, hentry, rfl⟩ := mem_map.mp hmem
    exact ⟨place, hashes, mem_toList.mp hentry, rfl⟩
  have hpub : published (rank.ring.log ++ events) = published rank.ring.log := by
    refine Set.Subset.antisymm ?_ (published_mono (subset_append_left _ _))
    rintro b ⟨blocks, p, hmem, hb⟩
    rcases mem_append.mp hmem with hold | hnew
    · exact ⟨blocks, p, hold, hb⟩
    · obtain ⟨place, hashes, -, heq⟩ := hcases _ hnew
      cases heq
  rw [hfold]
  refine ⟨?_, fun k stored hlook => ?_, ?_, ?_, ?_⟩
  · rw [foldl_push]
    exact hrem.pending
  · rw [foldl_push] at hlook
    obtain ⟨hplace, hgroup, blocks, hevent, hb⟩ :=
      h.retained k stored (hrem.left k stored hlook)
    rw [hlog]
    exact ⟨hplace, hgroup, blocks, mem_append_left _ hevent, hb⟩
  · rw [hlog, hpub]
    intro event hmem
    rcases mem_append.mp hmem with hold | hnew
    · exact h.tidy event hold
    · obtain ⟨place, hashes, hlook, rfl⟩ := hcases event hnew
      obtain ⟨hnodup, hnamed⟩ := hrem.removed place hashes hlook
      refine ⟨hnodup, fun hash hhash => ?_⟩
      obtain ⟨k, stored, hk, -, -, hgroup, hblock⟩ := hnamed hash hhash
      obtain ⟨-, hgroup', blocks, hevent, hb⟩ := h.retained k stored hk
      exact ⟨stored.block, ⟨blocks, _, hevent, hb⟩, hblock, hgroup'.trans hgroup⟩
  · rw [hlog, hpub]
    exact h.named
  · rw [hlog, hpub]
    exact h.child

end RankState

/-! ### Runs -/

section Run

variable {adapter : KvEventAdapter} {fresh : String} {rank : RankState} {value : Value}

/-- **One event.** -/
lemma Regular.steady (h : Regular adapter rank value) (hrank : rank.Steady)
    (hid : rank.Identified) (hfree : Unambiguous (published rank.ring.log)) :
    ((rankMachine adapter fresh).next rank value).Steady ∧
      ((rankMachine adapter fresh).next rank value).Identified := by
  obtain ⟨event, hdec, hexpects, hnext⟩ := h
  have hingest := adapter.ingestEvent_decode rank value
  rw [hdec] at hingest
  rw [Machine.next, rankMachine]
  dsimp only
  rw [hingest]
  refine ⟨?_, hnext⟩
  cases event with
  | cleared => exact hexpects.elim
  | removed pl g raws => exact hrank.evict hid hfree pl g raws
  | stored =>
    obtain ⟨pa, hpar⟩ := Option.isSome_iff_exists.mp hexpects
    have hwell := KvEventAdapter.wellFormed_of_decode hdec
    rw [perform, applyPendingStore_eq hrank.pending hpar]
    exact hrank.publishStore hwell hpar
  | leftOut => exact hrank

/-- **A run of regular events.** -/
lemma steady_run {es : List Value}
    (hreg : (rankMachine adapter fresh).Along (Regular adapter) (.new fresh) es)
    (hfree : Unambiguous (published ((rankMachine adapter fresh).after es).ring.log)) :
    ((rankMachine adapter fresh).after es).Steady ∧
      ((rankMachine adapter fresh).after es).Identified := by
  induction es using reverseRecOn with
  | nil => exact ⟨steady_new fresh, Pairwise.nil⟩
  | append_singleton es value ih =>
    obtain ⟨hbefore, hlast⟩ := along_concat.mp hreg
    rw [after_concat] at hfree ⊢
    change Regular adapter ((rankMachine adapter fresh).after es) value at hlast
    generalize (rankMachine adapter fresh).after es = rank at *
    have hgrows := (KvEventAdapter.ingestEvent_continues adapter rank value).2
    have hfree' := hfree.mono (published_mono hgrows.subset)
    obtain ⟨hstdy, hid⟩ := ih hbefore hfree'
    exact hlast.steady hstdy hid hfree'

end Run

/-- **Evictions stay local.** For every sequence of regular events of a rank, and for both indexes
after its replication: a prompt all of whose blocks are retained at a placement, and none of whose
blocks was removed there, is matched in full at this placement, unless its locality is unspecified,
if only intact blocks of its group are removed there. -/
theorem evictions_stay_local (adapter : KvEventAdapter) (fresh : String) (events : List Value)
    (partition : KvPartition) (p : KvPlacement)
    (hregular : (rankMachine adapter fresh).Along (Regular adapter) (.new fresh) events)
    (hfree : Unambiguous (published ((rankMachine adapter fresh).after events).ring.log))
    (hintact : (standingMachine (published
      ((rankMachine adapter fresh).after events).ring.log)).Along
        (RemovesIntact p partition.groupIdx) ∅ ((rankMachine adapter fresh).after events).ring.log)
    (implementation : KvLocalityIndexResolvedImplementation) (ttl : ℕ)
    (source : KvEventSourceId) (time : ℕ → ℕ) (query : KvPrefixQuery) (now : ℕ)
    (hsingle : query.matchAllGroups = false) (hselects : query.selects partition = true)
    (hlocality : p.locality ≠ .unspecified)
    (hfresh : ∀ i, now ≤ time i + ttl) (hne : query.chain adapter.key partition ≠ [])
    (hstored : ∀ b ∈ query.chain adapter.key partition, ∃ k stored, k.placement = p ∧
      ((rankMachine adapter fresh).after events).rawBlocks.lookup k = some stored ∧
      stored.block = b)
    (hkept : ∀ hashes groupIdx, blockRemoved hashes p groupIdx ∈
      ((rankMachine adapter fresh).after events).ring.log →
      ∀ b ∈ query.chain adapter.key partition, b.blockHash ∉ hashes) :
    ∃ m ∈ (indexMachine implementation ttl adapter.key).reply
        ((indexMachine implementation ttl adapter.key).after
          (replicate source time ((rankMachine adapter fresh).after events).ring.log))
        (.query source query now),
      m.placement = p ∧
        (query.chain adapter.key partition).length * partition.hashBlockSize ≤
          m.matchedTokens := by
  obtain ⟨hsteady, -⟩ := steady_run hregular hfree
  generalize (rankMachine adapter fresh).after events = rank at *
  have hS := hsteady.lineage hfree
  have hkeeps := keeps_replicate hS implementation ttl adapter.key source time hsteady.tidy hintact
  generalize hindex : (indexMachine implementation ttl adapter.key).after
    (replicate source time rank.ring.log) = index at hkeeps ⊢
  have hcoh : index.Coherent := by
    rw [← hindex]
    exact coherent_run _
  have httl : index.ttl = ttl := by
    rw [← hindex]
    exact ttl_run _
  -- every block of the prompt was published at the placement
  have hpublished : ∀ b ∈ query.chain adapter.key partition,
      ∃ blocks, blockStored blocks p ∈ rank.ring.log ∧ b ∈ blocks := by
    intro b hb
    obtain ⟨k, stored, rfl, hlookup, rfl⟩ := hstored b hb
    exact (hsteady.retained k stored hlookup).2.2
  have hchain : ∀ b ∈ query.chain adapter.key partition, b ∈ published rank.ring.log := by
    intro b hb
    obtain ⟨blocks, hevent, hmem⟩ := hpublished b hb
    exact ⟨blocks, p, hevent, hmem⟩
  have hstands : ∀ b ∈ query.chain adapter.key partition,
      (p, b) ∈ (standingMachine (published rank.ring.log)).after rank.ring.log := by
    intro b hb
    obtain ⟨blocks, hevent, hmem⟩ := hpublished b hb
    refine mem_standing hsteady.tidy hevent hmem
      fun hashes groupIdx hremoved root hroot hunder => ?_
    obtain ⟨a, ha, rfl⟩ := mem_chain_of_under hS hchain hb hunder
    exact hkept hashes groupIdx hremoved a ha hroot
  refine exists_mem_query hcoh hsingle hselects hlocality ?_ hne ?_
  · intro place b u hu
    obtain ⟨i, rfl⟩ := hkeeps.timed place b u hu
    rw [httl]
    exact hfresh i
  · intro b hb
    obtain ⟨i, hi⟩ := mem_iff_getElem?.mp hb
    exact hkeeps.known hS (intact_of_chain hstands hi) (by rw [partition_of_mem_hashChain hb])

namespace Evicted

/-- The block of another prompt. -/
def other : Value :=
  .map [(.string "type", .string "BlockStored"), (.string "block_hashes", .array [.integer 9]),
    (.string "token_ids", .array [.integer 5]), (.string "block_size", .integer 1)]

/-- The engine evicts a block. -/
def removal (raw : ℤ) : Value :=
  .map [(.string "type", .string "BlockRemoved"), (.string "block_hashes", .array [.integer raw])]

/-- The memory of the device. -/
def place : KvPlacement := ⟨.device, .local_⟩

/-- A prompt. -/
def query (tokens : List ℕ) : KvPrefixQuery := { Elsewhere.query with tokens := tokens }

/-- The blocks of a prompt. -/
def chain (tokens : List ℕ) : List KvStoredBlock :=
  (query tokens).chain adapter.key partition

/-- The rank after some events. -/
def rank (events : List Value) : RankState :=
  (rankMachine adapter "epoch").after events

/-- What the query reports after the replication. -/
def matched (implementation : KvLocalityIndexResolvedImplementation) (events : List Value)
    (tokens : List ℕ) : List KvPrefixMatch :=
  (indexMachine implementation 300 adapter.key).reply
    ((indexMachine implementation 300 adapter.key).after
      (replicate LateParent.source (fun _ => 0) (rank events).ring.log))
    (.query LateParent.source (query tokens) 0)

/-- The second block of the prompt is evicted. -/
def leaf : List Value := [root, child, removal 8]

/-- The first block is evicted, and then the second. -/
def parentThenChild : List Value :=
  [root, child, other, removal 7, removal 8]

lemma log_leaf : (rank leaf).ring.log =
    [.blockStored (chain [1]) place, .blockStored ((chain [1, 2]).drop 1) place,
      .blockRemoved (((chain [1, 2]).drop 1).map (·.blockHash)) place none] := by
  decide +kernel

lemma log_parentThenChild : (rank parentThenChild).ring.log =
    [.blockStored (chain [1]) place, .blockStored ((chain [1, 2]).drop 1) place,
      .blockStored (chain [5]) place, .blockRemoved ((chain [1]).map (·.blockHash)) place none,
      .blockRemoved (((chain [1, 2]).drop 1).map (·.blockHash)) place none] := by
  decide +kernel

lemma unambiguous {log : List KvDeltaEvent}
    (h : ∀ b ∈ storedBlocks (log.map fun event => .apply LateParent.source event 0),
      ∀ b' ∈ storedBlocks (log.map fun event => .apply LateParent.source event 0),
      b.blockHash = b'.blockHash → b = b') : Unambiguous (published log) := by
  have hmem : ∀ b ∈ published log,
      b ∈ storedBlocks (log.map fun event => .apply LateParent.source event 0) := by
    rintro b ⟨blocks, p, hevent, hb⟩
    exact mem_flatMap.mpr ⟨_, mem_map_of_mem hevent, hb⟩
  exact fun b hb b' hb' => h b (hmem b hb) b' (hmem b' hb')

lemma unambiguous_leaf : Unambiguous (published (rank leaf).ring.log) :=
  unambiguous (by decide +kernel)

/-- The evicted block lies below one that is still there. -/
lemma intact_leaf : (standingMachine (published (rank leaf).ring.log)).Along
    (RemovesIntact place none) ∅ (rank leaf).ring.log := by
  rw [log_leaf]
  refine ⟨trivial, trivial, fun _ _ hash hhash => ?_, trivial⟩
  obtain ⟨b, hb, rfl⟩ := mem_map.mp hhash
  have hlink : ∀ a ∈ chain [1], ∀ b ∈ (chain [1, 2]).drop 1,
      a.parentHash = "" ∧ b.parentHash = a.blockHash := by
    decide +kernel
  obtain ⟨a, ha⟩ : ∃ a, a ∈ chain [1] := ⟨_, mem_cons_self⟩
  refine ⟨b, rfl, .child (.inr ⟨rfl, hb⟩) (.root (.inl (.inr ⟨rfl, ha⟩)) ?_) ?_⟩
  · exact (hlink a ha b hb).1
  · exact (hlink a ha b hb).2

end Evicted

open Evicted

/-- The first block is still matched after the second one was evicted. -/
theorem evictions_stay_local_leaf :
    ∃ m ∈ matched .radixTree leaf [1], m.placement = place ∧
      1 ≤ m.matchedTokens := by
  have hkept : ∀ a ∈ chain [1], ∀ b ∈ (chain [1, 2]).drop 1,
      a.blockHash ≠ b.blockHash := by
    decide +kernel
  refine evictions_stay_local adapter "epoch" leaf partition place (by decide +kernel)
    unambiguous_leaf intact_leaf .radixTree 300 LateParent.source (fun _ => 0) (query [1]) 0
    rfl (by decide +kernel) (by decide) (fun _ => Nat.zero_le _) (by decide +kernel) ?_ ?_
  · intro b hb
    refine ⟨⟨place, none, toBeBytes 7⟩, ⟨b, place⟩, rfl, ?_, rfl⟩
    revert b
    decide +kernel
  · intro hashes groupIdx hremoved b hb hmem
    have hlog := log_leaf
    rw [rank] at hlog
    rw [hlog] at hremoved
    simp only [mem_cons, reduceCtorEq, blockRemoved.injEq, not_mem_nil,
      false_or, or_false] at hremoved
    rw [hremoved.1] at hmem
    obtain ⟨c, hc, heq⟩ := mem_map.mp hmem
    exact hkept b hb c hc heq.symm

/-- **Removing a block and later the one below it discards an unrelated prompt.** -/
theorem parent_then_child_unmatched :
    (rankMachine adapter "epoch").Along (Regular adapter) (.new "epoch")
      parentThenChild ∧
    Unambiguous (published (rank parentThenChild).ring.log) ∧
    chain [5] ≠ [] ∧
    (∀ b ∈ chain [5], (rank parentThenChild).rawBlocks.lookup
      ⟨place, none, toBeBytes 9⟩ = some ⟨b, place⟩) ∧
    (∀ hashes groupIdx, blockRemoved hashes place groupIdx ∈
      (rank parentThenChild).ring.log →
      ∀ b ∈ chain [5], b.blockHash ∉ hashes) ∧
    matched .positionalHash parentThenChild [5] = [] ∧
    matched .radixTree parentThenChild [5] = [] := by
  refine ⟨by decide +kernel, ?_, by decide +kernel, by decide +kernel, ?_, by decide +kernel,
    by decide +kernel⟩
  · exact unambiguous (by decide +kernel)
  · intro hashes groupIdx hremoved b hb hmem
    have hkept : ∀ b ∈ chain [5], ∀ c ∈ chain [1, 2],
        c.blockHash ≠ b.blockHash := by
      decide +kernel
    have hshort : ∀ c ∈ chain [1], c ∈ chain [1, 2] := by decide +kernel
    rw [log_parentThenChild] at hremoved
    simp only [mem_cons, reduceCtorEq, blockRemoved.injEq, not_mem_nil,
      false_or, or_false] at hremoved
    rcases hremoved with ⟨rfl, -⟩ | ⟨rfl, -⟩
    · obtain ⟨c, hc, heq⟩ := mem_map.mp hmem
      exact hkept b hb c (hshort c hc) heq
    · obtain ⟨c, hc, heq⟩ := mem_map.mp hmem
      exact hkept b hb c (mem_of_mem_drop hc) heq

end Foretoken.KvLocality
