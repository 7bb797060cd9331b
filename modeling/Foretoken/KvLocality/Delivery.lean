import Foretoken.KvLocality.Contents
import Foretoken.KvLocality.Interchange
import Foretoken.KvLocality.Stream

/-!
Stores that are delivered in any order.

An engine with an offloading connector may publish the blocks of a prompt before those above them.
The adapter keeps such a store until its parent is known. If no store of a chain is missing, none
is left waiting: the one with the shortest prompt would have its parent resolved.
-/

namespace Foretoken.KvLocality

open List Option RankState Prompt Loop

open Holdings

namespace RankState

variable {key : KeyedDigest} {content : Contents} {D : Set PendingStore}
  {state next : RankState × List PendingStore} {store : PendingStore} {rank : RankState}

/-! ### Releasing what waits -/

section

variable (ks : List RawKey) (state : RankState × List PendingStore)

lemma rawBlocks_foldl_releaseChildren :
    (ks.foldl releaseChildren state).1.rawBlocks = state.1.rawBlocks := by
  induction ks generalizing state with
  | nil => rfl
  | cons k ks ih => exact ih _

lemma ring_foldl_releaseChildren :
    (ks.foldl releaseChildren state).1.ring = state.1.ring := by
  induction ks generalizing state with
  | nil => rfl
  | cons k ks ih => exact ih _

end

lemma mem_pendingStores_foldl_releaseChildren {ks : List RawKey} :
    store ∈ (ks.foldl releaseChildren state).1.pendingStores ↔
      store ∈ state.1.pendingStores ∧ ∀ k ∈ ks, store.parentKey ≠ some k := by
  induction ks generalizing state with
  | nil => simp
  | cons k ks ih =>
    rw [foldl_cons, ih, releaseChildren, mem_filter, decide_eq_true_eq, and_assoc,
      forall_mem_cons]

lemma mem_queue_foldl_releaseChildren {ks : List RawKey} :
    store ∈ (ks.foldl releaseChildren state).2 ↔ store ∈ state.2 ∨
        (store ∈ state.1.pendingStores ∧ ∃ k ∈ ks, store.parentKey = some k) := by
  induction ks generalizing state with
  | nil => simp
  | cons k ks ih =>
    rw [foldl_cons, ih, releaseChildren]
    by_cases hk : store.parentKey = some k <;> simp [hk]

/-! ### Where the stores are -/

/-- The stores that were delivered are resolved, wait for a block that is not known, or are
in the queue. -/
structure Delivering (key : KeyedDigest) (content : Contents) (D : Set PendingStore)
    (state : RankState × List PendingStore) : Prop where
  faithful : state.1.Faithful key content
  named : ∀ k stored, state.1.rawBlocks.lookup k = some stored → ∃ store ∈ D, k ∈ store.keys
  waiting : ∀ store ∈ state.1.pendingStores,
    ∃ k, store.parentKey = some k ∧ state.1.rawBlocks.lookup k = none
  within : ∀ store, store ∈ state.1.pendingStores ∨ store ∈ state.2 → store ∈ D
  accounted : ∀ store ∈ D, store ∈ state.1.pendingStores ∨ store ∈ state.2 ∨
    ∀ k ∈ store.keys, (state.1.rawBlocks.lookup k).isSome = true

lemma delivering_new (f : String) : Delivering key content ∅ (new f, []) where
  faithful _ _ h := by cases h
  named _ _ h := by cases h
  waiting _ h := by cases h
  within _ h := by rcases h with h | h <;> cases h
  accounted _ h := absurd h (Set.notMem_empty _)

lemma parentOf_eq_none (h : rank.parentOf store = none) :
    ∃ k, store.parentKey = some k ∧ rank.rawBlocks.lookup k = none := by
  revert h
  fun_cases parentOf with
  | case1 k hkey => exact fun h => ⟨k, hkey, map_eq_none_iff.mp h⟩
  | case2 => simp

lemma parentOf_eq_some {pa : KvBlockHash × ℕ} (h : rank.parentOf store = some pa) :
    (store.parentKey = none ∧ pa = ("", 0)) ∨
      ∃ k st, store.parentKey = some k ∧ k.placement = store.placement ∧
        rank.rawBlocks.lookup k = some st ∧
        pa = (st.block.blockHash, st.block.blockIndex + 1) := by
  revert h
  fun_cases parentOf with
  | case1 k hkey =>
    intro h
    obtain ⟨st, hlook, rfl⟩ := map_eq_some_iff.mp h
    obtain ⟨raw, -, rfl⟩ := map_eq_some_iff.mp hkey
    exact .inr ⟨_, st, hkey, rfl, hlook, rfl⟩
  | case2 hkey => exact fun h => .inl ⟨hkey, (some.inj h).symm⟩

/-- **One round.** -/
lemma Delivering.resolveStep (h : Delivering key content D state)
    (hD : ∀ store ∈ D, store.WellFormed ∧ store.Truthful content)
    (hstep : resolveStep key state = some next) : Delivering key content D next := by
  obtain ⟨rank, queue⟩ := state
  cases queue with
  | nil => cases hstep
  | cons store =>
    have hstore : store ∈ D := h.within store (.inr mem_cons_self)
    obtain ⟨hwell, htrue⟩ := hD store hstore
    rw [resolveStep] at hstep
    cases hpar : rank.parentOf store with
    | none =>
      rw [hpar] at hstep
      cases hstep
      refine ⟨h.faithful, h.named, ?_, ?_, ?_⟩
      · simp only [mem_append, mem_singleton]
        rintro y (hold | rfl)
        exacts [h.waiting y hold, parentOf_eq_none hpar]
      · grind [h.within]
      · grind [h.accounted]
    | some =>
      rw [hpar] at hstep
      cases hstep
      have hpub := h.faithful.publishStore hwell htrue hpar
      refine ⟨?_, ?_, ?_, ?_, ?_⟩
      · intro k st hlook
        rw [rawBlocks_foldl_releaseChildren] at hlook
        exact hpub k st hlook
      · intro k st hlook
        rw [rawBlocks_foldl_releaseChildren] at hlook
        by_cases hk : k ∈ store.keys
        · exact ⟨store, hstore, hk⟩
        · rw [lookup_publishStore_of_notMem hk] at hlook
          exact h.named k st hlook
      · intro y hother
        rw [mem_pendingStores_foldl_releaseChildren, pendingStores_publishStore] at hother
        obtain ⟨k, hkey, hnone⟩ := h.waiting y hother.1
        refine ⟨k, hkey, ?_⟩
        rw [rawBlocks_foldl_releaseChildren, lookup_publishStore_of_notMem, hnone]
        exact fun hk => hother.2 k hk hkey
      · simp only [mem_pendingStores_foldl_releaseChildren, mem_queue_foldl_releaseChildren,
          pendingStores_publishStore]
        grind [h.within]
      · intro y hother
        rw [mem_pendingStores_foldl_releaseChildren, mem_queue_foldl_releaseChildren,
          pendingStores_publishStore, rawBlocks_foldl_releaseChildren]
        rcases h.accounted y hother with hold | hqueue | hknown
        · by_cases hrel : ∃ k ∈ store.rawBlocks.map (store.rawKey ·.1), y.parentKey = some k
          · exact .inr (.inl (.inr ⟨hold, hrel⟩))
          · exact .inl ⟨hold, fun k hk hkey => hrel ⟨k, hk, hkey⟩⟩
        · rcases mem_cons.mp hqueue with rfl | hqueue
          · exact .inr (.inr fun k hk => isSome_lookup_publishStore (.inl hk) _)
          · exact .inr (.inl (.inl hqueue))
        · exact .inr (.inr fun k hk => isSome_lookup_publishStore (.inr (hknown k hk)) _)

/-- **The loop is left with an empty queue.** -/
lemma queue_applyPendingStore (key : KeyedDigest) (rank : RankState) (store : PendingStore) :
    (run (resolveStep key) resolveSize (rank, [store])).2 = [] := by
  have hends := run_ends (resolveStep_size key) (rank, [store])
  generalize run (resolveStep key) resolveSize (rank, [store]) = result at hends
  obtain ⟨rank', queue⟩ := result
  cases queue with
  | nil => rfl
  | cons y => cases hpar : rank'.parentOf y <;> simp [resolveStep, hpar] at hends

section

variable (h : Delivering key content D (rank, []))
include h

lemma Delivering.queued (store : PendingStore) :
    Delivering key content (insert store D) (rank, [store]) where
  faithful := h.faithful
  named k st hlook := (h.named k st hlook).imp fun y hy => ⟨.inr hy.1, hy.2⟩
  waiting := h.waiting
  within := by grind [h.within]
  accounted := by grind [h.accounted]

/-- **No store is left waiting**: the one with the shortest prompt need not. -/
lemma Delivering.pendingStores_eq (hD : ∀ store ∈ D, store.WellFormed ∧ store.Truthful content)
    (hclosed : ∀ store ∈ D, ∀ k, store.parentKey = some k → ∃ y ∈ D, k ∈ y.keys) :
    rank.pendingStores = [] := by
  have hnone : ∀ n, ∀ store ∈ rank.pendingStores,
    (store.base content).tokens.length = n → False := by
    intro n
    induction n using Nat.strong_induction_on with
    | _ n ih =>
      intro store hstore hn
      obtain ⟨k, hkey, hunknown⟩ := h.waiting store hstore
      obtain ⟨y, hother, hk⟩ := hclosed store (h.within store (.inl hstore)) k hkey
      rcases h.accounted y hother with hwait | hqueue | hknown
      · refine ih _ ?_ y hwait rfl
        obtain ⟨hwell, htrue⟩ := hD y hother
        -- the parent is a block of the other store, which therefore has a shorter prompt above it
        obtain ⟨b, hblock, rfl⟩ := mem_map.mp hk
        obtain ⟨i, hi⟩ := mem_iff_getElem?.mp hblock
        have hbase : store.base content = content (y.rawKey b.1) := by
          rw [PendingStore.base, hkey]
        have hfirst : b ∈ y.rawBlocks.take (i + 1) := by
          refine mem_iff_getElem?.mpr ⟨i, ?_⟩
          rw [getElem?_take_of_lt (Nat.lt_succ_self i), hi]
        have hsize : 0 < ((y.rawBlocks.take (i + 1)).map (·.2)).flatten.length := by
          refine length_pos_of_ne_nil fun hnil => ?_
          have hempty := flatten_eq_nil_iff.mp hnil _ (mem_map_of_mem hfirst)
          have hlen := hwell.complete b hblock
          rw [hempty] at hlen
          exact hwell.blockSize.ne hlen
        rw [← hn, hbase, htrue.named i b hi, extend, length_append]
        omega
      · cases hqueue
      · have hsome := hknown k hk
        simp [hunknown] at hsome
  exact eq_nil_iff_forall_not_mem.mpr fun store hstore => hnone _ store hstore rfl

lemma Delivering.isSome_lookup (hpend : rank.pendingStores = []) (hstore : store ∈ D) {k : RawKey}
    (hk : k ∈ store.keys) :
    (rank.rawBlocks.lookup k).isSome = true := by
  have hknown := h.accounted store hstore
  simp only [hpend, not_mem_nil, false_or] at hknown
  exact hknown k hk

/-- **The stores determine what is retained.** -/
lemma Delivering.lookup_eq {rank' : RankState} (h' : Delivering key content D (rank', []))
    (hpend : rank.pendingStores = []) (hpend' : rank'.pendingStores = []) (k : RawKey) :
    rank.rawBlocks.lookup k = rank'.rawBlocks.lookup k := by
  have hsome : ∀ {r r' : RankState}, Delivering key content D (r, []) →
      Delivering key content D (r', []) → r'.pendingStores = [] → ∀ stored,
      r.rawBlocks.lookup k = some stored → r'.rawBlocks.lookup k = some stored := by
    intro r r' hr hr' hnone stored hlook
    obtain ⟨store, hstore, hk⟩ := hr.named k stored hlook
    obtain ⟨stored', hlook'⟩ := isSome_iff_exists.mp (hr'.isSome_lookup hnone hstore hk)
    obtain ⟨hplace, -, hlast⟩ := hr.faithful k stored hlook
    obtain ⟨hplace', -, hlast'⟩ := hr'.faithful k stored' hlook'
    have heq : stored' = stored := by
      cases stored
      cases stored'
      simp_all
    rw [hlook', heq]
  refine ext fun stored => ⟨?_, ?_⟩
  · exact hsome h h' hpend' stored
  · exact hsome h' h hpend stored

end

end RankState

open RankState

/-! ### Replication -/

/-- The calls that replicate a log, each event at its time. -/
def replicate (source : KvEventSourceId) (time : ℕ → ℕ) (log : List KvDeltaEvent) :
    List IndexCall :=
  log.mapIdx fun i event => .apply source event (time i)

lemma replicate_concat (source : KvEventSourceId) (time : ℕ → ℕ) (log : List KvDeltaEvent)
    (e : KvDeltaEvent) :
    replicate source time (log ++ [e]) =
      replicate source time log ++ [.apply source e (time log.length)] :=
  mapIdx_concat

/-- What an index holds after the replication of a log. -/
noncomputable def replicated (ttl : ℕ) (source : KvEventSourceId) (time : ℕ → ℕ)
    (log : List KvDeltaEvent) : Holdings :=
  (holdingsMachine ttl).after (replicate source time log) source

lemma replicated_concat (ttl : ℕ) (source : KvEventSourceId) (time : ℕ → ℕ)
    (log : List KvDeltaEvent) (e : KvDeltaEvent) :
    replicated ttl source time (log ++ [e]) =
      (replicated ttl source time log).apply e (time log.length) := by
  rw [replicated, replicate_concat, Machine.after_concat]
  exact if_pos rfl

/-- A replica holds what the rank retains, and has been told of it in an admissible way. -/
structure Mirrored (S : Set KvStoredBlock) (ttl : ℕ) (source : KvEventSourceId) (time : ℕ → ℕ)
    (rank : RankState) : Prop where
  admitted : (holdingsMachine ttl).Along (AdmitsCall S) (holdingsMachine ttl).init
    (replicate source time rank.ring.log)
  held : ∀ k stored, rank.rawBlocks.lookup k = some stored →
    stored.block ∈ (replicated ttl source time rank.ring.log).blocksAt k.placement
  timed : ∀ f ∈ replicated ttl source time rank.ring.log, ∃ i, f.observedAt = time i

section Mirrored

variable {S : Set KvStoredBlock} {ttl : ℕ} {source : KvEventSourceId} {time : ℕ → ℕ}
  {rank : RankState} {key : KeyedDigest} {content : Contents} {store : PendingStore}

lemma mirrored_new (f : String) : Mirrored S ttl source time (new f) where
  admitted := trivial
  held _ _ h := by cases h
  timed _ h := absurd h (Set.notMem_empty _)

lemma Mirrored.congr {rank' : RankState} (h : Mirrored S ttl source time rank)
    (hlog : rank'.ring.log = rank.ring.log)
    (hraw : ∀ k st, rank'.rawBlocks.lookup k = some st → rank.rawBlocks.lookup k = some st) :
    Mirrored S ttl source time rank' := by
  obtain ⟨hadm, hheld, htimed⟩ := h
  rw [← hlog] at hadm hheld htimed
  exact ⟨hadm, fun k st hlook => hheld k st (hraw k st hlook), htimed⟩

lemma Mirrored.publishStore (h : Mirrored S ttl source time rank)
    (hfaithful : rank.Faithful key content) (hwell : store.WellFormed)
    (htrue : store.Truthful content) (hS : ∀ k ∈ store.keys, ∀ b ∈ (content k).chain key, b ∈ S)
    {pa : KvBlockHash × ℕ} (hpar : rank.parentOf store = some pa) :
    Mirrored S ttl source time (publishStore key rank store pa) := by
  by_cases hempty : store.rawBlocks = []
  · refine h.congr (by simp [log_publishStore, hempty]) fun k st hlook => ?_
    rwa [lookup_publishStore_of_notMem] at hlook
    simp [PendingStore.keys, hempty]
  · have hlog := log_publishStore key rank store pa
    rw [if_neg hempty] at hlog
    refine ⟨?_, fun k st hlook => ?_, fun f hf => ?_⟩
    · rw [hlog, replicate_concat]
      refine Machine.along_concat.mpr ⟨h.admitted, ?_⟩
      refine admitsBlocks_hashChain (fun b hb => ?_) ?_
      · obtain ⟨k, hk, hchain⟩ := hfaithful.mem_chain hwell htrue hpar hb
        exact hS k hk b hchain
      · rcases parentOf_eq_some hpar with ⟨-, rfl⟩ | ⟨k, st, -, hplace, hk, rfl⟩
        · exact .inl rfl
        · right
          refine ⟨st.block, ?_, rfl⟩
          rw [← hplace]
          exact h.held k st hk
    · rw [hlog, replicated_concat, Holdings.apply, mem_blocksAt_stores]
      rw [rawBlocks_publishStore] at hlook
      rcases Table.mem_of_lookup_inserts hlook with hmem | hold
      · obtain ⟨⟨raw, block⟩, hentry, heq⟩ := mem_map.mp hmem
        obtain ⟨rfl, rfl⟩ := Prod.mk.inj heq
        exact .inr ⟨rfl, (of_mem_zip hentry).2⟩
      · exact .inl (h.held k st hold)
    · rw [hlog, replicated_concat] at hf
      rcases observedAt_of_mem_stores hf with hold | htime
      · exact h.timed f hold
      · exact ⟨_, htime⟩

/-- **One round keeps the replica complete.** -/
lemma Mirrored.resolveStep {state next : RankState × List PendingStore} {D : Set PendingStore}
    (h : Mirrored S ttl source time state.1) (hdel : Delivering key content D state)
    (hD : ∀ store ∈ D, store.WellFormed ∧ store.Truthful content)
    (hS : ∀ store ∈ D, ∀ k ∈ store.keys, ∀ b ∈ (content k).chain key, b ∈ S)
    (hstep : resolveStep key state = some next) :
    Mirrored S ttl source time next.1 := by
  obtain ⟨rank, queue⟩ := state
  cases queue with
  | nil => cases hstep
  | cons store =>
    have hstore : store ∈ D := hdel.within store (.inr mem_cons_self)
    obtain ⟨hwell, htrue⟩ := hD store hstore
    rw [RankState.resolveStep] at hstep
    cases hpar : rank.parentOf store with
    | none =>
      rw [hpar] at hstep
      cases hstep
      exact h.congr rfl fun _ _ => id
    | some =>
      rw [hpar] at hstep
      cases hstep
      have hpub := h.publishStore hdel.faithful hwell htrue (hS store hstore) hpar
      refine hpub.congr ?_ fun k st hlook => ?_
      · rw [ring_foldl_releaseChildren]
      · rwa [rawBlocks_foldl_releaseChildren] at hlook

/-- **One delivery.** -/
lemma Mirrored.applyPendingStore {D : Set PendingStore} (h : Mirrored S ttl source time rank)
    (hdel : Delivering key content D (rank, []))
    (hD : ∀ y ∈ insert store D, y.WellFormed ∧ y.Truthful content)
    (hS : ∀ y ∈ insert store D, ∀ k ∈ y.keys, ∀ b ∈ (content k).chain key, b ∈ S) :
    Delivering key content (insert store D) (rank.applyPendingStore key store, []) ∧
      Mirrored S ttl source time (rank.applyPendingStore key store) := by
  have hrun := run_preserves
    (I := fun state => Delivering key content (insert store D) state ∧
      Mirrored S ttl source time state.1)
    (fun _ _ hstep hI => ⟨hI.1.resolveStep hD hstep, hI.2.resolveStep hI.1 hD hS hstep⟩)
    resolveSize ⟨hdel.queued store, h⟩
  have hempty := queue_applyPendingStore key rank store
  rw [RankState.applyPendingStore]
  generalize run (RankState.resolveStep key) RankState.resolveSize (rank, [store]) = result
    at hrun hempty
  obtain ⟨rank', queue⟩ := result
  obtain rfl : queue = [] := hempty
  exact hrun

end Mirrored

/-! ### Deliveries of a rank -/

namespace KvEventAdapter

/-- The events of one rank, one after the other. -/
def ingestAll (adapter : KvEventAdapter) (rank : RankState) (events : List Value) : RankState :=
  events.foldl (fun rank value => (adapter.ingestEvent rank value).1) rank

/-- The stores among the events. -/
def storesOf (adapter : KvEventAdapter) (events : List Value) : Set PendingStore :=
  { store | ∃ value ∈ events, adapter.decode value = some (.stored store) }

variable {adapter : KvEventAdapter} {events : List Value} {content : Contents}

lemma storesOf_concat {v : Value} {store : PendingStore}
    (h : adapter.decode v = some (.stored store)) :
    adapter.storesOf (events ++ [v]) = insert store (adapter.storesOf events) := by
  ext y
  simp [storesOf, or_and_right, exists_or, h, or_comm, eq_comm]

/-- **Every delivery of stores**, and its replication. -/
lemma delivering_ingestAll {S : Set KvStoredBlock} (ttl : ℕ) (source : KvEventSourceId)
    (time : ℕ → ℕ) (f : String)
    (hacc : ∀ v ∈ events, ∃ store, adapter.decode v = some (.stored store))
    (htrue : ∀ store ∈ adapter.storesOf events, store.Truthful content)
    (hS : ∀ store ∈ adapter.storesOf events, ∀ k ∈ store.keys,
      ∀ b ∈ (content k).chain adapter.key, b ∈ S) :
    Delivering adapter.key content (adapter.storesOf events)
        (adapter.ingestAll (RankState.new f) events, []) ∧
      Mirrored S ttl source time (adapter.ingestAll (RankState.new f) events) := by
  induction events using reverseRecOn with
  | nil =>
    have hnone : adapter.storesOf [] = ∅ :=
      Set.eq_empty_of_forall_notMem fun _ ⟨_, hmem, _⟩ => not_mem_nil hmem
    rw [hnone]
    exact ⟨delivering_new f, mirrored_new f⟩
  | append_singleton events v ih =>
    obtain ⟨store, hstore⟩ := hacc v (mem_append_right _ (mem_singleton_self _))
    rw [storesOf_concat hstore] at htrue hS ⊢
    obtain ⟨hdel, hmirrored⟩ := ih (fun v hvalue => hacc v (mem_append_left _ hvalue))
      (fun y hother => htrue y (.inr hother))
      (fun y hother => hS y (.inr hother))
    have hwell : ∀ y ∈ insert store (adapter.storesOf events), y.WellFormed := by
      rintro y (rfl | ⟨v', -, hother⟩)
      · exact wellFormed_of_decode hstore
      · exact wellFormed_of_decode hother
    have hingest := adapter.ingestEvent_decode
      (adapter.ingestAll (RankState.new f) events) v
    rw [hstore] at hingest
    have hconcat : adapter.ingestAll (RankState.new f) (events ++ [v]) =
        (adapter.ingestAll (RankState.new f) events).applyPendingStore adapter.key store := by
      rw [ingestAll, foldl_concat, ← ingestAll, hingest]
      rfl
    rw [hconcat]
    exact hmirrored.applyPendingStore hdel
      (fun y hother => ⟨hwell y hother, htrue y hother⟩) hS

end KvEventAdapter

section Query

variable {S : Set KvStoredBlock} {ttl : ℕ} {source : KvEventSourceId} {time : ℕ → ℕ}
  {rank : RankState} {key : KeyedDigest} {query : KvPrefixQuery} {partition : KvPartition}
  {p : KvPlacement} {now : ℕ}

lemma Mirrored.prune_eq (h : Mirrored S ttl source time rank) (hfresh : ∀ i, now ≤ time i + ttl) :
    (replicated ttl source time rank.ring.log).prune ttl now =
      replicated ttl source time rank.ring.log := by
  have hnone : (replicated ttl source time rank.ring.log).expired ttl now = ∅ := by
    refine Set.eq_empty_of_forall_notMem fun b => ?_
    rintro ⟨f, hf, hold, -⟩
    obtain ⟨i, hi⟩ := h.timed f hf
    have hbound := hfresh i
    omega
  rw [Holdings.prune, hnone, cut_empty]

/-- **A prompt that is retained is matched.** -/
lemma Mirrored.reported (im : KvLocalityIndexResolvedImplementation)
    (h : Mirrored S ttl source time rank) (hS : Genuine S) (hsingle : query.matchAllGroups = false)
    (hsel : query.selects partition = true) (hloc : p.locality ≠ .unspecified)
    (hfresh : ∀ i, now ≤ time i + ttl) (hne : query.chain key partition ≠ [])
    (hstored : ∀ b ∈ query.chain key partition,
      ∃ k st, k.placement = p ∧ rank.rawBlocks.lookup k = some st ∧ st.block = b) :
    ∃ m ∈ (indexMachine im ttl key).reply ((indexMachine im ttl key).after
          (replicate source time rank.ring.log)) (.query source query now),
      m.placement = p ∧
        (query.chain key partition).length * partition.hashBlockSize ≤ m.matchedTokens := by
  generalize hindex : (indexMachine im ttl key).after (replicate source time rank.ring.log) = index
  have hrefines : Refines S ttl index ((holdingsMachine ttl).after
      (replicate source time rank.ring.log)) := by
    rw [← hindex]
    exact refines_run hS h.admitted
  have hreports : (replicated ttl source time rank.ring.log).Reports query key
      (index.query source query key now).2 := by
    rw [← h.prune_eq hfresh]
    exact hrefines.reports hS source hsingle now
  refine hreports.exists_mem hsel hloc hne fun b hb => ?_
  obtain ⟨k, st, rfl, hlook, rfl⟩ := hstored b hb
  exact h.held k st hlook

end Query

/-- **Stores may be delivered in any order.** For stores that agree with what the raw hashes
stand for and among which no block above another is missing, and for every order of their
delivery: the loop that resolves them ends, none is left waiting, what is retained does not
depend on the order, and each block is the one that a query computes for its prompt. After
replication both indexes therefore match every prompt that is retained at a placement whose
locality is specified. -/
theorem store_delivery_confluent (adapter : KvEventAdapter) (fresh : String) (content : Contents)
    (events : List Value)
    (haccepted : ∀ value ∈ events, ∃ store, adapter.decode value = some (.stored store))
    (htrue : ∀ store ∈ adapter.storesOf events, store.Truthful content)
    (hchains : ∀ store ∈ adapter.storesOf events, ∀ k, store.parentKey = some k →
      ∃ other ∈ adapter.storesOf events, k ∈ other.keys)
    (hfree : Unambiguous (promptBlocks adapter.key
      (content '' { k | ∃ store ∈ adapter.storesOf events, k ∈ store.keys })))
    (delivered : List Value) (hperm : delivered.Perm events) :
    let rank := adapter.ingestAll (.new fresh) delivered
    (∀ rank store, (run (resolveStep adapter.key) resolveSize
      (rank, [store])).2 = []) ∧
    rank.pendingStores = [] ∧
    (∀ k, rank.rawBlocks.lookup k =
      (adapter.ingestAll (.new fresh) events).rawBlocks.lookup k) ∧
    (∀ store ∈ adapter.storesOf events, ∀ k ∈ store.keys,
      ∃ b, rank.rawBlocks.lookup k = some ⟨b, k.placement⟩ ∧
        ((content k).chain adapter.key).getLast? = some b) ∧
    ∀ (implementation : KvLocalityIndexResolvedImplementation) (ttl : ℕ)
      (source : KvEventSourceId) (time : ℕ → ℕ) (query : KvPrefixQuery) (partition : KvPartition)
      (p : KvPlacement) (now : ℕ), query.matchAllGroups = false →
      query.selects partition = true → p.locality ≠ .unspecified →
      (∀ i, now ≤ time i + ttl) → query.chain adapter.key partition ≠ [] →
      (∀ b ∈ query.chain adapter.key partition, ∃ k stored,
        k.placement = p ∧ rank.rawBlocks.lookup k = some stored ∧ stored.block = b) →
      ∃ m ∈ (indexMachine implementation ttl adapter.key).reply
          ((indexMachine implementation ttl adapter.key).after
            (replicate source time rank.ring.log)) (.query source query now),
        m.placement = p ∧
          (query.chain adapter.key partition).length * partition.hashBlockSize ≤
            m.matchedTokens := by
  intro rank
  have hsame : adapter.storesOf delivered = adapter.storesOf events :=
    Set.ext fun store => exists_congr fun value => and_congr_left' hperm.mem_iff
  have hwell : ∀ store ∈ adapter.storesOf events, store.WellFormed ∧ store.Truthful content := by
    rintro store ⟨value, hvalue, hdecode⟩
    exact ⟨KvEventAdapter.wellFormed_of_decode hdecode, htrue store ⟨value, hvalue, hdecode⟩⟩
  have hgenuine := genuine_promptBlocks hfree
  generalize hblocks : promptBlocks adapter.key
    (content '' { k | ∃ store ∈ adapter.storesOf events, k ∈ store.keys }) = S at hgenuine
  have hS : ∀ store ∈ adapter.storesOf events, ∀ k ∈ store.keys,
      ∀ b ∈ (content k).chain adapter.key, b ∈ S := by
    rw [← hblocks]
    exact fun store hstore k hk b hb => ⟨content k, ⟨k, ⟨store, hstore, hk⟩, rfl⟩, hb⟩
  -- the run in the order of the delivery, and the one to compare it with
  have hdelivered : ∀ ttl source time, Delivering adapter.key content
      (adapter.storesOf events) (rank, []) ∧ Mirrored S ttl source time rank := by
    intro ttl source time
    rw [← hsame] at htrue hS ⊢
    exact KvEventAdapter.delivering_ingestAll ttl source time fresh
      (fun value hvalue => haccepted value (hperm.mem_iff.mp hvalue)) htrue hS
  have hreference := (KvEventAdapter.delivering_ingestAll 0 ⟨"", "", "", 0⟩ id fresh haccepted
    htrue hS).1
  have hdelivering := (hdelivered 0 ⟨"", "", "", 0⟩ id).1
  have hpending := hdelivering.pendingStores_eq hwell hchains
  refine ⟨queue_applyPendingStore adapter.key, hpending, fun k => ?_, ?_, ?_⟩
  · exact hdelivering.lookup_eq hreference hpending
      (hreference.pendingStores_eq hwell hchains) k
  · intro store hstore k hk
    obtain ⟨stored, hlookup⟩ :=
      isSome_iff_exists.mp (hdelivering.isSome_lookup hpending hstore hk)
    obtain ⟨hplace, -, hlast⟩ := hdelivering.faithful k stored hlookup
    refine ⟨stored.block, ?_, hlast⟩
    rw [hlookup, ← hplace]
  · intro implementation ttl source time query partition p now hsingle hselects hlocality hfresh hne
      hstored
    exact (hdelivered ttl source time).2.reported implementation hgenuine
      hsingle hselects hlocality hfresh hne hstored

namespace ChildFirst

/-- An adapter of one rank. -/
def adapter : KvEventAdapter :=
  .new LateParent.lastBytes "scope" "model" "revision" 1 fun _ => "epoch"

/-- Blocks of one token. -/
def partition : KvPartition :=
  ⟨"revision", "scope", .normalizedKeyedBlake3V1, 1, none, "full_attention", none⟩

/-- The block of the first token. -/
def root : Value :=
  .map [(.string "type", .string "BlockStored"), (.string "block_hashes", .array [.integer 7]),
    (.string "token_ids", .array [.integer 1]), (.string "block_size", .integer 1)]

/-- The block of the second token. -/
def child : Value :=
  .map [(.string "type", .string "BlockStored"), (.string "block_hashes", .array [.integer 8]),
    (.string "parent_block_hash", .integer 7), (.string "token_ids", .array [.integer 2]),
    (.string "block_size", .integer 1)]

/-- A first block. -/
def rootStore : PendingStore :=
  ⟨partition, ⟨.device, .local_⟩, none, none, [(toBeBytes 7, [1])], none⟩

/-- A block that follows the first. -/
def childStore : PendingStore :=
  ⟨partition, ⟨.device, .local_⟩, none, some (toBeBytes 7), [(toBeBytes 8, [2])], none⟩

/-- The tokens of the two blocks. -/
def content : Contents := fun k =>
  ⟨partition, none, if k.raw = toBeBytes 7 then [1] else [1, 2]⟩

lemma decode_root : adapter.decode root = some (.stored rootStore) := by
  decide +kernel

lemma decode_child : adapter.decode child = some (.stored childStore) := by
  decide +kernel

lemma mem_storesOf {store : PendingStore} :
    store ∈ adapter.storesOf [root, child] ↔ store = rootStore ∨ store = childStore := by
  simp [KvEventAdapter.storesOf, decode_root, decode_child, eq_comm]

lemma truthful_rootStore : rootStore.Truthful content where
  partition := rfl
  named i block h := by
    cases i with
    | zero =>
      cases h
      decide
    | succ => cases h

lemma truthful_childStore : childStore.Truthful content where
  partition := rfl
  named i block h := by
    cases i with
    | zero =>
      cases h
      decide
    | succ => cases h

lemma unambiguous (K : Set RawKey) :
    Unambiguous (promptBlocks adapter.key (content '' K)) := by
  have hshort : ∀ b ∈ chain adapter.key ⟨partition, none, [1]⟩,
      b ∈ chain adapter.key ⟨partition, none, [1, 2]⟩ := by
    decide +kernel
  have hlong : ∀ b ∈ chain adapter.key ⟨partition, none, [1, 2]⟩,
      ∀ b' ∈ chain adapter.key ⟨partition, none, [1, 2]⟩,
      b.blockHash = b'.blockHash → b = b' := by
    decide +kernel
  have hmem : ∀ b ∈ promptBlocks adapter.key (content '' K),
      b ∈ chain adapter.key ⟨partition, none, [1, 2]⟩ := by
    rintro b ⟨_, ⟨k, -, rfl⟩, hb⟩
    rw [content] at hb
    split_ifs at hb
    · exact hshort b hb
    · exact hb
  exact fun b hb b' hb' => hlong b (hmem b hb) b' (hmem b' hb')

end ChildFirst

open ChildFirst

/-- The second block comes before the first. -/
theorem store_delivery_confluent_childFirst :
    (adapter.ingestAll (.new "epoch")
      [child, root]).pendingStores = [] ∧
    ∀ k, (adapter.ingestAll (.new "epoch")
        [child, root]).rawBlocks.lookup k =
      (adapter.ingestAll (.new "epoch")
        [root, child]).rawBlocks.lookup k := by
  have h := store_delivery_confluent adapter "epoch" content
    [root, child] ?_ ?_ ?_ (unambiguous _)
    [child, root] (Perm.swap _ _ _)
  · exact ⟨h.2.1, h.2.2.1⟩
  · intro value hvalue
    rcases mem_pair.mp hvalue with rfl | rfl
    · exact ⟨_, decode_root⟩
    · exact ⟨_, decode_child⟩
  · intro store hstore
    rcases mem_storesOf.mp hstore with rfl | rfl
    · exact truthful_rootStore
    · exact truthful_childStore
  · intro store hstore k hk
    rcases mem_storesOf.mp hstore with rfl | rfl
    · cases hk
    · cases hk
      exact ⟨_, mem_storesOf.mpr (Or.inl rfl), by decide⟩

namespace Elsewhere

/-- The block of the first token, at a locality that the adapter does not know. -/
def stored : Value :=
  .map [(.string "type", .string "BlockStored"), (.string "block_hashes", .array [.integer 7]),
    (.string "token_ids", .array [.integer 1]), (.string "block_size", .integer 1),
    (.string "locality", .string "elsewhere")]

/-- The first block, in an unspecified locality. -/
def key : RawKey := ⟨⟨.device, .unspecified⟩, none, toBeBytes 7⟩

/-- The first block is stored there. -/
def store : PendingStore := { rootStore with placement := key.placement }

/-- The prompt of the first block. -/
def query : KvPrefixQuery :=
  ⟨[1], none, "revision", "scope", .normalizedKeyedBlake3V1, none, false, "full_attention", none⟩

/-- What the query reports after the replication. -/
def matched (implementation : KvLocalityIndexResolvedImplementation) : List KvPrefixMatch :=
  (indexMachine implementation 300 adapter.key).reply
    ((indexMachine implementation 300 adapter.key).after (replicate LateParent.source (fun _ => 0)
        (adapter.ingestAll (.new "epoch") [stored]).ring.log))
    (.query LateParent.source query 0)

end Elsewhere

open Elsewhere

/-- **A prompt at an unspecified locality is not matched.** The only block of the prompt is
stored and retained, and it is the block that the query computes; neither implementation
reports it. -/
theorem unspecified_locality_unmatched :
    adapter.decode stored = some (.stored store) ∧
    store.Truthful content ∧ store.parentKey = none ∧
    query.selects partition = true ∧
    (∃ b, query.chain adapter.key partition = [b] ∧
      (adapter.ingestAll (.new "epoch") [stored]).rawBlocks.lookup
        key = some ⟨b, key.placement⟩) ∧
    matched .positionalHash = [] ∧ matched .radixTree = [] := by
  refine ⟨by decide +kernel, ⟨rfl, fun i block h => ?_⟩, rfl, by decide +kernel, ⟨_, rfl, ?_⟩,
    by decide +kernel, by decide +kernel⟩
  · cases i with
    | zero =>
      cases h
      decide
    | succ => cases h
  · decide +kernel

end Foretoken.KvLocality
