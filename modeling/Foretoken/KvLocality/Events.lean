import Foretoken.KvLocality.Types
import Foretoken.Lib.Loop

/-!
The event adapter of a model server (`model-server/src/backend/vllm/kv_events.rs`).

An engine publishes batches of raw cache events for each of its data-parallel ranks. The adapter
turns them into a numbered stream of normalized deltas per rank, keeps the last `capacity` of them
in a ring, and answers readers that poll with a cursor. It is unlocked between the events of a
batch, so readers may poll between any two parts (`IngestPart`) of a message.

`fresh` stands for the result of `Uuid::new_v4`, and the decoder of msgpack is a parameter.
`pending_stores` is one list: a store knows the key it waits under. Sequence numbers are natural
numbers.
-/

namespace Foretoken.KvLocality

open RingLog List

/-! ### Raw values -/

/-- A decoded msgpack value. -/
inductive Value where
  | nil
  | boolean (b : Bool)
  | integer (n : ℤ)
  | f32 (bits : UInt32)
  | f64 (bits : UInt64)
  | string (s : String)
  | binary (bytes : List UInt8)
  | array (values : List Value)
  | map (fields : List (Value × Value))
  | ext (type : ℤ) (bytes : List UInt8)

namespace Value

/-- A natural number. -/
def asU64 : Value → Option ℕ
  | .integer n => if 0 ≤ n then some n.toNat else none
  | _ => none

/-- A string. -/
def asStr : Value → Option String
  | .string s => some s
  | _ => none

/-- An array. -/
def asArray : Value → Option (List Value)
  | .array values => some values
  | _ => none

/-- The absent value. -/
def isNil : Value → Bool
  | .nil => true
  | _ => false

/-- `Value::Integer(_) | Value::F32(_) | Value::F64(_)`. -/
def isNumber : Value → Bool
  | .integer _ => true
  | .f32 _ => true
  | .f64 _ => true
  | _ => false

end Value

/-- The fields of an event. -/
abbrev Fields := List (Value × Value)

/-- The first field of a name. -/
def field (fields : Fields) (name : String) : Option Value :=
  fields.findSome? fun entry => if entry.1.asStr = some name then some entry.2 else none

/-- `u64::to_be_bytes`. -/
def toBeBytes (n : ℕ) : List UInt8 :=
  (range 8).map fun i => UInt8.ofNat (n / 256 ^ (7 - i))

/-- `u64::from_be_bytes`. -/
def fromBeBytes (bytes : List UInt8) : ℕ := bytes.foldl (fun n byte => n * 256 + byte.toNat) 0

/-- The engine's hash of a block. -/
def rawHash : Value → Option (List UInt8)
  | .binary bytes => some bytes
  | .integer n => (Value.integer n).asU64.map toBeBytes
  | _ => none

/-- `u32::try_from`. -/
def tryU32 (n : ℕ) : Option ℕ := if n ≤ u32Max then some n else none

/-- A field of 32 bits, if it is one. -/
def optionalU32 (value : Option Value) : Option ℕ := (value.bind Value.asU64).bind tryU32

/-- Media are compared without case. -/
def toAsciiUppercase (s : String) : String := String.ofList (s.toList.map Char.toUpper)

/-- `str::contains`. -/
def contains (s pattern : String) : Bool := pattern.toList <:+: s.toList

/-- The tier a medium names. -/
def storageTier (medium : String) : Option KvStorageTier :=
  if medium ∈ ["GPU", "DEVICE"] then some .device
  else if medium ∈ ["CPU", "CPU_PINNED"] then some .hostPinned
  else if medium ∈ ["STORAGE", "DISK", "NVME"] then some .disk
  else if medium ∈ ["REMOTE", "EXTERNAL", "NETWORK", "SHARED"] then some .external
  else none

/-- The locality that is given, or the one of the tier. -/
def cacheLocality (tier : KvStorageTier) : Option String → KvCacheLocality
  | some value =>
    if value ∈ ["LOCAL", "GPU", "CPU", "CPU_PINNED"] then .local_
    else if value ∈ ["REMOTE", "STORAGE", "DISK", "NVME", "EXTERNAL", "NETWORK", "SHARED"] then
      .remote
    else .unspecified
  | none => if tier = .external then .remote else .local_

/-- The placement of an event, on the device by default. -/
def placement (medium locality : Option Value) : Option KvPlacement :=
  let medium := (medium.bind Value.asStr).getD "GPU"
  (storageTier (toAsciiUppercase medium)).map fun tier =>
    ⟨tier, cacheLocality tier ((locality.bind Value.asStr).map toAsciiUppercase)⟩

/-! ### The state of a rank -/

/-- `CAPACITY`. -/
def capacity : ℕ := 4096

instance : NeZero capacity := ⟨by decide⟩

/-- A block that was published. -/
structure StoredBlock where
  block : KvStoredBlock
  placement : KvPlacement
  deriving DecidableEq, Repr

/-- The adapter's private name of a block. -/
structure RawKey where
  placement : KvPlacement
  groupIdx : Option ℕ
  raw : List UInt8
  deriving DecidableEq, Repr

/-- A store whose parent has not been seen. -/
structure PendingStore where
  partition : KvPartition
  placement : KvPlacement
  groupIdx : Option ℕ
  parentRawHash : Option (List UInt8)
  rawBlocks : List (List UInt8 × List ℕ)
  cacheSalt : Option String
  deriving DecidableEq, Repr

/-- The private name of a block of a store. -/
def PendingStore.rawKey (store : PendingStore) (raw : List UInt8) : RawKey :=
  ⟨store.placement, store.groupIdx, raw⟩

/-- The private name of the block below which a store belongs. -/
def PendingStore.parentKey (store : PendingStore) : Option RawKey :=
  store.parentRawHash.map store.rawKey

/-- What is kept of a rank. -/
structure RankState where
  epoch : String
  ring : Ring capacity KvDeltaEvent
  rawBlocks : Table RawKey StoredBlock
  pendingStores : List PendingStore
  lastPublisherSequence : Option ℕ
  available : Bool

namespace RankState

/-- Nothing was ingested. -/
def new (fresh : String) : RankState where
  epoch := fresh
  ring := Ring.empty
  rawBlocks := ∅
  pendingStores := []
  lastPublisherSequence := none
  available := true

/-- The events published so far. -/
def current (rank : RankState) : ℕ := rank.ring.current

/-- An event is published. -/
def push (rank : RankState) (event : KvDeltaEvent) : RankState :=
  { rank with ring := rank.ring.push event }

/-- All blocks are dropped, and this is published. -/
def clear (rank : RankState) : RankState :=
  { rank with rawBlocks := ∅, pendingStores := [] }.push .allBlocksCleared

/-- The order of the blocks of a replayed store. -/
def replayOrder (a b : KvStoredBlock) : Ordering :=
  ((compare a.partition b.partition).then (compare a.blockIndex b.blockIndex)).then
    (compare a.blockHash b.blockHash)

/-- The events that tell a reader which blocks are retained, one for each placement. -/
def replay (rank : RankState) : List KvDeltaEvent :=
  let stored := rank.rawBlocks.entries.map (·.2)
  (orderedSet (stored.map (·.placement))).map fun placement =>
    .blockStored (((stored.filter (·.placement = placement)).map (·.block)).insertionSort
      fun a b => (replayOrder a b).isLE) placement

/-- The event that a reader waits for has left the ring. -/
def leavesBehind (rank : RankState) (after : Option ℕ) : Bool :=
  rank.ring.entries.head?.any fun delta => expected after < delta.sequence

/-- The blocks are published anew in a fresh epoch. -/
def rebaseReplay (rank : RankState) (fresh : String) : RankState :=
  rank.replay.foldl push { rank with epoch := fresh, ring := Ring.empty }

/-- The rebase of a rank whose ring a reader of its epoch has fallen behind. -/
def catchUp (rank : RankState) (epoch : Option String) (after : Option ℕ) (fresh : String) :
    RankState :=
  if epoch = some rank.epoch ∧ rank.leavesBehind after then rank.rebaseReplay fresh else rank

/-! ### Stores -/

/-- The hash and the depth below which a store belongs, if its parent is known. -/
def parentOf (rank : RankState) (store : PendingStore) : Option (KvBlockHash × ℕ) :=
  match store.parentKey with
  | some key =>
    (rank.rawBlocks.lookup key).map fun parent =>
      (parent.block.blockHash, parent.block.blockIndex + 1)
  | none => some ("", 0)

/-- Retain and publish the blocks of a store whose parent is known. -/
def publishStore (key : KeyedDigest) (rank : RankState) (store : PendingStore)
    (parent : KvBlockHash × ℕ) : RankState :=
  let blocks := hashChain key store.partition store.cacheSalt parent.1 parent.2
    (store.rawBlocks.map (·.2))
  let rank :=
    { rank with
      rawBlocks := ((store.rawBlocks.map (·.1)).zip blocks).foldl
        (fun rawBlocks entry =>
          rawBlocks.insert (store.rawKey entry.1) ⟨entry.2, store.placement⟩)
        rank.rawBlocks }
  if blocks = [] then rank else rank.push (.blockStored blocks store.placement)

/-- Take the stores that wait for a block off the waiting ones and queue them. -/
def releaseChildren (state : RankState × List PendingStore) (key : RawKey) :
    RankState × List PendingStore :=
  ({ state.1 with pendingStores := state.1.pendingStores.filter (·.parentKey ≠ some key) },
    state.2 ++ state.1.pendingStores.filter (·.parentKey = some key))

/-- A round of the loop of `apply_pending_store`, on the rank and the queue. -/
def resolveStep (key : KeyedDigest) :
    RankState × List PendingStore → Option (RankState × List PendingStore)
  | (_, []) => none
  | (rank, store :: queue) =>
    match rank.parentOf store with
    | none => some ({ rank with pendingStores := rank.pendingStores ++ [store] }, queue)
    | some parent =>
      some ((store.rawBlocks.map (store.rawKey ·.1)).foldl releaseChildren
        (publishStore key rank store parent, queue))

/-- Resolving a store lowers the first summand by more than the queue can grow, parking one
lowers the second. -/
def resolveSize (state : RankState × List PendingStore) : ℕ :=
  let stores := state.1.pendingStores.length + state.2.length
  stores * (stores + 1) + state.2.length

lemma length_foldl_releaseChildren (ks : List RawKey) (s : RankState × List PendingStore) :
    (ks.foldl releaseChildren s).1.pendingStores.length +
        (ks.foldl releaseChildren s).2.length =
      s.1.pendingStores.length + s.2.length := by
  induction ks generalizing s with
  | nil => rfl
  | cons key ks ih =>
    have hsplit := length_eq_length_filter_add (l := s.1.pendingStores)
      fun S => decide (S.parentKey = some key)
    rw [foldl_cons, ih]
    simp only [releaseChildren, length_append, decide_not]
    omega

lemma pendingStores_publishStore (key : KeyedDigest) (r : RankState) (S : PendingStore)
    (p : KvBlockHash × ℕ) :
    (publishStore key r S p).pendingStores = r.pendingStores := by
  rw [publishStore]
  split_ifs <;> rfl

/-- **Every round makes the loop's state smaller.** -/
lemma resolveStep_size (key : KeyedDigest) (state next : RankState × List PendingStore)
    (h : resolveStep key state = some next) : resolveSize next < resolveSize state := by
  obtain ⟨rank, queue⟩ := state
  cases queue with
  | nil => cases h
  | cons store queue =>
    rw [resolveStep] at h
    cases hpar : rank.parentOf store with
    | none =>
      rw [hpar] at h
      cases h
      have htotal : rank.pendingStores.length + 1 + queue.length =
          rank.pendingStores.length + (queue.length + 1) := by omega
      simp only [resolveSize, length_append, length_cons, length_nil]
      rw [htotal]
      exact Nat.add_lt_add_left (Nat.lt_succ_self _) _
    | some parent =>
      rw [hpar] at h
      cases h
      have htotal := length_foldl_releaseChildren (store.rawBlocks.map (store.rawKey ·.1))
        (publishStore key rank store parent, queue)
      rw [pendingStores_publishStore] at htotal
      simp only [resolveSize, length_cons] at htotal ⊢
      nlinarith

/-- A store and those that waited for it. -/
def applyPendingStore (key : KeyedDigest) (rank : RankState) (store : PendingStore) : RankState :=
  (Loop.run (resolveStep key) resolveSize (rank, [store])).1

/-! ### Removals -/

/-- The normalized removals that are published together. -/
structure RemovalKey where
  placement : KvPlacement
  groupIdx : Option ℕ
  deriving DecidableEq, Ord, Repr

/-- An event that names a placement or a group means that one, otherwise any. -/
def selects (eventPlacement : Option KvPlacement) (eventGroupIdx : Option ℕ)
    (placement : KvPlacement) (groupIdx : Option ℕ) : Bool :=
  eventPlacement.all (· = placement) && eventGroupIdx.all (groupIdx = some ·)

/-- A round of the loop over the raw hashes of a removal. -/
def removeRaw (eventPlacement : Option KvPlacement) (eventGroupIdx : Option ℕ)
    (state : RankState × Table RemovalKey (List KvBlockHash)) (raw : List UInt8) :
    RankState × Table RemovalKey (List KvBlockHash) :=
  let rank :=
    { state.1 with
      pendingStores := state.1.pendingStores.filter fun store =>
        !(selects eventPlacement eventGroupIdx store.placement store.groupIdx &&
          (store.parentRawHash = some raw || store.rawBlocks.any fun block => block.1 = raw)) }
  let matching := rank.rawBlocks.entries.filter fun entry =>
    entry.1.raw = raw && selects eventPlacement eventGroupIdx entry.1.placement entry.1.groupIdx
  match matching with
  | [⟨key, stored⟩] =>
    ({ rank with rawBlocks := rank.rawBlocks.erase key },
      state.2.modify ⟨eventPlacement.getD stored.placement,
        eventGroupIdx.or stored.block.partition.groupIdx⟩ (· ++ [stored.block.blockHash]))
  -- an ambiguous or unknown hash is left alone
  | _ => (rank, state.2)

/-- The loop of `remove_blocks`; it is left at a value that is no hash. -/
def removeLoop (eventPlacement : Option KvPlacement) (eventGroupIdx : Option ℕ) :
    List Value → RankState × Table RemovalKey (List KvBlockHash) →
      (RankState × Table RemovalKey (List KvBlockHash)) × Bool
  | [], state => (state, true)
  | value :: values, state =>
    match rawHash value with
    | none => (state, false)
    | some raw =>
      removeLoop eventPlacement eventGroupIdx values
        (removeRaw eventPlacement eventGroupIdx state raw)

/-- The blocks of an event are removed. -/
def removeBlocks (rank : RankState) (rawHashes : List Value) (fields : Fields) :
    RankState × Bool :=
  let eventPlacement := placement (field fields "medium") (field fields "locality")
  let eventGroupIdx := optionalU32 (field fields "group_idx")
  match removeLoop eventPlacement eventGroupIdx rawHashes (rank, ∅) with
  | ((rank, _), false) => (rank, false)
  | ((rank, removed), true) =>
    (removed.toList.foldl
      (fun rank entry => rank.push (.blockRemoved entry.2 entry.1.placement entry.1.groupIdx))
      rank, true)

end RankState

/-! ### The adapter -/

/-- The publisher beside an engine. -/
structure KvEventAdapter where
  key : KeyedDigest
  scopeId : String
  modelGroupId : String
  modelRevision : String
  dataParallelSize : ℕ
  ranks : List RankState
  cacheGroups : Option (List KvCacheGroup)

/-- Why a poll has no events. -/
inductive KvDeltaError where
  | unavailable
  | cursorReset (response : KvDeltaResponse)
  deriving DecidableEq, Repr

namespace KvEventAdapter

/-- One rank for each number below the size; `fresh` names their epochs. -/
def new (key : KeyedDigest) (scopeId modelGroupId modelRevision : String) (dataParallelSize : ℕ)
    (fresh : ℕ → String) : KvEventAdapter where
  key := key
  scopeId := scopeId
  modelGroupId := modelGroupId
  modelRevision := modelRevision
  dataParallelSize := dataParallelSize
  ranks := (range dataParallelSize).map fun rank => .new (fresh rank)
  cacheGroups := none

section

variable (adapter : KvEventAdapter) (dpRank : ℕ)

/-- The engine told its groups. -/
def loadCacheGroups (groups : List KvCacheGroup) : KvEventAdapter :=
  { adapter with cacheGroups := some groups }

/-- A rank is replaced. -/
def setRank (rank : RankState) : KvEventAdapter :=
  { adapter with ranks := adapter.ranks.set dpRank rank }

/-! ### Answers to readers -/

/-- The response of a rank. -/
def response (rank : RankState) (through : ℕ)
    (deltas : List KvDelta) : KvDeltaResponse where
  eventSourceId := adapter.modelGroupId ++ ":dp:" ++ toString dpRank
  modelGroupId := adapter.modelGroupId
  epoch := rank.epoch
  dpRank := dpRank
  through := through
  current := rank.current
  cacheGroups := adapter.cacheGroups
  deltas := deltas

/-- A poll, answered in a fresh epoch when the position is lost. -/
def delta (epoch : Option String) (after : Option ℕ)
    (limit : ℕ) (fresh : String) : KvEventAdapter × Except KvDeltaError KvDeltaResponse :=
  match adapter.ranks[dpRank]?.filter (·.available) with
  | none => (adapter, .error .unavailable)
  | some rank =>
    let rank := rank.catchUp epoch after fresh
    let adapter := adapter.setRank dpRank rank
    if epoch ≠ some rank.epoch ∨ after.any (rank.current < ·) then
      (adapter, .error (.cursorReset (adapter.response dpRank rank 0 [])))
    else
      let deltas := page rank.ring.entries after (min limit 512)
      let through := ((deltas.getLast?.map (·.sequence)).or after).getD 0
      (adapter, .ok (adapter.response dpRank rank through deltas))

/-! ### Ingestion -/

/-- Recovery starts a new source epoch. -/
def failStream (fresh : String) : KvEventAdapter :=
  { adapter with
    ranks := adapter.ranks.modify dpRank fun _ => { RankState.new fresh with available := false } }

/-- The salt among the extra keys, which only a root block may carry. An error is the value
that `store_blocks` returns early with. -/
def saltOf (isRoot : Bool) : ℕ → List Value → Option String → Except Bool (Option String)
  | _, [], salt => .ok salt
  | index, .nil :: keys, salt => saltOf isRoot (index + 1) keys salt
  | index, .array [value] :: keys, _ =>
    if index = 0 ∧ isRoot then
      match value.asStr with
      | none => .error true
      | some salt => saltOf isRoot (index + 1) keys (some salt)
    else .error true
  | _, _ :: _, _ => .error true

/-- The salt of a store, from the keys of its blocks. -/
def cacheSaltOf (placement : KvPlacement) (isRoot : Bool) (rawHashes : List Value) :
    Option Value → Except Bool (Option String)
  | some (.array keys) =>
    if keys.length = rawHashes.length then saltOf isRoot 0 keys none else .error true
  | none | some .nil => if placement.tier = .device then .ok none else .error true
  | some _ => .error true

/-- The groups whose events are not a contiguous token sequence. -/
def isSparse (groupIdx : Option ℕ) : Bool :=
  (adapter.cacheGroups.getD []).any fun group =>
    some group.groupIdx = groupIdx &&
      (group.specKind ≠ "full_attention" || group.slidingWindow.isSome)

/-- The checks of `store_blocks`: the store it hands on, or the value it returns early with
(`true` for an event that is left out, `false` for one that is invalid). -/
def storeOf (rawHashes : List Value) (fields : Fields) : Except Bool PendingStore := do
  let some place := placement (field fields "medium") (field fields "locality") | .error true
  let present := fun name => (field fields name).any (!·.isNil)
  if present "lora_id" || present "lora_name" then .error true
  let parentRawHash := (field fields "parent_block_hash").bind rawHash
  let cacheSalt ← cacheSaltOf place parentRawHash.isNone rawHashes (field fields "extra_keys")
  let groupIdx := optionalU32 (field fields "group_idx")
  let specKind := ((field fields "kv_cache_spec_kind").bind Value.asStr).getD "full_attention"
  let slidingWindow := optionalU32
    ((field fields "kv_cache_spec_sliding_window").or (field fields "sliding_window"))
  if specKind ≠ "full_attention" || slidingWindow.isSome || adapter.isSparse groupIdx then
    .error true
  let some tokenValues := (field fields "token_ids").bind Value.asArray | .error false
  let some blockSize := ((field fields "block_size").bind Value.asU64).bind tryU32 | .error false
  if blockSize = 0 || tokenValues.length % blockSize ≠ 0 ||
      rawHashes.length ≠ tokenValues.length / blockSize then
    .error false
  let some tokenIds := tokenValues.mapM fun value => value.asU64.bind tryU32 | .error false
  let some raws := rawHashes.mapM rawHash | .error false
  return {
    partition := ⟨adapter.modelRevision, adapter.scopeId, .normalizedKeyedBlake3V1, blockSize,
      groupIdx, specKind, slidingWindow⟩
    placement := place
    groupIdx := groupIdx
    parentRawHash := parentRawHash
    rawBlocks := raws.zip (chunksExact blockSize tokenIds)
    cacheSalt := cacheSalt }

/-- `store_blocks`, on its rank. -/
def storeBlocks (rank : RankState) (rawHashes : List Value)
    (fields : Fields) : RankState × Bool :=
  match adapter.storeOf rawHashes fields with
  | .error returned => (rank, returned)
  | .ok store => (rank.applyPendingStore adapter.key store, true)

/-- `ingest_event`, on its rank. -/
def ingestEvent (rank : RankState) : Value → RankState × Bool
  | .map fields =>
    let eventType :=
      (((field fields "type").or (field fields "event_type")).bind Value.asStr).getD ""
    if contains eventType "AllBlocksCleared" then (rank.clear, true)
    else
      match (field fields "block_hashes").bind Value.asArray with
      | none => (rank, false)
      | some rawHashes =>
        if contains eventType "BlockRemoved" then rank.removeBlocks rawHashes fields
        else if !contains eventType "BlockStored" then (rank, false)
        else adapter.storeBlocks rank rawHashes fields
  | _ => (rank, false)

/-- The loop of `ingest_msgpack`; it is left at the first invalid event. -/
def ingestEvents (adapter : KvEventAdapter) (dpRank : ℕ) : List Value → KvEventAdapter × Bool
  | [] => (adapter, true)
  | event :: events =>
    match adapter.ranks[dpRank]? with
    | none => (adapter, false)
    | some rank =>
      match adapter.ingestEvent rank event with
      | (rank, false) => (adapter.setRank dpRank rank, false)
      | (rank, true) => (adapter.setRank dpRank rank).ingestEvents dpRank events

/-- The end of `ingest_msgpack`: a valid batch makes its rank available. -/
def recover : KvEventAdapter :=
  { adapter with ranks := adapter.ranks.modify dpRank fun rank => { rank with available := true } }

/-- The events of a well-formed batch for the rank. -/
def batchEvents : Option Value → Option (List Value)
  | some (.array batch) => do
      let events ← batch[1]?.bind Value.asArray
      let matchingRank :=
        match batch[2]? with
        | some value => value.asU64 = some dpRank
        | none => adapter.dataParallelSize = 1 && dpRank = 0
      if (batch.length = 2 || batch.length = 3) && batch[0]?.any (·.isNumber) && matchingRank then
        some events
      else none
  | _ => none

/-- A message of the engine; one that cannot be read fails the stream. -/
def ingestMsgpack (decode : List UInt8 → Option Value) (adapter : KvEventAdapter) (dpRank : ℕ)
    (bytes : List UInt8) (fresh : String) : KvEventAdapter :=
  if adapter.dataParallelSize ≤ dpRank then adapter
  else
    match adapter.batchEvents dpRank (decode bytes) with
    | none => adapter.failStream dpRank fresh
    | some events =>
      match adapter.ingestEvents dpRank events with
      | (adapter, false) => adapter.failStream dpRank fresh
      | (adapter, true) => adapter.recover dpRank

/-- `KV_EVENT_TOPIC`. -/
def kvEventTopic : String := "foretoken-kv-v1"

/-- The end of `ingest_frames`: remember the number of the message. -/
def acknowledge (sequence : ℕ) : KvEventAdapter :=
  { adapter with
    ranks := adapter.ranks.modify dpRank fun rank =>
      if rank.available then { rank with lastPublisherSequence := some sequence } else rank }

end

/-- `ingest_frames`, and whether the message was accepted. -/
def ingestFrames (decode : List UInt8 → Option Value) (adapter : KvEventAdapter) (dpRank : ℕ)
    (frames : List (List UInt8)) (fresh : String) : KvEventAdapter × Bool :=
  match frames with
  | [topic, number, payload] =>
    if topic ≠ asBytes kvEventTopic ∨ number.length ≠ 8 then
      (adapter.failStream dpRank fresh, false)
    else
      let sequence := fromBeBytes number
      let previous := adapter.ranks[dpRank]?.bind (·.lastPublisherSequence)
      if previous.any (· + 1 ≠ sequence) then (adapter.failStream dpRank fresh, false)
      else
        let adapter := adapter.ingestMsgpack decode dpRank payload fresh
        (adapter.acknowledge dpRank sequence, adapter.ranks[dpRank]?.any (·.available))
  | _ => (adapter.failStream dpRank fresh, false)

end KvEventAdapter

/-- What the ingestion of a message does while it holds the lock once. -/
inductive IngestPart where
  | event (value : Value)
  | fail
  | recover
  | acknowledge (sequence : ℕ)

namespace KvEventAdapter

/-- One part, on the rank it is for. -/
def perform (dpRank : ℕ) (fresh : String) (adapter : KvEventAdapter) :
    IngestPart → KvEventAdapter
  | .event value =>
    match adapter.ranks[dpRank]? with
    | none => adapter
    | some rank => adapter.setRank dpRank (adapter.ingestEvent rank value).1
  | .fail => adapter.failStream dpRank fresh
  | .recover => adapter.recover dpRank
  | .acknowledge sequence => adapter.acknowledge dpRank sequence

end KvEventAdapter

end Foretoken.KvLocality
