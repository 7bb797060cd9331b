import Foretoken.Lib.Base64
import Foretoken.Lib.RingLog
import Foretoken.Lib.Table

/-!
The vocabulary of KV locality (`model-protocol/src/lib.rs`, `model-protocol/src/kv_hash.rs`
and `kv-indexer/src/index/mod.rs`).

A model server publishes which blocks of a prompt its cache holds; a frontend keeps an index of
them and asks it for the longest cached prefix of a prompt. Instants and durations are natural
numbers of one unit, token ids and counters natural numbers.
-/

namespace Foretoken.KvLocality

/-! ### Blocks and placements -/

/-- How blocks are hashed. -/
inductive KvHashFormat where
  | normalizedKeyedBlake3V1
  deriving DecidableEq, Ord, Repr

/-- The public name of a block, in base64; empty for the parent of a root block. -/
abbrev KvBlockHash := String

/-- Where a block is stored. -/
inductive KvStorageTier where
  | device
  | hostPinned
  | disk
  | external
  deriving DecidableEq, Ord, Repr

/-- Where a tier is, seen from the event source. -/
inductive KvCacheLocality where
  | unspecified
  | local_
  | remote
  deriving DecidableEq, Ord, Repr

/-- A tier and how far it is from the engine. -/
structure KvPlacement where
  tier : KvStorageTier
  locality : KvCacheLocality
  deriving DecidableEq, Ord, Repr

/-- The model and layout that a hash belongs to. -/
structure KvPartition where
  modelRevision : String
  scopeId : String
  hashFormat : KvHashFormat
  hashBlockSize : ℕ
  groupIdx : Option ℕ
  specKind : String
  slidingWindow : Option ℕ
  deriving DecidableEq, Ord, Repr

/-- A block, identified by its hash and its parent's. -/
structure KvStoredBlock where
  partition : KvPartition
  blockIndex : ℕ
  parentHash : KvBlockHash
  blockHash : KvBlockHash
  deriving DecidableEq, Repr

/-! ### The published stream -/

/-- A change of a cache. The index's own event type (`KvIndexEvent`) has the same cases
and is not kept apart from it. -/
inductive KvDeltaEvent where
  | blockStored (blocks : List KvStoredBlock) (placement : KvPlacement)
  | blockRemoved (blockHashes : List KvBlockHash) (placement : KvPlacement) (groupIdx : Option ℕ)
  | allBlocksCleared
  deriving DecidableEq, Repr

/-- A change under its number in the stream. -/
abbrev KvDelta := Numbered KvDeltaEvent

/-- A group of layers that are cached alike. -/
structure KvCacheGroup where
  groupIdx : ℕ
  specKind : String
  slidingWindow : Option ℕ
  deriving DecidableEq, Repr

/-- Events of a rank, from the position of the consumer on. -/
structure KvDeltaResponse where
  eventSourceId : String
  modelGroupId : String
  epoch : String
  dpRank : ℕ
  through : ℕ
  current : ℕ
  cacheGroups : Option (List KvCacheGroup)
  deltas : List KvDelta
  deriving DecidableEq, Repr

/-- The exact identity that facts are kept under. -/
structure KvEventSourceId where
  eventSourceId : String
  modelGroupId : String
  epoch : String
  dpRank : ℕ
  deriving DecidableEq, Repr

/-! ### Hashes -/

/-- Keyed BLAKE3 under one namespace key. -/
structure KeyedDigest where
  digest : List UInt8 → List UInt8
  length_digest : ∀ input, (digest input).length = 32

/-- `str::as_bytes`. -/
def asBytes (s : String) : List UInt8 := s.toUTF8.data.toList

/-- `u32::to_le_bytes`. -/
def toLeBytes (n : ℕ) : List UInt8 :=
  [n, n / 256, n / 65536, n / 16777216].map UInt8.ofNat

/-- `u32::MAX`, hashed in the place of a missing number. -/
def u32Max : ℕ := 4294967295

/-- The public name of a block. The salt enters the root block only. -/
def normalizedKvBlockHash (key : KeyedDigest) (parent : KvBlockHash) (tokens : List ℕ)
    (partition : KvPartition) (cacheSalt : Option String) : KvBlockHash :=
  let salt :=
    match cacheSalt with
    | some salt =>
      if parent = "" ∧ salt ≠ "" then asBytes "\x00cache_salt\x00" ++ asBytes salt else []
    | none => []
  Base64.encode <| key.digest <|
    asBytes parent ++ asBytes partition.modelRevision ++ asBytes partition.scopeId ++
      toLeBytes partition.hashBlockSize ++ toLeBytes (partition.groupIdx.getD u32Max) ++
      asBytes partition.specKind ++ toLeBytes (partition.slidingWindow.getD u32Max) ++
      tokens.flatMap toLeBytes ++ salt

/-- `slice::chunks_exact`: the complete chunks of a list, the rest is left out. -/
def chunksExact {α : Type*} (size : ℕ) (l : List α) : List (List α) :=
  (List.range (l.length / size)).map fun i => (l.drop (i * size)).take size

/-! ### Queries -/

/-- A prompt to look up. -/
structure KvPrefixQuery where
  tokens : List ℕ
  cacheSalt : Option String
  modelRevision : String
  scopeId : String
  hashFormat : KvHashFormat
  groupIdx : Option ℕ
  matchAllGroups : Bool
  specKind : String
  slidingWindow : Option ℕ
  deriving DecidableEq, Repr

/-- What a query reports for one placement. -/
structure KvPrefixMatch where
  placement : KvPlacement
  matchedTokens : ℕ
  deriving DecidableEq, Ord, Repr

/-- The partitions that both indexes take for a query. -/
def KvPrefixQuery.selects (query : KvPrefixQuery) (partition : KvPartition) : Bool :=
  partition.modelRevision = query.modelRevision && partition.scopeId = query.scopeId &&
    partition.hashFormat = query.hashFormat &&
    (query.matchAllGroups || partition.groupIdx = query.groupIdx) &&
    partition.specKind = query.specKind && partition.slidingWindow = query.slidingWindow &&
    0 < partition.hashBlockSize

/-- The blocks that the given chunks of tokens make up below a parent. -/
def hashChain (key : KeyedDigest) (partition : KvPartition) (cacheSalt : Option String) :
    KvBlockHash → ℕ → List (List ℕ) → List KvStoredBlock
  | _, _, [] => []
  | parent, index, tokens :: rest =>
    let hash := normalizedKvBlockHash key parent tokens partition cacheSalt
    ⟨partition, index, parent, hash⟩ :: hashChain key partition cacheSalt hash (index + 1) rest

/-- The query's own hash chain in a partition. -/
def KvPrefixQuery.chain (query : KvPrefixQuery) (key : KeyedDigest) (partition : KvPartition) :
    List KvStoredBlock :=
  hashChain key partition query.cacheSalt "" 0 (chunksExact partition.hashBlockSize query.tokens)

/-! ### Blocks that belong together -/

/-- No two blocks of a set share a hash. -/
def Unambiguous (S : Set KvStoredBlock) : Prop :=
  ∀ b ∈ S, ∀ b' ∈ S, b.blockHash = b'.blockHash → b = b'

/-- Consecutive blocks, each the parent of the next one. -/
def Linked (b : ℕ → KvStoredBlock) (n : ℕ) : Prop :=
  ∀ l < n, (b (l + 1)).parentHash = (b l).blockHash

end Foretoken.KvLocality
