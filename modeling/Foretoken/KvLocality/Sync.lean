import Foretoken.KvLocality.Index

/-!
The synchronization of the index (`kv-indexer/src/sync.rs`, `kv-indexer/src/config.rs`).

A frontend polls the event sources of its configuration, checks each answer against the cursor it
holds for the source, and applies its deltas to the index. An indexer without a key is disabled: it
does nothing and is not modelled. `now i` is what the clock shows at its `i`-th reading in a call.
-/

namespace Foretoken.KvLocality

open RingLog Option

/-! ### Configuration -/

/-- A rank of a backend that reports its cache. -/
structure KvEventSourceConfig where
  eventSourceId : String
  modelGroupId : String
  endpoint : String
  dpRank : ℕ
  modelRevision : String
  scopeId : String
  deriving DecidableEq, Repr

/-- The sources of a route and the placements it can read. -/
structure KvRouteBinding where
  dataParallelRankEventSourceIds : Table ℕ String
  readablePlacements : List KvPlacement
  canRestoreOrTransfer : Bool

/-- The index that is asked for. -/
inductive KvLocalityIndexImplementation where
  | auto
  | positionalHash
  | radixTree
  deriving DecidableEq, Repr

/-- Why `auto` chose its index. -/
inductive KvAutoResolutionReason where
  | noEventSources
  | singleSourcePrimaryRank
  | independentPrimarySources
  | multipleSourcesInScope
  | nonPrimaryDataParallelRank
  | readableTierContinuation
  deriving DecidableEq, Repr

/-- What the choice of the index depends on. -/
structure KvLocalityTopology where
  eventSourceCount : ℕ
  hasScopeWithDistinctSources : Bool
  hasNonPrimaryDataParallelRank : Bool
  hasReadableTierContinuation : Bool
  deriving DecidableEq, Repr

/-- The first reason that applies. -/
def KvLocalityTopology.resolutionReason (t : KvLocalityTopology) : KvAutoResolutionReason :=
  if t.eventSourceCount = 0 then .noEventSources
  else if t.hasNonPrimaryDataParallelRank then .nonPrimaryDataParallelRank
  else if t.hasReadableTierContinuation then .readableTierContinuation
  else if t.hasScopeWithDistinctSources then .multipleSourcesInScope
  else if 1 < t.eventSourceCount then .independentPrimarySources
  else .singleSourcePrimaryRank

/-- The index that is used. -/
def KvLocalityIndexImplementation.resolve (t : KvLocalityTopology) :
    KvLocalityIndexImplementation → KvLocalityIndexResolvedImplementation
  | .radixTree => .radixTree
  | .positionalHash => .positionalHash
  | .auto =>
    if t.resolutionReason ∈
        [.noEventSources, .singleSourcePrimaryRank, .independentPrimarySources] then
      .positionalHash
    else .radixTree

/-- What an indexer is configured with. -/
structure KvRuntimeConfig where
  eventSources : List KvEventSourceConfig
  routeBindings : Table String KvRouteBinding
  requestedImplementation : KvLocalityIndexImplementation

/-- Why a configuration is rejected. -/
inductive KvRuntimeConfigError where
  | duplicateEventSourceId (id : String)
  | bindingSourceMissing (routeId eventSourceId : String)
  deriving DecidableEq, Repr

namespace KvRuntimeConfig

/-- The loop over the sources: the first id that was seen before. -/
def duplicateId : List String → List KvEventSourceConfig → Option String
  | _, [] => none
  | seen, source :: sources =>
    if source.eventSourceId ∈ seen then some source.eventSourceId
    else duplicateId (source.eventSourceId :: seen) sources

/-- The loop over the bindings: the first one that names no source. -/
def missingSource (config : KvRuntimeConfig) : Option (String × String) :=
  let bound := config.routeBindings.toList.flatMap fun route =>
    route.2.dataParallelRankEventSourceIds.toList.map fun rank => (route.1, rank.2)
  bound.find? fun entry => entry.2 ∉ config.eventSources.map (·.eventSourceId)

/-- The topology of a configuration. -/
def topology (config : KvRuntimeConfig) : KvLocalityTopology where
  eventSourceCount := config.eventSources.length
  hasScopeWithDistinctSources := config.eventSources.any fun a =>
    config.eventSources.any fun b => a.scopeId = b.scopeId && a.eventSourceId ≠ b.eventSourceId
  hasNonPrimaryDataParallelRank := config.eventSources.any (0 < ·.dpRank)
  hasReadableTierContinuation := config.routeBindings.toList.any fun route =>
    route.2.canRestoreOrTransfer && route.2.readablePlacements.any (·.tier ≠ .device)

end KvRuntimeConfig

/-! ### The indexer -/

/-- Why the index is degraded. -/
inductive KvIndexDegradedReason where
  | keyMissing
  | keyReadFailed
  | keyInvalidLength
  | sourceUnavailable
  | deltaTransport
  | deltaHttpStatus
  | eventSubscriberUnavailable
  | deltaDecode
  | deltaIdentityMismatch
  | deltaCursorReset
  | deltaSequenceGap
  | deltaSequenceInvalid
  deriving DecidableEq, Repr

/-- The state of the indexer. -/
inductive KvIndexState where
  | disabled
  | starting
  | healthy
  | degraded
  deriving DecidableEq, Repr

/-- How far a source has been read. -/
structure Cursor where
  epoch : String := ""
  after : Option ℕ := none
  cacheGroups : Option (List KvCacheGroup) := none
  deriving DecidableEq, Inhabited, Repr

/-- The index and the position in each source. -/
structure State where
  key : KeyedDigest
  index : KvLocalityIndexes
  cursors : Table String Cursor

/-- The health of the indexer and of its sources. -/
structure Health where
  state : KvIndexState
  reason : Option KvIndexDegradedReason
  sources : Table String Bool

/-- The indexer of a frontend. -/
structure KvIndexer where
  config : KvRuntimeConfig
  resolved : KvLocalityIndexResolvedImplementation
  autoResolutionReason : Option KvAutoResolutionReason
  state : State
  health : Health

/-- Facts are kept for 300 seconds. -/
def factLifetime : ℕ := 300

/-- An indexer that has read nothing. -/
def KvIndexer.new (config : KvRuntimeConfig) (key : KeyedDigest) :
    Except KvRuntimeConfigError KvIndexer :=
  match KvRuntimeConfig.duplicateId [] config.eventSources, config.missingSource with
  | some id, _ => .error (.duplicateEventSourceId id)
  | none, some (routeId, id) => .error (.bindingSourceMissing routeId id)
  | none, none =>
    let resolved := config.requestedImplementation.resolve config.topology
    .ok
      { config := config
        resolved := resolved
        autoResolutionReason :=
          if config.requestedImplementation = .auto then some config.topology.resolutionReason
          else none
        state := ⟨key, .new resolved factLifetime, ∅⟩
        health :=
          { state := if config.eventSources = [] then .healthy else .starting
            reason := none
            sources := config.eventSources.foldl
              (fun sources source => sources.insert source.eventSourceId false) ∅ } }

/-! ### Polling -/

/-- The parameters of a poll. -/
structure KvDeltaQuery where
  dpRank : ℕ
  epoch : Option String
  after : Option ℕ
  limit : Option ℕ
  deriving DecidableEq, Repr

/-- The question that `fetch_delta` asks; the source asks for 256 deltas. -/
def fetchQuery (source : KvEventSourceConfig) (cursor : Cursor) (limit : ℕ) : KvDeltaQuery where
  dpRank := source.dpRank
  epoch := if cursor.epoch = "" then none else some cursor.epoch
  after := cursor.after
  limit := some limit

/-! ### Answers -/

/-- The identity that the facts of a source have in an epoch. -/
def KvEventSourceConfig.identity (source : KvEventSourceConfig) (epoch : String) :
    KvEventSourceId :=
  ⟨source.eventSourceId, source.modelGroupId, epoch, source.dpRank⟩

namespace State

/-- A source is forgotten. -/
def clear (state : State) (source : KvEventSourceConfig) : State :=
  match state.cursors.lookup source.eventSourceId with
  | some cursor =>
    { state with
      cursors := state.cursors.erase source.eventSourceId
      index := state.index.clearSource (source.identity cursor.epoch) }
  | none => { state with index := state.index.clearEventSource source.eventSourceId }

/-- The cursor of a source, the default one if there is none. -/
def cursor (state : State) (source : KvEventSourceConfig) : Cursor :=
  (state.cursors.lookup source.eventSourceId).getD default

end State

/-- The loop over the deltas of an answer. -/
def checkSequence : ℕ → List KvDelta → Except KvIndexDegradedReason Unit
  | _, [] => .ok ()
  | expected, x :: rest =>
    if x.sequence ≠ expected then
      .error (if expected < x.sequence then .deltaSequenceGap else .deltaSequenceInvalid)
    else checkSequence (expected + 1) rest

/-- The continuity checks of `apply`. -/
def checkPage (after : Option ℕ) (d : KvDeltaResponse) : Except KvIndexDegradedReason Unit :=
  if d.deltas = [] then
    if d.through ≠ after.getD 0 then .error .deltaSequenceInvalid else .ok ()
  else
    match checkSequence (expected after) d.deltas with
    | .error reason => .error reason
    | .ok () =>
      if d.deltas.getLast?.all (·.sequence ≠ d.through) then .error .deltaSequenceInvalid
      else .ok ()

/-- Apply the deltas and touch the source, each at its own reading of the clock. -/
def applyDeltas (id : KvEventSourceId) (now : ℕ → ℕ) :
    ℕ → List KvDelta → KvLocalityIndexes → KvLocalityIndexes
  | i, [], index => index.touchSource id (now i)
  | i, x :: rest, index => applyDeltas id now (i + 1) rest (index.apply id x.event (now i))

/-- The position in the epoch of an answer that a cursor stands at. -/
def Cursor.position (cursor : Cursor) (epoch : String) : Option ℕ :=
  if cursor.epoch = epoch then cursor.after else none

namespace State

variable (state : State) (source : KvEventSourceConfig) (d : KvDeltaResponse)

/-- The epoch of an answer differs from that of the cursor. -/
def epochReset : Bool :=
  (state.cursor source).epoch ≠ "" && (state.cursor source).epoch ≠ d.epoch

/-- A new epoch invalidates the facts of the old one. -/
def base : State :=
  if state.epochReset source d then state.clear source else state

/-- The end of `apply`, for an answer that has passed all checks. -/
def accept
    (after : Option ℕ) (now : ℕ → ℕ) : State :=
  { state with
    index := applyDeltas (source.identity d.epoch) now 0 d.deltas state.index
    cursors := state.cursors.insert source.eventSourceId
      { epoch := d.epoch
        after := if d.deltas = [] then after else some d.through
        cacheGroups := d.cacheGroups } }

/-- A response is applied, if it continues what was read. -/
def apply (now : ℕ → ℕ) : State × Except KvIndexDegradedReason Unit :=
  if d.eventSourceId ≠ source.eventSourceId ∨ d.modelGroupId ≠ source.modelGroupId ∨
      d.dpRank ≠ source.dpRank ∨ d.current < d.through then
    (state.clear source, .error .deltaIdentityMismatch)
  else
    let after := (state.cursor source).position d.epoch
    if state.epochReset source d ∧ d.deltas.head?.any (·.sequence ≠ 0) then
      (state.base source d, .error .deltaCursorReset)
    else
      match checkPage after d with
      | .error reason => ((state.base source d).clear source, .error reason)
      | .ok () => ((state.base source d).accept source d after now, .ok ())

end State

namespace KvIndexer

variable (indexer : KvIndexer) (source : KvEventSourceConfig)

/-- A source was read. -/
def ok : KvIndexer :=
  let sources := indexer.health.sources.insert source.eventSourceId true
  { indexer with
    health :=
      if sources.entries.all (·.2) then ⟨.healthy, none, sources⟩
      else { indexer.health with sources := sources } }

/-- A source failed and is forgotten. -/
def fail (reason : KvIndexDegradedReason) : KvIndexer :=
  { indexer with
    state := indexer.state.clear source
    health :=
      ⟨.degraded, some reason, indexer.health.sources.insert source.eventSourceId false⟩ }

/-- The end of a round of `refresh` for one source, and the error it met. -/
def settle
    (result : Except KvIndexDegradedReason KvDeltaResponse) (now : ℕ → ℕ) :
    KvIndexer × Option KvIndexDegradedReason :=
  match result with
  | .error reason => (indexer.fail source reason, some reason)
  | .ok d =>
    match indexer.state.apply source d now with
    | (state, .error reason) => ({ indexer with state := state }.fail source reason, some reason)
    | (state, .ok ()) => ({ indexer with state := state }.ok source, none)

end KvIndexer

/-! ### Which answers are accepted -/

/-- The answer names the source. -/
def SameIdentity (source : KvEventSourceConfig) (d : KvDeltaResponse) : Prop :=
  d.eventSourceId = source.eventSourceId ∧ d.modelGroupId = source.modelGroupId ∧
    d.dpRank = source.dpRank

/-- The numbers of the answer continue where the cursor stands, up to the position that the
answer names. -/
def InSequence (cursor : Cursor) (d : KvDeltaResponse) : Prop :=
  let after := cursor.position d.epoch
  d.deltas = numberFrom (expected after) (d.deltas.map (·.event)) ∧
    d.through = ((d.deltas.getLast?.map (·.sequence)).or after).getD 0 ∧ d.through ≤ d.current

instance (source : KvEventSourceConfig) (d : KvDeltaResponse) : Decidable (SameIdentity source d) :=
  inferInstanceAs (Decidable (_ ∧ _ ∧ _))

instance (cursor : Cursor) (d : KvDeltaResponse) : Decidable (InSequence cursor d) :=
  inferInstanceAs (Decidable (_ ∧ _ ∧ _))

lemma checkSequence_eq_ok_iff (first : ℕ) (ds : List KvDelta) :
    checkSequence first ds = .ok () ↔ ds = numberFrom first (ds.map (·.event)) := by
  induction ds generalizing first with
  | nil => exact ⟨fun _ => rfl, fun _ => rfl⟩
  | cons x rest ih =>
    rw [checkSequence, List.map_cons, numberFrom, List.cons.injEq, ← ih]
    by_cases hx : x.sequence = first
    · rw [if_neg (not_not.mpr hx)]
      refine (and_iff_right ?_).symm
      rw [← hx]
    · rw [if_pos hx]
      exact iff_of_false (fun h => by cases h) fun h => hx (congrArg Numbered.sequence h.1)

lemma checkPage_eq_ok_iff (t : Option ℕ) (d : KvDeltaResponse) :
    checkPage t d = .ok () ↔ d.deltas = numberFrom (expected t) (d.deltas.map (·.event)) ∧
        d.through = ((d.deltas.getLast?.map (·.sequence)).or t).getD 0 := by
  rw [checkPage, ← checkSequence_eq_ok_iff]
  by_cases hnil : d.deltas = []
  · rw [hnil]
    by_cases hthru : d.through = t.getD 0
    · rw [if_neg (not_not.mpr hthru)]
      exact ⟨fun _ => ⟨rfl, hthru⟩, fun _ => rfl⟩
    · rw [if_pos hthru]
      exact iff_of_false nofun fun h => hthru h.2
  · rw [if_neg hnil]
    rw [List.getLast?_eq_getLast_of_ne_nil hnil]
    generalize d.deltas.getLast hnil = last
    cases hseq : checkSequence (expected t) d.deltas with
    | error => exact iff_of_false nofun fun h => nomatch h.1
    | ok =>
      simp only [all_some, map_some, some_or, getD_some,
        decide_eq_true_iff, true_and]
      by_cases hthru : last.sequence = d.through
      · rw [if_neg (not_not.mpr hthru)]
        exact ⟨fun _ => hthru.symm, fun _ => rfl⟩
      · rw [if_pos hthru]
        exact iff_of_false nofun fun h => hthru h.symm

end Foretoken.KvLocality
