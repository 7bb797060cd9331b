import Foretoken.Lib.Checked
import Foretoken.KvLocality.Events

/-!
The valid events of an engine, and the parts of a message.

The adapter checks an event and acts on it in one go. Here the two are taken apart: `decode` is
what the checks of `ingest_event` make of a value, `RankState.perform` what is then done to the
rank. Whether an event is valid does not depend on the rank, so the parts of a message are known
when it arrives.
-/

namespace Foretoken.KvLocality

open Option List

/-- A valid event of an engine. -/
inductive EngineEvent where
  | cleared
  | removed (placement : Option KvPlacement) (groupIdx : Option ℕ) (raws : List (List UInt8))
  | stored (store : PendingStore)
  | leftOut
  deriving DecidableEq, Repr

namespace RankState

/-- The removal of the blocks that the raw hashes name. -/
def evict (rank : RankState) (place : Option KvPlacement) (groupIdx : Option ℕ)
    (raws : List (List UInt8)) : RankState :=
  let (rank, removed) := raws.foldl (removeRaw place groupIdx) (rank, ∅)
  removed.toList.foldl
    (fun rank entry => rank.push (.blockRemoved entry.2 entry.1.placement entry.1.groupIdx)) rank

/-- What a valid event does to its rank. -/
def perform (key : KeyedDigest) (rank : RankState) : EngineEvent → RankState
  | .cleared => rank.clear
  | .removed place groupIdx raws => rank.evict place groupIdx raws
  | .stored store => rank.applyPendingStore key store
  | .leftOut => rank

lemma removeLoop_eq {p : Option KvPlacement} {g : Option ℕ} {vs : List Value}
    {raws : List (List UInt8)} (h : vs.mapM rawHash = some raws)
    (s : RankState × Table RemovalKey (List KvBlockHash)) :
    removeLoop p g vs s = (raws.foldl (removeRaw p g) s, true) := by
  induction vs generalizing raws s with
  | nil =>
    obtain rfl : [] = raws := by simpa using h
    rfl
  | cons v vs ih =>
    rw [mapM_cons] at h
    obtain ⟨raw, hraw, h⟩ := bind_eq_some_iff.mp h
    obtain ⟨rest, hrest, h⟩ := bind_eq_some_iff.mp h
    cases h
    rw [removeLoop, hraw]
    exact ih hrest _

lemma removeLoop_invalid {vs : List Value} (h : vs.mapM rawHash = none)
    (p : Option KvPlacement) (g : Option ℕ)
    (s : RankState × Table RemovalKey (List KvBlockHash)) :
    (removeLoop p g vs s).2 = false := by
  induction vs generalizing s with
  | nil => cases h
  | cons v vs ih =>
    rw [removeLoop]
    cases hraw : rawHash v with
    | none => rfl
    | some =>
      refine ih ?_ _
      exact eq_none_iff_forall_ne_some.mpr (by simpa [mapM_cons, hraw] using h)

end RankState

open RankState

namespace KvEventAdapter

/-- The checks of `ingest_event`: the event that a value stands for, if it is valid. -/
def decode (adapter : KvEventAdapter) : Value → Option EngineEvent
  | .map fields =>
    let eventType :=
      (((field fields "type").or (field fields "event_type")).bind Value.asStr).getD ""
    if contains eventType "AllBlocksCleared" then some .cleared
    else
      match (field fields "block_hashes").bind Value.asArray with
      | none => none
      | some rawHashes =>
        if contains eventType "BlockRemoved" then
          (rawHashes.mapM rawHash).map
            (.removed (placement (field fields "medium") (field fields "locality"))
              (optionalU32 (field fields "group_idx")))
        else if !contains eventType "BlockStored" then none
        else
          match adapter.storeOf rawHashes fields with
          | .ok store => some (.stored store)
          | .error true => some .leftOut
          | .error false => none
  | _ => none

lemma removeBlocks_decode (r : RankState) (hs : List Value) (fs : Fields) :
    match hs.mapM rawHash with
    | some raws => r.removeBlocks hs fs =
        (r.evict (placement (field fs "medium") (field fs "locality"))
          (optionalU32 (field fs "group_idx")) raws, true)
    | none => (r.removeBlocks hs fs).2 = false := by
  cases hraws : hs.mapM rawHash with
  | none =>
    have hinvalid := removeLoop_invalid hraws
      (placement (field fs "medium") (field fs "locality"))
      (optionalU32 (field fs "group_idx")) (r, ∅)
    rw [removeBlocks]
    generalize removeLoop _ _ hs (r, ∅) = result at hinvalid ⊢
    obtain ⟨⟨r', removed⟩, valid⟩ := result
    obtain rfl : valid = false := hinvalid
    rfl
  | some =>
    dsimp only
    rw [removeBlocks, removeLoop_eq hraws, evict]

/-- **The code is the checks and then the act.** -/
theorem ingestEvent_decode (A : KvEventAdapter) (r : RankState) (v : Value) :
    match A.decode v with
    | some e => A.ingestEvent r v = (r.perform A.key e, true)
    | none => (A.ingestEvent r v).2 = false := by
  cases v with
  | map fs =>
    rw [decode, ingestEvent]
    cases (field fs "block_hashes").bind Value.asArray with
    | none =>
      dsimp only
      split_ifs <;> rfl
    | some hs =>
      dsimp only
      split_ifs
      · rfl
      · have hremove := removeBlocks_decode r hs fs
        cases hraws : hs.mapM rawHash <;> simpa [hraws, RankState.perform] using hremove
      · rfl
      · rw [storeBlocks]
        rcases A.storeOf hs fs with (_ | _) | _ <;> rfl
  | _ => rfl

/-! ### The parts of a message -/

/-- A batch: its events up to the first invalid one and the failure, or all and the recovery. -/
def batchParts (adapter : KvEventAdapter) : List Value → List IngestPart
  | [] => [.recover]
  | event :: events =>
    .event event :: if (adapter.decode event).isSome then adapter.batchParts events else [.fail]

/-- A message: the failure alone if its frames are not those of the next message; otherwise its
batch, or the failure if there is none for the rank, and the acknowledgement. -/
def messageParts (decode : List UInt8 → Option Value) (adapter : KvEventAdapter) (dpRank : ℕ) :
    List (List UInt8) → List IngestPart
  | [topic, number, payload] =>
    let previous := adapter.ranks[dpRank]?.bind (·.lastPublisherSequence)
    if topic ≠ asBytes kvEventTopic ∨ number.length ≠ 8 ∨
        previous.any (· + 1 ≠ fromBeBytes number) then [.fail]
    else
      (if adapter.dataParallelSize ≤ dpRank then []
        else (adapter.batchEvents dpRank (decode payload)).elim [.fail] adapter.batchParts) ++
      [.acknowledge (fromBeBytes number)]
  | _ => [.fail]

section

variable (adapter : KvEventAdapter) (dpRank : ℕ) (fresh : String)

lemma batchParts_setRank (r : RankState) (es : List Value) :
    (adapter.setRank dpRank r).batchParts es = adapter.batchParts es := by
  induction es with
  | nil => rfl
  | cons e es ih =>
    rw [batchParts, batchParts, ih]
    rfl

lemma foldl_perform_of_absent (habsent : adapter.ranks[dpRank]? = none) (parts : List IngestPart) :
    parts.foldl (perform dpRank fresh) adapter = adapter := by
  have hmodify : ∀ f : RankState → RankState, adapter.ranks.modify dpRank f = adapter.ranks :=
    fun f => modify_eq_self (getElem?_eq_none_iff.mp habsent)
  have hpart : ∀ part, perform dpRank fresh adapter part = adapter := by
    intro part
    cases part with
    | event => rw [perform, habsent]
    | fail => rw [perform, failStream, hmodify]
    | recover => rw [perform, recover, hmodify]
    | acknowledge => rw [perform, acknowledge, hmodify]
  induction parts with
  | nil => rfl
  | cons part parts ih => rw [foldl_cons, hpart, ih]

/-- A batch is handled event by event, in the order of its parts. -/
lemma ingestEvents_eq_perform (es : List Value) :
    (match adapter.ingestEvents dpRank es with
      | (ingested, false) => ingested.failStream dpRank fresh
      | (ingested, true) => ingested.recover dpRank) =
    (adapter.batchParts es).foldl (perform dpRank fresh) adapter := by
  induction es generalizing adapter with
  | nil => rfl
  | cons e es ih =>
    cases hrank : adapter.ranks[dpRank]? with
    | none =>
      rw [foldl_perform_of_absent adapter dpRank fresh hrank, ingestEvents, hrank]
      exact foldl_perform_of_absent adapter dpRank fresh hrank [.fail]
    | some r =>
      have hdecode := adapter.ingestEvent_decode r e
      rw [ingestEvents, hrank, batchParts, foldl_cons]
      simp only [perform, hrank]
      generalize adapter.ingestEvent r e = result at hdecode ⊢
      obtain ⟨r', valid⟩ := result
      cases hevent : adapter.decode e with
      | none =>
        obtain rfl : valid = false := by simpa [hevent] using hdecode
        rfl
      | some event =>
        obtain rfl : valid = true := by simp_all
        simp [ih, batchParts_setRank]

lemma available_failStream :
    ((adapter.failStream dpRank fresh).ranks[dpRank]?.any (·.available)) = false := by
  rw [failStream, getElem?_modify_eq]
  cases adapter.ranks[dpRank]? <;> rfl

lemma available_acknowledge (sequence : ℕ) :
    ((adapter.acknowledge dpRank sequence).ranks[dpRank]?.any (·.available)) =
      adapter.ranks[dpRank]?.any (·.available) := by
  rw [acknowledge, getElem?_modify_eq]
  cases hrank : adapter.ranks[dpRank]? with
  | none => rfl
  | some r => cases havailable : r.available <;> simp [havailable]

/-- **A message is its parts, in order**, and it is accepted if they leave its rank available. -/
theorem ingestFrames_eq_perform (decode : List UInt8 → Option Value) (frames : List (List UInt8)) :
    let left := (adapter.messageParts decode dpRank frames).foldl (perform dpRank fresh) adapter
    adapter.ingestFrames decode dpRank frames fresh =
      (left, left.ranks[dpRank]?.any (·.available)) := by
  have hfail : (adapter.failStream dpRank fresh, false) = (adapter.failStream dpRank fresh,
      ((adapter.failStream dpRank fresh).ranks[dpRank]?.any (·.available))) := by
    rw [available_failStream]
  match frames with
  | [] | [_] | [_, _] | _ :: _ :: _ :: _ :: _ => exact hfail
  | [topic, number, payload] =>
    dsimp only [ingestFrames, messageParts]
    by_cases hframes : topic ≠ asBytes kvEventTopic ∨ number.length ≠ 8
    · rwa [if_pos hframes, if_pos (or_assoc.mp (.inl hframes))]
    rw [if_neg hframes]
    by_cases hnext : ((adapter.ranks[dpRank]?.bind (·.lastPublisherSequence)).any
        (· + 1 ≠ fromBeBytes number)) = true
    · rwa [if_pos hnext, if_pos (or_assoc.mp (.inr hnext))]
    rw [if_neg hnext, if_neg (mt or_assoc.mpr (not_or.mpr ⟨hframes, hnext⟩)), foldl_append]
    have hbatch : adapter.ingestMsgpack decode dpRank payload fresh =
        (if adapter.dataParallelSize ≤ dpRank then []
          else (adapter.batchEvents dpRank (decode payload)).elim [.fail]
            adapter.batchParts).foldl (perform dpRank fresh) adapter := by
      rw [ingestMsgpack]
      split_ifs
      · rfl
      cases adapter.batchEvents dpRank (decode payload) with
      | none => rfl
      | some es => exact ingestEvents_eq_perform adapter dpRank fresh es
    rw [← hbatch, foldl_cons, foldl_nil, perform, available_acknowledge]

end

end KvEventAdapter

/-! ### The stores that pass the checks -/

lemma length_of_mem_chunksExact {α : Type*} {size : ℕ} {l chunk : List α}
    (h : chunk ∈ chunksExact size l) : chunk.length = size := by
  obtain ⟨i, hi, rfl⟩ := mem_map.mp h
  have hle : (i + 1) * size ≤ l.length :=
    (Nat.mul_le_mul_right size (mem_range.mp hi)).trans (Nat.div_mul_le_self _ _)
  rw [length_take, length_drop]
  rw [Nat.succ_mul] at hle
  omega

/-- Complete blocks of a plain full-attention partition. -/
structure PendingStore.WellFormed (store : PendingStore) : Prop where
  groupIdx : store.partition.groupIdx = store.groupIdx
  specKind : store.partition.specKind = "full_attention"
  slidingWindow : store.partition.slidingWindow = none
  blockSize : 0 < store.partition.hashBlockSize
  complete : ∀ block ∈ store.rawBlocks, block.2.length = store.partition.hashBlockSize
  cacheSalt : store.parentRawHash ≠ none → store.cacheSalt = none

namespace KvEventAdapter

lemma saltOf_child {i : ℕ} {ks : List Value} {salt salt' : Option String}
    (h : saltOf false i ks salt = .ok salt') : salt' = salt := by
  revert h
  fun_induction saltOf false i ks salt <;> simp_all

lemma cacheSaltOf_child {p : KvPlacement} {hs : List Value} {extraKeys : Option Value}
    {salt : Option String} (h : cacheSaltOf p false hs extraKeys = .ok salt) :
    salt = none := by
  revert h
  fun_cases cacheSaltOf p false hs extraKeys with
  | case1 => exact saltOf_child
  | _ => simp +contextual [eq_comm]

lemma wellFormed_storeOf {A : KvEventAdapter} {hs : List Value} {fs : Fields}
    {S : PendingStore} (h : A.storeOf hs fs = .ok S) :
    S.WellFormed := by
  rw [storeOf] at h
  -- each check that fails is left by an error
  split at h <;> try cases h
  dsimp only at h
  split at h <;> try cases h
  obtain ⟨salt, hsalt, h⟩ := ok_of_bind h
  split at h <;> try cases h
  rename_i hdense
  split at h <;> try cases h
  split at h <;> try cases h
  split at h <;> try cases h
  rename_i hcut
  split at h <;> try cases h
  split at h <;> try cases h
  simp only [Bool.or_eq_true, decide_eq_true_eq, not_or, not_not, Bool.not_eq_true,
    isSome_eq_false_iff, isNone_iff_eq_none] at hdense hcut
  refine ⟨rfl, hdense.1.1, hdense.1.2, Nat.pos_of_ne_zero hcut.1.1, fun b hblock => ?_,
    fun hpar => ?_⟩
  · exact length_of_mem_chunksExact (of_mem_zip hblock).2
  · rw [isNone_eq_false_iff.mpr (isSome_iff_ne_none.mpr hpar)] at hsalt
    exact cacheSaltOf_child hsalt

/-- **The stores that pass the checks.** -/
lemma wellFormed_of_decode {A : KvEventAdapter} {v : Value} {S : PendingStore}
    (h : A.decode v = some (.stored S)) : S.WellFormed := by
  revert h
  fun_cases decode
  case case5 hstore =>
    rintro ⟨⟩
    exact wellFormed_storeOf hstore
  all_goals simp

end KvEventAdapter

end Foretoken.KvLocality
