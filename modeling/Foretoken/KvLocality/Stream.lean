import Foretoken.KvLocality.Events

/-!
The stream of a rank: the numbered events of an epoch, and how each operation of the adapter acts
on them.
-/

namespace Foretoken.KvLocality

open List Option

variable {i : ℕ} {r' : RankState}

open RingLog

namespace RankState

/-- The same epoch, and a stream that has only grown. -/
def Continues (rank rank' : RankState) : Prop :=
  rank'.epoch = rank.epoch ∧ rank.ring.log <+: rank'.ring.log

variable {rank rank' rank'' : RankState}

lemma Continues.refl (rank : RankState) : rank.Continues rank := ⟨rfl, prefix_refl _⟩

lemma Continues.trans (h : rank.Continues rank') (h' : rank'.Continues rank'') :
    rank.Continues rank'' :=
  ⟨h'.1.trans h.1, h.2.trans h'.2⟩

lemma continues_push (rank : RankState) (e : KvDeltaEvent) : rank.Continues (rank.push e) :=
  ⟨rfl, prefix_append _ _⟩

lemma continues_clear (rank : RankState) : rank.Continues rank.clear :=
  ⟨rfl, prefix_append _ _⟩

lemma continues_publishStore (key : KeyedDigest) (rank : RankState) (S : PendingStore)
    (p : KvBlockHash × ℕ) : rank.Continues (publishStore key rank S p) := by
  rw [publishStore]
  split_ifs
  · exact ⟨rfl, prefix_refl _⟩
  · exact ⟨rfl, prefix_append _ _⟩

lemma continues_foldl_releaseChildren (ks : List RawKey) (s : RankState × List PendingStore) :
    s.1.Continues (ks.foldl releaseChildren s).1 := by
  induction ks generalizing s with
  | nil => exact Continues.refl _
  | cons key ks ih =>
    have hrest := ih (releaseChildren s key)
    exact ⟨hrest.1, hrest.2⟩

lemma continues_resolveStep {key : KeyedDigest} {s next : RankState × List PendingStore}
    (h : resolveStep key s = some next) : s.1.Continues next.1 := by
  obtain ⟨rank, queue⟩ := s
  cases queue with
  | nil => cases h
  | cons S =>
    rw [resolveStep] at h
    cases hpar : rank.parentOf S with
    | none =>
      rw [hpar] at h
      cases h
      exact ⟨rfl, prefix_refl _⟩
    | some p =>
      rw [hpar] at h
      cases h
      exact (continues_publishStore key rank S p).trans
        (continues_foldl_releaseChildren _ _)

lemma continues_applyPendingStore (key : KeyedDigest) (rank : RankState) (S : PendingStore) :
    rank.Continues (rank.applyPendingStore key S) :=
  Loop.run_preserves (I := fun s => rank.Continues s.1)
    (fun _ _ hstep h => h.trans (continues_resolveStep hstep)) resolveSize (Continues.refl rank)

section

variable (eventPlacement : Option KvPlacement) (eventGroupIdx : Option ℕ)

lemma continues_removeRaw (s : RankState × Table RemovalKey (List KvBlockHash)) (raw : List UInt8) :
    s.1.Continues (removeRaw eventPlacement eventGroupIdx s raw).1 := by
  rw [removeRaw]
  split
  all_goals exact ⟨rfl, prefix_refl _⟩

lemma continues_removeLoop (vs : List Value) (s : RankState × Table RemovalKey (List KvBlockHash)) :
    s.1.Continues (removeLoop eventPlacement eventGroupIdx vs s).1.1 := by
  induction vs generalizing s with
  | nil => exact Continues.refl _
  | cons v vs ih =>
    rw [removeLoop]
    cases rawHash v with
    | none => exact Continues.refl _
    | some raw => exact (continues_removeRaw _ _ s raw).trans (ih _)

end

lemma continues_foldl_push {α : Type*} (e : α → KvDeltaEvent) (l : List α)
    (rank : RankState) : rank.Continues (l.foldl (fun rank a => rank.push (e a)) rank) := by
  induction l generalizing rank with
  | nil => exact Continues.refl _
  | cons a l ih => exact (continues_push rank _).trans (ih _)

lemma continues_removeBlocks (rank : RankState) (hs : List Value) (fs : Fields) :
    rank.Continues (rank.removeBlocks hs fs).1 := by
  rw [removeBlocks]
  have hloop := continues_removeLoop (placement (field fs "medium") (field fs "locality"))
    (optionalU32 (field fs "group_idx")) hs (rank, ∅)
  generalize removeLoop _ _ hs (rank, ∅) = result at hloop ⊢
  obtain ⟨⟨rank', removed⟩, valid⟩ := result
  cases valid with
  | false => exact hloop
  | true => exact hloop.trans (continues_foldl_push _ _ _)

/-! ### Replays -/

@[simp] lemma epoch_rebaseReplay (rank : RankState) (fresh : String) :
    (rank.rebaseReplay fresh).epoch = fresh :=
  (continues_foldl_push id rank.replay _).1

lemma foldl_push (es : List KvDeltaEvent) (rank : RankState) :
    es.foldl push rank = { rank with ring := es.foldl Ring.push rank.ring } := by
  induction es generalizing rank with
  | nil => rfl
  | cons e es ih => exact ih (rank.push e)

lemma log_foldl_push (events : List KvDeltaEvent) (rank : RankState) :
    (events.foldl push rank).ring.log = rank.ring.log ++ events := by
  rw [foldl_push, Ring.log_foldl_push]

@[simp] lemma log_rebaseReplay (rank : RankState) (fresh : String) :
    (rank.rebaseReplay fresh).ring.log = rank.replay := by
  rw [rebaseReplay, log_foldl_push]
  rfl

/-- Every placement there is. -/
def placements : List KvPlacement :=
  [.device, .hostPinned, .disk, .external].flatMap fun tier =>
    [.unspecified, .local_, .remote].map fun locality => ⟨tier, locality⟩

lemma mem_placements (p : KvPlacement) : p ∈ placements := by
  obtain ⟨tier, locality⟩ := p
  cases tier <;> cases locality <;> decide

/-- There are few placements, so a replay fits into the ring. -/
lemma length_replay (rank : RankState) : rank.replay.length ≤ capacity := by
  rw [replay, length_map, orderedSet, sortByOrd, length_insertionSort]
  have hsub := (nodup_dedup ((rank.rawBlocks.entries.map (·.2)).map (·.placement))).subperm
    fun p _ => mem_placements p
  exact hsub.length_le.trans (by decide)

lemma leavesBehind_iff {after : Option ℕ} :
    rank.leavesBehind after = true ↔ expected after < rank.ring.log.length - capacity := by
  have hhead := rank.ring.head?_entries
  rw [leavesBehind]
  cases hents : rank.ring.entries.head? with
  | none =>
    rw [hents] at hhead
    split_ifs at hhead with hnil
    · rw [hnil]
      simp
    · cases hhead
  | some first =>
    rw [hents] at hhead
    split_ifs at hhead with hnil
    · cases hhead
    have hfirst : first.sequence = rank.ring.log.length - capacity := some.inj hhead
    rw [any_some, decide_eq_true_iff, hfirst]

lemma catchUp_eq (rank : RankState) (epoch : Option String) (after : Option ℕ) (fresh : String) :
    rank.catchUp epoch after fresh = rank ∨ (rank.leavesBehind after = true ∧
        rank.catchUp epoch after fresh = rank.rebaseReplay fresh) := by
  rw [catchUp]
  split_ifs with h
  · exact .inr ⟨h.2, rfl⟩
  · exact .inl rfl

end RankState

namespace KvEventAdapter

open RankState

variable {adapter : KvEventAdapter} {dpRank : ℕ} {epoch : Option String} {after : Option ℕ}
  {limit : ℕ} {fresh : String} {rank : RankState}

section

variable (adapter : KvEventAdapter) (rank : RankState)

lemma storeBlocks_continues (hs : List Value) (fs : Fields) :
    rank.Continues (adapter.storeBlocks rank hs fs).1 := by
  rw [storeBlocks]
  cases adapter.storeOf hs fs with
  | error => exact Continues.refl rank
  | ok S => exact continues_applyPendingStore adapter.key rank S

lemma ingestEvent_continues (v : Value) :
    rank.Continues (adapter.ingestEvent rank v).1 := by
  rw [ingestEvent.eq_def]
  split
  next fields =>
    dsimp only
    cases (field fields "block_hashes").bind Value.asArray with
    | none =>
      dsimp only
      split_ifs
      · exact continues_clear rank
      · exact Continues.refl rank
    | some hs =>
      split_ifs
      · exact continues_clear rank
      · exact continues_removeBlocks rank hs fields
      · exact Continues.refl rank
      · exact storeBlocks_continues adapter rank hs fields
  next => exact Continues.refl rank

end

/-! ### What happens to the ranks -/

/-- What an operation may do to the stream of a rank: continue it, or begin an epoch. -/
def Evolves (fresh : String) (rank rank' : RankState) : Prop :=
  rank.Continues rank' ∨ rank'.epoch = fresh

lemma rank_setRank {rank rank' : RankState} (hrank : adapter.ranks[dpRank]? = some rank)
    (hevol : Evolves fresh rank rank') (h : (adapter.setRank dpRank rank').ranks[i]? = some r') :
    ∃ r, adapter.ranks[i]? = some r ∧ Evolves fresh r r' := by
  rw [setRank, getElem?_set] at h
  split_ifs at h with hi hlt
  · cases h
    exact ⟨rank, hi ▸ hrank, hevol⟩
  · exact ⟨r', h, .inl (Continues.refl r')⟩

lemma rank_modify {f : RankState → RankState} (hf : ∀ r, Evolves fresh r (f r))
    (h : (adapter.ranks.modify dpRank f)[i]? = some r') :
    ∃ r, adapter.ranks[i]? = some r ∧ Evolves fresh r r' := by
  rw [getElem?_modify] at h
  obtain ⟨r, hr, rfl⟩ := map_eq_some_iff.mp h
  refine ⟨r, hr, ?_⟩
  split_ifs
  · exact hf r
  · exact .inl (Continues.refl r)

/-- **A message continues the streams or begins an epoch.** -/
lemma rank_perform {part : IngestPart}
    (h : (perform dpRank fresh adapter part).ranks[i]? = some r') :
    ∃ r, adapter.ranks[i]? = some r ∧ Evolves fresh r r' := by
  cases part with
  | event v =>
    rw [perform] at h
    cases hrank : adapter.ranks[dpRank]? with
    | none =>
      rw [hrank] at h
      exact ⟨r', h, .inl (Continues.refl r')⟩
    | some rank =>
      rw [hrank] at h
      exact rank_setRank hrank (.inl (ingestEvent_continues adapter rank v)) h
  | fail => exact rank_modify (fun _ => .inr rfl) h
  | recover =>
    exact rank_modify (f := fun rank => { rank with available := true })
      (fun r => .inl ⟨rfl, prefix_refl _⟩) h
  | acknowledge =>
    refine rank_modify (fun r => .inl ?_) h
    split_ifs
    · exact ⟨rfl, prefix_refl _⟩
    · exact Continues.refl r

/-! ### What a reader is told -/

lemma delta_eq (hrank : adapter.ranks[dpRank]? = some rank) (havail : rank.available = true) :
    adapter.delta dpRank epoch after limit fresh =
      let rank := rank.catchUp epoch after fresh
      let adapter := adapter.setRank dpRank rank
      if epoch ≠ some rank.epoch ∨ after.any (rank.current < ·) then
        (adapter, .error (.cursorReset (adapter.response dpRank rank 0 [])))
      else
        let deltas := page rank.ring.entries after (min limit 512)
        let through := ((deltas.getLast?.map (·.sequence)).or after).getD 0
        (adapter, .ok (adapter.response dpRank rank through deltas)) := by
  rw [delta, hrank, filter_some, if_pos havail]

lemma fst_delta (adapter : KvEventAdapter) (dpRank : ℕ) (epoch : Option String)
    (after : Option ℕ) (limit : ℕ) (fresh : String) :
    (adapter.delta dpRank epoch after limit fresh).1 =
      (adapter.ranks[dpRank]?.filter (·.available)).elim adapter fun rank =>
        adapter.setRank dpRank (rank.catchUp epoch after fresh) := by
  rw [delta]
  cases adapter.ranks[dpRank]?.filter (·.available) with
  | none => rfl
  | some =>
    dsimp only [elim_some]
    split_ifs <;> rfl

lemma rank_delta (h : (adapter.delta dpRank epoch after limit fresh).1.ranks[i]? = some r') :
    ∃ r, adapter.ranks[i]? = some r ∧ Evolves fresh r r' := by
  rw [fst_delta] at h
  cases hrank : adapter.ranks[dpRank]?.filter (·.available) with
  | none =>
    rw [hrank] at h
    exact ⟨r', h, .inl (Continues.refl r')⟩
  | some rank =>
    rw [hrank] at h
    refine rank_setRank (filter_eq_some_iff.mp hrank).1 ?_ h
    rcases rank.catchUp_eq epoch after fresh with heq | ⟨-, heq⟩
    · rw [heq]
      exact .inl (Continues.refl rank)
    · rw [heq]
      exact .inr (epoch_rebaseReplay rank fresh)

lemma page_rank (h : ¬ rank.leavesBehind after = true) (limit : ℕ) :
    page rank.ring.entries after limit =
      numberFrom (expected after) ((rank.ring.log.drop (expected after)).take limit) :=
  rank.ring.page_entries limit (not_lt.mp (mt leavesBehind_iff.mpr h))

section

variable (hrank : adapter.ranks[dpRank]? = some rank) (havail : rank.available = true)
include hrank havail

/-- A poll in the epoch of the rank gets the next piece. -/
lemma delta_same (hbeh : ¬ rank.leavesBehind after = true)
    (hpos : expected after ≤ rank.ring.log.length) :
    let deltas := numberFrom (expected after)
      ((rank.ring.log.drop (expected after)).take (min limit 512))
    adapter.delta dpRank (some rank.epoch) after limit fresh =
      (adapter.setRank dpRank rank, .ok ((adapter.setRank dpRank rank).response dpRank rank
        (((deltas.getLast?.map (·.sequence)).or after).getD 0) deltas)) := by
  have hcatch : rank.catchUp (some rank.epoch) after fresh = rank := by
    rw [catchUp, if_neg (fun h => hbeh h.2)]
  have hreset : ¬ (some rank.epoch ≠ some rank.epoch ∨ after.any (rank.current < ·) = true) := by
    rintro (h | h)
    · exact h rfl
    · cases after with
      | none => cases h
      | some =>
        rw [any_some, decide_eq_true_iff, current, Ring.current_eq] at h
        simp only [expected, elim_some] at hpos
        omega
  rw [delta_eq hrank havail]
  simp only [hcatch]
  rw [if_neg hreset, page_rank hbeh]

lemma delta_other (hepoch : epoch ≠ some (rank.catchUp epoch after fresh).epoch) :
    adapter.delta dpRank epoch after limit fresh =
      (adapter.setRank dpRank (rank.catchUp epoch after fresh),
        .error (.cursorReset ((adapter.setRank dpRank (rank.catchUp epoch after fresh)).response
          dpRank (rank.catchUp epoch after fresh) 0 []))) := by
  rw [delta_eq hrank havail]
  simp only [if_pos (Or.inl hepoch)]

end

lemma delta_unavailable (h : adapter.ranks[dpRank]?.filter (·.available) = none) :
    adapter.delta dpRank epoch after limit fresh = (adapter, .error .unavailable) := by
  rw [delta, h]

end KvEventAdapter

end Foretoken.KvLocality
