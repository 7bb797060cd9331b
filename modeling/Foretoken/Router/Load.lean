import Foretoken.Router.Types

/-!
Routing reservations (`routing_load.rs`): a map from a target and rank to the requests that were
routed there.
-/

namespace Foretoken.Router

open Table List

/-- A target and rank. -/
abbrev ReservationKey := RouteTargetId × ℕ

/-- `usize::MAX`. -/
def usizeMax : ℕ := 2 ^ 64 - 1

/-- The requests at each target and rank. -/
structure RoutingReservations where
  requests : Table ReservationKey (Table String ActiveSequence)

namespace RoutingReservations

/-- Nothing is reserved. -/
def empty : RoutingReservations := ⟨∅⟩

section

variable (reservations : RoutingReservations) (key : ReservationKey) (id : String)

/-- The requests and prompt tokens at a target and rank, in wrapping arithmetic. -/
def snapshot : RoutingLoadSnapshot :=
  match reservations.requests.lookup key with
  | none => ⟨0, 0⟩
  | some requests =>
    ⟨Int64.ofNat requests.entries.length,
      requests.toList.foldl (fun tokens entry => tokens + Int64.ofNat entry.2.prefillTokens) 0⟩

/-- The sequences at a target and rank. -/
def activeSequences : List ActiveSequence :=
  ((reservations.requests.lookup key).map fun requests => requests.toList.map (·.2)).getD []

/-- A request is routed to a candidate. -/
def reserve {Stats : Type} (reservations : RoutingReservations) (request : RouterRequest)
    (candidate : RouteCandidate Stats) (prefillTokens : ℕ) : RoutingReservations where
  requests := reservations.requests.modify (candidate.routeTargetId, candidate.dataParallelRank)
    fun requests => requests.insert request.requestId
      { request := request.generateRequest
        prefixShareable :=
          request.readsPrefixCache && candidate.prefixCacheEnabled = some true
        prefillTokens := prefillTokens
        outputTokens := 0 }

/-- Change the sequence of a request at a target and rank, if there is one. -/
def update
    (change : ActiveSequence → ActiveSequence) : RoutingReservations :=
  match reservations.requests.lookup key with
  | none => reservations
  | some requests =>
    match requests.lookup id with
    | none => reservations
    | some sequence => ⟨reservations.requests.insert key (requests.insert id (change sequence))⟩

/-- Tokens were generated; the count saturates. -/
def recordOutputTokens
    (count : ℕ) : RoutingReservations :=
  reservations.update key id fun sequence =>
    { sequence with outputTokens := min (sequence.outputTokens + count) usizeMax }

/-- The prompt has been processed. -/
def releasePromptLoad : RoutingReservations :=
  reservations.update key id fun sequence => { sequence with prefillTokens := 0 }

/-- A request leaves a target and rank. -/
def release : RoutingReservations :=
  match reservations.requests.lookup key with
  | none => reservations
  | some requests =>
    let requests := requests.erase id
    if requests.entries.isEmpty then ⟨reservations.requests.erase key⟩
    else ⟨reservations.requests.insert key requests⟩

/-! ### The sequences -/

/-- The sequence of a request at a target and rank. -/
def find : Option ActiveSequence :=
  (reservations.requests.lookup key).bind (·.lookup id)

/-- Every target that is kept has a request. -/
def Pruned : Prop :=
  ∀ key requests, reservations.requests.lookup key = some requests → requests.entries ≠ []

end

variable {reservations : RoutingReservations} {key k : ReservationKey} {id i : String}

lemma pruned_empty : empty.Pruned := by
  intro key qs h
  cases h

/-- **Without a sequence there is no reservation at all.** -/
lemma Pruned.eq_empty (h : reservations.Pruned) (hnone : ∀ k i, reservations.find k i = none) :
    reservations = empty := by
  have htable : reservations.requests = ∅ := by
    refine eq_empty_of_lookup fun key => ?_
    cases hlook : reservations.requests.lookup key with
    | none => rfl
    | some qs =>
      obtain ⟨e, hentry⟩ := exists_mem_of_ne_nil _ (h key qs hlook)
      have hfind := hnone key e.1
      rw [find, hlook, Option.bind_some, AList.mem_lookup_iff.mpr hentry] at hfind
      cases hfind
  cases reservations
  exact congrArg _ htable

lemma find_insert (qs : Table String ActiveSequence) :
    find ⟨reservations.requests.insert key qs⟩ k i =
      if k = key then qs.lookup i else reservations.find k i := by
  rw [find, lookup_insert_eq]
  split_ifs <;> rfl

lemma Pruned.insert (h : reservations.Pruned) {qs : Table String ActiveSequence}
    (hne : qs.entries ≠ []) : Pruned ⟨reservations.requests.insert key qs⟩ := by
  intro k y hlook
  rw [lookup_insert_eq] at hlook
  split_ifs at hlook
  · rwa [← Option.some.inj hlook]
  · exact h k y hlook

lemma entries_insert_ne_nil (qs : Table String ActiveSequence) (n : ActiveSequence) :
    (qs.insert id n).entries ≠ [] := by
  exact cons_ne_nil _ _

section Reserve

variable {Stats : Type} {request : RouterRequest} {candidate : RouteCandidate Stats}
  {prefillTokens : ℕ}

/-- **A reservation adds one sequence.** -/
lemma find_reserve :
    (reservations.reserve request candidate prefillTokens).find k i =
      if k = (candidate.routeTargetId, candidate.dataParallelRank) ∧ i = request.requestId then
        some ⟨request.generateRequest,
          request.readsPrefixCache && candidate.prefixCacheEnabled = some true, prefillTokens, 0⟩
      else reservations.find k i := by
  rw [reserve, Table.modify, find_insert, lookup_insert_eq]
  rcases eq_or_ne k (candidate.routeTargetId, candidate.dataParallelRank) with rfl | hk
  · cases hkey : reservations.requests.lookup (candidate.routeTargetId, candidate.dataParallelRank)
    all_goals rcases eq_or_ne i request.requestId with rfl | hi <;> simp [*, find]
    rfl
  · simp [hk]

lemma Pruned.reserve (h : reservations.Pruned) :
    (reservations.reserve request candidate prefillTokens).Pruned :=
  h.insert (entries_insert_ne_nil _ _)

end Reserve

/-- **A change touches one sequence.** -/
lemma find_update (change : ActiveSequence → ActiveSequence) :
    (reservations.update key id change).find k i =
      if k = key ∧ i = id then (reservations.find k i).map change else reservations.find k i := by
  rw [update]
  cases hkey : reservations.requests.lookup key with
  | none => rcases eq_or_ne k key with rfl | hk <;> simp [*, find]
  | some qs =>
    dsimp only
    cases hid : qs.lookup id with
    | none =>
      rcases eq_or_ne k key with rfl | hk <;> rcases eq_or_ne i id with rfl | hi <;> simp [*, find]
    | some =>
      rw [find_insert, lookup_insert_eq]
      rcases eq_or_ne k key with rfl | hk <;> rcases eq_or_ne i id with rfl | hi <;> simp [*, find]

lemma Pruned.update (h : reservations.Pruned) (change : ActiveSequence → ActiveSequence) :
    (reservations.update key id change).Pruned := by
  rw [RoutingReservations.update]
  cases hkey : reservations.requests.lookup key with
  | none => exact h
  | some qs =>
    dsimp only
    cases qs.lookup id with
    | none => exact h
    | some => exact h.insert (entries_insert_ne_nil _ _)

/-- **A release takes one sequence away.** -/
lemma find_release :
    (reservations.release key id).find k i =
      if k = key ∧ i = id then none else reservations.find k i := by
  rw [release]
  cases hkey : reservations.requests.lookup key with
  | none => rcases eq_or_ne k key with rfl | hk <;> simp [*, find]
  | some qs =>
    dsimp only
    have herase : (if k = key then (qs.erase id).lookup i else reservations.find k i) =
        if k = key ∧ i = id then none else reservations.find k i := by
      rw [lookup_erase_eq]
      rcases eq_or_ne k key with rfl | hk <;> rcases eq_or_ne i id with rfl | hi <;> simp [*, find]
    by_cases hempty : (qs.erase id).entries.isEmpty
    · -- the target is dropped with its last request
      have hnone : (qs.erase id).lookup i = none := by
        rw [AList.lookup_eq_none, AList.mem_keys, AList.keys, isEmpty_iff.mp hempty]
        exact not_mem_nil
      rw [if_pos hempty, ← herase, hnone, find, lookup_erase_eq]
      by_cases hk : k = key <;> simp [hk, find]
    · rw [if_neg hempty, find_insert, herase]

lemma Pruned.release (h : reservations.Pruned) : (reservations.release key id).Pruned := by
  rw [RoutingReservations.release]
  cases hkey : reservations.requests.lookup key with
  | none => exact h
  | some =>
    dsimp only
    split_ifs with hempty
    · intro k y hlook
      rw [lookup_erase_eq] at hlook
      split_ifs at hlook
      exact h k y hlook
    · exact h.insert fun hnil => hempty (isEmpty_iff.mpr hnil)

end RoutingReservations

end Foretoken.Router
