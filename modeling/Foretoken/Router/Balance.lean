import Foretoken.Router.Safety

/-!
Routing reservations balance: the shared map has a sequence for a target, a rank and a request
exactly if a live session of that request holds the target and rank.
-/

namespace Foretoken.Router

open List Option Session Table AList Machine

open RoutingReservations

variable {Stats Score C : Type}

/-! ### Loops over the selected keys -/

section Loops

variable {reservations : RoutingReservations} {k : ReservationKey} {id i : String}

lemma find_foldl_release (ks : List ReservationKey) :
    (ks.foldl (fun reservations key => reservations.release key id) reservations).find k i =
      if i = id ∧ k ∈ ks then none else reservations.find k i := by
  induction ks generalizing reservations with
  | nil => simp
  | cons key ks ih =>
    rw [foldl_cons, ih, find_release]
    by_cases hi : i = id <;> by_cases hk : k = key <;> simp [hi, hk]

lemma pruned_foldl_release (h : reservations.Pruned) (ks : List ReservationKey) :
    (ks.foldl (fun reservations key => reservations.release key id) reservations).Pruned := by
  induction ks generalizing reservations with
  | nil => exact h
  | cons key ks ih => exact ih h.release

/-- A change is made as often as its key was selected. -/
lemma find_foldl_update {change : ActiveSequence → ActiveSequence}
    (tot : ℕ → ActiveSequence → ActiveSequence)
    (htotal : ∀ n, change^[n + 1] = tot (n + 1)) (ks : List ReservationKey) :
    (ks.foldl (fun reservations key => reservations.update key id change) reservations).find k i =
      if i = id ∧ k ∈ ks then (reservations.find k i).map (tot (ks.count k))
      else reservations.find k i := by
  have hcount : (ks.foldl (fun reservations key => reservations.update key id change)
      reservations).find k i =
      if i = id then (reservations.find k i).map (change^[ks.count k])
      else reservations.find k i := by
    induction ks generalizing reservations with
    | nil => simp
    | cons key ks ih =>
      rw [foldl_cons, ih, find_update]
      rcases eq_or_ne k key with rfl | hk
      · by_cases hi : i = id <;> simp [hi]
      · simp [hk, count_cons_of_ne hk.symm]
  rw [hcount]
  by_cases hk : k ∈ ks
  · obtain ⟨n, hn⟩ := Nat.exists_eq_succ_of_ne_zero (count_pos_iff.mpr hk).ne'
    simp only [hn, htotal, hk, and_true]
  · simp [hk, count_eq_zero_of_not_mem hk]

lemma pruned_foldl_update (h : reservations.Pruned) (change : ActiveSequence → ActiveSequence)
    (ks : List ReservationKey) :
    (ks.foldl (fun reservations key => reservations.update key id change)
      reservations).Pruned := by
  induction ks generalizing reservations with
  | nil => exact h
  | cons key ks ih => exact ih (h.update change)

end Loops

/-! ### The calls of a session -/

namespace Session

variable {session : Session C} {reservations : RoutingReservations} {k : ReservationKey}
  {i : String}

/-- **A first response** takes the load off its own sequences. -/
lemma find_responseStarted :
    (session.responseStarted reservations).find k i =
      if i = session.request.requestId ∧ k ∈ session.selected then
        (reservations.find k i).map fun sq => { sq with prefillTokens := 0 }
      else reservations.find k i := by
  have htotal : ∀ n, (fun sq : ActiveSequence =>
      { sq with prefillTokens := 0 })^[n + 1] =
      fun sq => { sq with prefillTokens := 0 } := by
    intro n
    induction n with
    | zero => rfl
    | succ n ih =>
      rw [Function.iterate_succ, ih]
      rfl
  exact find_foldl_update (fun _ sq => { sq with prefillTokens := 0 }) htotal
    session.selected

/-- Counting twice is counting once with both. -/
lemma iterate_recordOutput (count n : ℕ) :
    (fun sq : ActiveSequence =>
      { sq with outputTokens := min (sq.outputTokens + count) usizeMax })^[n + 1] =
    fun sq =>
      { sq with outputTokens := min (sq.outputTokens + (n + 1) * count) usizeMax } := by
  induction n with
  | zero =>
    rw [zero_add, one_mul]
    rfl
  | succ n ih =>
    rw [Function.iterate_succ, ih]
    funext sq
    have hmin : min (min (sq.outputTokens + count) usizeMax + (n + 1) * count) usizeMax =
        min (sq.outputTokens + (n + 1 + 1) * count) usizeMax := by
      rw [Nat.succ_mul (n + 1)]
      omega
    rw [Function.comp_apply, hmin]

/-- **Output tokens** accumulate on the session's own sequences. -/
lemma find_outputTokensGenerated (count : ℕ) :
    (session.outputTokensGenerated count reservations).find k i =
      if (session.trackOutputBlocks = true ∧ count ≠ 0) ∧ i = session.request.requestId ∧
          k ∈ session.selected then
        (reservations.find k i).map fun sq =>
          { sq with
            outputTokens :=
              min (sq.outputTokens + session.selected.count k * count) usizeMax }
      else reservations.find k i := by
  rw [outputTokensGenerated]
  by_cases htrack : session.trackOutputBlocks = true ∧ count ≠ 0
  · simp only [htrack, true_and, ne_eq, not_false_eq_true]
    exact find_foldl_update (fun n sq =>
      { sq with outputTokens := min (sq.outputTokens + n * count) usizeMax })
      (iterate_recordOutput count) session.selected
  · have hguard : (!session.trackOutputBlocks || decide (count = 0)) = true := by grind
    rw [if_pos hguard, if_neg fun h => htrack h.1]

lemma find_stageComplete :
    (session.stageComplete reservations).2.find k i =
      if i = session.request.requestId ∧ k ∈ session.selected then none
      else reservations.find k i :=
  find_foldl_release session.selected

lemma released
    (hown : ∀ k, (reservations.find k session.request.requestId).isSome ↔ k ∈ session.selected)
    (k : ReservationKey) :
    (session.stageComplete reservations).2.find k session.request.requestId = none := by
  rw [find_stageComplete]
  by_cases hk : k ∈ session.selected
  · simp [hk]
  · simpa [hk] using (hown k).not.mpr hk

end Session

/-! ### What is held -/

/-- A live session of the request holds the target and rank. -/
def Holding (sessions : Table ℕ (Session C)) (k : ReservationKey) (i : String) : Prop :=
  ∃ handle session, sessions.lookup handle = some session ∧ session.request.requestId = i ∧
    k ∈ session.selected

/-- Live sessions have distinct request ids. -/
def Distinct (sessions : Table ℕ (Session C)) : Prop :=
  ∀ handle handle' session session', sessions.lookup handle = some session →
    sessions.lookup handle' = some session' →
    session.request.requestId = session'.request.requestId → handle = handle'

section Holding

variable {sessions : Table ℕ (Session C)} {handle : ℕ} {session after : Session C}
  {k : ReservationKey} {i : String}

section

variable (h : Distinct sessions) (hsess : sessions.lookup handle = some session)
include h hsess

lemma Distinct.holding_iff :
    Holding sessions k session.request.requestId ↔ k ∈ session.selected := by
  constructor
  · rintro ⟨y, session', hother, hid, hk⟩
    obtain rfl := h y handle session' session hother hsess hid
    exact some.inj (hother.symm.trans hsess) ▸ hk
  · intro hk
    exact ⟨handle, session, hsess, rfl, hk⟩

lemma Distinct.holding_insert (hreq : after.request = session.request) :
    Holding (sessions.insert handle after) k i ↔
      if i = session.request.requestId then k ∈ after.selected else Holding sessions k i := by
  constructor
  · rintro ⟨y, session', hother, rfl, hk⟩
    rw [lookup_insert_eq] at hother
    split_ifs at hother with hhandle
    · cases hother
      simpa [hreq] using hk
    · rw [if_neg fun hid => hhandle (h y handle session' session hother hsess hid)]
      exact ⟨y, session', hother, rfl, hk⟩
  · split_ifs with hi
    · exact fun hk => ⟨handle, after, lookup_insert _, by rw [hreq, hi], hk⟩
    · rintro ⟨y, session', hother, rfl, hk⟩
      refine ⟨y, session', ?_, rfl, hk⟩
      rw [lookup_insert_ne, hother]
      rintro rfl
      exact hi (by rw [some.inj (hother.symm.trans hsess)])

lemma Distinct.insert (hreq : after.request = session.request) :
    Distinct (sessions.insert handle after) := by
  have hlive : ∀ y session', lookup y (sessions.insert handle after) = some session' →
      ∃ b, sessions.lookup y = some b ∧ b.request = session'.request := by
    intro y session' hother
    rw [lookup_insert_eq] at hother
    grind
  intro y y' session' session'' hother hother' hid
  obtain ⟨b, hbefore, hreq'⟩ := hlive y session' hother
  obtain ⟨b', hbefore', hreq''⟩ := hlive y' session'' hother'
  rw [← hreq', ← hreq''] at hid
  exact h y y' b b' hbefore hbefore' hid

end

lemma holding_start (hfresh : handle ∉ sessions) (hnil : after.selected = []) :
    Holding (sessions.insert handle after) k i ↔ Holding sessions k i := by
  constructor
  · rintro ⟨y, session', hother, hid, hk⟩
    rw [lookup_insert_eq] at hother
    exact ⟨y, session', by grind, hid, hk⟩
  · rintro ⟨y, session', hother, hid, hk⟩
    refine ⟨y, session', ?_, hid, hk⟩
    rw [lookup_insert_ne, hother]
    rintro rfl
    exact hfresh (lookup_isSome.mp (by rw [hother]; rfl))

lemma Distinct.start (h : Distinct sessions)
    (hid : ∀ y session', sessions.lookup y = some session' →
      session'.request.requestId ≠ after.request.requestId) :
    Distinct (sessions.insert handle after) := by
  intro y y' session' session'' hother hother' hsame
  rw [lookup_insert_eq] at hother hother'
  grind [h y y' session' session'']

/-- A dropped session takes with it what its request held. -/
lemma Distinct.holding_erase (h : Distinct sessions)
    (hsess : sessions.lookup handle = some session) :
    Holding (sessions.erase handle) k i ↔ i ≠ session.request.requestId ∧ Holding sessions k i := by
  constructor
  · rintro ⟨y, session', hother, rfl, hk⟩
    rw [lookup_erase_eq] at hother
    split_ifs at hother with hhandle
    exact ⟨fun hid => hhandle (h y handle session' session hother hsess hid), y,
      session', hother, rfl, hk⟩
  · rintro ⟨hi, y, session', hother, rfl, hk⟩
    refine ⟨y, session', ?_, rfl, hk⟩
    rw [lookup_erase_eq, if_neg, hother]
    rintro rfl
    exact hi (by rw [some.inj (hother.symm.trans hsess)])

lemma Distinct.erase (h : Distinct sessions) : Distinct (sessions.erase handle) := by
  intro y y' session' session'' hother hother' hsame
  rw [lookup_erase_eq] at hother hother'
  split_ifs at hother hother'
  exact h y y' session' session'' hother hother' hsame

end Holding

/-! ### The invariant -/

/-- **The map has a sequence exactly where a live session holds one.** -/
structure Balanced (state : System C) : Prop where
  pruned : state.reservations.Pruned
  distinct : Distinct state.sessions
  holding : ∀ k i, (state.reservations.find k i).isSome ↔ Holding state.sessions k i

/-- A session starts under a request id that no live session has. -/
def FreshId (state : System C) : Command Stats Score C → Prop
  | .start _ _ _ request =>
    ∀ entry ∈ state.sessions.entries, entry.2.request.requestId ≠ request.requestId
  | .call _ _ => True
  | .drop _ => True

instance FreshId.decidable (state : System C) :
    ∀ command : Command Stats Score C, Decidable (FreshId state command)
  | .start _ _ _ request =>
    inferInstanceAs (Decidable (∀ entry ∈ state.sessions.entries,
      entry.2.request.requestId ≠ request.requestId))
  | .call _ _ => .isTrue trivial
  | .drop _ => .isTrue trivial

/-- What a call does to the map and to what its session holds. -/
lemma call_balanced {session : Session C} {reservations : RoutingReservations}
    (call : Call Stats Score C) (hprun : reservations.Pruned)
    (hown : ∀ k, (reservations.find k session.request.requestId).isSome ↔ k ∈ session.selected) :
    let after := (session.call reservations call).2
    after.2.Pruned ∧ after.1.request = session.request ∧
      (∀ k, (after.2.find k session.request.requestId).isSome ↔ k ∈ after.1.selected) ∧
      ∀ k i, i ≠ session.request.requestId → after.2.find k i = reservations.find k i := by
  cases call with
  | select stage round =>
    rcases session.selecting_cases stage round reservations with ⟨e, context, hslct⟩ |
      ⟨attempt, -, -, scored, -, next, -, source, context, track, tokens, hslct⟩
    · rw [call, hslct]
      exact ⟨hprun, rfl, hown, fun _ _ _ => rfl⟩
    · rw [call, hslct]
      refine ⟨hprun.reserve, rfl, fun k => ?_, fun k i hi => ?_⟩
      · rw [find_reserve, mem_append, mem_singleton]
        by_cases hk : k = (scored.candidate.routeTargetId, scored.candidate.dataParallelRank)
        · simp [hk]
        · simp [hk, hown]
      · rw [find_reserve, if_neg fun hcase => hi hcase.2]
  | responseStarted =>
    refine ⟨pruned_foldl_update hprun _ _, rfl, fun k => ?_, fun k i hi => ?_⟩
    · refine Iff.trans ?_ (hown k)
      rw [call, find_responseStarted]
      split_ifs
      · rw [isSome_map]
      · rfl
    · rw [call, find_responseStarted, if_neg fun hcase => hi hcase.1]
  | outputTokensGenerated =>
    refine ⟨?_, rfl, fun k => ?_, fun k i hi => ?_⟩
    · rw [call, outputTokensGenerated]
      split_ifs
      · exact hprun
      · exact pruned_foldl_update hprun _ _
    · refine Iff.trans ?_ (hown k)
      rw [call, find_outputTokensGenerated]
      split_ifs
      · rw [isSome_map]
      · rfl
    · rw [call, find_outputTokensGenerated, if_neg fun hcase => hi hcase.2.1]
  | stageComplete =>
    refine ⟨pruned_foldl_release hprun _, rfl, fun k => ?_, fun k i hi => ?_⟩
    · have hnone := released hown k
      rw [call, hnone]
      exact iff_of_false (by simp) not_mem_nil
    · rw [call, find_stageComplete, if_neg fun hcase => hi hcase.1]

lemma Balanced.step {state : System C} (h : Balanced state) {command : Command Stats Score C}
    (hfresh : FreshId state command) : Balanced (Router.step state command).1 := by
  cases command with
  | start handle router round request =>
    by_cases hhandle : handle ∈ state.sessions
    · rwa [next_start_of_mem hhandle]
    obtain ⟨context, hnext⟩ := next_start hhandle router round request
    rw [hnext]
    refine ⟨h.pruned, h.distinct.start ?_, fun k i => ?_⟩
    · intro other session hother
      exact hfresh ⟨other, session⟩ (mem_lookup_iff.mp hother)
    · rw [holding_start hhandle rfl]
      exact h.holding k i
  | call handle call =>
    cases hsess : state.sessions.lookup handle with
    | none =>
      rwa [next_call_of_none hsess]
    | some session =>
      rw [next_call hsess]
      have hown : ∀ k, (state.reservations.find k session.request.requestId).isSome ↔
          k ∈ session.selected :=
        fun k => (h.holding k _).trans (h.distinct.holding_iff hsess)
      obtain ⟨hprun, hreq, hsel, hothers⟩ := call_balanced call h.pruned hown
      refine ⟨hprun, h.distinct.insert hsess hreq, fun k i => ?_⟩
      rw [h.distinct.holding_insert hsess hreq]
      by_cases hi : i = session.request.requestId
      · rw [if_pos hi, hi]
        exact hsel k
      · rw [if_neg hi, hothers k i hi]
        exact h.holding k i
  | drop handle =>
    cases hsess : state.sessions.lookup handle with
    | none =>
      rwa [next_drop_of_none hsess]
    | some session =>
      rw [next_drop hsess]
      refine ⟨pruned_foldl_release h.pruned session.selected, h.distinct.erase, fun k i => ?_⟩
      rw [h.distinct.holding_erase hsess]
      by_cases hi : i = session.request.requestId
      · have hown : ∀ k, (state.reservations.find k session.request.requestId).isSome ↔
            k ∈ session.selected :=
          fun k => (h.holding k _).trans (h.distinct.holding_iff hsess)
        rw [hi, released hown k]
        exact iff_of_false (by simp) fun hcase => hcase.1 rfl
      · rw [find_stageComplete, if_neg fun hcase => hi hcase.1, h.holding]
        exact (and_iff_right hi).symm

/-! ### Traces -/

/-- What a session holds after a command: a selection adds its target and rank, a completed stage
gives all of them back. -/
def holdStep (handle : ℕ) (held : Option (String × List ReservationKey)) :
    Command Stats Score C × Reply Stats → Option (String × List ReservationKey)
  | (.start other _ _ request, .done) =>
    if other = handle then some (request.requestId, []) else held
  | (.call other (.select _ _), .selected selection) =>
    if other = handle then
      held.map fun held => (held.1, held.2 ++
        [(selection.decision.routeTargetId, selection.decision.dataParallelRank)])
    else held
  | (.call other .stageComplete, .done) =>
    if other = handle then held.map fun held => (held.1, []) else held
  | (.drop other, .done) => if other = handle then none else held
  | _ => held

/-- The request id of a live session and the stages it selected since its last completed one. -/
def holds (handle : ℕ) (trace : List (Command Stats Score C × Reply Stats)) :
    Option (String × List ReservationKey) :=
  trace.foldl (holdStep handle) none

/-- The sessions keep what the trace shows. -/
def Tracks (state : System C) (trace : List (Command Stats Score C × Reply Stats)) : Prop :=
  ∀ handle, holds handle trace = (state.sessions.lookup handle).map fun session =>
    (session.request.requestId, session.selected)

lemma holdStep_call {session : Session C} {reservations : RoutingReservations} {handle : ℕ}
    (call : Call Stats Score C) :
    holdStep handle (some (session.request.requestId, session.selected))
        (.call handle call, (session.call reservations call).1) =
      some ((session.call reservations call).2.1.request.requestId,
        (session.call reservations call).2.1.selected) := by
  cases call with
  | select g n =>
    rcases session.selecting_cases g n reservations with ⟨e, context, hslct⟩ |
      ⟨attempt, -, -, scored, -, next, -, source, context, track, tokens, hslct⟩
    · rw [call, hslct]
      rfl
    · rw [call, hslct]
      dsimp only [Reply.ofResult, holdStep]
      rw [if_pos rfl]
      rfl
  | responseStarted | outputTokensGenerated => rfl
  | stageComplete =>
    rw [call, holdStep, if_pos rfl]
    rfl

lemma holdStep_call_of_ne {handle y : ℕ} (hne : handle ≠ y)
    (held : Option (String × List ReservationKey)) (call : Call Stats Score C)
    (r : Reply Stats) : holdStep y held (.call handle call, r) = held := by
  cases call with
  | select =>
    cases r with
    | selected => rw [holdStep, if_neg hne]
    | fault | done | ignored => rfl
  | responseStarted | outputTokensGenerated => rfl
  | stageComplete =>
    cases r with
    | done => rw [holdStep, if_neg hne]
    | fault | selected | ignored => rfl

lemma Tracks.step {state : System C} {trace : List (Command Stats Score C × Reply Stats)}
    (h : Tracks state trace) (command : Command Stats Score C) :
    Tracks (Router.step state command).1 (trace ++ [(command, (Router.step state command).2)]) := by
  intro handle
  rw [holds, foldl_concat, ← holds, h handle]
  cases command with
  | start other router round request =>
    by_cases hother : other ∈ state.sessions
    · rw [next_start_of_mem hother]
      rfl
    obtain ⟨context, hnext⟩ := next_start hother router round request
    rw [hnext, holdStep, lookup_insert_eq]
    by_cases hhandle : handle = other
    · simp [hhandle]
    · simp [hhandle, Ne.symm hhandle]
  | call other call =>
    cases hother : state.sessions.lookup other with
    | none =>
      rw [next_call_of_none hother]
      by_cases hhandle : other = handle
      · rw [← hhandle]
        cases call with
        | select | responseStarted | outputTokensGenerated | stageComplete => rfl
      · rw [holdStep_call_of_ne hhandle]
    | some =>
      rw [next_call hother, lookup_insert_eq]
      by_cases hhandle : handle = other
      · rw [if_pos hhandle, hhandle, hother]
        exact holdStep_call call
      · rw [if_neg hhandle, holdStep_call_of_ne fun heq => hhandle heq.symm]
  | drop other =>
    cases hother : state.sessions.lookup other with
    | none =>
      rw [next_drop_of_none hother]
      rfl
    | some =>
      rw [next_drop hother, holdStep, lookup_erase_eq]
      by_cases hhandle : handle = other
      · simp [hhandle]
      · simp [hhandle, Ne.symm hhandle]

lemma tracks_run (commands : List (Command Stats Score C)) :
    Tracks ((system Stats Score C).after commands)
      ((system Stats Score C).trace (system Stats Score C).init commands) :=
  trace_preserves (fun _ _ c h => h.step c) (fun _ => rfl) commands

lemma balanced_run {commands : List (Command Stats Score C)}
    (h : (system Stats Score C).Along FreshId (system Stats Score C).init commands) :
    Balanced ((system Stats Score C).after commands) := by
  refine run_preserves reachable_init (fun s c _ hI hfresh =>
    hI.step hfresh) ⟨pruned_empty, ?_, ?_⟩ h
  · intro handle handle' session session' hsess
    cases hsess
  · intro k i
    refine iff_of_false Bool.false_ne_true ?_
    rintro ⟨handle, session, hsess, -⟩
    cases hsess

/-- **Routing reservations balance.** However the calls of any number of sessions interleave, if
no two live sessions have one request id: the shared map has a sequence exactly for the stages
that live sessions selected since their last completed one; a failed selection changes nothing; a
first response and, where they are tracked, output tokens change the sequences of their own session
only; and without a live session the map is empty, and every load is zero. -/
theorem reservations_balance (commands : List (Command Stats Score C))
    (hfresh : (system Stats Score C).Along FreshId (system Stats Score C).init commands) :
    let machine := system Stats Score C
    let state := machine.after commands
    let trace := machine.trace machine.init commands
    (∀ key id, (state.reservations.find key id).isSome ↔
      ∃ handle keys, holds handle trace = some (id, keys) ∧ key ∈ keys) ∧
    (∀ handle session stage round fault, state.sessions.lookup handle = some session →
      machine.reply state (.call handle (.select stage round)) = .fault fault →
      ∃ context, machine.next state (.call handle (.select stage round)) =
        ⟨state.reservations,
          state.sessions.insert handle { session with customizedContext := context }⟩) ∧
    (∀ handle id keys, holds handle trace = some (id, keys) →
      ∃ session, state.sessions.lookup handle = some session ∧ (∀ key other,
        (machine.next state (.call handle .responseStarted)).reservations.find key other =
          if other = id ∧ key ∈ keys then
            (state.reservations.find key other).map fun sequence =>
              { sequence with prefillTokens := 0 }
          else state.reservations.find key other) ∧
      ∀ count key other,
        (machine.next state (.call handle (.outputTokensGenerated count))).reservations.find
            key other =
          if (session.trackOutputBlocks = true ∧ count ≠ 0) ∧ other = id ∧ key ∈ keys then
            (state.reservations.find key other).map fun sequence =>
              { sequence with
                outputTokens := min (sequence.outputTokens + keys.count key * count) usizeMax }
          else state.reservations.find key other) ∧
    ((∀ handle, holds handle trace = none) →
      state.reservations = .empty ∧ ∀ key, state.reservations.snapshot key = ⟨0, 0⟩) := by
  intro machine state trace
  have hbalanced : Balanced state := balanced_run hfresh
  have htracks : Tracks state trace := tracks_run commands
  refine ⟨fun key id => ?_, ?_, ?_, ?_⟩
  · rw [hbalanced.holding]
    constructor
    · rintro ⟨handle, session, hsession, rfl, hkey⟩
      refine ⟨handle, session.selected, ?_, hkey⟩
      rw [htracks handle, hsession]
      rfl
    · rintro ⟨handle, keys, hholds, hkey⟩
      rw [htracks handle, map_eq_some_iff] at hholds
      obtain ⟨session, hsession, hheld⟩ := hholds
      cases hheld
      exact ⟨handle, session, hsession, rfl, hkey⟩
  · intro handle session stage round fault hsession hreply
    have hstep := next_call hsession (.select stage round)
    rcases session.selecting_cases stage round state.reservations with ⟨e, context, hselect⟩ |
      ⟨attempt, -, -, scored, -, next, -, source, context, track, tokens, hselect⟩
    · rw [call, hselect] at hstep
      exact ⟨context, congrArg Prod.fst hstep⟩
    · rw [call, hselect] at hstep
      have hselected := congrArg Prod.snd hstep
      change machine.reply state _ = _ at hselected
      rw [hreply] at hselected
      cases hselected
  · intro handle id keys hholds
    rw [htracks handle, map_eq_some_iff] at hholds
    obtain ⟨session, hsession, hheld⟩ := hholds
    cases hheld
    refine ⟨session, hsession, fun key other => ?_, fun count key other => ?_⟩
    · have hstep := next_call hsession (.responseStarted : Call Stats Score C)
      exact (congrArg (fun result => result.1.reservations.find key other) hstep).trans
        find_responseStarted
    · have hstep := next_call hsession (.outputTokensGenerated count : Call Stats Score C)
      exact (congrArg (fun result => result.1.reservations.find key other) hstep).trans
        (find_outputTokensGenerated count)
  · intro hnone
    have hempty : state.reservations = .empty := by
      refine hbalanced.pruned.eq_empty fun key id => ?_
      rw [← not_isSome_iff_eq_none, hbalanced.holding]
      rintro ⟨handle, session, hsession, -⟩
      have hheld := htracks handle
      simp [hnone handle, hsession] at hheld
    rw [hempty]
    exact ⟨rfl, fun key => rfl⟩

/-! ### Two sessions at one target -/

namespace SharedTarget

/-- A text request of three tokens. -/
def request (id : String) : RouterRequest where
  model := "m"
  allowedPools := []
  busyTargets := []
  body := .text ⟨id, [1, 2, 3], false, none, none, none, false⟩

/-- Two sessions select the same rank of a route; then the first of them is dropped. -/
def commands : List (Command Unit Unit Unit) :=
  [.start 0 StartedOver.single StartedOver.round (request "r"),
    .start 1 StartedOver.single StartedOver.round (request "s"),
    .call 0 (.select .initial StartedOver.round), .call 1 (.select .initial StartedOver.round),
    .call 0 .responseStarted, .call 1 (.outputTokensGenerated 5), .drop 0]

end SharedTarget

/-- The dropped session's reservation is gone, the other one's is still there. -/
theorem reservations_balance_shared :
    let machine := system Unit Unit Unit
    let state := machine.after SharedTarget.commands
    let trace := machine.trace machine.init SharedTarget.commands
    (∀ key id, (state.reservations.find key id).isSome ↔
      ∃ handle keys, holds handle trace = some (id, keys) ∧ key ∈ keys) ∧
      state.reservations.find ("a", 0) "r" = none ∧
      (state.reservations.find ("a", 0) "s").map (·.outputTokens) = some 5 := by
  intro machine state trace
  exact ⟨(reservations_balance SharedTarget.commands (by decide +kernel)).1, by decide +kernel,
    by decide +kernel⟩

end Foretoken.Router
