import Foretoken.KvLocality.Faithful

/-!
A truthful producer never degrades its consumer.

`backlog` measures how far a source is behind. No quiet command increases it, and a round of the
frontend for the source lowers it or finds the source in step, so after finitely many rounds it is.
-/

namespace Foretoken.KvLocality

open List Option RankState Table KvIndexer State

variable {fresh : String} {dp : ℕ} {p : KvEventSourceConfig}

open RingLog

/-! ### How far a source is behind -/

/-- What the frontend still has to read, with a reset that may come first. -/
def lag (r : RankState) (cursor : Cursor) : ℕ :=
  (if capacity < r.ring.log.length then r.replay.length + 2 else 0) +
    if cursor.epoch = r.epoch then r.ring.log.length - expected cursor.after
    else r.ring.log.length + 1

/-- The answer does not bring the frontend closer. -/
def Idle (r : RankState) (cursor : Cursor) (d : KvDeltaResponse) : Prop :=
  d.epoch ≠ r.epoch ∨
    (cursor.epoch = d.epoch ∧ d.deltas = [] ∧ expected cursor.after < r.ring.log.length)

instance (r : RankState) (cursor : Cursor) (d : KvDeltaResponse) : Decidable (Idle r cursor d) :=
  inferInstanceAs (Decidable (_ ∨ _))

/-- What an answer on its way may cost. -/
def delay (source : KvEventSourceConfig) (r : RankState) (cursor : Cursor) :
    Option (Except KvIndexDegradedReason KvDeltaResponse) → ℕ
  | none => 0
  | some (.error _) => r.ring.log.length + 2
  | some (.ok d) =>
    if SameIdentity source d then if Idle r cursor d then 1 else 0 else r.ring.log.length + 2

/-- What is left to read, with the cost of the answer on its way. -/
def backlog (source : KvEventSourceConfig) (r : RankState) (cursor : Cursor)
    (result : Option (Except KvIndexDegradedReason KvDeltaResponse)) : ℕ :=
  lag r cursor + delay source r cursor result

/-- The ranks agree in what a reader sees and in what a replay tells. -/
structure RankState.Alike (r r' : RankState) : Prop where
  epoch : r'.epoch = r.epoch
  log : r'.ring.log = r.ring.log
  rawBlocks : r'.rawBlocks = r.rawBlocks
  available : r.available = true → r'.available = true

section Backlog

variable {source : KvEventSourceConfig} {r r' : RankState} {cursor cursor' : Cursor}
  {result : Option (Except KvIndexDegradedReason KvDeltaResponse)} {d : KvDeltaResponse} {limit : ℕ}

lemma RankState.Alike.refl (r : RankState) : r.Alike r := ⟨rfl, rfl, rfl, id⟩

lemma backlog_of_alike (h : r.Alike r') :
    backlog source r' cursor result = backlog source r cursor result := by
  have hrep : r'.replay = r.replay := by rw [replay, replay, h.rawBlocks]
  have hlag : lag r' cursor = lag r cursor := by rw [lag, lag, h.epoch, h.log, hrep]
  have hdelay : delay source r' cursor result = delay source r cursor result := by
    rcases result with - | (reason | d)
    · rfl
    · exact congrArg (· + 2) (congrArg length h.log)
    · have hidle : Idle r' cursor d ↔ Idle r cursor d := by rw [Idle, Idle, h.epoch, h.log]
      simp only [delay, hidle, h.log]
  rw [backlog, backlog, hlag, hdelay]

/-- A rebase trades the rest of the old stream for a replay. -/
lemma backlog_rebase (hfull : capacity < r.ring.log.length) (hcur : cursor.epoch ≠ fresh) :
    backlog source (r.rebaseReplay fresh) cursor result ≤ backlog source r cursor result := by
  have hrep := r.length_replay
  have hlag : lag (r.rebaseReplay fresh) cursor = r.replay.length + 1 := by
    rw [lag, log_rebaseReplay, epoch_rebaseReplay,
      if_neg (not_lt.mpr hrep), if_neg hcur, Nat.zero_add]
  have hold : r.replay.length + 2 ≤ lag r cursor := by
    rw [lag, if_pos hfull]
    exact Nat.le_add_right _ _
  have hdelay : delay source (r.rebaseReplay fresh) cursor result ≤
      delay source r cursor result + 1 := by
    rcases result with - | (reason | d)
    · exact Nat.zero_le _
    · simp only [delay, log_rebaseReplay]
      omega
    · simp only [delay, log_rebaseReplay]
      split_ifs <;> omega
  rw [backlog, backlog]
  omega

/-- Asking a source costs nothing. -/
lemma backlog_fetch (hans : Answer cursor limit fresh r r' d) (hlimit : 1 ≤ limit)
    (hiden : SameIdentity source d) (hcur : cursor.epoch ≠ fresh) :
    backlog source r' cursor (some (.ok d)) ≤ backlog source r cursor none := by
  have hidle : ¬ Idle r' cursor d := by
    rintro (hepoch | ⟨hepoch, hdelt, hless⟩)
    · exact hepoch hans.epoch
    · obtain ⟨rfl, hpage, -⟩ := hans.same (hepoch.trans hans.epoch)
      have hlen := congrArg length (hpage.symm.trans hdelt)
      rw [length_numberFrom, length_take, length_drop, length_nil] at hlen
      omega
  have hdelay : delay source r' cursor (some (.ok d)) = 0 := by
    rw [delay, if_pos hiden, if_neg hidle]
  rcases hans.rank with rfl | ⟨hbeh, rfl⟩
  · rw [backlog, hdelay]
    exact Nat.le_refl _
  · have hfull : capacity < r.ring.log.length := by
      have := leavesBehind_iff.mp hbeh
      omega
    have hrebase : backlog source (r.rebaseReplay fresh) cursor none ≤
        backlog source r cursor none := backlog_rebase hfull hcur
    rwa [backlog, hdelay]

/-- An answer that is not accepted makes the frontend start anew. -/
lemma backlog_reject (cursor : Cursor) (hname : r.epoch ≠ "")
    {answer : Except KvIndexDegradedReason KvDeltaResponse}
    (h : ∀ d, answer = .ok d → ¬ SameIdentity source d) :
    backlog source r default none < backlog source r cursor (some answer) := by
  have hdelay : delay source r cursor (some answer) = r.ring.log.length + 2 := by
    cases answer with
    | error => rfl
    | ok d => rw [delay, if_neg (h d rfl)]
  have hnew : lag r default = (if capacity < r.ring.log.length then r.replay.length + 2 else 0) +
      (r.ring.log.length + 1) := by
    have hdefault : ¬ (default : Cursor).epoch = r.epoch := hname.symm
    rw [lag, if_neg hdefault]
  rw [backlog, backlog, hnew, lag, delay]
  omega

/-- An accepted answer brings the frontend closer. -/
lemma backlog_accept (hiden : SameIdentity source d)
    (hrecent : cursor.epoch = r.epoch → d.epoch = r.epoch) (hepoch : cursor'.epoch = d.epoch)
    (hafter : expected cursor'.after = expected (cursor.position d.epoch) + d.deltas.length)
    (hle : d.epoch = r.epoch → expected cursor'.after ≤ r.ring.log.length) :
    backlog source r cursor' none < backlog source r cursor (some (.ok d)) ∨
      (cursor'.epoch = r.epoch ∧ expected cursor'.after = r.ring.log.length) := by
  have hempty : d.deltas.length = 0 ↔ d.deltas = [] := length_eq_zero_iff
  rw [backlog, backlog, delay, delay, if_pos hiden, lag, lag, hepoch]
  rw [Cursor.position] at hafter
  -- an answer of the current epoch without deltas was idle, or the cursor is at the end
  by_cases hcurr : d.epoch = r.epoch <;> by_cases hsame : cursor.epoch = d.epoch <;>
    grind [Idle]

/-- In step, at most a rebase is to come. -/
lemma backlog_inStep (hepoch : cursor'.epoch = r.epoch)
    (hafter : expected cursor'.after = r.ring.log.length) :
    backlog source r cursor' none ≤ backlog source r cursor result := by
  rw [backlog, backlog, lag, lag, delay, if_pos hepoch]
  omega

end Backlog

/-! ### Quiet commands -/

/-- The adapter answers under the identity of the source. -/
def Publishes (adapter : KvEventAdapter) (source : KvEventSourceConfig) : Prop :=
  source.eventSourceId = adapter.modelGroupId ++ ":dp:" ++ toString source.dpRank ∧
    source.modelGroupId = adapter.modelGroupId

/-- Nothing new happens to the rank of the source: no event, no failure and no restart; and
the frontend polls the source without losing answers. -/
def Quiet (source : KvEventSourceConfig) : Command → Prop
  | .start endpoint _ _ _ _ _ => endpoint ≠ source.endpoint
  | .ingest endpoint dpRank (.event _) => ¬ (endpoint = source.endpoint ∧ dpRank = source.dpRank)
  | .ingest endpoint dpRank .fail => ¬ (endpoint = source.endpoint ∧ dpRank = source.dpRank)
  | .fetch polled limit => polled = source → 1 ≤ limit
  | .settle polled delivery _ => polled = source → delivery = .intact
  | _ => True

/-- The rank stays as it is for a reader, or it is rebased. -/
def RankState.Kept (fresh : String) (r r' : RankState) : Prop :=
  r.Alike r' ∨ (capacity < r.ring.log.length ∧ r' = r.rebaseReplay fresh)

lemma RankState.Kept.available {r r' : RankState} (h : r.Kept fresh r')
    (havail : r.available = true) : r'.available = true := by
  rcases h with halike | ⟨-, rfl⟩
  · exact halike.available havail
  · rwa [rebaseReplay, foldl_push]

lemma RankState.kept_catchUp (r : RankState) (n : Option String) (t : Option ℕ)
    (fresh : String) : r.Kept fresh (r.catchUp n t fresh) := by
  rcases r.catchUp_eq n t fresh with heq | ⟨hbeh, heq⟩
  · rw [heq]
    exact .inl (Alike.refl r)
  · rw [heq]
    have := leavesBehind_iff.mp hbeh
    exact .inr ⟨by omega, rfl⟩

namespace KvEventAdapter

variable {adapter : KvEventAdapter} {r : RankState} {i : ℕ}

section

variable (hr : adapter.ranks[i]? = some r)
include hr

lemma kept_setRank {rk' : RankState} (hkept : dp = i → r.Kept fresh rk') :
    ∃ r', (adapter.setRank dp rk').ranks[i]? = some r' ∧ r.Kept fresh r' := by
  rw [setRank, getElem?_set]
  split_ifs with hi hlt
  · exact ⟨rk', rfl, hkept hi⟩
  · exact absurd (hi ▸ (List.getElem?_eq_some_iff.mp hr).1) hlt
  · exact ⟨r, hr, .inl (Alike.refl r)⟩

lemma kept_modify {f : RankState → RankState} (hkept : dp = i → r.Kept fresh (f r)) :
    ∃ r', (adapter.ranks.modify dp f)[i]? = some r' ∧ r.Kept fresh r' := by
  rw [getElem?_modify, hr]
  by_cases hi : dp = i
  · exact ⟨f r, congrArg some (if_pos hi), hkept hi⟩
  · exact ⟨r, congrArg some (if_neg hi), .inl (Alike.refl r)⟩

lemma kept_delta {n : Option String} {t : Option ℕ} {limit : ℕ} :
    ∃ r', (adapter.delta dp n t limit fresh).1.ranks[i]? = some r' ∧
      r.Kept fresh r' := by
  rw [fst_delta]
  cases hrank : adapter.ranks[dp]?.filter (·.available) with
  | none => exact ⟨r, hr, .inl (Alike.refl r)⟩
  | some rk =>
    refine kept_setRank hr ?_
    rintro rfl
    obtain rfl := some.inj ((filter_eq_some_iff.mp hrank).1.symm.trans hr)
    exact rk.kept_catchUp n t fresh

end

/-- A quiet part of a message keeps the rank of the source. -/
lemma kept_perform {part : IngestPart} {source : KvEventSourceConfig}
    (hquiet : Quiet source (.ingest source.endpoint dp part))
    (hr : adapter.ranks[source.dpRank]? = some r) :
    ∃ r', (perform dp fresh adapter part).ranks[source.dpRank]? = some r' ∧
      r.Kept fresh r' := by
  cases part with
  | event =>
    rw [perform]
    split
    · exact ⟨r, hr, .inl (Alike.refl r)⟩
    · exact kept_setRank hr fun hrank => absurd ⟨rfl, hrank⟩ hquiet
  | fail => exact kept_modify hr fun hrank => absurd ⟨rfl, hrank⟩ hquiet
  | recover => exact kept_modify hr fun _ => .inl ⟨rfl, rfl, rfl, fun _ => rfl⟩
  | acknowledge =>
    refine kept_modify hr fun _ => .inl ?_
    split_ifs
    · exact ⟨rfl, rfl, rfl, id⟩
    · exact Alike.refl r

lemma modelGroupId_perform (adapter : KvEventAdapter) (dp : ℕ) (part : IngestPart) :
    (perform dp fresh adapter part).modelGroupId = adapter.modelGroupId := by
  cases part with
  | event =>
    rw [perform]
    split <;> rfl
  | fail | recover | acknowledge => rfl

lemma modelGroupId_delta (adapter : KvEventAdapter) (dp : ℕ) (n : Option String)
    (t : Option ℕ) (limit : ℕ) :
    (adapter.delta dp n t limit fresh).1.modelGroupId = adapter.modelGroupId := by
  rw [fst_delta]
  cases adapter.ranks[dp]?.filter (·.available) with
  | none | some => rfl

lemma fetched_of_available {q : KvDeltaQuery} (hr : adapter.ranks[q.dpRank]? = some r)
    (havail : r.available = true) : ∃ d, fetched (adapter.kvIndexDelta q fresh).2 = .ok d := by
  have hfilt : adapter.ranks[q.dpRank]?.filter (·.available) = some r :=
    filter_eq_some_iff.mpr ⟨hr, havail⟩
  rw [kvIndexDelta, delta, hfilt]
  dsimp only
  split_ifs
  all_goals exact ⟨_, rfl⟩

end KvEventAdapter

open KvEventAdapter

/-! ### Quiet runs -/

namespace System

/-- The rank behind the source is available and answers under its identity. -/
def Serving (s : System) (source : KvEventSourceConfig) (r : RankState) : Prop :=
  ∃ adapter, s.servers.lookup source.endpoint = some adapter ∧ Publishes adapter source ∧
    adapter.ranks[source.dpRank]? = some r ∧ r.available = true

/-- How far a source of the system is behind. -/
def backlog (s : System) (source : KvEventSourceConfig) : ℕ :=
  (s.producer source).elim 0 fun r =>
    KvLocality.backlog source r (s.indexer.state.cursor source)
      (s.inFlight.lookup source.eventSourceId)

/-- The frontend has read everything that the rank of the source has published. -/
def InStep (s : System) (source : KvEventSourceConfig) : Prop :=
  ∃ cursor r, s.cursor source = some cursor ∧ s.producer source = some r ∧
    cursor.epoch = r.epoch ∧ cursor.after = r.ring.entries.getLast?.map (·.sequence)

/-- The command ends a round of the frontend for the source. -/
def endsRound (source : KvEventSourceConfig) (s : System) : Command → Bool
  | .settle polled _ _ => polled = source && (s.inFlight.lookup source.eventSourceId).isSome
  | _ => false

variable {uuids : Uuids} {past : KvEventSourceConfig → List FactsStep} {s s' : System}
  {source : KvEventSourceConfig} {r r' : RankState}

section

variable (h : s.Serving source r)
include h

lemma Serving.producer : s.producer source = some r := by
  obtain ⟨adapter, hadapter, -, hr, -⟩ := h
  rwa [System.producer, System.rank, hadapter]

lemma Serving.backlog :
    s.backlog source = KvLocality.backlog source r (s.indexer.state.cursor source)
      (s.inFlight.lookup source.eventSourceId) := by
  rw [System.backlog, h.producer]
  rfl

lemma Serving.of_servers (hservers : s'.servers = s.servers) :
    s'.Serving source r := by
  rwa [Serving, hservers]

lemma Serving.insert {e : String} {adapter adapter' : KvEventAdapter}
    (hadapter : s.servers.lookup e = some adapter)
    (hservers : s'.servers = s.servers.insert e adapter')
    (hgroup : adapter'.modelGroupId = adapter.modelGroupId)
    (hkept : e = source.endpoint → ∀ r, adapter.ranks[source.dpRank]? = some r →
      ∃ r', adapter'.ranks[source.dpRank]? = some r' ∧ r.Kept fresh r') :
    ∃ r', s'.Serving source r' ∧ r.Kept fresh r' := by
  obtain ⟨served, hserved, hpub, hr, havail⟩ := h
  by_cases hendpoint : e = source.endpoint
  · subst hendpoint
    obtain rfl := some.inj (hadapter.symm.trans hserved)
    obtain ⟨r', hr', hrank⟩ := hkept rfl r hr
    refine ⟨r', ⟨adapter', ?_, ?_, hr', hrank.available havail⟩, hrank⟩
    · rw [hservers, lookup_insert_eq, if_pos rfl]
    · rwa [Publishes, hgroup]
  · refine ⟨r, ⟨served, ?_, hpub, hr, havail⟩, .inl (Alike.refl r)⟩
    rwa [hservers, lookup_insert_eq, if_neg (Ne.symm hendpoint)]

lemma Serving.atServer {e : String} {f : KvEventAdapter → KvEventAdapter}
    (hgroup : ∀ adapter, (f adapter).modelGroupId = adapter.modelGroupId)
    (hkept : e = source.endpoint → ∀ (adapter : KvEventAdapter) r,
      adapter.ranks[source.dpRank]? = some r →
        ∃ r', (f adapter).ranks[source.dpRank]? = some r' ∧ r.Kept fresh r') :
    ∃ r', (s.atServer e f).Serving source r' ∧ r.Kept fresh r' := by
  rw [System.atServer]
  cases hadapter : s.servers.lookup e with
  | none => exact ⟨r, h, .inl (Alike.refl r)⟩
  | some adapter =>
    exact h.insert hadapter rfl (hgroup adapter) fun hendpoint => hkept hendpoint adapter

end

/-- The source is still served, and the frontend is not further behind. -/
def Nears (source : KvEventSourceConfig) (s s' : System) : Prop :=
  (∃ r', s'.Serving source r') ∧ s'.backlog source ≤ s.backlog source

lemma Serving.nears (h : s.Serving source r) : Nears source s s := ⟨⟨r, h⟩, Nat.le_refl _⟩

section

variable (h : Consistent uuids past s) (hsrc : source ∈ s.indexer.config.eventSources)
  (hserv : s.Serving source r)
include h hsrc hserv

lemma Consistent.nears (hserv' : ∃ r', s'.Serving source r' ∧ r.Kept (uuids.newV4 s.drawn) r')
    (hcur : s'.indexer.state.cursor source = s.indexer.state.cursor source)
    (hinFlight : s'.inFlight.lookup source.eventSourceId = s.inFlight.lookup source.eventSourceId) :
    Nears source s s' := by
  obtain ⟨r', hr', hkept⟩ := hserv'
  refine ⟨⟨r', hr'⟩, ?_⟩
  rw [hr'.backlog, hserv.backlog, hcur, hinFlight]
  rcases hkept with halike | ⟨hfull, rfl⟩
  · exact (backlog_of_alike halike).le
  · exact backlog_rebase hfull (h.epoch_ne hsrc le_rfl)

lemma Consistent.nears_fetch (hnone : s.inFlight.lookup source.eventSourceId = none) {limit : ℕ}
    (hlimit : 1 ≤ limit) :
    Nears source s (s.fetch uuids source limit) := by
  obtain ⟨adapter, hadapter, hpub, hr, havail⟩ := id hserv
  let query := fetchQuery source (s.indexer.state.cursor source) limit
  obtain ⟨d, hd⟩ : ∃ d, fetched (adapter.kvIndexDelta query (uuids.newV4 s.drawn)).2 = .ok d :=
    fetched_of_available hr havail
  obtain ⟨rk, r', hrank, -, hafter, hans, hid, hgroup, hdp⟩ := h.answer hsrc hadapter hd
  obtain rfl := some.inj (hserv.producer.symm.trans hrank)
  have hfetch : s.fetch uuids source limit =
      { s with
        servers := s.servers.insert source.endpoint (adapter.setRank source.dpRank r')
        inFlight := s.inFlight.insert source.eventSourceId (.ok d)
        drawn := s.drawn + 1 } := by
    rw [System.fetch, hadapter]
    dsimp only
    rw [hafter, hd]
  have hkept : r.Kept (uuids.newV4 s.drawn) r' := by
    rcases hans.rank with rfl | ⟨hbeh, rfl⟩
    · exact .inl (Alike.refl r')
    · have := leavesBehind_iff.mp hbeh
      exact .inr ⟨by omega, rfl⟩
  have hserv' : (s.fetch uuids source limit).Serving source r' := by
    refine ⟨adapter.setRank source.dpRank r', ?_, hpub, ?_, hkept.available havail⟩
    · rw [hfetch, lookup_insert_eq, if_pos rfl]
    · exact List.getElem?_set_self (List.getElem?_eq_some_iff.mp hr).1
  have hiden : SameIdentity source d :=
    ⟨hid.trans hpub.1.symm, hgroup.trans hpub.2.symm, hdp⟩
  refine ⟨⟨r', hserv'⟩, ?_⟩
  rw [hserv'.backlog, hserv.backlog, hnone, hfetch, lookup_insert_eq, if_pos rfl]
  exact backlog_fetch hans hlimit hiden (h.epoch_ne hsrc le_rfl)

lemma Consistent.nears_fetch_ne (hpoll : p ∈ s.indexer.config.eventSources) (hne : p ≠ source)
    (limit : ℕ) : Nears source s (s.fetch uuids p limit) := by
  have hid : source.eventSourceId ≠ p.eventSourceId :=
    fun hid => hne (h.source_eq hsrc hpoll hid.symm)
  rw [System.fetch]
  cases hadapter : s.servers.lookup p.endpoint with
  | none =>
    refine h.nears hsrc hserv ⟨r, hserv.of_servers rfl, .inl (.refl r)⟩ rfl ?_
    rw [lookup_insert_eq, if_neg hid]
  | some adapter =>
    refine h.nears hsrc hserv (hserv.insert hadapter rfl ?_ ?_) rfl ?_
    · exact modelGroupId_delta adapter _ _ _ _
    · exact fun _ _ hr => kept_delta hr
    · rw [lookup_insert_eq, if_neg hid]

end

lemma cursor_eq_of_expected {t : Option ℕ} (h : expected t = r.ring.log.length) :
    t = r.ring.entries.getLast?.map (·.sequence) := by
  rw [Ring.getLast?_entries]
  cases t with
  | none => rw [if_pos (length_eq_zero_iff.mp h.symm)]
  | some a =>
    have hlen : a + 1 = r.ring.log.length := h
    rw [if_neg (ne_nil_of_length_pos (by omega)), ← hlen, Nat.add_sub_cancel]

lemma settle_intact {now : ℕ → ℕ} {result : Except KvIndexDegradedReason KvDeltaResponse}
    (h : s.inFlight.lookup p.eventSourceId = some result) :
    (s.settle p .intact now).1 =
      { s with
        indexer := (s.indexer.settle p result now).1
        inFlight := s.inFlight.erase p.eventSourceId } := by
  rw [System.settle, h]
  rfl

section

variable (h : Consistent uuids past s) (hsrc : source ∈ s.indexer.config.eventSources)
  (hserv : s.Serving source r)
include h hsrc hserv

/-- **A round lowers the backlog or ends in step.** -/
lemma Consistent.round (now : ℕ → ℕ) {result : Except KvIndexDegradedReason KvDeltaResponse}
    (hres : s.inFlight.lookup source.eventSourceId = some result) :
    Nears source s (s.settle source .intact now).1 ∧
      ((s.settle source .intact now).1.backlog source < s.backlog source ∨
        (s.settle source .intact now).1.InStep source) := by
  have hafter := h.settle hsrc .intact now
  rw [settle_intact hres] at hafter ⊢
  generalize hs' : System.mk s.servers (s.indexer.settle source result now).1
    (s.inFlight.erase source.eventSourceId) s.drawn = s' at hafter ⊢
  have hserv' : s'.Serving source r := hserv.of_servers (by rw [← hs'])
  have hstate : s'.indexer.state = (s.indexer.settle source result now).1.state := by rw [← hs']
  have hnone : s'.inFlight.lookup source.eventSourceId = none := by
    rw [← hs', lookup_erase_eq, if_pos rfl]
  have hsrc' : source ∈ s'.indexer.config.eventSources := by
    rwa [← hs', s.indexer.settle_config]
  rw [Nears, hserv'.backlog, hserv.backlog, hres, hnone]
  by_cases hiden : ∃ d, result = .ok d ∧ SameIdentity source d
  · obtain ⟨d, rfl, hiden⟩ := hiden
    obtain ⟨-, -, hseq, hrecent⟩ := h.answers source hsrc d hres
    rw [(settle_accepted now hiden hseq).1] at hstate
    obtain ⟨cursor', hcur, hepoch, hexpected⟩ : ∃ cursor', s'.cursor source = some cursor' ∧
        cursor'.epoch = d.epoch ∧ expected cursor'.after =
          expected ((s.indexer.state.cursor source).position d.epoch) + d.deltas.length := by
      refine ⟨⟨d.epoch, if d.deltas = [] then (s.indexer.state.cursor source).position d.epoch
        else some d.through, d.cacheGroups⟩, ?_, rfl,
        expected_accept hseq.1 hseq.2.1⟩
      rw [System.cursor, hstate, accept, lookup_insert_eq, if_pos rfl]
    have hle := hafter.position hsrc' hserv'.producer
    rw [cursor_of_some hcur, hepoch] at hle
    rw [cursor_of_some hcur]
    rcases backlog_accept hiden (hrecent r hserv.producer) hepoch hexpected hle
      with hless | ⟨hcurr, hend⟩
    · exact ⟨⟨⟨r, hserv'⟩, hless.le⟩, .inl hless⟩
    · exact ⟨⟨⟨r, hserv'⟩, backlog_inStep hcurr hend⟩,
        .inr ⟨cursor', r, hcur, hserv'.producer, hcurr, cursor_eq_of_expected hend⟩⟩
  · have hforg := (settle_error now (h.confined source hsrc)
      fun d hd hright => hiden ⟨d, hd, hright.1⟩).2.2
    have hcur : s'.cursor source = none := by
      rw [System.cursor, hstate]
      exact hforg.cursors
    rw [cursor_of_none hcur]
    have hless := backlog_reject (s.indexer.state.cursor source)
      (h.ranks _ _ r hserv.producer).ne_empty fun d hd hsame => hiden ⟨d, hd, hsame⟩
    exact ⟨⟨⟨r, hserv'⟩, hless.le⟩, .inl hless⟩

lemma Consistent.nears_settle_ne (hpoll : p ∈ s.indexer.config.eventSources) (hne : p ≠ source)
    (dv : Delivery) (now : ℕ → ℕ) : Nears source s (s.settle p dv now).1 := by
  have hid : source.eventSourceId ≠ p.eventSourceId :=
    fun hid => hne (h.source_eq hsrc hpoll hid.symm)
  rw [System.settle]
  cases hres : (s.inFlight.lookup p.eventSourceId).bind (s.delivered p · dv) with
  | none => exact hserv.nears
  | some result =>
    have hframe := settle_frame (h.confined p hpoll) result now
    refine h.nears hsrc hserv ⟨r, hserv.of_servers rfl, .inl (.refl r)⟩ ?_ ?_
    · rw [State.cursor, State.cursor, hframe.cursors _ hid]
    · rw [lookup_erase_eq, if_neg hid]

/-- **What a quiet command does.** -/
lemma Consistent.quiet_step {c : Command} (hquiet : Quiet source c) :
    Nears source s (s.step uuids c).1 ∧
      (endsRound source s c = true → (s.step uuids c).1.backlog source < s.backlog source ∨
        (s.step uuids c).1.InStep source) := by
  cases c with
  | start =>
    refine ⟨h.nears hsrc hserv ⟨r, ?_, .inl (.refl r)⟩ rfl rfl, by simp [endsRound]⟩
    obtain ⟨adapter, hadapter, hrest⟩ := hserv
    refine ⟨adapter, ?_, hrest⟩
    rwa [System.step, lookup_insert_eq, if_neg (Ne.symm hquiet)]
  | loadCacheGroups =>
    refine ⟨h.nears hsrc hserv (hserv.atServer (fun _ => rfl) ?_) ?_ ?_, by simp [endsRound]⟩
    · exact fun _ adapter r hr => ⟨r, hr, .inl (.refl r)⟩
    · rw [System.step, atServer_indexer]
    · rw [System.step, atServer_inFlight]
  | ingest e dp part =>
    refine ⟨h.nears hsrc hserv (hserv.atServer (fun adapter => ?_) ?_) ?_ ?_, by simp [endsRound]⟩
    · exact adapter.modelGroupId_perform dp part
    · rintro rfl adapter r hr
      exact kept_perform hquiet hr
    · rw [System.step, atServer_indexer]
    · rw [System.step, atServer_inFlight]
  | poll =>
    refine ⟨h.nears hsrc hserv (hserv.atServer (fun adapter => ?_) ?_) ?_ ?_, by simp [endsRound]⟩
    · exact adapter.modelGroupId_delta _ _ _ _
    · exact fun _ adapter r hr => kept_delta hr
    · rw [System.step, atServer_indexer]
    · rw [System.step, atServer_inFlight]
  | fetch p limit =>
    refine ⟨?_, by simp [endsRound]⟩
    rw [System.step]
    split_ifs with hpoll
    · by_cases hne : p = source
      · obtain rfl := hne
        exact h.nears_fetch hsrc hserv hpoll.2 (hquiet rfl)
      · exact h.nears_fetch_ne hsrc hserv hpoll.1 hne limit
    · exact hserv.nears
  | settle p dv now =>
    by_cases hne : p = source
    · obtain rfl := hne
      obtain rfl := hquiet rfl
      rw [System.step, if_pos hsrc]
      cases hres : s.inFlight.lookup p.eventSourceId with
      | none =>
        have hsame : (s.settle p .intact now).1 = s := by rw [System.settle, hres]; rfl
        rw [hsame]
        exact ⟨hserv.nears, by simp [endsRound, hres]⟩
      | some =>
        obtain ⟨hnears, hround⟩ := h.round hsrc hserv now hres
        exact ⟨hnears, fun _ => hround⟩
    · refine ⟨?_, by simp [endsRound, hne]⟩
      rw [System.step]
      split_ifs with hpoll
      · exact h.nears_settle_ne hsrc hserv hpoll hne dv now
      · exact hserv.nears
  | query =>
    refine ⟨h.nears hsrc hserv ⟨r, ?_, .inl (.refl r)⟩ rfl rfl, by simp [endsRound]⟩
    exact hserv.of_servers rfl

end

/-- The frontend asks the source for one delta at a time, as often as given. -/
def polls (source : KvEventSourceConfig) : ℕ → List Command
  | 0 => []
  | n + 1 => .fetch source 1 :: .settle source .intact id :: polls source n

/-- Each poll ends a round and disturbs nothing. -/
lemma polls_rounds {indexer : KvIndexer} (hsrc : source ∈ s.indexer.config.eventSources)
    (hnone : s.inFlight.lookup source.eventSourceId = none) (n : ℕ) :
    (replication uuids indexer).Along (fun _ => Quiet source) s (polls source n) ∧
      (replication uuids indexer).count (endsRound source) s (polls source n) = n := by
  induction n generalizing s with
  | zero => exact ⟨trivial, rfl⟩
  | succ n ih =>
    have hasked : (replication uuids indexer).next s (.fetch source 1) =
        s.fetch uuids source 1 :=
      congrArg Prod.fst (if_pos ⟨hsrc, hnone⟩)
    obtain ⟨result, hresult, hidx⟩ : ∃ result,
        (s.fetch uuids source 1).inFlight.lookup source.eventSourceId = some result ∧
          (s.fetch uuids source 1).indexer = s.indexer := by
      rw [System.fetch]
      split <;> exact ⟨_, by rw [lookup_insert_eq, if_pos rfl], rfl⟩
    have hsrc' : source ∈ (s.fetch uuids source 1).indexer.config.eventSources := hidx ▸ hsrc
    have hsettled : (replication uuids indexer).next (s.fetch uuids source 1)
        (.settle source .intact id) = ((s.fetch uuids source 1).settle source .intact id).1 :=
      congrArg Prod.fst (if_pos hsrc')
    have hends : endsRound source (s.fetch uuids source 1) (.settle source .intact id) = true := by
      simp [endsRound, hresult]
    obtain ⟨hquiet, hcount⟩ := @ih ((s.fetch uuids source 1).settle source .intact id).1
      (by rw [settle_intact hresult, settle_config]; exact hsrc')
      (by rw [settle_intact hresult, lookup_erase_eq, if_pos rfl])
    rw [polls, Machine.Along, Machine.Along, Machine.count, Machine.count, hasked, hsettled,
      hends, hcount]
    exact ⟨⟨fun _ => Nat.le_refl 1, fun _ => rfl, hquiet⟩, by simp [endsRound, Nat.add_comm]⟩

end System

namespace OneBlock

/-- The frontend knows the epoch of the rank but not its block. -/
def behind : System :=
  (replication uuids indexer).after (commands.take 4)

end OneBlock

open OneBlock

/-- **A truthful producer never degrades its consumer.** In every run of model servers and a
frontend, for every source that the server behind its endpoint publishes:

* the frontend accepts what this server answers to its cursor, be it a page or a reset,
* it accepts an answer on its way that names the source,
* if the rank of the source is available and nothing new happens to it, then finitely many
  rounds bring the frontend to the epoch and the last number of the rank, whatever the other
  ranks, sources and readers do meanwhile. -/
theorem truthful_producer_accepted (uuids : Uuids) {config : KvRuntimeConfig} {key : KeyedDigest}
    {indexer : KvIndexer} (hnew : new config key = .ok indexer) (cs : List Command)
    {source : KvEventSourceConfig} (hsource : source ∈ config.eventSources)
    {adapter : KvEventAdapter} :
    let M := replication uuids indexer
    let s := M.after cs
    s.servers.lookup source.endpoint = some adapter → Publishes adapter source →
    (∀ limit now d, fetched (adapter.kvIndexDelta
        (fetchQuery source (s.indexer.state.cursor source) limit) (uuids.newV4 s.drawn)).2 = .ok d →
      (s.indexer.state.apply source d now).2 = .ok ()) ∧
    (∀ now d, s.inFlight.lookup source.eventSourceId = some (.ok d) → SameIdentity source d →
      (s.indexer.state.apply source d now).2 = .ok ()) ∧
    ∀ r, s.producer source = some r → r.available = true →
      ∃ rounds, ∀ ds, M.Along (fun _ => Quiet source) s ds →
        rounds ≤ M.count (System.endsRound source) s ds →
        ∃ pre post, ds = pre ++ post ∧ (M.run s pre).InStep source := by
  intro M s hadapter hpublishes
  have hs := @consistent_run uuids _ _ _ hnew cs
  have hconfig : s.indexer.config = indexer.config := config_run cs
  have hsource' : source ∈ indexer.config.eventSources := by
    rwa [(new_spec hnew).2.1]
  have hmem : source ∈ s.indexer.config.eventSources := hconfig ▸ hsource'
  refine ⟨fun limit now d hd => ?_, fun now d hd hidentity => ?_, fun r hr havailable => ?_⟩
  · obtain ⟨r, r', hr, -, -, hanswer, hid, hgroup, hdp⟩ := hs.answer hmem hadapter hd
    have hidentity : SameIdentity source d :=
      ⟨hid.trans hpublishes.1.symm, hgroup.trans hpublishes.2.symm, hdp⟩
    rw [apply_accepted hidentity (hanswer.inSequence (hs.position hmem hr)) now]
  · rw [apply_accepted hidentity (hs.answers source hmem d hd).2.2.1 now]
  · refine ⟨s.backlog source + 1, fun ds hquiet hrounds => ?_⟩
    let I := fun t : System => (∃ past, System.Consistent uuids past t) ∧
      t.indexer.config = indexer.config ∧ ∃ r, t.Serving source r
    refine Machine.progress (I := I) (fun t => t.backlog source) (fun t => t.InStep source) ?_ ?_
      hquiet hrounds
    · rintro t c ⟨⟨past, ht⟩, htconfig, r, hserving⟩ hc
      obtain ⟨⟨hserving', hle⟩, hround⟩ := ht.quiet_step (htconfig ▸ hsource') hserving hc
      exact ⟨⟨⟨_, ht.step c⟩, (System.config_step t c).trans htconfig, hserving'⟩, hle, hround⟩
    · refine ⟨⟨_, hs⟩, hconfig, r, adapter, hadapter, hpublishes, ?_, havailable⟩
      rwa [System.producer, System.rank, hadapter] at hr

theorem truthful_producer_accepted_oneBlock :
    ∃ n pre post, System.polls source n = pre ++ post ∧
      ((replication uuids indexer).run behind pre).InStep source := by
  have hadapter : (behind.servers.lookup "http://m").any (fun adapter =>
      adapter.modelGroupId = "g" ∧ adapter.ranks[0]?.any (·.available)) = true := by
    decide +kernel
  obtain ⟨adapter, hadapter, hgroup⟩ := (any_eq_true _ _).mp hadapter
  obtain ⟨hgroup, havailable⟩ := of_decide_eq_true hgroup
  obtain ⟨rank, hrank, havailable⟩ := (any_eq_true _ _).mp havailable
  have hnew : new config key = .ok indexer := rfl
  have hpublishes : Publishes adapter source := by
    rw [Publishes, hgroup]
    decide
  have hproducer : behind.producer source = some rank := by
    rwa [System.producer, System.rank, show source.endpoint = "http://m" from rfl, hadapter]
  obtain ⟨rounds, hreached⟩ := (truthful_producer_accepted uuids hnew (commands.take 4)
    (mem_singleton_self _) hadapter hpublishes).2.2 rank hproducer havailable
  obtain ⟨hquiet, hcount⟩ := @System.polls_rounds uuids behind source indexer
    (by decide +kernel) (by decide +kernel) rounds
  exact ⟨rounds, hreached _ hquiet hcount.ge⟩

end Foretoken.KvLocality
