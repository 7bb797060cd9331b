import Foretoken.KvLocality.Replica
import Foretoken.KvLocality.Stream

/-!
Model servers and a frontend that replicates their streams.

Model servers start and ingest messages part by part, other readers poll, the frontend asks a
source and handles the answer, and queries make facts expire; every interleaving is a list of
commands. An answer arrives as it was given, or not at all, or another one arrives in its place
that is wrong in its identity or in its numbers. A command that is not possible changes nothing.
-/

namespace Foretoken.KvLocality

open RingLog KvEventAdapter Option List

/-- The results of `Uuid::new_v4`, in the order in which they are drawn. -/
structure Uuids where
  newV4 : ℕ → String
  injective : Function.Injective newV4
  ne_empty : ∀ n, newV4 n ≠ ""

/-! ### The system -/

/-- The publishers, the indexer and the polls under way. -/
structure System where
  servers : Table String KvEventAdapter
  indexer : KvIndexer
  inFlight : Table String (Except KvIndexDegradedReason KvDeltaResponse)
  drawn : ℕ

/-- What becomes of an answer on its way. -/
inductive Delivery where
  | intact
  | failed (reason : KvIndexDegradedReason)
  | wrong (response : KvDeltaResponse)

/-- What can happen next. -/
inductive Command where
  | start (endpoint : String) (key : KeyedDigest) (scopeId modelGroupId modelRevision : String)
      (dataParallelSize : ℕ)
  | loadCacheGroups (endpoint : String) (groups : List KvCacheGroup)
  | ingest (endpoint : String) (dpRank : ℕ) (part : IngestPart)
  | poll (endpoint : String) (query : KvDeltaQuery)
  | fetch (source : KvEventSourceConfig) (limit : ℕ)
  | settle (source : KvEventSourceConfig) (delivery : Delivery) (now : ℕ → ℕ)
  | query (id : KvEventSourceId) (query : KvPrefixQuery) (now : ℕ)

/-- `kv_index_delta`: the handler of a poll. -/
def KvEventAdapter.kvIndexDelta (adapter : KvEventAdapter) (query : KvDeltaQuery)
    (fresh : String) : KvEventAdapter × Except KvDeltaError KvDeltaResponse :=
  adapter.delta query.dpRank query.epoch query.after (query.limit.getD 256) fresh

/-- What `fetch_delta` makes of the answer: a reset carries its body, 503 is an error. -/
def fetched : Except KvDeltaError KvDeltaResponse → Except KvIndexDegradedReason KvDeltaResponse
  | .ok d => .ok d
  | .error (.cursorReset d) => .ok d
  | .error .unavailable => .error .eventSubscriberUnavailable

namespace System

section

variable (s : System) (source : KvEventSourceConfig)

/-- Let the adapter behind an endpoint do something. -/
def atServer (endpoint : String) (f : KvEventAdapter → KvEventAdapter) : System :=
  match s.servers.lookup endpoint with
  | none => s
  | some adapter =>
    { s with servers := s.servers.insert endpoint (f adapter), drawn := s.drawn + 1 }

/-- The frontend asks a source; a server that is not there cannot be reached. -/
def fetch (uuids : Uuids) (s : System) (source : KvEventSourceConfig) (limit : ℕ) : System :=
  match s.servers.lookup source.endpoint with
  | none =>
    { s with inFlight := s.inFlight.insert source.eventSourceId (.error .deltaTransport) }
  | some adapter =>
    let query := fetchQuery source (s.indexer.state.cursor source) limit
    let answer := adapter.kvIndexDelta query (uuids.newV4 s.drawn)
    { s with
      servers := s.servers.insert source.endpoint answer.1
      inFlight := s.inFlight.insert source.eventSourceId (fetched answer.2)
      drawn := s.drawn + 1 }

/-- The result that the frontend sees. -/
def delivered
    (result : Except KvIndexDegradedReason KvDeltaResponse) :
    Delivery → Option (Except KvIndexDegradedReason KvDeltaResponse)
  | .intact => some result
  | .failed reason => some (.error reason)
  | .wrong d =>
    if SameIdentity source d ∧ InSequence (s.indexer.state.cursor source) d then none
    else some (.ok d)

/-- The answer to a poll arrives, or its failure. -/
def settle (s : System) (source : KvEventSourceConfig) (delivery : Delivery) (now : ℕ → ℕ) :
    System × Option KvIndexDegradedReason :=
  match (s.inFlight.lookup source.eventSourceId).bind (s.delivered source · delivery) with
  | none => (s, none)
  | some result =>
    let settled := s.indexer.settle source result now
    ({ s with indexer := settled.1, inFlight := s.inFlight.erase source.eventSourceId },
      settled.2)

/-- A lookup, which lets facts expire. -/
def query (s : System) (id : KvEventSourceId) (query : KvPrefixQuery) (now : ℕ) : System :=
  let state := s.indexer.state
  { s with
    indexer := { s.indexer with
      state := { state with index := (state.index.query id query state.key now).1 } } }

/-- One step of the system. -/
def step (uuids : Uuids) (s : System) : Command → System × Option KvIndexDegradedReason
  | .start endpoint key scopeId modelGroupId modelRevision dataParallelSize =>
    ({ s with
        servers := s.servers.insert endpoint
          (.new key scopeId modelGroupId modelRevision dataParallelSize
            fun rank => uuids.newV4 (s.drawn + rank))
        drawn := s.drawn + dataParallelSize }, none)
  | .loadCacheGroups endpoint groups => (s.atServer endpoint (·.loadCacheGroups groups), none)
  | .ingest endpoint dpRank part =>
    (s.atServer endpoint (·.perform dpRank (uuids.newV4 s.drawn) part), none)
  | .poll endpoint query =>
    (s.atServer endpoint fun adapter => (adapter.kvIndexDelta query (uuids.newV4 s.drawn)).1, none)
  | .fetch source limit =>
    if source ∈ s.indexer.config.eventSources ∧
        s.inFlight.lookup source.eventSourceId = none then (s.fetch uuids source limit, none)
    else (s, none)
  | .settle source delivery now =>
    if source ∈ s.indexer.config.eventSources then s.settle source delivery now else (s, none)
  | .query id query now => (s.query id query now, none)

/-- The rank behind an endpoint. -/
def rank (endpoint : String) (i : ℕ) : Option RankState :=
  (s.servers.lookup endpoint).bind (·.ranks[i]?)

/-- The rank that publishes a source. -/
def producer : Option RankState :=
  s.rank source.endpoint source.dpRank

/-- How far the source has been read. -/
def cursor : Option Cursor :=
  s.indexer.state.cursors.lookup source.eventSourceId

end

/-- What the index holds of a source. -/
def facts (s : System) (x : KvEventSourceId) : Facts := s.indexer.state.index.facts x

end System

/-- The system of a frontend that starts with an indexer. -/
def replication (uuids : Uuids) (indexer : KvIndexer) :
    Machine System Command (Option KvIndexDegradedReason) where
  init := ⟨∅, indexer, ∅, 0⟩
  step := System.step uuids

/-! ### The names of epochs -/

/-- The name is among the first ones drawn. -/
def Uuids.Drawn (uuids : Uuids) (n : ℕ) (epoch : String) : Prop := ∃ k < n, epoch = uuids.newV4 k

section Drawn

variable {uuids : Uuids} {n m : ℕ} {epoch : String}

section

variable (h : uuids.Drawn n epoch)
include h

lemma Uuids.Drawn.mono (hnm : n ≤ m) : uuids.Drawn m epoch := by
  obtain ⟨k, hk, hepoch⟩ := h
  exact ⟨k, hk.trans_le hnm, hepoch⟩

lemma Uuids.Drawn.ne_empty : epoch ≠ "" := by
  obtain ⟨k, -, rfl⟩ := h
  exact uuids.ne_empty k

lemma Uuids.Drawn.ne_newV4 {k : ℕ} (hk : n ≤ k) :
    epoch ≠ uuids.newV4 k := by
  obtain ⟨j, hj, rfl⟩ := h
  exact fun heq => absurd (uuids.injective heq) (hj.trans_le hk).ne

end

end Drawn

/-! ### Answers -/

/-- The answer of a rank `r` to a cursor: the next piece of the stream, or an empty page in
another epoch. Afterwards the rank is `r'`. -/
structure Answer (cursor : Cursor) (limit : ℕ) (fresh : String) (r r' : RankState)
    (d : KvDeltaResponse) : Prop where
  epoch : d.epoch = r'.epoch
  current : d.current = r'.current
  rank : r' = r ∨ (r.leavesBehind cursor.after = true ∧ r' = r.rebaseReplay fresh)
  same : cursor.epoch = r'.epoch → r' = r ∧
    d.deltas = numberFrom (expected cursor.after)
      ((r.ring.log.drop (expected cursor.after)).take (min limit 512)) ∧
    d.through = ((d.deltas.getLast?.map (·.sequence)).or cursor.after).getD 0
  other : cursor.epoch ≠ r'.epoch → d.deltas = [] ∧ d.through = 0

section Answer

variable {cursor : Cursor} {limit : ℕ} {fresh : String} {r r' : RankState} {d : KvDeltaResponse}

lemma Answer.genuine (h : Answer cursor limit fresh r r' d) :
    ∀ x ∈ d.deltas, r'.ring.log[x.sequence]? = some x.event := by
  intro x hx
  by_cases hepoch : cursor.epoch = r'.epoch
  · obtain ⟨rfl, hdelt, -⟩ := h.same hepoch
    rw [hdelt, ← take_numberFrom] at hx
    exact entry_of_mem_numberFrom (mem_of_mem_take hx)
  · simp [(h.other hepoch).1] at hx

/-- **The answer continues the cursor.** -/
lemma Answer.inSequence (h : Answer cursor limit fresh r r' d)
    (hpos : cursor.epoch = r.epoch → expected cursor.after ≤ r.ring.log.length) :
    InSequence cursor d := by
  rw [InSequence, Cursor.position, h.epoch, h.current, RankState.current, Ring.current_eq]
  by_cases hepoch : cursor.epoch = r'.epoch
  · obtain ⟨rfl, hdelt, hthru⟩ := h.same hepoch
    have hle := hpos hepoch
    rw [if_pos hepoch]
    refine ⟨by rw [hdelt, map_event_numberFrom], hthru, ?_⟩
    rw [hthru, hdelt, getLast?_numberFrom]
    split_ifs with hnil
    · cases hafter : cursor.after with
      | none => exact Nat.zero_le _
      | some =>
        rw [hafter] at hle
        exact Nat.le_sub_of_add_le hle
    · have hlen := length_pos_of_ne_nil hnil
      rw [length_take, length_drop] at hlen ⊢
      rw [some_or, getD_some]
      omega
  · obtain ⟨hdelt, hthru⟩ := h.other hepoch
    rw [if_neg hepoch, hdelt, hthru]
    exact ⟨rfl, rfl, Nat.zero_le _⟩

/-- **What a poll of the frontend is answered.** -/
lemma answer_of_fetched {A : KvEventAdapter} {a : KvEventSourceConfig}
    (hfresh : fresh ≠ "" ∧ cursor.epoch ≠ fresh)
    (hnamed : ∀ r, A.ranks[a.dpRank]? = some r → r.epoch ≠ "")
    (hpos : ∀ r, A.ranks[a.dpRank]? = some r → cursor.epoch = r.epoch →
      expected cursor.after ≤ r.ring.log.length)
    (hd : fetched (A.kvIndexDelta (fetchQuery a cursor limit) fresh).2 = .ok d) :
    ∃ r r', A.ranks[a.dpRank]? = some r ∧ r.available = true ∧
      (A.kvIndexDelta (fetchQuery a cursor limit) fresh).1 =
        A.setRank a.dpRank r' ∧
      Answer cursor limit fresh r r' d ∧
      d.eventSourceId = A.modelGroupId ++ ":dp:" ++ toString a.dpRank ∧
      d.modelGroupId = A.modelGroupId ∧ d.dpRank = a.dpRank := by
  rw [kvIndexDelta, fetchQuery] at hd ⊢
  cases hfilt : A.ranks[a.dpRank]?.filter (·.available) with
  | none =>
    rw [delta_unavailable hfilt] at hd
    cases hd
  | some r =>
    obtain ⟨hrank, havail⟩ := filter_eq_some_iff.mp hfilt
    have hname := hnamed r hrank
    by_cases hsame : cursor.epoch = r.epoch ∧ ¬ r.leavesBehind cursor.after = true
    · obtain ⟨hepoch, hbeh⟩ := hsame
      rw [if_neg (hepoch ▸ hname), hepoch,
        delta_same hrank havail hbeh (hpos r hrank hepoch)] at hd ⊢
      obtain rfl := Except.ok.inj hd
      refine ⟨r, r, hrank, havail, rfl, ⟨rfl, rfl, .inl rfl, fun _ => ⟨rfl, rfl, rfl⟩, ?_⟩,
        rfl, rfl, rfl⟩
      exact fun hother => absurd hepoch hother
    · set epoch := if cursor.epoch = "" then none else some cursor.epoch with hquery
      have hcatch := r.catchUp_eq epoch cursor.after fresh
      -- the rank has another epoch, or it gets one because the reader is behind
      have hne : cursor.epoch ≠ (r.catchUp epoch cursor.after fresh).epoch := by
        rw [RankState.catchUp]
        split_ifs with hrebase
        · rw [RankState.epoch_rebaseReplay]
          exact hfresh.2
        · intro hepoch
          refine hsame ⟨hepoch, fun hbeh => hrebase ⟨?_, hbeh⟩⟩
          rw [hquery, if_neg (hepoch ▸ hname), hepoch]
      have hother : epoch ≠ some (r.catchUp epoch cursor.after fresh).epoch := by
        intro heq
        have hsome : (if cursor.epoch = "" then none else some cursor.epoch) =
            some (r.catchUp epoch cursor.after fresh).epoch := hquery.symm.trans heq
        split_ifs at hsome
        exact hne (some.inj hsome)
      rw [delta_other hrank havail hother] at hd ⊢
      obtain rfl := Except.ok.inj hd
      exact ⟨r, _, hrank, havail, rfl, ⟨rfl, rfl, hcatch, fun h => absurd h hne,
        fun _ => ⟨rfl, rfl⟩⟩, rfl, rfl, rfl⟩

end Answer

/-! ### What happens to the ranks -/

namespace System

lemma atServer_indexer {s : System} {endpoint : String} (f : KvEventAdapter → KvEventAdapter) :
    (s.atServer endpoint f).indexer = s.indexer := by
  rw [atServer]
  split
  · rfl
  · rfl

lemma atServer_inFlight {s : System} {endpoint : String} (f : KvEventAdapter → KvEventAdapter) :
    (s.atServer endpoint f).inFlight = s.inFlight := by
  rw [atServer]
  split
  · rfl
  · rfl

/-- Every stream continues, or an epoch has begun whose name is new. -/
structure Evolves (uuids : Uuids) (s s' : System) : Prop where
  drawn : s.drawn ≤ s'.drawn
  rank : ∀ endpoint i r', s'.rank endpoint i = some r' →
    (∃ r, s.rank endpoint i = some r ∧ r.Continues r') ∨
      ∃ k, s.drawn ≤ k ∧ k < s'.drawn ∧ r'.epoch = uuids.newV4 k

variable {uuids : Uuids} {s s' : System} {endpoint : String}

lemma evolves_of_servers (hserv : s'.servers = s.servers) (hdrawn : s'.drawn = s.drawn) :
    s.Evolves uuids s' where
  drawn := hdrawn.ge
  rank endpoint i r' h := by
    rw [System.rank, hserv] at h
    exact .inl ⟨r', h, RankState.Continues.refl r'⟩

/-- One server does something for which it may draw one name. -/
lemma evolves_of_server {A A' : KvEventAdapter}
    (hadapter : s.servers.lookup endpoint = some A)
    (hranks : ∀ (i : ℕ) r', A'.ranks[i]? = some r' → ∃ r, A.ranks[i]? = some r ∧
      KvEventAdapter.Evolves (uuids.newV4 s.drawn) r r')
    (hserv : s'.servers = s.servers.insert endpoint A')
    (hdrawn : s'.drawn = s.drawn + 1) : s.Evolves uuids s' where
  drawn := by rw [hdrawn]; exact Nat.le_succ _
  rank e i r' h := by
    rw [System.rank, hserv, Table.lookup_insert_eq] at h
    split_ifs at h with he
    · obtain ⟨r, hr, hevol⟩ := hranks i r' h
      rcases hevol with hcont | hepoch
      · refine .inl ⟨r, ?_, hcont⟩
        rwa [System.rank, he, hadapter]
      · exact .inr ⟨s.drawn, Nat.le_refl _, by omega, hepoch⟩
    · exact .inl ⟨r', h, RankState.Continues.refl r'⟩

lemma evolves_atServer {f : KvEventAdapter → KvEventAdapter}
    (hf : ∀ (A : KvEventAdapter) (i : ℕ) r', (f A).ranks[i]? = some r' →
      ∃ r, A.ranks[i]? = some r ∧ KvEventAdapter.Evolves (uuids.newV4 s.drawn) r r') :
    s.Evolves uuids (s.atServer endpoint f) := by
  rw [atServer]
  cases hadapter : s.servers.lookup endpoint with
  | none => exact evolves_of_servers rfl rfl
  | some A => exact evolves_of_server hadapter (hf A) rfl rfl

lemma evolves_fetch (a : KvEventSourceConfig) (limit : ℕ) :
    s.Evolves uuids (s.fetch uuids a limit) := by
  rw [fetch]
  cases hadapter : s.servers.lookup a.endpoint with
  | none => exact evolves_of_servers rfl rfl
  | some => exact evolves_of_server hadapter (fun _ _ h => KvEventAdapter.rank_delta h) rfl rfl

lemma evolves_start (endpoint : String) (key : KeyedDigest)
    (scopeId modelGroupId modelRevision : String) (dataParallelSize : ℕ) :
    s.Evolves uuids (s.step uuids
      (.start endpoint key scopeId modelGroupId modelRevision dataParallelSize)).1 where
  drawn := Nat.le_add_right _ _
  rank e i r' h := by
    rw [System.rank, step, Table.lookup_insert_eq] at h
    split_ifs at h
    · rw [bind_some, new, getElem?_map] at h
      obtain ⟨j, hj, rfl⟩ := map_eq_some_iff.mp h
      have hlt := mem_range.mp (mem_of_getElem? hj)
      exact .inr ⟨s.drawn + j, Nat.le_add_right _ _, Nat.add_lt_add_left hlt _, rfl⟩
    · exact .inl ⟨r', h, RankState.Continues.refl r'⟩

lemma settle_servers (a : KvEventSourceConfig) (dv : Delivery) (now : ℕ → ℕ) :
    (s.settle a dv now).1.servers = s.servers ∧
      (s.settle a dv now).1.drawn = s.drawn := by
  rw [settle]
  split
  all_goals exact ⟨rfl, rfl⟩

/-- **What a command does to the ranks.** -/
lemma evolves_step (s : System) (c : Command) : s.Evolves uuids (s.step uuids c).1 := by
  cases c with
  | start endpoint key scopeId modelGroupId modelRevision dataParallelSize =>
    exact evolves_start endpoint key scopeId modelGroupId modelRevision dataParallelSize
  | loadCacheGroups =>
    exact evolves_atServer fun _ _ r' h => ⟨r', h, .inl (RankState.Continues.refl r')⟩
  | ingest => exact evolves_atServer fun _ _ _ h => KvEventAdapter.rank_perform h
  | poll => exact evolves_atServer fun _ _ _ h => rank_delta h
  | fetch a limit =>
    rw [step]
    split_ifs
    · exact evolves_fetch a limit
    · exact evolves_of_servers rfl rfl
  | settle a dv now =>
    rw [step]
    split_ifs
    · exact evolves_of_servers (settle_servers a dv now).1
        (settle_servers a dv now).2
    · exact evolves_of_servers rfl rfl
  | query => exact evolves_of_servers rfl rfl

lemma Evolves.trans {s'' : System} (h : s.Evolves uuids s')
    (h' : s'.Evolves uuids s'') : s.Evolves uuids s'' where
  drawn := h.drawn.trans h'.drawn
  rank endpoint i r'' hr'' := by
    rcases h'.rank endpoint i r'' hr'' with ⟨r', hr', hcont'⟩ | ⟨k, hk, hlt, hname⟩
    · rcases h.rank endpoint i r' hr' with ⟨r, hr, hcont⟩ | ⟨k, hk, hlt, hname⟩
      · exact .inl ⟨r, hr, hcont.trans hcont'⟩
      · exact .inr ⟨k, hk, hlt.trans_le h'.drawn, hcont'.1.trans hname⟩
    · exact .inr ⟨k, h.drawn.trans hk, hlt, hname⟩

end System

/-- **Published streams are append-only.** Whatever the servers and their readers do, every
stream continues, or its epoch has a name drawn meanwhile. -/
theorem streams_append_only (uuids : Uuids) (indexer : KvIndexer) (s : System)
    (cs : List Command) : s.Evolves uuids ((replication uuids indexer).run s cs) := by
  induction cs using reverseRecOn with
  | nil => exact System.evolves_of_servers rfl rfl
  | append_singleton cs c ih =>
    rw [Machine.run_concat]
    exact ih.trans (System.evolves_step _ c)

end Foretoken.KvLocality
