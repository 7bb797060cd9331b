import Foretoken.KvLocality.Replication

/-!
Replication is faithful.

The facts of a source are those of its stream up to the position of its cursor, and exist under the
epoch of the cursor only. Model servers only add to their streams or begin epochs under new names;
an accepted answer carries the invariant on, and a rejected one leaves nothing of its source.
-/

namespace Foretoken.KvLocality

open List Option KvLocalityIndexes State Machine Facts FactsStep Table

open RingLog

namespace System

variable {uuids : Uuids} {s s' : System}

/-! ### The invariant -/

/-- What a command does to the facts of a source that are kept: a lookup lets them expire, and
an answer that the frontend accepts applies its deltas. -/
def changes (s : System) (source : KvEventSourceConfig) : Command → List FactsStep
  | .query _ _ now => [.expire now]
  | .settle polled delivery now =>
    if polled = source then
      match (s.inFlight.lookup source.eventSourceId).bind (s.delivered source · delivery) with
      | some (.ok d) =>
        if (s.indexer.settle source (.ok d) now).2.isNone then ofDeltas now 0 d.deltas else []
      | _ => []
    else []
  | _ => []

/-- What a run does to the facts of a source, in the order of its commands. -/
def history (uuids : Uuids) (source : KvEventSourceConfig) :
    System → List Command → List FactsStep
  | _, [] => []
  | s, c :: cs => s.changes source c ++ history uuids source (s.step uuids c).1 cs

/-- The facts under a cursor are those of the stream up to its position. -/
def Follows (history : List FactsStep) (s : System) (source : KvEventSourceConfig)
    (cursor : Cursor) : Prop :=
  ∀ r, s.producer source = some r → cursor.epoch = r.epoch →
    expected cursor.after ≤ r.ring.log.length ∧
      Replays history s.indexer.state.index.implementation s.indexer.state.index.ttl
        (r.ring.log.take (expected cursor.after)) (s.facts (source.identity cursor.epoch))

/-- The deltas of an answer are those of the stream. -/
def Genuine (s : System) (source : KvEventSourceConfig) (d : KvDeltaResponse) : Prop :=
  ∀ r, s.producer source = some r → d.epoch = r.epoch →
    ∀ x ∈ d.deltas, r.ring.log[x.sequence]? = some x.event

/-- An answer on its way is not older than the cursor: if the cursor is of the current epoch
then so is the answer. -/
def Recent (s : System) (source : KvEventSourceConfig) (d : KvDeltaResponse) : Prop :=
  ∀ r, s.producer source = some r → (s.indexer.state.cursor source).epoch = r.epoch →
    d.epoch = r.epoch

/-- **The invariant of replication**, for the history of each source. -/
structure Consistent (uuids : Uuids) (past : KvEventSourceConfig → List FactsStep)
    (s : System) : Prop where
  distinct : (s.indexer.config.eventSources.map (·.eventSourceId)).Nodup
  coherent : s.indexer.state.index.Coherent
  ranks : ∀ endpoint i r, s.rank endpoint i = some r → uuids.Drawn s.drawn r.epoch
  confined : ∀ source ∈ s.indexer.config.eventSources, Confined source s.indexer.state
  cursors : ∀ source ∈ s.indexer.config.eventSources, ∀ cursor, s.cursor source = some cursor →
    uuids.Drawn s.drawn cursor.epoch ∧ s.Follows (past source) source cursor
  answers : ∀ source ∈ s.indexer.config.eventSources, ∀ d,
    s.inFlight.lookup source.eventSourceId = some (.ok d) →
      uuids.Drawn s.drawn d.epoch ∧ s.Genuine source d ∧
        InSequence (s.indexer.state.cursor source) d ∧ s.Recent source d

variable {past past' : KvEventSourceConfig → List FactsStep} {source : KvEventSourceConfig}
  {cursor : Cursor} {d : KvDeltaResponse}

lemma Follows.of_evolves (h : s.Follows (past source) source cursor)
    (hdrawn : uuids.Drawn s.drawn cursor.epoch) (hevol : s.Evolves uuids s')
    (hstate : s'.indexer.state = s.indexer.state) : s'.Follows (past source) source cursor := by
  intro r' hr' hepoch
  rcases hevol.rank _ _ r' hr' with ⟨r, hr, hsame, hlog⟩ | ⟨k, hk, -, hnew⟩
  · obtain ⟨hle, hrepl⟩ := h r hr (hepoch.trans hsame)
    refine ⟨hle.trans hlog.length_le, ?_⟩
    obtain ⟨more, hmore⟩ := hlog
    rwa [facts, hstate, ← hmore, take_append_of_le_length hle]
  · exact absurd (hepoch.trans hnew) (hdrawn.ne_newV4 hk)

lemma Genuine.of_evolves (h : s.Genuine source d) (hdrawn : uuids.Drawn s.drawn d.epoch)
    (hevol : s.Evolves uuids s') : s'.Genuine source d := by
  intro r' hr' hepoch x hx
  rcases hevol.rank _ _ r' hr' with ⟨r, hr, hsame, hlog⟩ | ⟨k, hk, -, hnew⟩
  · have hentry := h r hr (hepoch.trans hsame) x hx
    obtain ⟨more, hmore⟩ := hlog
    rwa [← hmore, List.getElem?_append_left (List.getElem?_eq_some_iff.mp hentry).1]
  · exact absurd (hepoch.trans hnew) (hdrawn.ne_newV4 hk)

lemma cursor_of_none (h : s.cursor source = none) : s.indexer.state.cursor source = default := by
  rw [State.cursor, show s.indexer.state.cursors.lookup source.eventSourceId = none from h]
  rfl

lemma cursor_of_some (h : s.cursor source = some cursor) :
    s.indexer.state.cursor source = cursor := by
  rw [State.cursor, show s.indexer.state.cursors.lookup source.eventSourceId = some cursor from h]
  rfl

section

variable (h : Consistent uuids past s)
include h

/-- The epoch of a cursor is not drawn again. -/
lemma Consistent.epoch_ne (hsrc : source ∈ s.indexer.config.eventSources) {k : ℕ}
    (hk : s.drawn ≤ k) :
    (s.indexer.state.cursor source).epoch ≠ uuids.newV4 k := by
  cases hcur : s.cursor source with
  | none =>
    rw [cursor_of_none hcur]
    exact (uuids.ne_empty _).symm
  | some c =>
    rw [cursor_of_some hcur]
    exact (h.cursors source hsrc c hcur).1.ne_newV4 hk

/-- The model servers go on while the frontend does nothing. -/
lemma Consistent.of_evolves (hevol : s.Evolves uuids s') (hidx : s'.indexer = s.indexer)
    (hinFlight : s'.inFlight = s.inFlight) :
    Consistent uuids past s' where
  distinct := by rw [hidx]; exact h.distinct
  coherent := by rw [hidx]; exact h.coherent
  ranks e i r' hr' := by
    rcases hevol.rank e i r' hr' with ⟨r, hr, hsame, -⟩ | ⟨k, -, hk, hnew⟩
    · rw [hsame]
      exact (h.ranks e i r hr).mono hevol.drawn
    · exact ⟨k, hk, hnew⟩
  confined source hsrc := by
    rw [hidx] at hsrc ⊢
    exact h.confined source hsrc
  cursors source hsrc cursor hcur := by
    rw [System.cursor, hidx] at hcur
    rw [hidx] at hsrc
    obtain ⟨hdrawn, hfol⟩ := h.cursors source hsrc cursor hcur
    exact ⟨hdrawn.mono hevol.drawn, hfol.of_evolves hdrawn hevol (congrArg KvIndexer.state hidx)⟩
  answers source hsrc d hd := by
    rw [hinFlight] at hd
    rw [hidx] at hsrc ⊢
    obtain ⟨hdrawn, hgen, hseq, hrecent⟩ := h.answers source hsrc d hd
    refine ⟨hdrawn.mono hevol.drawn, hgen.of_evolves hdrawn hevol, hseq, ?_⟩
    intro r' hr' hepoch
    rw [hidx] at hepoch
    rcases hevol.rank _ _ r' hr' with ⟨r, hr, hsame, -⟩ | ⟨k, hk, -, hnew⟩
    · exact (hrecent r hr (hepoch.trans hsame)).trans hsame.symm
    · exact absurd (hepoch.trans hnew) (h.epoch_ne hsrc hk)

section

variable (hsrc : source ∈ s.indexer.config.eventSources)
include hsrc

/-- The position of a cursor lies within the stream of its epoch. -/
lemma Consistent.position {r : RankState} (hr : s.producer source = some r)
    (hepoch : (s.indexer.state.cursor source).epoch = r.epoch) :
    expected (s.indexer.state.cursor source).after ≤ r.ring.log.length := by
  cases hcur : s.cursor source with
  | none =>
    rw [cursor_of_none hcur] at hepoch
    exact absurd hepoch.symm (h.ranks _ _ r hr).ne_empty
  | some c =>
    rw [cursor_of_some hcur] at hepoch ⊢
    exact ((h.cursors source hsrc c hcur).2 r hr hepoch).1

lemma Consistent.source_eq {source' : KvEventSourceConfig}
    (hsrc' : source' ∈ s.indexer.config.eventSources)
    (hid : source'.eventSourceId = source.eventSourceId) : source' = source :=
  inj_on_of_nodup_map h.distinct hsrc' hsrc hid

lemma Consistent.answer {A : KvEventAdapter} (hadapter : s.servers.lookup source.endpoint = some A)
    {l : ℕ}
    (hd : fetched (A.kvIndexDelta (fetchQuery source (s.indexer.state.cursor source) l)
      (uuids.newV4 s.drawn)).2 = .ok d) :
    ∃ r r', s.producer source = some r ∧ r.available = true ∧
      (A.kvIndexDelta (fetchQuery source (s.indexer.state.cursor source) l)
        (uuids.newV4 s.drawn)).1 = A.setRank source.dpRank r' ∧
      Answer (s.indexer.state.cursor source) l (uuids.newV4 s.drawn) r r' d ∧
      d.eventSourceId = A.modelGroupId ++ ":dp:" ++ toString source.dpRank ∧
      d.modelGroupId = A.modelGroupId ∧ d.dpRank = source.dpRank := by
  have hprod : s.producer source = A.ranks[source.dpRank]? := by
    rw [producer, System.rank, hadapter]
    rfl
  rw [hprod]
  refine answer_of_fetched ⟨uuids.ne_empty _, h.epoch_ne hsrc le_rfl⟩ (fun r hr => ?_)
    (fun r hr hepoch => ?_) hd
  · exact (h.ranks source.endpoint source.dpRank r (hprod.trans hr)).ne_empty
  · exact h.position hsrc (hprod.trans hr) hepoch

end

end

/-- The rank that a source is polled from, after the poll. -/
lemma producer_of_setRank {A : KvEventAdapter} {r r' : RankState}
    (hadapter : s.servers.lookup source.endpoint = some A) (hr : s.producer source = some r)
    (hserv : s'.servers = s.servers.insert source.endpoint (A.setRank source.dpRank r')) :
    s'.producer source = some r' := by
  rw [producer, System.rank, hadapter] at hr
  have hindex := (List.getElem?_eq_some_iff.mp hr).1
  rw [producer, System.rank, hserv, lookup_insert_eq, if_pos rfl, bind_some,
    KvEventAdapter.setRank, getElem?_set_self hindex]

section

variable (h : Consistent uuids past s)
include h

lemma Consistent.send (hsrc : source ∈ s.indexer.config.eventSources)
    {r : Except KvIndexDegradedReason KvDeltaResponse}
    (hres : ∀ d, r = .ok d → uuids.Drawn s.drawn d.epoch ∧ s.Genuine source d ∧
      InSequence (s.indexer.state.cursor source) d ∧ s.Recent source d) :
    Consistent uuids past { s with inFlight := s.inFlight.insert source.eventSourceId r } where
  distinct := h.distinct
  coherent := h.coherent
  ranks := h.ranks
  confined := h.confined
  cursors := h.cursors
  answers source' hsrc' d hd := by
    rw [lookup_insert_eq] at hd
    split_ifs at hd with hid
    · obtain rfl := h.source_eq hsrc hsrc' hid
      exact hres d (some.inj hd)
    · exact h.answers source' hsrc' d hd

lemma Consistent.fetch (hsrc : source ∈ s.indexer.config.eventSources) (l : ℕ) :
    Consistent uuids past (s.fetch uuids source l) := by
  rw [System.fetch]
  cases hadapter : s.servers.lookup source.endpoint with
  | none => exact h.send hsrc fun _ hd => by cases hd
  | some A =>
    -- first the server answers, then the answer goes on its way
    let served : System :=
      { s with
        servers := s.servers.insert source.endpoint (A.kvIndexDelta
          (fetchQuery source (s.indexer.state.cursor source) l) (uuids.newV4 s.drawn)).1
        drawn := s.drawn + 1 }
    have hserved : Consistent uuids past served :=
      h.of_evolves (evolves_of_server hadapter (fun _ _ hr => KvEventAdapter.rank_delta hr)
        rfl rfl) rfl rfl
    refine hserved.send hsrc fun d hd => ?_
    obtain ⟨r, r', hr, -, hafter, hans, -⟩ := h.answer hsrc hadapter hd
    have hr' : served.producer source = some r' :=
      producer_of_setRank hadapter hr (congrArg (s.servers.insert source.endpoint) hafter)
    refine ⟨?_, ?_, hans.inSequence (h.position hsrc hr), ?_⟩
    · rw [hans.epoch]
      exact hserved.ranks source.endpoint source.dpRank r' hr'
    · intro r'' hr'' _
      obtain rfl := some.inj (hr'.symm.trans hr'')
      exact hans.genuine
    · intro r'' hr'' _
      obtain rfl := some.inj (hr'.symm.trans hr'')
      exact hans.epoch

lemma Consistent.of_frame (hsrc : source ∈ s.indexer.config.eventSources) {indexer : KvIndexer}
    (hconf : indexer.config = s.indexer.config)
    (hframe : Frame source s.indexer.state indexer.state)
    (hconfined : Confined source indexer.state)
    (hcur : ∀ cursor, indexer.state.cursors.lookup source.eventSourceId = some cursor →
      uuids.Drawn s.drawn cursor.epoch ∧
        Follows (past' source) { s with indexer := indexer } source cursor)
    (hpast : ∀ other, other ≠ source → past' other = past other) :
    Consistent uuids past'
      { s with indexer := indexer, inFlight := s.inFlight.erase source.eventSourceId } where
  distinct := by
    rw [hconf]
    exact h.distinct
  coherent := hframe.coherent h.coherent
  ranks := h.ranks
  confined source' hsrc' := by
    rw [hconf] at hsrc'
    by_cases hid : source'.eventSourceId = source.eventSourceId
    · obtain rfl := h.source_eq hsrc hsrc' hid
      exact hconfined
    · intro x hx hfacts
      have hx' : x.eventSourceId ≠ source.eventSourceId := hx ▸ hid
      rw [hframe.facts x hx', hframe.implementation] at hfacts
      obtain ⟨c, hc, hxc⟩ := h.confined source' hsrc' x hx hfacts
      exact ⟨c, by rw [hframe.cursors _ hid]; exact hc, hxc⟩
  cursors source' hsrc' c hc := by
    rw [hconf] at hsrc'
    by_cases hid : source'.eventSourceId = source.eventSourceId
    · obtain rfl := h.source_eq hsrc hsrc' hid
      exact hcur c hc
    · rw [System.cursor, hframe.cursors _ hid] at hc
      obtain ⟨hdrawn, hfol⟩ := h.cursors source' hsrc' c hc
      refine ⟨hdrawn, fun r hr hepoch => ?_⟩
      obtain ⟨hle, hrepl⟩ := hfol r hr hepoch
      refine ⟨hle, ?_⟩
      rw [System.facts, hframe.facts _ hid, hframe.implementation, hframe.ttl,
        hpast source' fun heq => hid (congrArg _ heq)]
      exact hrepl
  answers source' hsrc' d hd := by
    rw [hconf] at hsrc'
    rw [lookup_erase_eq] at hd
    split_ifs at hd with hid
    obtain ⟨hdrawn, hgen, hseq, hrecent⟩ := h.answers source' hsrc' d hd
    have hcur' : indexer.state.cursor source' = s.indexer.state.cursor source' := by
      rw [State.cursor, State.cursor, hframe.cursors _ hid]
    refine ⟨hdrawn, hgen, ?_, fun r hr hepoch => hrecent r hr ?_⟩
    · rwa [hcur']
    · rwa [← hcur']

/-- An answer is applied to the facts of the stream before it. -/
lemma Consistent.base_replays (hsrc : source ∈ s.indexer.config.eventSources)
    (hdrawn : uuids.Drawn s.drawn d.epoch) {r : RankState} (hr : s.producer source = some r)
    (hepoch : d.epoch = r.epoch) :
    expected ((s.indexer.state.cursor source).position d.epoch) ≤ r.ring.log.length ∧
      Replays (past source) s.indexer.state.index.implementation s.indexer.state.index.ttl
        (r.ring.log.take (expected ((s.indexer.state.cursor source).position d.epoch)))
        ((s.indexer.state.base source d).index.facts (source.identity d.epoch)) := by
  have hnamed : ∀ c, s.indexer.state.cursors.lookup source.eventSourceId = some c → c.epoch ≠ "" :=
    fun c hc => (h.cursors source hsrc c hc).1.ne_empty
  rw [base_facts (h.confined source hsrc) hnamed hdrawn.ne_empty rfl, Cursor.position]
  split_ifs with hsame
  · cases hcur : s.cursor source with
    | none =>
      rw [cursor_of_none hcur] at hsame
      exact absurd hsame.symm hdrawn.ne_empty
    | some c =>
      rw [cursor_of_some hcur] at hsame ⊢
      rw [← hsame]
      exact (h.cursors source hsrc c hcur).2 r hr (hsame.trans hepoch)
  · exact ⟨Nat.zero_le _, replays_nil⟩

/-- **An accepted answer carries the replication on.** -/
lemma Consistent.accepted (hsrc : source ∈ s.indexer.config.eventSources)
    (hdrawn : uuids.Drawn s.drawn d.epoch) (hgen : s.Genuine source d)
    (hseq : InSequence (s.indexer.state.cursor source) d) {now : ℕ → ℕ} {indexer : KvIndexer}
    (hstate : indexer.state = (s.indexer.state.base source d).accept source d
      ((s.indexer.state.cursor source).position d.epoch) now) :
    ∀ cursor, indexer.state.cursors.lookup source.eventSourceId = some cursor →
      uuids.Drawn s.drawn cursor.epoch ∧
        Follows (past source ++ ofDeltas now 0 d.deltas) { s with indexer := indexer }
          source cursor := by
  intro cursor hcur
  rw [hstate, accept, lookup_insert_eq, if_pos rfl] at hcur
  cases hcur
  refine ⟨hdrawn, fun r hr hepoch => ?_⟩
  obtain ⟨hdelt, hthru, -⟩ := hseq
  obtain ⟨hle, hbase⟩ := h.base_replays hsrc hdrawn hr hepoch
  rw [expected_accept hdelt hthru]
  generalize expected ((s.indexer.state.cursor source).position d.epoch) = first at *
  -- the events of the answer are the next ones of the stream
  have hevts : d.deltas.map (·.event) = (r.ring.log.drop first).take d.deltas.length := by
    have hpiece := eq_take_of_entries (hdelt ▸ hgen r hr hepoch)
    rwa [length_map] at hpiece
  have hlen := congrArg length hevts
  rw [length_map, length_take, length_drop] at hlen
  refine ⟨by omega, ?_⟩
  have hrepl := hbase.append (ofDeltas now 0 d.deltas)
  rw [filterMap_ofDeltas, hevts, ← take_add, ← applyDeltas_facts] at hrepl
  rw [facts, hstate, (accept_frame source _ d _ now).implementation,
    (accept_frame source _ d _ now).ttl, (base_frame source _ d).implementation,
    (base_frame source _ d).ttl]
  exact hrepl

end

lemma delivered_accepted {r : Except KvIndexDegradedReason KvDeltaResponse}
    {dv : Delivery} (h : s.delivered source r dv = some (.ok d))
    (hacc : SameIdentity source d ∧ InSequence (s.indexer.state.cursor source) d) :
    r = .ok d := by
  cases dv with
  | intact => exact some.inj h
  | failed => cases h
  | wrong =>
    rw [delivered] at h
    split_ifs at h with hright
    obtain rfl := Except.ok.inj (some.inj h)
    exact absurd hacc hright

section

variable (h : Consistent uuids past s)
include h

/-- Sources that are not concerned stay as they are. -/
lemma Consistent.congr (hpast : ∀ source ∈ s.indexer.config.eventSources,
    past' source = past source) : Consistent uuids past' s where
  distinct := h.distinct
  coherent := h.coherent
  ranks := h.ranks
  confined := h.confined
  cursors source hsrc c hc := by
    rw [hpast source hsrc]
    exact h.cursors source hsrc c hc
  answers := h.answers

lemma Consistent.settle (hsrc : source ∈ s.indexer.config.eventSources) (dv : Delivery)
    (now : ℕ → ℕ) :
    Consistent uuids (fun other => past other ++ s.changes other (.settle source dv now))
      (s.settle source dv now).1 := by
  have hother : ∀ other, other ≠ source →
      past other ++ s.changes other (.settle source dv now) = past other := by
    intro other hne
    rw [changes, if_neg (Ne.symm hne), append_nil]
  have hself : s.changes source (.settle source dv now) =
      match (s.inFlight.lookup source.eventSourceId).bind (s.delivered source · dv) with
      | some (.ok d) =>
        if (s.indexer.settle source (.ok d) now).2.isNone then ofDeltas now 0 d.deltas else []
      | _ => [] := if_pos rfl
  rw [System.settle]
  cases hres : (s.inFlight.lookup source.eventSourceId).bind (s.delivered source · dv) with
  | none =>
    refine h.congr fun other _ => ?_
    by_cases hne : other = source
    · rw [hne, hself, hres, append_nil]
    · exact hother other hne
  | some r =>
    obtain ⟨sent, hsent, hdeliv⟩ := bind_eq_some_iff.mp hres
    have hconfined := h.confined source hsrc
    have hconf := s.indexer.settle_config source r now
    have hframe := KvIndexer.settle_frame hconfined r now
    by_cases hacc : ∃ d, r = .ok d ∧ SameIdentity source d ∧
        InSequence (s.indexer.state.cursor source) d
    · obtain ⟨d, rfl, hiden, hseq⟩ := hacc
      obtain rfl := delivered_accepted hdeliv ⟨hiden, hseq⟩
      obtain ⟨hdrawn, hgen, -⟩ := h.answers source hsrc d hsent
      obtain ⟨hstate, hnone⟩ := KvIndexer.settle_accepted now hiden hseq
      have hnamed : ∀ c, s.indexer.state.cursors.lookup source.eventSourceId = some c →
          c.epoch ≠ "" := fun c hc => (h.cursors source hsrc c hc).1.ne_empty
      refine h.of_frame hsrc hconf hframe ?_ ?_ hother
      · rw [hstate]
        exact accept_confined hconfined hnamed hdrawn.ne_empty _
      · rw [hself, hres]
        simp only [hnone, isNone_none, if_true]
        exact h.accepted hsrc hdrawn hgen hseq hstate
    · obtain ⟨-, -, hforg⟩ := KvIndexer.settle_error now hconfined
        fun d hd hright => hacc ⟨d, hd, hright⟩
      refine h.of_frame hsrc hconf hframe hforg.confined (fun c hc => ?_) hother
      simp [hforg.cursors] at hc

lemma Consistent.query (id : KvEventSourceId) (q : KvPrefixQuery) (now : ℕ) :
    Consistent uuids (fun source => past source ++ [.expire now]) (s.query id q now) where
  distinct := h.distinct
  coherent := h.coherent.query id q _ now
  ranks := h.ranks
  confined source hsrc x hx hfacts := by
    refine h.confined source hsrc x hx fun hempty => hfacts ?_
    rw [System.query, facts_query id x h.coherent, hempty, prune_empty,
      implementation_query]
  cursors source hsrc c hc := by
    obtain ⟨hdrawn, hfol⟩ := h.cursors source hsrc c hc
    refine ⟨hdrawn, fun r hr hepoch => ?_⟩
    obtain ⟨hle, hrepl⟩ := hfol r hr hepoch
    refine ⟨hle, ?_⟩
    rw [facts, System.query, facts_query id _ h.coherent,
      implementation_query, ttl_query]
    have hexpired := hrepl.append [.expire now]
    rwa [show filterMap FactsStep.event? [.expire now] = [] from rfl, append_nil] at hexpired
  answers := h.answers

/-- **Every command keeps the invariant** and continues the histories. -/
lemma Consistent.step (c : Command) :
    Consistent uuids (fun source => past source ++ s.changes source c) (s.step uuids c).1 := by
  have hevol : s.Evolves uuids (s.step uuids c).1 := evolves_step s c
  cases c with
  | start =>
    refine (h.of_evolves hevol rfl rfl).congr fun source _ => append_nil _
  | loadCacheGroups | ingest | poll =>
    exact (h.of_evolves hevol (atServer_indexer _) (atServer_inFlight _)).congr
      fun source _ => append_nil _
  | fetch source limit =>
    rw [System.step]
    split_ifs with hsrc
    · exact (h.fetch hsrc.1 limit).congr fun source _ => append_nil _
    · exact h.congr fun source _ => append_nil _
  | settle source delivery now =>
    rw [System.step]
    split_ifs with hsrc
    · exact h.settle hsrc delivery now
    · refine h.congr fun other hother => ?_
      have hne : source ≠ other := fun heq => hsrc (heq ▸ hother)
      rw [changes, if_neg hne, append_nil]
  | query id query now => exact h.query id query now

end

end System

/-! ### Every run -/

lemma KvRuntimeConfig.nodup_of_duplicateId {seen : List String}
    {sources : List KvEventSourceConfig} (h : duplicateId seen sources = none) :
    (sources.map (·.eventSourceId)).Nodup ∧ ∀ source ∈ sources, source.eventSourceId ∉ seen := by
  induction sources generalizing seen with
  | nil => exact ⟨nodup_nil, nofun⟩
  | cons source sources ih =>
    rw [duplicateId] at h
    split_ifs at h with hseen
    obtain ⟨hnodup, hfresh⟩ := ih h
    refine ⟨nodup_cons.mpr ⟨?_, hnodup⟩, ?_⟩
    · intro hmem
      obtain ⟨y, hother, hid⟩ := mem_map.mp hmem
      exact hfresh y hother (hid ▸ mem_cons_self)
    · intro y hother
      rcases mem_cons.mp hother with rfl | hother
      · exact hseen
      · exact fun hmem => hfresh y hother (mem_cons_of_mem _ hmem)

section Run

variable {uuids : Uuids} {config : KvRuntimeConfig} {key : KeyedDigest} {indexer : KvIndexer}

lemma KvIndexer.new_spec (h : KvIndexer.new config key = .ok indexer) :
    (config.eventSources.map (·.eventSourceId)).Nodup ∧ indexer.config = config ∧
      ∃ im ttl, indexer.state = ⟨key, .new im ttl, ∅⟩ := by
  rw [KvIndexer.new] at h
  split at h
  · cases h
  · cases h
  · next hdup _ =>
    obtain rfl := Except.ok.inj h
    exact ⟨(KvRuntimeConfig.nodup_of_duplicateId hdup).1, rfl, _, _, rfl⟩

lemma consistent_init (h : KvIndexer.new config key = .ok indexer)
    (past : KvEventSourceConfig → List FactsStep) :
    System.Consistent uuids past (replication uuids indexer).init := by
  obtain ⟨hnodup, hconf, implementation, ttl, hstate⟩ := KvIndexer.new_spec h
  have hcursors : ∀ id, indexer.state.cursors.lookup id = none := by
    intro id
    rw [hstate, AList.lookup_empty]
  refine ⟨by rw [replication, hconf]; exact hnodup, ?_, ?_, ?_, ?_, ?_⟩
  · rw [replication, hstate]
    exact coherent_new implementation ttl
  · intro e i r hr
    cases hr
  · intro source _ x _ hfacts
    refine absurd ?_ hfacts
    rw [replication, hstate, facts_new, implementation_new]
  · intro source _ c hc
    simp [System.cursor, replication, hcursors] at hc
  · intro source _ d hd
    cases hd

lemma System.config_step (s : System) (c : Command) :
    (s.step uuids c).1.indexer.config = s.indexer.config := by
  cases c with
  | start | query => rfl
  | loadCacheGroups | ingest | poll => exact congrArg KvIndexer.config (atServer_indexer _)
  | fetch =>
    rw [System.step]
    split_ifs
    · rw [System.fetch]
      split
      · rfl
      · rfl
    · rfl
  | settle source delivery now =>
    rw [System.step]
    split_ifs
    · rw [System.settle]
      split
      · rfl
      · exact KvIndexer.settle_config _ source _ now
    · rfl

lemma config_run (cs : List Command) :
    ((replication uuids indexer).after cs).indexer.config = indexer.config := by
  refine run_stable (I := fun s : System => s.indexer.config = indexer.config)
    reachable_init (fun s c _ hs => ?_) rfl cs
  exact (System.config_step s c).trans hs

lemma System.history_concat (source : KvEventSourceConfig) (s : System) (cs : List Command)
    (c : Command) :
    System.history uuids source s (cs ++ [c]) = System.history uuids source s cs ++
      ((replication uuids indexer).run s cs).changes source c := by
  induction cs generalizing s with
  | nil => exact append_nil _
  | cons c' cs ih => rw [cons_append, history, ih, history, append_assoc]; rfl

/-- **The invariant holds in every run**, for its history. -/
theorem consistent_run (h : KvIndexer.new config key = .ok indexer) (cs : List Command) :
    System.Consistent uuids
      (fun source => System.history uuids source (replication uuids indexer).init cs)
      ((replication uuids indexer).after cs) := by
  induction cs using reverseRecOn with
  | nil => exact consistent_init h _
  | append_singleton cs c ih =>
    simp only [@System.history_concat _ indexer, after_concat]
    exact ih.step c

lemma forgotten_of_reply {past : KvEventSourceConfig → List FactsStep} {s : System}
    (h : System.Consistent uuids past s)
    {source : KvEventSourceConfig} {dv : Delivery} {now : ℕ → ℕ}
    {reason : KvIndexDegradedReason}
    (hreply : (s.step uuids (.settle source dv now)).2 = some reason) :
    Frame source s.indexer.state
        (s.step uuids (.settle source dv now)).1.indexer.state ∧
      Forgotten source (s.step uuids (.settle source dv now)).1.indexer.state := by
  rw [System.step] at hreply ⊢
  split_ifs at hreply ⊢ with hsrc
  rw [System.settle] at hreply ⊢
  cases hres : (s.inFlight.lookup source.eventSourceId).bind (s.delivered source · dv) with
  | none =>
    simp [hres] at hreply
  | some =>
    rw [hres] at hreply
    refine (KvIndexer.settle_error now (h.confined source hsrc) fun d hd hright => ?_).2
    obtain rfl := hd
    simp [(KvIndexer.settle_accepted now hright.1 hright.2).2] at hreply

end Run

/-- **Replication is faithful.** In every run of model servers and a frontend, for every
source of the frontend:

* under a cursor of the producer's current epoch, the facts of the source are those of the
  stream of this epoch up to the position of the cursor: the last changes of its history
  apply these events, each once and in order, at the times of the answers that brought them,
  and nothing else happens to the facts in between but the renewals by the answers and the
  expiries by the lookups of the run, each at its place in the run,
* the source has facts under the epoch of its cursor only,
* an error leaves no cursor and no facts of the source, and those of the other sources as
  they were. -/
theorem delta_sync_faithful (uuids : Uuids) {config : KvRuntimeConfig} {key : KeyedDigest}
    {indexer : KvIndexer} (hnew : KvIndexer.new config key = .ok indexer) (cs : List Command)
    {source : KvEventSourceConfig} (hsource : source ∈ config.eventSources) :
    let M := replication uuids indexer
    let s := M.after cs
    let implementation := s.indexer.state.index.implementation
    (∀ cursor rank, s.cursor source = some cursor → s.producer source = some rank →
      cursor.epoch = rank.epoch →
      expected cursor.after ≤ rank.ring.log.length ∧
      Replays (System.history uuids source M.init cs) implementation s.indexer.state.index.ttl
        (rank.ring.log.take (expected cursor.after)) (s.facts (source.identity cursor.epoch))) ∧
    (∀ x : KvEventSourceId, x.eventSourceId = source.eventSourceId →
      s.facts x ≠ empty implementation →
      ∃ cursor, s.cursor source = some cursor ∧ x = source.identity cursor.epoch) ∧
    ∀ delivery now reason, M.reply s (.settle source delivery now) = some reason →
      let s' := M.next s (.settle source delivery now)
      s'.cursor source = none ∧
      (∀ x : KvEventSourceId, x.eventSourceId = source.eventSourceId →
        s'.facts x = empty implementation) ∧
      (∀ other : KvEventSourceConfig, other.eventSourceId ≠ source.eventSourceId →
        s'.cursor other = s.cursor other) ∧
      ∀ x : KvEventSourceId, x.eventSourceId ≠ source.eventSourceId →
        s'.facts x = s.facts x := by
  intro M s implementation
  have hs := @consistent_run uuids _ _ _ hnew cs
  have hsource' : source ∈ s.indexer.config.eventSources := by
    rwa [config_run, (KvIndexer.new_spec hnew).2.1]
  refine ⟨fun cursor rank hcursor hrank hepoch => ?_, hs.confined source hsource', ?_⟩
  · exact (hs.cursors source hsource' cursor hcursor).2 rank hrank hepoch
  · intro delivery now reason hreply s'
    obtain ⟨hframe, hforgotten⟩ := forgotten_of_reply hs hreply
    refine ⟨hforgotten.cursors, fun x hx => ?_, fun other hother => hframe.cursors _ hother,
      hframe.facts⟩
    exact (hforgotten.facts x hx).trans (congrArg empty hframe.implementation)

namespace OneBlock

/-- Names of growing length. -/
def uuids : Uuids where
  newV4 n := String.ofList (List.replicate (n + 1) 'u')
  injective m n h := by
    have hlength := congrArg (fun s : String => s.toList.length) h
    simpa using hlength
  ne_empty n h := by
    have hlength := congrArg (fun s : String => s.toList.length) h
    simp at hlength

/-- A digest that maps everything to zero. -/
def key : KeyedDigest := ⟨fun _ => List.replicate 32 0, fun _ => rfl⟩

/-- The first rank of a group. -/
def source : KvEventSourceConfig := ⟨"g:dp:0", "g", "http://m", 0, "r", "s"⟩

/-- One source and no route. -/
def config : KvRuntimeConfig := ⟨[source], ∅, .radixTree⟩

/-- An indexer that has read nothing. -/
def indexer : KvIndexer where
  config := config
  resolved := .radixTree
  autoResolutionReason := none
  state := ⟨key, .new .radixTree factLifetime, ∅⟩
  health := ⟨.starting, none, (∅ : Table String Bool).insert "g:dp:0" false⟩

/-- The engine stores a block of two tokens. -/
def stored : Value :=
  .map [(.string "type", .string "BlockStored"), (.string "block_hashes", .array [.integer 7]),
    (.string "token_ids", .array [.integer 1, .integer 2]), (.string "block_size", .integer 2)]

/-- The first answer tells the epoch, the second one the block. -/
def commands : List Command :=
  [.start "http://m" key "s" "g" "r" 1, .ingest "http://m" 0 (.event stored), .fetch source 256,
    .settle source .intact id, .fetch source 256, .settle source .intact id]

/-- The state after the commands. -/
def system : System := (replication uuids indexer).after commands

end OneBlock

open OneBlock

theorem delta_sync_faithful_oneBlock :
    ∃ rank, system.producer source = some rank ∧ rank.ring.log.length = 1 ∧
      Replays (System.history uuids source (replication uuids indexer).init commands)
        system.indexer.state.index.implementation
        system.indexer.state.index.ttl (rank.ring.log.take 1)
        (system.facts (source.identity "u")) := by
  have hcursor : system.cursor source = some ⟨"u", some 0, none⟩ := by
    decide +kernel
  have hproducer : (system.producer source).any
      (fun rank => rank.epoch = "u" ∧ rank.ring.log.length = 1) = true := by
    decide +kernel
  obtain ⟨rank, hrank, hlog⟩ := (any_eq_true _ _).mp hproducer
  obtain ⟨hepoch, hlength⟩ := of_decide_eq_true hlog
  have hnew : KvIndexer.new config key = .ok indexer := rfl
  exact ⟨rank, hrank, hlength, ((delta_sync_faithful uuids hnew commands
    (mem_singleton_self _)).1 _ rank hcursor hrank hepoch.symm).2⟩

end Foretoken.KvLocality
