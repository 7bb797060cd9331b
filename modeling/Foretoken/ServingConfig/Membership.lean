import Foretoken.ServingConfig.Versions

/-!
Published membership.

The newest view need not be the primary one, but all publications of a version have the same
members, whatever a partial publication left behind; so the newest view has the members of the last
publication.
-/

namespace Foretoken.ServingConfig

open List Event Snapshot

/-! ### The two memberships -/

/-- The two kinds of instances a snapshot publishes. -/
inductive Side where
  | frontend
  | backend
  deriving DecidableEq, Repr

variable {views : Views} {side : Side} {instanceUid : String} {view : ℕ} {before : List Event}

/-- The instances of a side. -/
def Snapshot.members (snapshot : Snapshot) : Side → List String
  | .frontend => snapshot.frontendInstances
  | .backend => snapshot.backendInstances

/-- The Pods a reconcile has listed for a membership. -/
def Observation.pods (observation : Observation) : Side → List Pod
  | .frontend => observation.frontendPods
  | .backend => observation.backendPods

/-- The reads of a reconcile prove the ownership of a Pod. -/
def Observation.Proven (observation : Observation) (name uid : String) (pod : Pod) : Side → Prop
  | .frontend => FrontendProven observation.reader name uid pod
  | .backend => BackendProven observation.reader pod

/-- A list of Pods shows an instance absent or terminal. -/
def Gone (pods : List Pod) (instanceUid : String) : Prop :=
  ∀ pod ∈ pods, pod.uid = instanceUid → pod.Terminal

lemma members_forProtocol (S : Snapshot) (p : ℕ) (side : Side) :
    (servingSnapshotForProtocol S p).members side = S.members side := by
  rcases servingSnapshotForProtocol_eq p with ⟨-, h⟩ | ⟨-, h⟩ | ⟨-, h⟩ | ⟨-, h⟩ <;>
    rw [h] <;> cases side <;> rfl

lemma members_legacyView (keep : Bool) (p : Option Snapshot) (S : Snapshot)
    (side : Side) : (legacyView keep p S).members side = S.members side := by
  cases keep <;> cases p <;> cases side <;> rfl

lemma Snapshot.SameConfiguration.members {a b : Snapshot} (h : a.SameConfiguration b)
    (side : Side) : a.members side = b.members side := by
  cases side with
  | frontend => exact h.2.1
  | backend => exact h.2.2.1

lemma append_singleton_eq {α : Type*} {l pre post : List α} {x y : α}
    (h : l ++ [x] = pre ++ y :: post) :
    (post = [] ∧ y = x ∧ pre = l) ∨ ∃ rest, post = rest ++ [x] ∧ l = pre ++ y :: rest := by
  rcases eq_nil_or_concat post with rfl | ⟨rest, z, rfl⟩
  · obtain ⟨hpre, hy⟩ := append_inj' h rfl
    exact .inl ⟨rfl, (cons.inj hy).1.symm, hpre.symm⟩
  · have h' : l ++ [x] = (pre ++ y :: rest) ++ [z] := by rw [h]; simp
    obtain ⟨hl, hz⟩ := append_inj' h' rfl
    exact .inr ⟨rest, by rw [(cons.inj hz).1, concat_eq_append], hl⟩

lemma eq_or_later {α : Type*} {l r before after : List α} {x y : α}
    (h : l ++ x :: r = before ++ y :: after) (hafter : x ∉ after) :
    x = y ∨ ∃ rest, r = rest ++ y :: after := by
  rcases append_eq_append_iff.mp h with ⟨mid, -, hmid⟩ | ⟨mid, -, hmid⟩
  · cases mid with
    | nil => exact .inl (cons.inj hmid).1
    | cons z mid => exact .inr ⟨mid, (cons.inj hmid).2⟩
  · cases mid with
    | nil => exact .inl (cons.inj hmid).1.symm
    | cons =>
      refine absurd ?_ hafter
      rw [(cons.inj hmid).2]
      simp

section Runs

variable {naming : Naming} {compilation : Compilation} {name uid : String} {state : State}
  {observation : Observation}

/-- **The members of a candidate.** -/
lemma Candidate.mem_members {status : ℕ}
    (candidate : Candidate naming compilation name uid status views observation) :
    instanceUid ∈ candidate.snapshot.members side ↔
      ∃ pod ∈ observation.pods side, pod.uid = instanceUid ∧ ¬ pod.Terminal ∧
        ((∃ previous, previousSnapshot views
            (protocolVersions observation.servingConfigVersion) = some previous ∧
            instanceUid ∈ previous.members side) ∨
          observation.Proven name uid pod side) := by
  have hprev : ∀ (read : Snapshot → List String) (previous : Option Snapshot) member,
      member ∈ previous.elim [] read ↔
        ∃ snapshot, previous = some snapshot ∧ member ∈ read snapshot := by
    intro read previous member
    cases previous <;> simp
  cases side with
  | frontend =>
    rw [members, candidate.frontendInstances_snapshot, mem_sortByOrd, mem_map]
    refine exists_congr fun pod => ?_
    rw [mem_frontendInstancePods candidate.frontendPods, hprev]
    constructor
    · rintro ⟨⟨hmem, hlive, hkeep⟩, rfl⟩
      exact ⟨hmem, rfl, hlive, hkeep⟩
    · rintro ⟨hmem, rfl, hlive, hkeep⟩
      exact ⟨⟨hmem, hlive, hkeep⟩, rfl⟩
  | backend =>
    rw [members, candidate.backendInstances_snapshot,
      mem_backendInstances candidate.backendPods, hprev]
    rfl

lemma Candidate.members_of_publish {t : ℕ}
    (d : Candidate naming compilation name uid t views observation) {x : Bool}
    {S : Snapshot} (h : Write.publish view x S ∈ d.writes)
    (side : Side) : S.members side = d.snapshot.members side := by
  rcases d.publish_mem h with ⟨-, rfl⟩ | ⟨p, -, -, rfl⟩
  · rfl
  · rw [members_forProtocol, members_legacyView]

/-! ### Where members come from -/

/-- The instance has been published before an observation, or that observation proves it. -/
def Entered (name uid : String) (before : List Event) (observation : Observation) (side : Side)
    (instanceUid : String) : Prop :=
  ∃ pod ∈ observation.pods side, pod.uid = instanceUid ∧ ¬ pod.Terminal ∧
    ((∃ view snapshot, published view snapshot ∈ before ∧
        instanceUid ∈ snapshot.members side) ∨
      observation.Proven name uid pod side)

lemma Entered.not_gone (h : Entered name uid before observation side instanceUid) :
    ¬ Gone (observation.pods side) instanceUid := by
  obtain ⟨pod, hpod, huid, hlive, -⟩ := h
  exact fun hgone => hlive (hgone pod hpod huid)

/-- The members of a snapshot come from the last observation of a log. -/
def Originates (name uid : String) (log : List Event) (snapshot : Snapshot) : Prop :=
  ∃ before observation since, log = before ++ .observed observation :: since ∧
    (∀ later, .observed later ∉ since) ∧ ∀ side instanceUid,
      instanceUid ∈ snapshot.members side → Entered name uid before observation side instanceUid

/-- All publications of a version have the same members, and those come from the reconcile that
published them. -/
structure Membership (name uid : String) (state : State) : Prop where
  versions : ∀ view a view' b, state.Published view a → state.Published view' b →
    a.version = b.version → ∀ side, a.members side = b.members side
  pending : state.pending = [] ∨ ∃ snapshot : Snapshot,
    (∀ view existed a, .publish view existed a ∈ state.pending →
      ∀ side, a.members side = snapshot.members side) ∧
    ((∀ v, .reserve v ∉ state.pending) → ∀ view a, state.Published view a →
      a.version = state.status → ∀ side, a.members side = snapshot.members side) ∧
    Originates name uid state.log snapshot
  origin : ∀ before view snapshot after, state.log = before ++ .published view snapshot :: after →
    Originates name uid before snapshot

lemma membership_init : Membership name uid {} where
  versions := by simp [State.Published]
  pending := .inl rfl
  origin := by simp

lemma Originates.published {log : List Event} {snapshot : Snapshot}
    (h : Originates name uid log snapshot) (view : ℕ) (a : Snapshot) :
    Originates name uid (log ++ [.published view a]) snapshot := by
  obtain ⟨before, observation, since, rfl, hsince, hent⟩ := h
  refine ⟨before, observation, since ++ [.published view a], by simp, ?_, hent⟩
  intro later hlater
  rcases mem_append.mp hlater with hlater | hlater
  · exact hsince later hlater
  · cases mem_singleton.mp hlater

section

variable (h : Membership name uid state)
include h

/-- **A plan** has the members of its observation. -/
lemma Membership.candidate (hvers : Versioned state)
    (d : Candidate naming compilation name uid state.status state.views observation) :
    Membership name uid
      { state with
        pending := d.writes
        log := state.log ++ [.observed observation] } where
  versions view a view' b ha hb := h.versions view a view' b
    ((published_append.mp ha).resolve_right (by simp))
    ((published_append.mp hb).resolve_right (by simp))
  pending := by
    refine .inr ⟨d.snapshot,
      fun view x a hmem => d.members_of_publish hmem, ?_, ?_⟩
    · intro hnone view a ha hver side
      obtain ⟨pb, hprim, hsame, hpub⟩ :=
        Candidate.kept hvers d hnone
      have ha := (published_append.mp ha).resolve_right (by simp)
      exact (h.versions view a _ pb ha (hvers.recorded _ _ hprim)
        (hver.trans hpub.symm) side).trans (hsame.members side)
    · refine ⟨state.log, observation, [], rfl, by simp, fun side instanceUid hmem => ?_⟩
      obtain ⟨pod, hpod, huid, hlive, hkeep⟩ := d.mem_members.mp hmem
      refine ⟨pod, hpod, huid, hlive, hkeep.imp ?_ id⟩
      rintro ⟨pv, hprev, hmem⟩
      obtain ⟨p, -, hlook⟩ := previousSnapshot_mem hprev
      exact ⟨_, pv, hvers.recorded _ _ hlook, hmem⟩
  origin before view snapshot after hlog := by
    rcases append_singleton_eq hlog with ⟨-, heq, -⟩ | ⟨rest, -, hlog⟩
    · cases heq
    · exact h.origin before view snapshot rest hlog

lemma Membership.observed (observation : Observation) :
    Membership name uid
      { state with pending := [], log := state.log ++ [.observed observation] } where
  versions view a view' b ha hb := h.versions view a view' b
    ((published_append.mp ha).resolve_right (by simp))
    ((published_append.mp hb).resolve_right (by simp))
  pending := .inl rfl
  origin before view snapshot after hlog := by
    rcases append_singleton_eq hlog with ⟨-, heq, -⟩ | ⟨rest, -, hlog⟩
    · cases heq
    · exact h.origin before view snapshot rest hlog

lemma Membership.write (hvers : Versioned state) {write : Write} {rest : List Write}
    (hpend : state.pending = write :: rest) :
    Membership name uid (state.write write rest) := by
  obtain hnil | ⟨plan, hmems, hsame, horigin⟩ := h.pending
  · simp [hnil] at hpend
  rw [hpend] at hmems hsame
  cases write with
  | reserve =>
    have hlt := hvers.lt_of_reserve hpend
    exact
      { versions := h.versions
        pending := .inr ⟨plan,
          fun view x a hmem => hmems view x a (mem_cons_of_mem _ hmem),
          fun _ view a ha hver => absurd (hvers.bounded view a ha) (by
            rw [hver]
            exact hlt.not_ge), horigin⟩
        origin := h.origin }
  | publish view x a =>
    obtain ⟨hver, hnone⟩ := hvers.of_publish hpend
    have ha := hmems view x a mem_cons_self
    have hsame : ∀ v b, published v b ∈ state.log ++ [.published view a] →
        b.version = state.status → ∀ side, b.members side = plan.members side := by
      intro v b hb hbversion
      rcases published_append.mp hb with hb | hb
      · exact hsame hnone v b hb hbversion
      · obtain ⟨-, rfl⟩ := published.inj hb
        exact ha
    rw [State.write]
    split_ifs
    · exact
        { versions := by
            intro v b v' c hb hc heq side
            rcases published_append.mp hb with hb' | hb'
            · rcases published_append.mp hc with hc' | hc'
              · exact h.versions v b v' c hb' hc' heq side
              · obtain ⟨-, rfl⟩ := published.inj hc'
                exact (hsame v b hb (heq.trans hver) side).trans (ha side).symm
            · obtain ⟨-, rfl⟩ := published.inj hb'
              exact (ha side).trans (hsame v' c hc (heq.symm.trans hver) side).symm
          pending := .inr ⟨plan,
            fun v e b hmem => hmems v e b (mem_cons_of_mem _ hmem), fun _ => hsame,
            horigin.published view a⟩
          origin := by
            intro before v b t hlog
            rcases append_singleton_eq hlog with ⟨-, heq, rfl⟩ | ⟨rest, -, hlog⟩
            · obtain ⟨-, rfl⟩ := published.inj heq
              obtain ⟨before, observation, since, hlog, hsince, hent⟩ := horigin
              exact ⟨before, observation, since, hlog, hsince, fun side instanceUid hmem =>
                hent side instanceUid (ha side ▸ hmem)⟩
            · exact h.origin before v b rest hlog }
    · exact { h with pending := .inl rfl }

lemma Membership.step (hvers : Versioned state) {command : Command} {after : State}
    (hstep : Stepped naming compilation name uid state command after) :
    Membership name uid after := by
  cases hstep with
  | idle => exact h
  | observe hpend hwr =>
    rcases hwr with rfl | ⟨candidate, rfl⟩
    · exact h.observed _
    · exact h.candidate hvers candidate
  | write hpend => exact h.write hvers hpend
  | fail => exact { h with pending := .inl rfl }
  | deleteView => exact ⟨h.versions, h.pending, h.origin⟩

end

theorem membership (h : (controller naming compilation name uid).Reachable state) :
    Membership name uid state :=
  h.rec_on membership_init fun state command hs hstate =>
    hstate.step (versioned hs) (stepped state command)

/-! ### Members stay -/

/-- The versions that have been published. -/
def State.publishedVersions (state : State) : List ℕ :=
  state.log.filterMap fun
    | .published _ snapshot => some snapshot.version
    | .observed _ => none

/-- The view with the highest version is among those a reconcile reads: it has not been deleted,
and its protocol is still one of the frontend's. -/
def KeepsNewestView (state : State) : Command → Prop
  | .reconcile observation =>
    ∀ version ∈ state.publishedVersions,
      ∃ protocol ∈ protocolVersions observation.servingConfigVersion,
        ∃ snapshot ∈ state.views.lookup (viewOf protocol), version ≤ snapshot.version
  | _ => True

instance (state : State) : ∀ command, Decidable (KeepsNewestView state command)
  | .reconcile _ => inferInstanceAs (Decidable (∀ _ ∈ _, _))
  | .advance | .fail | .deleteView _ => .isTrue trivial

/-- A published instance is in every publication and write after it while no list of Pods shows it
gone. -/
structure Retained (state : State) : Prop where
  later : ∀ side instanceUid before view a between view' b after,
    state.log = before ++ .published view a :: between ++ .published view' b :: after →
    instanceUid ∈ a.members side →
    (∀ observation, .observed observation ∈ between →
      ¬ Gone (observation.pods side) instanceUid) →
    instanceUid ∈ b.members side
  pending : ∀ side instanceUid before view a after,
    state.log = before ++ .published view a :: after → instanceUid ∈ a.members side →
    (∀ observation, .observed observation ∈ after →
      ¬ Gone (observation.pods side) instanceUid) →
    ∀ view' existed b, .publish view' existed b ∈ state.pending → instanceUid ∈ b.members side

lemma retained_init : Retained {} where
  later := by simp
  pending := by simp

/-- The previous snapshot is the newest that was read. -/
lemma version_le_previousSnapshot {ps : List ℕ} {p : ℕ} {S : Snapshot}
    (hprot : p ∈ ps) (hlook : views.lookup (viewOf p) = some S) :
    ∃ pv, previousSnapshot views ps = some pv ∧
      S.version ≤ pv.version := by
  have hmem : S ∈ ps.filterMap fun p => views.lookup (viewOf p) :=
    mem_filterMap.mpr ⟨p, hprot, hlook⟩
  rw [previousSnapshot_eq]
  cases hnew : argmax version
      (ps.filterMap fun p => views.lookup (viewOf p)) with
  | none =>
    simp [argmax_eq_none.mp hnew] at hmem
  | some pv => exact ⟨pv, rfl, le_of_mem_argmax hmem hnew⟩

section

variable (h : Retained state) (hvers : Versioned state) (hmems : Membership name uid state)
  (hnew : KeepsNewestView state (.reconcile observation))
include h hvers hmems hnew

/-- The previous snapshot has every live instance. -/
lemma Retained.mem_previous {after : List Event} {snapshot : Snapshot}
    (hlog : state.log = before ++ .published view snapshot :: after)
    (hmem : instanceUid ∈ snapshot.members side)
    (hafter : ∀ later, .observed later ∈ after → ¬ Gone (later.pods side) instanceUid) :
    ∃ previous, previousSnapshot state.views
      (protocolVersions observation.servingConfigVersion) = some previous ∧
      instanceUid ∈ previous.members side := by
  have hpub : state.Published view snapshot := by
    rw [State.Published, hlog]
    simp
  obtain ⟨protocol, hprot, found, hfound, hle⟩ := hnew snapshot.version
    (mem_filterMap.mpr ⟨_, hpub, rfl⟩)
  obtain ⟨previous, hprev, hle'⟩ := version_le_previousSnapshot hprot hfound
  refine ⟨previous, hprev, ?_⟩
  obtain ⟨protocol', -, hlook⟩ := previousSnapshot_mem hprev
  have hrecorded := hvers.recorded _ _ hlook
  -- the previous snapshot was published after the given one, or at the same version
  rw [State.Published, hlog, mem_append, mem_cons] at hrecorded
  rcases hrecorded with hbefore | heq | hlater
  · have hordered := hvers.ordered
    rw [hlog, pairwise_append] at hordered
    have hge := hordered.2.2 _ hbefore _ mem_cons_self _ _ _ _ rfl rfl
    have hsame : snapshot.version = previous.version := le_antisymm (hle.trans hle') hge
    rwa [← hmems.versions view snapshot _ previous hpub (hvers.recorded _ _ hlook) hsame side]
  · obtain ⟨-, rfl⟩ := published.inj heq
    exact hmem
  · obtain ⟨between, rest, rfl⟩ := append_of_mem hlater
    exact h.later side instanceUid before view snapshot between (viewOf protocol') previous rest
      (by simp [hlog]) hmem fun later hbetw => hafter later (mem_append_left _ hbetw)

lemma Retained.observed {writes : List Write}
    (hwr : writes = [] ∨ ∃ d : Candidate naming compilation name uid state.status state.views
      observation, writes = d.writes) :
    Retained { state with pending := writes, log := state.log ++ [.observed observation] } where
  later side instanceUid before view a between view' b after hlog := by
    rcases append_singleton_eq hlog with ⟨-, heq, -⟩ | ⟨rest, rfl, hlog'⟩
    · cases heq
    · exact h.later side instanceUid before view a between view' b rest hlog'
  pending side instanceUid before view a after hlog hmem hafter view' existed b hb := by
    rcases append_singleton_eq hlog with ⟨-, heq, -⟩ | ⟨rest, rfl, hlog'⟩
    · cases heq
    rcases hwr with rfl | ⟨d, rfl⟩
    · cases hb
    -- the new list of Pods shows the instance live, and the previous snapshot has it
    have hlive := hafter observation (mem_append_right _ mem_cons_self)
    simp only [Gone, not_forall] at hlive
    obtain ⟨pod, hpod, huid, hlive⟩ := hlive
    rw [d.members_of_publish hb side]
    exact d.mem_members.mpr ⟨pod, hpod, huid, hlive,
      .inl (h.mem_previous hvers hmems hnew hlog' hmem fun later hlater =>
        hafter later (mem_append_left _ hlater))⟩

end

lemma Retained.fail (h : Retained state) : Retained { state with pending := [] } where
  later := h.later
  pending := by simp

lemma Retained.write (h : Retained state) (hmems : Membership name uid state) {write : Write}
    {rest : List Write} (hpend : state.pending = write :: rest) :
    Retained (state.write write rest) := by
  have htail : ∀ view x b, .publish view x b ∈ rest →
      .publish view x b ∈ state.pending := fun view x b hb =>
    hpend ▸ mem_cons_of_mem _ hb
  cases write with
  | reserve =>
    exact ⟨h.later, fun side instanceUid before view a t hlog hmem hafter v e b hb =>
      h.pending side instanceUid before view a t hlog hmem hafter v e b (htail v e b hb)⟩
  | publish v e a =>
    have ha : .publish v e a ∈ state.pending := hpend ▸ mem_cons_self
    rw [State.write]
    split_ifs
    · refine ⟨?_, ?_⟩
      · intro side instanceUid before view b between view' c t hlog hmem hbetw
        rcases append_singleton_eq hlog with ⟨rfl, heq, hlog'⟩ | ⟨since, rfl, hlog'⟩
        · obtain ⟨-, rfl⟩ := published.inj heq
          exact h.pending side instanceUid before view b between hlog'.symm hmem hbetw v e c ha
        · exact h.later side instanceUid before view b between view' c since hlog' hmem hbetw
      · intro side instanceUid before view b t hlog hmem hafter v' e' c hc
        rcases append_singleton_eq hlog with ⟨rfl, heq, -⟩ | ⟨since, rfl, hlog'⟩
        · -- the rest of the plan has the members of what was just published
          obtain ⟨-, rfl⟩ := published.inj heq
          obtain hnil | ⟨plan, hplan, -, -⟩ := hmems.pending
          · simp [hnil] at ha
          rwa [hplan v' e' c (htail v' e' c hc) side, ← hplan v e b ha side]
        · exact h.pending side instanceUid before view b since hlog' hmem
            (fun later hlater => hafter later (mem_append_left _ hlater)) v' e' c
            (htail v' e' c hc)
    · exact h.fail

lemma Retained.step (h : Retained state) (hvers : Versioned state)
    (hmems : Membership name uid state) {command : Command} {after : State}
    (hstep : Stepped naming compilation name uid state command after)
    (hnew : KeepsNewestView state command) : Retained after := by
  cases hstep with
  | idle => exact h
  | observe hpend hwr => exact h.observed hvers hmems hnew hwr
  | write hpend => exact h.write hmems hpend
  | fail => exact h.fail
  | deleteView => exact ⟨h.later, h.pending⟩

end Runs

/-- Terminal phases are final and UIDs are never reused: an instance that a list of Pods shows
after it was seen live stays gone. -/
def PodsFinal (log : List Event) (side : Side) (instanceUid : String) : Prop :=
  ∀ before live between gone since later after,
    log = before ++ .observed live :: between ++ .observed gone :: since ++
      .observed later :: after →
    ¬ Gone (live.pods side) instanceUid → Gone (gone.pods side) instanceUid →
    Gone (later.pods side) instanceUid

/-- An instance that is gone is not published again. -/
lemma Membership.not_mem_of_gone {name uid : String} {state : State}
    (h : Membership name uid state) (hfinal : PodsFinal state.log side instanceUid)
    {between since after : List Event} {view' : ℕ} {a b : Snapshot} {gone : Observation}
    (hlog : state.log = before ++ .published view a :: between ++ .observed gone :: since ++
      .published view' b :: after) (ha : instanceUid ∈ a.members side)
    (hgone : Gone (gone.pods side) instanceUid) : instanceUid ∉ b.members side := by
  intro hb
  -- it was live when it was published first, and again when it returned
  obtain ⟨earlier, live, x, rfl, -, hlive⟩ := h.origin before view a
    (between ++ .observed gone :: since ++ .published view' b :: after) (by simp [hlog])
  obtain ⟨_, later, x', hx', hlast, hlater⟩ := h.origin _ view' b after hlog
  rcases eq_or_later hx' (hlast gone) with heq | ⟨rest, rfl⟩
  · exact (hlater side instanceUid hb).not_gone (observed.inj heq ▸ hgone)
  · exact (hlater side instanceUid hb).not_gone (hfinal earlier live
      (x ++ .published view a :: between) gone rest later (x' ++ .published view' b :: after)
      (by simp [hlog]) (hlive side instanceUid ha).not_gone hgone)

/-- What a log says of the membership of an instance. -/
structure KeepsMember (name uid : String) (log : List Event) (side : Side) (instanceUid : String) :
    Prop where
  /-- Once published, it is in every publication until a list of Pods shows it gone. -/
  kept : ∀ before view a between view' b after,
    log = before ++ .published view a :: between ++ .published view' b :: after →
    instanceUid ∈ a.members side →
    instanceUid ∈ b.members side ∨
      ∃ observation, .observed observation ∈ between ∧ Gone (observation.pods side) instanceUid
  /-- When it is published first, the reconcile that does so has proven its ownership. -/
  proven : ∀ before view a after, log = before ++ .published view a :: after →
    instanceUid ∈ a.members side →
    (∃ view' b, .published view' b ∈ before ∧ instanceUid ∈ b.members side) ∨
      ∃ earlier observation since, before = earlier ++ .observed observation :: since ∧
        (∀ later, .observed later ∉ since) ∧
        ∃ pod ∈ observation.pods side, pod.uid = instanceUid ∧
          observation.Proven name uid pod side
  /-- Once it has left it does not return. -/
  left : PodsFinal log side instanceUid → ∀ before view a between view' b since view'' c after,
    log = before ++ .published view a :: between ++ .published view' b :: since ++
      .published view'' c :: after →
    instanceUid ∈ a.members side → instanceUid ∉ b.members side → instanceUid ∉ c.members side

/-- **Published membership never loses a live instance**, while the newest view stays among those
the frontend's reconciles read. -/
theorem membership_keeps_live_instances (naming : Naming) (compilation : Compilation)
    (name uid : String) (commands : List Command)
    (hnewest : (controller naming compilation name uid).Along KeepsNewestView {} commands)
    (side : Side) (instanceUid : String) :
    KeepsMember name uid ((controller naming compilation name uid).run {} commands).log side
      instanceUid := by
  have hmembers : Membership name uid ((controller naming compilation name uid).run {} commands) :=
    membership ((controller naming compilation name uid).reachable_after commands)
  have hretained : Retained ((controller naming compilation name uid).run {} commands) :=
    (controller naming compilation name uid).run_preserves
      (controller naming compilation name uid).reachable_init
      (fun s c hs hI hc => Retained.step hI (versioned hs) (membership hs) (stepped s c) hc)
      retained_init hnewest
  generalize (controller naming compilation name uid).run {} commands = state at *
  have hkept : ∀ before view a between view' b after,
      state.log = before ++ .published view a :: between ++ .published view' b :: after →
      instanceUid ∈ a.members side → instanceUid ∈ b.members side ∨
        ∃ observation, .observed observation ∈ between ∧
          Gone (observation.pods side) instanceUid := by
    intro before view a between view' b after hlog ha
    by_cases hgone : ∃ observation, .observed observation ∈ between ∧
        Gone (observation.pods side) instanceUid
    · exact .inr hgone
    · exact .inl (hretained.later side instanceUid before view a between view' b after hlog ha
        fun observation hobserved hobservation => hgone ⟨observation, hobserved, hobservation⟩)
  refine ⟨hkept, ?_, ?_⟩
  · intro before view a after hlog ha
    obtain ⟨earlier, observation, since, rfl, hsince, hentered⟩ :=
      hmembers.origin before view a after hlog
    obtain ⟨pod, hpod, huid, -, hpublished | hproven⟩ := hentered side instanceUid ha
    · obtain ⟨view', b, hb, hmem⟩ := hpublished
      exact .inl ⟨view', b, mem_append_left _ hb, hmem⟩
    · exact .inr ⟨earlier, observation, since, rfl, hsince, pod, hpod, huid, hproven⟩
  · intro hfinal before view a between view' b since view'' c after hlog ha hb
    obtain ⟨gone, hbetween, hgone⟩ := (hkept before view a between view' b
      (since ++ .published view'' c :: after) (by simp [hlog]) ha).resolve_left hb
    obtain ⟨m, m', rfl⟩ := append_of_mem hbetween
    have hlog' : state.log = before ++ .published view a :: m ++ .observed gone ::
        (m' ++ .published view' b :: since) ++ .published view'' c :: after := by simp [hlog]
    exact hmembers.not_mem_of_gone hfinal hlog' ha hgone

namespace Rollout

/-- A replica of the frontend. -/
def replica : Pod where
  uid := "pod-1"
  phase := .running
  deleting := false
  frontendServiceLabel := "frontend"
  modelGroupLabel := ""
  owners := [⟨.replicaSet, "frontend-a", "rs-1", true⟩]
  mounts := some 6

/-- The Deployment of the frontend and its ReplicaSet. -/
def deployed : Reader
  | .deployment, "frontend" =>
    .ok ⟨"frontend", "d-1", [⟨.frontendService, "frontend", "1", true⟩]⟩
  | .replicaSet, "frontend-a" =>
    .ok ⟨"frontend-a", "rs-1", [⟨.deployment, "frontend", "d-1", true⟩]⟩
  | _, _ => .error .notFound

/-- A reconcile that sees these replicas. -/
def observe (preserveConfiguration : Bool) (reader : Reader) (frontendPods : List Pod) : Command :=
  match reconcile 6 preserveConfiguration "info" with
  | .reconcile observation => .reconcile { observation with reader, frontendPods }
  | command => command

/-- A replica starts, its Deployment is deleted while the intent is rejected, and it ends. -/
def replicaCommands : List Command :=
  [observe false deployed [replica], .advance, .advance,
    observe true (fun _ _ => .error .notFound) [replica], .advance,
    observe false (fun _ _ => .error .notFound) [], .advance, .advance]

end Rollout

open Rollout

/-- The replica is a member as long as it runs. -/
theorem replica_kept_without_deployment :
    (((controller naming compilation "frontend" "1").run {}
        replicaCommands).publications 6).map (·.frontendInstances) =
      [["pod-1"], ["pod-1"], []] ∧
    (controller naming compilation "frontend" "1").Along KeepsNewestView {}
      replicaCommands ∧
    KeepsMember "frontend" "1" ((controller naming compilation "frontend" "1").run
      {}
      replicaCommands).log .frontend "pod-1" := by
  have h : (controller naming compilation "frontend" "1").Along KeepsNewestView {}
      replicaCommands := by decide
  exact ⟨by decide, h, membership_keeps_live_instances naming compilation "frontend"
    "1" replicaCommands h .frontend "pod-1"⟩

end Foretoken.ServingConfig
