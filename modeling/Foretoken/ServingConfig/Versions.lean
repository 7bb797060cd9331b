import Mathlib.Data.List.MinMax
import Foretoken.ServingConfig.Reconcile

/-!
What the version of a serving snapshot says.

A version is kept when the primary view has it and its configuration has not changed; the older
views are then written again at the same version. That is harmless as long as they are views of the
primary one. A reconcile that preserves the configuration keeps each older view as it is; after a
publication that failed between an older view and the primary one, the older view is published
twice under one version (`version_reused_for_older_view`).
-/

namespace Foretoken.ServingConfig

open List Event Write Table Option State

variable {S snapshot : Snapshot} {views : Views} {status version view : ℕ} {existed : Bool}
  {rest : List Write}

/-- The snapshot has been published in the view. -/
def State.Published (state : State) (view : ℕ) (snapshot : Snapshot) : Prop :=
  published view snapshot ∈ state.log

section Runs

variable {naming : Naming} {compilation : Compilation} {name uid : String}

/-! ### Reserved versions -/

/-- The writes of a reconcile in progress have one version, which is reserved first. -/
structure Pending (status : ℕ) (writes : List Write) (version : ℕ) : Prop where
  publishes : ∀ view existed snapshot, .publish view existed snapshot ∈ writes →
    snapshot.version = version
  reserved : (∃ rest, writes = .reserve version :: rest ∧ (∀ v, .reserve v ∉ rest) ∧
      status < version) ∨
    ((∀ v, .reserve v ∉ writes) ∧ status = version)

/-- No version is ahead of the status, and none goes back. -/
structure Versioned (state : State) : Prop where
  bounded : ∀ view snapshot, state.Published view snapshot → snapshot.version ≤ state.status
  recorded : ∀ view snapshot, state.views.lookup view = some snapshot →
    state.Published view snapshot
  ordered : state.log.Pairwise fun e e' => ∀ view a view' b, e = .published view a →
    e' = .published view' b → a.version ≤ b.version
  pending : state.pending = [] ∨ ∃ version, Pending state.status state.pending version

/-- The previous snapshot is the newest of the views. -/
lemma previousSnapshot_eq (views : Views) (ps : List ℕ) : previousSnapshot views ps =
    (ps.filterMap fun p => views.lookup (viewOf p)).argmax Snapshot.version := by
  rw [previousSnapshot]
  congr
  funext best snapshot
  cases best <;> rfl

lemma previousSnapshot_mem {ps : List ℕ} (h : previousSnapshot views ps = some snapshot) :
    ∃ p ∈ ps, views.lookup (viewOf p) = some snapshot := by
  rw [previousSnapshot_eq] at h
  exact mem_filterMap.mp (argmax_mem h)

/-- A version is the next one, or that of an unchanged view. -/
lemma nextVersion_eq_ok {pv primary : Option Snapshot} {missing : Bool}
    (h : nextVersion status pv primary missing S = .ok version) :
    version = max status (pv.elim 0 (·.version)) + 1 ∨
      (version = max status (pv.elim 0 (·.version)) ∧ ∃ p, primary = some p ∧
        p.SameConfiguration S ∧ version ≤ p.version) := by
  rw [nextVersion] at h
  split_ifs at h with hchg hmax
  · exact .inl (Except.ok.inj h).symm
  · obtain rfl := Except.ok.inj h
    refine .inr ⟨rfl, ?_⟩
    cases primary with
    | none => simp at hchg
    | some p =>
      simp only [elim_some, Bool.or_eq_true, decide_eq_true_eq, not_or, not_not] at hchg
      exact ⟨p, rfl, hchg.1.1.1, not_lt.mp fun hlt => hchg.1.2 (decide_eq_true hlt)⟩

section Step

variable {state : State} {observation : Observation}

/-- In a versioned state the status is the newest version. -/
lemma Versioned.newest (h : Versioned state) (ps : List ℕ) :
    max state.status ((previousSnapshot state.views ps).elim 0 (·.version)) =
      state.status := by
  refine max_eq_left ?_
  cases hprev : previousSnapshot state.views ps with
  | none => exact Nat.zero_le _
  | some =>
    obtain ⟨p, -, hlook⟩ := previousSnapshot_mem hprev
    exact h.bounded _ _ (h.recorded _ _ hlook)

/-- **The version of a candidate** is fresh, or its view unchanged. -/
lemma Versioned.version_candidate (h : Versioned state)
    (d : Candidate naming compilation name uid state.status state.views observation) :
    d.version = state.status + 1 ∨ (d.version = state.status ∧ ∃ p,
        state.views.lookup (viewOf observation.servingConfigVersion) = some p ∧
        p.SameConfiguration d.snapshot ∧ p.version = state.status) := by
  rcases nextVersion_eq_ok d.versioned with hver | ⟨hver, p, hprim, hsame, hle⟩
  · exact .inl (by rw [hver, h.newest])
  · rw [h.newest] at hver
    have hbound := h.bounded _ _ (h.recorded _ _ hprim)
    exact .inr ⟨hver, p, hprim, hsame, by omega⟩

lemma Candidate.reserve_notMem_legacyWrites {instances : List Pod} {keep : Bool}
    {protocols : List ℕ} {snapshot : Snapshot} :
    reserve version ∉ legacyWrites views instances keep protocols snapshot := by
  rw [legacyWrites, mem_filterMap]
  rintro ⟨protocol, -, hwrite⟩
  dsimp only at hwrite
  split_ifs at hwrite
  cases hwrite

lemma version_legacyView {keep : Bool} {p : Option Snapshot} :
    (legacyView keep p S).version = S.version := by
  cases keep <;> cases p <;> rfl

lemma version_forProtocol (S : Snapshot) (p : ℕ) :
    (servingSnapshotForProtocol S p).version = S.version := by
  rcases servingSnapshotForProtocol_eq p with ⟨-, h⟩ | ⟨-, h⟩ | ⟨-, h⟩ | ⟨-, h⟩ <;>
    rw [h] <;> rfl

lemma Candidate.version_of_publish
    (d : Candidate naming compilation name uid status views observation)
    (h : publish view existed S ∈ d.writes) : S.version = d.version := by
  rcases d.publish_mem h with ⟨-, rfl⟩ | ⟨p, -, -, rfl⟩
  · rfl
  · rw [version_forProtocol, version_legacyView, d.version_snapshot]

lemma Versioned.pending_candidate (h : Versioned state)
    (candidate : Candidate naming compilation name uid state.status state.views observation) :
    Pending state.status candidate.writes candidate.version where
  publishes _ _ _ hmem := candidate.version_of_publish hmem
  reserved := by
    by_cases hlt : state.status < candidate.version
    · have hwr : candidate.writes = .reserve candidate.version ::
          (legacyWrites state.views candidate.instances observation.preserveConfiguration
            (protocolVersions observation.servingConfigVersion).tail candidate.snapshot ++
            [.publish (viewOf observation.servingConfigVersion)
              (state.views.lookup (viewOf observation.servingConfigVersion)).isSome
              candidate.snapshot]) := by
        rw [Candidate.writes, if_pos hlt, singleton_append, cons_append]
      refine .inl ⟨_, hwr, ?_, hlt⟩
      simp [Candidate.reserve_notMem_legacyWrites]
    · refine .inr ⟨?_, ?_⟩
      · simp [Candidate.writes, hlt, Candidate.reserve_notMem_legacyWrites]
      · rcases h.version_candidate candidate with hver | ⟨hver, -⟩
        · omega
        · exact hver.symm

/-- Without a reservation, the version is kept. -/
lemma Candidate.kept (h : Versioned state)
    (d : Candidate naming compilation name uid state.status state.views observation)
    (hnone : ∀ v, .reserve v ∉ d.writes) :
    ∃ p, state.views.lookup (viewOf observation.servingConfigVersion) = some p ∧
      p.SameConfiguration d.snapshot ∧ p.version = state.status := by
  rcases h.version_candidate d with hver | ⟨-, hkept⟩
  · refine absurd ?_ (hnone d.version)
    rw [Candidate.writes, if_pos (by omega)]
    simp
  · exact hkept

end Step

lemma versioned_init : Versioned {} where
  bounded := by simp [Published]
  recorded := by simp
  ordered := Pairwise.nil
  pending := .inl rfl

lemma published_append {state : State} {event : Event} {snapshot : Snapshot} :
    published view snapshot ∈ state.log ++ [event] ↔
      state.Published view snapshot ∨ event = .published view snapshot := by
  rw [mem_append, mem_singleton, Published, eq_comm]

lemma Versioned.lt_of_reserve {state : State} (h : Versioned state)
    (hpend : state.pending = .reserve version :: rest) : state.status < version := by
  obtain hnil | ⟨planned, hplan⟩ := h.pending
  · simp [hnil] at hpend
  rcases hplan.reserved with ⟨rest', heq, -, hlt⟩ | ⟨hnone, -⟩
  · rw [hpend] at heq
    exact reserve.inj (cons.inj heq).1 ▸ hlt
  · exact absurd (hpend ▸ mem_cons_self) (hnone version)

lemma Versioned.of_publish {state : State} (h : Versioned state)
    (hpend : state.pending = .publish view existed S :: rest) :
    S.version = state.status ∧
      ∀ v, reserve v ∉ publish view existed S :: rest := by
  obtain hnil | ⟨planned, hplan⟩ := h.pending
  · simp [hnil] at hpend
  rw [hpend] at hplan
  rcases hplan.reserved with ⟨rest', heq, -⟩ | ⟨hnone, heq⟩
  · cases heq
  · exact ⟨(hplan.publishes view existed S mem_cons_self).trans heq.symm, hnone⟩

lemma Pending.after_reserve {w : ℕ} (h : Pending status (.reserve w :: rest) version) :
    Pending w rest version where
  publishes view existed snapshot hmem :=
    h.publishes view existed snapshot (mem_cons_of_mem _ hmem)
  reserved := by
    rcases h.reserved with ⟨rest', heq, hrest, -⟩ | ⟨hnone, -⟩
    · obtain ⟨hw, rfl⟩ := cons.inj heq
      exact .inr ⟨hrest, reserve.inj hw⟩
    · exact absurd mem_cons_self (hnone w)

lemma Pending.after_publish (h : Pending status (.publish view existed S :: rest) version) :
    Pending status rest version where
  publishes view existed S hmem :=
    h.publishes view existed S (mem_cons_of_mem _ hmem)
  reserved := by
    rcases h.reserved with ⟨rest', heq, -⟩ | ⟨hnone, heq⟩
    · cases heq
    · exact .inr ⟨fun v hv => hnone v (mem_cons_of_mem _ hv), heq⟩

section

variable {state : State} (h : Versioned state)
include h

lemma Versioned.write {write : Write} (hpend : state.pending = write :: rest) :
    Versioned (state.write write rest) := by
  obtain hnil | ⟨version, hplan⟩ := h.pending
  · simp [hnil] at hpend
  cases write with
  | reserve =>
    exact
      { bounded := fun view snapshot hp =>
          (h.bounded view snapshot hp).trans (h.lt_of_reserve hpend).le
        recorded := h.recorded
        ordered := h.ordered
        pending := .inr ⟨version, (hpend ▸ hplan).after_reserve⟩ }
  | publish =>
    obtain ⟨hver, -⟩ := h.of_publish hpend
    rw [State.write]
    split_ifs
    · exact
        { bounded := by
            intro v a hp
            rcases published_append.mp hp with hp | hp
            · exact h.bounded v a hp
            · obtain ⟨-, rfl⟩ := published.inj hp
              exact hver.le
          recorded := by
            intro v a hlook
            rw [lookup_insert_eq] at hlook
            refine published_append.mpr ?_
            split_ifs at hlook with hv
            · exact .inr (by rw [hv, some.inj hlook])
            · exact .inl (h.recorded v a hlook)
          ordered := by
            refine pairwise_append.mpr ⟨h.ordered, pairwise_singleton _ _, ?_⟩
            rintro e he e' he' v a v' b rfl rfl
            obtain ⟨-, rfl⟩ := published.inj (mem_singleton.mp he')
            rw [hver]
            exact h.bounded v a he
          pending := .inr ⟨version, (hpend ▸ hplan).after_publish⟩ }
    · exact { h with pending := .inl rfl }

lemma Versioned.deleteView (view : ℕ) :
    Versioned { state with views := state.views.erase view } where
  bounded := h.bounded
  recorded v a hlook := by
    rw [lookup_erase_eq] at hlook
    split_ifs at hlook
    exact h.recorded v a hlook
  ordered := h.ordered
  pending := h.pending

lemma Versioned.observed (observation : Observation) {writes : List Write}
    (hwr : writes = [] ∨ ∃ version, Pending state.status writes version) :
    Versioned { state with pending := writes, log := state.log ++ [.observed observation] } where
  bounded v a hp := h.bounded v a ((published_append.mp hp).resolve_right (by simp))
  recorded v a hlook := published_append.mpr (.inl (h.recorded v a hlook))
  ordered := by
    refine pairwise_append.mpr ⟨h.ordered, pairwise_singleton _ _, ?_⟩
    rintro e - e' he' v a v' b - rfl
    cases mem_singleton.mp he'
  pending := hwr

end

lemma Versioned.step {state after : State} (h : Versioned state) {command : Command}
    (hstep : Stepped naming compilation name uid state command after) : Versioned after := by
  cases hstep with
  | idle => exact h
  | observe hpend hwr =>
    refine h.observed _ ?_
    rcases hwr with rfl | ⟨candidate, rfl⟩
    · exact .inl rfl
    · exact .inr ⟨candidate.version, h.pending_candidate candidate⟩
  | write hpend => exact h.write hpend
  | fail => exact { h with pending := .inl rfl }
  | deleteView view => exact h.deleteView view

/-- **Versions never decrease and the status is never behind**, in every run. -/
theorem versioned {state : State}
    (h : (controller naming compilation name uid).Reachable state) : Versioned state :=
  h.rec_on versioned_init fun state command _ hstate => hstate.step (stepped state command)

/-! ### Older views of the primary one -/

/-- The writes of a reconcile in progress are views of one snapshot, and so is what has been
published under its version once that is reserved. -/
structure Faithful (state : State) (primary : ℕ) (snapshot : Snapshot) : Prop where
  own : servingSnapshotForProtocol snapshot primary = snapshot
  writes : ∀ view existed a, .publish view existed a ∈ state.pending →
    view ≤ primary ∧ a.SameConfiguration (servingSnapshotForProtocol snapshot view)
  published : (∀ v, .reserve v ∉ state.pending) → ∀ view a, state.Published view a →
    a.version = state.status → view ≤ primary →
    a.SameConfiguration (servingSnapshotForProtocol snapshot view)
  newer : (∀ v, .reserve v ∉ state.pending) → ∀ view a, state.views.lookup view = some a →
    a.version = state.status → primary ≤ view →
    snapshot.SameConfiguration (servingSnapshotForProtocol a primary)

/-- A version identifies the content of a view, and a view at the newest version has the older
views of that version as its own. -/
structure Agreed (state : State) : Prop where
  identified : ∀ view a b, state.Published view a → state.Published view b →
    a.version = b.version → a.SameConfiguration b
  older : ∀ view a, state.views.lookup view = some a → a.version = state.status →
    ∀ view' b, state.Published view' b → b.version = state.status → view' ≤ view →
    b.SameConfiguration (servingSnapshotForProtocol a view')
  pending : state.pending = [] ∨ ∃ primary snapshot, Faithful state primary snapshot

/-- Whatever a reconcile preserves, it finds every older view to be a view of it. -/
def PreservesViews (state : State) : Command → Prop
  | .reconcile observation =>
    state.pending = [] → observation.preserveConfiguration = true → ∀ configuration ∈
      (state.views.lookup (viewOf observation.servingConfigVersion)).or
        (previousSnapshot state.views (protocolVersions observation.servingConfigVersion)),
      ∀ protocol ∈ (protocolVersions observation.servingConfigVersion).tail,
        ∀ kept ∈ state.views.lookup protocol,
        (kept.withMembers [] []).SameConfiguration
          ((servingSnapshotForProtocol configuration protocol).withMembers [] [])
  | _ => True

instance (state : State) : ∀ command, Decidable (PreservesViews state command)
  | .reconcile _ => inferInstanceAs (Decidable (_ → _))
  | .advance | .fail | .deleteView _ => .isTrue trivial

lemma agreed_init : Agreed {} where
  identified := by simp [Published]
  older := by simp
  pending := .inl rfl

section Agreed

variable {state : State} {observation : Observation}

lemma Agreed.deleteView (h : Agreed state) (view : ℕ) :
    Agreed { state with views := state.views.erase view } where
  identified := h.identified
  older v a hlook := by
    rw [lookup_erase_eq] at hlook
    split_ifs at hlook
    exact h.older v a hlook
  pending := h.pending.imp id fun ⟨primary, snapshot, hplan⟩ => ⟨primary, snapshot, hplan.own,
    hplan.writes, hplan.published, fun hnone v a hlook => by
      rw [lookup_erase_eq] at hlook
      split_ifs at hlook
      exact hplan.newer hnone v a hlook⟩

lemma forProtocol_snapshot
    (d : Candidate naming compilation name uid status views observation) {p : ℕ}
    (h : p ≤ observation.servingConfigVersion) :
    servingSnapshotForProtocol d.snapshot p =
      ((servingSnapshotForProtocol d.contents p).withMembers
        (sortByOrd (d.instances.map (·.uid))) d.backends).withVersion
          d.version := by
  rw [Candidate.snapshot, servingSnapshotForProtocol_withVersion,
    servingSnapshotForProtocol_trans h, servingSnapshotForProtocol_withMembers]

/-- The older views are views of the primary one. -/
lemma sameConfiguration_legacyView
    (d : Candidate naming compilation name uid state.status state.views observation)
    (hpend : state.pending = []) (hkeeps : PreservesViews state (.reconcile observation))
    {p : ℕ} (hprot : p ∈ (protocolVersions observation.servingConfigVersion).tail) :
    (servingSnapshotForProtocol (legacyView observation.preserveConfiguration
      (state.views.lookup p) d.snapshot) p).SameConfiguration
      (servingSnapshotForProtocol d.snapshot p) := by
  cases hpres : observation.preserveConfiguration with
  | false => exact .refl _
  | true =>
    cases hkept : state.views.lookup p with
    | none => exact .refl _
    | some kept =>
      have hcont := d.candidate
      rw [candidateContents, if_pos hpres, orError_eq_ok_iff] at hcont
      have hsame := (hkeeps hpend hpres _ hcont p hprot kept hkept).forProtocol p
      rw [servingSnapshotForProtocol_withMembers, servingSnapshotForProtocol_withMembers,
        servingSnapshotForProtocol_trans le_rfl] at hsame
      rw [forProtocol_snapshot d (mem_tail_protocolVersions.mp hprot).1.le,
        legacyView, servingSnapshotForProtocol_withMembers,
        servingSnapshotForProtocol_withVersion, d.frontendInstances_snapshot,
        d.backendInstances_snapshot]
      exact hsame.withMembers _ _

lemma Candidate.own (d : Candidate naming compilation name uid status views observation) :
    servingSnapshotForProtocol d.snapshot (viewOf observation.servingConfigVersion) =
      d.snapshot := by
  rw [servingSnapshotForProtocol_viewOf, Candidate.snapshot,
    servingSnapshotForProtocol_withVersion, servingSnapshotForProtocol_trans le_rfl]

/-- **A plan is faithful** when the views it preserves are. -/
lemma Agreed.faithful_candidate (h : Agreed state) (hvers : Versioned state)
    (candidate : Candidate naming compilation name uid state.status state.views observation)
    (hpend : state.pending = []) (hkeeps : PreservesViews state (.reconcile observation)) :
    Faithful { state with pending := candidate.writes, log := state.log ++ [.observed observation] }
      (viewOf observation.servingConfigVersion) candidate.snapshot where
  own := candidate.own
  writes := by
    intro view existed a hmem
    rcases candidate.publish_mem hmem with ⟨rfl, rfl⟩ | ⟨protocol, hprot, rfl, rfl⟩
    · rw [candidate.own]
      exact ⟨le_rfl, .refl _⟩
    · exact ⟨(mem_tail_protocolVersions.mp hprot).1.le.trans (le_max_left _ _),
        sameConfiguration_legacyView candidate hpend hkeeps hprot⟩
  published := by
    intro hnone view a hp hver hle
    have hp := (published_append.mp hp).resolve_right (by simp)
    obtain ⟨published, hlook, hsame, hpub⟩ := Candidate.kept hvers candidate hnone
    exact (h.older _ published hlook hpub view a hp hver hle).trans (hsame.forProtocol view)
  newer := by
    intro hnone view a hlook hver hle
    obtain ⟨published, hprim, hsame, hpub⟩ := Candidate.kept hvers candidate hnone
    exact hsame.symm.trans (h.older view a hlook hver _ published
      (hvers.recorded _ _ hprim) hpub hle)

lemma forProtocol_of_view {a : Snapshot} {older : ℕ}
    (h : a.SameConfiguration (servingSnapshotForProtocol S view)) (hle : older ≤ view) :
    (servingSnapshotForProtocol a older).SameConfiguration
      (servingSnapshotForProtocol S older) :=
  servingSnapshotForProtocol_trans hle S ▸ h.forProtocol older

section

variable (h : Agreed state) (hvers : Versioned state)
include h hvers

/-- A view of the reserved version is published. -/
lemma Agreed.publish {primary : ℕ} {snapshot a : Snapshot} (hplan : Faithful state primary snapshot)
    (hnone : ∀ v, reserve v ∉ state.pending) (hle : view ≤ primary)
    (hsame : a.SameConfiguration (servingSnapshotForProtocol snapshot view))
    (hver : a.version = state.status)
    (hrest : ∀ view existed a, .publish view existed a ∈ rest →
      view ≤ primary ∧ a.SameConfiguration (servingSnapshotForProtocol snapshot view)) :
    Agreed { state with
      views := state.views.insert view a
      pending := rest
      log := state.log ++ [.published view a] } := by
  have hpub : ∀ v b, published v b ∈ state.log ++ [.published view a] →
      b.version = state.status → v ≤ primary →
      b.SameConfiguration (servingSnapshotForProtocol snapshot v) := by
    intro v b hp hb hv
    rcases published_append.mp hp with hp | hp
    · exact hplan.published hnone v b hp hb hv
    · obtain ⟨rfl, rfl⟩ := published.inj hp
      exact hsame
  refine ⟨?_, ?_, .inr ⟨primary, snapshot, hplan.own, hrest, fun _ => hpub, ?_⟩⟩
  · -- the new snapshot and what the view had under its version are views of one snapshot
    intro v b c hb hc heq
    rcases published_append.mp hb with hb' | hb'
    · rcases published_append.mp hc with hc' | hc'
      · exact h.identified v b c hb' hc' heq
      · obtain ⟨rfl, rfl⟩ := published.inj hc'
        exact (hpub _ b hb (heq.trans hver) hle).trans hsame.symm
    · obtain ⟨rfl, rfl⟩ := published.inj hb'
      exact hsame.trans (hpub _ c hc (heq.symm.trans hver) hle).symm
  · intro v c hlook hc v' b hp hb hv
    rw [lookup_insert_eq] at hlook
    split_ifs at hlook with heq
    · cases hlook
      subst heq
      exact (hpub v' b hp hb (hv.trans hle)).trans (forProtocol_of_view hsame hv).symm
    · rcases published_append.mp hp with hp' | hp'
      · exact h.older v c hlook hc v' b hp' hb hv
      · obtain ⟨rfl, rfl⟩ := published.inj hp'
        refine hsame.trans ?_
        -- a view of the reserved version is below the primary one, or the primary one is its view
        rcases le_total v primary with hlow | hhigh
        · exact (forProtocol_of_view (hplan.published hnone v c
            (hvers.recorded v c hlook) hc hlow) hv).symm
        · exact forProtocol_of_view (hplan.newer hnone v c hlook hc hhigh) hle
  · intro _ v c hlook hc hv
    rw [lookup_insert_eq] at hlook
    split_ifs at hlook with heq
    · cases hlook
      obtain rfl : view = primary := le_antisymm hle (heq ▸ hv)
      have hown := forProtocol_of_view hsame le_rfl
      rw [hplan.own] at hown
      exact hown.symm
    · exact hplan.newer hnone v c hlook hc hv

lemma Agreed.write {write : Write} (hpend : state.pending = write :: rest) :
    Agreed (state.write write rest) := by
  obtain hnil | ⟨primary, snapshot, hplan⟩ := h.pending
  · simp [hnil] at hpend
  have hwr := hplan.writes
  rw [hpend] at hwr
  cases write with
  | reserve w =>
    -- nothing has been published under the fresh version
    have hfresh : ∀ view a, state.Published view a → a.version ≠ w := fun view a hp heq =>
      absurd (hvers.bounded view a hp) (heq ▸ (hvers.lt_of_reserve hpend).not_ge)
    exact
      { identified := h.identified
        older := fun view a hlook hver =>
          absurd hver (hfresh view a (hvers.recorded view a hlook))
        pending := .inr ⟨primary, snapshot, hplan.own,
          fun view existed a hmem => hwr view existed a (mem_cons_of_mem _ hmem),
          fun _ view a hp hver => absurd hver (hfresh view a hp),
          fun _ view a hlook hver =>
            absurd hver (hfresh view a (hvers.recorded view a hlook))⟩ }
  | publish view existed a =>
    obtain ⟨hver, hnone⟩ := hvers.of_publish hpend
    obtain ⟨hle, hsame⟩ := hwr view existed a mem_cons_self
    rw [State.write]
    split_ifs
    · exact h.publish hvers hplan (hpend ▸ hnone) hle hsame hver fun v e b hmem =>
        hwr v e b (mem_cons_of_mem _ hmem)
    · exact { h with pending := .inl rfl }

lemma Agreed.step {command : Command} {after : State}
    (hstep : Stepped naming compilation name uid state command after)
    (hkeeps : PreservesViews state command) : Agreed after := by
  cases hstep with
  | idle => exact h
  | observe hpend hwr =>
    refine ⟨?_, ?_, ?_⟩
    · intro view a b ha hb
      exact h.identified view a b ((published_append.mp ha).resolve_right (by simp))
        ((published_append.mp hb).resolve_right (by simp))
    · intro view a hlook hver view' b hb
      exact h.older view a hlook hver view' b ((published_append.mp hb).resolve_right (by simp))
    · rcases hwr with rfl | ⟨candidate, rfl⟩
      · exact .inl rfl
      · exact .inr ⟨_, _, h.faithful_candidate hvers candidate hpend hkeeps⟩
  | write hpend => exact h.write hvers hpend
  | fail => exact { h with pending := .inl rfl }
  | deleteView view => exact h.deleteView view

end

end Agreed

/-- **Serving snapshot versions identify content** where every reconcile that preserves the
configuration finds the older views it keeps to be views of it. Whatever the run, versions of a
view never decrease and the status is at least every published version. -/
theorem versions_identify_content (naming : Naming) (compilation : Compilation) (name uid : String)
    (commands : List Command) :
    let state := (controller naming compilation name uid).run {} commands
    (state.log.Pairwise fun e e' => ∀ view a b, e = .published view a → e' = .published view b →
        a.version ≤ b.version) ∧
      (∀ view a, state.Published view a → a.version ≤ state.status) ∧
      ((controller naming compilation name uid).Along PreservesViews {} commands →
        ∀ view a b, state.Published view a → state.Published view b → a.version = b.version →
          a.SameConfiguration b) := by
  intro state
  have hversioned : Versioned state :=
    versioned ((controller naming compilation name uid).reachable_after commands)
  refine ⟨hversioned.ordered.imp fun hle view a b => hle view a view b, hversioned.bounded,
    fun hkeeps => ?_⟩
  have hagreed : Agreed state := (controller naming compilation name uid).run_preserves
    (controller naming compilation name uid).reachable_init
    (fun s c hs hI hc => Agreed.step hI (versioned hs) (stepped s c) hc) agreed_init hkeeps
  exact hagreed.identified

end Runs

/-! ### A version used twice -/

/-- The snapshots a view was published with. -/
def State.publications (state : State) (view : ℕ) : List Snapshot :=
  state.log.filterMap fun
    | .published v snapshot => if v = view then some snapshot else none
    | .observed _ => none

lemma State.mem_publications {state : State} {snapshot : Snapshot} :
    snapshot ∈ state.publications view ↔ state.Published view snapshot := by
  rw [publications, mem_filterMap]
  constructor
  · rintro ⟨event, hevent, heq⟩
    cases event with
    | observed => cases heq
    | published =>
      dsimp only at heq
      split_ifs at heq with hv
      rwa [← hv, ← some.inj heq]
  · intro hevent
    exact ⟨_, hevent, if_pos rfl⟩

namespace Rollout

/-- Groups are named by themselves. -/
def naming : Naming where
  serviceName group := group.name
  scopeDigest _ := "0"

/-- Every spec compiles. -/
def compilation : Compilation where
  specError _ := none
  templateError _ := none
  parseDuration given := if given = "1s" then some (1000000000, "1s") else none

/-- A reconcile of a frontend without models that asks for a log level. -/
def reconcile (servingConfigVersion : ℕ) (preserveConfiguration : Bool) (logLevel : String) :
    Command :=
  .reconcile
    { servingConfigVersion
      preserveConfiguration
      frontend :=
        { routerPipeline := ⟨⟨"allow_all", ""⟩, ⟨"kv_least_loaded", ""⟩, ⟨"gamble_sampling", ""⟩⟩
          requestTimeout := "1s"
          streamIdle := "1s"
          logLevel
          admission := none
          roleRules := none
          admissionStore := none }
      cluster := ⟨[], [], []⟩
      reader := fun _ _ => .error .notFound
      frontendPods := []
      backendPods := [] }

/-- The application is replaced by one of the next protocol. -/
def upgrade : List Command :=
  [reconcile 5 false "info", .advance, .advance, reconcile 6 false "info", .advance, .advance,
    .advance]

/-- The next intent is rejected. -/
def rejected : List Command :=
  upgrade ++ [reconcile 6 true "debug", .advance, .advance]

/-- The write of the primary view fails, the next intent is rejected, and the one after it is the
first one again. -/
def commands : List Command :=
  upgrade ++ [reconcile 6 false "debug", .advance, .advance, .fail, reconcile 6 true "debug",
    .advance, .advance, .advance, reconcile 6 false "info", .advance]

/-- The state after the commands. -/
def state : State := (controller naming compilation "frontend" "1").run {} commands

end Rollout

open Rollout

theorem versions_identify_content_rejected :
    (controller naming compilation "frontend" "1").Along PreservesViews {}
        rejected ∧
      ∀ view a b,
        ((controller naming compilation "frontend" "1").run {}
          rejected).Published view a →
        ((controller naming compilation "frontend" "1").run {}
          rejected).Published view b →
        a.version = b.version → a.SameConfiguration b := by
  have h : (controller naming compilation "frontend" "1").Along PreservesViews {}
      rejected := by decide
  exact ⟨h, (versions_identify_content naming compilation "frontend" "1"
    rejected).2.2 h⟩

/-- The older view has been published under one version with two log levels. -/
theorem version_reused_for_older_view :
    ∃ a b, state.Published 5 a ∧ state.Published 5 b ∧ a.version = b.version ∧
      ¬ a.SameConfiguration b := by
  have hreused : ∃ a ∈ state.publications 5, ∃ b ∈ state.publications 5,
      a.version = b.version ∧ ¬ a.SameConfiguration b := by
    decide
  obtain ⟨a, ha, b, hb, hversion, hdiffer⟩ := hreused
  exact ⟨a, b, mem_publications.mp ha, mem_publications.mp hb, hversion, hdiffer⟩

end Foretoken.ServingConfig
