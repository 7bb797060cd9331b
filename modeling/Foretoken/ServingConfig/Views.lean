import Foretoken.ServingConfig.Types

/-!
The protocol views of a serving snapshot (`controllers/frontend/snapshot.go`,
`internal/servingconfig/publication.go`).

Older views are published for the replicas of an older application during a rollout, without the
settings and routes it does not understand.
-/

namespace Foretoken.ServingConfig

open List

open Foretoken.Router (RouteTargetId)

/-- The first protocol that carries the transport of P/D. -/
abbrev pdTransportProtocol : ℕ := 6
/-- The first protocol with a pipeline for each model. -/
abbrev modelRoutingProtocol : ℕ := 5
/-- The first protocol that isolates prefix caches. -/
abbrev cacheIsolationProtocol : ℕ := 4
/-- The first protocol with admission settings. -/
abbrev admissionProtocol : ℕ := 3

/-- The selected protocol first, then the older views retained during a rollout. -/
def protocolVersions (selected : ℕ) : List ℕ :=
  selected :: (List.range (selected - admissionProtocol)).map fun i => selected - 1 - i

/-- The view a protocol is published under: the first protocols share the unnumbered one. -/
def viewOf (protocol : ℕ) : ℕ := max protocol admissionProtocol

lemma mem_tail_protocolVersions {selected protocol : ℕ} :
    protocol ∈ (protocolVersions selected).tail ↔
      protocol < selected ∧ admissionProtocol ≤ protocol := by
  simp only [protocolVersions, tail_cons, mem_map, mem_range]
  constructor
  · rintro ⟨i, hi, rfl⟩
    omega
  · rintro ⟨hlt, hle⟩
    exact ⟨selected - 1 - protocol, by omega, by omega⟩

namespace Snapshot

/-! ### What older protocols do not understand -/

/-- The scopes with a component on another transport than Mooncake. -/
def blockedScopes (snapshot : Snapshot) : List String :=
  (snapshot.pdComponents.filter (·.connector ≠ .mooncake)).map (·.pipelineScopeId)

/-- The blocked scopes are left out, with their components. -/
def withoutPDTransport (snapshot : Snapshot) : Snapshot :=
  { snapshot with
    pdComponents := snapshot.pdComponents.filter (·.pipelineScopeId ∉ snapshot.blockedScopes)
    pdPipelineScopes :=
      snapshot.pdPipelineScopes.filter (·.pipelineScopeId ∉ snapshot.blockedScopes) }

/-- The pipelines of the models are left out. -/
def withoutModelRouting (snapshot : Snapshot) : Snapshot :=
  { snapshot with models := snapshot.models.map fun model => { model with routerPipeline := none } }

/-- The split routes whose cache policy an admission-only application cannot enforce. -/
def blockedTargets (snapshot : Snapshot) : List RouteTargetId :=
  (snapshot.pdComponents.filter (·.prefixCacheIsolation ≠ none)).map (·.routeTargetId) ++
    (snapshot.epdComponents.filter (·.prefixCacheIsolation ≠ none)).map (·.routeTargetId)

end Snapshot

/-- The routes of a scope. -/
def PDPipelineScope.members (scope : PDPipelineScope) : List RouteTargetId :=
  scope.prefillRouteTargetIds ++ scope.decodeRouteTargetIds

/-- The routes of a scope. -/
def EPDPipelineScope.members (scope : EPDPipelineScope) : List RouteTargetId :=
  scope.encoderRouteTargetIds ++ scope.prefillRouteTargetIds ++ scope.decodeRouteTargetIds

/-- The routes that isolate prefix caches are left out. -/
def admissionOnlyServingSnapshot (snapshot : Snapshot) : Snapshot :=
  { snapshot with
    groups := snapshot.groups.filter (·.prefixCacheIsolation = none)
    pdComponents := snapshot.pdComponents.filter (·.prefixCacheIsolation = none)
    epdComponents := snapshot.epdComponents.filter (·.prefixCacheIsolation = none)
    pdPipelineScopes := snapshot.pdPipelineScopes.filter fun scope =>
      ∀ target ∈ scope.members, target ∉ snapshot.blockedTargets
    epdPipelineScopes := snapshot.epdPipelineScopes.filter fun scope =>
      ∀ target ∈ scope.members, target ∉ snapshot.blockedTargets }

/-- Only the settings and routes the selected application understands. -/
def servingSnapshotForProtocol (snapshot : Snapshot) (protocol : ℕ) : Snapshot :=
  let snapshot :=
    if protocol < pdTransportProtocol then snapshot.withoutPDTransport else snapshot
  let snapshot :=
    if protocol < modelRoutingProtocol then snapshot.withoutModelRouting else snapshot
  if protocol < cacheIsolationProtocol then admissionOnlyServingSnapshot snapshot else snapshot

/-! ### Views of views -/

lemma withoutPDTransport_eq_self {snapshot : Snapshot}
    (h : ∀ component ∈ snapshot.pdComponents, component.connector = .mooncake) :
    snapshot.withoutPDTransport = snapshot := by
  have hnone : snapshot.blockedScopes = [] := by
    rw [Snapshot.blockedScopes, map_eq_nil_iff, filter_eq_nil_iff]
    intro component hcomp
    simp [h component hcomp]
  simp [Snapshot.withoutPDTransport, hnone]

lemma connector_of_mem_withoutPDTransport {S : Snapshot} {k : PDComponent}
    (h : k ∈ S.withoutPDTransport.pdComponents) :
    k.connector = .mooncake := by
  obtain ⟨hmem, hscope⟩ := mem_filter.mp h
  by_contra hconn
  refine of_decide_eq_true hscope (mem_map.mpr ⟨k, ?_, rfl⟩)
  exact mem_filter.mpr ⟨hmem, by simpa using hconn⟩

lemma withoutModelRouting_eq_self {snapshot : Snapshot}
    (h : ∀ model ∈ snapshot.models, model.routerPipeline = none) :
    snapshot.withoutModelRouting = snapshot := by
  have hmap : (snapshot.models.map fun model => { model with routerPipeline := none }) =
      snapshot.models := by
    refine (map_congr_left fun model hmodel => ?_).trans (map_id _)
    rw [← h model hmodel]
    rfl
  rw [Snapshot.withoutModelRouting, hmap]

lemma admissionOnly_eq_self {snapshot : Snapshot}
    (hgrps : ∀ group ∈ snapshot.groups, group.prefixCacheIsolation = none)
    (hpd : ∀ component ∈ snapshot.pdComponents, component.prefixCacheIsolation = none)
    (hepd : ∀ component ∈ snapshot.epdComponents, component.prefixCacheIsolation = none) :
    admissionOnlyServingSnapshot snapshot = snapshot := by
  have hnone : snapshot.blockedTargets = [] := by
    rw [Snapshot.blockedTargets, append_eq_nil_iff, map_eq_nil_iff,
      map_eq_nil_iff, filter_eq_nil_iff, filter_eq_nil_iff]
    exact ⟨fun c hc => by simp [hpd c hc], fun c hc => by simp [hepd c hc]⟩
  have hself : ∀ {α : Type} (p : α → Option Bool) (l : List α), (∀ a ∈ l, p a = none) →
      l.filter (p · = none) = l :=
    fun p l h => filter_eq_self.mpr fun a ha => decide_eq_true (h a ha)
  simp only [admissionOnlyServingSnapshot, hnone, not_mem_nil, not_false_eq_true,
    implies_true, decide_true, filter_true, hself _ _ hgrps,
    hself (fun c : PDComponent => c.prefixCacheIsolation) _ hpd,
    hself (fun c : EPDComponent => c.prefixCacheIsolation) _ hepd]

lemma withoutPDTransport_idem (S : Snapshot) :
    S.withoutPDTransport.withoutPDTransport = S.withoutPDTransport :=
  withoutPDTransport_eq_self fun _ h => connector_of_mem_withoutPDTransport h

lemma withoutModelRouting_idem (S : Snapshot) :
    S.withoutModelRouting.withoutModelRouting = S.withoutModelRouting := by
  refine withoutModelRouting_eq_self fun m hmodel => ?_
  obtain ⟨old, -, rfl⟩ := mem_map.mp hmodel
  rfl

lemma admissionOnly_idem (snapshot : Snapshot) :
    admissionOnlyServingSnapshot (admissionOnlyServingSnapshot snapshot) =
      admissionOnlyServingSnapshot snapshot :=
  admissionOnly_eq_self (fun _ h => of_decide_eq_true (mem_filter.mp h).2)
    (fun _ h => of_decide_eq_true (mem_filter.mp h).2)
    (fun _ h => of_decide_eq_true (mem_filter.mp h).2)

lemma withoutPDTransport_withoutModelRouting (S : Snapshot) :
    S.withoutModelRouting.withoutPDTransport =
      S.withoutPDTransport.withoutModelRouting :=
  rfl

lemma withoutModelRouting_admissionOnly (S : Snapshot) :
    (admissionOnlyServingSnapshot S).withoutModelRouting =
      admissionOnlyServingSnapshot S.withoutModelRouting :=
  rfl

lemma withoutPDTransport_admissionOnly (S : Snapshot) :
    (admissionOnlyServingSnapshot S.withoutPDTransport).withoutPDTransport =
      admissionOnlyServingSnapshot S.withoutPDTransport :=
  withoutPDTransport_eq_self fun _ h =>
    connector_of_mem_withoutPDTransport (mem_filter.mp h).1

/-- The four kinds of views. -/
lemma servingSnapshotForProtocol_eq (p : ℕ) :
    (pdTransportProtocol ≤ p ∧ ∀ s, servingSnapshotForProtocol s p = s) ∨
    (p = modelRoutingProtocol ∧
      ∀ s, servingSnapshotForProtocol s p = s.withoutPDTransport) ∨
    (p = cacheIsolationProtocol ∧
      ∀ s, servingSnapshotForProtocol s p = s.withoutPDTransport.withoutModelRouting) ∨
    (p < cacheIsolationProtocol ∧ ∀ s, servingSnapshotForProtocol s p =
      admissionOnlyServingSnapshot s.withoutPDTransport.withoutModelRouting) := by
  rcases lt_trichotomy p cacheIsolationProtocol with h | rfl | h
  · refine .inr (.inr (.inr ⟨h, fun s => ?_⟩))
    have hrout : p < modelRoutingProtocol := h.trans (by decide)
    simp only [servingSnapshotForProtocol, if_pos h, if_pos hrout,
      if_pos (hrout.trans (by decide : modelRoutingProtocol < pdTransportProtocol))]
  · exact .inr (.inr (.inl ⟨rfl, fun s => rfl⟩))
  · rcases eq_or_lt_of_le (show modelRoutingProtocol ≤ p from h) with rfl | hrout
    · exact .inr (.inl ⟨rfl, fun s => rfl⟩)
    · refine .inl ⟨hrout, fun s => ?_⟩
      have htrans : ¬ p < pdTransportProtocol := Nat.not_lt.mpr hrout
      simp only [servingSnapshotForProtocol, if_neg h.not_gt, if_neg hrout.not_gt, if_neg htrans]

/-- **An older view of a view is the older view.** -/
theorem servingSnapshotForProtocol_trans {older newer : ℕ} (h : older ≤ newer)
    (S : Snapshot) :
    servingSnapshotForProtocol (servingSnapshotForProtocol S newer) older =
      servingSnapshotForProtocol S older := by
  -- each protocol removes what the one after it removes, and one thing more
  rcases servingSnapshotForProtocol_eq newer with ⟨-, hn⟩ | ⟨rfl, hn⟩ | ⟨rfl, hn⟩ | ⟨hlt, hn⟩
  · rw [hn]
  · rcases servingSnapshotForProtocol_eq older with ⟨ho, -⟩ | ⟨-, ho⟩ | ⟨-, ho⟩ | ⟨-, ho⟩
    · exact absurd (ho.trans h) (by decide)
    all_goals rw [hn, ho, ho, withoutPDTransport_idem]
  · rcases servingSnapshotForProtocol_eq older with ⟨ho, -⟩ | ⟨rfl, -⟩ | ⟨-, ho⟩ | ⟨-, ho⟩
    · exact absurd (ho.trans h) (by decide)
    · exact absurd h (by decide)
    all_goals
      rw [hn, ho, ho, withoutPDTransport_withoutModelRouting, withoutPDTransport_idem,
        withoutModelRouting_idem]
  · rcases servingSnapshotForProtocol_eq older with ⟨ho, -⟩ | ⟨rfl, -⟩ | ⟨rfl, -⟩ | ⟨-, ho⟩
    · exact absurd (ho.trans (h.trans hlt.le)) (by decide)
    · exact absurd (h.trans hlt.le) (by decide)
    · exact absurd hlt h.not_gt
    rw [hn, ho, ho, ← withoutPDTransport_withoutModelRouting S,
      withoutPDTransport_admissionOnly, withoutModelRouting_admissionOnly,
      withoutPDTransport_withoutModelRouting, withoutModelRouting_idem, admissionOnly_idem]

lemma servingSnapshotForProtocol_viewOf (snapshot : Snapshot) (protocol : ℕ) :
    servingSnapshotForProtocol snapshot (viewOf protocol) =
      servingSnapshotForProtocol snapshot protocol := by
  rcases le_total admissionProtocol protocol with h | h
  · rw [viewOf, max_eq_left h]
  · have hcache : protocol < cacheIsolationProtocol := Nat.lt_succ_of_le h
    have hrout : protocol < modelRoutingProtocol := hcache.trans (by decide)
    simp only [servingSnapshotForProtocol, viewOf, max_eq_right h, if_pos hcache, if_pos hrout,
      if_pos (hrout.trans (by decide : modelRoutingProtocol < pdTransportProtocol))]
    rfl

/-! ### Version and members -/

lemma servingSnapshotForProtocol_withVersion (snapshot : Snapshot) (version protocol : ℕ) :
    servingSnapshotForProtocol (snapshot.withVersion version) protocol =
      (servingSnapshotForProtocol snapshot protocol).withVersion version := by
  rcases servingSnapshotForProtocol_eq protocol with ⟨-, h⟩ | ⟨-, h⟩ | ⟨-, h⟩ | ⟨-, h⟩ <;>
    rw [h, h] <;> rfl

lemma servingSnapshotForProtocol_withMembers (S : Snapshot)
    (frontendInstances backendInstances : List String) (p : ℕ) :
    servingSnapshotForProtocol (S.withMembers frontendInstances backendInstances) p =
      (servingSnapshotForProtocol S p).withMembers frontendInstances
        backendInstances := by
  rcases servingSnapshotForProtocol_eq p with ⟨-, h⟩ | ⟨-, h⟩ | ⟨-, h⟩ | ⟨-, h⟩ <;>
    rw [h, h] <;> rfl

lemma Snapshot.SameConfiguration.forProtocol {a b : Snapshot} (h : a.SameConfiguration b)
    (p : ℕ) : (servingSnapshotForProtocol a p).SameConfiguration
      (servingSnapshotForProtocol b p) := by
  rw [sameConfiguration_iff] at h ⊢
  rw [← servingSnapshotForProtocol_withVersion, ← servingSnapshotForProtocol_withVersion, h]

end Foretoken.ServingConfig
