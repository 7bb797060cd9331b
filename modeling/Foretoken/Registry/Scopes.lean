import Foretoken.Registry.Readiness

/-!
The routes of an accepted snapshot by their topology.

An encoder scope resolves its members to components and compares them with a reference, so it is
complete and belongs to one service and model. A prefill/decode scope is only a list of declared
members: each of its routes is checked against that list, and a declared partner need not be there
nor be of the same service.
-/

namespace Foretoken.Registry

open List Foretoken.Router LeftOut SnapshotGroup

variable {z : SnapshotEpdPipelineScope} {admission : AdmissionMap}

/-- How the routes of a model work together. -/
inductive Topology where
  | aggregate
  | pd
  | epd
  deriving DecidableEq

/-- A route is that of a record of a topology, under the scope that lists it. -/
def ServingSnapshot.RouteOf (snapshot : ServingSnapshot) (route : RouteTarget) : Topology → Prop
  | .aggregate => ∃ group ∈ snapshot.groups, ∃ set, route = group.route .aggregate none set
  | .pd => ∃ component ∈ snapshot.pdComponents, ∃ set,
      route = component.route component.role (some component.pipelineScopeId) set
  | .epd => ∃ component ∈ snapshot.epdComponents, ∃ scope ∈ snapshot.epdPipelineScopes,
      (component.role, component.routeTargetId) ∈ scope.members ∧
        ∃ set, route = component.route component.role (some scope.pipelineScopeId) set

/-- **Complete scopes**: distinct route targets, one topology for a model, and in each scope that
a route refers to a route of every stage, all of one service and model. -/
structure ServingSnapshot.ScopesComplete (snapshot : ServingSnapshot) (routes : List RouteTarget) :
    Prop where
  distinct : (routes.map (·.routeTargetId)).Nodup
  topology : ∀ r ∈ routes, ∀ r' ∈ routes, ∀ t t', snapshot.RouteOf r t → snapshot.RouteOf r' t' →
    r.model = r'.model → t = t'
  stages : ∀ r ∈ routes, ∀ scope, r.pipelineScopeId = some scope → ∀ role,
    role = .prefill ∨ role = .decode ∨ role = .encoder ∧ snapshot.RouteOf r .epd →
    ∃ r' ∈ routes, r'.pipelineScopeId = some scope ∧ r'.role = role
  alike : ∀ r ∈ routes, ∀ r' ∈ routes, ∀ scope, r.pipelineScopeId = some scope →
    r'.pipelineScopeId = some scope →
    r'.target.serviceUid = r.target.serviceUid ∧ r'.model = r.model

/-- The records of each prefill/decode scope are of both stages and of one service and model, and
no encoder scope has its name. -/
def ServingSnapshot.PdPaired (snapshot : ServingSnapshot) : Prop :=
  ∀ c ∈ snapshot.pdComponents,
    (∀ role ∈ [ModelServerRole.prefill, .decode], ∃ k ∈ snapshot.pdComponents,
      k.pipelineScopeId = c.pipelineScopeId ∧ k.role = role) ∧
    (∀ k ∈ snapshot.pdComponents, k.pipelineScopeId = c.pipelineScopeId →
      k.serviceUid = c.serviceUid ∧ k.model = c.model) ∧
    ∀ z ∈ snapshot.epdPipelineScopes, z.pipelineScopeId ≠ c.pipelineScopeId

section Accepted

variable {validEndpoint : String → Bool} {snapshot : ServingSnapshot} {r r' : RouteTarget}
  {t t' : Topology}

section Epd

variable {components : List SnapshotEpdComponent} {scopes : List SnapshotEpdPipelineScope}
  {aggregateModels pdModels : List String}

section

variable (h : EpdWellFormed components scopes aggregateModels pdModels)
include h

/-- The members of a scope fit their roles, service and model. -/
lemma EpdWellFormed.fit (hz : z ∈ scopes) :
    ∃ serviceUid model, model ∉ aggregateModels ∧ model ∉ pdModels ∧ ∀ m ∈ z.members,
      m.2 ∈ components.map (·.routeTargetId) ∧ ∀ k ∈ components, k.routeTargetId = m.2 →
        k.role = m.1 ∧ k.serviceUid = serviceUid ∧ k.model = model := by
  obtain ⟨serviceUid, model, hagg, hpd, hfits⟩ := (h.fits z hz).members
  refine ⟨serviceUid, model, hagg, hpd, fun m hm => ?_⟩
  obtain ⟨k, hlook, hfit⟩ := hfits m hm
  obtain ⟨hk, hid⟩ := (lookup_epdIndex h.distinct).mp hlook
  refine ⟨hid ▸ mem_map_of_mem hk, fun k' hk' hid' => ?_⟩
  rwa [inj_on_of_nodup_map h.distinct hk' hk (hid'.trans hid.symm)]

lemma EpdWellFormed.scope {k : SnapshotEpdComponent} (hk : k ∈ components) :
    ∃ z ∈ scopes, (k.role, k.routeTargetId) ∈ z.members := by
  obtain ⟨z, hz, hid⟩ := mem_flatMap.mp (h.mem_ids hk)
  obtain ⟨m, hm, hid⟩ := mem_map.mp hid
  obtain ⟨_, _, -, -, hfits⟩ := h.fit hz
  refine ⟨z, hz, ?_⟩
  rwa [((hfits m hm).2 k hk hid.symm).1, ← hid]

lemma EpdWellFormed.lookup_assignments (hz : z ∈ scopes) {m : ModelServerRole × RouteTargetId}
    (hm : m ∈ z.members) : (epdAssignments scopes).lookup m.2 = some z.pipelineScopeId := by
  refine Table.lookup_inserts_of_mem ?_ (mem_flatMap.mpr ⟨z, hz, mem_map_of_mem hm⟩)
  rw [map_fst_assignments]
  exact h.memberIds

end

end Epd

lemma routeOf_pd {c : SnapshotPdComponent} (hc : c ∈ snapshot.pdComponents)
    {set : List ScalingTarget} :
    snapshot.RouteOf (c.route c.role (some c.pipelineScopeId) set) .pd :=
  ⟨c, hc, set, rfl⟩

/-- Each record of a prefill/decode scope has a route. -/
lemma exists_pd_route (admission : AdmissionMap) {c : SnapshotPdComponent}
    (hc : c ∈ snapshot.pdComponents) :
    ∃ set, c.route c.role (some c.pipelineScopeId) set ∈ snapshot.routes admission :=
  ⟨_, mem_append_left _ (mem_append_right _ (mem_map_of_mem hc))⟩

lemma ServingSnapshot.ScopesComplete.perm {routes routes' : List RouteTarget}
    (hcomplete : snapshot.ScopesComplete routes) (hperm : routes.Perm routes') :
    snapshot.ScopesComplete routes' where
  distinct := (hperm.map _).nodup_iff.mp hcomplete.distinct
  topology := by simpa only [hperm.mem_iff] using hcomplete.topology
  stages := by simpa only [hperm.mem_iff] using hcomplete.stages
  alike := by simpa only [hperm.mem_iff] using hcomplete.alike

section

variable (h : Accepted validEndpoint snapshot)
include h

lemma Accepted.topology_unique (hr : snapshot.RouteOf r t) (hr' : snapshot.RouteOf r' t')
    (hmodel : r.model = r'.model) :
    t = t' := by
  have hpd : ∀ c ∈ snapshot.pdComponents, c.model ∉ snapshot.groups.map (·.model) :=
    fun c hc => (h.pd c hc).model
  have hepd : ∀ c ∈ snapshot.epdComponents, c.model ∉ snapshot.groups.map (·.model) ∧
      c.model ∉ snapshot.pdComponents.map (·.model) := by
    intro c hc
    obtain ⟨z, hz, hm⟩ := h.epd.scope hc
    obtain ⟨_, _, hagg, hpd, hfits⟩ := h.epd.fit hz
    obtain ⟨-, -, rfl⟩ := (hfits _ hm).2 c hc rfl
    exact ⟨hagg, hpd⟩
  cases t <;> cases t' <;> grind [ServingSnapshot.RouteOf, route]

lemma Accepted.epd_entry {k : SnapshotEpdComponent} (hz : z ∈ snapshot.epdPipelineScopes)
    (hm : (k.role, k.routeTargetId) ∈ z.members) :
    k.route k.role (some z.pipelineScopeId) (k.admissionSet admission) =
      (k.entry admission (epdAssignments snapshot.epdPipelineScopes)).1 := by
  rw [SnapshotEpdComponent.entry, h.epd.lookup_assignments hz hm]
  rfl

lemma Accepted.exists_routeOf (hr : r ∈ snapshot.routes admission) : ∃ t, snapshot.RouteOf r t := by
  simp only [ServingSnapshot.routes, List.mem_append, List.mem_map] at hr
  rcases hr with (⟨g, hg, rfl⟩ | ⟨c, hc, rfl⟩) | ⟨c, hc, rfl⟩
  · exact ⟨.aggregate, g, hg, _, rfl⟩
  · exact ⟨.pd, c, hc, _, rfl⟩
  · obtain ⟨z, hz, hm⟩ := h.epd.scope hc
    exact ⟨.epd, c, hc, z, hz, hm, _, (h.epd_entry hz hm).symm⟩

/-- An encoder scope has a route in every role. -/
lemma Accepted.epd_complete (hz : z ∈ snapshot.epdPipelineScopes) {role : ModelServerRole}
    (hrole : role ≠ .aggregate) :
    ∃ r ∈ snapshot.routes admission, snapshot.RouteOf r .epd ∧ r.role = role ∧
      r.pipelineScopeId = some z.pipelineScopeId := by
  obtain ⟨id, hm⟩ : ∃ id, (role, id) ∈ z.members := by
    have hfits := h.epd.fits z hz
    have hencs := exists_mem_of_ne_nil _ hfits.encoders
    have hprefills := exists_mem_of_ne_nil _ hfits.prefills
    have hdecodes := exists_mem_of_ne_nil _ hfits.decodes
    cases role <;> simp_all [SnapshotEpdPipelineScope.members]
  obtain ⟨_, _, -, -, hfits⟩ := h.epd.fit hz
  obtain ⟨hid, hfit⟩ := hfits _ hm
  obtain ⟨k, hk, rfl⟩ := mem_map.mp hid
  obtain ⟨rfl, -, -⟩ := hfit k hk rfl
  refine ⟨_, mem_append_right _ (mem_map_of_mem hk), ?_⟩
  rw [← h.epd_entry hz hm]
  exact ⟨⟨k, hk, z, hz, hm, _, rfl⟩, rfl, rfl⟩

/-- The routes of an encoder scope are of one service and model. -/
lemma Accepted.epd_local (hr : snapshot.RouteOf r .epd) (hr' : snapshot.RouteOf r' .epd)
    (hscope : r'.pipelineScopeId = r.pipelineScopeId) :
    r'.target.serviceUid = r.target.serviceUid ∧ r'.model = r.model := by
  obtain ⟨k, hk, z, hz, hm, set, rfl⟩ := hr
  obtain ⟨k', hk', z', hz', hm', set', rfl⟩ := hr'
  obtain rfl := inj_on_of_nodup_map h.epd.scopeIds hz' hz (Option.some.inj hscope)
  obtain ⟨_, _, -, -, hfits⟩ := h.epd.fit hz
  obtain ⟨-, hservice, hmodel⟩ := (hfits _ hm).2 k hk rfl
  obtain ⟨-, hservice', hmodel'⟩ := (hfits _ hm').2 k' hk' rfl
  exact ⟨hservice'.trans hservice.symm, hmodel'.trans hmodel.symm⟩

lemma Accepted.nodup_routes : ((snapshot.routes admission).map (·.routeTargetId)).Nodup := by
  have hids : (snapshot.routes admission).map (·.routeTargetId) =
      snapshot.routeRecords.map (·.routeTargetId) := by
    simp only [ServingSnapshot.routes, ServingSnapshot.routeRecords, List.map_append, List.map_map]
    rfl
  rw [hids]
  exact h.distinct

/-- A route of a scope is a P/D or an E/P/D one. -/
lemma Accepted.scope_cases {scope : String} (hr : r ∈ snapshot.routes admission)
    (hscope : r.pipelineScopeId = some scope) :
    (∃ c ∈ snapshot.pdComponents, c.pipelineScopeId = scope ∧
      ∃ set, r = c.route c.role (some c.pipelineScopeId) set) ∨
    snapshot.RouteOf r .epd ∧ ∃ z ∈ snapshot.epdPipelineScopes, z.pipelineScopeId = scope := by
  obtain ⟨t, ht⟩ := h.exists_routeOf hr
  cases t with
  | aggregate =>
    obtain ⟨g, -, set, rfl⟩ := ht
    cases hscope
  | pd =>
    obtain ⟨c, hc, set, rfl⟩ := ht
    exact .inl ⟨c, hc, Option.some.inj hscope, set, rfl⟩
  | epd =>
    refine .inr ⟨ht, ?_⟩
    obtain ⟨_, -, z, hz, -, set, rfl⟩ := ht
    exact ⟨z, hz, Option.some.inj hscope⟩

/-- No P/D route is without its partner. -/
lemma Accepted.pdPaired (hcomplete : snapshot.ScopesComplete (snapshot.routes admission)) :
    snapshot.PdPaired := by
  intro c hc
  obtain ⟨set, hroute⟩ := exists_pd_route admission hc
  refine ⟨fun role hrole => ?_, fun k hk hscope => ?_, fun z hz hscope => ?_⟩
  · have hstage : role = .prefill ∨ role = .decode := by simpa using hrole
    obtain ⟨r, hr, hscope, rfl⟩ :=
      hcomplete.stages _ hroute _ rfl role (hstage.imp_right .inl)
    obtain ⟨-, hmodel⟩ := hcomplete.alike _ hroute _ hr _ rfl hscope
    rcases h.scope_cases hr hscope with ⟨k, hk, -, set', rfl⟩ | ⟨hepd, -⟩
    · exact ⟨k, hk, Option.some.inj hscope, rfl⟩
    · cases h.topology_unique hepd (routeOf_pd hc) hmodel
  · obtain ⟨set', hroute'⟩ := exists_pd_route admission hk
    exact hcomplete.alike _ hroute _ hroute' _ rfl (congrArg some hscope)
  · obtain ⟨r, hr, hepd, -, hscope'⟩ : ∃ r ∈ snapshot.routes admission, _ :=
      h.epd_complete hz (show ModelServerRole.encoder ≠ .aggregate by decide)
    obtain ⟨-, hmodel⟩ := hcomplete.alike _ hroute _ hr _ rfl (hscope'.trans (congrArg some hscope))
    cases h.topology_unique hepd (routeOf_pd hc) hmodel

lemma Accepted.scopesComplete (hpaired : snapshot.PdPaired) :
    snapshot.ScopesComplete (snapshot.routes admission) where
  distinct := h.nodup_routes
  topology _ _ _ _ _ _ := h.topology_unique
  stages r hr scope hscope role hrole := by
    rcases h.scope_cases hr hscope with ⟨c, hc, rfl, set, rfl⟩ | ⟨hepd, z, hz, rfl⟩
    · have hpd : role ∈ [ModelServerRole.prefill, .decode] := by
        rcases hrole with rfl | rfl | ⟨-, hepd⟩
        · simp
        · simp
        · cases h.topology_unique hepd (routeOf_pd hc) rfl
      obtain ⟨k, hk, hscope, rfl⟩ := (hpaired c hc).1 role hpd
      obtain ⟨set', hroute⟩ := exists_pd_route admission hk
      exact ⟨_, hroute, congrArg some hscope, rfl⟩
    · have hrole : role ≠ .aggregate := by
        rintro rfl
        simp at hrole
      obtain ⟨r', hr', -, hrole, hscope⟩ := h.epd_complete hz hrole
      exact ⟨r', hr', hscope, hrole⟩
  alike r hr r' hr' scope hscope hscope' := by
    rcases h.scope_cases hr hscope with ⟨c, hc, rfl, set, rfl⟩ | ⟨hepd, z, hz, hid⟩ <;>
      rcases h.scope_cases hr' hscope' with ⟨k, hk, hid', set', rfl⟩ | ⟨hepd', z', hz', hid'⟩
    · exact (hpaired c hc).2.1 k hk hid'
    · exact absurd hid' ((hpaired c hc).2.2 z' hz')
    · exact absurd (hid.trans hid'.symm) ((hpaired k hk).2.2 z hz)
    · exact h.epd_local hepd hepd' (hscope'.trans hscope.symm)

end

end Accepted

/-- **Scopes are complete and local exactly when the prefill/decode records are paired**; the
projection checks that of the encoder scopes only. -/
theorem scopesComplete_iff_pdPaired {validEndpoint : String → Bool} {snapshot : ServingSnapshot}
    {table : ModelRouteTable} {components : Table RouteTargetId Component}
    (h : projectRegistry validEndpoint snapshot = .ok (table, components)) :
    snapshot.ScopesComplete table.routes ↔ snapshot.PdPaired := by
  obtain ⟨hacc, admission, rfl⟩ := accepted_of_projectRegistry h
  have hperm : (ModelRouteTable.new (snapshot.routes admission)).routes.Perm
      (snapshot.routes admission) := perm_insertionSort _ _
  constructor
  · intro hcomplete
    exact hacc.pdPaired (hcomplete.perm hperm)
  · intro hpaired
    exact (hacc.scopesComplete hpaired).perm hperm.symm

namespace Paired

/-- The service with encoders, and a service with one prefill and one decode backend. -/
def snapshot : ServingSnapshot :=
  { LeftOut.snapshot with
    models := LeftOut.snapshot.models ++ LeftOut.snapshot.models.map fun model =>
      { model with
        serviceUid := "t", model := "n"
        admissionTargetSets := [[{ LeftOut.pool "q" with serviceUid := "t" }]] }
    pdComponents := [.prefill, .decode].map fun role =>
      ⟨{ (LeftOut.stage (if role = .prefill then "4" else "5") "q" role none).toSnapshotGroup with
        serviceUid := "t", model := "n" }, role, "pd", .nixl, "tcp", none⟩
    pdPipelineScopes := [⟨"pd", ["4"], ["5"]⟩] }

end Paired

/-- Both services are accepted, with complete scopes. -/
theorem scopesComplete_of_paired : ∃ table components,
    projectRegistry (fun _ => true) Paired.snapshot = .ok (table, components) ∧
    table.routes.length = 5 ∧ Paired.snapshot.ScopesComplete table.routes := by
  obtain ⟨⟨table, components⟩, h⟩ : ∃ out, projectRegistry (fun _ => true) Paired.snapshot =
    .ok out := ⟨_, rfl⟩
  have hpaired : Paired.snapshot.PdPaired := by
    unfold ServingSnapshot.PdPaired
    decide
  refine ⟨table, components, h, ?_, (scopesComplete_iff_pdPaired h).mpr hpaired⟩
  cases h
  decide

namespace Unpaired

/-- A prefill route of a scope whose decode member is only declared, and one of another service
and model in the same scope. -/
def snapshot : ServingSnapshot where
  routerPipeline := LeftOut.snapshot.routerPipeline
  version := 1
  models := LeftOut.snapshot.models ++ LeftOut.snapshot.models.map fun model =>
    { model with
      serviceUid := "t", model := "n"
      admissionTargetSets := [[{ LeftOut.pool "q" with serviceUid := "t" }]] }
  groups := []
  pdComponents := [⟨(LeftOut.stage "2" "p" .prefill none).toSnapshotGroup, .prefill, "scope",
      .nixl, "tcp", none⟩,
    ⟨{ (LeftOut.stage "4" "q" .prefill none).toSnapshotGroup with
      serviceUid := "t", model := "n" }, .prefill, "scope", .nixl, "tcp", none⟩]
  pdPipelineScopes := [⟨"scope", ["2", "4"], ["3"]⟩]
  epdComponents := []
  epdPipelineScopes := []

end Unpaired

/-- A scope with prefill routes of two services and no decode route is accepted. -/
theorem unpaired_prefill_accepted : ∃ table components,
    projectRegistry (fun _ => true) Unpaired.snapshot = .ok (table, components) ∧
    table.routes.map (·.pipelineScopeId) = [some "scope", some "scope"] ∧
    table.routes.map (·.role) = [.prefill, .prefill] ∧
    table.routes.map (·.target.serviceUid) = ["s", "t"] ∧
    table.routes.map (·.model) = ["m", "n"] ∧
    ¬ Unpaired.snapshot.ScopesComplete table.routes := by
  refine ⟨_, _, rfl, by decide, by decide, by decide, by decide, fun hcomplete => ?_⟩
  obtain ⟨r, hr, -, hrole⟩ := hcomplete.stages _ (.head _) "scope" rfl .decode (.inr (.inl rfl))
  revert r
  decide

end Foretoken.Registry
