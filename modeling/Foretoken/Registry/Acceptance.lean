import Foretoken.Registry.Projection

/-!
Which snapshots the frontend accepts: `Accepted` lists, without the order of the loops, what a
snapshot must satisfy.
-/

namespace Foretoken.Registry

open List Option ServingSnapshot SnapshotEpdPipelineScope SnapshotEpdComponent AList Table EpdScopes
  Foretoken.Router

variable {component : SnapshotEpdComponent} {snapshot : ServingSnapshot}
  {projection projection' : Projection} {id : RouteTargetId}
  {entries : List (RouteTarget × Component)} {validEndpoint : String → Bool}
  {admission : AdmissionMap} {aggregateModels : List String}
  {byId : Table RouteTargetId SnapshotEpdComponent} {scopes : List SnapshotEpdPipelineScope}

/-! ### Emitting -/

namespace Projection

/-- A route target has been emitted. -/
def Has (projection : Projection) (id : RouteTargetId) : Prop :=
  (projection.components.lookup id).isSome = true

/-- Routes are added with their components. -/
def pushAll (projection : Projection) (entries : List (RouteTarget × Component)) : Projection :=
  entries.foldl (fun projection entry => projection.push entry.1 entry.2) projection

lemma has_push {r : RouteTarget} {k : Component} :
    (projection.push r k).Has id ↔ id = r.routeTargetId ∨ projection.Has id := by
  rw [Has, push, lookup_insert_eq, Has]
  by_cases hid : id = r.routeTargetId <;> simp [hid]

lemma routes_pushAll :
    (projection.pushAll entries).routes = projection.routes ++ entries.map Prod.fst := by
  induction entries generalizing projection with
  | nil => simp [pushAll]
  | cons e entries ih =>
    rw [pushAll, foldl_cons, ← pushAll, ih, push, append_assoc]
    rfl

lemma has_pushAll :
    (projection.pushAll entries).Has id ↔
      id ∈ entries.map (·.1.routeTargetId) ∨ projection.Has id := by
  induction entries generalizing projection with
  | nil => simp [pushAll]
  | cons e entries ih =>
    rw [pushAll, foldl_cons, ← pushAll, ih, has_push, map_cons, mem_cons]
    tauto

lemma models_pushAll :
    (projection.pushAll entries).models = projection.models ++ entries.map (·.1.model) := by
  induction entries generalizing projection with
  | nil => simp [pushAll]
  | cons e entries ih =>
    rw [pushAll, foldl_cons, ← pushAll, ih, push, append_assoc]
    rfl

/-- **A loop that emits**: it succeeds exactly on good records with distinct new route targets. -/
theorem foldlM_push {α : Type*} {step : Projection → α → Except SnapshotError Projection}
    {good : α → Prop} {e : α → RouteTarget × Component}
    (h : ∀ projection x projection', step projection x = .ok projection' ↔
      (good x ∧ ¬ projection.Has (e x).1.routeTargetId) ∧
        projection.push (e x).1 (e x).2 = projection') {rs : List α} :
    rs.foldlM step projection = .ok projection' ↔
      ((∀ x ∈ rs, good x) ∧ (rs.map fun x => (e x).1.routeTargetId).Nodup ∧
        ∀ x ∈ rs, ¬ projection.Has (e x).1.routeTargetId) ∧
      projection.pushAll (rs.map e) = projection' := by
  have hpush : ∀ (projection : Projection) (x : α) (id : RouteTargetId),
      (projection.push (e x).1 (e x).2).Has id ↔
        id = (e x).1.routeTargetId ∨ projection.Has id := fun _ _ _ => has_push
  rw [foldlM_eq_ok_iff h, passes_and, passes_iff_forall, passes_iff_distinct hpush, pushAll,
    List.foldl_map, List.forall_mem_map]

end Projection

/-- The admission set a route is given. -/
def SnapshotGroup.admissionSet (group : SnapshotGroup) (admission : AdmissionMap) :
    List ScalingTarget :=
  (admission.lookup group.poolTarget).getD []

/-- The pool of a route has an admission set. -/
def SnapshotGroup.Admitted (group : SnapshotGroup) (admission : AdmissionMap) : Prop :=
  (admission.lookup group.poolTarget).isSome = true

/-! ### Aggregate routes -/

/-- What an aggregate route is projected to. -/
def SnapshotGroup.entry (admission : AdmissionMap) (group : SnapshotGroup) :
    RouteTarget × Component :=
  (group.route .aggregate none (group.admissionSet admission), .aggregate group.endpoint)

lemma addGroup_eq_ok (projection : Projection) (g : SnapshotGroup) (projection' : Projection) :
    addGroup validEndpoint admission projection g = .ok projection' ↔
      ((g.Complete ∧ validEndpoint g.endpoint = true ∧ g.Admitted admission) ∧
        ¬ projection.Has (g.entry admission).1.routeTargetId) ∧
      projection.push (g.entry admission).1 (g.entry admission).2 = projection' := by
  simp only [addGroup, guard_eq_ok_iff, bind_eq_ok_iff, orError_eq_ok_iff, admissionTargets,
    Except.ok.injEq]
  constructor
  · rintro ⟨hcomp, hvalid, hhas, set, hset, rfl⟩
    refine ⟨⟨⟨not_not.mp hcomp, by simpa using hvalid, isSome_of_eq_some hset⟩, hhas⟩, ?_⟩
    rw [SnapshotGroup.entry, SnapshotGroup.admissionSet, hset]
    rfl
  · rintro ⟨⟨⟨hcomp, hvalid, hset⟩, hhas⟩, rfl⟩
    obtain ⟨set, hset⟩ := isSome_iff_exists.mp hset
    refine ⟨not_not.mpr hcomp, by simpa using hvalid, hhas, set, hset, ?_⟩
    rw [SnapshotGroup.entry, SnapshotGroup.admissionSet, hset]
    rfl

theorem projectAggregate_ok_iff {gs : List SnapshotGroup} :
    projectAggregate validEndpoint admission gs = .ok projection ↔
      ((∀ g ∈ gs, g.Complete ∧ validEndpoint g.endpoint = true ∧
          g.Admitted admission) ∧ (gs.map (·.routeTargetId)).Nodup) ∧
        Projection.pushAll ⟨[], ∅, []⟩ (gs.map (·.entry admission)) = projection := by
  rw [projectAggregate, Projection.foldlM_push addGroup_eq_ok]
  refine and_congr_left fun _ => and_congr_right fun _ => and_iff_left fun _ _ hhas => ?_
  cases hhas

/-! ### Prefill and decode routes -/

/-- What a prefill or decode route must satisfy beyond its admission. -/
structure SnapshotPdComponent.WellFormed (component : SnapshotPdComponent)
    (members : Table String (List RouteTargetId × List RouteTargetId))
    (aggregateModels : List String) : Prop where
  complete : component.toSnapshotGroup.Complete
  scope : component.pipelineScopeId ≠ ""
  protocol : component.protocol = "rdma" ∨ component.protocol = "tcp"
  role : component.role = .prefill ∨ component.role = .decode
  model : component.model ∉ aggregateModels
  bootstrap : component.role = .prefill → component.connector = .mooncake →
    component.prefillBootstrapEndpoint ≠ none
  member : ∃ member, members.lookup component.pipelineScopeId = some member ∧
    component.memberOf member = true

/-- What a prefill or decode route is projected to. -/
def SnapshotPdComponent.entry (admission : AdmissionMap) (component : SnapshotPdComponent) :
    RouteTarget × Component :=
  (component.route component.role (some component.pipelineScopeId)
      (component.admissionSet admission),
    component.component.getD (.aggregate component.endpoint))

lemma SnapshotPdComponent.isSome_component {k : SnapshotPdComponent} :
    k.component.isSome = true ↔ k.role = .prefill ∨ k.role = .decode := by
  rw [SnapshotPdComponent.component]
  cases k.role <;> simp

lemma addPdComponent_eq_ok {ms : Table String (List RouteTargetId × List RouteTargetId)}
    (projection : Projection) (k : SnapshotPdComponent) (projection' : Projection) :
    addPdComponent ms aggregateModels admission projection k = .ok projection' ↔
      ((k.WellFormed ms aggregateModels ∧
          k.toSnapshotGroup.Admitted admission) ∧
        ¬ projection.Has (k.entry admission).1.routeTargetId) ∧
      projection.push (k.entry admission).1 (k.entry admission).2 =
        projection' := by
  simp only [addPdComponent, guard_eq_ok_iff, bind_eq_ok_iff, orError_eq_ok_iff, admissionTargets,
    Except.ok.injEq]
  constructor
  · rintro ⟨hcomp, hprot, hmixed, hboot, m, hmember, hlisted, set, hset, e,
      hcpt, hhas, rfl⟩
    rw [not_or, not_not] at hcomp
    have hrole := SnapshotPdComponent.isSome_component.mp (isSome_of_eq_some hcpt)
    refine ⟨⟨⟨⟨hcomp.1, hcomp.2, not_not.mp hprot, hrole, (not_or.mp hmixed).2,
      fun hp hm hn => hboot ⟨hp, hm, hn⟩, m, hmember, by simpa using hlisted⟩,
      isSome_of_eq_some hset⟩, hhas⟩, ?_⟩
    rw [SnapshotPdComponent.entry, SnapshotGroup.admissionSet, hset, hcpt]
    rfl
  · rintro ⟨⟨⟨hwell, hset⟩, hhas⟩, rfl⟩
    obtain ⟨m, hmember, hlisted⟩ := hwell.member
    obtain ⟨set, hset⟩ := isSome_iff_exists.mp hset
    obtain ⟨e, hcpt⟩ := isSome_iff_exists.mp
      (SnapshotPdComponent.isSome_component.mpr hwell.role)
    have hrole : k.role ≠ .aggregate := by
      rcases hwell.role with h | h <;> rw [h] <;> decide
    refine ⟨not_or.mpr ⟨not_not.mpr hwell.complete, hwell.scope⟩, not_not.mpr hwell.protocol,
      not_or.mpr ⟨hrole, hwell.model⟩, fun h => hwell.bootstrap h.1 h.2.1 h.2.2, m, hmember,
      by simpa using hlisted, set, hset, e, hcpt, hhas, ?_⟩
    rw [SnapshotPdComponent.entry, SnapshotGroup.admissionSet, hset, hcpt]
    rfl

/-- Every scope has a prefill and a decode member. -/
def ScopesFilled (members : Table String (List RouteTargetId × List RouteTargetId)) : Prop :=
  ∀ scope member, members.lookup scope = some member → member.1 ≠ [] ∧ member.2 ≠ []

lemma find_unfilled_eq_none {members : Table String (List RouteTargetId × List RouteTargetId)} :
    (members.toList.find? fun scope => scope.2.1.isEmpty || scope.2.2.isEmpty) = none ↔
      ScopesFilled members := by
  rw [find?_eq_none]
  constructor
  · intro h scope member hlook
    have hfill := h (scope, member) (mem_toList.mpr hlook)
    rwa [Bool.or_eq_true, not_or, List.isEmpty_iff, List.isEmpty_iff] at hfill
  · rintro h ⟨scope, member⟩ hmem
    rw [Bool.or_eq_true, not_or, List.isEmpty_iff, List.isEmpty_iff]
    exact h scope member (mem_toList.mp hmem)

theorem projectPd_ok_iff {components : List SnapshotPdComponent}
    {scopes : List SnapshotPdPipelineScope} :
    projectPd components scopes aggregateModels admission projection = .ok projection' ↔
      ((∀ k ∈ components,
            k.WellFormed (pipelineScopeMembers scopes) aggregateModels ∧
              k.toSnapshotGroup.Admitted admission) ∧
          (components.map (·.routeTargetId)).Nodup ∧
          ∀ k ∈ components, ¬ projection.Has k.routeTargetId) ∧
        ScopesFilled (pipelineScopeMembers scopes) ∧
        Projection.pushAll { projection with models := [] } (components.map (·.entry admission)) =
          projection' := by
  simp only [projectPd, bind_eq_ok_iff, Projection.foldlM_push addPdComponent_eq_ok]
  constructor
  · rintro ⟨emitted, ⟨hcomps, rfl⟩, hfill⟩
    split at hfill
    · cases hfill
    · rename_i hnone
      exact ⟨hcomps, find_unfilled_eq_none.mp hnone, Except.ok.inj hfill⟩
  · rintro ⟨hcomps, hfill, rfl⟩
    refine ⟨_, ⟨hcomps, rfl⟩, ?_⟩
    rw [find_unfilled_eq_none.mpr hfill]

/-! ### Encoder, prefill and decode routes -/

lemma addEpdComponent_eq_ok (byId : Table RouteTargetId SnapshotEpdComponent)
    (k : SnapshotEpdComponent) (byId' : Table RouteTargetId SnapshotEpdComponent) :
    addEpdComponent byId k = .ok byId' ↔
      (k.toSnapshotGroup.Complete ∧ ¬ k.routeTargetId ∈ byId) ∧
        byId.insert k.routeTargetId k = byId' := by
  rw [addEpdComponent, guard_eq_ok_iff, guard_eq_ok_iff, not_not, lookup_isSome,
    Except.ok.injEq, and_assoc]

/-- The components under their route targets. -/
def epdIndex (components : List SnapshotEpdComponent) : Table RouteTargetId SnapshotEpdComponent :=
  components.foldl (fun byId component => byId.insert component.routeTargetId component) ∅

lemma epdIndex_ok_iff {components : List SnapshotEpdComponent} :
    components.foldlM addEpdComponent ∅ = .ok byId ↔
      ((∀ k ∈ components, k.toSnapshotGroup.Complete) ∧
        (components.map (·.routeTargetId)).Nodup) ∧ epdIndex components = byId := by
  have hinsert : ∀ (byId : Table RouteTargetId SnapshotEpdComponent)
      (k : SnapshotEpdComponent) (id : RouteTargetId),
      id ∈ byId.insert k.routeTargetId k ↔
        id = k.routeTargetId ∨ id ∈ byId := fun byId _ _ => mem_insert byId
  rw [foldlM_eq_ok_iff addEpdComponent_eq_ok, passes_and, passes_iff_forall,
    passes_iff_distinct hinsert, epdIndex]
  simp

section EpdIndex

variable {components : List SnapshotEpdComponent}

lemma epdIndex_eq_inserts :
    epdIndex components = (components.map fun c => (c.routeTargetId, c)).foldl
      (fun (t : Table RouteTargetId SnapshotEpdComponent) e => t.insert e.1 e.2) ∅ := by
  rw [epdIndex, foldl_map]

lemma lookup_epdIndex (h : (components.map (·.routeTargetId)).Nodup)
    {k : SnapshotEpdComponent} :
    (epdIndex components).lookup id = some k ↔
      k ∈ components ∧ k.routeTargetId = id := by
  rw [epdIndex_eq_inserts]
  constructor
  · intro hlook
    rcases mem_of_lookup_inserts hlook with hmem | hmem
    · obtain ⟨c, hc, heq⟩ := mem_map.mp hmem
      obtain ⟨rfl, rfl⟩ := Prod.mk.inj heq
      exact ⟨hc, rfl⟩
    · cases hmem
  · rintro ⟨hmem, rfl⟩
    refine lookup_inserts_of_mem ?_ (mem_map_of_mem hmem)
    rwa [List.map_map]

lemma length_epdIndex (h : (components.map (·.routeTargetId)).Nodup) :
    (epdIndex components).keys.length = components.length := by
  rw [epdIndex_eq_inserts, length_keys_inserts, length_map]
  · rfl
  · rwa [List.map_map]
  · exact fun _ _ => notMem_empty _

end EpdIndex

/-- The component listed under a role belongs to the service and model of its scope. -/
def MemberFits (byId : Table RouteTargetId SnapshotEpdComponent) (serviceUid model : String)
    (member : ModelServerRole × RouteTargetId) : Prop :=
  ∃ component, byId.lookup member.2 = some component ∧ component.role = member.1 ∧
    component.serviceUid = serviceUid ∧ component.model = model

lemma addEpdMember_eq_ok {reference : SnapshotEpdComponent} {pipelineScopeId : String}
    (scopes : Table RouteTargetId String) (m : ModelServerRole × RouteTargetId)
    (scopes' : Table RouteTargetId String) :
    addEpdMember byId reference pipelineScopeId scopes m = .ok scopes' ↔
      (MemberFits byId reference.serviceUid reference.model m ∧ ¬ m.2 ∈ scopes) ∧
        scopes.insert m.2 pipelineScopeId = scopes' := by
  simp only [addEpdMember, bind_eq_ok_iff, orError_eq_ok_iff, guard_eq_ok_iff, Except.ok.injEq,
    MemberFits, lookup_isSome]
  constructor
  · rintro ⟨k, hlook, hfits, rfl⟩
    simp only [not_or, not_not] at hfits
    exact ⟨⟨⟨k, hlook, hfits.2⟩, hfits.1⟩, rfl⟩
  · rintro ⟨⟨⟨k, hlook, hfits⟩, hnew⟩, rfl⟩
    refine ⟨k, hlook, ?_, rfl⟩
    simp only [not_or, not_not]
    exact ⟨hnew, hfits⟩

/-- The members of a scope with the scope. -/
def SnapshotEpdPipelineScope.assignments (scope : SnapshotEpdPipelineScope) :
    List (RouteTargetId × String) :=
  scope.members.map fun member => (member.2, scope.pipelineScopeId)

/-- The route targets a scope lists. -/
def SnapshotEpdPipelineScope.memberIds (scope : SnapshotEpdPipelineScope) : List RouteTargetId :=
  scope.members.map Prod.snd

/-- Enter the members of a scope. -/
def EpdScopes.assign (scopes : EpdScopes) (scope : SnapshotEpdPipelineScope) : EpdScopes where
  ids := scope.pipelineScopeId :: scopes.ids
  byRouteTarget := scope.assignments.foldl (fun t entry => t.insert entry.1 entry.2)
    scopes.byRouteTarget

/-- What a scope must satisfy apart from its name and members being new. -/
structure SnapshotEpdPipelineScope.Fits (scope : SnapshotEpdPipelineScope)
    (byId : Table RouteTargetId SnapshotEpdComponent) (aggregateModels pdModels : List String) :
    Prop where
  name : scope.pipelineScopeId ≠ ""
  encoders : scope.encoderRouteTargetIds ≠ []
  prefills : scope.prefillRouteTargetIds ≠ []
  decodes : scope.decodeRouteTargetIds ≠ []
  members : ∃ serviceUid model, model ∉ aggregateModels ∧ model ∉ pdModels ∧
    ∀ member ∈ scope.members, MemberFits byId serviceUid model member

lemma foldlM_addEpdMember {reference : SnapshotEpdComponent} {z : SnapshotEpdPipelineScope}
    {scopes scopes' : Table RouteTargetId String} :
    z.members.foldlM (addEpdMember byId reference z.pipelineScopeId) scopes = .ok scopes' ↔
      ((∀ m ∈ z.members, MemberFits byId reference.serviceUid reference.model m) ∧
        z.memberIds.Nodup ∧ ∀ id ∈ z.memberIds, ¬ id ∈ scopes) ∧
      z.assignments.foldl (fun t e => t.insert e.1 e.2) scopes = scopes' := by
  have hinsert : ∀ (scopes : Table RouteTargetId String)
      (m : ModelServerRole × RouteTargetId) (id : RouteTargetId),
      id ∈ scopes.insert m.2 z.pipelineScopeId ↔ id = m.2 ∨ id ∈ scopes :=
    fun scopes _ _ => mem_insert scopes
  rw [foldlM_eq_ok_iff addEpdMember_eq_ok, passes_and, passes_iff_forall,
    passes_iff_distinct hinsert, assignments, foldl_map,
    memberIds]

lemma addEpdScope_eq_ok {pdModels : List String} (scopes : EpdScopes)
    (z : SnapshotEpdPipelineScope) (scopes' : EpdScopes) :
    addEpdScope byId aggregateModels pdModels scopes z = .ok scopes' ↔
      (z.Fits byId aggregateModels pdModels ∧ ¬ z.pipelineScopeId ∈ scopes.ids ∧
        z.memberIds.Nodup ∧ ∀ id ∈ z.memberIds, ¬ id ∈ scopes.byRouteTarget) ∧
      scopes.assign z = scopes' := by
  simp only [addEpdScope, guard_eq_ok_iff, bind_eq_ok_iff, orError_eq_ok_iff, foldlM_addEpdMember,
    Except.ok.injEq, not_or]
  constructor
  · rintro ⟨⟨hname, hencs, hprefills, hdecodes, hnew⟩, reference, href, byRouteTarget,
      ⟨⟨hfits, hmems⟩, rfl⟩, hmodels, rfl⟩
    exact ⟨⟨⟨hname, hencs, hprefills, hdecodes, reference.serviceUid, reference.model,
      hmodels.1, hmodels.2, hfits⟩, hnew, hmems⟩, rfl⟩
  · rintro ⟨⟨⟨hname, hencs, hprefills, hdecodes, serviceUid, model, hagg, hpd, hfits⟩, hnew,
      hmems⟩, rfl⟩
    -- the first encoder is a member, so it has the service and model of the scope
    obtain ⟨head, tail, hhead⟩ := exists_cons_of_ne_nil hencs
    have hmem : (ModelServerRole.encoder, head) ∈ z.members := by
      rw [members, hhead]
      simp
    obtain ⟨reference, href, -, rfl, rfl⟩ := hfits _ hmem
    refine ⟨⟨hname, hencs, hprefills, hdecodes, hnew⟩, reference, ?_, _,
      ⟨⟨hfits, hmems⟩, rfl⟩, ⟨hagg, hpd⟩, rfl⟩
    rwa [hhead]

/-- The route targets all scopes list. -/
def epdMemberIds (scopes : List SnapshotEpdPipelineScope) : List RouteTargetId :=
  scopes.flatMap (·.memberIds)

/-- The scope of each member. -/
def epdAssignments (scopes : List SnapshotEpdPipelineScope) : Table RouteTargetId String :=
  (scopes.flatMap (·.assignments)).foldl (fun t entry => t.insert entry.1 entry.2) ∅

lemma map_fst_assignments :
    (scopes.flatMap (·.assignments)).map Prod.fst = epdMemberIds scopes := by
  simp only [epdMemberIds, List.map_flatMap, assignments,
    memberIds, List.map_map, Function.comp_def]

lemma byRouteTarget_foldl_assign {s : EpdScopes} :
    (scopes.foldl assign s).byRouteTarget =
      (scopes.flatMap (·.assignments)).foldl (fun t e => t.insert e.1 e.2)
        s.byRouteTarget := by
  induction scopes generalizing s with
  | nil => rfl
  | cons z scopes ih =>
    rw [foldl_cons, ih, flatMap_cons, foldl_append]
    rfl

lemma mem_assign {scopes : EpdScopes} {z : SnapshotEpdPipelineScope} :
    id ∈ (scopes.assign z).byRouteTarget ↔ id ∈ z.memberIds ∨ id ∈ scopes.byRouteTarget := by
  have hids : z.memberIds = z.assignments.map Prod.fst := by
    simp [memberIds, assignments]
  rw [hids, ← lookup_isSome, ← lookup_isSome]
  constructor
  · intro h
    by_cases hmem : id ∈ z.assignments.map Prod.fst
    · exact .inl hmem
    · rw [assign, lookup_inserts_of_notMem hmem] at h
      exact .inr h
  · exact isSome_lookup_inserts

theorem foldlM_addEpdScope {pdModels : List String} {checked : EpdScopes} :
    scopes.foldlM (addEpdScope byId aggregateModels pdModels) ⟨[], ∅⟩ = .ok checked ↔
      ((∀ z ∈ scopes, z.Fits byId aggregateModels pdModels) ∧
        (scopes.map (·.pipelineScopeId)).Nodup ∧ (epdMemberIds scopes).Nodup) ∧
      scopes.foldl assign ⟨[], ∅⟩ = checked := by
  have hids : ∀ (s : EpdScopes) (z : SnapshotEpdPipelineScope) (id : String),
      id ∈ (s.assign z).ids ↔ id = z.pipelineScopeId ∨ id ∈ s.ids :=
    fun _ _ _ => mem_cons
  have hmems : ∀ (s : EpdScopes) (z : SnapshotEpdPipelineScope) (id : RouteTargetId),
      id ∈ (s.assign z).byRouteTarget ↔
        id ∈ z.memberIds ∨ id ∈ s.byRouteTarget := fun _ _ _ => mem_assign
  rw [foldlM_eq_ok_iff addEpdScope_eq_ok, passes_and, passes_and, passes_iff_forall,
    passes_iff_distinct hids, passes_iff_fresh hmems, epdMemberIds]
  simp

/-! ### Emitting the routes of encoder scopes -/

/-- The component of a route, where its role has one. -/
def SnapshotEpdComponent.emitted (component : SnapshotEpdComponent) : Component :=
  match component.component with
  | .ok entry => entry
  | .error _ => .aggregate component.endpoint

/-- What a route of an encoder scope is projected to. -/
def SnapshotEpdComponent.entry (admission : AdmissionMap) (scopes : Table RouteTargetId String)
    (component : SnapshotEpdComponent) : RouteTarget × Component :=
  (component.route component.role (some ((scopes.lookup component.routeTargetId).getD ""))
    (component.admissionSet admission), component.emitted)

/-- A role of an encoder scope; a prefill route has its bootstrap endpoint. -/
def SnapshotEpdComponent.Emits (component : SnapshotEpdComponent) : Prop :=
  component.role ≠ .aggregate ∧
    (component.role = .prefill → component.prefillBootstrapEndpoint ≠ none)

lemma SnapshotEpdComponent.component_eq_ok {entry : Component} :
    component.component = .ok entry ↔ component.Emits ∧ component.emitted = entry := by
  rw [Emits, emitted, SnapshotEpdComponent.component]
  cases component.role with
  | aggregate | encoder | decode => simp
  | prefill => cases component.prefillBootstrapEndpoint <;> simp [orError, bind, Except.bind]

lemma emitEpdComponent_ok {state state' : Projection × Table RouteTargetId String}
    (h : emitEpdComponent admission state component = .ok state') :
    ((component.toSnapshotGroup.Admitted admission ∧ component.Emits) ∧
        ¬ state.1.Has component.routeTargetId) ∧
      (state.1.push (component.entry admission state.2).1 (component.entry admission state.2).2,
        state.2.erase component.routeTargetId) = state' := by
  simp only [emitEpdComponent, bind_eq_ok_iff, admissionTargets, orError_eq_ok_iff,
    guard_eq_ok_iff, component_eq_ok, Except.ok.injEq] at h
  obtain ⟨set, hset, scope, hscope, entry, ⟨hemits, rfl⟩, hhas, rfl⟩ := h
  refine ⟨⟨⟨isSome_of_eq_some hset, hemits⟩, hhas⟩, ?_⟩
  rw [entry, SnapshotGroup.admissionSet, hset, hscope]
  rfl

/-- **Emitting** one route does not concern the scopes of the others. -/
lemma foldlM_emitEpdComponent_ok {components : List SnapshotEpdComponent}
    (hdist : (components.map (·.routeTargetId)).Nodup)
    {state state' : Projection × Table RouteTargetId String}
    (h : components.foldlM (emitEpdComponent admission) state = .ok state') :
    (∀ component ∈ components, (component.toSnapshotGroup.Admitted admission ∧ component.Emits) ∧
        ¬ state.1.Has component.routeTargetId) ∧
      state.1.pushAll (components.map (·.entry admission state.2)) = state'.1 := by
  induction components generalizing state with
  | nil =>
    obtain rfl := Except.ok.inj h
    exact ⟨nofun, rfl⟩
  | cons component components ih =>
    rw [map_cons, nodup_cons] at hdist
    have hother : ∀ c ∈ components, c.routeTargetId ≠ component.routeTargetId := fun c hc heq =>
      hdist.1 (heq ▸ mem_map_of_mem hc)
    rw [foldlM_cons, bind_eq_ok_iff] at h
    obtain ⟨state₁, hstep, hrest⟩ := h
    obtain ⟨hcheck, rfl⟩ := emitEpdComponent_ok hstep
    obtain ⟨hall, hpush⟩ := ih hdist.2 hrest
    have hents : components.map (·.entry admission (state.2.erase component.routeTargetId)) =
        components.map (·.entry admission state.2) := by
      refine map_congr_left fun c hc => ?_
      rw [entry, entry, lookup_erase_eq, if_neg (hother c hc)]
    rw [hents] at hpush
    refine ⟨forall_mem_cons.mpr ⟨hcheck, fun c hc => ⟨(hall c hc).1, fun hhas => ?_⟩⟩, hpush⟩
    exact (hall c hc).2 (Projection.has_push.mpr (.inr hhas))

/-- Components are emitted one by one. -/
lemma exists_emitEpd {components : List SnapshotEpdComponent}
    (hdist : (components.map (·.routeTargetId)).Nodup)
    (state : Projection × Table RouteTargetId String)
    (h : ∀ k ∈ components, (k.toSnapshotGroup.Admitted admission ∧ k.Emits) ∧
      ¬ state.1.Has k.routeTargetId ∧ k.routeTargetId ∈ state.2) :
    ∃ state', components.foldlM (emitEpdComponent admission) state = .ok state' := by
  induction components generalizing state with
  | nil => exact ⟨state, rfl⟩
  | cons k components ih =>
    rw [map_cons, nodup_cons] at hdist
    obtain ⟨⟨⟨hadmitted, hemits⟩, hnew, hscope⟩, hrest⟩ := forall_mem_cons.mp h
    obtain ⟨set, hset⟩ := isSome_iff_exists.mp hadmitted
    obtain ⟨scope, hscope⟩ := isSome_iff_exists.mp (lookup_isSome.mpr hscope)
    obtain ⟨state₁, hstep⟩ : ∃ state₁, emitEpdComponent admission state k = .ok state₁ := by
      simp only [emitEpdComponent, bind_eq_ok_iff, admissionTargets, orError_eq_ok_iff,
        guard_eq_ok_iff, component_eq_ok, Except.ok.injEq]
      exact ⟨_, set, hset, scope, hscope, _, ⟨hemits, rfl⟩, hnew, rfl⟩
    obtain ⟨-, rfl⟩ := emitEpdComponent_ok hstep
    rw [foldlM_cons, hstep]
    -- the step pushes `k` and takes its scope; the other components keep theirs
    refine ih hdist.2 _ fun c hc => ?_
    have hne : c.routeTargetId ≠ k.routeTargetId := fun heq => hdist.1 (heq ▸ mem_map_of_mem hc)
    obtain ⟨hgood, hnew, hscope⟩ := hrest c hc
    refine ⟨hgood, fun hhas => hnew ((Projection.has_push.mp hhas).resolve_left hne), ?_⟩
    rw [← lookup_isSome] at hscope ⊢
    rwa [lookup_erase_eq, if_neg hne]

/-! ### The encoder topology -/

/-- What the routes and scopes of the encoder topology must satisfy. -/
structure EpdWellFormed (components : List SnapshotEpdComponent)
    (scopes : List SnapshotEpdPipelineScope) (aggregateModels pdModels : List String) : Prop where
  complete : ∀ component ∈ components, component.toSnapshotGroup.Complete
  distinct : (components.map (·.routeTargetId)).Nodup
  scopeIds : (scopes.map (·.pipelineScopeId)).Nodup
  fits : ∀ scope ∈ scopes, scope.Fits (epdIndex components) aggregateModels pdModels
  memberIds : (epdMemberIds scopes).Nodup
  covered : (epdMemberIds scopes).length = components.length
  bootstrap : ∀ component ∈ components, component.role = .prefill →
    component.prefillBootstrapEndpoint ≠ none

section Epd

variable {components : List SnapshotEpdComponent} {pdModels : List String}

section

variable (h : EpdWellFormed components scopes aggregateModels pdModels)
include h

lemma EpdWellFormed.mem_ids {k : SnapshotEpdComponent} (hmem : k ∈ components) :
    k.routeTargetId ∈ epdMemberIds scopes := by
  have hsubset : epdMemberIds scopes ⊆ components.map (·.routeTargetId) := by
    intro id hid
    obtain ⟨z, hscope, hid⟩ := mem_flatMap.mp hid
    obtain ⟨m, hmember, rfl⟩ := mem_map.mp hid
    obtain ⟨serviceUid, model, -, -, hfits⟩ := (h.fits z hscope).members
    obtain ⟨c, hc, -⟩ := hfits m hmember
    obtain ⟨hc, hid⟩ := (lookup_epdIndex h.distinct).mp hc
    rw [← hid]
    exact mem_map_of_mem hc
  have hperm : (epdMemberIds scopes).Perm (components.map (·.routeTargetId)) :=
    (subperm_of_subset h.memberIds hsubset).perm_of_length_le (by
      rw [length_map, h.covered])
  exact hperm.mem_iff.mpr (mem_map_of_mem hmem)

lemma EpdWellFormed.role (hmem : component ∈ components) : component.role ≠ .aggregate := by
  obtain ⟨scope, hscope, hid⟩ := mem_flatMap.mp (h.mem_ids hmem)
  obtain ⟨member, hmember, hid⟩ := mem_map.mp hid
  obtain ⟨serviceUid, model, -, -, hfits⟩ := (h.fits scope hscope).members
  obtain ⟨c, hc, hrole, -⟩ := hfits member hmember
  have hsame : (epdIndex components).lookup member.2 = some component :=
    (lookup_epdIndex h.distinct).mpr ⟨hmem, hid.symm⟩
  obtain rfl := some.inj (hc.symm.trans hsame)
  rw [hrole]
  simp only [members, List.mem_append, List.mem_map] at hmember
  rcases hmember with (⟨_, -, rfl⟩ | ⟨_, -, rfl⟩) | ⟨_, -, rfl⟩ <;> simp

end

theorem projectEpd_ok
    (h : projectEpd components scopes aggregateModels pdModels admission projection =
      .ok projection') :
    EpdWellFormed components scopes aggregateModels pdModels ∧
      (∀ k ∈ components, k.toSnapshotGroup.Admitted admission ∧
        ¬ projection.Has k.routeTargetId) ∧
      projection.pushAll (components.map (·.entry admission (epdAssignments scopes))) =
        projection' := by
  have hassign : (scopes.foldl assign ⟨[], ∅⟩).byRouteTarget = epdAssignments scopes :=
    byRouteTarget_foldl_assign
  simp only [projectEpd, bind_eq_ok_iff, epdIndex_ok_iff, foldlM_addEpdScope, guard_eq_ok_iff,
    Except.ok.injEq, ne_eq, not_not] at h
  obtain ⟨byId, ⟨⟨hcomp, hdist⟩, rfl⟩, checked, ⟨⟨hfits, hscopeIds, hmems⟩, rfl⟩, hcovered,
    emitted, hemit, rfl⟩ := h
  rw [hassign] at hcovered hemit
  have hlen : (epdAssignments scopes).keys.length = (epdMemberIds scopes).length := by
    rw [← map_fst_assignments] at hmems ⊢
    rw [epdAssignments, length_keys_inserts hmems fun _ _ => notMem_empty _, length_map]
    rfl
  rw [hlen, length_epdIndex hdist] at hcovered
  obtain ⟨hchk, hpushed⟩ := foldlM_emitEpdComponent_ok hdist hemit
  exact ⟨⟨hcomp, hdist, hscopeIds, hfits, hmems, hcovered, fun c hc => (hchk c hc).1.2.2⟩,
    fun c hc => ⟨(hchk c hc).1.1, (hchk c hc).2⟩, hpushed⟩

/-- **A well-formed encoder topology is projected.** -/
lemma exists_projectEpd (h : EpdWellFormed components scopes aggregateModels pdModels)
    (hnew : ∀ k ∈ components, k.toSnapshotGroup.Admitted admission ∧
      ¬ projection.Has k.routeTargetId) :
    ∃ projection', projectEpd components scopes aggregateModels pdModels admission projection =
      .ok projection' := by
  have hassign : (scopes.foldl assign ⟨[], ∅⟩).byRouteTarget = epdAssignments scopes :=
    byRouteTarget_foldl_assign
  have hscope : ∀ k ∈ components, k.routeTargetId ∈ epdAssignments scopes := by
    intro k hk
    rw [← lookup_isSome]
    refine isSome_lookup_inserts (.inl ?_)
    rw [map_fst_assignments]
    exact h.mem_ids hk
  obtain ⟨state, hstate⟩ := exists_emitEpd h.distinct (projection, epdAssignments scopes)
    fun k hk => ⟨⟨(hnew k hk).1, h.role hk, h.bootstrap k hk⟩, (hnew k hk).2, hscope k hk⟩
  refine ⟨state.1, ?_⟩
  simp only [projectEpd, bind_eq_ok_iff, epdIndex_ok_iff, foldlM_addEpdScope, guard_eq_ok_iff,
    Except.ok.injEq, ne_eq, not_not]
  refine ⟨_, ⟨⟨h.complete, h.distinct⟩, rfl⟩, _, ⟨⟨h.fits, h.scopeIds, h.memberIds⟩, rfl⟩, ?_,
    state, ?_, rfl⟩
  · rw [hassign, length_epdIndex h.distinct, ← h.covered, ← map_fst_assignments, epdAssignments,
      length_keys_inserts (map_fst_assignments ▸ h.memberIds) fun _ _ => notMem_empty _, length_map]
    rfl
  · rwa [hassign]

end Epd

/-! ### The registry -/

/-- The common part of all routes. -/
def ServingSnapshot.routeRecords (snapshot : ServingSnapshot) : List SnapshotGroup :=
  snapshot.groups ++ snapshot.pdComponents.map (·.toSnapshotGroup) ++
    snapshot.epdComponents.map (·.toSnapshotGroup)

/-- A set of a configured model. -/
def ServingSnapshot.MemSets (snapshot : ServingSnapshot) (set : List ScalingTarget) : Prop :=
  ∃ model ∈ snapshot.models, set ∈ model.admissionTargetSets

/-- **What the frontend asks of a snapshot.** -/
structure Accepted (validEndpoint : String → Bool) (snapshot : ServingSnapshot) : Prop where
  version : snapshot.version ≠ 0
  identified : ∀ record ∈ snapshot.identityRecords, record.1 ≠ "" ∧ record.2.Complete
  identities : ∀ a ∈ snapshot.identityRecords, ∀ b ∈ snapshot.identityRecords, a.1 = b.1 →
    a.2.shared = b.2.shared
  models : ∀ model ∈ snapshot.models, model.Complete
  sets : SetsAgree snapshot.MemSets
  groups : ∀ group ∈ snapshot.groups, group.Complete ∧ validEndpoint group.endpoint = true
  pd : ∀ component ∈ snapshot.pdComponents, component.WellFormed
    (pipelineScopeMembers snapshot.pdPipelineScopes) (snapshot.groups.map (·.model))
  pdScopes : ScopesFilled (pipelineScopeMembers snapshot.pdPipelineScopes)
  epd : EpdWellFormed snapshot.epdComponents snapshot.epdPipelineScopes
    (snapshot.groups.map (·.model)) (snapshot.pdComponents.map (·.model))
  distinct : (snapshot.routeRecords.map (·.routeTargetId)).Nodup
  admitted : ∀ record ∈ snapshot.routeRecords, ∃ set, snapshot.MemSets set ∧
    record.poolTarget ∈ set

/-- The routes of the records, in their order. -/
def ServingSnapshot.routes (snapshot : ServingSnapshot) (admission : AdmissionMap) :
    List RouteTarget :=
  snapshot.groups.map (fun group => (group.entry admission).1) ++
    snapshot.pdComponents.map (fun component => (component.entry admission).1) ++
    snapshot.epdComponents.map fun component =>
      (component.entry admission (epdAssignments snapshot.epdPipelineScopes)).1

lemma admitted_iff {ts : Table String (List (List ScalingTarget))}
    (htgts : snapshot.admissionTargetSets = .ok ts) (hadm : admissionByTarget ts = .ok admission)
    {r : SnapshotGroup} :
    r.Admitted admission ↔ ∃ set, snapshot.MemSets set ∧ r.poolTarget ∈ set := by
  rw [SnapshotGroup.Admitted, isSome_iff_exists]
  refine exists_congr fun set => ?_
  rw [(admissionByTarget_eq_ok hadm).2, mem_admissionSets htgts]
  rfl

lemma routeRecords_nodup (hgrps : (snapshot.groups.map (·.routeTargetId)).Nodup)
    (hpd : (snapshot.pdComponents.map (·.routeTargetId)).Nodup)
    (hepd : (snapshot.epdComponents.map (·.routeTargetId)).Nodup)
    (hpdNew : ∀ c ∈ snapshot.pdComponents, c.routeTargetId ∉ snapshot.groups.map (·.routeTargetId))
    (hepdNew : ∀ c ∈ snapshot.epdComponents,
      c.routeTargetId ∉ snapshot.pdComponents.map (·.routeTargetId) ∧
        c.routeTargetId ∉ snapshot.groups.map (·.routeTargetId)) :
    (snapshot.routeRecords.map (·.routeTargetId)).Nodup := by
  simp only [routeRecords, List.map_append, List.map_map, Function.comp_def]
  rw [nodup_append, nodup_append]
  refine ⟨⟨hgrps, hpd, ?_⟩, hepd, ?_⟩
  · rintro a ha b hb rfl
    obtain ⟨c, hc, rfl⟩ := mem_map.mp hb
    exact hpdNew c hc ha
  · rintro a ha b hb rfl
    obtain ⟨c, hc, rfl⟩ := mem_map.mp hb
    rcases mem_append.mp ha with ha | ha
    · exact (hepdNew c hc).2 ha
    · exact (hepdNew c hc).1 ha

/-- What the aggregate routes leave behind. -/
def ServingSnapshot.emittedGroups (snapshot : ServingSnapshot) (admission : AdmissionMap) :
    Projection :=
  Projection.pushAll ⟨[], ∅, []⟩ (snapshot.groups.map (·.entry admission))

/-- What the aggregate, prefill and decode routes leave behind. -/
def ServingSnapshot.emittedPd (snapshot : ServingSnapshot) (admission : AdmissionMap) :
    Projection :=
  Projection.pushAll { snapshot.emittedGroups admission with models := [] }
    (snapshot.pdComponents.map (·.entry admission))

section Emitted

lemma models_emittedGroups :
    (snapshot.emittedGroups admission).models = snapshot.groups.map (·.model) := by
  rw [emittedGroups, Projection.models_pushAll, List.map_map]
  rfl

lemma models_emittedPd :
    (snapshot.emittedPd admission).models = snapshot.pdComponents.map (·.model) := by
  rw [emittedPd, Projection.models_pushAll, List.map_map]
  rfl

lemma has_emittedGroups :
    (snapshot.emittedGroups admission).Has id ↔ id ∈ snapshot.groups.map (·.routeTargetId) := by
  rw [emittedGroups, Projection.has_pushAll, List.map_map]
  refine or_iff_left fun hhas => ?_
  cases hhas

lemma has_emittedPd :
    (snapshot.emittedPd admission).Has id ↔ id ∈ snapshot.pdComponents.map (·.routeTargetId) ∨
        id ∈ snapshot.groups.map (·.routeTargetId) := by
  rw [emittedPd, Projection.has_pushAll, List.map_map, ← has_emittedGroups]
  rfl

lemma routes_emitted :
    ((snapshot.emittedPd admission).pushAll (snapshot.epdComponents.map
      (·.entry admission (epdAssignments snapshot.epdPipelineScopes)))).routes =
      snapshot.routes admission := by
  rw [Projection.routes_pushAll, emittedPd, Projection.routes_pushAll,
    emittedGroups, Projection.routes_pushAll, List.nil_append, List.map_map,
    List.map_map, List.map_map]
  rfl

end Emitted

/-- **A snapshot that is projected is accepted**, and the table holds the routes of its records. -/
theorem accepted_of_projectRegistry {table : ModelRouteTable}
    {components : Table RouteTargetId Component}
    (h : projectRegistry validEndpoint snapshot = .ok (table, components)) :
    Accepted validEndpoint snapshot ∧
      ∃ admission, table = ModelRouteTable.new (snapshot.routes admission) := by
  rw [projectRegistry, guard_eq_ok_iff] at h
  obtain ⟨hver, h⟩ := h
  simp only [bind_eq_ok_iff, projectAggregate_ok_iff, projectPd_ok_iff] at h
  obtain ⟨xs, hidentities, targets, htgts, admission, hadm, aggregate,
    ⟨⟨hgrps, hgroupIds⟩, rfl⟩, pd, ⟨⟨hpd, hpdIds, hpdNew⟩, hfill, rfl⟩, epd,
    hproj, hres⟩ := h
  obtain ⟨hepd, hepdNew, rfl⟩ := projectEpd_ok hproj
  rw [← emittedGroups, ← emittedPd, models_emittedGroups,
    models_emittedPd] at hepd
  rw [← emittedGroups] at hpdNew hepdNew hres
  rw [← emittedPd] at hepdNew hres
  rw [← emittedGroups, models_emittedGroups] at hpd
  simp only [has_emittedGroups] at hpdNew
  simp only [has_emittedPd, not_or] at hepdNew
  obtain ⟨hident, hshared⟩ := (modelIdentities_ok_iff snapshot).mp ⟨xs, hidentities⟩
  refine ⟨⟨hver, hident, hshared, (admissionTargetSets_ok_iff snapshot).mp ⟨targets, htgts⟩, ?_,
    fun g hgroup => ⟨(hgrps g hgroup).1, (hgrps g hgroup).2.1⟩,
    fun k hc => (hpd k hc).1, hfill, hepd,
    routeRecords_nodup hgroupIds hpdIds hepd.distinct hpdNew fun c hc => (hepdNew c hc).2, ?_⟩,
    admission, ?_⟩
  · intro a b t ha hb
    exact (admissionByTarget_eq_ok hadm).1 a b t ((mem_admissionSets htgts).mpr ha)
      ((mem_admissionSets htgts).mpr hb)
  · intro r hrec
    rw [← admitted_iff htgts hadm]
    simp only [routeRecords, List.mem_append, List.mem_map] at hrec
    rcases hrec with (hgroup | ⟨c, hc, rfl⟩) | ⟨c, hc, rfl⟩
    · exact (hgrps r hgroup).2.2
    · exact (hpd c hc).2
    · exact (hepdNew c hc).1
  · rw [routes_emitted] at hres
    exact (Prod.mk.inj (Except.ok.inj hres)).1.symm

/-- **The registry accepts exactly the snapshots that meet its conditions.** -/
theorem projectRegistry_accepts_iff (validEndpoint : String → Bool) (snapshot : ServingSnapshot) :
    (∃ registry, projectRegistry validEndpoint snapshot = .ok registry) ↔
      Accepted validEndpoint snapshot := by
  constructor
  · rintro ⟨registry, h⟩
    exact (accepted_of_projectRegistry h).1
  intro h
  obtain ⟨xs, hidentities⟩ := (modelIdentities_ok_iff snapshot).mpr ⟨h.identified, h.identities⟩
  obtain ⟨targets, htargets⟩ := (admissionTargetSets_ok_iff snapshot).mpr h.models
  have hagree : SetsAgree (MemSets targets) := fun a b target ha hb =>
    h.sets a b target ((mem_admissionSets htargets).mp ha) ((mem_admissionSets htargets).mp hb)
  obtain ⟨admission, hadmission⟩ := exists_admissionByTarget hagree
  have hadmitted : ∀ r ∈ snapshot.routeRecords, r.Admitted admission := fun r hr =>
    (admitted_iff htargets hadmission).mpr (h.admitted r hr)
  have hdistinct := h.distinct
  simp only [routeRecords, List.map_append, List.map_map, Function.comp_def, nodup_append,
    List.mem_append] at hdistinct
  simp only [routeRecords, List.mem_append, List.mem_map] at hadmitted
  obtain ⟨⟨hgroupIds, hpdIds, hpdNew⟩, -, hepdNew⟩ := hdistinct
  have hnew : ∀ k ∈ snapshot.epdComponents,
      ¬ (snapshot.emittedPd admission).Has k.routeTargetId := by
    intro k hk hhas
    refine hepdNew _ ?_ _ (mem_map_of_mem hk) rfl
    rw [has_emittedPd] at hhas
    exact hhas.symm
  obtain ⟨epd, hepd⟩ := exists_projectEpd h.epd
    fun k hk => ⟨hadmitted _ (.inr ⟨k, hk, rfl⟩), hnew k hk⟩
  simp only [projectRegistry, guard_eq_ok_iff, bind_eq_ok_iff, projectAggregate_ok_iff,
    projectPd_ok_iff]
  refine ⟨_, h.version, xs, hidentities, targets, htargets, admission, hadmission, _,
    ⟨⟨fun g hg => ⟨(h.groups g hg).1, (h.groups g hg).2, hadmitted g (.inl (.inl hg))⟩, hgroupIds⟩,
      rfl⟩, _, ⟨⟨fun k hk => ⟨?_, hadmitted _ (.inl (.inr ⟨k, hk, rfl⟩))⟩, hpdIds, ?_⟩,
        h.pdScopes, rfl⟩, epd, ?_, rfl⟩
  · rw [← emittedGroups, models_emittedGroups]
    exact h.pd k hk
  · intro k hk hhas
    rw [← emittedGroups, has_emittedGroups] at hhas
    exact hpdNew _ hhas _ (mem_map_of_mem hk) rfl
  · rwa [← emittedGroups, ← emittedPd, models_emittedGroups, models_emittedPd]

/-- The routes are ready, and the aggregate ones have no scope. -/
lemma projectRegistry_routes {table : ModelRouteTable}
    {components : Table RouteTargetId Component}
    (h : projectRegistry validEndpoint snapshot = .ok (table, components)) {r : RouteTarget}
    (hroute : r ∈ table.routes) :
    r.ready = true ∧ (r.role = .aggregate ↔ r.pipelineScopeId = none) := by
  obtain ⟨hacc, admission, rfl⟩ := accepted_of_projectRegistry h
  rw [ModelRouteTable.new, (perm_insertionSort _ _).mem_iff] at hroute
  simp only [routes, List.mem_append, List.mem_map] at hroute
  rcases hroute with (⟨g, -, rfl⟩ | ⟨c, hc, rfl⟩) | ⟨c, hc, rfl⟩
  · exact ⟨rfl, iff_of_true rfl rfl⟩
  · refine ⟨rfl, iff_of_false ?_ fun h => by cases h⟩
    rcases (hacc.pd c hc).role with hrole | hrole <;> simp [SnapshotPdComponent.entry,
      SnapshotGroup.route, hrole]
  · exact ⟨rfl, iff_of_false (hacc.epd.role hc) fun h => by cases h⟩

end Foretoken.Registry
