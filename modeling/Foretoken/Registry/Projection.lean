import Foretoken.Registry.Snapshot

/-!
The routes of a serving snapshot (`backend-registry/src/snapshot_projection.rs`).

`projectRegistry` checks a snapshot and turns its three lists of ready routes into the static
route table and one component for each route. Which endpoints a transport client refuses is a
parameter.
-/

namespace Foretoken.Registry

open Foretoken.Router Table

/-- Where a route is reached, and how it transfers cached blocks. -/
inductive Component where
  | aggregate (endpoint : String)
  | encoder (endpoint : String)
  | prefill (endpoint : String) (bootstrap : Option String) (connector : KvConnector)
  | decode (endpoint : String) (connector : KvConnector)
  deriving DecidableEq, Repr

/-! ### The admission set of each target -/

/-- The pools a request must be admitted to, by the pool it runs in. -/
abbrev AdmissionMap := Table ScalingTarget (List ScalingTarget)

/-- Two models must not give a pool different targets. -/
def addAdmissionTarget (admission : AdmissionMap) (entry : ScalingTarget × List ScalingTarget) :
    Except SnapshotError AdmissionMap :=
  if (admission.lookup entry.1).any (· ≠ entry.2) then
    .error (.conflictingAdmissionTarget entry.1.uid)
  else .ok (admission.insert entry.1 entry.2)

/-- The targets of every set with their set. -/
def admissionEntries (targets : Table String (List (List ScalingTarget))) :
    List (ScalingTarget × List ScalingTarget) :=
  targets.toList.flatMap fun model => model.2.flatMap fun set => set.map fun target => (target, set)

/-- The targets of all models. -/
def admissionByTarget (targets : Table String (List (List ScalingTarget))) :
    Except SnapshotError AdmissionMap :=
  (admissionEntries targets).foldlM addAdmissionTarget ∅

lemma addAdmissionTarget_eq_ok (admission : AdmissionMap)
    (entry : ScalingTarget × List ScalingTarget) (admission' : AdmissionMap) :
    addAdmissionTarget admission entry = .ok admission' ↔
      (∀ set, admission.lookup entry.1 = some set → set = entry.2) ∧
        admission.insert entry.1 entry.2 = admission' := by
  rw [addAdmissionTarget]
  cases hlook : admission.lookup entry.1 with
  | none => simp
  | some set => by_cases hset : set = entry.2 <;> simp [hset]

lemma mem_admissionEntries {ts : Table String (List (List ScalingTarget))}
    {e : ScalingTarget × List ScalingTarget} :
    e ∈ admissionEntries ts ↔ MemSets ts e.2 ∧ e.1 ∈ e.2 := by
  simp only [admissionEntries, List.mem_flatMap, List.mem_map]
  constructor
  · rintro ⟨⟨m, sets⟩, hmodel, set, hset, target, htgt, rfl⟩
    exact ⟨⟨m, sets, mem_toList.mp hmodel, hset⟩, htgt⟩
  · rintro ⟨⟨m, sets, hlook, hset⟩, htgt⟩
    exact ⟨(m, sets), mem_toList.mpr hlook, e.2, hset, e.1, htgt, rfl⟩

/-- No target stands in two different sets. -/
def SetsAgree (MemSet : List ScalingTarget → Prop) : Prop :=
  ∀ a b target, MemSet a → MemSet b → target ∈ a → target ∈ b → a = b

/-- **Every pool has one admission set**, or the map is refused. -/
lemma admissionByTarget_eq_ok {targets : Table String (List (List ScalingTarget))}
    {admission : AdmissionMap} (h : admissionByTarget targets = .ok admission) :
    SetsAgree (MemSets targets) ∧ ∀ target set, admission.lookup target = some set ↔
      MemSets targets set ∧ target ∈ set := by
  obtain ⟨hpasses, rfl⟩ := (foldlM_eq_ok_iff addAdmissionTarget_eq_ok).mp h
  have hnext : ∀ (s : AdmissionMap) (entry : ScalingTarget × List ScalingTarget) k,
      (∀ set, s.lookup entry.1 = some set → set = entry.2) →
      (s.insert entry.1 entry.2).lookup k = if k = entry.1 then some entry.2 else s.lookup k :=
    fun s entry k _ => lookup_insert_eq s entry.1 k entry.2
  have hread := read_foldl_of_agree Prod.fst Prod.snd (fun s k => s.lookup k) hnext hpasses
  obtain ⟨-, hagree, -⟩ := (passes_iff_agree (fun _ => True) Prod.fst Prod.snd
    (fun s k => s.lookup k) (fun _ _ => (true_and _).symm ▸ Iff.rfl) hnext).mp
    hpasses
  refine ⟨fun a b target ha hb hta htb => ?_, fun target set => ⟨fun hlook => ?_, fun hset => ?_⟩⟩
  · exact hagree (target, a) (mem_admissionEntries.mpr ⟨ha, hta⟩) (target, b)
      (mem_admissionEntries.mpr ⟨hb, htb⟩) rfl
  · by_cases hmem : target ∈ (admissionEntries targets).map Prod.fst
    · obtain ⟨entry, hentry, rfl⟩ := List.mem_map.mp hmem
      obtain rfl := Option.some.inj (hlook.symm.trans (hread hagree hentry))
      exact mem_admissionEntries.mp hentry
    · have hnone := read_foldl_of_notMem Prod.fst Prod.snd
        (fun s k => s.lookup k) hnext hpasses hmem
      cases hlook.symm.trans hnone
  · have hentry : (target, set) ∈ admissionEntries targets := mem_admissionEntries.mpr hset
    exact hread hagree hentry

lemma exists_admissionByTarget {targets : Table String (List (List ScalingTarget))}
    (h : SetsAgree (MemSets targets)) : ∃ admission, admissionByTarget targets = .ok admission := by
  refine ⟨_, (foldlM_eq_ok_iff addAdmissionTarget_eq_ok).mpr ⟨?_, rfl⟩⟩
  refine (passes_iff_agree (fun _ => True) Prod.fst Prod.snd (fun s k => s.lookup k)
    (fun _ _ => (true_and _).symm ▸ Iff.rfl)
    fun s entry k _ => lookup_insert_eq s entry.1 k entry.2).mpr ⟨fun _ _ => trivial, ?_, ?_⟩
  · rintro ⟨target, a⟩ ha ⟨-, b⟩ hb rfl
    obtain ⟨ha, hta⟩ := mem_admissionEntries.mp ha
    obtain ⟨hb, htb⟩ := mem_admissionEntries.mp hb
    exact h a b target ha hb hta htb
  · intro e he set hset
    cases hset

/-! ### Emitted routes -/

/-- What a projection has emitted, with the models of the topology at hand. -/
structure Projection where
  routes : List RouteTarget
  components : Table RouteTargetId Component
  models : List String

namespace SnapshotGroup

/-- The pool a route belongs to. -/
def poolTarget (group : SnapshotGroup) : ScalingTarget where
  serviceUid := group.serviceUid
  name := group.poolName
  uid := group.poolUid

/-- A group as a route of the frontend. -/
def route (group : SnapshotGroup) (role : ModelServerRole) (pipelineScopeId : Option String)
    (admissionTargets : List ScalingTarget) : RouteTarget where
  routeTargetId := group.routeTargetId
  target := group.poolTarget
  admissionTargets := admissionTargets
  model := group.model
  revision := group.revision
  capabilities := group.capabilities
  maxInputTokens := group.maxInputTokens
  ready := true
  role := role
  pipelineScopeId := pipelineScopeId
  dataParallelSize := group.dataParallelSize

/-- The fields every route must have. -/
def Complete (group : SnapshotGroup) : Prop :=
  group.serviceUid ≠ "" ∧ group.poolUid ≠ "" ∧ group.poolName ≠ "" ∧ group.routeTargetId ≠ "" ∧
    group.endpoint ≠ "" ∧ group.kvScopeId ≠ ""

instance (group : SnapshotGroup) : Decidable group.Complete :=
  inferInstanceAs (Decidable (_ ∧ _))

end SnapshotGroup

/-- The targets of a pool. -/
def admissionTargets (admission : AdmissionMap) (target : ScalingTarget) :
    Except SnapshotError (List ScalingTarget) :=
  orError (admission.lookup target) (.missingAdmissionTarget target.uid)

/-- Enter a route and its component. -/
def Projection.push (projection : Projection) (route : RouteTarget) (component : Component) :
    Projection where
  routes := projection.routes ++ [route]
  components := projection.components.insert route.routeTargetId component
  models := projection.models ++ [route.model]

/-! ### Aggregate routes -/

/-- An aggregate route is checked and added. -/
def addGroup (validEndpoint : String → Bool) (admission : AdmissionMap) (projection : Projection)
    (group : SnapshotGroup) : Except SnapshotError Projection :=
  if ¬ group.Complete then .error (.incompleteGroup group.routeTargetId)
  else if !validEndpoint group.endpoint then .error (.invalidEndpoint group.endpoint)
  else if (projection.components.lookup group.routeTargetId).isSome then
    .error (.duplicateRouteTarget group.routeTargetId)
  else do
    let set ← admissionTargets admission group.poolTarget
    .ok (projection.push (group.route .aggregate none set) (.aggregate group.endpoint))

/-- The aggregate routes. -/
def projectAggregate (validEndpoint : String → Bool) (admission : AdmissionMap)
    (groups : List SnapshotGroup) : Except SnapshotError Projection :=
  groups.foldlM (addGroup validEndpoint admission) ⟨[], ∅, []⟩

/-! ### Prefill and decode routes -/

/-- The members of each scope; a later scope of one name replaces an earlier one. -/
def pipelineScopeMembers (scopes : List SnapshotPdPipelineScope) :
    Table String (List RouteTargetId × List RouteTargetId) :=
  scopes.foldl (fun members scope => members.insert scope.pipelineScopeId
    (scope.prefillRouteTargetIds, scope.decodeRouteTargetIds)) ∅

namespace SnapshotPdComponent

/-- The scope lists the component in its role. -/
def memberOf (component : SnapshotPdComponent) (member : List RouteTargetId × List RouteTargetId) :
    Bool :=
  if component.role = .prefill then member.1.contains component.routeTargetId
  else member.2.contains component.routeTargetId

/-- The transport endpoints of a component in its role. -/
def component (component : SnapshotPdComponent) : Option Component :=
  match component.role with
  | .prefill =>
    some (.prefill component.endpoint component.prefillBootstrapEndpoint component.connector)
  | .decode => some (.decode component.endpoint component.connector)
  | .aggregate | .encoder => none

end SnapshotPdComponent

/-- A P/D route is checked and added. -/
def addPdComponent (members : Table String (List RouteTargetId × List RouteTargetId))
    (aggregateModels : List String) (admission : AdmissionMap) (projection : Projection)
    (component : SnapshotPdComponent) : Except SnapshotError Projection :=
  if ¬ component.toSnapshotGroup.Complete ∨ component.pipelineScopeId = "" then
    .error (.incompletePdComponent component.routeTargetId)
  else if ¬ (component.protocol = "rdma" ∨ component.protocol = "tcp") then
    .error (.unsupportedPdTransport component.routeTargetId)
  else if component.role = .aggregate ∨ component.model ∈ aggregateModels then
    .error (.mixedModelRoles component.model)
  else if component.role = .prefill ∧ component.connector = .mooncake ∧
      component.prefillBootstrapEndpoint = none then
    .error (.incompletePdComponent component.routeTargetId)
  else do
    let member ← orError (members.lookup component.pipelineScopeId)
      (.invalidPdPipelineScope component.pipelineScopeId)
    if !component.memberOf member then .error (.invalidPdPipelineScope component.pipelineScopeId)
    else do
      let set ← admissionTargets admission component.poolTarget
      let entry ← orError component.component (.invalidPdPipelineScope component.pipelineScopeId)
      if (projection.components.lookup component.routeTargetId).isSome then
        .error (.duplicateRouteTarget component.routeTargetId)
      else
        .ok (projection.push
          (component.route component.role (some component.pipelineScopeId) set) entry)

/-- The P/D routes, whose scopes must have both stages. -/
def projectPd (components : List SnapshotPdComponent) (scopes : List SnapshotPdPipelineScope)
    (aggregateModels : List String) (admission : AdmissionMap) (projection : Projection) :
    Except SnapshotError Projection := do
  let members := pipelineScopeMembers scopes
  let emitted ← components.foldlM (addPdComponent members aggregateModels admission)
    { projection with models := [] }
  match members.toList.find? fun scope => scope.2.1.isEmpty || scope.2.2.isEmpty with
  | some scope => .error (.invalidPdPipelineScope scope.1)
  | none => .ok emitted

/-! ### Encoder, prefill and decode routes -/

/-- An E/P/D component is checked. -/
def addEpdComponent (components : Table RouteTargetId SnapshotEpdComponent)
    (component : SnapshotEpdComponent) :
    Except SnapshotError (Table RouteTargetId SnapshotEpdComponent) :=
  if ¬ component.toSnapshotGroup.Complete then
    .error (.incompleteEpdComponent component.routeTargetId)
  else if (components.lookup component.routeTargetId).isSome then
    .error (.duplicateRouteTarget component.routeTargetId)
  else .ok (components.insert component.routeTargetId component)

/-- The members of a scope with the roles they are listed in. -/
def SnapshotEpdPipelineScope.members (scope : SnapshotEpdPipelineScope) :
    List (ModelServerRole × RouteTargetId) :=
  scope.encoderRouteTargetIds.map (.encoder, ·) ++ scope.prefillRouteTargetIds.map (.prefill, ·) ++
    scope.decodeRouteTargetIds.map (.decode, ·)

/-- A member of a scope has its role, service and model, and no other scope. -/
def addEpdMember (components : Table RouteTargetId SnapshotEpdComponent)
    (reference : SnapshotEpdComponent) (pipelineScopeId : String)
    (scopes : Table RouteTargetId String) (member : ModelServerRole × RouteTargetId) :
    Except SnapshotError (Table RouteTargetId String) := do
  let component ← orError (components.lookup member.2) (.invalidEpdPipelineScope pipelineScopeId)
  if (scopes.lookup member.2).isSome ∨ component.role ≠ member.1 ∨
      component.serviceUid ≠ reference.serviceUid ∨ component.model ≠ reference.model then
    .error (.invalidEpdPipelineScope pipelineScopeId)
  else .ok (scopes.insert member.2 pipelineScopeId)

/-- The scopes seen so far, and the scope of each member. -/
structure EpdScopes where
  ids : List String
  byRouteTarget : Table RouteTargetId String

/-- An E/P/D scope is checked with its members. -/
def addEpdScope (components : Table RouteTargetId SnapshotEpdComponent)
    (aggregateModels pdModels : List String) (scopes : EpdScopes)
    (scope : SnapshotEpdPipelineScope) : Except SnapshotError EpdScopes :=
  if scope.pipelineScopeId = "" ∨ scope.encoderRouteTargetIds = [] ∨
      scope.prefillRouteTargetIds = [] ∨ scope.decodeRouteTargetIds = [] ∨
      scope.pipelineScopeId ∈ scopes.ids then
    .error (.invalidEpdPipelineScope scope.pipelineScopeId)
  else do
    let reference ← orError (scope.encoderRouteTargetIds.head?.bind fun id => components.lookup id)
      (.invalidEpdPipelineScope scope.pipelineScopeId)
    let byRouteTarget ← scope.members.foldlM
      (addEpdMember components reference scope.pipelineScopeId) scopes.byRouteTarget
    if reference.model ∈ aggregateModels ∨ reference.model ∈ pdModels then
      .error (.invalidEpdPipelineScope scope.pipelineScopeId)
    else .ok ⟨scope.pipelineScopeId :: scopes.ids, byRouteTarget⟩

/-- The component a checked encoder-scope route stands for. -/
def SnapshotEpdComponent.component (component : SnapshotEpdComponent) :
    Except SnapshotError Component :=
  match component.role with
  | .encoder => .ok (.encoder component.endpoint)
  | .prefill => do
      let bootstrap ← orError component.prefillBootstrapEndpoint
        (.incompleteEpdComponent component.routeTargetId)
      .ok (.prefill component.endpoint (some bootstrap) .mooncake)
  | .decode => .ok (.decode component.endpoint .mooncake)
  | .aggregate => .error (.panic "aggregate E/P/D component was rejected")

/-- Emit one route, and take its scope out of the map. -/
def emitEpdComponent (admission : AdmissionMap)
    (state : Projection × Table RouteTargetId String) (component : SnapshotEpdComponent) :
    Except SnapshotError (Projection × Table RouteTargetId String) := do
  let set ← admissionTargets admission component.poolTarget
  let scope ← orError (state.2.lookup component.routeTargetId)
    (.panic "validated E/P/D scope membership")
  let entry ← component.component
  if (state.1.components.lookup component.routeTargetId).isSome then
    .error (.duplicateRouteTarget component.routeTargetId)
  else
    .ok (state.1.push (component.route component.role (some scope) set) entry,
      state.2.erase component.routeTargetId)

/-- The E/P/D routes, each in one scope. -/
def projectEpd (components : List SnapshotEpdComponent) (scopes : List SnapshotEpdPipelineScope)
    (aggregateModels pdModels : List String) (admission : AdmissionMap)
    (projection : Projection) : Except SnapshotError Projection := do
  let byId ← components.foldlM addEpdComponent ∅
  let checked ← scopes.foldlM (addEpdScope byId aggregateModels pdModels) ⟨[], ∅⟩
  if checked.byRouteTarget.keys.length ≠ byId.keys.length then
    .error (.invalidEpdPipelineScope "")
  else do
    let state ← components.foldlM (emitEpdComponent admission) (projection, checked.byRouteTarget)
    .ok state.1

/-! ### The registry -/

/-- A snapshot as routes and components, or the reason why it is rejected. -/
def projectRegistry (validEndpoint : String → Bool) (snapshot : ServingSnapshot) :
    Except SnapshotError (ModelRouteTable × Table RouteTargetId Component) :=
  if snapshot.version = 0 then .error .invalidVersion
  else do
    let _ ← snapshot.modelIdentities
    let targets ← snapshot.admissionTargetSets
    let admission ← admissionByTarget targets
    let aggregate ← projectAggregate validEndpoint admission snapshot.groups
    let pd ← projectPd snapshot.pdComponents snapshot.pdPipelineScopes aggregate.models admission
      aggregate
    let epd ← projectEpd snapshot.epdComponents snapshot.epdPipelineScopes aggregate.models
      pd.models admission pd
    .ok (ModelRouteTable.new epd.routes, epd.components)

end Foretoken.Registry
