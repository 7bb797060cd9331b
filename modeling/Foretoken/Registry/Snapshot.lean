import Foretoken.Lib.Checked
import Foretoken.Router.Selection

/-!
The serving snapshot as the frontend reads it (`backend-registry/src/snapshot.rs`).

Three maps are derived from a snapshot, and each derivation refuses one whose records disagree: the
routing of each model, its admission target sets, and its identity.
-/

namespace Foretoken.Registry

open Foretoken.Router List Table

variable {targets : Table String (List (List ScalingTarget))} {set : List ScalingTarget}

/-! ### Routing configuration -/

/-- A configured algorithm. Its parameters are only compared: their canonical text stands for
them. -/
structure AlgorithmStage where
  algorithm : String
  parameters : String
  deriving DecidableEq, Repr

/-- The algorithms of a router pipeline. -/
structure RouterPipelineConfig where
  filter : AlgorithmStage
  scorer : AlgorithmStage
  picker : AlgorithmStage
  deriving DecidableEq, Repr

/-- Algorithms that replace inherited ones. -/
structure RouterPipelineOverride where
  filter : Option AlgorithmStage := none
  scorer : Option AlgorithmStage := none
  picker : Option AlgorithmStage := none
  deriving DecidableEq, Repr, Inhabited

/-- The choices of a model, and of its execution roles where they differ. -/
structure ModelRouterPipeline where
  pipeline : RouterPipelineOverride := {}
  encoder : Option RouterPipelineOverride := none
  prefill : Option RouterPipelineOverride := none
  decode : Option RouterPipelineOverride := none
  deriving DecidableEq, Repr, Inhabited

deriving instance DecidableEq for ModelRoutingStages

/-- What is not replaced is inherited. -/
def RouterPipelineOverride.resolve (choice : RouterPipelineOverride)
    (inherited : RouterPipelineConfig) : RouterPipelineConfig where
  filter := choice.filter.getD inherited.filter
  scorer := choice.scorer.getD inherited.scorer
  picker := choice.picker.getD inherited.picker

/-- A stage inherits from its model, the model from the frontend. -/
def ModelRouterPipeline.resolve (choice : ModelRouterPipeline) (inherited : RouterPipelineConfig) :
    ModelRoutingStages RouterPipelineConfig :=
  let model := choice.pipeline.resolve inherited
  { encoder := choice.encoder.elim model (·.resolve model)
    prefill := choice.prefill.elim model (·.resolve model)
    decode := choice.decode.elim model (·.resolve model)
    aggregate := model }

/-! ### Records -/

/-- Where a model is loaded from. -/
inductive ModelSource where
  | local
  | hf
  | modelScope
  deriving DecidableEq, Repr

/-- How cached blocks are transferred. -/
inductive KvConnector where
  | mooncake
  | nixl
  deriving DecidableEq, Repr

/-- A configured service behind a public model. -/
structure SnapshotModel where
  serviceUid : String
  model : String
  source : ModelSource
  revision : String
  tokenizer : String
  tokenizerRevision : String
  prefixCacheIsolation : Option Bool
  capabilities : List String
  admissionTargetSets : List (List ScalingTarget)
  routerPipeline : Option ModelRouterPipeline
  deriving DecidableEq, Repr

/-- An independently executable route. -/
structure SnapshotGroup where
  serviceUid : String
  poolUid : String
  poolName : String
  routeTargetId : RouteTargetId
  model : String
  source : ModelSource
  revision : String
  tokenizer : String
  tokenizerRevision : String
  prefixCacheIsolation : Option Bool
  capabilities : List String
  maxInputTokens : Option ℕ
  endpoint : String
  kvScopeId : String
  dataParallelSize : ℕ
  deriving DecidableEq, Repr

/-- A prefill or decode route. -/
structure SnapshotPdComponent extends SnapshotGroup where
  role : ModelServerRole
  pipelineScopeId : String
  connector : KvConnector
  protocol : String
  prefillBootstrapEndpoint : Option String
  deriving DecidableEq, Repr

/-- The routes of a P/D pipeline. -/
structure SnapshotPdPipelineScope where
  pipelineScopeId : String
  prefillRouteTargetIds : List RouteTargetId
  decodeRouteTargetIds : List RouteTargetId
  deriving DecidableEq, Repr

/-- A route of an encoder scope. -/
structure SnapshotEpdComponent extends SnapshotGroup where
  role : ModelServerRole
  prefillBootstrapEndpoint : Option String
  deriving DecidableEq, Repr

/-- The routes of an E/P/D pipeline. -/
structure SnapshotEpdPipelineScope where
  pipelineScopeId : String
  encoderRouteTargetIds : List RouteTargetId
  prefillRouteTargetIds : List RouteTargetId
  decodeRouteTargetIds : List RouteTargetId
  deriving DecidableEq, Repr

/-- Of the settings only the default routing is read here. -/
structure ServingSnapshot where
  routerPipeline : RouterPipelineConfig
  version : ℕ
  models : List SnapshotModel
  groups : List SnapshotGroup
  pdComponents : List SnapshotPdComponent
  pdPipelineScopes : List SnapshotPdPipelineScope
  epdComponents : List SnapshotEpdComponent
  epdPipelineScopes : List SnapshotEpdPipelineScope
  deriving DecidableEq, Repr

/-- The errors of a snapshot; `panic` stands for an `expect` or `unreachable!` of the source. -/
inductive SnapshotError where
  | conflictingRouting (model : String)
  | invalidVersion
  | incompleteModelIdentity
  | incompleteScalingModel (model : String)
  | missingAdmissionTarget (uid : String)
  | conflictingAdmissionTarget (uid : String)
  | incompleteGroup (id : RouteTargetId)
  | duplicateRouteTarget (id : RouteTargetId)
  | incompletePdComponent (id : RouteTargetId)
  | unsupportedPdTransport (id : RouteTargetId)
  | invalidPdPipelineScope (scope : String)
  | mixedModelRoles (model : String)
  | conflictingIdentity (model : String)
  | invalidEndpoint (endpoint : String)
  | incompleteEpdComponent (id : RouteTargetId)
  | invalidEpdPipelineScope (scope : String)
  | panic (message : String)
  deriving DecidableEq, Repr

/-! ### Routing of each model -/

/-- The routing a record asks for. -/
def SnapshotModel.routing (model : SnapshotModel) (defaults : RouterPipelineConfig) :
    ModelRoutingStages RouterPipelineConfig :=
  (model.routerPipeline.getD default).resolve defaults

/-- The services of a model must agree on its pipelines. -/
def addRouting (defaults : RouterPipelineConfig)
    (routing : Table String (ModelRoutingStages RouterPipelineConfig)) (model : SnapshotModel) :
    Except SnapshotError (Table String (ModelRoutingStages RouterPipelineConfig)) :=
  let config := model.routing defaults
  if (routing.lookup model.model).any (· ≠ config) then .error (.conflictingRouting model.model)
  else .ok (routing.insert model.model config)

/-- The pipelines of each model. -/
def ServingSnapshot.modelRouting (snapshot : ServingSnapshot) :
    Except SnapshotError (Table String (ModelRoutingStages RouterPipelineConfig)) :=
  snapshot.models.foldlM (addRouting snapshot.routerPipeline) ∅

lemma addRouting_eq_ok {defaults : RouterPipelineConfig}
    (routing : Table String (ModelRoutingStages RouterPipelineConfig)) (m : SnapshotModel)
    (routing' : Table String (ModelRoutingStages RouterPipelineConfig)) :
    addRouting defaults routing m = .ok routing' ↔
      (∀ g, routing.lookup m.model = some g → g = m.routing defaults) ∧
        routing.insert m.model (m.routing defaults) = routing' := by
  rw [addRouting]
  cases hlook : routing.lookup m.model with
  | none => simp
  | some g => by_cases hconf : g = m.routing defaults <;> simp [hconf]

/-- **Routing is accepted exactly when the records of a model resolve alike.** -/
theorem modelRouting_ok_iff (S : ServingSnapshot) :
    (∃ routing, S.modelRouting = .ok routing) ↔
      ∀ a ∈ S.models, ∀ b ∈ S.models, a.model = b.model →
        a.routing S.routerPipeline = b.routing S.routerPipeline := by
  simp only [ServingSnapshot.modelRouting, foldlM_eq_ok_iff addRouting_eq_ok, exists_and_left,
    exists_eq', and_true]
  rw [passes_iff_agree (fun _ => True) SnapshotModel.model (·.routing S.routerPipeline)
    (fun routing m => AList.lookup m routing) (fun _ _ => by rw [true_and])
    (fun routing m k _ => lookup_insert_eq routing m.model k _)]
  simp

/-! ### Admission target sets -/

deriving instance Ord for ScalingTarget

/-- A record names its service, its model, and targets of this service in every set. -/
structure SnapshotModel.Complete (record : SnapshotModel) : Prop where
  serviceUid : record.serviceUid ≠ ""
  model : record.model ≠ ""
  nonempty : ∀ set ∈ record.admissionTargetSets, set ≠ []
  targets : ∀ set ∈ record.admissionTargetSets, ∀ target ∈ set,
    target.serviceUid = record.serviceUid ∧ target.name ≠ "" ∧ target.uid ≠ ""

/-- A model without a name, or with a foreign or nameless target. -/
def SnapshotModel.incomplete (model : SnapshotModel) : Bool :=
  model.serviceUid = "" || model.model = "" ||
    model.admissionTargetSets.any fun set =>
      set.isEmpty || set.any fun target =>
        target.serviceUid ≠ model.serviceUid || target.name = "" || target.uid = ""

/-- The target sets of a model's services are collected. -/
def addTargetSets (targets : Table String (List (List ScalingTarget))) (model : SnapshotModel) :
    Except SnapshotError (Table String (List (List ScalingTarget))) :=
  if model.incomplete then .error (.incompleteScalingModel model.model)
  else .ok (targets.modify model.model (· ++ model.admissionTargetSets))

/-- The sets of each model, each once and in order. -/
def ServingSnapshot.admissionTargetSets (snapshot : ServingSnapshot) :
    Except SnapshotError (Table String (List (List ScalingTarget))) :=
  match snapshot.models.foldlM addTargetSets ∅ with
  | .error e => .error e
  | .ok targets => .ok (targets.mapValues orderedSet)

lemma SnapshotModel.incomplete_eq_false {m : SnapshotModel} :
    m.incomplete = false ↔ m.Complete := by
  simp only [incomplete, Bool.or_eq_false_iff, decide_eq_false_iff_not, List.any_eq_false,
    Bool.or_eq_true, decide_eq_true_eq, List.isEmpty_iff, List.any_eq_true, not_or, not_exists,
    not_and, ne_eq, not_not]
  constructor
  · rintro ⟨⟨hserv, hmodel⟩, hsets⟩
    exact ⟨hserv, hmodel, fun set hset => (hsets set hset).1, fun set hset t htgt =>
      ⟨((hsets set hset).2 t htgt).1.1, ((hsets set hset).2 t htgt).1.2,
        ((hsets set hset).2 t htgt).2⟩⟩
  · intro h
    exact ⟨⟨h.serviceUid, h.model⟩, fun set hset => ⟨h.nonempty set hset, fun t htgt =>
      ⟨⟨(h.targets set hset t htgt).1, (h.targets set hset t htgt).2.1⟩,
        (h.targets set hset t htgt).2.2⟩⟩⟩

/-- The sets held under any model. -/
def MemSets (targets : Table String (List (List ScalingTarget)))
  (set : List ScalingTarget) : Prop :=
  ∃ model sets, targets.lookup model = some sets ∧ set ∈ sets

lemma memSets_modify {m : String} {sets : List (List ScalingTarget)} :
    MemSets (targets.modify m (· ++ sets)) set ↔ set ∈ sets ∨ MemSets targets set := by
  constructor
  · rintro ⟨key, held, hlook, hset⟩
    rw [lookup_modify] at hlook
    split_ifs at hlook with hkey
    · cases hlook
      rcases mem_append.mp hset with hset | hset
      · cases hold : targets.lookup m with
        | none =>
          rw [hold] at hset
          cases hset
        | some old =>
          rw [hold] at hset
          exact .inr ⟨m, old, hold, hset⟩
      · exact .inl hset
    · exact .inr ⟨key, held, hlook, hset⟩
  · rintro (hset | ⟨key, held, hlook, hset⟩)
    · exact ⟨m, _, by rw [lookup_modify, if_pos rfl], mem_append_right _ hset⟩
    · by_cases hkey : key = m
      · rw [← hkey]
        refine ⟨key, _, by rw [lookup_modify, if_pos rfl], mem_append_left _ ?_⟩
        rwa [hlook]
      · exact ⟨key, held, by rw [lookup_modify, if_neg hkey, hlook], hset⟩

lemma memSets_foldl {models : List SnapshotModel} :
    MemSets (models.foldl (fun t m => t.modify m.model (· ++ m.admissionTargetSets))
        targets) set ↔
      (∃ m ∈ models, set ∈ m.admissionTargetSets) ∨ MemSets targets set := by
  induction models generalizing targets with
  | nil => simp
  | cons m models ih =>
    rw [foldl_cons, ih, memSets_modify, exists_mem_cons_iff, or_left_comm, or_assoc]

lemma addTargetSets_eq_ok (targets : Table String (List (List ScalingTarget)))
    (m : SnapshotModel) (targets' : Table String (List (List ScalingTarget))) :
    addTargetSets targets m = .ok targets' ↔
      m.Complete ∧ targets.modify m.model (· ++ m.admissionTargetSets) = targets' := by
  rw [addTargetSets, ← SnapshotModel.incomplete_eq_false]
  cases m.incomplete <;> simp

/-- **Target sets are derived exactly from complete records.** -/
theorem admissionTargetSets_ok_iff (S : ServingSnapshot) :
    (∃ targets, S.admissionTargetSets = .ok targets) ↔
      ∀ m ∈ S.models, m.Complete := by
  have hpasses : (∃ targets, S.models.foldlM addTargetSets ∅ = .ok targets) ↔
      ∀ m ∈ S.models, m.Complete := by
    simp only [foldlM_eq_ok_iff addTargetSets_eq_ok, exists_and_left, exists_eq', and_true]
    generalize (∅ : Table String (List (List ScalingTarget))) = targets
    induction S.models generalizing targets with
    | nil => simp [Passes]
    | cons m models ih => rw [Passes, ih, forall_mem_cons]
  rw [← hpasses, ServingSnapshot.admissionTargetSets]
  cases S.models.foldlM addTargetSets ∅ <;> simp

/-- What the derived sets are. -/
lemma mem_admissionSets {S : ServingSnapshot}
    (h : S.admissionTargetSets = .ok targets) :
    MemSets targets set ↔ ∃ m ∈ S.models, set ∈ m.admissionTargetSets := by
  rw [ServingSnapshot.admissionTargetSets] at h
  cases hfold : S.models.foldlM addTargetSets ∅ with
  | error =>
    simp [hfold] at h
  | ok =>
    rw [hfold] at h
    cases h
    obtain ⟨-, rfl⟩ := (foldlM_eq_ok_iff addTargetSets_eq_ok).mp hfold
    have hempty : ¬ MemSets ∅ set := by
      rintro ⟨m, sets, hlook, -⟩
      cases hlook
    refine Iff.trans ?_ (memSets_foldl.trans (or_iff_left hempty))
    simp only [MemSets, lookup_mapValues, Option.map_eq_some_iff]
    constructor
    · rintro ⟨m, -, ⟨sets, hlook, rfl⟩, hset⟩
      exact ⟨m, sets, hlook, mem_orderedSet.mp hset⟩
    · rintro ⟨m, sets, hlook, hset⟩
      exact ⟨m, _, ⟨sets, hlook, rfl⟩, mem_orderedSet.mpr hset⟩

/-! ### Model identities -/

/-- What all routes of a model have in common. -/
structure ModelIdentity where
  source : ModelSource
  revision : String
  tokenizer : String
  tokenizerRevision : String
  prefixCacheIsolation : Option Bool
  capabilities : List String
  deriving DecidableEq, Repr

namespace ModelIdentity

/-- What the records of a model must share. -/
def shared (identity : ModelIdentity) :
    ModelSource × String × String × String × Option Bool :=
  (identity.source, identity.revision, identity.tokenizer, identity.tokenizerRevision,
    identity.prefixCacheIsolation)

/-- Every artifact is named. -/
def Complete (identity : ModelIdentity) : Prop :=
  identity.revision ≠ "" ∧ identity.tokenizer ≠ "" ∧ identity.tokenizerRevision ≠ ""

instance (identity : ModelIdentity) : Decidable identity.Complete :=
  inferInstanceAs (Decidable (_ ∧ _))

end ModelIdentity

/-- The identity of a catalog entry. -/
def SnapshotModel.identity (model : SnapshotModel) : ModelIdentity where
  source := model.source
  revision := model.revision
  tokenizer := model.tokenizer
  tokenizerRevision := model.tokenizerRevision
  prefixCacheIsolation := model.prefixCacheIsolation
  capabilities := model.capabilities

/-- The identity of a group. -/
def SnapshotGroup.identity (group : SnapshotGroup) : ModelIdentity where
  source := group.source
  revision := group.revision
  tokenizer := group.tokenizer
  tokenizerRevision := group.tokenizerRevision
  prefixCacheIsolation := group.prefixCacheIsolation
  capabilities := group.capabilities

/-- Every record of a model with its identity. -/
def ServingSnapshot.identityRecords (snapshot : ServingSnapshot) : List (String × ModelIdentity) :=
  snapshot.models.map (fun m => (m.model, m.identity)) ++
    snapshot.groups.map (fun g => (g.model, g.identity)) ++
    snapshot.pdComponents.map (fun c => (c.model, c.toSnapshotGroup.identity)) ++
    snapshot.epdComponents.map (fun c => (c.model, c.toSnapshotGroup.identity))

section

variable (identities : Table String ModelIdentity)

/-- Stages share an identity, but not their capabilities. -/
def addIdentity (record : String × ModelIdentity) :
    Except SnapshotError (Table String ModelIdentity) :=
  if record.1 = "" ∨ ¬ record.2.Complete then .error .incompleteModelIdentity
  else
    match identities.lookup record.1 with
    | some existing =>
      if existing.shared ≠ record.2.shared then .error (.conflictingIdentity record.1)
      else
        .ok (identities.insert record.1
          { existing with capabilities := existing.capabilities ∪ record.2.capabilities })
    | none => .ok (identities.insert record.1 record.2)

/-- The identity of each model. -/
def ServingSnapshot.modelIdentities (snapshot : ServingSnapshot) :
    Except SnapshotError (Table String ModelIdentity) :=
  snapshot.identityRecords.foldlM addIdentity ∅

/-- The identity a record leaves in the map. -/
def mergeIdentity (record : String × ModelIdentity) : Table String ModelIdentity :=
  identities.insert record.1 <|
    match identities.lookup record.1 with
    | some existing =>
      { existing with capabilities := existing.capabilities ∪ record.2.capabilities }
    | none => record.2

/-- What the map holds of a model's identity. -/
def sharedIdentity (model : String) :
    Option (ModelSource × String × String × String × Option Bool) :=
  (identities.lookup model).map ModelIdentity.shared

/-- A record that is complete and agrees with the map. -/
def IdentityAgrees (record : String × ModelIdentity) : Prop :=
  (record.1 ≠ "" ∧ record.2.Complete) ∧
    ∀ shared, sharedIdentity identities record.1 = some shared → shared = record.2.shared

end

section

variable (identities : Table String ModelIdentity) (record : String × ModelIdentity)

lemma addIdentity_eq_ok (identities' : Table String ModelIdentity) :
    addIdentity identities record = .ok identities' ↔
      IdentityAgrees identities record ∧ mergeIdentity identities record = identities' := by
  rw [addIdentity, IdentityAgrees, mergeIdentity, sharedIdentity]
  by_cases hbad : record.1 = "" ∨ ¬ record.2.Complete
  · rw [if_pos hbad]
    have hnot : ¬ (record.1 ≠ "" ∧ record.2.Complete) := by tauto
    simp [hnot]
  have hgood : record.1 ≠ "" ∧ record.2.Complete := by tauto
  cases hlook : identities.lookup record.1 with
  | none => simp [hgood]
  | some existing => by_cases hshared : existing.shared = record.2.shared <;> simp [hgood, hshared]

lemma shared_mergeIdentity (model : String) (h : IdentityAgrees identities record) :
    sharedIdentity (mergeIdentity identities record) model =
      if model = record.1 then some record.2.shared else sharedIdentity identities model := by
  rw [sharedIdentity, mergeIdentity, lookup_insert_eq]
  by_cases hmodel : model = record.1
  · rw [if_pos hmodel, if_pos hmodel]
    cases hlook : identities.lookup record.1 with
    | none => rfl
    | some existing =>
      have hshared := h.2 existing.shared (by rw [sharedIdentity, hlook]; rfl)
      rw [← hshared]
      rfl
  · rw [if_neg hmodel, if_neg hmodel, sharedIdentity]

end

/-- **Identities are accepted exactly when they are complete and the records of a model share
theirs.** -/
theorem modelIdentities_ok_iff (snapshot : ServingSnapshot) :
    (∃ identities, snapshot.modelIdentities = .ok identities) ↔
      (∀ record ∈ snapshot.identityRecords, record.1 ≠ "" ∧ record.2.Complete) ∧
        ∀ a ∈ snapshot.identityRecords, ∀ b ∈ snapshot.identityRecords, a.1 = b.1 →
          a.2.shared = b.2.shared := by
  simp only [ServingSnapshot.modelIdentities, foldlM_eq_ok_iff addIdentity_eq_ok, exists_and_left,
    exists_eq', and_true]
  rw [passes_iff_agree (fun record => record.1 ≠ "" ∧ record.2.Complete) Prod.fst
    (fun record => record.2.shared) sharedIdentity
    (fun identities record => (Iff.rfl : IdentityAgrees identities record ↔ _))
    shared_mergeIdentity]
  simp [sharedIdentity]

end Foretoken.Registry
