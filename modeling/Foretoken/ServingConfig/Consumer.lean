import Foretoken.ServingConfig.Versions

/-!
The published catalog at its consumer.

The controller compares the providers of a public model by identity, topology and admission, the
frontend by the routing their settings resolve to; the two are different relations.
-/

namespace Foretoken.ServingConfig

open Foretoken.Registry (SnapshotModel SnapshotGroup SnapshotPdComponent SnapshotPdPipelineScope
  SnapshotEpdComponent SnapshotEpdPipelineScope ServingSnapshot RouterPipelineConfig)
open Foretoken.Router (ModelRoutingStages)

/-! ### The payload -/

/-- A model as the frontend reads it. -/
def Model.wire (model : Model) : SnapshotModel := { model with }

/-- A group as the frontend reads it. -/
def Group.wire (group : Group) : SnapshotGroup := { group with }

/-- An empty endpoint is left out of the payload. -/
def wireEndpoint (endpoint : String) : Option String :=
  if endpoint = "" then none else some endpoint

/-- A P/D component as the frontend reads it. -/
def PDComponent.wire (component : PDComponent) : SnapshotPdComponent where
  toSnapshotGroup := component.toGroup.wire
  role := component.role
  pipelineScopeId := component.pipelineScopeId
  connector := component.connector
  protocol := component.protocol
  prefillBootstrapEndpoint := wireEndpoint component.prefillBootstrapEndpoint

/-- An E/P/D component as the frontend reads it. -/
def EPDComponent.wire (component : EPDComponent) : SnapshotEpdComponent where
  toSnapshotGroup := component.toGroup.wire
  role := component.role
  prefillBootstrapEndpoint := wireEndpoint component.prefillBootstrapEndpoint

/-- What the frontend reads of a published view. -/
def wire (snapshot : Snapshot) : ServingSnapshot where
  routerPipeline := snapshot.settings.routerPipeline
  version := snapshot.version
  models := snapshot.models.map (·.wire)
  groups := snapshot.groups.map (·.wire)
  pdComponents := snapshot.pdComponents.map (·.wire)
  pdPipelineScopes := snapshot.pdPipelineScopes.map fun scope => { scope with }
  epdComponents := snapshot.epdComponents.map (·.wire)
  epdPipelineScopes := snapshot.epdPipelineScopes.map fun scope => { scope with }

/-! ### Rows of the catalog -/

section Rows

variable {naming : Naming} {compilation : Compilation} {frontend : FrontendSpec}
  {previousModels : List Model} {state state' : CatalogState} {service : ModelService}

lemma CatalogState.models_enter {g : Admission} {row : Model}
    (h : state.enter service g row = .ok state') : state'.models = state.models ++ [row] := by
  rw [enter] at h
  split at h
  · rw [guard_eq_ok_iff] at h
    exact Except.ok.inj h.2 ▸ rfl
  · exact Except.ok.inj h ▸ rfl

/-- A service contributes nothing, or one row with its identity. -/
lemma addConfiguredModel_cases {pools : List ModelPool} {groups : List ModelGroup}
    (h : addConfiguredModel compilation frontend pools groups previousModels state service =
      .ok state') :
    state' = state ∨ ∃ config compiled identity topology,
      compileModelService compilation service.spec = .ok compiled ∧
      configuredIdentity compilation service pools groups previousModels compiled =
        .ok (some (identity, topology)) ∧
      state.enter service config (catalogModel service pools identity topology) = .ok state' := by
  rw [addConfiguredModel] at h
  split_ifs at h
  · exact .inl (Except.ok.inj h).symm
  · simp only [bind_eq_ok_iff, mapError_eq_ok_iff, guard_eq_ok_iff] at h
    obtain ⟨config, -, -, compiled, hcompiled, h⟩ := h
    split at h
    · cases h
    obtain ⟨found, hfound, h⟩ := bind_eq_ok_iff.mp h
    cases found with
    | none => exact .inl (Except.ok.inj h).symm
    | some found => exact .inr ⟨config, compiled, found.1, found.2, hcompiled, hfound, h⟩

section

variable {cluster : Cluster} {S : Snapshot}
  (h : projectServing naming compilation frontend cluster previousModels = .ok S)
include h

/-- **A row carries the routing choice of its service.** -/
lemma row_of_projectServing {row : Model} (hrow : row ∈ S.models) : ∃ service ∈ cluster.services,
      row.serviceUid = service.uid ∧ row.routerPipeline = service.spec.routerPipeline := by
  simp only [projectServing, projectConfiguredModels, bind_eq_ok_iff, Prod.exists, Except.ok.injEq,
    Prod.mk.injEq] at h
  obtain ⟨_, -, _, -, models, _, ⟨state, hstate, rfl, -⟩, _, -, _, -, rfl⟩ := h
  refine foldlM_preserves (I := fun state => ∀ row ∈ state.models, ∃ service ∈ cluster.services,
    row.serviceUid = service.uid ∧ row.routerPipeline = service.spec.routerPipeline)
    (fun s service s' hserv hs hstep => ?_) (by simp) hstate row (mem_sortOn.mp hrow)
  rcases addConfiguredModel_cases hstep with rfl | ⟨_, _, _, _, -, -, henter⟩
  · exact hs
  · rw [CatalogState.models_enter henter]
    intro row hrow
    rcases List.mem_append.mp hrow with hrow | hrow
    · exact hs row hrow
    · rw [List.mem_singleton.mp hrow]
      exact ⟨service, hserv, rfl, rfl⟩

lemma routerPipeline_of_projectServing :
    S.settings.routerPipeline = frontend.routerPipeline := by
  simp only [projectServing, bind_eq_ok_iff, Except.ok.injEq] at h
  obtain ⟨_, -, _, -, _, -, _, -, _, -, rfl⟩ := h
  rfl

end

end Rows

/-! ### Providers of one model -/

/-- The service has a row for the model. -/
def Snapshot.Provides (snapshot : Snapshot) (service : ModelService) (model : String) : Prop :=
  ∃ row ∈ snapshot.models, row.serviceUid = service.uid ∧ row.model = model

/-- What the routing choices of a service resolve to. -/
def ModelService.routing (service : ModelService) (defaults : RouterPipelineConfig) :
    ModelRoutingStages RouterPipelineConfig :=
  (service.spec.routerPipeline.getD default).resolve defaults

/-- The rows of a view have their choices, or none of them has. -/
lemma models_forProtocol (S : Snapshot) (p : ℕ) :
    (servingSnapshotForProtocol S p).settings = S.settings ∧
    (servingSnapshotForProtocol S p).models = if p < modelRoutingProtocol then
        S.models.map fun m => { m with routerPipeline := none }
      else S.models := by
  rw [servingSnapshotForProtocol]
  split_ifs <;> exact ⟨rfl, rfl⟩

/-- **The frontend accepts the routing of a published catalog exactly when the providers of each
model resolve alike**; a view of an older protocol has no choices to resolve. -/
theorem routing_accepted_iff_providers_agree (naming : Naming) (compilation : Compilation)
    (frontend : FrontendSpec) (cluster : Cluster) (previousModels : List Model)
    (snapshot : Snapshot)
    (h : projectServing naming compilation frontend cluster previousModels = .ok snapshot)
    (huids : (cluster.services.map (·.uid)).Nodup) (protocol : ℕ) :
    (∃ routing, (wire (servingSnapshotForProtocol snapshot protocol)).modelRouting = .ok routing) ↔
      (modelRoutingProtocol ≤ protocol → ∀ a ∈ cluster.services, ∀ b ∈ cluster.services, ∀ model,
        snapshot.Provides a model → snapshot.Provides b model →
        a.routing frontend.routerPipeline = b.routing frontend.routerPipeline) := by
  obtain ⟨hsettings, hmodels⟩ := models_forProtocol snapshot protocol
  rw [Registry.modelRouting_ok_iff, wire, hsettings, routerPipeline_of_projectServing h, hmodels]
  simp only [List.forall_mem_map]
  split_ifs with hprotocol
  · simp only [List.forall_mem_map]
    exact ⟨fun _ hle => absurd hle hprotocol.not_ge, fun _ _ _ _ _ _ => rfl⟩
  · have hsame : ∀ a ∈ cluster.services, ∀ row ∈ snapshot.models, row.serviceUid = a.uid →
        row.wire.routing frontend.routerPipeline = a.routing frontend.routerPipeline := by
      intro a ha row hrow huid
      obtain ⟨service, hservice, hrowUid, hpipeline⟩ := row_of_projectServing h hrow
      obtain rfl := List.inj_on_of_nodup_map huids hservice ha (hrowUid.symm.trans huid)
      rw [Registry.SnapshotModel.routing, Model.wire, ModelService.routing, hpipeline]
    constructor
    · rintro hagree - a ha b hb model ⟨row, hrow, huid, rfl⟩ ⟨row', hrow', huid', hmodel⟩
      rw [← hsame a ha row hrow huid, ← hsame b hb row' hrow' huid']
      exact hagree row hrow row' hrow' hmodel.symm
    · intro hagree row hrow row' hrow' hmodel
      obtain ⟨a, ha, huid, -⟩ := row_of_projectServing h hrow
      obtain ⟨b, hb, huid', -⟩ := row_of_projectServing h hrow'
      rw [hsame a ha row hrow huid, hsame b hb row' hrow' huid']
      exact hagree (not_lt.mp hprotocol) a ha b hb row.model ⟨row, hrow, huid, rfl⟩
        ⟨row', hrow', huid', hmodel.symm⟩

namespace Rollout

/-- A frontend without admission settings. -/
def frontend : FrontendSpec where
  routerPipeline := ⟨⟨"allow_all", ""⟩, ⟨"kv_least_loaded", ""⟩, ⟨"gamble_sampling", ""⟩⟩
  requestTimeout := "1s"
  streamIdle := "1s"
  logLevel := "info"
  admission := none
  roleRules := none
  admissionStore := none

/-- A service of one model, with its own scorer or the inherited one. -/
def provider (uid : String) (scorer : Option String) : ModelService where
  name := uid
  uid := uid
  generation := 1
  deleting := false
  spec :=
    { model := "m"
      source := none
      tokenizer := ""
      backend := .vllm
      prefixCacheIsolation := none
      admission := none
      roleRules := none
      routerPipeline := some { pipeline := { scorer := scorer.map fun name => ⟨name, ""⟩ } }
      maxInputTokens := none
      features := {}
      modelPools := [] }
  servingPoolRevisions := []

/-- Two services that provide one model. -/
def providers (scorer : Option String) : List ModelService :=
  [provider "a" scorer, provider "b" (some "kv_least_loaded")]

/-- The catalog of two services without Pools. -/
def catalog (scorer : Option String) : Except ProjectionError Snapshot :=
  projectServing naming compilation frontend ⟨providers scorer, [], []⟩ []

end Rollout

open Rollout

/-- A scorer that is spelled out or inherited is one routing. -/
theorem routing_accepted_of_inherited_scorer : ∃ snapshot, catalog none = .ok snapshot ∧
    ∃ routing, (wire (servingSnapshotForProtocol snapshot 6)).modelRouting = .ok routing := by
  refine ⟨_, rfl, ?_⟩
  refine (routing_accepted_iff_providers_agree naming compilation frontend
    ⟨providers none, [], []⟩ [] _ rfl (by decide) 6).mpr fun _ a ha b hb _ _ _ => ?_
  have hall : ∀ a ∈ providers none, ∀ b ∈ providers none,
      a.routing frontend.routerPipeline = b.routing frontend.routerPipeline := by
    decide
  exact hall a ha b hb

/-- The controller publishes a catalog that every frontend refuses. -/
theorem conflicting_routing_published : ∃ snapshot,
    catalog (some "prefix_cache") = .ok snapshot ∧
      (wire (servingSnapshotForProtocol snapshot 6)).modelRouting =
        .error (.conflictingRouting "m") :=
  ⟨_, rfl, rfl⟩

end Foretoken.ServingConfig
