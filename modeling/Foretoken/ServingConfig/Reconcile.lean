import Foretoken.Lib.Machine
import Foretoken.ServingConfig.Catalog
import Foretoken.ServingConfig.Instances
import Foretoken.ServingConfig.Views

/-!
Publication of serving snapshots (`controllers/frontend/snapshot.go`).

A reconcile reserves a version in the frontend's status, then writes the older views and last the
primary one. Every write is an API call of its own; the controller can fail before each of them,
and a view can be deleted at any time. A write to a view that was deleted or created since it was
read fails. The log keeps what was observed and published, in order.
-/

namespace Foretoken.ServingConfig

/-- What one reconcile is asked to do and sees. -/
structure Observation where
  /-- The configuration protocol of the selected application. -/
  servingConfigVersion : ℕ
  /-- Keep the published configuration and only renew the members. -/
  preserveConfiguration : Bool
  frontend : FrontendSpec
  cluster : Cluster
  reader : Reader
  frontendPods : List Pod
  backendPods : List Pod

/-- A write to the API server. -/
inductive Write where
  | reserve (version : ℕ)
  /-- `existed` says whether the view was there when it was read. -/
  | publish (view : ℕ) (existed : Bool) (snapshot : Snapshot)

/-- Why a reconcile writes nothing. -/
inductive ReconcileError where
  | rejected (error : ProjectionError)
  | read (error : ReadError)
  | exhausted

/-- The published snapshot of each view. -/
abbrev Views := Table ℕ Snapshot

/-- The view with the highest version; at equal versions the one of the newest protocol. -/
def previousSnapshot (views : Views) (protocols : List ℕ) : Option Snapshot :=
  (protocols.filterMap fun protocol => views.lookup (viewOf protocol)).foldl
    (fun best snapshot =>
      match best with
      | none => some snapshot
      | some previous => if previous.version < snapshot.version then some snapshot else best) none

/-- A live Pod of the frontend mounts the view. -/
def consumesView (instances : List Pod) (protocol : ℕ) : Bool :=
  instances.any fun pod => !pod.deleting && pod.mounts = some (viewOf protocol)

/-- Recreated mounts need a fresh acknowledgement. -/
def missingConsumedView (views : Views) (instances : List Pod) (protocols : List ℕ) : Bool :=
  protocols.any fun protocol =>
    (views.lookup (viewOf protocol)).isNone && consumesView instances protocol

/-- The largest version of 64 bits. -/
def maxVersion : ℕ := 2 ^ 64 - 1

/-- The version of a candidate. Only the primary view is compared. -/
def nextVersion (status : ℕ) (previous primary : Option Snapshot) (missing : Bool)
    (snapshot : Snapshot) : Except ReconcileError ℕ :=
  let version := max status (previous.elim 0 (·.version))
  let contentsChanged := primary.elim true fun published =>
    decide (¬ published.SameConfiguration snapshot)
  if contentsChanged || missing || primary.elim 0 (·.version) < version || version = 0 then
    if version = maxVersion then .error .exhausted else .ok (version + 1)
  else .ok version

/-- The contents of an older view. -/
def legacyView (preserve : Bool) (published : Option Snapshot) (snapshot : Snapshot) : Snapshot :=
  match preserve, published with
  | true, some published =>
    (published.withVersion snapshot.version).withMembers snapshot.frontendInstances
      snapshot.backendInstances
  | _, _ => snapshot

/-- The older views that exist or are still mounted. -/
def legacyWrites (views : Views) (instances : List Pod) (preserve : Bool) (protocols : List ℕ)
    (snapshot : Snapshot) : List Write :=
  protocols.filterMap fun protocol =>
    let published := views.lookup (viewOf protocol)
    if published.isNone && !consumesView instances protocol then none
    else
      some (.publish (viewOf protocol) published.isSome
        (servingSnapshotForProtocol (legacyView preserve published snapshot) protocol))

section Controller

variable (naming : Naming) (compilation : Compilation) (name uid : String)

/-- The configuration to publish: the published one of the primary view, or else of the newest, or
a projection of the current intent. -/
def candidateContents (previous primary : Option Snapshot) (observation : Observation) :
    Except ReconcileError Snapshot :=
  if observation.preserveConfiguration then
    orError (primary.or previous) (.read .notFound)
  else
    (projectServing naming compilation observation.frontend observation.cluster
      (previous.elim [] (·.models))).mapError .rejected

/-- The writes of a reconcile, in their order. -/
def reconcileServingSnapshot (status : ℕ) (views : Views) (observation : Observation) :
    Except ReconcileError (List Write) :=
  let selected := observation.servingConfigVersion
  let protocols := protocolVersions selected
  let previous := previousSnapshot views protocols
  let primary := views.lookup (viewOf selected)
  if observation.preserveConfiguration = true ∧
      (previous = none ∨ selected < admissionProtocol) then .ok []
  else do
    let instances ← (frontendInstancePods observation.reader name uid observation.frontendPods
      (previous.elim [] (·.frontendInstances))).mapError .read
    let backends ← (backendInstances observation.reader observation.backendPods
      (previous.elim [] (·.backendInstances))).mapError .read
    let contents ← candidateContents naming compilation previous primary observation
    let snapshot := servingSnapshotForProtocol
      (contents.withMembers (sortByOrd (instances.map (·.uid))) backends) selected
    let version ← nextVersion status previous primary
      (missingConsumedView views instances protocols) snapshot
    let snapshot := snapshot.withVersion version
    .ok ((if status < version then [.reserve version] else []) ++
      legacyWrites views instances observation.preserveConfiguration protocols.tail snapshot ++
      [.publish (viewOf selected) primary.isSome snapshot])

/-! ### The controller and its environment -/

/-- What is observed and published. -/
inductive Event where
  | observed (observation : Observation)
  | published (view : ℕ) (snapshot : Snapshot)

/-- The controller and the objects it writes. -/
structure State where
  /-- The version reserved in the frontend's status. -/
  status : ℕ := 0
  views : Views := ∅
  /-- The writes the current reconcile has still to make. -/
  pending : List Write := []
  log : List Event := []

/-- What can happen next. -/
inductive Command where
  | reconcile (observation : Observation)
  /-- The next API call of the current reconcile is executed. -/
  | advance
  /-- The current reconcile ends, by a crash or an API failure. -/
  | fail
  | deleteView (view : ℕ)

/-- A write is executed; a conflict ends the reconcile. -/
def State.write (state : State) : Write → List Write → State
  | .reserve version, rest => { state with status := version, pending := rest }
  | .publish view existed snapshot, rest =>
    if (state.views.lookup view).isSome = existed then
      { state with
        views := state.views.insert view snapshot
        pending := rest
        log := state.log ++ [.published view snapshot] }
    else { state with pending := [] }

/-- One reconcile at a time. -/
def step (state : State) : Command → State
  | .reconcile observation =>
    match state.pending with
    | [] =>
      match reconcileServingSnapshot naming compilation name uid state.status state.views
        observation with
      | .ok writes =>
        { state with pending := writes, log := state.log ++ [.observed observation] }
      | .error _ => state
    | _ :: _ => state
  | .advance =>
    match state.pending with
    | [] => state
    | write :: rest => state.write write rest
  | .fail => { state with pending := [] }
  | .deleteView view => { state with views := state.views.erase view }

/-- The controller as a machine. -/
def controller : Machine State Command Unit where
  init := {}
  step state command := (step naming compilation name uid state command, ())

end Controller

/-! ### What a plan is -/

section Plan

variable {naming : Naming} {compilation : Compilation} {name uid : String} {status : ℕ}
  {views : Views} {observation : Observation}

/-- The candidate of a reconcile: its members and contents, and the version it is given. -/
structure Candidate (naming : Naming) (compilation : Compilation) (name uid : String) (status : ℕ)
    (views : Views) (observation : Observation) where
  instances : List Pod
  backends : List String
  contents : Snapshot
  version : ℕ
  frontendPods : frontendInstancePods observation.reader name uid observation.frontendPods
    ((previousSnapshot views (protocolVersions observation.servingConfigVersion)).elim []
      (·.frontendInstances)) = .ok instances
  backendPods : backendInstances observation.reader observation.backendPods
    ((previousSnapshot views (protocolVersions observation.servingConfigVersion)).elim []
      (·.backendInstances)) = .ok backends
  candidate : candidateContents naming compilation
    (previousSnapshot views (protocolVersions observation.servingConfigVersion))
    (views.lookup (viewOf observation.servingConfigVersion)) observation = .ok contents
  versioned : nextVersion status
    (previousSnapshot views (protocolVersions observation.servingConfigVersion))
    (views.lookup (viewOf observation.servingConfigVersion))
    (missingConsumedView views instances (protocolVersions observation.servingConfigVersion))
    (servingSnapshotForProtocol (contents.withMembers (sortByOrd (instances.map (·.uid))) backends)
      observation.servingConfigVersion) = .ok version

namespace Candidate

variable (candidate : Candidate naming compilation name uid status views observation)

/-- The primary view of a candidate. -/
def snapshot : Snapshot :=
  (servingSnapshotForProtocol
    (candidate.contents.withMembers (sortByOrd (candidate.instances.map (·.uid)))
      candidate.backends) observation.servingConfigVersion).withVersion candidate.version

/-- The version is reserved first and the selected view is published last. -/
def writes : List Write :=
  (if status < candidate.version then [.reserve candidate.version] else []) ++
    legacyWrites views candidate.instances observation.preserveConfiguration
      (protocolVersions observation.servingConfigVersion).tail candidate.snapshot ++
    [.publish (viewOf observation.servingConfigVersion)
      (views.lookup (viewOf observation.servingConfigVersion)).isSome candidate.snapshot]

@[simp] lemma version_snapshot : candidate.snapshot.version = candidate.version := rfl

@[simp] lemma frontendInstances_snapshot :
    candidate.snapshot.frontendInstances = sortByOrd (candidate.instances.map (·.uid)) := by
  rw [snapshot, servingSnapshotForProtocol_withMembers]
  rfl

@[simp] lemma backendInstances_snapshot :
    candidate.snapshot.backendInstances = candidate.backends := by
  rw [snapshot, servingSnapshotForProtocol_withMembers]
  rfl

end Candidate

/-- **A plan is empty, or the writes of a candidate.** -/
lemma writes_of_reconcile {writes : List Write}
    (h : reconcileServingSnapshot naming compilation name uid status views observation =
      .ok writes) :
    writes = [] ∨ ∃ candidate : Candidate naming compilation name uid status views observation,
      writes = candidate.writes := by
  rw [reconcileServingSnapshot] at h
  split_ifs at h with hkeep
  · exact .inl (Except.ok.inj h).symm
  · simp only [bind_eq_ok_iff, mapError_eq_ok_iff] at h
    obtain ⟨xs, hinsts, backends, hback, contents, hcont, version, hver, hwr⟩ := h
    exact .inr ⟨⟨xs, backends, contents, version, hinsts, hback, hcont,
      hver⟩, (Except.ok.inj hwr).symm⟩

/-- **What a command can do** to the controller. -/
inductive Stepped (naming : Naming) (compilation : Compilation) (name uid : String)
    (state : State) : Command → State → Prop
  | idle (command : Command) : Stepped naming compilation name uid state command state
  | observe {observation : Observation} {writes : List Write} (hpending : state.pending = [])
      (hwrites : writes = [] ∨ ∃ candidate : Candidate naming compilation name uid state.status
        state.views observation, writes = candidate.writes) :
      Stepped naming compilation name uid state (.reconcile observation)
        { state with pending := writes, log := state.log ++ [.observed observation] }
  | write {write : Write} {rest : List Write} (hpending : state.pending = write :: rest) :
      Stepped naming compilation name uid state .advance (state.write write rest)
  | fail : Stepped naming compilation name uid state .fail { state with pending := [] }
  | deleteView (view : ℕ) : Stepped naming compilation name uid state (.deleteView view)
      { state with views := state.views.erase view }

lemma stepped (s : State) (c : Command) :
    Stepped naming compilation name uid s c
      (step naming compilation name uid s c) := by
  cases c with
  | reconcile observation =>
    rw [step]
    cases hpend : s.pending with
    | cons => exact .idle _
    | nil =>
      dsimp only
      split
      · rename_i hplan
        exact .observe hpend (writes_of_reconcile hplan)
      · exact .idle _
  | advance =>
    rw [step]
    cases hpend : s.pending with
    | nil => exact .idle _
    | cons => exact .write hpend
  | fail => exact .fail
  | deleteView view => exact .deleteView view

lemma Candidate.publish_mem
    (candidate : Candidate naming compilation name uid status views observation)
    {view : ℕ} {existed : Bool} {snapshot : Snapshot}
    (h : Write.publish view existed snapshot ∈ candidate.writes) :
    (view = viewOf observation.servingConfigVersion ∧ snapshot = candidate.snapshot) ∨
      ∃ protocol ∈ (protocolVersions observation.servingConfigVersion).tail,
        view = protocol ∧ snapshot = servingSnapshotForProtocol
          (legacyView observation.preserveConfiguration (views.lookup view) candidate.snapshot)
          protocol := by
  rw [Candidate.writes, List.mem_append, List.mem_append] at h
  rcases h with (h | h) | h
  · split_ifs at h <;> simp at h
  · obtain ⟨protocol, hprot, hwrite⟩ := List.mem_filterMap.mp h
    have hview : viewOf protocol = protocol :=
      max_eq_left (mem_tail_protocolVersions.mp hprot).2
    dsimp only at hwrite
    split_ifs at hwrite
    obtain ⟨rfl, -, rfl⟩ := Write.publish.inj (Option.some.inj hwrite)
    exact .inr ⟨protocol, hprot, hview, by rw [hview]⟩
  · obtain ⟨rfl, -, rfl⟩ := Write.publish.inj (List.mem_singleton.mp h)
    exact .inl ⟨rfl, rfl⟩

end Plan

end Foretoken.ServingConfig
