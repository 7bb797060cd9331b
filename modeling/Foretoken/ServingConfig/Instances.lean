import Foretoken.ServingConfig.Types

/-!
Membership of frontends and backends (`controllers/frontend/instances.go`,
`internal/workload/ownership.go`).

A Pod becomes a member when its ownership chain is proven, and stays one until a list of Pods shows
it gone, whatever happens to its labels and owners.
-/

namespace Foretoken.ServingConfig

/-- The phase of a pod. -/
inductive PodPhase where
  | pending
  | running
  | succeeded
  | failed
  | unknown
  deriving DecidableEq, Repr

/-- A Pod as membership reads it. `mounts` is the view of this frontend whose ConfigMap the Pod
mounts, when it mounts one. -/
structure Pod where
  uid : String
  phase : PodPhase
  deleting : Bool
  frontendServiceLabel : String
  modelGroupLabel : String
  owners : List OwnerReference
  mounts : Option ℕ
  deriving DecidableEq, Repr

/-- A pod that will not run again. -/
def Pod.Terminal (pod : Pod) : Prop := pod.phase = .succeeded ∨ pod.phase = .failed

instance (pod : Pod) : Decidable pod.Terminal := inferInstanceAs (Decidable (_ ∨ _))

/-- The metadata of an object that owns others. -/
structure Owned where
  name : String
  uid : String
  owners : List OwnerReference
  deriving DecidableEq, Repr

/-- Why a read or a proof of ownership has no result. -/
inductive ReadError where
  | notFound
  | unproven
  | failed
  deriving DecidableEq, Repr

/-- Authoritative reads of objects in the frontend's namespace. -/
abbrev Reader := OwnerKind → String → Except ReadError Owned

section

variable (reader : Reader) (name uid : String) (pod : Pod)

/-! ### Frontends -/

/-- The frontend's Deployment, when it is there and the frontend controls it. -/
def ownedDeployment : Except ReadError (Option Owned) :=
  match reader .deployment name with
  | .ok deployment =>
    .ok (if controllerOwnerMatches deployment.owners .frontendService name uid then
      some deployment else none)
  | .error .notFound => .ok none
  | .error error => .error error

/-- The Pod's ReplicaSet belongs to the Deployment, and the Pod to its ReplicaSet. -/
def proveFrontendPod (deployment : Option Owned) (pod : Pod) : Except ReadError Bool :=
  match deployment, controllerOf pod.owners with
  | some deployment, some owner =>
    if pod.frontendServiceLabel ≠ name ∨ owner.kind ≠ .replicaSet then .ok false
    else
      match reader .replicaSet owner.name with
      | .ok replicaSet =>
        .ok (controllerOwnerMatches replicaSet.owners .deployment deployment.name
            deployment.uid &&
          controllerOwnerMatches pod.owners .replicaSet replicaSet.name replicaSet.uid)
      | .error .notFound => .ok false
      | .error error => .error error
  | _, _ => .ok false

/-- The running pods of the frontend, those published before without a proof. -/
def frontendInstancePods (pods : List Pod)
    (previous : List String) : Except ReadError (List Pod) := do
  let deployment ← ownedDeployment reader name uid
  filterOk (fun pod =>
    if pod.Terminal then .ok false
    else if pod.uid ∈ previous then .ok true
    else proveFrontendPod reader name deployment pod) pods

/-- The ownership chain of a frontend Pod is proven by these reads. -/
def FrontendProven : Prop :=
  ∃ deployment, ownedDeployment reader name uid = .ok (some deployment) ∧
    proveFrontendPod reader name (some deployment) pod = .ok true

end

lemma mem_frontendInstancePods {reader : Reader} {n uid : String} {pods : List Pod}
    {p : List String} {xs : List Pod}
    (h : frontendInstancePods reader n uid pods p = .ok xs) {pod : Pod} :
    pod ∈ xs ↔
      pod ∈ pods ∧ ¬ pod.Terminal ∧ (pod.uid ∈ p ∨ FrontendProven reader n uid pod) := by
  obtain ⟨deployment, hdep, h⟩ := ok_of_bind h
  rw [mem_filterOk h]
  have hproven : proveFrontendPod reader n deployment pod = .ok true ↔
      FrontendProven reader n uid pod := by
    cases deployment with
    | none => simp [FrontendProven, hdep, proveFrontendPod]
    | some => simp [FrontendProven, hdep]
  by_cases hterm : pod.Terminal
  · simp [hterm]
  · by_cases hprev : pod.uid ∈ p <;> simp [hterm, hprev, hproven]

/-! ### Backends -/

section

variable (reader : Reader) (pod : Pod)

/-- One controller link of an unpublished Pod. -/
def readBackendOwner (owners : List OwnerReference) (kind : OwnerKind) : Except ReadError Owned :=
  match controllerOf owners with
  | none => .error .unproven
  | some owner =>
    if owner.kind ≠ kind then .error .unproven
    else do
      let parent ← reader kind owner.name
      if controllerOwnerMatches owners kind parent.name parent.uid then .ok parent
      else .error .unproven

/-- The set that a worker's set hangs on: workers belong to their leader Pod. -/
def leaderStatefulSet (statefulSet : Owned) : Except ReadError Owned :=
  match controllerOf statefulSet.owners with
  | some parent =>
    if parent.kind = .pod then do
      let leader ← readBackendOwner reader statefulSet.owners .pod
      readBackendOwner reader leader.owners .statefulSet
    else .ok statefulSet
  | none => .ok statefulSet

/-- The workload of a Pod, through its Deployment or its LeaderWorkerSet. -/
def backendWorkload : Except ReadError Owned :=
  match controllerOf pod.owners with
  | none => .error .unproven
  | some owner =>
    match owner.kind with
    | .replicaSet => do
        let replicaSet ← readBackendOwner reader pod.owners .replicaSet
        readBackendOwner reader replicaSet.owners .deployment
    | .statefulSet => do
        let statefulSet ← readBackendOwner reader pod.owners .statefulSet
        let statefulSet ← leaderStatefulSet reader statefulSet
        readBackendOwner reader statefulSet.owners .leaderWorkerSet
    | _ => .error .unproven

/-- The group a pod belongs to, by its owners and its label. -/
def modelGroupForPod : Except ReadError Owned := do
  let workload ← backendWorkload reader pod
  let group ← readBackendOwner reader workload.owners .modelGroup
  if pod.modelGroupLabel ≠ group.name then .error .unproven else .ok group

/-- A pod whose group cannot be proved is no backend. -/
def proveBackendPod : Except ReadError Bool :=
  if pod.modelGroupLabel = "" then .ok false
  else
    match modelGroupForPod reader pod with
    | .ok _ => .ok true
    | .error .failed => .error .failed
    | .error _ => .ok false

/-- The running backend pods, those published before without a proof. -/
def backendInstances (pods : List Pod) (previous : List String) :
    Except ReadError (List String) := do
  let instances ← filterOk (fun pod =>
    if pod.Terminal then .ok false
    else if pod.uid ∈ previous then .ok true
    else proveBackendPod reader pod) pods
  .ok (sortByOrd (instances.map (·.uid)))

/-- The ownership chain of a backend Pod is proven by these reads. -/
def BackendProven : Prop :=
  pod.modelGroupLabel ≠ "" ∧ ∃ group, modelGroupForPod reader pod = .ok group

end

/-- The object is read under the name of the controller, and is the controller. -/
def Controls (reader : Reader) (owners : List OwnerReference) (kind : OwnerKind) (parent : Owned) :
    Prop :=
  ∃ owner, controllerOf owners = some owner ∧ owner.kind = kind ∧
    reader kind owner.name = .ok parent ∧
    controllerOwnerMatches owners kind parent.name parent.uid = true

/-- The workload of a Pod: a Deployment through its ReplicaSet, or a LeaderWorkerSet through its
StatefulSet, which for a worker belongs to its leader. -/
def Runs (reader : Reader) (pod : Pod) (workload : Owned) : Prop :=
  (∃ replicaSet, Controls reader pod.owners .replicaSet replicaSet ∧
    Controls reader replicaSet.owners .deployment workload) ∨
  ∃ statefulSet, Controls reader pod.owners .statefulSet statefulSet ∧
    (Controls reader statefulSet.owners .leaderWorkerSet workload ∨
      ∃ leaders, (∃ leader, Controls reader statefulSet.owners .pod leader ∧
          Controls reader leader.owners .statefulSet leaders) ∧
        Controls reader leaders.owners .leaderWorkerSet workload)

section Chain

variable {reader : Reader} {pod : Pod} {workload parent : Owned} {owners : List OwnerReference}
  {kind : OwnerKind}

lemma readBackendOwner_eq_ok :
    readBackendOwner reader owners kind = .ok parent ↔ Controls reader owners kind parent := by
  rw [readBackendOwner, Controls]
  cases controllerOf owners with
  | none => simp
  | some owner =>
    by_cases hkind : owner.kind = kind
    · simp [hkind, bind_eq_ok_iff, ite_eq_iff]
    · simp [hkind]

lemma leaderStatefulSet_eq_ok {statefulSet : Owned} :
    (∃ leaders, leaderStatefulSet reader statefulSet = .ok leaders ∧
      Controls reader leaders.owners .leaderWorkerSet workload) ↔
    Controls reader statefulSet.owners .leaderWorkerSet workload ∨
      ∃ leaders, (∃ leader, Controls reader statefulSet.owners .pod leader ∧
          Controls reader leader.owners .statefulSet leaders) ∧
        Controls reader leaders.owners .leaderWorkerSet workload := by
  rw [leaderStatefulSet]
  cases hset : controllerOf statefulSet.owners with
  | none => simp [Controls, hset]
  | some parent =>
    by_cases hpod : parent.kind = .pod
    · simp [Controls, hset, hpod, bind_eq_ok_iff, readBackendOwner_eq_ok]
    · simp [Controls, hset, hpod]

lemma backendWorkload_eq_ok :
    backendWorkload reader pod = .ok workload ↔ Runs reader pod workload := by
  simp only [Runs, ← leaderStatefulSet_eq_ok]
  rw [backendWorkload]
  cases hpod : controllerOf pod.owners with
  | none => simp [Controls, hpod]
  | some owner =>
    cases hkind : owner.kind <;>
      simp [readBackendOwner_eq_ok, Controls, hpod, hkind, bind_eq_ok_iff]

lemma ownedDeployment_eq_ok {name uid : String} {deployment : Owned} :
    ownedDeployment reader name uid = .ok (some deployment) ↔
      reader .deployment name = .ok deployment ∧
        controllerOwnerMatches deployment.owners .frontendService name uid = true := by
  rw [ownedDeployment]
  cases reader .deployment name with
  | ok d => by_cases hd : d = deployment <;> simp [hd]
  | error error => cases error <;> simp

/-- **A frontend Pod is proven** by its ReplicaSet, the Deployment of that, and the frontend. -/
theorem frontendProven_iff {name uid : String} :
    FrontendProven reader name uid pod ↔ pod.frontendServiceLabel = name ∧
      ∃ deployment replicaSet, (reader .deployment name = .ok deployment ∧
        controllerOwnerMatches deployment.owners .frontendService name uid = true) ∧
        controllerOwnerMatches replicaSet.owners .deployment deployment.name deployment.uid = true ∧
        Controls reader pod.owners .replicaSet replicaSet := by
  simp only [FrontendProven, ownedDeployment_eq_ok, proveFrontendPod, Controls]
  cases controllerOf pod.owners with
  | none => simp
  | some owner =>
    by_cases hlabel : pod.frontendServiceLabel = name ∧ owner.kind = .replicaSet
    · cases hset : reader .replicaSet owner.name with
      | ok => simp [hlabel, hset]
      | error error => cases error <;> simp [hlabel, hset]
    · rw [not_and_or] at hlabel
      rcases hlabel with hlabel | hlabel <;> simp [hlabel]

/-- **A backend Pod is proven** by its workload and the Group of that, whose name it is labelled
with. -/
theorem backendProven_iff :
    BackendProven reader pod ↔ pod.modelGroupLabel ≠ "" ∧ ∃ workload group,
      Runs reader pod workload ∧ Controls reader workload.owners .modelGroup group ∧
        pod.modelGroupLabel = group.name := by
  rw [BackendProven]
  refine and_congr_right fun _ => ?_
  simp only [modelGroupForPod, bind_eq_ok_iff, guard_eq_ok_iff, not_not, backendWorkload_eq_ok,
    readBackendOwner_eq_ok, Except.ok.injEq]
  constructor
  · rintro ⟨_, workload, hruns, group, hcontrols, hlabel, -⟩
    exact ⟨workload, group, hruns, hcontrols, hlabel⟩
  · rintro ⟨workload, group, hruns, hcontrols, hlabel⟩
    exact ⟨group, workload, hruns, group, hcontrols, hlabel, rfl⟩

end Chain

lemma proveBackendPod_eq_true {reader : Reader} {pod : Pod} :
    proveBackendPod reader pod = .ok true ↔ BackendProven reader pod := by
  rw [proveBackendPod, BackendProven]
  by_cases hlabel : pod.modelGroupLabel = ""
  · simp [hlabel]
  · rw [if_neg hlabel]
    cases hgroup : modelGroupForPod reader pod with
    | ok => simp [hlabel]
    | error error => cases error <;> simp

lemma mem_backendInstances {reader : Reader} {pods : List Pod} {p xs : List String}
    (h : backendInstances reader pods p = .ok xs) {uid : String} :
    uid ∈ xs ↔ ∃ pod ∈ pods, pod.uid = uid ∧ ¬ pod.Terminal ∧
      (uid ∈ p ∨ BackendProven reader pod) := by
  obtain ⟨selected, hsel, h⟩ := ok_of_bind h
  obtain rfl := Except.ok.inj h
  rw [mem_sortByOrd, List.mem_map]
  refine exists_congr fun pod => ?_
  rw [mem_filterOk hsel, ← proveBackendPod_eq_true]
  constructor
  · rintro ⟨⟨hmem, hkeep⟩, rfl⟩
    by_cases hterm : pod.Terminal
    · simp [hterm] at hkeep
    · by_cases hprev : pod.uid ∈ p <;> simp_all
  · rintro ⟨hmem, rfl, hterm, hkeep⟩
    refine ⟨⟨hmem, ?_⟩, rfl⟩
    by_cases hprev : pod.uid ∈ p
    · simp [hterm, hprev]
    · simp [hterm, hkeep.resolve_left hprev]

end Foretoken.ServingConfig
