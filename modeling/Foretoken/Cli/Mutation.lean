import Foretoken.Lib.Cell
import Foretoken.Lib.Machine

/-!
Mutations of one deployment (`cli/foretoken/kubernetes/mutation.py`).

A CLI process that holds a deployment keeps its operation id in an annotation of the
InferenceDeployment, and a locked file of that name on its workstation. The annotation is set and
cleared by patches under the identity and version that were read.

A process can be killed at any point, and its kubectl children then go on holding the lock. The
server applies a patch at any time after it was sent, or never. Others may write, delete and create
the instance again, and leave the annotation alone. A second process that recovers the same holder
finds the file locked; here it can go on or be `blocked`.
-/

namespace Foretoken.Cli

open Function

/-- What `DeploymentMutation` reads of an InferenceDeployment. -/
structure Deployment where
  holder : Option ℕ
  deleting : Bool
  deriving DecidableEq

/-- A record of the InferenceDeployment as a process read it. -/
abbrev Current := Versioned Deployment

/-- `_set_holder`: a change of the holder under the record that was read. -/
structure Patch where
  current : Current
  holder : Option ℕ

/-- Where an operation is in `hold`. -/
inductive Stage where
  | waiting
  /-- `_recover_local` has a record with a holder. -/
  | found (current : Current) (owner : ℕ)
  | opened (current : Current) (owner : ℕ)
  | recovering (current : Current) (owner : ℕ)
  | recovered (owner : ℕ)
  | acquiring (current : Current)
  /-- The holder is set, and the process does not know it yet. -/
  | entering (uid : ℕ)
  | body (uid : ℕ)
  | releasing (uid : ℕ)
  | clearing (current : Current)
  | released
  /-- A patch may be left that was sent and neither applied nor refused. -/
  | finished (sent : Option Patch)

/-- The patch that the operation has sent. -/
def Stage.sent (i : ℕ) : Stage → Option Patch
  | .acquiring current => some ⟨current, some i⟩
  | .recovering current _ | .clearing current => some ⟨current, none⟩
  | .finished sent => sent
  | _ => none

/-- The patch went through. -/
def Stage.applied : Stage → Stage
  | .acquiring current => .entering current.uid
  | .recovering _ owner => .recovered owner
  | .clearing _ => .released
  | .finished _ => .finished none
  | stage => stage

/-- The patch met a conflict. -/
def Stage.refused : Stage → Stage
  | .acquiring _ | .recovering .. => .waiting
  | .clearing current => .releasing current.uid
  | .finished _ => .finished none
  | stage => stage

/-- `hold` has returned or raised. -/
def Stage.isFinished : Stage → Bool
  | .finished _ => true
  | _ => false

/-- One run of `hold`, with its process. -/
structure Operation where
  /-- The workstation. -/
  host : ℕ
  /-- The instance the mutation is pinned to. -/
  uid : Option ℕ
  stage : Stage
  alive : Bool
  /-- The kubectl processes that inherited the lock. -/
  children : ℕ

/-- The process or a child of it is there. -/
def Operation.Running (op : Operation) : Prop := op.alive ∨ 0 < op.children

/-- Neither the process nor a child of it has the lock. -/
def Operation.exited (op : Operation) : Bool :=
  (!op.alive || op.stage.isFinished) && op.children = 0

/-- The instance, the operations and their lock files. -/
structure State where
  deployment : Cell Deployment
  operation : ℕ → Option Operation
  /-- The lock file of an operation exists. -/
  file : ℕ → Bool

/-- What happens to one operation. -/
inductive Event where
  /-- `_read`, or the read of `_release`, up to the patch that follows it. -/
  | read
  | openFile
  | lock
  | blocked
  | enter
  | leave
  | unlink
  /-- A timeout or another error. -/
  | fail
  | spawn
  | exit
  | kill
  | apply
  | refuse

/-- A step of the system: of an operation, or of others that write the instance. -/
inductive Command where
  | start (i host : ℕ) (uid : Option ℕ)
  | event (i : ℕ) (e : Event)
  | create
  | write (deleting : Bool)
  | remove

namespace State

variable (s : State) (i : ℕ) (op : Operation)

/-- A change of one operation. -/
def set : State := { s with operation := update s.operation i (some op) }

/-- The lock file of an operation is deleted. -/
def unlink : State := { s with file := update s.file i false }

/-- An operation gets to another stage. -/
def goto (stage : Stage) : State := s.set i { op with stage }

/-- `hold` raises; a patch that may still acquire the instance keeps the file. -/
def fail : State :=
  let failed := s.goto i op (.finished (op.stage.sent i))
  match op.stage with
  | .waiting | .found .. | .opened .. | .recovering .. | .recovered _ => failed.unlink i
  | .acquiring _ | .entering _ | .releasing _ | .clearing _ | .released => failed
  | .body _ | .finished _ => s

/-- One turn of `hold` up to the first write. -/
def read : State :=
  match s.deployment.object with
  | none => s.fail i op
  | some current =>
    if current.value.deleting ∨ ∃ uid ∈ op.uid, current.uid ≠ uid then s.fail i op
    else
      match current.value.holder with
      | some owner => s.goto i { op with uid := some current.uid } (.found current owner)
      | none => s.goto i { op with uid := some current.uid } (.acquiring current)

/-- `_release` -/
def release (uid : ℕ) : State :=
  match s.deployment.object with
  | none => s.goto i op .released
  | some current =>
    if current.uid ≠ uid then s.goto i op .released
    else if current.value.holder ≠ some i then s.goto i op (.finished none)
    else s.goto i op (.clearing current)

/-- A step of the process. -/
def act : Event → Stage → State
  | .read, .waiting => s.read i op
  | .read, .releasing uid => s.release i op uid
  | .openFile, .found current owner =>
    if (∃ q ∈ s.operation owner, q.host = op.host) ∧ s.file owner then
      s.goto i op (.opened current owner)
    else s.goto i op .waiting
  | .lock, .opened current owner =>
    if ∃ q ∈ s.operation owner, q.exited then s.goto i op (.recovering current owner)
    else s.goto i op .waiting
  | .blocked, .opened .. => s.goto i op .waiting
  | .enter, .entering uid => s.goto i op (.body uid)
  | .leave, .body uid => s.goto i op (.releasing uid)
  | .unlink, .recovered owner => (s.goto i op .waiting).unlink owner
  | .unlink, .released => (s.goto i op (.finished none)).unlink i
  | .fail, _ => s.fail i op
  | .spawn, stage =>
    if stage.isFinished then s else s.set i { op with children := op.children + 1 }
  | _, _ => s

/-- The server gets to a patch. -/
def apply (patch : Patch) : State :=
  match s.deployment.swap patch.current fun d => { d with holder := patch.holder } with
  | none => s
  | some deployment =>
    ⟨deployment, update s.operation i (some { op with stage := op.stage.applied }), s.file⟩

/-- One event of an operation; a killed process takes no step itself. -/
def event : Event → State
  | .exit => s.set i { op with children := op.children - 1 }
  | .kill => s.set i { op with alive := false }
  | .apply =>
    match op.stage.sent i with
    | none => s
    | some patch => s.apply i op patch
  | .refuse => s.goto i op op.stage.refused
  | e => if op.alive then s.act i op e op.stage else s

/-- One step of the system. -/
def next : Command → State
  | .start i host uid =>
    match s.operation i with
    | none => ⟨s.deployment, update s.operation i (some ⟨host, uid, .waiting, true, 0⟩),
        update s.file i true⟩
    | some _ => s
  | .event i e =>
    match s.operation i with
    | none => s
    | some op => s.event i op e
  | .create => { s with deployment := s.deployment.create ⟨none, false⟩ }
  | .write deleting => { s with deployment := s.deployment.modify ({ · with deleting }) }
  | .remove => { s with deployment := s.deployment.remove }

/-- The operation is in its body, or was killed there and has a child left. -/
def Occupies (uid : ℕ) : Prop :=
  ∃ op ∈ s.operation i, op.stage = .body uid ∧ op.Running

/-- The operation and its children have exited. -/
def Exited : Prop := ∃ op ∈ s.operation i, op.exited

/-- The instance has the operation for its holder. -/
def Recorded (uid : ℕ) : Prop :=
  ∃ o ∈ s.deployment.object, o.uid = uid ∧ o.value.holder = some i

end State

/-- All operations on one deployment, from no instance on. -/
def mutation : Machine State Command Unit where
  init := ⟨.empty, fun _ => none, fun _ => false⟩
  step s c := (s.next c, ())

end Foretoken.Cli
