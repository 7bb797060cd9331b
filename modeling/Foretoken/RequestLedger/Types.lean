import Foretoken.Lib.FiniteMap

/-!
The data model of the request ledger (`request-ledger/src/transition.lua`).

One Redis hash holds the ledger of one model. Some of its fields stand alone, and two-letter tags
open the families `r:`, `c:` and the numeric `w:`, `a:`, `o:` and `b:`. No two families share a
name, so the hash is the product `Ledger` of its families, each a finite map.

JSON values are modelled decoded: `cjson.encode` and `cjson.decode` are inverse on the records the
script writes, a field that the script only tests for truth is a `Bool`, and a table used as a set
of keys is a `Finset`. Numbers are integers: versions and epochs are counters, far below the range
where a Lua double loses units.
-/

namespace Foretoken.RequestLedger

/-- The states of a candidate slot. -/
inductive SlotState where
  | waiting | reserved | accepted | handoff | cancelling | completed
  deriving DecidableEq, Repr

/-- One candidate of a batch. -/
structure Slot where
  state : SlotState
  owner : Option String := none
  backendPod : Option String := none
  backendEpoch : Option ℕ := none
  finishedOwners : Finset String := ∅
  deriving DecidableEq

/-- The record of a batch, field `r:<id>`. A negative record, written by
`cancel_entry` for an unknown batch, has no role and no slots. -/
structure Request where
  caller : String
  role : Option String
  frontend : String
  epoch : ℕ
  remaining : ℤ
  accepted : Bool := false
  cancelled : Bool := false
  retired : Bool := false
  slots : List Slot
  deriving DecidableEq

/-- Waiting and unfinished-generation limits of each caller of a role. -/
structure CallerCapacity where
  maxWaitingRequests : ℕ
  maxConcurrentRequests : ℕ
  deriving DecidableEq, Repr

/-- The capacity rule of a role; the script also reads a rule without limits. -/
structure RoleRule where
  role : String
  perCaller : Option CallerCapacity
  deriving DecidableEq, Repr

/-- The published settings the script reads. A removed model is published as
`closed`. -/
structure AdmissionConfig where
  maxWaitingRequests : Option ℕ := none
  roleRules : List RoleRule := []
  closed : Bool := false
  deriving DecidableEq, Repr

/-- The numeric fields: the capacity counters `waiting`, `active`, `w:<caller>`
and `a:<caller>`, the activated epochs `o:<frontend>` and `b:<pod>`, and the
epoch allocator. -/
inductive Field where
  | waiting
  | active
  | w (caller : String)
  | a (caller : String)
  | o (frontend : String)
  | b (pod : String)
  | ownerEpoch
  deriving DecidableEq, Repr

/-- The capacity counters among the numeric fields. -/
def Field.isCounter : Field → Bool
  | .waiting | .active | .w _ | .a _ => true
  | _ => false

/-- The hash of one model key. -/
structure Ledger where
  version : Option ℕ
  config : Option AdmissionConfig
  membershipVersion : Option ℕ
  frontends : Option (Finset String)
  backends : Option (Finset String)
  counts : Finmap fun _ : Field => ℤ
  records : Finmap fun _ : String => Request
  completions : Finmap fun _ : String => String
  deriving DecidableEq

/-- A key that does not exist yet. -/
def Ledger.empty : Ledger := ⟨none, none, none, none, none, ∅, ∅, ∅⟩

/-- The action of a call, with its input. -/
inductive Action where
  | recoverBackend (pod : String) (epoch : ℕ)
  | publish (version : ℕ) (config : AdmissionConfig) (frontends backends : List String)
  | publishMembership (version : ℕ) (frontends backends : List String)
  | frontendActive (frontend : String)
  | completedConsumers (lead : String)
  | finished
  | acknowledge
  | allocateOwner (frontend : String)
  | registerOwner (frontend : String) (epoch : ℕ)
  | stats
  | enqueue (frontend : String) (epoch : ℕ) (caller role : String) (units : ℕ)
  | cancelEntry (frontend : String) (epoch : ℕ) (caller : String)
  | retainCompletion (consumer : String)
  | dispatch
  | retry
  | accept (slot : ℕ) (owner backendPod : String) (backendEpoch : ℕ)
  | drop (slot : ℕ)
  | rejectBeforeSubmission (slot : ℕ) (owner : String)
  | complete (slot : ℕ) (owner : String) (finalStage : Bool)
  | status (slot : ℕ)
  deriving DecidableEq

/-- A call of the script: the request id (empty for the actions of a whole model)
and the action. -/
structure Command where
  id : String
  action : Action
  deriving DecidableEq

/-- What a call returns. -/
inductive Reply where
  | ok
  | full
  | busy
  | role
  | batch
  | closed
  | accepted
  | backendUnavailable
  | unavailable
  | active
  | retired
  | untracked
  | unknown
  | pending
  | completed
  | epoch (value : ℤ)
  | stats (waiting active : ℤ)
  | consumers (receipts : Multiset (String × String))
  | slot (state : SlotState)
  | unknownTransition
  | scriptError
  deriving DecidableEq

end Foretoken.RequestLedger
