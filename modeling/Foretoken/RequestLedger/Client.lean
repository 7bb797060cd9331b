import Foretoken.RequestLedger.Transition

/-!
The Rust client of the ledger (`lib.rs`): how it addresses its commands and what it makes of the
replies. The transport itself is left out, so that the only `Storage` error is a script that
fails.
-/

namespace Foretoken.RequestLedger

/-- `Outcome`. -/
inductive Outcome where
  | applied
  | full
  | busy
  | invalidRole
  | batchTooLarge
  | closed
  | alreadyAccepted
  | backendUnavailable
  deriving DecidableEq, Repr

/-- `LedgerError`, without the errors of a client that has no store. -/
inductive LedgerError where
  | storage
  | unpublished
  | ownerClosed
  | retentionUnavailable
  | completionUnavailable
  | notFinished
  | protocol (reply : Reply)
  deriving DecidableEq

/-- The values the methods return. -/
inductive Value where
  | unit
  | outcome (outcome : Outcome)
  | bool (value : Bool)
  | epoch (value : ℕ)
  | occupancy (waiting active : ℕ)
  | receipts (receipts : Multiset (String × String))
  deriving DecidableEq

/-- A reply as the client receives it: an error of the script is a storage error. -/
def received : Reply → Except LedgerError Reply
  | .unknownTransition => .error .storage
  | .scriptError => .error .storage
  | reply => .ok reply

/-- `outcome`. -/
def outcome (reply : Reply) : Except LedgerError Outcome :=
  match reply with
  | .ok => .ok .applied
  | .full => .ok .full
  | .busy => .ok .busy
  | .role => .ok .invalidRole
  | .batch => .ok .batchTooLarge
  | .closed => .ok .closed
  | .accepted => .ok .alreadyAccepted
  | .backendUnavailable => .ok .backendUnavailable
  | .unavailable => .error .unpublished
  | reply => .error (.protocol reply)

/-- A method that returns its outcome. -/
def outcomeResult (reply : Reply) : Except LedgerError Value := do
  let outcome ← outcome (← received reply)
  return .outcome outcome

/-- A method that only reports that its command has an outcome. -/
def unitResult (reply : Reply) : Except LedgerError Value := do
  let _ ← outcome (← received reply)
  return .unit

/-- What a method makes of the reply to its command. -/
def result (action : Action) (reply : Reply) : Except LedgerError Value :=
  match action with
  -- `register_backend`
  | .recoverBackend _ epoch => do
      let _ ← outcome (← received reply)
      return .epoch epoch
  | .publish _ _ _ _ => unitResult reply
  | .publishMembership _ _ _ => unitResult reply
  | .frontendActive _ => do
      match ← received reply with
      | .active => return .bool true
      | .retired => return .bool false
      | .unavailable => throw .unpublished
      | reply => throw (.protocol reply)
  | .completedConsumers _ => do
      match ← received reply with
      | .consumers receipts => return .receipts receipts
      | reply => throw (.protocol reply)
  | .finished => do
      match ← received reply with
      | .completed => return .bool true
      | .pending => return .bool false
      | .unknown => throw .completionUnavailable
      | .untracked => throw .completionUnavailable
      | reply => throw (.protocol reply)
  | .acknowledge => do
      match ← received reply with
      | .ok => return .unit
      | .pending => throw .notFinished
      | .untracked => throw .completionUnavailable
      | reply => throw (.protocol reply)
  -- `register_frontend`, which parses the allocated epoch and then activates it
  | .allocateOwner _ => do
      match ← received reply with
      | .closed => throw .ownerClosed
      | .epoch (.ofNat value) => return .epoch value
      | _ => throw .unpublished
  | .registerOwner _ epoch => do
      if (← outcome (← received reply)) = .applied then return .epoch epoch
      else throw .ownerClosed
  -- `occupancy`
  | .stats => do
      match ← received reply with
      | .unavailable => throw .unpublished
      | .stats (.ofNat waiting) (.ofNat active) => return .occupancy waiting active
      | reply => throw (.protocol reply)
  | .enqueue _ _ _ _ _ => outcomeResult reply
  | .cancelEntry _ _ _ => unitResult reply
  | .retainCompletion _ => do
      match ← received reply with
      | .ok => return .unit
      | .closed => throw .retentionUnavailable
      | .unavailable => throw .unpublished
      | reply => throw (.protocol reply)
  | .dispatch => outcomeResult reply
  | .retry => outcomeResult reply
  | .accept _ _ _ _ => outcomeResult reply
  -- `cancel`
  | .drop _ => unitResult reply
  | .rejectBeforeSubmission _ _ => unitResult reply
  | .complete _ _ _ => unitResult reply
  -- `cancelled`
  | .status _ => do
      match ← received reply with
      | .closed => return .bool true
      | .slot state => return .bool (state = .cancelling || state = .completed)
      | .unavailable => throw .unpublished
      | reply => throw (.protocol reply)

/-- The commands of a whole model, which the client sends with an empty request id. -/
def Action.ofModel : Action → Bool
  | .recoverBackend _ _ => true
  | .publish _ _ _ _ => true
  | .publishMembership _ _ _ => true
  | .frontendActive _ => true
  | .completedConsumers _ => true
  | .allocateOwner _ => true
  | .registerOwner _ _ => true
  | .stats => true
  | _ => false

/-- A command as the client addresses it: the request id is empty for a command of the
whole model, and the id of a request otherwise. -/
def Command.WellFormed (c : Command) : Prop := c.id = "" ↔ c.action.ofModel

instance (c : Command) : Decidable c.WellFormed := inferInstanceAs (Decidable (_ ↔ _))

end Foretoken.RequestLedger
