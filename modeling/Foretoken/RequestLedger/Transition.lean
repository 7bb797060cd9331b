import Foretoken.RequestLedger.Slots
import Foretoken.Lib.Machine

/-!
The actions of `transition.lua` (lines 86-348), and the ledger as a machine.

`transition` reads as the script does, stage by stage. An action a stage does not name falls
through to the next one, and the last one answers it as an unknown transition. A call is atomic, so
an interleaving of any number of frontends and backends is a list of commands.
-/

namespace Foretoken.RequestLedger

/-! ### Membership, epochs and configuration -/

section

variable (s : Ledger) (id : String) (request : Request)

/-- `recover_backend`. -/
def recoverBackend (pod : String) (epoch : ℕ) : Ledger :=
  match s.backends with
  | none => s
  | some backends =>
    if pod ∉ backends then s
    else
      let previous := count s (.b pod)
      if epoch < previous then s
      else
        let s := if epoch > previous then setCount s (.b pod) epoch else s
        finishBackendSlots
          (fun slot => slot.backendPod = some pod && slot.backendEpoch.any (· < epoch)) s

/-- The `o:` and `b:` fields of processes that are no longer members. -/
def Field.stale (frontends backends : Finset String) : Field → Bool
  | .o frontend => frontend ∉ frontends
  | .b pod => pod ∉ backends
  | _ => false

/-- The body of the last loop of a publication: `HDEL` of a stale epoch. -/
def dropEpoch (frontends backends : Finset String) (counts : Finmap fun _ : Field => ℤ)
    (name : Field) : Finmap fun _ : Field => ℤ :=
  if name.stale frontends backends then counts.erase name else counts

instance (frontends backends : Finset String) : RightCommutative (dropEpoch frontends backends) :=
  ⟨fun counts name name' => by
    unfold dropEpoch
    split_ifs
    · exact Finmap.erase_erase
    all_goals rfl⟩

/-- The published version, `-1` before the first one. -/
def configRevision : ℤ := (s.version.map Int.ofNat).getD (-1)

/-- The membership revision; it defaults to the published version. -/
def membershipRevision : ℤ :=
  (s.membershipVersion.map Int.ofNat).getD (configRevision s)

/-- Lines 103-105: a newer publication replaces the configuration. -/
def publishConfig (version : ℕ) : Option AdmissionConfig → Ledger
  | none => s
  | some config =>
    if version > configRevision s then
      { s with version := some version, config := some config }
    else s

/-- Lines 107-119: a newer membership retires the processes it omits. -/
def publishMembers (version : ℕ) (frontends backends : Finset String) : Ledger :=
  let s :=
    { s with
        membershipVersion := some version
        frontends := some frontends
        backends := some backends }
  let s := retireFrontends (fun request => request.frontend ∈ frontends) s
  let s := finishBackendSlots (fun slot => slot.backendPod.all (· ∉ backends)) s
  { s with counts := s.counts.keys.val.foldl (dropEpoch frontends backends) s.counts }

/-- `publish`, and `publish_membership` for `config = none`. -/
def publish (version : ℕ) (config : Option AdmissionConfig)
    (frontends backends : List String) : Ledger :=
  if version > membershipRevision s then
    publishMembers (publishConfig s version config) version frontends.toFinset backends.toFinset
  else publishConfig s version config

/-- `frontend_active`. -/
def frontendActive (frontend : String) : Reply :=
  match s.frontends with
  | none => .unavailable
  | some frontends => if frontend ∈ frontends then .active else .retired

/-! ### Completion evidence -/

/-- No record, or one with nothing left. -/
def terminated : Bool :=
  (s.records.lookup id).all fun request => request.remaining = 0

/-- `completed_consumers`. -/
def completedConsumers (lead : String) : Multiset (String × String) :=
  s.completions.entries.filterMap fun receipt =>
    if lead.toList.isPrefixOf receipt.2.toList && terminated s receipt.1 then
      some (receipt.1, receipt.2)
    else none

/-- `finished`. -/
def finished : Reply :=
  if s.completions.lookup id = none then
    if s.records.lookup id = none then .unknown else .untracked
  else if terminated s id then .completed
  else .pending

/-- `acknowledge`. -/
def acknowledge : Ledger × Reply :=
  if s.completions.lookup id = none then
    if terminated s id then (s, .ok) else (s, .untracked)
  else if terminated s id then ({ s with completions := s.completions.erase id }, .ok)
  else (s, .pending)

/-! ### Ownership -/

/-- `allocate_owner`. -/
def allocateOwner (frontends : Finset String) (frontend : String) : Ledger × Reply :=
  if frontend ∉ frontends then (s, .closed)
  else
    let value := count s .ownerEpoch + 1
    (setCount s .ownerEpoch value, .epoch value)

/-- `register_owner`. -/
def registerOwner (frontends : Finset String) (frontend : String) (epoch : ℕ) : Ledger × Reply :=
  if frontend ∉ frontends then (s, .closed)
  else
    let current := count s (.o frontend)
    if epoch < current then (s, .closed)
    else if epoch > current then
      let s := setCount s (.o frontend) epoch
      (retireFrontends
        (fun request => request.frontend ≠ frontend || request.epoch = epoch) s, .ok)
    else (s, .ok)

/-- The owner test of `enqueue`, `cancel_entry` and `retain_completion`: the frontend
is a member and the epoch is its active one. -/
def owns (frontends : Finset String) (frontend : String) (epoch : ℕ) : Bool :=
  frontend ∈ frontends ∧ count s (.o frontend) = epoch

/-! ### Admission -/

/-- `rule_for(role, caller)`; without role rules it is the empty rule. -/
def ruleFor (config : AdmissionConfig) (role : Option String) (caller : String) :
    Option RoleRule :=
  if config.roleRules = [] then some ⟨"", none⟩
  else if caller = "" then none
  else config.roleRules.find? fun rule => some rule.role = role

/-- `enqueue`. -/
def enqueue (config : AdmissionConfig) (frontends : Finset String)
    (id frontend : String) (epoch : ℕ) (caller role : String) (units : ℕ) : Ledger × Reply :=
  if !owns s frontends frontend epoch then (s, .closed)
  else
    match s.records.lookup id with
    | some request => if request.cancelled || request.retired then (s, .closed) else (s, .ok)
    | none =>
      match ruleFor config (some role) caller with
      | none => (s, .role)
      | some rule =>
        if units < 1 then (s, .batch)
        else if config.maxWaitingRequests.any (· < units)
            || rule.perCaller.any (fun limits =>
              limits.maxWaitingRequests < units || limits.maxConcurrentRequests < units) then
          (s, .batch)
        else if config.maxWaitingRequests.any fun (most : ℕ) =>
            (most : ℤ) < count s .waiting + units then
          (s, .full)
        else if rule.perCaller.any fun limits =>
            (limits.maxWaitingRequests : ℤ) < count s (.w caller) + units then
          (s, .full)
        else
          let request : Request :=
            { caller := caller
              role := some role
              frontend := frontend
              epoch := epoch
              remaining := units
              slots := List.replicate units { state := .waiting } }
          let s := adjust s .waiting units
          let s := adjust s (.w caller) units
          (save s id request, .ok)

/-- The end of `cancel_entry`: the record is marked and its slots are cancelled. -/
def cancelRecord : Ledger :=
  let done := overSlots cancelSlot s { request with cancelled := true }
  save done.1 id done.2

/-- `cancel_entry`. An unknown batch of the active owner gets a negative record. -/
def cancelEntry (frontends : Finset String) (id frontend : String) (epoch : ℕ)
    (caller : String) : Ledger :=
  match s.records.lookup id with
  | some request => cancelRecord s id request
  | none =>
    if !owns s frontends frontend epoch then s
    else
      cancelRecord s id
        { caller := caller
          role := none
          frontend := frontend
          epoch := epoch
          remaining := 0
          slots := [] }

/-! ### Actions of a present record -/

/-- `retain_completion`. -/
def retainCompletion (frontends : Finset String) (id : String) (request : Request)
    (consumer : String) : Ledger × Reply :=
  if request.cancelled || request.retired || request.accepted || request.remaining = 0
      || !owns s frontends request.frontend request.epoch then
    (s, .closed)
  else ({ s with completions := s.completions.insert id consumer }, .ok)

/-- A slot body of `dispatch`. -/
def Slot.reserve (slot : Slot) : Slot :=
  if slot.state = .waiting then { slot with state := .reserved } else slot

/-- `dispatch`. -/
def dispatch (config : AdmissionConfig) (id : String) (request : Request) : Ledger × Reply :=
  if request.cancelled || request.retired then (s, .closed)
  else
    match ruleFor config request.role request.caller with
    | none => (s, .role)
    | some rule =>
      let needed := request.slots.countP fun slot => slot.state = .waiting
      if rule.perCaller.any fun limits => limits.maxConcurrentRequests < needed then (s, .batch)
      else if rule.perCaller.any fun limits =>
          (limits.maxConcurrentRequests : ℤ) < count s (.a request.caller) + needed then
        (s, .busy)
      else
        let request := { request with slots := request.slots.map Slot.reserve }
        let s := adjust s (.a request.caller) needed
        (save s id request, .ok)

/-- A slot body of `retry`. -/
def Slot.unreserve (slot : Slot) : Slot :=
  if slot.state = .reserved then { slot with state := .waiting } else slot

/-- `retry`. -/
def retry : Ledger × Reply :=
  if request.accepted then (s, .accepted)
  else
    let returned := request.slots.countP fun slot => slot.state = .reserved
    let request := { request with slots := request.slots.map Slot.unreserve }
    let s := adjust s (.a request.caller) (-returned)
    (save s id request, .ok)

/-! ### Actions of one slot -/

/-- `save` of a record whose slot `k` was rewritten. -/
def saveSlot (k : ℕ) (done : Ledger × Request × Slot) : Ledger :=
  save done.1 id { done.2.1 with slots := done.2.1.slots.set k done.2.2 }

/-- `accept`. -/
def accept (k : ℕ) (slot : Slot)
    (owner backendPod : String) (backendEpoch : ℕ) : Ledger × Reply :=
  match s.backends with
  | none => (s, .scriptError)
  | some backends =>
    if backendPod ∉ backends then (s, .backendUnavailable)
    else
      let epoch := count s (.b backendPod)
      if backendEpoch < epoch then (s, .closed)
      else if owner ∈ slot.finishedOwners then (s, .closed)
      else if slot.state = .accepted ∧ slot.owner = some owner then (s, .ok)
      else if slot.state ≠ .reserved ∧ slot.state ≠ .handoff then (s, .closed)
      else
        let s :=
          if slot.state = .reserved then
            adjust (adjust s .waiting (-1)) (.w request.caller) (-1)
          else s
        let s := if backendEpoch > epoch then setCount s (.b backendPod) backendEpoch else s
        let slot :=
          { slot with
              state := .accepted
              owner := some owner
              backendPod := some backendPod
              backendEpoch := some backendEpoch }
        (saveSlot id k (s, { request with accepted := true }, slot), .ok)

/-- The slot body of `reject_before_submission`. -/
def rejectSlot (owner : String) (s : Ledger) (request : Request) (slot : Slot) :
    Ledger × Request × Slot :=
  if owner ∉ slot.finishedOwners
      ∧ (slot.state = .waiting ∨ slot.state = .reserved ∨ slot.state = .handoff
        ∨ slot.held ∧ slot.owner = some owner) then
    finishSlot s request slot
  else (s, request, slot)

/-- The slot body of `complete`. -/
def completeSlot (owner : String) (finalStage : Bool) (s : Ledger) (request : Request)
    (slot : Slot) : Ledger × Request × Slot :=
  if slot.held ∧ slot.owner = some owner then
    let slot := { slot with finishedOwners := insert owner slot.finishedOwners }
    if finalStage ∨ slot.state = .cancelling then finishSlot s request slot
    else (s, request, { slot with state := .handoff })
  else (s, request, slot)

/-! ### The stages of the script -/

/-- Lines 302-348: the actions of one slot. -/
def slotted : Action → Ledger × Reply
  | .accept k owner pod epoch =>
    match request.slots[k]? with
    | none => (s, .closed)
    | some slot => accept s id request k slot owner pod epoch
  | .drop k =>
    match request.slots[k]? with
    | none => (s, .closed)
    | some slot => (saveSlot id k (cancelSlot s request slot), .ok)
  | .rejectBeforeSubmission k owner =>
    match request.slots[k]? with
    | none => (s, .closed)
    | some slot => (saveSlot id k (rejectSlot owner s request slot), .ok)
  | .complete k owner finalStage =>
    match request.slots[k]? with
    | none => (s, .closed)
    | some slot => (saveSlot id k (completeSlot owner finalStage s request slot), .ok)
  | .status k =>
    match request.slots[k]? with
    | none => (s, .closed)
    | some slot => (s, .slot slot.state)
  | _ => (s, .unknownTransition)

/-- Lines 255-300: the actions of a record. -/
def recorded (config : AdmissionConfig) (frontends : Finset String) (id : String)
    (action : Action) : Ledger × Reply :=
  match s.records.lookup id with
  | none =>
    match action with
    | .drop _ => (s, .ok)
    | .complete _ _ _ => (s, .ok)
    | _ => (s, .closed)
  | some request =>
    match action with
    | .retainCompletion consumer => retainCompletion s frontends id request consumer
    | .dispatch => dispatch s config id request
    | .retry => retry s id request
    | action => slotted s id request action

/-- Lines 176-253: the actions under a published configuration. -/
def published (action : Action) : Ledger × Reply :=
  match s.config with
  | none => (s, .unavailable)
  | some config =>
    match s.frontends with
    | none => (s, .scriptError)
    | some frontends =>
      match action with
      | .allocateOwner frontend => allocateOwner s frontends frontend
      | .registerOwner frontend epoch => registerOwner s frontends frontend epoch
      | .stats => (s, .stats (count s .waiting) (count s .active))
      | .enqueue frontend epoch caller role units =>
        if config.closed then (s, .closed)
        else enqueue s config frontends id frontend epoch caller role units
      | .cancelEntry frontend epoch caller =>
        (cancelEntry s frontends id frontend epoch caller, .ok)
      | .dispatch =>
        if config.closed then (s, .closed) else recorded s config frontends id .dispatch
      | action => recorded s config frontends id action

/-- Lines 169-174: an action on a batch whose completion is retained and reached. -/
def guardReply : Action → Reply
  | .status _ => .slot .completed
  | .drop _ => .ok
  | .complete _ _ _ => .ok
  | .rejectBeforeSubmission _ _ => .ok
  | .cancelEntry _ _ _ => .ok
  | _ => .closed

/-- The guard of a completed batch. -/
def guarded (action : Action) : Ledger × Reply :=
  if s.completions.lookup id ≠ none ∧ terminated s id then (s, guardReply action)
  else published s id action

/-- One call of `transition.lua`. -/
def transition : Action → Ledger × Reply
  | .recoverBackend pod epoch => (recoverBackend s pod epoch, .ok)
  | .publish version config frontends backends =>
    (publish s version (some config) frontends backends, .ok)
  | .publishMembership version frontends backends =>
    (publish s version none frontends backends, .ok)
  | .frontendActive frontend => (s, frontendActive s frontend)
  | .completedConsumers lead => (s, .consumers (completedConsumers s lead))
  | .finished => (s, finished s id)
  | .acknowledge => acknowledge s id
  | action => guarded s id action

end

/-- The ledger of one model key as a machine. -/
def ledger : Machine Ledger Command Reply where
  init := .empty
  step s c := transition s c.id c.action

end Foretoken.RequestLedger
