import Foretoken.Lib.Machine
import Foretoken.Lib.Shelf
import Foretoken.Lib.SortedSet

/-!
The data model of the API store (`store/transition.lua` of the frontend server).

The store is shared by all frontends of a cluster. An object is stored under a key that joins the
partition of its service, its kind and its id; `Key` keeps the partition and the id apart, and each
kind of key is a table of its own. The ids of stored objects are UUIDs behind a fixed lead, so no
two keys of the store are the same text. An id that a client makes up can be the text of another
kind of key all the same (`record:` of `<id>:input`); such a read raises an error (`raises`).

An empty string that stands for a missing value stays one where the script compares it with an id,
and is `none` for a time. Times are milliseconds, retention periods seconds.
-/

namespace Foretoken.ApiStore

/-- An id in the partition of a service. -/
structure Key where
  scope : String
  id : String
  deriving DecidableEq, Repr

/-- The caller that the ingress resolved. -/
abbrev Caller := Option String

/-- The fields of a response. `newInputStart` is written for a response that claims a
conversation: the place in its input list where its own inputs start. -/
structure Execution where
  stored : Bool
  background : Bool
  streamed : Bool
  conversation : String
  executionPod : String
  executionInstance : String
  ledger : String
  retention : ℕ
  replay : ℕ
  deadline : ℕ
  cancelRequested : Bool
  version : ℕ
  replayUntil : Option ℕ
  newInputStart : ℕ
  deriving DecidableEq, Repr

/-- The two kinds of records. A chat carries the string members of `metadata` in its
body, as `cjson.decode` reads them; `none` when that is no table. -/
inductive Kind where
  | response (execution : Execution)
  | chat (metadata : Option (List (String × String)))
  deriving DecidableEq, Repr

/-- The hash of a record. -/
structure Record where
  caller : Caller
  kind : Kind
  model : String
  body : String
  status : String
  deleted : Bool
  reservation : String
  expiresAt : Option ℕ
  deriving DecidableEq, Repr

/-- The hash of a conversation; `activeResponse` is empty between two turns. -/
structure Conversation where
  caller : Caller
  metadata : String
  createdAt : ℕ
  activeResponse : String
  deleted : Bool
  expiresAt : ℕ
  deriving DecidableEq, Repr

/-- The hash of an item. -/
structure Item where
  caller : Caller
  body : String
  deriving DecidableEq, Repr

/-- The lists of items. -/
inductive ListKey where
  | input (record : Key)
  | output (record : Key)
  | items (conversation : Key)
  deriving DecidableEq, Repr

/-- The objects of the expiry index. -/
inductive Object where
  | record (key : Key)
  | conversation (key : Key)
  deriving DecidableEq, Repr

/-- The text of an object's key. -/
instance : Named Object where
  name
    | .record key => key.scope ++ "record:" ++ key.id
    | .conversation key => key.scope ++ "conversation:" ++ key.id

/-- The object a list belongs to. -/
def ListKey.object : ListKey → Object
  | .input key => .record key
  | .output key => .record key
  | .items key => .conversation key

/-- The replay events of a response by sequence number, and the time Redis deletes
them at. -/
structure EventLog where
  events : SortedSet String
  deadline : Option ℕ

/-- The whole store. -/
structure Store where
  records : Key → Option Record
  conversations : Key → Option Conversation
  shelf : Shelf ListKey Key Item
  logs : Key → EventLog
  chats : String × Caller → SortedSet String
  registrations : Key → Option (String × ℕ)
  expiry : SortedSet Object
  replays : SortedSet Object
  pending : Finset Key
  acknowledgements : Finset Key

/-- A store without keys. -/
def Store.empty : Store where
  records _ := none
  conversations _ := none
  shelf := .empty
  logs _ := ⟨∅, none⟩
  chats _ := ∅
  registrations _ := none
  expiry := ∅
  replays := ∅
  pending := ∅
  acknowledgements := ∅

/-- An item of a request: a reference to a stored item when it has no body. `copyId`
is the id of a repeated reference. -/
structure NewItem where
  id : String
  copyId : String
  body : Option String
  deriving DecidableEq, Repr

/-- The input of `begin`. -/
structure NewResponse where
  id : String
  model : String
  body : String
  stored : Bool
  background : Bool
  streamed : Bool
  previous : Option String
  conversation : Option String
  pod : String
  instanceId : String
  ledger : String
  reservation : String
  items : List NewItem
  retention : ℕ
  replay : ℕ
  remainingMillis : ℕ
  deriving DecidableEq, Repr

/-- The input of `finish`. `instanceId` is empty for a recovery, which names the
`version` it read. The output items are bodies, never references. -/
structure Completion where
  id : String
  instanceId : String
  version : Option ℕ
  body : String
  status : String
  items : List (String × String)
  events : List (ℕ × String)
  deriving DecidableEq, Repr

/-- The input of `chat_save`, with the decoded metadata of the body. -/
structure NewChat where
  id : String
  model : String
  body : String
  metadata : Option (List (String × String))
  createdAt : ℕ
  items : List (String × String)
  retention : ℕ
  deriving DecidableEq, Repr

/-- A page of a listing; `after` tells the direction of the cursor. -/
structure Page where
  cursor : Option String
  after : Bool
  ascending : Bool
  limit : ℕ
  deriving DecidableEq, Repr

/-- The action of a call, with its input. -/
inductive Action where
  | register
  | item (id : String)
  | history (id : String)
  | responseInputs (id : String) (page : Page)
  | begin (new : NewResponse)
  | discard (id instanceId : String)
  | response (id : String)
  | cancel (id : String)
  | deleteResponse (id : String)
  | cancellationRequested (id instanceId : String)
  | publish (id instanceId body status : String) (events : List (ℕ × String))
  | failureSnapshot (id : String)
  | finish (completion : Completion)
  | events (id : String) (after : Option ℕ)
  | hasEvent (id : String) (sequence : ℕ)
  | pending (instanceId ledger : String)
  | pendingStarted (id instanceId : String)
  | pendingAcknowledgements (ledger : String)
  | acknowledged (id : String)
  | recordExists (id : String)
  | conversationCreate (id metadata : String) (items : List NewItem) (retention : ℕ)
  | conversationGet (id : String)
  | conversationUpdate (id metadata : String) (retention : ℕ)
  | conversationDelete (id : String)
  | conversationItems (id : String) (page : Page)
  | conversationAppend (id : String) (items : List NewItem) (retention : ℕ)
  | conversationGetItem (id item : String)
  | conversationDeleteItem (id item : String) (retention : ℕ)
  | chatSave (new : NewChat)
  | chatGet (id : String)
  | chatMessages (id : String) (page : Page)
  | chatUpdate (id previousBody body : String) (metadata : Option (List (String × String)))
  | chatDelete (id : String)
  | chatList (page : Page) (model : Option String) (metadata : Option (List (String × String)))
  | collect
  deriving DecidableEq, Repr

/-- A call of the script: the partition of the calling service, the partition a
recovery names instead, the caller, the registration of the calling process, the
time and the action. -/
structure Call where
  service : String
  scopePartition : Option String := none
  caller : Caller
  pod : String
  instanceId : String
  ttl : ℕ
  now : ℕ
  action : Action
  deriving DecidableEq, Repr

/-- The partition a call works in. -/
def Call.scope (c : Call) : String := c.scopePartition.getD c.service

/-- The key of an id in the partition of the call. -/
def Call.key (c : Call) (id : String) : Key := ⟨c.scope, id⟩

/-- A row of `pending`. -/
structure PendingRow where
  key : Key
  reservation : String
  executionPod : String
  executionInstance : String
  localExecution : Bool
  processReplaced : Bool
  deadlineExpired : Bool
  deriving DecidableEq, Repr

/-- The values of successful calls. -/
inductive Value where
  | empty
  | text (text : String)
  | texts (texts : List String)
  | rows (rows : List (String × String))
  | flag (flag : Bool)
  | count (count : ℕ)
  | response (body status : String) (background streamed replayExpired : Bool)
  | conversation (id metadata : String) (createdAt : ℕ)
  | snapshot (snapshot : Option (String × ℕ × ℕ))
  | pending (rows : Finset PendingRow)
  | acknowledgements (rows : Finset (Key × String))
  deriving DecidableEq

/-- What a call returns. -/
inductive Reply where
  | ok (value : Value)
  | notFound
  | invalid (message : String)
  | conversationBusy
  | responseBusy
  | changed
  | streamExpired
  | scriptError
  deriving DecidableEq

end Foretoken.ApiStore
