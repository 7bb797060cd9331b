import Foretoken.ApiStore.Types

/-!
The helpers of the API store's script, lines 21 to 156 of `transition.lua`.

A reader of the script has `none` for the script's `nil`; a writer maps a store to a store, and the
notifications it publishes leave the store alone.
-/

namespace Foretoken.ApiStore

/-! ### Readers -/

/-- `pending(status)`. -/
def isPending (status : String) : Bool := status = "queued" ∨ status = "in_progress"

/-- `expired(object, field)`, for the value of the field. -/
def expired (time : Option ℕ) (now : ℕ) : Bool := time.any (· ≤ now)

variable (s : Store) (c : Call)

/-- `accessible(object)`. -/
def accessible (r : Record) : Bool :=
  r.caller = c.caller && !r.deleted && !expired r.expiresAt c.now

/-- `record(id, 'response')`. -/
def response (s : Store) (c : Call) (id : String) : Option (Record × Execution) :=
  match s.records (c.key id) with
  | none => none
  | some r =>
    match r.kind with
    | .chat _ => none
    | .response e => if accessible c r && (e.stored || e.background) then some (r, e) else none

/-- `record(id, 'chat')`, with the metadata of the body. -/
def chat (s : Store) (c : Call) (id : String) :
    Option (Record × Option (List (String × String))) :=
  match s.records (c.key id) with
  | none => none
  | some r =>
    match r.kind with
    | .response _ => none
    | .chat metadata => if accessible c r then some (r, metadata) else none

/-- `conversation(id)`: an active turn keeps its conversation beyond its expiry. -/
def conversation (id : String) : Option Conversation :=
  match s.conversations (c.key id) with
  | none => none
  | some v =>
    if v.caller ≠ c.caller ∨ v.deleted ∨ v.activeResponse = "" ∧ v.expiresAt ≤ c.now then none
    else some v

/-- The expiry of an object. -/
def Store.expiresAt (s : Store) : Object → Option ℕ
  | .record key => (s.records key).bind Record.expiresAt
  | .conversation key => (s.conversations key).map Conversation.expiresAt

/-- The test of `item_body` on the object of an owner. -/
def Store.live (now : ℕ) (object : Object) : Bool :=
  !expired (s.expiresAt object) now ||
    match object with
    | .record _ => false
    | .conversation key => (s.conversations key).any (·.activeResponse ≠ "")

/-- `item_body(id, owner)`. -/
def itemBody (now : ℕ) (key : Key) (owner : Caller) : Option String :=
  match s.shelf.body key with
  | none => none
  | some item =>
    if item.caller = owner ∧ ∃ list ∈ s.shelf.owners key, s.live now list.object then
      some item.body
    else none

/-- `rows(ids)`, with the keys of the items. -/
def rows (ids : List Key) : Option (List (Key × String)) :=
  ids.mapM fun key => (s.shelf.body key).map fun item => (key, item.body)

/-- The rows of a reply, under the public ids. -/
def publicRows (rows : List (Key × String)) : List (String × String) :=
  rows.map fun row => (row.1.id, row.2)

/-- `prepare_items(items, seen, owner)`. -/
def prepareItems (s : Store) (c : Call) (owner : Caller) :
    List NewItem → List Key → Option (List (Key × String))
  | [], _ => some []
  | item :: items, seen =>
    let body :=
      match item.body with
      | some body => some body
      | none => itemBody s c.now (c.key item.id) owner
    match body with
    | none => none
    | some body =>
      let key := if c.key item.id ∈ seen then c.key item.copyId else c.key item.id
      (prepareItems s c owner items (key :: seen)).map ((key, body) :: ·)

/-- `LRANGE` with an exclusive upper end. -/
def lrange (list : List Key) (lower upper : ℕ) : List Key := (list.take upper).drop lower

/-- Lines 134-141 of `item_page`: the part of the list a cursor selects. -/
def pageBounds (ids : List Key) (page : Page) : Option (ℕ × ℕ) :=
  match page.cursor with
  | none => some (0, ids.length)
  | some cursor =>
    (ids.idxOf? (c.key cursor)).map fun position =>
      if page.ascending = page.after then (position + 1, ids.length) else (0, position)

/-- `item_page(list)`: the page holds one row more than the limit when there are more. -/
def itemPage (list : ListKey) (page : Page) : Option (List (Key × String)) :=
  let ids := s.shelf.lists list
  match pageBounds c ids page with
  | none => none
  | some (lower, upper) =>
    if page.ascending then rows s (lrange ids lower (min upper (lower + page.limit + 1)))
    else rows s (lrange ids (max lower (upper - (page.limit + 1))) upper).reverse

/-- The replay events that are left at a time. -/
def EventLog.at (log : EventLog) (now : ℕ) : EventLog :=
  if log.deadline.any (· < now) then ⟨∅, none⟩ else log

/-! ### Keys of another kind -/

/-- The id that an ending was put behind, if the text ends in it. -/
def stem (ending id : String) : Option String :=
  if ending.toList <:+ id.toList then
    some (String.ofList (id.toList.take (id.toList.length - ending.toList.length)))
  else none

/-- The text of a record's key is that of a list or of replay events: `HGET` raises. -/
def Store.misreadsRecord (id : String) : Bool :=
  (s.records (c.key id)).isNone &&
    ((stem ":input" id).any (fun x => s.shelf.lists (.input (c.key x)) ≠ []) ||
      (stem ":output" id).any (fun x => s.shelf.lists (.output (c.key x)) ≠ []) ||
      (stem ":events" id).any fun x => ((s.logs (c.key x)).at c.now).events.entries ≠ [])

/-- The text of a conversation's key is that of a list. -/
def Store.misreadsConversation (id : String) : Bool :=
  (s.conversations (c.key id)).isNone &&
    (stem ":items" id).any fun x => s.shelf.lists (.items (c.key x)) ≠ []

/-- The text of an item's key is that of a set of owners. -/
def Store.misreadsItem (id : String) : Bool :=
  (s.shelf.body (c.key id)).isNone &&
    (stem ":owners" id).any fun x => s.shelf.owners (c.key x) ≠ ∅

/-- `prepare_items` comes to a reference that it misreads; one that it does not find ends it
before. -/
def Store.misreadsReference (s : Store) (c : Call) : List NewItem → Bool
  | [] => false
  | item :: items =>
    if item.body.isSome || (itemBody s c.now (c.key item.id) c.caller).isSome then
      s.misreadsReference c items
    else s.misreadsItem c item.id

/-! ### Writers -/

/-- `append_items(object, owner, items)`. -/
def appendItems (list : ListKey) (owner : Caller) (items : List (Key × String)) : Store :=
  { s with shelf := s.shelf.append list (items.map fun item => (item.1, ⟨owner, item.2⟩)) }

/-- `release_items(object, scope)`. -/
def releaseItems (list : ListKey) : Store :=
  { s with shelf := s.shelf.release list }

/-- `enqueue_expiry(object)`. -/
def enqueueExpiry (object : Object) : Store :=
  { s with
    expiry :=
      match s.expiresAt object with
      | none => s.expiry
      | some time => s.expiry.add object time }

/-- The first lines of `drop_record`: a chat leaves the listing of its caller. -/
def dropChat (key : Key) : Store :=
  { s with
    chats :=
      match s.records key with
      | some ⟨caller, .chat _, _, _, _, _, _, _⟩ =>
        Function.update s.chats (key.scope, caller)
          ((s.chats (key.scope, caller)).remove key.id)
      | _ => s.chats }

/-- `drop_record(object, id, scope)`. -/
def dropRecord (key : Key) : Store :=
  let s := releaseItems (releaseItems (dropChat s key) (.input key)) (.output key)
  { s with
    records := Function.update s.records key none
    logs := Function.update s.logs key ⟨∅, none⟩
    pending := s.pending.erase key
    acknowledgements := s.acknowledgements.erase key
    expiry := s.expiry.remove (.record key)
    replays := s.replays.remove (.record key) }

/-- `append_events(object, events)`. -/
def EventLog.append (log : EventLog) (now : ℕ) (events : List (ℕ × String)) : EventLog :=
  events.foldl (fun log event => { log with events := log.events.add event.2 event.1 }) (log.at now)

/-- `PEXPIREAT` of the replay events: a deadline that is over deletes them at once, and
a log without events is no key. -/
def EventLog.expireAt (log : EventLog) (now deadline : ℕ) : EventLog :=
  if deadline ≤ now ∨ log.events.entries = [] then ⟨∅, none⟩ else ⟨log.events, some deadline⟩

/-- `HSET` of a record. -/
def setRecord (key : Key) (r : Record) : Store :=
  { s with records := Function.update s.records key (some r) }

/-- `HSET` of a conversation. -/
def setConversation (key : Key) (v : Conversation) : Store :=
  { s with conversations := Function.update s.conversations key (some v) }

end Foretoken.ApiStore
