import Foretoken.ApiStore.Objects

/-!
The transitions of the API store, lines 158 to 536 of `transition.lua`.

Each action of the script returns the next store and the reply. A call is atomic, so an
interleaving of any number of frontends is a list of calls of `apiStore`.
-/

namespace Foretoken.ApiStore

/-! ### Registration -/

section

variable (s : Store) (c : Call) (id : String)

/-- The registration of a process that is left at a time. -/
def registered (key : Key) (now : ℕ) : Option String :=
  match s.registrations key with
  | some (instanceId, deadline) => if deadline < now then none else some instanceId
  | none => none

/-- `SET registration .. EX`, with `NX` for every action but `register`. -/
def renew : Store :=
  let key : Key := ⟨c.service, c.pod⟩
  let current :=
    match c.action with
    | .register => c.instanceId
    | _ => (registered s key c.now).getD c.instanceId
  { s with
    registrations :=
      Function.update s.registrations key (some (current, c.now + c.ttl * 1000)) }

/-! ### Responses -/

/-- `history`. -/
def history : Reply :=
  match response s c id with
  | none => .notFound
  | some (r, _) =>
    if isPending r.status then .responseBusy
    else
      match rows s (s.shelf.lists (.input (c.key id)) ++ s.shelf.lists (.output (c.key id))) with
      | none => .notFound
      | some result => .ok (.rows (publicRows result))

/-- The reply to a page, with the message of a cursor that is not listed. -/
def pageReply : Option (List (Key × String)) → Reply
  | none => .invalid "the pagination cursor was not found"
  | some result => .ok (.rows (publicRows result))

/-- `response_inputs`. -/
def responseInputs (page : Page) : Reply :=
  match response s c id with
  | none => .notFound
  | some _ => pageReply (itemPage s c (.input (c.key id)) page)

/-- Lines 189-195 of `begin`: the history of the previous response. -/
def previousHistory : Option String → Except Reply (List Key)
  | none => .ok []
  | some previous =>
    match response s c previous with
    | none => .error .notFound
    | some (r, _) =>
      if isPending r.status then .error .responseBusy
      else
        .ok (s.shelf.lists (.input (c.key previous)) ++
          s.shelf.lists (.output (c.key previous)))

/-- Lines 188-201 of `begin`: the inherited items and the conversation to claim. -/
def inherit (new : NewResponse) : Except Reply (List Key × Option (String × Conversation)) :=
  match previousHistory s c new.previous with
  | .error reply => .error reply
  | .ok history =>
    match new.conversation with
    | none => .ok (history, none)
    | some id =>
      match conversation s c id with
      | none => .error .notFound
      | some v =>
        if v.activeResponse ≠ "" then .error .conversationBusy
        else .ok (s.shelf.lists (.items (c.key id)), some (id, v))

/-- The record `begin` writes. -/
def newRecord (new : NewResponse) (start : ℕ) (conversation : String) : Record where
  caller := c.caller
  kind := .response
    { stored := new.stored
      background := new.background
      streamed := new.streamed
      conversation := conversation
      executionPod := new.pod
      executionInstance := new.instanceId
      ledger := new.ledger
      retention := new.retention
      replay := new.replay
      deadline := c.now + new.remainingMillis
      cancelRequested := false
      version := 1
      replayUntil := none
      newInputStart := start }
  model := new.model
  body := new.body
  status := "queued"
  deleted := false
  reservation := new.reservation
  expiresAt := none

/-- Lines 219-223 of `begin`: the conversation is claimed and leaves the expiry index. -/
def claim : Option (String × Conversation) → Store
  | none => s
  | some (conversation, v) =>
    { setConversation s (c.key conversation) { v with activeResponse := id } with
      expiry := s.expiry.remove (.conversation (c.key conversation)) }

/-- Lines 206-224 of `begin`. -/
def started (new : NewResponse) (history : List Key)
    (conv : Option (String × Conversation)) (prepared : List (Key × String)) : Store :=
  let key := c.key new.id
  let s := setRecord s key (newRecord c new history.length ((conv.map Prod.fst).getD ""))
  let s := { s with shelf := s.shelf.pin (.input key) history }
  let s := appendItems s (.input key) c.caller prepared
  let s := claim s c new.id conv
  { s with pending := insert key s.pending }

/-- `begin`. -/
def begin (new : NewResponse) : Store × Reply :=
  match inherit s c new with
  | .error reply => (s, reply)
  | .ok (history, conv) =>
    match rows s history with
    | none => (s, .notFound)
    | some inherited =>
      match prepareItems s c c.caller new.items history with
      | none => (s, .notFound)
      | some prepared =>
        (started s c new history conv prepared,
          .ok (.rows (publicRows (inherited ++ prepared))))

/-- Lines 231-238 of `discard`: the claim of the response is given back. -/
def unclaim (conversation : String) : Store :=
  if conversation = "" then s
  else
    match s.conversations (c.key conversation) with
    | none => s
    | some v =>
      if v.activeResponse = id then
        enqueueExpiry (setConversation s (c.key conversation) { v with activeResponse := "" })
          (.conversation (c.key conversation))
      else s

/-- `discard`. -/
def discard (instanceId : String) : Store :=
  match s.records (c.key id) with
  | none => s
  | some r =>
    match r.kind with
    | .chat _ => s
    | .response e =>
      if e.executionInstance = instanceId ∧ r.status = "queued" then
        dropRecord (unclaim s c id e.conversation) (c.key id)
      else s

/-- `cancel`. -/
def cancel : Store × Reply :=
  match response s c id with
  | none => (s, .notFound)
  | some (r, e) =>
    if !e.background then (s, .invalid "only background responses can be cancelled")
    else if isPending r.status then
      (setRecord s (c.key id) { r with kind := .response { e with cancelRequested := true } },
        .ok (.text r.body))
    else (s, .ok (.text r.body))

/-- `delete_response`. -/
def deleteResponse : Store × Reply :=
  match response s c id with
  | none => (s, .notFound)
  | some (r, _) =>
    if isPending r.status then
      (setRecord s (c.key id) { r with deleted := true }, .ok .empty)
    else
      let s := setRecord s (c.key id) { r with deleted := true, expiresAt := some c.now }
      (if r.reservation = "" then enqueueExpiry s (.record (c.key id)) else s, .ok .empty)

/-- `cancellation_requested`. -/
def cancellationRequested (instanceId : String) : Reply :=
  match s.records (c.key id) with
  | some ⟨_, .response e, _, _, status, _, _, _⟩ =>
    if e.executionInstance ≠ instanceId then .notFound
    else .ok (.flag (e.cancelRequested || !isPending status))
  | _ => .notFound

/-- The record `publish` leaves; without a body it only counts the version up. -/
def publishedRecord (r : Record) (e : Execution) (body status : String) : Record :=
  { r with
    kind := .response { e with version := e.version + 1 }
    body := if body = "" then r.body else body
    status := if body = "" then r.status else status }

/-- `publish`. -/
def publish (instanceId body status : String)
    (events : List (ℕ × String)) : Store × Reply :=
  match s.records (c.key id) with
  | none => (s, .notFound)
  | some r =>
    match r.kind with
    | .chat _ => (s, .notFound)
    | .response e =>
      if e.executionInstance ≠ instanceId then (s, .notFound)
      else if !isPending r.status then (s, .responseBusy)
      else
        ({ setRecord s (c.key id) (publishedRecord r e body status) with
            logs := Function.update s.logs (c.key id)
              ((s.logs (c.key id)).append c.now events) }, .ok .empty)

/-- `failure_snapshot`: the body, the version and the next sequence number. -/
def failureSnapshot : Reply :=
  match s.records (c.key id) with
  | none => .ok (.snapshot none)
  | some r =>
    if !isPending r.status then .ok (.snapshot none)
    else
      match r.kind with
      | .chat _ => .scriptError
      | .response e =>
        let last := ((s.logs (c.key id)).at c.now).events.last
        .ok (.snapshot (some (r.body, e.version, (last.map (·.1 + 1)).getD 0)))

/-- Lines 305-317 of `finish`: the items the turn appends to its conversation, and the
conversation; `none` when the conversation or an input is missing. -/
def completedTurn (f : Completion) (e : Execution) :
    Option (Option Conversation × List (Key × String)) :=
  if e.conversation = "" then some (none, [])
  else
    match s.conversations (c.key e.conversation) with
    | none => none
    | some v =>
      if v.activeResponse = f.id ∧ !v.deleted ∧
          (f.status = "completed" ∨ f.status = "incomplete" ∨ f.items ≠ []) then
        (rows s ((s.shelf.lists (.input (c.key f.id))).drop e.newInputStart)).map fun originals =>
          (some v, originals ++ f.items.map fun item => (c.key item.1, item.2))
      else some (some v, [])

/-- The conversation after its turn is closed. -/
def closedConversation (e : Execution) (v : Conversation) : Conversation :=
  let v := { v with activeResponse := "" }
  if v.deleted then v else { v with expiresAt := c.now + e.retention * 1000 }

/-- Lines 319-326 of `finish`: the turn is appended and the claim given back. -/
def closeTurn (f : Completion) (owner : Caller) (e : Execution) :
    Option Conversation × List (Key × String) → Store
  | (none, _) => s
  | (some v, append) =>
    if v.activeResponse = f.id then
      let s := appendItems s (.items (c.key e.conversation)) owner append
      enqueueExpiry (setConversation s (c.key e.conversation) (closedConversation c e v))
        (.conversation (c.key e.conversation))
    else s

/-- Lines 327-329 of `finish`: how long the response is kept. -/
def retentionOf (r : Record) (e : Execution) : ℕ :=
  if r.deleted || (!e.stored && !e.background) then 0
  else if !e.stored then e.replay
  else e.retention

/-- The record `finish` leaves. -/
def finishedRecord (f : Completion) (r : Record) (e : Execution) : Record :=
  { r with
    kind := .response
      { e with version := e.version + 1, replayUntil := some (c.now + e.replay * 1000) }
    body := f.body
    status := f.status
    expiresAt := some (c.now + retentionOf r e * 1000) }

/-- Lines 318-338 of `finish`. -/
def finished (f : Completion) (r : Record) (e : Execution)
    (turn : Option Conversation × List (Key × String)) : Store :=
  let key := c.key f.id
  let s := appendItems s (.output key) r.caller (f.items.map fun item => (c.key item.1, item.2))
  let s := closeTurn s c f r.caller e turn
  let s := setRecord s key (finishedRecord c f r e)
  let log := ((s.logs key).append c.now f.events).expireAt c.now (c.now + e.replay * 1000)
  let s := { s with logs := Function.update s.logs key log, pending := s.pending.erase key }
  if r.reservation = "" then enqueueExpiry s (.record key)
  else { s with acknowledgements := insert key s.acknowledgements }

/-- `finish`. -/
def finish (f : Completion) : Store × Reply :=
  match s.records (c.key f.id) with
  | none => (s, .notFound)
  | some r =>
    match r.kind with
    | .chat _ =>
      if f.instanceId ≠ "" then (s, .notFound)
      else if !isPending r.status then (s, .ok (.text r.body))
      else (s, .scriptError)
    | .response e =>
      if f.instanceId ≠ "" ∧ e.executionInstance ≠ f.instanceId then (s, .notFound)
      else if !isPending r.status then (s, .ok (.text r.body))
      else if f.version.any (· ≠ e.version) then (s, .changed)
      else
        match completedTurn s c f e with
        | none => (s, .notFound)
        | some turn => (finished s c f r e turn, .ok (.text f.body))

/-- `response`. -/
def responseView : Reply :=
  match response s c id with
  | none => .notFound
  | some (r, e) =>
    .ok (.response r.body r.status e.background e.streamed (expired e.replayUntil c.now))

/-- `replay_until` of a record; a chat has none. -/
def Record.replayUntil (r : Record) : Option ℕ :=
  match r.kind with
  | .response e => e.replayUntil
  | .chat _ => none

/-- `events` and `has_event`, with the read of the log that tells them apart. -/
def replay (read : SortedSet String → Value) : Reply :=
  match s.records (c.key id) with
  | none => .notFound
  | some r =>
    if expired r.replayUntil c.now then .streamExpired
    else .ok (read ((s.logs (c.key id)).at c.now).events)

/-- The row of `pending` for an entry of the index. -/
def pendingRow (now : ℕ) (instanceId ledger : String) (key : Key) : Option PendingRow :=
  match s.records key with
  | some ⟨_, .response e, _, _, _, _, reservation, _⟩ =>
    if e.ledger = ledger then
      some
        { key := key
          reservation := reservation
          executionPod := e.executionPod
          executionInstance := e.executionInstance
          localExecution := e.executionInstance = instanceId
          processReplaced :=
            (registered s ⟨key.scope, e.executionPod⟩ now).any (· ≠ e.executionInstance)
          deadlineExpired := expired (some e.deadline) now }
    else none
  | _ => none

/-- `pending_started`. -/
def pendingStarted (instanceId : String) : Reply :=
  match s.records (c.key id) with
  | some ⟨_, .response e, _, _, status, _, _, _⟩ =>
    if e.executionInstance ≠ instanceId ∨ !isPending status then .ok .empty
    else .ok (.flag (status = "in_progress"))
  | _ => .ok .empty

/-- The row of `pending_acknowledgements` for an entry of the index. -/
def acknowledgementRow (ledger : String) (key : Key) : Option (Key × String) :=
  match s.records key with
  | some ⟨_, .response e, _, _, _, _, reservation, _⟩ =>
    if e.ledger = ledger then some (key, reservation) else none
  | _ => none

/-- `acknowledged`. -/
def acknowledged : Store :=
  match s.records (c.key id) with
  | none => s
  | some r =>
    if isPending r.status then s
    else
      enqueueExpiry
        { setRecord s (c.key id) { r with reservation := "" } with
          acknowledgements := s.acknowledgements.erase (c.key id) }
        (.record (c.key id))

/-! ### Conversations -/

/-- `conversation_body(object, id)`. -/
def conversationBody (v : Conversation) : Reply :=
  .ok (.conversation id v.metadata v.createdAt)

/-- The conversation `conversation_create` writes. -/
def newConversation (metadata : String) (retention : ℕ) : Conversation where
  caller := c.caller
  metadata := metadata
  createdAt := c.now / 1000
  activeResponse := ""
  deleted := false
  expiresAt := c.now + retention * 1000

/-- `conversation_create`. -/
def conversationCreate (metadata : String) (items : List NewItem)
    (retention : ℕ) : Store × Reply :=
  match prepareItems s c c.caller items [] with
  | none => (s, .notFound)
  | some prepared =>
    let v := newConversation c metadata retention
    (enqueueExpiry
        (appendItems (setConversation s (c.key id) v) (.items (c.key id)) c.caller prepared)
        (.conversation (c.key id)),
      conversationBody id v)

/-- `conversation_get`. -/
def conversationGet : Reply :=
  match conversation s c id with
  | none => .notFound
  | some v => conversationBody id v

/-- `conversation_update`. -/
def conversationUpdate (metadata : String) (retention : ℕ) : Store × Reply :=
  match conversation s c id with
  | none => (s, .notFound)
  | some v =>
    let w := { v with metadata := metadata, expiresAt := c.now + retention * 1000 }
    let s := setConversation s (c.key id) w
    (if v.activeResponse = "" then enqueueExpiry s (.conversation (c.key id)) else s,
      conversationBody id w)

/-- `conversation_delete`: the conversation stays until it expires. -/
def conversationDelete : Store × Reply :=
  match conversation s c id with
  | none => (s, .notFound)
  | some v => (setConversation s (c.key id) { v with deleted := true }, .ok .empty)

/-- `conversation_items`. -/
def conversationItems (page : Page) : Reply :=
  match conversation s c id with
  | none => .notFound
  | some _ => pageReply (itemPage s c (.items (c.key id)) page)

/-- `conversation_get_item`. -/
def conversationGetItem (item : String) : Reply :=
  match conversation s c id with
  | none => .notFound
  | some _ =>
    if c.key item ∈ s.shelf.lists (.items (c.key id)) then
      match s.shelf.body (c.key item) with
      | some stored => .ok (.text stored.body)
      | none => .ok .empty
    else .notFound

/-- The last lines of the edits of a conversation's items: its retention is renewed. -/
def touchConversation (v : Conversation) (retention : ℕ) : Store :=
  enqueueExpiry (setConversation s (c.key id) { v with expiresAt := c.now + retention * 1000 })
    (.conversation (c.key id))

/-- `conversation_append`. -/
def conversationAppend (items : List NewItem)
    (retention : ℕ) : Store × Reply :=
  match conversation s c id with
  | none => (s, .notFound)
  | some v =>
    if v.activeResponse ≠ "" then (s, .conversationBusy)
    else
      match prepareItems s c c.caller items (s.shelf.lists (.items (c.key id))) with
      | none => (s, .notFound)
      | some prepared =>
        (touchConversation (appendItems s (.items (c.key id)) c.caller prepared) c id v
            retention,
          .ok (.rows (publicRows prepared)))

/-- `conversation_delete_item`. -/
def conversationDeleteItem (item : String) (retention : ℕ) : Store × Reply :=
  match conversation s c id with
  | none => (s, .notFound)
  | some v =>
    if v.activeResponse ≠ "" then (s, .conversationBusy)
    else if c.key item ∈ s.shelf.lists (.items (c.key id)) then
      let shelf := s.shelf.discard (.items (c.key id)) (c.key item)
      (touchConversation { s with shelf := shelf } c id v retention, conversationBody id v)
    else (s, .notFound)

/-! ### Chats -/

/-- The record `chat_save` writes. -/
def newChatRecord (new : NewChat) : Record where
  caller := c.caller
  kind := .chat new.metadata
  model := new.model
  body := new.body
  status := "completed"
  deleted := false
  reservation := ""
  expiresAt := some (c.now + new.retention * 1000)

/-- `chat_save`. -/
def chatSave (new : NewChat) : Store :=
  let key := c.key new.id
  let s := setRecord s key (newChatRecord c new)
  let s := appendItems s (.input key) c.caller (new.items.map fun item => (c.key item.1, item.2))
  let s :=
    { s with
      chats := Function.update s.chats (c.scope, c.caller)
        ((s.chats (c.scope, c.caller)).add new.id new.createdAt) }
  enqueueExpiry s (.record key)

/-- `chat_get`. -/
def chatGet : Reply :=
  match chat s c id with
  | none => .notFound
  | some (r, _) => .ok (.text r.body)

/-- `chat_messages`. -/
def chatMessages (page : Page) : Reply :=
  match chat s c id with
  | none => .notFound
  | some _ => pageReply (itemPage s c (.input (c.key id)) page)

/-- `chat_update`. -/
def chatUpdate (previousBody body : String)
    (metadata : Option (List (String × String))) : Store × Reply :=
  match chat s c id with
  | none => (s, .notFound)
  | some (r, _) =>
    if r.body ≠ previousBody then (s, .changed)
    else
      (setRecord s (c.key id) { r with body := body, kind := .chat metadata }, .ok (.text body))

/-- `chat_delete`. -/
def chatDelete : Store × Reply :=
  match chat s c id with
  | none => (s, .notFound)
  | some _ => (dropRecord s (c.key id), .ok .empty)

/-- `matches(id)` of `chat_list`. -/
def chatMatches (model : Option String)
    (filter : Option (List (String × String))) (id : String) : Option String :=
  match chat s c id with
  | none => none
  | some (r, metadata) =>
    if model.any (· ≠ r.model) then none
    else
      match filter with
      | none => some r.body
      | some filter =>
        match metadata with
        | none => none
        | some metadata =>
          if filter.all fun pair => metadata.lookup pair.1 = some pair.2 then some r.body
          else none

/-- The inner loop of `chat_list`: it breaks when the page is full. -/
def fillPage (read : String → Option String) (limit : ℕ) : List String → List String → List String
  | [], result => result
  | id :: ids, result =>
    let result := result ++ (read id).toList
    if limit < result.length then result else fillPage read limit ids result

/-- The outer loop of `chat_list` over the members behind the offset, in chunks of
`limit + 1`. Every round with a chunk shortens the rest, which bounds the rounds. -/
def scanPage (read : String → Option String) (limit : ℕ) : ℕ → List String → List String →
    List String
  | 0, _, result => result
  | rounds + 1, rest, result =>
    if limit < result.length then result
    else
      match rest.take (limit + 1) with
      | [] => result
      | id :: ids =>
        scanPage read limit rounds (rest.drop (limit + 1))
          (fillPage read limit (id :: ids) result)

/-- `chat_list`. -/
def chatList (page : Page) (model : Option String)
    (filter : Option (List (String × String))) : Reply :=
  let members := (s.chats (c.scope, c.caller)).members
  let members := if page.ascending then members else members.reverse
  let offset :=
    match page.cursor with
    | none => some 0
    | some cursor =>
      if (chatMatches s c model filter cursor).isSome then
        (members.idxOf? cursor).map (· + 1)
      else none
  match offset with
  | none => .invalid "the pagination cursor was not found"
  | some offset =>
    .ok (.texts (scanPage (chatMatches s c model filter) page.limit (members.length + 1)
      (members.drop offset) []))

/-! ### Collection -/

/-- A deadline of the shared replay index is handed to Redis. -/
def handReplay (now : ℕ) (s : Store) (entry : ℕ × Object) : Store :=
  { s with
    logs :=
      match entry.2 with
      | .record key =>
        Function.update s.logs key (((s.logs key).at now).expireAt now entry.1)
      | .conversation _ => s.logs
    replays := s.replays.remove entry.2 }

/-- `collect` on one object of the expiry index. An entry without an object leaves the
index. -/
def collectObject : Object → Store
  | .record key =>
    match s.records key with
    | some _ => dropRecord s key
    | none => { s with expiry := s.expiry.remove (.record key) }
  | .conversation key =>
    { releaseItems s (.items key) with
      conversations := Function.update s.conversations key none
      expiry := s.expiry.remove (.conversation key) }

/-- `collect`. -/
def collect (now : ℕ) : Store :=
  let s := (s.replays.entries.take 256).foldl (handReplay now) s
  (s.expiry.upTo now 256).foldl collectObject s

/-! ### The machine -/

/-- The action of a call. -/
def perform : Store × Reply :=
  match c.action with
  | .register => (s, .ok .empty)
  | .item id =>
    match itemBody s c.now (c.key id) c.caller with
    | none => (s, .notFound)
    | some body => (s, .ok (.text body))
  | .history id => (s, history s c id)
  | .responseInputs id page => (s, responseInputs s c id page)
  | .begin new => begin s c new
  | .discard id instanceId => (discard s c id instanceId, .ok .empty)
  | .response id => (s, responseView s c id)
  | .cancel id => cancel s c id
  | .deleteResponse id => deleteResponse s c id
  | .cancellationRequested id instanceId => (s, cancellationRequested s c id instanceId)
  | .publish id instanceId body status events => publish s c id instanceId body status events
  | .failureSnapshot id => (s, failureSnapshot s c id)
  | .finish completion => finish s c completion
  | .events id after => (s, replay s c id fun log => .texts (log.above after 256))
  | .hasEvent id sequence => (s, replay s c id fun log => .count (log.countAt sequence))
  | .pending instanceId ledger =>
    (s, .ok (.pending (s.pending.biUnion fun key =>
      (pendingRow s c.now instanceId ledger key).toFinset)))
  | .pendingStarted id instanceId => (s, pendingStarted s c id instanceId)
  | .pendingAcknowledgements ledger =>
    (s, .ok (.acknowledgements (s.acknowledgements.biUnion fun key =>
      (acknowledgementRow s ledger key).toFinset)))
  | .acknowledged id => (acknowledged s c id, .ok .empty)
  | .recordExists id =>
    (s, .ok (.flag ((s.records (c.key id)).isSome || s.misreadsRecord c id)))
  | .conversationCreate id metadata items retention =>
    conversationCreate s c id metadata items retention
  | .conversationGet id => (s, conversationGet s c id)
  | .conversationUpdate id metadata retention => conversationUpdate s c id metadata retention
  | .conversationDelete id => conversationDelete s c id
  | .conversationItems id page => (s, conversationItems s c id page)
  | .conversationAppend id items retention => conversationAppend s c id items retention
  | .conversationGetItem id item => (s, conversationGetItem s c id item)
  | .conversationDeleteItem id item retention => conversationDeleteItem s c id item retention
  | .chatSave new => (chatSave s c new, .ok .empty)
  | .chatGet id => (s, chatGet s c id)
  | .chatMessages id page => (s, chatMessages s c id page)
  | .chatUpdate id previousBody body metadata => chatUpdate s c id previousBody body metadata
  | .chatDelete id => chatDelete s c id
  | .chatList page model metadata => (s, chatList s c page model metadata)
  | .collect => (collect s c.now, .ok .empty)

/-- A read of the script finds a key of another kind, in the order of the reads. -/
def raises : Bool :=
  match c.action with
  | .register | .pending _ _ | .pendingAcknowledgements _ | .recordExists _ | .chatSave _
  | .collect => false
  | .item id => s.misreadsItem c id
  | .history id | .responseInputs id _ | .discard id _ | .response id | .cancel id
  | .deleteResponse id | .cancellationRequested id _ | .publish id _ _ _ _
  | .failureSnapshot id | .events id _ | .hasEvent id _ | .pendingStarted id _
  | .acknowledged id | .chatGet id | .chatMessages id _ | .chatUpdate id _ _ _
  | .chatDelete id => s.misreadsRecord c id
  | .finish completion => s.misreadsRecord c completion.id
  | .begin new =>
    new.previous.any (s.misreadsRecord c) ||
      match previousHistory s c new.previous with
      | .error _ => false
      | .ok _ =>
        new.conversation.any (s.misreadsConversation c) ||
          match inherit s c new with
          | .error _ => false
          | .ok (history, _) => (rows s history).isSome && s.misreadsReference c new.items
  | .conversationCreate _ _ items _ => s.misreadsReference c items
  | .conversationAppend id items _ =>
    s.misreadsConversation c id ||
      (conversation s c id).any fun v => v.activeResponse = "" && s.misreadsReference c items
  | .conversationGet id | .conversationUpdate id _ _ | .conversationDelete id
  | .conversationItems id _ | .conversationGetItem id _ | .conversationDeleteItem id _ _ =>
    s.misreadsConversation c id
  | .chatList page _ _ => page.cursor.any (s.misreadsRecord c)

/-- The script after the renewal: an error leaves the store as it is. -/
def execute : Store × Reply :=
  if raises s c then (s, .scriptError) else perform s c

end

/-- The API store: a call renews its registration and then performs its action. -/
def apiStore : Machine Store Call Reply where
  init := Store.empty
  step s c := execute (renew s c) c

end Foretoken.ApiStore
