import Foretoken.ApiStore.Transition

/-!
What one call of the API store can do, said once.

`Effect s c (s', reply)` lists the writes of the script with the tests that lead to them, one
constructor a write. The invariants of the following modules are case analyses over it.
-/

namespace Foretoken.ApiStore

open Option SortedSet

variable {s : Store} {c : Call} {id : String} {r : Record} {new : NewResponse}

/-! ### Lookups -/

lemma response_eq_some {e : Execution} :
    response s c id = some (r, e) ↔
      s.records (c.key id) = some r ∧ r.kind = .response e ∧ accessible c r = true
        ∧ (e.stored || e.background) = true := by
  fun_cases response <;> grind

lemma chat_eq_some {m : Option (List (String × String))} :
    chat s c id = some (r, m) ↔
      s.records (c.key id) = some r ∧ r.kind = .chat m ∧ accessible c r = true := by
  fun_cases chat <;> grind

lemma conversation_eq_some {v : Conversation} :
    conversation s c id = some v ↔
      s.conversations (c.key id) = some v ∧ v.caller = c.caller ∧ v.deleted = false
        ∧ (v.activeResponse = "" → c.now < v.expiresAt) := by
  fun_cases conversation <;> grind

lemma accessible_caller (h : accessible c r = true) : r.caller = c.caller := by
  simp only [accessible, Bool.and_eq_true, decide_eq_true_eq] at h
  exact h.1.1

/-! ### Begin and finish -/

/-- What `begin` takes over. -/
inductive Inherited (s : Store) (c : Call) (new : NewResponse) :
    List Key → Option (String × Conversation) → Prop
  | nothing (hnone : new.conversation = none) : Inherited s c new [] none
  | previous {id : String} {r : Record} {e : Execution} (hnone : new.conversation = none)
      (hprevious : new.previous = some id) (hr : response s c id = some (r, e))
      (hstatus : isPending r.status = false) :
      Inherited s c new
        (s.shelf.lists (.input (c.key id)) ++ s.shelf.lists (.output (c.key id))) none
  | claimed {id : String} {v : Conversation} (hconversation : new.conversation = some id)
      (hv : conversation s c id = some v) (hactive : v.activeResponse = "") :
      Inherited s c new (s.shelf.lists (.items (c.key id))) (some (id, v))

lemma inherited_of_inherit {xs : List Key} {conv : Option (String × Conversation)}
    (h : inherit s c new = .ok (xs, conv)) : Inherited s c new xs conv := by
  revert h
  fun_cases inherit with
  | case2 history hprev hnone =>
    rintro ⟨⟩
    -- no conversation is named: the history is that of the previous response
    generalize hid : new.previous = previous at hprev
    revert hprev
    fun_cases previousHistory s c previous with
    | case1 =>
      rintro ⟨⟩
      exact .nothing hnone
    | case4 id r e hr hstat =>
      rintro ⟨⟩
      exact .previous hnone hid hr (by simpa using hstat)
    | _ => rintro ⟨⟩
  | case5 history hprev id hconv v hv hactive =>
    rintro ⟨⟩
    exact .claimed hconv hv (not_not.mp hactive)
  | _ => rintro ⟨⟩

lemma previousHistory_error {previous : Option String} {reply : Reply}
    (h : previousHistory s c previous = .error reply) (value : Value) : reply ≠ .ok value := by
  revert h
  fun_cases previousHistory <;> rintro ⟨⟩ <;> simp

lemma inherit_error {reply : Reply} (h : inherit s c new = .error reply) (value : Value) :
    reply ≠ .ok value := by
  revert h
  fun_cases inherit with
  | case1 e hprev =>
    rintro ⟨⟩
    exact previousHistory_error hprev value
  | _ => rintro ⟨⟩ <;> simp

lemma begin_eq_ok {value : Value} (h : (begin s c new).2 = .ok value) :
    ∃ history conv inherited prepared, inherit s c new = .ok (history, conv)
      ∧ rows s history = some inherited
      ∧ prepareItems s c c.caller new.items history = some prepared
      ∧ value = .rows (publicRows (inherited ++ prepared))
      ∧ (begin s c new).1 = started s c new history conv prepared := by
  revert h
  fun_cases begin with
  | case1 reply hinh => exact fun h => absurd h (inherit_error hinh value)
  | case4 history conv hinh inherited hrows prepared hprep =>
    rintro ⟨⟩
    exact ⟨history, conv, inherited, prepared, hinh, hrows, hprep, rfl, rfl⟩
  | _ => rintro ⟨⟩

/-- The turn of a completion is kept in the conversation. -/
def Completion.Kept (f : Completion) : Prop :=
  f.status = "completed" ∨ f.status = "incomplete" ∨ f.items ≠ []

instance (f : Completion) : Decidable f.Kept :=
  inferInstanceAs (Decidable (f.status = "completed" ∨ f.status = "incomplete" ∨ f.items ≠ []))

/-- The output items under their keys. -/
def outputRows (c : Call) (items : List (String × String)) : List (Key × String) :=
  items.map fun item => (c.key item.1, item.2)

/-- What `finish` does with the conversation of its response. -/
inductive CompletedTurn (s : Store) (c : Call) (f : Completion) (e : Execution) :
    Option Conversation × List (Key × String) → Prop
  | alone (hconversation : e.conversation = "") : CompletedTurn s c f e (none, [])
  | kept {v : Conversation} {originals : List (Key × String)} (hconversation : e.conversation ≠ "")
      (hv : s.conversations (c.key e.conversation) = some v) (hactive : v.activeResponse = f.id)
      (hdeleted : v.deleted = false) (hkept : f.Kept)
      (hrows : rows s ((s.shelf.lists (.input (c.key f.id))).drop e.newInputStart)
        = some originals) :
      CompletedTurn s c f e (some v, originals ++ outputRows c f.items)
  | left {v : Conversation} (hconversation : e.conversation ≠ "")
      (hv : s.conversations (c.key e.conversation) = some v)
      (hleft : ¬(v.activeResponse = f.id ∧ v.deleted = false ∧ f.Kept)) :
      CompletedTurn s c f e (some v, [])

lemma completedTurn_eq_some {f : Completion} {e : Execution}
    {turn : Option Conversation × List (Key × String)} (h : completedTurn s c f e = some turn) :
    CompletedTurn s c f e turn := by
  revert h
  fun_cases completedTurn with
  | case1 hconv =>
    rintro ⟨⟩
    exact .alone hconv
  | case2 => rintro ⟨⟩
  | case3 hconv v hv hcond =>
    intro h
    obtain ⟨originals, hrows, rfl⟩ := map_eq_some_iff.mp h
    exact .kept hconv hv hcond.1 (by simpa using hcond.2.1) hcond.2.2 hrows
  | case4 hconv v hv hcond =>
    rintro ⟨⟩
    exact .left hconv hv (by simpa [Completion.Kept] using hcond)

/-! ### The effects -/

/-- A call that is answered without a write: a read, or an action with nothing left to do. -/
def Quiet (s : Store) (c : Call) : Prop :=
  match c.action with
  | .begin _ => False
  | .discard id instanceId =>
    ∀ r e, s.records (c.key id) = some r → r.kind = .response e →
      ¬(e.executionInstance = instanceId ∧ r.status = "queued")
  | .cancel id => ∀ r e, response s c id = some (r, e) → isPending r.status = false
  | .deleteResponse _ => False
  | .publish _ _ _ _ _ => False
  | .finish f => ∃ r, s.records (c.key f.id) = some r ∧ isPending r.status = false
  | .acknowledged id => ∀ r, s.records (c.key id) = some r → isPending r.status = true
  | .conversationCreate _ _ _ _ => False
  | .conversationUpdate _ _ _ => False
  | .conversationDelete _ => False
  | .conversationAppend _ _ _ => False
  | .conversationDeleteItem _ _ _ => False
  | .chatSave _ => False
  | .chatUpdate _ _ _ _ => False
  | .chatDelete _ => False
  | .collect => False
  | _ => True

/-- The writes of the script. -/
inductive Effect (s : Store) (c : Call) : Store × Reply → Prop
  | rejected {reply : Reply} (hreply : ∀ value, reply ≠ .ok value) : Effect s c (s, reply)
  | quiet {value : Value} (hquiet : Quiet s c) : Effect s c (s, .ok value)
  | begun {new : NewResponse} {history : List Key} {conv : Option (String × Conversation)}
      {inherited prepared : List (Key × String)} (haction : c.action = .begin new)
      (hinherited : Inherited s c new history conv) (hrows : rows s history = some inherited)
      (hprepared : prepareItems s c c.caller new.items history = some prepared) :
      Effect s c
        (started s c new history conv prepared, .ok (.rows (publicRows (inherited ++ prepared))))
  | discarded {id instanceId : String} {r : Record} {e : Execution}
      (haction : c.action = .discard id instanceId) (hr : s.records (c.key id) = some r)
      (hkind : r.kind = .response e) (hinstance : e.executionInstance = instanceId)
      (hqueued : r.status = "queued") :
      Effect s c (dropRecord (unclaim s c id e.conversation) (c.key id), .ok .empty)
  | cancelled {id : String} {r : Record} {e : Execution} (haction : c.action = .cancel id)
      (hr : response s c id = some (r, e)) (hpending : isPending r.status = true) :
      Effect s c
        (setRecord s (c.key id) { r with kind := .response { e with cancelRequested := true } },
          .ok (.text r.body))
  | hidden {id : String} {r : Record} {e : Execution} (haction : c.action = .deleteResponse id)
      (hr : response s c id = some (r, e)) (hpending : isPending r.status = true) :
      Effect s c (setRecord s (c.key id) { r with deleted := true }, .ok .empty)
  | deleted {id : String} {r : Record} {e : Execution} (haction : c.action = .deleteResponse id)
      (hr : response s c id = some (r, e)) (hterminal : isPending r.status = false) :
      Effect s c
        (let s := setRecord s (c.key id) { r with deleted := true, expiresAt := some c.now }
          if r.reservation = "" then enqueueExpiry s (.record (c.key id)) else s, .ok .empty)
  | published {id instanceId body status : String} {events : List (ℕ × String)} {r : Record}
      {e : Execution} (haction : c.action = .publish id instanceId body status events)
      (hr : s.records (c.key id) = some r) (hkind : r.kind = .response e)
      (hinstance : e.executionInstance = instanceId) (hpending : isPending r.status = true) :
      Effect s c
        ({ setRecord s (c.key id) (publishedRecord r e body status) with
            logs := Function.update s.logs (c.key id)
              ((s.logs (c.key id)).append c.now events) }, .ok .empty)
  | finished {f : Completion} {r : Record} {e : Execution}
      {turn : Option Conversation × List (Key × String)} (haction : c.action = .finish f)
      (hr : s.records (c.key f.id) = some r) (hkind : r.kind = .response e)
      (hinstance : f.instanceId = "" ∨ e.executionInstance = f.instanceId)
      (hpending : isPending r.status = true) (hversion : ∀ v ∈ f.version, v = e.version)
      (hturn : CompletedTurn s c f e turn) :
      Effect s c (finished s c f r e turn, .ok (.text f.body))
  | acknowledged {id : String} {r : Record} (haction : c.action = .acknowledged id)
      (hr : s.records (c.key id) = some r) (hterminal : isPending r.status = false) :
      Effect s c
        (enqueueExpiry
          { setRecord s (c.key id) { r with reservation := "" } with
            acknowledgements := s.acknowledgements.erase (c.key id) }
          (.record (c.key id)), .ok .empty)
  | conversationCreated {id metadata : String} {items : List NewItem} {retention : ℕ}
      {prepared : List (Key × String)}
      (haction : c.action = .conversationCreate id metadata items retention)
      (hprepared : prepareItems s c c.caller items [] = some prepared) :
      Effect s c
        (enqueueExpiry
          (appendItems (setConversation s (c.key id) (newConversation c metadata retention))
            (.items (c.key id)) c.caller prepared)
          (.conversation (c.key id)), conversationBody id (newConversation c metadata retention))
  | conversationUpdated {id metadata : String} {retention : ℕ} {v : Conversation}
      (haction : c.action = .conversationUpdate id metadata retention)
      (hv : conversation s c id = some v) :
      Effect s c
        (let w := { v with metadata := metadata, expiresAt := c.now + retention * 1000 }
          let s := setConversation s (c.key id) w
          (if v.activeResponse = "" then enqueueExpiry s (.conversation (c.key id)) else s,
            conversationBody id w))
  | conversationDeleted {id : String} {v : Conversation}
      (haction : c.action = .conversationDelete id) (hv : conversation s c id = some v) :
      Effect s c (setConversation s (c.key id) { v with deleted := true }, .ok .empty)
  | conversationAppended {id : String} {items : List NewItem} {retention : ℕ}
      {v : Conversation} {prepared : List (Key × String)}
      (haction : c.action = .conversationAppend id items retention)
      (hv : conversation s c id = some v) (hactive : v.activeResponse = "")
      (hprepared : prepareItems s c c.caller items (s.shelf.lists (.items (c.key id)))
        = some prepared) :
      Effect s c
        (touchConversation (appendItems s (.items (c.key id)) c.caller prepared) c id v retention,
          .ok (.rows (publicRows prepared)))
  | itemDeleted {id item : String} {retention : ℕ} {v : Conversation}
      (haction : c.action = .conversationDeleteItem id item retention)
      (hv : conversation s c id = some v) (hactive : v.activeResponse = "")
      (hitem : c.key item ∈ s.shelf.lists (.items (c.key id))) :
      Effect s c
        (touchConversation
          { s with shelf := s.shelf.discard (.items (c.key id)) (c.key item) } c id v retention,
          conversationBody id v)
  | chatSaved {new : NewChat} (haction : c.action = .chatSave new) :
      Effect s c (chatSave s c new, .ok .empty)
  | chatUpdated {id previousBody body : String} {metadata : Option (List (String × String))}
      {r : Record} {previous : Option (List (String × String))}
      (haction : c.action = .chatUpdate id previousBody body metadata)
      (hr : chat s c id = some (r, previous)) (hbody : r.body = previousBody) :
      Effect s c
        (setRecord s (c.key id) { r with body := body, kind := .chat metadata },
          .ok (.text body))
  | chatDeleted {id : String} {r : Record} {metadata : Option (List (String × String))}
      (haction : c.action = .chatDelete id) (hr : chat s c id = some (r, metadata)) :
      Effect s c (dropRecord s (c.key id), .ok .empty)
  | collected (haction : c.action = .collect) : Effect s c (collect s c.now, .ok .empty)

lemma read_effect (h : Quiet s c) (rp : Reply) : Effect s c (s, rp) := by
  cases rp with
  | ok => exact .quiet h
  | _ => exact .rejected (by simp)

lemma begin_effect (hact : c.action = .begin new) : Effect s c (begin s c new) := by
  fun_cases begin with
  | case1 reply hinh => exact .rejected (inherit_error hinh)
  | case4 history conv hinh inherited hrows prepared hprep =>
    exact .begun hact (inherited_of_inherit hinh) hrows hprep
  | _ => exact .rejected (by simp)

lemma discard_effect {i : String} (hact : c.action = .discard id i) :
    Effect s c (discard s c id i, .ok .empty) := by
  fun_cases discard with
  | case3 r hr e hkind hcond => exact .discarded hact hr hkind hcond.1 hcond.2
  | _ => exact .quiet (by grind [Quiet])

lemma cancel_effect (hact : c.action = .cancel id) : Effect s c (cancel s c id) := by
  fun_cases cancel with
  | case3 r e hr hdone hpend => exact .cancelled hact hr hpend
  | case4 => exact .quiet (by simp_all [Quiet])
  | _ => exact .rejected (by simp)

lemma deleteResponse_effect (hact : c.action = .deleteResponse id) :
    Effect s c (deleteResponse s c id) := by
  fun_cases deleteResponse with
  | case1 => exact .rejected (by simp)
  | case2 r e hr hpend => exact .hidden hact hr hpend
  | case3 r e hr hpend => exact .deleted hact hr (by simpa using hpend)

lemma publish_effect {i body t : String} {es : List (ℕ × String)}
    (hact : c.action = .publish id i body t es) :
    Effect s c (publish s c id i body t es) := by
  fun_cases publish with
  | case5 r hr e hkind hinst hpend =>
    exact .published hact hr hkind (not_not.mp hinst) (by simpa using hpend)
  | _ => exact .rejected (by simp)

lemma finish_effect {f : Completion} (hact : c.action = .finish f) :
    Effect s c (finish s c f) := by
  have hquiet : ∀ r, s.records (c.key f.id) = some r → isPending r.status = false →
      Effect s c (s, .ok (.text r.body)) := by
    intro r hr hterm
    exact .quiet (by simp [Quiet, hact, hr, hterm])
  fun_cases finish with
  | case3 r hr _ _ _ hterm | case6 r hr _ _ _ hterm => exact hquiet r hr (by simpa using hterm)
  | case9 r hr e hkind hinst hpend hver turn hturn =>
    refine .finished hact hr hkind ?_ (by simpa using hpend) (by simp_all [any_eq_true])
      (completedTurn_eq_some hturn)
    tauto
  | _ => exact .rejected (by simp)

lemma acknowledged_effect (hact : c.action = .acknowledged id) :
    Effect s c (acknowledged s c id, .ok .empty) := by
  fun_cases acknowledged with
  | case3 r hr hterm => exact .acknowledged hact hr (by simpa using hterm)
  | _ => exact .quiet (by simp_all [Quiet])

lemma conversationAppend_effect {xs : List NewItem} {n : ℕ}
    (hact : c.action = .conversationAppend id xs n) :
    Effect s c (conversationAppend s c id xs n) := by
  fun_cases conversationAppend with
  | case4 v hv hactive ps hprep => exact .conversationAppended hact hv (not_not.mp hactive) hprep
  | _ => exact .rejected (by simp)

lemma conversationDeleteItem_effect {item : String} {n : ℕ}
    (hact : c.action = .conversationDeleteItem id item n) :
    Effect s c (conversationDeleteItem s c id item n) := by
  fun_cases conversationDeleteItem with
  | case3 v hv hactive hitem => exact .itemDeleted hact hv (not_not.mp hactive) hitem
  | _ => exact .rejected (by simp)

/-- **The effect of a call.** -/
theorem perform_effect (s : Store) (c : Call) : Effect s c (perform s c) := by
  rw [perform]
  split
  case h_2 id hact =>
    split
    · exact .rejected (by simp)
    · exact .quiet (by rw [Quiet, hact]; trivial)
  case h_5 new hact => exact begin_effect hact
  case h_6 id instanceId hact => exact discard_effect hact
  case h_8 id hact => exact cancel_effect hact
  case h_9 id hact => exact deleteResponse_effect hact
  case h_11 id instanceId body status events hact => exact publish_effect hact
  case h_13 f hact => exact finish_effect hact
  case h_19 id hact => exact acknowledged_effect hact
  case h_21 id m items retention hact =>
    fun_cases conversationCreate with
    | case1 => exact .rejected (by simp)
    | case2 ps hprep => exact .conversationCreated hact hprep
  case h_23 id m retention hact =>
    fun_cases conversationUpdate with
    | case1 => exact .rejected (by simp)
    | case2 v hv => exact .conversationUpdated hact hv
  case h_24 id hact =>
    fun_cases conversationDelete with
    | case1 => exact .rejected (by simp)
    | case2 v hv => exact .conversationDeleted hact hv
  case h_26 id items retention hact => exact conversationAppend_effect hact
  case h_28 id item retention hact => exact conversationDeleteItem_effect hact
  case h_29 new hact => exact .chatSaved hact
  case h_32 id previousBody body m hact =>
    fun_cases chatUpdate with
    | case3 r p hr hbody => exact .chatUpdated hact hr (not_not.mp hbody)
    | _ => exact .rejected (by simp)
  case h_33 id hact =>
    fun_cases chatDelete with
    | case1 => exact .rejected (by simp)
    | case2 row hr => exact .chatDeleted hact hr
  case h_35 hact => exact .collected hact
  -- the reads
  all_goals
    rename_i hact
    exact read_effect (by rw [Quiet, hact]; trivial) _

/-! ### Calls without an effect -/

/-- A call has its effect, or it raises. -/
lemma execute_effect (s : Store) (c : Call) : Effect s c (execute s c) := by
  rw [execute]
  split_ifs
  · exact .rejected (by simp)
  · exact perform_effect s c

lemma execute_of_not_raises (h : raises s c = false) : execute s c = perform s c := by
  rw [execute, h]
  rfl

lemma execute_of_ok {value : Value} (h : (execute s c).2 = .ok value) :
    execute s c = perform s c := by
  rw [execute] at h ⊢
  split_ifs at h ⊢
  rfl

/-- The read of a record that is there does not raise. -/
lemma misreadsRecord_of_some (hr : s.records (c.key id) = some r) :
    s.misreadsRecord c id = false := by
  rw [Store.misreadsRecord, hr]
  rfl

/-- **A rejected call has no effect**: of the whole store only the registration of the calling
frontend is touched. -/
theorem rejected_call_has_no_effect (s : Store) (c : Call)
    (h : ∀ value, apiStore.reply s c ≠ .ok value) :
    ∃ registrations : Key → Option (String × ℕ), apiStore.next s c = { s with registrations } ∧
      ∀ key ≠ ⟨c.service, c.pod⟩, registrations key = s.registrations key := by
  have heffect : Effect (renew s c) c (apiStore.next s c, apiStore.reply s c) :=
    execute_effect (renew s c) c
  refine ⟨(renew s c).registrations, ?_, fun key hkey => Function.update_of_ne hkey _ _⟩
  generalize apiStore.next s c = after, apiStore.reply s c = reply at h heffect ⊢
  cases heffect with
  | rejected => rfl
  | _ => exact absurd rfl (h _)

/-- An item that does not exist cannot be appended to a conversation. -/
theorem missing_reference_has_no_effect :
    let call := fun now action =>
      (⟨"svc:", none, some "alice", "pod", "run", 60, now, action⟩ : Call)
    let s := apiStore.next Store.empty
      (call 1 (.conversationCreate "conv" "" [⟨"a", "", some "A"⟩] 9))
    let append := call 2 (.conversationAppend "conv" [⟨"a", "b", none⟩, ⟨"gone", "", none⟩] 9)
    apiStore.reply s append = .notFound ∧
      (apiStore.next s append).shelf.lists = s.shelf.lists := by
  intro call s append
  have hreply : apiStore.reply s append = .notFound := by decide
  obtain ⟨_, hnext, -⟩ := rejected_call_has_no_effect s append (by simp [hreply])
  exact ⟨hreply, by rw [hnext]⟩

lemma unclaim_eq (s : Store) (c : Call) (id v : String) :
    ∃ vs expiry, unclaim s c id v
      = { s with conversations := vs, expiry := expiry } := by
  rw [unclaim]
  split
  · exact ⟨_, _, rfl⟩
  · split
    · exact ⟨_, _, rfl⟩
    · split <;> exact ⟨_, _, rfl⟩

/-! ### Collection, one object at a time -/

lemma expiry_collectObject (s : Store) (o : Object) :
    (collectObject s o).expiry = s.expiry.remove o := by
  cases o with
  | record =>
    rw [collectObject]
    split <;> rfl
  | conversation => rfl

lemma foldl_collectObject {I : Store → Prop} {now : ℕ}
    (hobj : ∀ s o t, I s → s.expiry.score o = some t → t ≤ now → I (collectObject s o))
    {objects : List Object} (hnodup : objects.Nodup) (hs : I s)
    (hdue : ∀ o ∈ objects, ∃ t, s.expiry.score o = some t ∧ t ≤ now) :
    I (objects.foldl collectObject s) := by
  induction objects generalizing s with
  | nil => exact hs
  | cons o objects ih =>
    rw [List.nodup_cons] at hnodup
    obtain ⟨t, hscore, ht⟩ := hdue o (List.mem_cons_self ..)
    refine ih hnodup.2 (hobj s o t hs hscore ht) fun o' ho' => ?_
    -- the other objects keep their entries
    have hne : o' ≠ o := fun heq => hnodup.1 (heq ▸ ho')
    rw [expiry_collectObject, score_remove, if_neg hne]
    exact hdue o' (List.mem_cons_of_mem _ ho')

/-- **The rule of collection**: what the hand-over of a replay deadline keeps, and the
collection of an object that is due, `collect` keeps. -/
theorem collect_induction {I : Store → Prop} {now : ℕ} (hs : I s)
    (hrep : ∀ s e, I s → I (handReplay now s e))
    (hobj : ∀ s o t, I s → s.expiry.score o = some t → t ≤ now → I (collectObject s o)) :
    I (collect s now) := by
  have hhanded : ∀ (es : List (ℕ × Object)) (s : Store), I s →
      I (es.foldl (handReplay now) s) := by
    intro es
    induction es with
    | nil => exact fun s hs => hs
    | cons e es ih => exact fun s hs => ih _ (hrep s e hs)
  refine foldl_collectObject hobj (nodup_upTo _ _ _) (hhanded _ s hs) ?_
  intro o ho
  exact score_of_mem_upTo ho

end Foretoken.ApiStore
