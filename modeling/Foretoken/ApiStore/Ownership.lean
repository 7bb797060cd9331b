import Foretoken.ApiStore.Consistent

/-!
The reference count of the stored items is exact in every run: every effect of a fresh call is a
composition of writes that keep `Consistent`.
-/

namespace Foretoken.ApiStore

open List Option Foretoken.Shelf ListKey

open Function

variable {S : Shelf ListKey Key Item} {owner : Caller} {seen ids : List Key} {s : Store}
  {c : Call} {new : NewResponse} {items : List NewItem}

/-! ### Generated ids -/

/-- The ids generated for the items of a request: the id of an item with a body, and
the id of a copy. -/
def generated (items : List NewItem) : List String :=
  items.flatMap fun item => (item.body.map fun _ => item.id).toList ++ [item.copyId]

/-- The records a call creates. -/
def Action.newRecords : Action → List String
  | .begin new => [new.id]
  | .chatSave new => [new.id]
  | _ => []

/-- The conversations a call creates. -/
def Action.newConversations : Action → List String
  | .conversationCreate id _ _ _ => [id]
  | _ => []

/-- The items a call creates. The output of a completion that comes too late may be
stored already. -/
def newItems (s : Store) (c : Call) : List String :=
  match c.action with
  | .begin new => generated new.items
  | .conversationCreate _ _ items _ => generated items
  | .conversationAppend _ items _ => generated items
  | .chatSave new => new.items.map Prod.fst
  | .finish f =>
    if (s.records (c.key f.id)).any fun r => isPending r.status then f.items.map Prod.fst else []
  | _ => []

/-- The generated ids of a call are new. -/
def Fresh (s : Store) (c : Call) : Prop :=
  (∀ id ∈ c.action.newRecords, id ≠ "" ∧ s.records (c.key id) = none)
    ∧ (∀ id ∈ c.action.newConversations, id ≠ "" ∧ s.conversations (c.key id) = none)
    ∧ (newItems s c).Nodup ∧ ∀ id ∈ newItems s c, s.shelf.body (c.key id) = none

instance (s : Store) (c : Call) : Decidable (Fresh s c) :=
  inferInstanceAs (Decidable (_ ∧ _ ∧ _ ∧ _))

lemma key_injective (c : Call) : Function.Injective c.key := by
  intro a b h
  exact (Key.mk.inj h).2

/-! ### Prepared items -/

/-- Rows that can be appended to a list that holds `seen`. -/
structure Prepared (S : Shelf ListKey Key Item) (owner : Caller) (seen : List Key)
    (rows : List (Key × String)) : Prop where
  nodup : (rows.map Prod.fst).Nodup
  unseen : ∀ x ∈ rows.map Prod.fst, x ∉ seen
  agrees : S.Agrees (storedRows owner rows)

lemma Prepared.nil (S : Shelf ListKey Key Item) (owner : Caller) (seen : List Key) :
    Prepared S owner seen [] := by
  constructor <;> simp [Agrees, storedRows]

lemma Prepared.cons {x : Key} {body : String} {rows : List (Key × String)} (hx : x ∉ seen)
    (hbody : S.body x = none ∨ S.body x = some ⟨owner, body⟩)
    (h : Prepared S owner (x :: seen) rows) : Prepared S owner seen ((x, body) :: rows) where
  nodup := by
    rw [map_cons, nodup_cons]
    refine ⟨fun hmem => ?_, h.nodup⟩
    exact h.unseen x hmem (mem_cons_self ..)
  unseen y hy := by
    rw [map_cons, mem_cons] at hy
    rcases hy with rfl | hy
    · exact hx
    · exact fun hseen => h.unseen y hy (mem_cons_of_mem _ hseen)
  agrees item hitem := by
    rw [storedRows, map_cons, mem_cons] at hitem
    rcases hitem with rfl | hitem
    · exact hbody
    · exact h.agrees item hitem

/-- Items that are listed without a body leave the bodies alone. -/
lemma Prepared.pin {rows : List (Key × String)} (h : Prepared S owner seen rows) (l : ListKey)
    (xs : List Key) :
    Prepared (S.pin l xs) owner seen rows where
  nodup := h.nodup
  unseen := h.unseen
  agrees row hrow := by
    rw [body_pin]
    exact h.agrees row hrow

lemma itemBody_eq_some {now : ℕ} {x : Key} {body : String}
    (h : itemBody s now x owner = some body) : s.shelf.body x = some ⟨owner, body⟩ := by
  rw [itemBody] at h
  split at h
  · cases h
  · rename_i item hitem
    split at h
    · rename_i hcond
      cases h
      rw [hitem, ← hcond.1]
    · cases h

lemma prepareItems_congr {s' : Store}
    (h : ∀ id, itemBody s' c.now (c.key id) owner = itemBody s c.now (c.key id) owner)
    (items : List NewItem) (seen : List Key) :
    prepareItems s' c owner items seen = prepareItems s c owner items seen := by
  induction items generalizing seen with
  | nil => rfl
  | cons item items ih =>
    rw [prepareItems, prepareItems, h]
    simp only [ih]

lemma prepareItems_renew (s : Store) (c : Call) (owner : Caller) (items : List NewItem)
    (seen : List Key) : prepareItems (renew s c) c owner items seen
      = prepareItems s c owner items seen := by
  refine prepareItems_congr (fun id => ?_) items seen
  rfl

lemma begin_next {value : Value} (hact : c.action = .begin new)
    (hreply : apiStore.reply s c = .ok value) :
    ∃ history conv inherited prepared, inherit s c new = .ok (history, conv)
      ∧ rows s history = some inherited
      ∧ prepareItems s c c.caller new.items history = some prepared
      ∧ value = .rows (publicRows (inherited ++ prepared))
      ∧ apiStore.next s c = started (renew s c) c new history conv prepared := by
  have hperf : execute (renew s c) c = begin (renew s c) c new := by
    rw [execute_of_ok hreply, perform, hact]
  have hbegin : (begin (renew s c) c new).2 = .ok value := hperf ▸ hreply
  obtain ⟨history, conv, inherited, prepared, hinhe, hrows, hprep, rfl, hstarted⟩ :=
    begin_eq_ok hbegin
  rw [prepareItems_renew] at hprep
  refine ⟨history, conv, inherited, prepared, hinhe, hrows, hprep, rfl, ?_⟩
  rw [← hstarted, ← hperf]
  rfl

lemma generated_cons (item : NewItem) (items : List NewItem) :
    generated (item :: items)
      = (item.body.map fun _ => item.id).toList ++ item.copyId :: generated items := by
  simp [generated]

lemma prepareItems_spec {rows : List (Key × String)} (hnodup : (generated items).Nodup)
    (hfresh : ∀ id ∈ generated items, s.shelf.body (c.key id) = none ∧ c.key id ∉ seen)
    (h : prepareItems s c owner items seen = some rows) : Prepared s.shelf owner seen rows := by
  induction items generalizing seen rows with
  | nil =>
    cases h
    exact .nil _ _ _
  | cons item items ih =>
    rw [generated_cons] at hnodup hfresh
    rw [prepareItems] at h
    split at h
    · cases h
    · rename_i body hbody
      obtain ⟨rest, hrest, rfl⟩ := map_eq_some_iff.mp h
      have hcopy := hfresh item.copyId (by simp)
      have htail : ∀ id ∈ generated items, id ≠ item.copyId := by
        rintro id hid rfl
        have := (nodup_append.mp hnodup).2.1
        exact (nodup_cons.mp this).1 hid
      -- a reference is stored, an item with a body is generated
      have hown : s.shelf.body (c.key item.id) = some ⟨owner, body⟩
          ∨ item.id ∈ (item.body.map fun _ => item.id).toList := by
        cases hitem : item.body with
        | none =>
          rw [hitem] at hbody
          exact .inl (itemBody_eq_some hbody)
        | some => simp
      have hne : ∀ id ∈ generated items, c.key id ≠ c.key item.id := by
        intro id hid heq
        rcases hown with hstored | hnew
        · have hnone := (hfresh id (by simp [hid])).1
          simp [heq, hstored] at hnone
        · rw [key_injective c heq] at hid
          exact (nodup_append.mp hnodup).2.2 _ hnew _ (mem_cons_of_mem _ hid) rfl
      refine .cons ?_ ?_ (ih ?_ ?_ hrest)
      · split
        · exact hcopy.2
        · assumption
      · split
        · exact .inl hcopy.1
        · rcases hown with hstored | hnew
          · exact .inr hstored
          · exact .inl (hfresh item.id (mem_append_left _ hnew)).1
      · exact (nodup_cons.mp (nodup_append.mp hnodup).2.1).2
      · intro id hid
        have hid' := hfresh id (by simp [hid])
        refine ⟨hid'.1, ?_⟩
        rw [mem_cons, not_or]
        refine ⟨?_, hid'.2⟩
        split
        · exact fun heq => htail id hid (key_injective c heq)
        · exact hne id hid

/-! ### The effects keep the invariant -/

/-- The invariant of a store. -/
abbrev Store.Consistent (s : Store) : Prop :=
  ApiStore.Consistent s.records s.conversations s.shelf

lemma Inherited.spec {history : List Key} {conv : Option (String × Conversation)}
    (hs : s.Consistent) (h : Inherited s c new history conv) :
    history.Nodup ∧ ∀ x ∈ history, ∃ body, s.shelf.body x = some ⟨c.caller, body⟩ := by
  cases h with
  | nothing => simp
  | @previous id r e hnone hprev hr =>
    obtain ⟨hrec, -, hacc, -⟩ := response_eq_some.mp hr
    have hcaller : callerOf s.records s.conversations (.record (c.key id)) = some c.caller := by
      rw [callerOf, hrec, map_some, accessible_caller hacc]
    constructor
    · refine (hs.exact.nodup _).append (hs.exact.nodup _) (hs.apart _ _ rfl (by simp))
    · intro x hx
      rcases mem_append.mp hx with hx | hx
      · exact hs.caller_of_mem (l := .input (c.key id)) hcaller hx
      · exact hs.caller_of_mem (l := .output (c.key id)) hcaller hx
  | @claimed id v hconv hv =>
    obtain ⟨hv', hcaller, -⟩ := conversation_eq_some.mp hv
    refine ⟨hs.exact.nodup _, fun x hx => ?_⟩
    refine hs.caller_of_mem ?_ hx
    rw [object, callerOf, hv', map_some, hcaller]

/-- A new record holds nothing before `begin` claims it. -/
lemma Inherited.not_claims {history : List Key} {conv : Option (String × Conversation)}
    (h : Inherited s c new history conv) (hid : new.id ≠ "") (n : ℕ) (key : Key) (start : ℕ) :
    ¬ Claims (update s.records (c.key new.id)
        (some (newRecord c new n ((conv.map Prod.fst).getD ""))))
      s.conversations (c.key new.id) key start := by
  rintro ⟨r, e, v, hr, hkind, hne, rfl, -, hv, hactive⟩
  rw [update_self] at hr
  cases hr
  cases hkind
  cases h with
  | nothing | previous => exact hne rfl
  | @claimed id w hconv hw hidle =>
    have hw' := (conversation_eq_some.mp hw).1
    have heq : s.conversations (c.key id) = some v := hv
    rw [hw'] at heq
    cases heq
    exact hid (hactive.symm.trans hidle)

section Begin

variable {history : List Key} {conv : Option (String × Conversation)}
  {prepared : List (Key × String)}

section

variable (hs : s.Consistent) (h : Inherited s c new history conv) (hid : new.id ≠ "")
  (hnew : s.records (c.key new.id) = none) (hprep : Prepared s.shelf c.caller history prepared)
include hs h hid hnew hprep

/-- The record of `begin` with its input list, before the claim. -/
lemma begun_consistent :
    ApiStore.Consistent (update s.records (c.key new.id)
        (some (newRecord c new history.length ((conv.map Prod.fst).getD ""))))
      s.conversations
      ((s.shelf.pin (.input (c.key new.id)) history).append (.input (c.key new.id))
        (storedRows c.caller prepared)) := by
  have hclaims := h.not_claims hid history.length
  have hempty : ∀ l : ListKey, l.object = .record (c.key new.id) → s.shelf.lists l = [] := by
    intro l hl
    exact hs.lists_eq_nil (by rw [hl, callerOf, hnew, map_none])
  have hrec := hs.insertRecord hnew hid (hclaims ·)
  have hcaller : callerOf (update s.records (c.key new.id)
      (some (newRecord c new history.length ((conv.map Prod.fst).getD "")))) s.conversations
        (.record (c.key new.id)) = some c.caller := by
    rw [callerOf, update_self]
    rfl
  have hfree : ∀ key k start, Claims (update s.records (c.key new.id)
      (some (newRecord c new history.length ((conv.map Prod.fst).getD "")))) s.conversations
        key k start → input (c.key new.id) ≠ .input key
          ∧ input (c.key new.id) ≠ .items k := by
    intro key k start hclaim
    refine ⟨?_, by simp⟩
    rintro heq
    cases heq
    exact hclaims k start hclaim
  obtain ⟨hnodup, hbody⟩ := h.spec hs
  have hpinned := hrec.pin (l := .input (c.key new.id)) hcaller hnodup
    (fun x _ l hl => by simp [hempty l hl]) hbody hfree
  refine hpinned.append hcaller hprep.nodup ?_ ?_ hfree
  · intro x hx l hl
    rw [lists_pin, update_apply]
    split
    · rw [hempty _ rfl]
      exact hprep.unseen x hx
    · simp [hempty l hl]
  · intro item hitem
    rw [body_pin]
    exact hprep.agrees item hitem

lemma started_consistent :
    (started s c new history conv prepared).Consistent := by
  have hbegun := begun_consistent hs h hid hnew hprep
  have hempty := hs.lists_eq_nil (by rw [object, callerOf, hnew, map_none])
  cases h with
  | nothing | previous => exact hbegun
  | @claimed id v hconv hv =>
    have hv' := (conversation_eq_some.mp hv).1
    refine hbegun.setConversation hv' rfl ?_
    rintro key start ⟨r, e, w, hr, hkind, -, hkey, hstart, hw, hwactive⟩
    rw [update_self] at hw
    cases hw
    -- the only claim is the one of the new response
    have hk : key = c.key new.id := by
      cases key
      obtain ⟨rfl, -⟩ := Key.mk.inj hkey
      cases hwactive
      rfl
    subst hk
    rw [update_self] at hr
    cases hr
    cases hkind
    subst hstart
    rw [lists_append, lists_pin, update_self, update_self, hempty,
      update_of_ne (by simp), update_of_ne (by simp)]
    refine ⟨by simp, ?_⟩
    rw [callerOf, callerOf, update_self, hv']
    exact congrArg some (conversation_eq_some.mp hv).2.1.symm

end

lemma lists_started :
    (started s c new history conv prepared).shelf.lists
      = update s.shelf.lists (.input (c.key new.id))
        (s.shelf.lists (.input (c.key new.id)) ++ history ++ prepared.map Prod.fst) := by
  have hshelf : (started s c new history conv prepared).shelf
      = (s.shelf.pin (.input (c.key new.id)) history).append (.input (c.key new.id))
        (storedRows c.caller prepared) := by
    cases conv with
    | none | some => rfl
  rw [hshelf, lists_append, lists_pin, update_self, map_fst_storedRows, update_idem]

lemma records_started :
    (started s c new history conv prepared).records = update s.records (c.key new.id)
        (some (newRecord c new history.length ((conv.map Prod.fst).getD ""))) := by
  cases conv with
  | none | some => rfl

end Begin

section Finish

variable {f : Completion} {r : Record} {e : Execution}
  {turn : Option Conversation × List (Key × String)}

lemma rows_eq_some {rs : List (Key × String)} (h : rows s ids = some rs) :
    rs.map Prod.fst = ids
      ∧ ∀ row ∈ rs, ∃ u, s.shelf.body row.1 = some ⟨u, row.2⟩ := by
  induction ids generalizing rs with
  | nil =>
    cases h
    simp
  | cons x ids ih =>
    rw [rows, mapM_cons] at h
    cases hx : s.shelf.body x with
    | none => simp [hx] at h
    | some item =>
      cases hrest : rows s ids with
      | none =>
        rw [rows] at hrest
        simp [hrest] at h
      | some =>
        have hrest' := hrest
        rw [rows] at hrest
        simp only [hx, map_some, hrest, bind_eq_bind, bind_some,
          Option.pure_def, Option.some.injEq] at h
        subst h
        obtain ⟨hids, hbodies⟩ := ih hrest'
        refine ⟨by rw [map_cons, hids], ?_⟩
        intro row hrow
        rcases mem_cons.mp hrow with rfl | hrow
        · exact ⟨item.caller, hx⟩
        · exact hbodies row hrow

lemma rows_congr {s' : Store} (h : ∀ x ∈ ids, s'.shelf.body x = s.shelf.body x) :
    rows s' ids = rows s ids := by
  induction ids with
  | nil => rfl
  | cons x ids ih =>
    have htail := ih fun y hy => h y (mem_cons_of_mem _ hy)
    rw [rows, rows] at htail
    rw [rows, rows, mapM_cons, mapM_cons, h x (mem_cons_self ..), htail]

lemma closeTurn_records (s : Store) (owner : Caller) :
    (closeTurn s c f owner e turn).records = s.records := by
  obtain ⟨v, rows⟩ := turn
  cases v with
  | none => rfl
  | some =>
    rw [closeTurn]
    split <;> rfl

/-- The output items are written to their list before the turn is closed. -/
def withOutput (s : Store) (c : Call) (f : Completion) (owner : Caller) : Store :=
  appendItems s (.output (c.key f.id)) owner (outputRows c f.items)

lemma finished_records :
    (finished s c f r e turn).records
      = update s.records (c.key f.id) (some (finishedRecord c f r e)) := by
  have hrecs : (closeTurn (withOutput s c f r.caller) c f r.caller e turn).records = s.records :=
    closeTurn_records (withOutput s c f r.caller) r.caller
  rw [finished]
  split <;> exact congrArg (update · _ _) hrecs

lemma finished_conversations :
    (finished s c f r e turn).conversations
      = (closeTurn (withOutput s c f r.caller) c f r.caller e turn).conversations := by
  rw [finished]
  split <;> rfl

lemma finished_shelf :
    (finished s c f r e turn).shelf
      = (closeTurn (withOutput s c f r.caller) c f r.caller e turn).shelf := by
  rw [finished]
  split <;> rfl

/-- The output items of a completion are new. -/
structure FreshOutput (s : Store) (c : Call) (items : List (String × String)) : Prop where
  nodup : (items.map Prod.fst).Nodup
  unused : ∀ id ∈ items.map Prod.fst, s.shelf.body (c.key id) = none

lemma map_fst_outputRows (c : Call) (items : List (String × String)) :
    (outputRows c items).map Prod.fst = (items.map Prod.fst).map c.key := by
  simp [outputRows]

lemma FreshOutput.prepared {items : List (String × String)} (h : FreshOutput s c items)
    (hs : s.Consistent) (owner : Caller) (l : ListKey) :
    Prepared s.shelf owner (s.shelf.lists l) (outputRows c items) := by
  have hnone : ∀ x ∈ (outputRows c items).map Prod.fst, s.shelf.body x = none := by
    intro x hx
    rw [map_fst_outputRows] at hx
    obtain ⟨id, hid, rfl⟩ := mem_map.mp hx
    exact h.unused id hid
  constructor
  · rw [map_fst_outputRows]
    exact h.nodup.map (key_injective c)
  · intro x hx
    exact hs.exact.notMem_of_body (hnone x hx) l
  · intro item hitem
    refine .inl (hnone item.1 ?_)
    rw [← map_fst_storedRows owner]
    exact mem_map_of_mem hitem

section

variable (hs : s.Consistent) (hr : s.records (c.key f.id) = some r)
include hs hr

lemma withOutput_consistent (hfresh : FreshOutput s c f.items) :
    (withOutput s c f r.caller).Consistent := by
  refine hs.append ?_ (hfresh.prepared hs r.caller (.output (c.key f.id))).nodup ?_
    (hfresh.prepared hs r.caller (.output (c.key f.id))).agrees ?_
  · rw [object, callerOf, hr, map_some]
  · intro x hx l _
    exact (hfresh.prepared hs r.caller l).unseen x hx
  · intro key conv n _
    simp

/-- The own inputs and the output of a claiming response can be appended. -/
lemma turn_prepared {originals : List (Key × String)} {conv : Key}
    (hclaim : Claims s.records s.conversations (c.key f.id) conv e.newInputStart)
    (hrows : rows s ((s.shelf.lists (.input (c.key f.id))).drop e.newInputStart) = some originals)
    (hfresh : FreshOutput s c f.items) :
    Prepared (withOutput s c f r.caller).shelf r.caller (s.shelf.lists (.items conv))
      (originals ++ outputRows c f.items) := by
  obtain ⟨hids, hbodies⟩ := rows_eq_some hrows
  have hinput := hfresh.prepared hs r.caller (.input (c.key f.id))
  have hitems := hfresh.prepared hs r.caller (.items conv)
  have hmem : ∀ x ∈ originals.map Prod.fst, x ∈ s.shelf.lists (.input (c.key f.id)) := by
    rw [hids]
    exact fun x hx => mem_of_mem_drop hx
  constructor
  · rw [map_append, nodup_append']
    refine ⟨?_, hinput.nodup, ?_⟩
    · rw [hids]
      exact (hs.exact.nodup _).sublist (drop_sublist _ _)
    · intro x hx hx'
      exact hinput.unseen x hx' (hmem x hx)
  · intro x hx
    rw [map_append, mem_append] at hx
    rcases hx with hx | hx
    · -- the conversation is the other part of the input list
      rw [hids] at hx
      rw [← hs.frozen _ _ _ hclaim]
      intro htake
      exact disjoint_take_drop (hs.exact.nodup _) le_rfl htake hx
    · exact hitems.unseen x hx
  · have hcaller : callerOf s.records s.conversations (.record (c.key f.id)) = some r.caller := by
      rw [callerOf, hr, map_some]
    have hnodup : ((storedRows r.caller (outputRows c f.items)).map Prod.fst).Nodup := by
      rw [map_fst_storedRows]
      exact hinput.nodup
    rintro ⟨x, item⟩ hitem
    refine .inr ?_
    rw [storedRows, map_append, mem_append] at hitem
    rcases hitem with hitem | hitem
    · obtain ⟨row, hrow, heq⟩ := mem_map.mp hitem
      cases heq
      obtain ⟨u, hbody⟩ := hbodies row hrow
      have hx := hmem row.1 (mem_map_of_mem hrow)
      have howner := hs.owned _ _ _ hx hbody
      rw [object, hcaller, some.injEq] at howner
      refine body_append_of_agrees _ hinput.agrees hnodup ?_
      rw [hbody, howner]
    · exact body_append_of_mem _ _ hnodup hitem

end

lemma closedConversation_active (v : Conversation) :
    (closedConversation c e v).activeResponse = "" := by
  rw [closedConversation]
  split <;> rfl

lemma closedConversation_caller (v : Conversation) :
    (closedConversation c e v).caller = v.caller := by
  rw [closedConversation]
  split <;> rfl

lemma closeTurn_some {v : Conversation} {rows : List (Key × String)}
    (hactive : v.activeResponse = f.id) :
    closeTurn s c f owner e (some v, rows) = enqueueExpiry
        (setConversation (appendItems s (.items (c.key e.conversation)) owner rows)
          (c.key e.conversation) (closedConversation c e v))
        (.conversation (c.key e.conversation)) := by
  rw [closeTurn, if_pos hactive]

lemma finished_consistent (hs : s.Consistent) (hr : s.records (c.key f.id) = some r)
    (hkind : r.kind = .response e) (hturn : CompletedTurn s c f e turn)
    (hfresh : FreshOutput s c f.items) : (finished s c f r e turn).Consistent := by
  have hout := withOutput_consistent hs hr hfresh
  rw [Store.Consistent, finished_records, finished_conversations, finished_shelf]
  refine Consistent.setRecord ?_ hr rfl ?_
  swap
  · intro e' he'
    cases he'
    exact ⟨e, hkind, rfl, rfl⟩
  cases hturn with
  | alone => exact hout
  | @kept v originals hconv hv hactive hdel hkept hrows =>
    have hclaim : Claims s.records s.conversations (c.key f.id) (c.key e.conversation)
        e.newInputStart :=
      ⟨r, e, v, hr, hkind, hconv, rfl, rfl, hv, hactive⟩
    have hprep := turn_prepared hs hr hclaim hrows hfresh
    rw [closeTurn_some hactive]
    -- the claim is given back first: the list of an idle conversation may grow
    have hidle := hout.editConversation hv (closedConversation_caller v)
      (.inl (closedConversation_active (c := c) (e := e) v))
    refine hidle.append ?_ hprep.nodup ?_ hprep.agrees ?_
    · have hmine := hs.mine _ _ _ hclaim
      rw [callerOf, hr, map_some, callerOf, hv, map_some] at hmine
      rw [object, callerOf, update_self, map_some, closedConversation_caller, hmine]
    · intro x hx l hl
      cases l with
      | input | output => cases hl
      | items =>
        cases hl
        change x ∉ (s.shelf.append _ _).lists _
        rw [lists_append]
        exact hprep.unseen x hx
    · intro key conv n hclaims
      refine ⟨by simp, ?_⟩
      rintro heq
      cases heq
      exact hidle.not_claims_of_idle (update_self ..) (closedConversation_active v) hclaims
  | @left v hconv hv =>
    by_cases hactive : v.activeResponse = f.id
    · rw [closeTurn_some hactive]
      exact hout.editConversation hv (closedConversation_caller v)
        (.inl (closedConversation_active v))
    · rwa [closeTurn, if_neg hactive]

lemma lists_withOutput :
    (withOutput s c f owner).shelf.lists = update s.shelf.lists (.output (c.key f.id))
        (s.shelf.lists (.output (c.key f.id)) ++ f.items.map (c.key ·.1)) := by
  refine (lists_append _ _ _).trans ?_
  congr 2
  simp [outputRows]

lemma closeTurn_lists_of_ne {l : ListKey} (hl : l ≠ .items (c.key e.conversation)) :
    (closeTurn s c f owner e turn).shelf.lists l = s.shelf.lists l := by
  obtain ⟨v, rows⟩ := turn
  cases v with
  | none => rfl
  | some =>
    rw [closeTurn]
    split
    · refine (congrFun (lists_append _ _ _) l).trans ?_
      rw [update_of_ne hl]
    · rfl

lemma closeTurn_conversations_of_ne {k : Key} (hk : k ≠ c.key e.conversation) :
    (closeTurn s c f owner e turn).conversations k = s.conversations k := by
  obtain ⟨v, rows⟩ := turn
  cases v with
  | none => rfl
  | some =>
    rw [closeTurn]
    split
    · exact update_of_ne hk _ _
    · rfl

end Finish

lemma unclaim_consistent (hs : s.Consistent) (c : Call) (id cv : String) :
    (unclaim s c id cv).Consistent := by
  rw [unclaim]
  split
  · exact hs
  · split
    · exact hs
    · rename_i v hv
      split
      · exact hs.editConversation hv rfl (.inl rfl)
      · exact hs

lemma collect_consistent (hs : s.Consistent) (now : ℕ) : (collect s now).Consistent := by
  refine collect_induction hs (fun s en hs => hs) fun s o t hs _ _ => ?_
  cases o with
  | record key =>
    rw [collectObject]
    split
    · exact hs.dropRecord key
    · exact hs
  | conversation key => exact hs.dropConversation key

lemma appended_consistent {R : Key → Option Record} {C : Key → Option Conversation}
    (h : Consistent R C S) {conv : Key} {v : Conversation} (hv : C conv = some v)
    (hactive : v.activeResponse = "") {rows : List (Key × String)}
    (hprep : Prepared S v.caller (S.lists (.items conv)) rows) :
    Consistent R C (S.append (.items conv) (storedRows v.caller rows)) := by
  refine h.append ?_ hprep.nodup ?_ hprep.agrees ?_
  · rw [object, callerOf, hv, map_some]
  · intro x hx l hl
    cases l with
    | input | output => cases hl
    | items =>
      cases hl
      exact hprep.unseen x hx
  · intro key conv' n hclaim
    refine ⟨by simp, ?_⟩
    rintro heq
    cases heq
    exact h.not_claims_of_idle hv hactive hclaim

lemma prepareItems_fresh (hfresh : (generated items).Nodup
      ∧ ∀ id ∈ generated items, s.shelf.body (c.key id) = none)
    (hseen : ∀ x ∈ seen, ∃ item, s.shelf.body x = some item) {rows : List (Key × String)}
    (h : prepareItems s c c.caller items seen = some rows) :
    Prepared s.shelf c.caller seen rows := by
  refine prepareItems_spec hfresh.1 (fun id hid => ⟨hfresh.2 id hid, fun hmem => ?_⟩) h
  obtain ⟨item, hitem⟩ := hseen _ hmem
  simp [hfresh.2 id hid] at hitem

namespace Fresh

section

variable (hf : Fresh s c)
include hf

lemma begin (hact : c.action = .begin new) :
    (new.id ≠ "" ∧ s.records (c.key new.id) = none) ∧ (generated new.items).Nodup
      ∧ ∀ id ∈ generated new.items, s.shelf.body (c.key id) = none := by
  obtain ⟨hrecs, -, hitems⟩ := hf
  rw [hact] at hrecs
  rw [newItems, hact] at hitems
  exact ⟨hrecs new.id (mem_singleton_self _), hitems⟩

lemma finish {f : Completion} {r : Record} (hact : c.action = .finish f)
    (hr : s.records (c.key f.id) = some r) (hpend : isPending r.status = true) :
    FreshOutput s c f.items := by
  obtain ⟨-, -, hitems⟩ := hf
  rw [newItems, hact] at hitems
  dsimp only at hitems
  rw [hr, any_some, if_pos hpend] at hitems
  exact ⟨hitems.1, hitems.2⟩

lemma conversationCreate {id m : String} {n : ℕ}
    (hact : c.action = .conversationCreate id m items n) :
    (id ≠ "" ∧ s.conversations (c.key id) = none)
      ∧ (generated items).Nodup ∧ ∀ id ∈ generated items, s.shelf.body (c.key id) = none := by
  obtain ⟨-, hconvs, hitems⟩ := hf
  rw [hact] at hconvs
  rw [newItems, hact] at hitems
  exact ⟨hconvs id (mem_singleton_self _), hitems⟩

lemma conversationAppend {id : String} {n : ℕ} (hact : c.action = .conversationAppend id items n) :
    (generated items).Nodup ∧ ∀ id ∈ generated items, s.shelf.body (c.key id) = none := by
  obtain ⟨-, -, hitems⟩ := hf
  rwa [newItems, hact] at hitems

lemma chatSave {new : NewChat} (hact : c.action = .chatSave new) :
    (new.id ≠ "" ∧ s.records (c.key new.id) = none) ∧ FreshOutput s c new.items := by
  obtain ⟨hrecs, -, hitems⟩ := hf
  rw [hact] at hrecs
  rw [newItems, hact] at hitems
  exact ⟨hrecs new.id (mem_singleton_self _), ⟨hitems.1, hitems.2⟩⟩

end

end Fresh

lemma chatSave_consistent {new : NewChat} (hs : s.Consistent) (hid : new.id ≠ "")
    (hnew : s.records (c.key new.id) = none) (hfresh : FreshOutput s c new.items) :
    (chatSave s c new).Consistent := by
  have hnone : ∀ key conv n, Claims (update s.records (c.key new.id)
      (some (newChatRecord c new))) s.conversations key conv n → key ≠ c.key new.id := by
    rintro key conv n ⟨r, e, -, hr, hkind, -⟩ rfl
    rw [update_self] at hr
    cases hr
    cases hkind
  have hrec := hs.insertRecord hnew hid fun conv n hclaim => hnone _ conv n hclaim rfl
  have hprep := hfresh.prepared hs c.caller
  refine hrec.append ?_ (hprep (.input (c.key new.id))).nodup ?_
    (hprep (.input (c.key new.id))).agrees ?_
  · rw [object, callerOf, update_self]
    rfl
  · intro x hx l _
    exact (hprep l).unseen x hx
  · intro key conv n hclaim
    refine ⟨?_, by simp⟩
    rintro heq
    cases heq
    exact hnone _ conv n hclaim rfl

/-- **Every effect of a fresh call keeps the invariant.** -/
theorem Effect.consistent {o : Store × Reply} (h : Effect s c o) (hs : s.Consistent)
    (hf : Fresh s c) : o.1.Consistent := by
  cases h with
  | rejected | quiet => exact hs
  | begun hact hinh hrows hprep =>
    obtain ⟨⟨hid, hnew⟩, hitems⟩ := hf.begin hact
    refine started_consistent hs hinh hid hnew (prepareItems_fresh hitems ?_ hprep)
    intro x hx
    obtain ⟨body, hbody⟩ := (hinh.spec hs).2 x hx
    exact ⟨_, hbody⟩
  | discarded => exact (unclaim_consistent hs c _ _).dropRecord _
  | @cancelled id r e hact hr =>
    obtain ⟨hrec, hkind, -⟩ := response_eq_some.mp hr
    refine hs.setRecord hrec rfl fun e' he' => ?_
    cases he'
    exact ⟨e, hkind, rfl, rfl⟩
  | @hidden id r e hact hr =>
    exact hs.setRecord (response_eq_some.mp hr).1 rfl fun e' he' => ⟨e', he', rfl, rfl⟩
  | @deleted id r e hact hr =>
    split
    all_goals exact hs.setRecord (response_eq_some.mp hr).1 rfl fun e' he' => ⟨e', he', rfl, rfl⟩
  | @published id i body t es r e hact hr hkind =>
    refine hs.setRecord hr rfl fun e' he' => ?_
    cases he'
    exact ⟨e, hkind, rfl, rfl⟩
  | finished hact hr hkind hinst hpend hver hturn =>
    exact finished_consistent hs hr hkind hturn (hf.finish hact hr hpend)
  | acknowledged hact hr => exact hs.setRecord hr rfl fun e' he' => ⟨e', he', rfl, rfl⟩
  | @conversationCreated id m items rn prepared hact hprep =>
    obtain ⟨⟨hid, hnew⟩, hitems⟩ := hf.conversationCreate hact
    have hnil := hs.lists_eq_nil (l := .items (c.key id))
      (by rw [object, callerOf, hnew, map_none])
    have hrows := prepareItems_fresh hitems (by simp) hprep
    have hins := hs.insertConversation (v := newConversation c m rn) hnew rfl
    exact appended_consistent hins (update_self ..) rfl (hnil ▸ hrows)
  | conversationUpdated hact hv =>
    split
    all_goals exact hs.editConversation (conversation_eq_some.mp hv).1 rfl (.inr rfl)
  | conversationDeleted hact hv =>
    exact hs.editConversation (conversation_eq_some.mp hv).1 rfl (.inr rfl)
  | @conversationAppended id items rn v prepared hact hv hactive hprep =>
    obtain ⟨hv', hcaller, -⟩ := conversation_eq_some.mp hv
    have hrows := prepareItems_fresh (hf.conversationAppend hact)
      (fun x hx => hs.exact.body_of_mem hx) hprep
    have happ := appended_consistent hs hv' hactive (hcaller.symm ▸ hrows)
    rw [hcaller] at happ
    exact happ.editConversation hv' rfl (.inr rfl)
  | @itemDeleted id item rn v hact hv hactive =>
    obtain ⟨hv', -⟩ := conversation_eq_some.mp hv
    have hdisc := hs.discardItem (c.key item) fun key n => hs.not_claims_of_idle hv' hactive
    exact hdisc.editConversation hv' rfl (.inr rfl)
  | chatSaved hact =>
    obtain ⟨⟨hid, hnew⟩, hitems⟩ := hf.chatSave hact
    exact chatSave_consistent hs hid hnew hitems
  | chatUpdated hact hr =>
    refine hs.setRecord (chat_eq_some.mp hr).1 rfl fun e' he' => ?_
    cases he'
  | chatDeleted => exact hs.dropRecord _
  | collected => exact collect_consistent hs _

lemma empty_consistent : Store.empty.Consistent := by
  constructor
  · intro key r hr
    cases hr
  · exact exact_empty
  · intro l l' _ _
    exact disjoint_nil_left _
  · intro l x item hx
    cases hx
  all_goals
    rintro key conv n ⟨r, -, -, hr, -⟩
    cases hr

lemma next_consistent (hs : s.Consistent) (hf : Fresh s c) : (apiStore.next s c).Consistent :=
  (execute_effect (renew s c) c).consistent hs hf

/-- **Runs of fresh calls reach consistent stores.** -/
theorem run_consistent {cs : List Call} (h : apiStore.Along Fresh apiStore.init cs) :
    (apiStore.after cs).Consistent :=
  Machine.run_preserves Machine.reachable_init
    (fun _ _ _ hs hf => next_consistent hs hf) empty_consistent h

/-! ### The reference count in every run -/

lemma exists_rows (h : ∀ x ∈ ids, ∃ item, s.shelf.body x = some item) :
    ∃ result, rows s ids = some result := by
  induction ids with
  | nil => exact ⟨[], rfl⟩
  | cons x ids ih =>
    obtain ⟨item, hitem⟩ := h x (mem_cons_self ..)
    obtain ⟨rest, hrest⟩ := ih fun y hy => h y (mem_cons_of_mem _ hy)
    refine ⟨(x, item.body) :: rest, ?_⟩
    rw [rows] at hrest
    simp [rows, hitem, hrest]

/-- **The reference count is exact**: an item is listed exactly where its owners say, no
list repeats an item, and an item is stored exactly as long as it has an owner. So the
script finds the body of every item it reads from a list. -/
theorem items_counted_exactly {cs : List Call} (h : apiStore.Along Fresh apiStore.init cs) :
    let s := apiStore.after cs
    (∀ x l, x ∈ s.shelf.lists l ↔ l ∈ s.shelf.owners x)
      ∧ (∀ l, (s.shelf.lists l).Nodup)
      ∧ (∀ x, s.shelf.body x ≠ none ↔ s.shelf.owners x ≠ ∅)
      ∧ ∀ l, ∀ ids ⊆ s.shelf.lists l, ∃ result, rows s ids = some result := by
  intro s
  have hs : s.Consistent := run_consistent h
  refine ⟨fun x l => (hs.exact.owned l x).symm, hs.exact.nodup, hs.exact.stored, ?_⟩
  intro l ids hids
  exact exists_rows fun x hx => hs.exact.body_of_mem (hids hx)

/-- A call of one frontend for one caller. -/
def frontendCall (now : ℕ) (action : Action) : Call where
  service := "svc:"
  caller := some "alice"
  pod := "pod"
  instanceId := "run"
  ttl := 60
  now := now
  action := action

/-- A background response in a conversation, with replay events. -/
def conversationTurn (id : String) (items : List NewItem) : NewResponse where
  id := id
  model := "m"
  body := "queued"
  stored := true
  background := true
  streamed := true
  previous := none
  conversation := some "conv"
  pod := "pod"
  instanceId := "run"
  ledger := "ledger"
  reservation := ""
  items := items
  retention := 3600
  replay := 60
  remainingMillis := 1000

/-- A conversation with one item. -/
def createCall : Call :=
  frontendCall 1 (.conversationCreate "conv" "{}" [⟨"item1", "copy1", some "a"⟩] 3600)

/-- A turn that refers to the item. -/
def beginCall : Call :=
  frontendCall 2 (.begin (conversationTurn "resp"
    [⟨"item2", "copy2", some "b"⟩, ⟨"item1", "copy3", none⟩]))

/-- The turn up to its completion, and the deletion of the item. -/
def turnCalls : List Call :=
  [beginCall,
    frontendCall 3 (.publish "resp" "run" "started" "in_progress" [(0, "created")]),
    frontendCall 4 (.finish ⟨"resp", "run", none, "done", "completed", [("msg", "c")],
      [(1, "completed")]⟩),
    frontendCall 5 (.conversationDeleteItem "conv" "item1" 3600)]

/-- The conversation with its turn, and the deletion of the response. -/
def conversationCalls : List Call :=
  createCall :: turnCalls ++ [frontendCall 6 (.deleteResponse "resp"), frontendCall 7 .collect]

theorem items_counted_exactly_turn :
    apiStore.Along Fresh apiStore.init conversationCalls
      ∧ ((apiStore.after conversationCalls).shelf.lists (.items ⟨"svc:", "conv"⟩)).Nodup :=
  have h : apiStore.Along Fresh apiStore.init conversationCalls := by decide
  ⟨h, (items_counted_exactly h).2.1 _⟩

end Foretoken.ApiStore
