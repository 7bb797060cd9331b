import Foretoken.ApiStore.Ownership

/-!
The isolation of callers.

Items are keys of the whole partition and can be named in a request, so callers are kept apart by
the tests on `caller` alone. An id that ends in `:input` and the like reaches a list of any caller,
and its error tells that the list is there (`list_key_read_by_another`).
-/

namespace Foretoken.ApiStore

open Option Foretoken.Shelf List

open Function

variable {l : ListKey} {x k : Key} {id : String} {r : Record} {s : Store} {c : Call} {A : Caller}

/-- The actions that work for a caller. -/
def Action.callerScoped : Action → Bool
  | .item _ | .history _ | .responseInputs _ _ | .begin _ | .response _ | .cancel _
  | .deleteResponse _ | .conversationCreate _ _ _ _ | .conversationGet _
  | .conversationUpdate _ _ _ | .conversationDelete _ | .conversationItems _ _
  | .conversationAppend _ _ _ | .conversationGetItem _ _ | .conversationDeleteItem _ _ _
  | .chatSave _ | .chatGet _ | .chatMessages _ _ | .chatUpdate _ _ _ _ | .chatDelete _
  | .chatList _ _ _ => true
  | _ => false

/-- The caller of an object of the store. -/
abbrev Store.callerOf (s : Store) : Object → Option Caller :=
  ApiStore.callerOf s.records s.conversations

/-- Two stores have the same objects of a caller. -/
structure Agree (A : Caller) (s s' : Store) : Prop where
  records : ∀ k r, r.caller = A → (s.records k = some r ↔ s'.records k = some r)
  conversations : ∀ k v, v.caller = A → (s.conversations k = some v ↔ s'.conversations k = some v)
  items : ∀ x item, item.caller = A → (s.shelf.body x = some item ↔ s'.shelf.body x = some item)
  lists : ∀ l : ListKey, s.callerOf l.object = some A → s.shelf.lists l = s'.shelf.lists l
  chats : ∀ scope, s.chats (scope, A) = s'.chats (scope, A)

namespace Agree

variable {s' : Store}

lemma callerOf_iff (h : Agree A s s') (o : Object) :
    s.callerOf o = some A ↔ s'.callerOf o = some A := by
  cases o with
  | record k =>
    simp only [callerOf, map_eq_some_iff]
    exact exists_congr fun r => and_congr_left fun hr => h.records k r hr
  | conversation k =>
    simp only [callerOf, map_eq_some_iff]
    exact exists_congr fun v => and_congr_left fun hv => h.conversations k v hv

lemma symm (h : Agree A s s') : Agree A s' s where
  records k r hr := (h.records k r hr).symm
  conversations k v hv := (h.conversations k v hv).symm
  items x item hx := (h.items x item hx).symm
  lists l hl := (h.lists l ((h.callerOf_iff l.object).mpr hl)).symm
  chats scope := (h.chats scope).symm

/-! ### Lookups -/

variable (hc : c.caller = A)

include hc

section

variable (h : Agree A s s') (id : String)
include h

lemma response_eq : response s c id = response s' c id := by
  refine ext fun ⟨r, e⟩ => ?_
  rw [response_eq_some, response_eq_some]
  exact and_congr_left fun hrest => h.records _ r ((accessible_caller hrest.2.1).trans hc)

lemma chat_eq : chat s c id = chat s' c id := by
  refine ext fun ⟨r, metadata⟩ => ?_
  rw [chat_eq_some, chat_eq_some]
  exact and_congr_left fun hrest => h.records _ r ((accessible_caller hrest.2).trans hc)

lemma conversation_eq :
    conversation s c id = conversation s' c id := by
  refine ext fun v => ?_
  rw [conversation_eq_some, conversation_eq_some]
  exact and_congr_left fun hrest => h.conversations _ v (hrest.1.trans hc)

end

omit hc

/-! ### Items -/

section

variable (h : Agree A s s')
include h

section

variable (hs : s.Consistent) (hl : s.callerOf l.object = some A)
include hs hl

lemma body_eq (hx : x ∈ s.shelf.lists l) : s.shelf.body x = s'.shelf.body x := by
  obtain ⟨item, hitem⟩ := hs.exact.body_of_mem hx
  have howner : s.callerOf l.object = some item.caller := hs.owned l x item hx hitem
  rw [hl, some.injEq] at howner
  rw [hitem, (h.items x item howner.symm).mp hitem]

lemma rows_eq {ids : List Key} (hids : ids ⊆ s.shelf.lists l) : rows s ids = rows s' ids :=
  rows_congr fun _ hx => h.body_eq hs hl (hids hx)

end

lemma owners_subset (hs : s.Consistent) (hs' : s'.Consistent) {item : Item}
    (hitem : s.shelf.body x = some item) (hcaller : item.caller = A) :
    s.shelf.owners x ⊆ s'.shelf.owners x := by
  intro l hl
  have hx := (hs.exact.owned l x).mp hl
  have howner := hs.owned l x item hx hitem
  rw [hcaller] at howner
  exact (hs'.exact.owned l x).mpr (h.lists l howner ▸ hx)

lemma live_eq (now : ℕ) {o : Object} (ho : s.callerOf o = some A) :
    s.live now o = s'.live now o := by
  cases o with
  | record k =>
    obtain ⟨r, hr, hcaller⟩ := map_eq_some_iff.mp ho
    simp only [Store.live, Store.expiresAt, hr, (h.records k r hcaller).mp hr]
  | conversation k =>
    obtain ⟨v, hv, hcaller⟩ := map_eq_some_iff.mp ho
    simp only [Store.live, Store.expiresAt, hv, (h.conversations k v hcaller).mp hv]

section

variable (hs : s.Consistent) (hs' : s'.Consistent)
include hs hs'

lemma itemBody_of_some {now : ℕ} {body : String} (hbody : itemBody s now x A = some body) :
    itemBody s' now x A = some body := by
  have hitem := itemBody_eq_some hbody
  rw [itemBody, hitem] at hbody
  dsimp only at hbody
  split at hbody
  · rename_i hcond
    obtain ⟨list, hlist, hlive⟩ := hcond.2
    have howner := hs.owned list x _ ((hs.exact.owned list x).mp hlist) hitem
    rw [itemBody, (h.items x _ rfl).mp hitem]
    dsimp only
    rw [if_pos]
    exact ⟨rfl, list, h.owners_subset hs hs' hitem rfl hlist, h.live_eq now howner ▸ hlive⟩
  · cases hbody

lemma itemBody_eq (now : ℕ) (x : Key) : itemBody s now x A = itemBody s' now x A :=
  ext fun _ => ⟨h.itemBody_of_some hs hs', h.symm.itemBody_of_some hs' hs⟩

lemma prepareItems_eq (xs : List NewItem) (seen : List Key) :
    prepareItems s c A xs seen = prepareItems s' c A xs seen :=
  prepareItems_congr (fun id => h.itemBody_eq hs hs' c.now (c.key id)) xs seen

end

lemma itemPage_eq (hs : s.Consistent) (hl : s.callerOf l.object = some A) (page : Page) :
    itemPage s c l page = itemPage s' c l page := by
  rw [itemPage, itemPage, ← h.lists l hl]
  cases pageBounds c (s.shelf.lists l) page with
  | none => rfl
  | some =>
    have hrange : ∀ lower upper, lrange (s.shelf.lists l) lower upper ⊆ s.shelf.lists l :=
      fun lower upper x hx => mem_of_mem_take (mem_of_mem_drop hx)
    dsimp only
    split
    · exact h.rows_eq hs hl (hrange _ _)
    · exact h.rows_eq hs hl (fun x hx => hrange _ _ (mem_reverse.mp hx))

end

/-! ### Replies -/

lemma callerOf_response (hc : c.caller = A) {e : Execution} (hr : response s c id = some (r, e)) :
    s.callerOf (.record (c.key id)) = some A := by
  obtain ⟨hrec, -, hacc, -⟩ := response_eq_some.mp hr
  exact map_eq_some_iff.mpr ⟨r, hrec, (accessible_caller hacc).trans hc⟩

lemma callerOf_chat (hc : c.caller = A) {m : Option (List (String × String))}
    (hr : chat s c id = some (r, m)) : s.callerOf (.record (c.key id)) = some A := by
  obtain ⟨hrec, -, hacc⟩ := chat_eq_some.mp hr
  exact map_eq_some_iff.mpr ⟨r, hrec, (accessible_caller hacc).trans hc⟩

lemma callerOf_conversation (hc : c.caller = A) {v : Conversation}
    (hv : conversation s c id = some v) : s.callerOf (.conversation (c.key id)) = some A := by
  obtain ⟨hconv, hcaller, -⟩ := conversation_eq_some.mp hv
  exact map_eq_some_iff.mpr ⟨v, hconv, hcaller.trans hc⟩

section Replies

variable (h : Agree A s s') (hs : s.Consistent) (hs' : s'.Consistent)

include h hc

include hs in
lemma history_eq (id : String) : history s c id = history s' c id := by
  rw [history, history, ← h.response_eq hc id]
  cases hr : response s c id with
  | none => rfl
  | some found =>
    have hcaller := callerOf_response hc hr
    have hrows : rows s (s.shelf.lists (.input (c.key id)) ++ s.shelf.lists (.output (c.key id)))
        = rows s' (s.shelf.lists (.input (c.key id)) ++ s.shelf.lists (.output (c.key id))) := by
      refine rows_congr fun x hx => ?_
      rcases mem_append.mp hx with hx | hx
      · exact h.body_eq hs (l := .input (c.key id)) hcaller hx
      · exact h.body_eq hs (l := .output (c.key id)) hcaller hx
    rw [hrows, h.lists (.input (c.key id)) hcaller, h.lists (.output (c.key id)) hcaller]

include hs in
lemma responseInputs_eq (id : String) (page : Page) :
    responseInputs s c id page = responseInputs s' c id page := by
  rw [responseInputs, responseInputs, ← h.response_eq hc id]
  cases hr : response s c id with
  | none => rfl
  | some =>
    rw [h.itemPage_eq hs (l := .input (c.key id)) (callerOf_response hc hr) page]

lemma inherit_eq (new : NewResponse) : inherit s c new = inherit s' c new := by
  have hprev : previousHistory s c new.previous = previousHistory s' c new.previous := by
    cases new.previous with
    | none => rfl
    | some id =>
      rw [previousHistory, previousHistory, ← h.response_eq hc id]
      cases hr : response s c id with
      | none => rfl
      | some =>
        have hcaller := callerOf_response hc hr
        rw [h.lists (.input (c.key id)) hcaller, h.lists (.output (c.key id)) hcaller]
  rw [inherit, inherit, ← hprev]
  cases previousHistory s c new.previous with
  | error => rfl
  | ok =>
    cases new.conversation with
    | none => rfl
    | some id =>
      dsimp only
      rw [← h.conversation_eq hc id]
      cases hv : conversation s c id with
      | none => rfl
      | some =>
        rw [h.lists (.items (c.key id)) (callerOf_conversation hc hv)]

include hs hs' in
lemma begin_eq (new : NewResponse) : (begin s c new).2 = (begin s' c new).2 := by
  rw [begin, begin, ← h.inherit_eq hc new]
  cases hinhe : inherit s c new with
  | error => rfl
  | ok found =>
    obtain ⟨history, conv⟩ := found
    have hrows : rows s history = rows s' history := by
      refine rows_congr fun x hx => ?_
      obtain ⟨body, hbody⟩ := ((inherited_of_inherit hinhe).spec hs).2 x hx
      rw [hbody, (h.items x _ hc).mp hbody]
    dsimp only
    rw [← hrows]
    cases rows s history with
    | none => rfl
    | some =>
      rw [hc, ← h.prepareItems_eq hs hs' new.items history]
      cases prepareItems s c A new.items history <;> rfl

include hs in
lemma conversationItems_eq (id : String) (page : Page) :
    conversationItems s c id page = conversationItems s' c id page := by
  rw [conversationItems, conversationItems, ← h.conversation_eq hc id]
  cases hv : conversation s c id with
  | none => rfl
  | some =>
    rw [h.itemPage_eq hs (l := .items (c.key id)) (callerOf_conversation hc hv) page]

include hs hs' in
lemma conversationAppend_eq (id : String) (xs : List NewItem) (n : ℕ) :
    (conversationAppend s c id xs n).2
      = (conversationAppend s' c id xs n).2 := by
  rw [conversationAppend, conversationAppend, ← h.conversation_eq hc id]
  cases hv : conversation s c id with
  | none => rfl
  | some =>
    dsimp only
    split
    · rfl
    · rw [← h.lists (.items (c.key id)) (callerOf_conversation hc hv), hc,
        ← h.prepareItems_eq hs hs' xs]
      cases prepareItems s c A xs (s.shelf.lists (.items (c.key id))) <;> rfl

include hs in
lemma conversationGetItem_eq (id item : String) :
    conversationGetItem s c id item = conversationGetItem s' c id item := by
  rw [conversationGetItem, conversationGetItem, ← h.conversation_eq hc id]
  cases hv : conversation s c id with
  | none => rfl
  | some v =>
    have hcaller := callerOf_conversation hc hv
    dsimp only
    rw [← h.lists (.items (c.key id)) hcaller]
    split
    · rename_i hmem
      rw [h.body_eq hs (l := .items (c.key id)) hcaller hmem]
    · rfl

lemma conversationDeleteItem_eq (id item : String) (n : ℕ) :
    (conversationDeleteItem s c id item n).2
      = (conversationDeleteItem s' c id item n).2 := by
  rw [conversationDeleteItem, conversationDeleteItem, ← h.conversation_eq hc id]
  cases hv : conversation s c id with
  | none => rfl
  | some =>
    dsimp only
    rw [← h.lists (.items (c.key id)) (callerOf_conversation hc hv)]
    split_ifs <;> rfl

include hs in
lemma chatMessages_eq (id : String) (page : Page) :
    chatMessages s c id page = chatMessages s' c id page := by
  rw [chatMessages, chatMessages, ← h.chat_eq hc id]
  cases hr : chat s c id with
  | none => rfl
  | some =>
    rw [h.itemPage_eq hs (l := .input (c.key id)) (callerOf_chat hc hr) page]

lemma chatList_eq (page : Page) (m : Option String) (filter : Option (List (String × String))) :
    chatList s c page m filter = chatList s' c page m filter := by
  have hmatches : chatMatches s c m filter = chatMatches s' c m filter := by
    funext id
    rw [chatMatches, chatMatches, h.chat_eq hc id]
  rw [chatList, chatList, hmatches, hc, h.chats c.scope]

end Replies

end Agree

/-- **What a caller-scoped call returns depends on the objects of its caller only.** -/
theorem reply_congr {s' : Store} (h : Agree c.caller s s') (hs : s.Consistent)
    (hs' : s'.Consistent) (hscop : c.action.callerScoped = true) :
    (perform s c).2 = (perform s' c).2 := by
  rw [perform.eq_def, perform.eq_def]
  cases hact : c.action with
  | item id =>
    dsimp only
    rw [h.itemBody_eq hs hs' c.now (c.key id)]
    cases itemBody s' c.now (c.key id) c.caller <;> rfl
  | history id => exact h.history_eq rfl hs id
  | responseInputs id page => exact h.responseInputs_eq rfl hs id page
  | begin new => exact h.begin_eq rfl hs hs' new
  | response id => simp only [responseView, h.response_eq rfl]
  | cancel id =>
    simp only [cancel, ← h.response_eq rfl]
    cases response s c id with
    | none => rfl
    | some => dsimp only; split_ifs <;> rfl
  | deleteResponse id =>
    simp only [deleteResponse, ← h.response_eq rfl]
    cases response s c id with
    | none => rfl
    | some => dsimp only; split_ifs <;> rfl
  | conversationCreate id md xs n =>
    simp only [conversationCreate, ← h.prepareItems_eq hs hs' xs]
    cases prepareItems s c c.caller xs [] <;> rfl
  | conversationGet id => simp only [conversationGet, h.conversation_eq rfl]
  | conversationUpdate id md n =>
    simp only [conversationUpdate, ← h.conversation_eq rfl]
    cases conversation s c id <;> rfl
  | conversationDelete id =>
    simp only [conversationDelete, ← h.conversation_eq rfl]
    cases conversation s c id <;> rfl
  | conversationItems id page => exact h.conversationItems_eq rfl hs id page
  | conversationAppend id xs n =>
    exact h.conversationAppend_eq rfl hs hs' id xs n
  | conversationGetItem id item => exact h.conversationGetItem_eq rfl hs id item
  | conversationDeleteItem id item n =>
    exact h.conversationDeleteItem_eq rfl id item n
  | chatSave => rfl
  | chatGet id => simp only [chatGet, h.chat_eq rfl]
  | chatMessages id page => exact h.chatMessages_eq rfl hs id page
  | chatUpdate id previousBody body md =>
    simp only [chatUpdate, ← h.chat_eq rfl]
    cases chat s c id with
    | none => rfl
    | some => dsimp only; split <;> rfl
  | chatDelete id =>
    simp only [chatDelete, ← h.chat_eq rfl]
    cases chat s c id <;> rfl
  | chatList page m filter => exact h.chatList_eq rfl page m filter
  | _ => simp [hact, Action.callerScoped] at hscop

/-! ### Writes for another caller -/

lemma agree_update {α : Type*} {u : α → Caller} {f : Key → Option α} {new : Option α}
    (hold : ∀ a, f k = some a → u a ≠ A) (hnew : ∀ a, new = some a → u a ≠ A) (k' : Key)
    (a : α) (ha : u a = A) : f k' = some a ↔ update f k new k' = some a := by
  by_cases hk : k' = k
  · subst hk
    rw [update_self]
    exact iff_of_false (fun h => hold a h ha) fun h => hnew a h ha
  · rw [update_of_ne hk]

lemma Prepared.items_append {S : Shelf ListKey Key Item} {owner : Caller} {seen : List Key}
    {rows : List (Key × String)} (h : Prepared S owner seen rows) (hne : owner ≠ A) (l : ListKey)
    (x : Key) (item : Item) (hitem : item.caller = A) :
    S.body x = some item ↔ (S.append l (storedRows owner rows)).body x = some item := by
  by_cases hx : x ∈ (storedRows owner rows).map Prod.fst
  · obtain ⟨⟨y, stored⟩, hstored, rfl⟩ := mem_map.mp hx
    have hcaller : stored.caller = owner := caller_of_mem_storedRows hstored
    have hnew : ∀ item, some stored = some item → item.caller ≠ A := by
      rintro item heq hA
      cases heq
      exact hne (hcaller.symm.trans hA)
    rw [body_append_of_mem S l (by simpa using h.nodup) hstored]
    refine iff_of_false (fun hbody => ?_) fun hbody => hnew item hbody hitem
    rcases h.agrees _ hstored with hnone | hsome
    · simp [hnone] at hbody
    · exact hnew item (hsome.symm.trans hbody) hitem
  · rw [body_append_of_notMem S l hx]

lemma items_release {S : Shelf ListKey Key Item}
    (howned : ∀ x ∈ S.lists l, ∀ item, S.body x = some item → item.caller ≠ A) (x : Key)
    (item : Item) (hitem : item.caller = A) :
    S.body x = some item ↔ (S.release l).body x = some item := by
  refine ⟨fun hbody => ?_, body_of_release⟩
  rw [body_release, if_neg]
  · exact hbody
  · exact fun hgone => howned x hgone.1 item hbody hitem

section Writes

variable {s' : Store}

lemma Agree.setRecord {r' : Record} (hr : s.records k = some r) (hold : r.caller ≠ A)
    (hrecs : s'.records = update s.records k (some r')) (hnew : r'.caller = r.caller)
    (hconvs : s'.conversations = s.conversations) (hshelf : s'.shelf = s.shelf)
    (hchats : s'.chats = s.chats) : Agree A s s' where
  records := by
    rw [hrecs]
    exact agree_update (by simp [hr, hold]) (by simp [hnew, hold])
  conversations k v _ := by rw [hconvs]
  items x item _ := by rw [hshelf]
  lists l _ := by rw [hshelf]
  chats scope := by rw [hchats]

/-- A conversation of another caller and its list are rewritten. -/
lemma Agree.setConversation {v : Conversation} (list : List Key)
    (hold : ∀ w, s.conversations k = some w → w.caller ≠ A) (hnew : v.caller ≠ A)
    (hconvs : s'.conversations = update s.conversations k (some v))
    (hlists : s'.shelf.lists = update s.shelf.lists (.items k) list)
    (hitems : ∀ x item, item.caller = A →
      (s.shelf.body x = some item ↔ s'.shelf.body x = some item))
    (hrecs : s'.records = s.records) (hchats : s'.chats = s.chats) : Agree A s s' where
  records k r _ := by rw [hrecs]
  conversations := by
    rw [hconvs]
    exact agree_update hold (by simp [hnew])
  items := hitems
  lists l hl := by
    rw [hlists, update_of_ne]
    rintro rfl
    obtain ⟨w, hw, hcaller⟩ := map_eq_some_iff.mp hl
    exact hold w hw hcaller
  chats scope := by rw [hchats]

/-- A new record of another caller is written. -/
lemma Agree.insertRecord (list : List Key) (hk : s.records k = none) (hnew : r.caller ≠ A)
    (hrecs : s'.records = update s.records k (some r))
    (hlists : s'.shelf.lists = update s.shelf.lists (.input k) list)
    (hitems : ∀ x item, item.caller = A →
      (s.shelf.body x = some item ↔ s'.shelf.body x = some item))
    (hconvs : ∀ k v, v.caller = A →
      (s.conversations k = some v ↔ s'.conversations k = some v))
    (hchats : ∀ z, s.chats (z, A) = s'.chats (z, A)) : Agree A s s' where
  records := by
    rw [hrecs]
    exact agree_update (by simp [hk]) (by simp [hnew])
  conversations := hconvs
  items := hitems
  lists l hl := by
    rw [hlists, update_of_ne]
    rintro rfl
    simp [callerOf, ListKey.object, hk] at hl
  chats := hchats

lemma Agree.dropRecord (hs : s.Consistent) (hr : s.records k = some r) (hne : r.caller ≠ A) :
    Agree A s (ApiStore.dropRecord s k) where
  records := agree_update (by simp [hr, hne]) (by simp)
  conversations _ _ _ := Iff.rfl
  items x item hitem := by
    have howned : ∀ l : ListKey, l.object = .record k → ∀ x ∈ s.shelf.lists l, ∀ item,
        s.shelf.body x = some item → item.caller ≠ A := by
      intro l hl x hx item hbody hcaller
      have howner := hs.owned l x item hx hbody
      rw [hl, callerOf, hr, map_some, some.injEq] at howner
      exact hne (howner.trans hcaller)
    refine (items_release (howned (.input k) rfl) x item hitem).trans
      (items_release (fun x hx item hbody => ?_) x item hitem)
    rw [lists_release] at hx
    exact howned (.output k) rfl x hx item (body_of_release hbody)
  lists l hl := by
    refine ((lists_dropRecord s.shelf k l).trans ?_).symm
    rw [if_neg]
    intro hobj
    rw [hobj, Store.callerOf, callerOf, hr, map_some, some.injEq] at hl
    exact hne hl
  chats scope := by
    change s.chats (scope, A) = (dropChat s k).chats (scope, A)
    obtain ⟨u, kind, model, body, status, deleted, reservation, expiresAt⟩ := r
    rw [dropChat, hr]
    cases kind with
    | response => rfl
    | chat =>
      refine (update_of_ne (fun heq => ?_) _ _).symm
      exact hne (Prod.mk.inj heq).2.symm

end Writes

lemma Agree.refl (A : Caller) (s : Store) : Agree A s s where
  records _ _ _ := Iff.rfl
  conversations _ _ _ := Iff.rfl
  items _ _ _ := Iff.rfl
  lists _ _ := rfl
  chats _ := rfl

lemma started_agree {new : NewResponse} {history : List Key}
    {conv : Option (String × Conversation)} {prepared : List (Key × String)} (hne : c.caller ≠ A)
    (hinh : Inherited s c new history conv) (hnew : s.records (c.key new.id) = none)
    (hprep : Prepared s.shelf c.caller history prepared) :
    Agree A s (started s c new history conv prepared) := by
  refine Agree.insertRecord _ hnew hne records_started lists_started ?_ ?_ ?_
  · intro x item hitem
    have hitems := (hprep.pin (.input (c.key new.id)) history).items_append hne
      (.input (c.key new.id)) x item hitem
    rw [body_pin] at hitems
    cases conv <;> exact hitems
  · cases hinh with
    | nothing | previous => exact fun _ _ _ => Iff.rfl
    | @claimed id v hconv hv =>
      obtain ⟨hfound, hcaller, -⟩ := conversation_eq_some.mp hv
      exact agree_update (by simp [hfound, hcaller, hne]) (by simp [hcaller, hne])
  · intro scope
    cases conv <;> rfl

/-- **A caller-scoped call leaves the objects of other callers alone.** -/
theorem Effect.agree {o : Store × Reply} (h : Effect s c o) (hs : s.Consistent) (hf : Fresh s c)
    (hscop : c.action.callerScoped = true) (hne : c.caller ≠ A) : Agree A s o.1 := by
  -- a record that the call can access is one of its caller
  have hresp : ∀ {id : String} {r : Record} {e : Execution}, response s c id = some (r, e) →
      s.records (c.key id) = some r ∧ r.caller ≠ A := by
    intro id r e hr
    obtain ⟨hrec, -, hacc, -⟩ := response_eq_some.mp hr
    exact ⟨hrec, accessible_caller hacc ▸ hne⟩
  have hchat : ∀ {id : String} {r : Record} {m : Option (List (String × String))},
      chat s c id = some (r, m) → s.records (c.key id) = some r ∧ r.caller ≠ A := by
    intro id r m hr
    obtain ⟨hrec, -, hacc⟩ := chat_eq_some.mp hr
    exact ⟨hrec, accessible_caller hacc ▸ hne⟩
  have hconv : ∀ {id : String} {v : Conversation}, conversation s c id = some v →
      v.caller = c.caller ∧ ∀ w, s.conversations (c.key id) = some w → w.caller ≠ A := by
    intro id v hv
    obtain ⟨hfound, hcaller, -⟩ := conversation_eq_some.mp hv
    exact ⟨hcaller, by simp [hfound, hcaller, hne]⟩
  cases h with
  | rejected | quiet => exact .refl A s
  | begun hact hinh hrows hprep =>
    obtain ⟨⟨-, hnew⟩, hitems⟩ := hf.begin hact
    exact started_agree hne hinh hnew (prepareItems_fresh hitems (fun y hy =>
      ⟨_, ((hinh.spec hs).2 y hy).choose_spec⟩) hprep)
  | cancelled hact hr | hidden hact hr =>
    obtain ⟨hrec, hcaller⟩ := hresp hr
    exact .setRecord hrec hcaller rfl rfl rfl rfl rfl
  | deleted hact hr hterm =>
    obtain ⟨hrec, hcaller⟩ := hresp hr
    split
    all_goals exact .setRecord hrec hcaller rfl rfl rfl rfl rfl
  | conversationCreated hact hprep =>
    obtain ⟨⟨-, hnew⟩, hitems⟩ := hf.conversationCreate hact
    exact .setConversation _ (by simp [hnew]) hne rfl (lists_append _ _ _)
      ((prepareItems_fresh hitems (by simp) hprep).items_append hne _) rfl rfl
  | @conversationUpdated id m n v hact hv =>
    obtain ⟨hcaller, hold⟩ := hconv hv
    have hlists := (update_eq_self (ListKey.items (c.key id)) s.shelf.lists).symm
    split <;>
      exact .setConversation _ hold (by rwa [hcaller]) rfl hlists (fun _ _ _ => Iff.rfl) rfl rfl
  | @conversationDeleted id v hact hv =>
    obtain ⟨hcaller, hold⟩ := hconv hv
    have hlists := (update_eq_self (ListKey.items (c.key id)) s.shelf.lists).symm
    exact .setConversation _ hold (by rwa [hcaller]) rfl hlists (fun _ _ _ => Iff.rfl) rfl rfl
  | conversationAppended hact hv hactive hprep =>
    obtain ⟨hcaller, hold⟩ := hconv hv
    exact .setConversation _ hold (by rwa [hcaller]) rfl (lists_append _ _ _)
      ((prepareItems_fresh (hf.conversationAppend hact)
        (fun y hy => hs.exact.body_of_mem hy) hprep).items_append hne _) rfl rfl
  | @itemDeleted id item n v hact hv hactive hitem =>
    obtain ⟨hcaller, hold⟩ := hconv hv
    refine .setConversation _ hold (by rwa [hcaller]) rfl (lists_discard _ _ _) ?_ rfl rfl
    intro x st hstored
    refine ⟨fun hbody => ?_, body_of_discard⟩
    change (s.shelf.discard _ _).body x = _
    rw [body_discard, if_neg]
    · exact hbody
    · -- the item of the conversation is one of its caller
      rintro ⟨rfl, -⟩
      have howner := hs.owned (.items (c.key id)) _ st hitem hbody
      obtain ⟨w, hw, hcaller'⟩ := map_eq_some_iff.mp howner
      exact hold w hw (hcaller'.trans hstored)
  | @chatSaved new hact =>
    obtain ⟨⟨-, hnew⟩, hitems⟩ := hf.chatSave hact
    refine .insertRecord _ hnew hne rfl (lists_append _ _ _)
      ((hitems.prepared hs c.caller (.input (c.key new.id))).items_append hne _)
      (fun _ _ _ => Iff.rfl) fun z => ?_
    refine (update_of_ne (fun heq => ?_) _ _).symm
    exact hne (Prod.mk.inj heq).2.symm
  | chatUpdated hact hr hbody =>
    obtain ⟨hrec, hcaller⟩ := hchat hr
    exact .setRecord hrec hcaller rfl rfl rfl rfl rfl
  | chatDeleted hact hr =>
    obtain ⟨hrec, hcaller⟩ := hchat hr
    exact .dropRecord hs hrec hcaller
  | discarded hact | published hact | finished hact | acknowledged hact
  | collected hact => simp [hact, Action.callerScoped] at hscop

lemma Agree.renew {s' : Store} (h : Agree A s s') (c c' : Call) :
    Agree A (ApiStore.renew s c) (ApiStore.renew s' c') :=
  ⟨h.records, h.conversations, h.items, h.lists, h.chats⟩

lemma next_agree (hs : s.Consistent) (hf : Fresh s c) (hscop : c.action.callerScoped = true)
    (hne : c.caller ≠ A) : Agree A s (apiStore.next s c) := by
  have heffect := (execute_effect (renew s c) c).agree (s := renew s c) hs hf hscop hne
  exact ⟨heffect.records, heffect.conversations, heffect.items, heffect.lists, heffect.chats⟩

/-! ### Ids of another kind of key -/

/-- The ids that a caller-scoped action looks up. -/
def Action.named : Action → List String
  | .item id | .history id | .responseInputs id _ | .response id | .cancel id
  | .deleteResponse id | .conversationGet id | .conversationUpdate id _ _
  | .conversationDelete id | .conversationItems id _ | .conversationGetItem id _
  | .conversationDeleteItem id _ _ | .chatGet id | .chatMessages id _ | .chatUpdate id _ _ _
  | .chatDelete id => [id]
  | .begin new => new.previous.toList ++ new.conversation.toList ++ new.items.map NewItem.id
  | .conversationCreate _ _ items _ => items.map NewItem.id
  | .conversationAppend id items _ => id :: items.map NewItem.id
  | .chatList page _ _ => page.cursor.toList
  | _ => []

/-- The id does not end as the keys of lists, replay events and owners do. -/
def Plain (id : String) : Prop :=
  ∀ ending ∈ [":input", ":output", ":events", ":items", ":owners"], stem ending id = none

instance (id : String) : Decidable (Plain id) :=
  inferInstanceAs (Decidable (∀ ending ∈ _, stem ending id = none))

namespace Plain

section

variable (h : Plain id)
include h

lemma record (s : Store) (c : Call) : s.misreadsRecord c id = false := by
  rw [Store.misreadsRecord, h ":input" (by simp), h ":output" (by simp), h ":events" (by simp)]
  simp

lemma conversation (s : Store) (c : Call) : s.misreadsConversation c id = false := by
  rw [Store.misreadsConversation, h ":items" (by simp)]
  simp

lemma item (s : Store) (c : Call) : s.misreadsItem c id = false := by
  rw [Store.misreadsItem, h ":owners" (by simp)]
  simp

end

lemma references {items : List NewItem} (h : ∀ id ∈ items.map NewItem.id, Plain id) (s : Store)
    (c : Call) : s.misreadsReference c items = false := by
  induction items with
  | nil => rfl
  | cons item items ih =>
    rw [map_cons, forall_mem_cons] at h
    rw [Store.misreadsReference, ih h.2, h.1.item s c, ite_self]

end Plain

/-- A call that names plain ids only does not raise. -/
lemma not_raises_of_plain (hscop : c.action.callerScoped = true)
    (h : ∀ id ∈ c.action.named, Plain id) (s : Store) : raises s c = false := by
  rw [raises.eq_def]
  cases hact : c.action with
  | item id =>
    rw [hact] at h
    exact (h id (mem_singleton_self _)).item s c
  | history id | responseInputs id | response id | cancel id | deleteResponse id | chatGet id
  | chatMessages id | chatUpdate id | chatDelete id =>
    rw [hact] at h
    exact (h id (mem_singleton_self _)).record s c
  | conversationGet id | conversationUpdate id | conversationDelete id | conversationItems id
  | conversationGetItem id | conversationDeleteItem id =>
    rw [hact] at h
    exact (h id (mem_singleton_self _)).conversation s c
  | begin new =>
    rw [hact, Action.named, forall_mem_append, forall_mem_append] at h
    obtain ⟨⟨hprev, hconv⟩, hitems⟩ := h
    have hprev' : new.previous.any (s.misreadsRecord c) = false := by
      rw [Option.any_eq_false]
      exact fun id hid => by simp [(hprev id (by simp [hid])).record s c]
    have hconv' : new.conversation.any (s.misreadsConversation c) = false := by
      rw [Option.any_eq_false]
      exact fun id hid => by simp [(hconv id (by simp [hid])).conversation s c]
    dsimp only
    rw [hprev', hconv', Plain.references hitems s c]
    simp only [Bool.false_or, Bool.and_false]
    split
    · rfl
    · split <;> rfl
  | conversationCreate id metadata items =>
    rw [hact] at h
    exact Plain.references h s c
  | conversationAppend id items =>
    rw [hact, Action.named, forall_mem_cons] at h
    dsimp only
    rw [h.1.conversation s c, Plain.references h.2 s c]
    simp
  | chatSave => rfl
  | chatList page =>
    rw [hact] at h
    dsimp only
    rw [Option.any_eq_false]
    exact fun id hid => by simp [(h id (by simp [Action.named, hid])).record s c]
  | _ => simp [hact, Action.callerScoped] at hscop

/-- **Callers are isolated.** A caller-scoped call leaves every reply to a caller-scoped
call of another caller as it was, and a reply depends on the objects of its own caller
only, where the call that is answered names plain ids, as all ids of the frontends are. -/
theorem callers_isolated {cs : List Call} (h : apiStore.Along Fresh apiStore.init cs) :
    let s := apiStore.after cs
    (∀ c d : Call, c.action.callerScoped = true → d.action.callerScoped = true →
      (∀ id ∈ d.action.named, Plain id) → Fresh s c →
      c.caller ≠ d.caller → apiStore.reply (apiStore.next s c) d = apiStore.reply s d)
    ∧ ∀ (cs' : List Call) (d : Call), apiStore.Along Fresh apiStore.init cs' →
      d.action.callerScoped = true → (∀ id ∈ d.action.named, Plain id) →
      Agree d.caller s (apiStore.after cs') →
      apiStore.reply s d = apiStore.reply (apiStore.after cs') d := by
  intro s
  have hs : s.Consistent := run_consistent h
  have hreply : ∀ d : Call, d.action.callerScoped = true → (∀ id ∈ d.action.named, Plain id) →
      ∀ t, apiStore.reply t d = (perform (renew t d) d).2 := fun d hd hplain t =>
    congrArg Prod.snd (execute_of_not_raises (not_raises_of_plain hd hplain _))
  constructor
  · intro c d hc hd hplain hf hne
    have hagree := next_agree hs hf hc hne
    rw [hreply d hd hplain, hreply d hd hplain]
    exact (reply_congr (hagree.renew d d) hs (next_consistent hs hf) hd).symm
  · intro cs' d h' hd hplain hagree
    rw [hreply d hd hplain, hreply d hd hplain]
    exact reply_congr (s := renew s d) (hagree.renew d d) hs (run_consistent h') hd

theorem callers_isolated_bob :
    apiStore.reply (apiStore.next (apiStore.after conversationCalls)
        { frontendCall 8 (.conversationCreate "other" "{}" [⟨"item9", "copy9", some "z"⟩] 60) with
          caller := some "bob" }) (frontendCall 9 (.conversationGetItem "conv" "item2"))
      = .ok (.text "b") := by
  have h : apiStore.Along Fresh apiStore.init conversationCalls := by decide
  refine ((callers_isolated h).1 _ _ rfl rfl (by decide) (by decide) (by decide)).trans ?_
  decide

/-- **The key of a list tells of another caller.** Two stores have the same objects of a caller,
none, and the caller asks both for the conversation `conv:items`: there is none in the first
store, and in the second one the items of another caller's conversation stand at this key. -/
theorem list_key_read_by_another :
    let read := { frontendCall 8 (.conversationGet "conv:items") with caller := some "bob" }
    let s := apiStore.next apiStore.init createCall
    apiStore.Along Fresh apiStore.init [createCall] ∧ read.action.callerScoped = true ∧
      Agree read.caller apiStore.init s ∧
      apiStore.reply apiStore.init read = .notFound ∧ apiStore.reply s read = .scriptError := by
  intro read s
  have hfresh : Fresh apiStore.init createCall := by decide
  exact ⟨by decide, rfl, next_agree (c := createCall) empty_consistent hfresh rfl (by decide),
    by decide, by decide⟩

end Foretoken.ApiStore
