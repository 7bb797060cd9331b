import Foretoken.ApiStore.ChatIndex
import Foretoken.ApiStore.View
import Foretoken.Lib.Paging

/-!
Reading collections page by page (`PageQuery::bounds`, `page_input` and `list_page` over
`item_page` and `chat_list`).
-/

namespace Foretoken.ApiStore

open List Paging Option

/-- `list_page`; `first_id` and `last_id` are those of the first and the last element. -/
def listPage {α : Type*} (data : List α) (limit : ℕ) : Listing α := cut limit data

/-- `page_input` of a query with a cursor in `after`. -/
def pageAfter (cursor : Option String) (ascending : Bool) (limit : ℕ) : Page :=
  ⟨cursor, cursor.isSome, ascending, limit⟩

/-- `page_input` of a query with a cursor in `before`. -/
def pageBefore (cursor : String) (ascending : Bool) (limit : ℕ) : Page :=
  ⟨some cursor, false, ascending, limit⟩

/-- A list in the requested order. -/
def ordered {α : Type*} (ascending : Bool) (l : List α) : List α :=
  if ascending then l else l.reverse

/-- The rows of a reply. -/
def Reply.fetched : Reply → Option (List (String × String))
  | .ok (.rows rows) => some rows
  | _ => none

/-- The bodies of a reply. -/
def Reply.bodies : Reply → Option (List String)
  | .ok (.texts texts) => some texts
  | _ => none

/-! ### Items -/

section Items

variable {s : Store} {c : Call} {ids : List Key} {items : List (Key × String)} {limit : ℕ}

lemma idxOf?_append_cons {α : Type*} [DecidableEq α] {x : α} {l : List α} (h : x ∉ l)
    (l' : List α) : (l ++ x :: l').idxOf? x = some l.length := by
  induction l with
  | nil => simp [idxOf?_cons]
  | cons y l ih =>
    rw [mem_cons, not_or] at h
    rw [cons_append, idxOf?_cons, ih h.2]
    simp [Ne.symm h.1]

lemma pageBounds_cursor {x body : String} {after ascending : Bool}
    {pre rest : List (Key × String)} (hnodup : (items.map Prod.fst).Nodup)
    (hitems : items = pre ++ (c.key x, body) :: rest) :
    pageBounds c (items.map Prod.fst) ⟨some x, after, ascending, limit⟩ =
      some (if ascending = after then (pre.length + 1, items.length) else (0, pre.length)) := by
  rw [hitems, map_append, map_cons, nodup_append] at hnodup
  have hnew : c.key x ∉ pre.map Prod.fst := fun h => hnodup.2.2 _ h _ mem_cons_self rfl
  rw [pageBounds, hitems, map_append, map_cons]
  dsimp only
  rw [idxOf?_append_cons hnew]
  simp

section

variable {cursor : Option String} {ascending : Bool} {pre rest : List (Key × String)}
  (hnodup : (items.map Prod.fst).Nodup) (hsplit : pre ++ rest = ordered ascending items)
  (hcursor : pre.getLast?.map Prod.fst = cursor.map c.key)
include hnodup hsplit hcursor

lemma pageBounds_after :
    pageBounds c (items.map Prod.fst) (pageAfter cursor ascending limit) =
      some (if ascending then (pre.length, items.length) else (0, rest.length)) := by
  cases cursor with
  | none =>
    obtain rfl : pre = [] := by simpa using hcursor
    obtain hlen : rest.length = items.length := by
      rw [← nil_append rest, hsplit, ordered]
      split_ifs <;> simp
    cases ascending <;> simp [pageBounds, pageAfter, hlen]
  | some x =>
    obtain ⟨⟨key, body⟩, hrow, rfl : key = c.key x⟩ := map_eq_some_iff.mp hcursor
    obtain ⟨pre, rfl⟩ := getLast?_eq_some_iff.mp hrow
    rw [append_assoc, singleton_append] at hsplit
    cases ascending with
    | true =>
      have hitems : items = pre ++ (c.key x, body) :: rest := hsplit.symm
      rw [pageAfter, pageBounds_cursor hnodup hitems]
      simp
    | false =>
      have hitems : items = rest.reverse ++ (c.key x, body) :: pre.reverse := by
        rw [← reverse_reverse items]
        change (ordered false items).reverse = _
        rw [← hsplit]
        simp
      rw [pageAfter, pageBounds_cursor hnodup hitems]
      simp

/-- **A page behind the elements read so far** is what comes next. -/
lemma pageRows_after :
    pageRows c items (pageAfter cursor ascending limit) = some (rest.take (limit + 1)) := by
  rw [pageRows, pageBounds_after hnodup hsplit hcursor]
  cases ascending with
  | true =>
    obtain rfl : pre ++ rest = items := hsplit
    have hbound : min (pre ++ rest).length (pre.length + limit + 1) =
        pre.length + min rest.length (limit + 1) := by
      rw [length_append]
      omega
    change some (((pre ++ rest).take (min (pre ++ rest).length (pre.length + limit + 1))).drop
      pre.length) = _
    rw [hbound, take_length_add_append, drop_left, some.injEq, take_eq_take_iff]
    omega
  | false =>
    obtain rfl : (pre ++ rest).reverse = items := by rw [hsplit, ordered]; simp
    change some ((((pre ++ rest).reverse.take rest.length).drop
      (max 0 (rest.length - (limit + 1)))).reverse) = _
    rw [reverse_append, ← @length_reverse _ rest, take_left, length_reverse, Nat.zero_max,
      reverse_drop, reverse_reverse, length_reverse, some.injEq, take_eq_take_iff]
    omega

end

/-- A list without repetitions and its stored items. Its entries are ids that the script reads
in the partition of the call. -/
structure Listed (s : Store) (c : Call) (list : ListKey) (items : List (Key × String)) : Prop where
  rows : rows s (s.shelf.lists list) = some items
  nodup : (items.map Prod.fst).Nodup
  key : ∀ row ∈ items, row.1 = c.key row.1.id

/-- The listings that read a list page by page. -/
inductive Reads (s : Store) (c : Call) (id : String) : ListKey → (Page → Reply) → Prop
  | responseInputs (h : response s c id ≠ none) :
      Reads s c id (.input (c.key id)) (responseInputs s c id)
  | conversationItems (h : conversation s c id ≠ none) :
      Reads s c id (.items (c.key id)) (conversationItems s c id)
  | chatMessages (h : chat s c id ≠ none) :
      Reads s c id (.input (c.key id)) (chatMessages s c id)

variable {id : String} {list : ListKey} {read : Page → Reply} {ascending : Bool}

lemma Reads.eq (h : Reads s c id list read) (page : Page) :
    read page = pageReply (itemPage s c list page) := by
  cases h with
  | responseInputs h =>
    obtain ⟨r, hr⟩ := ne_none_iff_exists'.mp h
    rw [ApiStore.responseInputs, hr]
  | conversationItems h =>
    obtain ⟨v, hv⟩ := ne_none_iff_exists'.mp h
    rw [ApiStore.conversationItems, hv]
  | chatMessages h =>
    obtain ⟨r, hr⟩ := ne_none_iff_exists'.mp h
    rw [ApiStore.chatMessages, hr]

lemma Listed.walk (hread : Reads s c id list read) (h : Listed s c list items)
    (hlimit : 0 < limit) {fuel : ℕ} (hfuel : items.length < fuel) :
    ∃ pages, walk Prod.fst (fun cursor => (read (pageAfter cursor ascending limit)).fetched) limit
        fuel none = some pages ∧ Pages limit (ordered ascending (publicRows items)) pages := by
  have hmap : ordered ascending (publicRows items) = publicRows (ordered ascending items) := by
    rw [ordered, ordered]
    split_ifs <;> simp [publicRows]
  refine walk_pages hlimit (by rw [ordered]; split_ifs <;> simpa [publicRows]) ?_
  intro pre rest hsplit
  rw [hmap, publicRows, ← eq_comm, map_eq_append_iff] at hsplit
  obtain ⟨pre, rest, hsplit, rfl, rfl⟩ := hsplit
  have hcursor : pre.getLast?.map Prod.fst = (pre.getLast?.map fun row => row.1.id).map c.key := by
    rw [Option.map_map]
    refine Option.map_congr fun row hrow => h.key row ?_
    have hmem : row ∈ ordered ascending items := hsplit ▸
      mem_append_left _ (mem_of_getLast? hrow)
    rw [ordered] at hmem
    split_ifs at hmem <;> simpa using hmem
  rw [getLast?_map, Option.map_map, hread.eq, itemPage_eq_pageRows h.rows]
  change (pageReply (pageRows c items (pageAfter (pre.getLast?.map fun row => row.1.id) ascending
    limit))).fetched = _
  rw [pageRows_after h.nodup hsplit.symm hcursor, pageReply, Reply.fetched, publicRows, map_take]

end Items

/-! ### Chats -/

section Chats

variable {read : String → Option String} {limit : ℕ}

lemma fillPage_eq {ids result : List String} (h : result.length ≤ limit) :
    fillPage read limit ids result = (result ++ ids.filterMap read).take (limit + 1) := by
  induction ids generalizing result with
  | nil =>
    rw [fillPage, filterMap_nil, append_nil, take_of_length_le (by omega)]
  | cons id ids ih =>
    rw [fillPage]
    have hsplit : result ++ (id :: ids).filterMap read =
        result ++ (read id).toList ++ ids.filterMap read := by
      rw [append_assoc]
      cases hread : read id <;> simp [hread]
    rw [hsplit]
    split_ifs with hfull
    · have hlen : (result ++ (read id).toList).length = limit + 1 := by
        have hone := length_toList_le (o := read id)
        rw [length_append] at hfull ⊢
        omega
      rw [take_left' hlen]
    · exact ih (not_lt.mp hfull)

/-- **The scan of `chat_list`** ends, with the first matching members. -/
lemma scanPage_eq {rounds : ℕ} {rest result : List String} (hrounds : rest.length < rounds)
    (h : result.length ≤ limit + 1) :
    scanPage read limit rounds rest result =
      (result ++ rest.filterMap read).take (limit + 1) := by
  induction rounds generalizing rest result with
  | zero => omega
  | succ rounds ih =>
    rw [scanPage]
    split_ifs with hfull
    · rw [take_left' (by omega)]
    · cases htake : rest.take (limit + 1) with
      | nil =>
        obtain rfl : rest = [] := by simpa using htake
        simp [take_of_length_le h]
      | cons id ids =>
        have hne : rest ≠ [] := by
          rintro rfl
          simp at htake
        have hdrop : (rest.drop (limit + 1)).length < rounds := by
          have := length_pos_iff.mpr hne
          rw [length_drop]
          omega
        have hrest : rest.filterMap read = (rest.take (limit + 1)).filterMap read ++
            (rest.drop (limit + 1)).filterMap read := by
          rw [← filterMap_append, take_append_drop]
        dsimp only
        rw [← htake, fillPage_eq (not_lt.mp hfull), ih hdrop (length_take_le _ _), hrest,
          ← append_assoc, take_append, @take_append _ (result ++ _), take_take, min_self,
          length_take]
        congr 2
        omega

variable {s : Store} {c : Call} {model : Option String}
  {filter : Option (List (String × String))} {ascending : Bool}

/-- **A page behind the chats read so far** holds the next that match. -/
lemma bodies_chatList {idOf : String → String}
    (hid : ∀ id body, chatMatches s c model filter id = some body → idOf body = id)
    {pre rest : List String} (hsplit : pre ++ rest =
      (ordered ascending (s.chats (c.scope, c.caller)).members).filterMap
        (chatMatches s c model filter)) :
    (chatList s c (pageAfter (pre.getLast?.map idOf) ascending limit) model filter).bodies =
      some (rest.take (limit + 1)) := by
  have hnodup : (ordered ascending (s.chats (c.scope, c.caller)).members).Nodup := by
    rw [ordered]
    split_ifs
    · exact (s.chats (c.scope, c.caller)).nodup
    · exact nodup_reverse.mpr (s.chats (c.scope, c.caller)).nodup
  rw [chatList]
  generalize hmembers : (if (pageAfter (pre.getLast?.map idOf) ascending limit).ascending then
    (s.chats (c.scope, c.caller)).members else _) = members
  rw [show ordered ascending (s.chats (c.scope, c.caller)).members = members from hmembers]
    at hnodup hsplit
  have hscan : ∀ offset, scanPage (chatMatches s c model filter) limit (members.length + 1)
      (members.drop offset) [] =
      ((members.drop offset).filterMap (chatMatches s c model filter)).take (limit + 1) :=
    fun offset => scanPage_eq (by rw [length_drop]; omega) (Nat.zero_le _)
  cases hlast : pre.getLast? with
  | none =>
    obtain rfl := getLast?_eq_none_iff.mp hlast
    have hfirst := hscan 0
    rw [drop_zero, ← hsplit, nil_append] at hfirst
    simp only [pageAfter, map_none, drop_zero, hfirst, Reply.bodies]
  | some body =>
    obtain ⟨pre, rfl⟩ := getLast?_eq_some_iff.mp hlast
    rw [append_assoc, singleton_append] at hsplit
    obtain ⟨seen, left, hleft, -, hfound⟩ := filterMap_eq_append_iff.mp hsplit.symm
    obtain ⟨skipped, id, after, rfl, -, hbody, hafter⟩ := filterMap_eq_cons_iff.mp hfound
    rw [← append_assoc] at hleft
    rw [hleft, nodup_append] at hnodup
    have hnew : id ∉ seen ++ skipped := fun h => hnodup.2.2 _ h _ mem_cons_self rfl
    have hdrop : members.drop ((seen ++ skipped).length + 1) = after := by
      rw [hleft, drop_length_add_append]
      rfl
    simp only [pageAfter, map_some, hid id body hbody, hbody, isSome_some, if_true,
      hscan]
    rw [hleft, idxOf?_append_cons hnew, ← hleft]
    simp only [map_some, hdrop, hafter, Reply.bodies]

end Chats

lemma filterMap_ordered_filter {α β : Type*} (f : α → Option β) (ascending : Bool) (l : List α) :
    (ordered ascending (l.filter fun a => (f a).isSome)).filterMap f =
      (ordered ascending l).filterMap f := by
  have hfilter : ∀ l : List α, (l.filter fun a => (f a).isSome).filterMap f = l.filterMap f := by
    intro l
    rw [filterMap_filter]
    refine filterMap_congr fun a _ => ?_
    cases f a <;> rfl
  rw [ordered, ordered]
  split_ifs
  · exact hfilter l
  · rw [← filter_reverse, hfilter]

/-- **Forward walks read a collection exactly**: the lists of items in their order; in every
store that a run of fresh calls reaches, the chats of the caller that are retained and match, each
once and in the order of their creation times and ids; or either in reverse. The scan over the
chats ends, whatever their index holds. The body of a chat carries its id. -/
theorem forward_walks_enumerate (c : Call) (ascending : Bool) {limit : ℕ}
    (hlimit : 1 ≤ limit ∧ limit ≤ 100) :
    (∀ s id list read items, Reads s c id list read → Listed s c list items →
      ∀ fuel, items.length < fuel → ∃ pages,
        walk Prod.fst (fun cursor => (read (pageAfter cursor ascending limit)).fetched) limit fuel
          none = some pages ∧ Pages limit (ordered ascending (publicRows items)) pages) ∧
    (∀ cs, apiStore.Along Fresh apiStore.init cs →
      let s := apiStore.after cs
      ∀ model filter idOf,
        (∀ id body, chatMatches s c model filter id = some body → idOf body = id) →
        ∃ ids : List String, (∀ id, id ∈ ids ↔ (chatMatches s c model filter id).isSome) ∧
          ids.Pairwise (fun a b => a ≠ b ∧ CreatedBefore cs c a b) ∧
          ∀ fuel, ids.length < fuel → ∃ pages,
            walk idOf (fun cursor =>
              (chatList s c (pageAfter cursor ascending limit) model filter).bodies) limit fuel
                none = some pages ∧
            Pages limit ((ordered ascending ids).filterMap (chatMatches s c model filter))
              pages) ∧
    ∀ read rest rounds, rest.length < rounds →
      scanPage read limit rounds rest [] = (rest.filterMap read).take (limit + 1) := by
  refine ⟨fun s id list read items hread h fuel hfuel => h.walk hread hlimit.1 hfuel, ?_,
    fun read rest rounds hrounds => scanPage_eq hrounds (by simp)⟩
  intro cs h s model filter idOf hid
  have hlisted : ChatsListed (createdAt cs) s := run_chatsListed h
  let matching := fun id => (chatMatches s c model filter id).isSome
  refine ⟨(s.chats (c.scope, c.caller)).members.filter matching, fun id => ?_,
    (members_ordered hlisted).filter _, fun fuel hfuel => ?_⟩
  · rw [mem_filter, and_iff_right_iff_imp]
    intro hmatch
    obtain ⟨body, hbody⟩ := isSome_iff_exists.mp hmatch
    rw [chatMatches] at hbody
    split at hbody
    · cases hbody
    · rename_i hchat
      exact mem_members hlisted (chatOwner_of_chat hchat)
  · have hwhole := filterMap_ordered_filter (chatMatches s c model filter) ascending
      (s.chats (c.scope, c.caller)).members
    refine walk_pages hlimit.1 ?_ fun pre rest hsplit => bodies_chatList hid (hsplit.trans hwhole)
    refine (length_filterMap_le _ _).trans_lt ?_
    rw [ordered]
    split_ifs
    · exact hfuel
    · rwa [length_reverse]

/-! ### Backward pages -/

/-- **A page before an element** is cut from the far end. -/
lemma pageRows_before {c : Call} {items pre rest : List (Key × String)} {ascending : Bool}
    {limit : ℕ} {x body : String} (hnodup : (items.map Prod.fst).Nodup)
    (hsplit : ordered ascending items = pre ++ (c.key x, body) :: rest) :
    pageRows c items (pageBefore x ascending limit) = some (pre.take (limit + 1)) := by
  cases ascending with
  | true =>
    have hitems : items = pre ++ (c.key x, body) :: rest := hsplit
    rw [pageRows, pageBefore, pageBounds_cursor hnodup hitems, hitems]
    simp only [Bool.true_eq_false, if_false, if_true, Nat.zero_add, drop_zero]
    rw [take_append_of_le_length (Nat.min_le_left _ _), some.injEq, take_eq_take_iff]
    omega
  | false =>
    have hitems : items = rest.reverse ++ (c.key x, body) :: pre.reverse := by
      rw [← reverse_reverse items]
      change (ordered false items).reverse = _
      rw [hsplit]
      simp
    rw [pageRows, pageBefore, pageBounds_cursor hnodup hitems, hitems]
    have hbound : max (rest.reverse.length + 1) ((rest.reverse ++ (c.key x, body) ::
        pre.reverse).length - (limit + 1)) =
          rest.reverse.length + ((pre.length - (limit + 1)) + 1) := by
      simp
      omega
    simp only [if_true, Bool.false_eq_true, if_false, hbound, take_length,
      drop_length_add_append, drop_succ_cons]
    rw [reverse_drop, reverse_reverse, length_reverse, some.injEq, take_eq_take_iff]
    omega

lemma Listed.nodup_publicRows {s : Store} {c : Call} {list : ListKey}
    {items : List (Key × String)} (h : Listed s c list items) : (publicRows items).Nodup := by
  refine (Nodup.of_map _ h.nodup).map_on fun row hrow row' hrow' heq => ?_
  refine inj_on_of_nodup_map h.nodup hrow hrow' ?_
  rw [h.key row hrow, h.key row' hrow', (Prod.mk.inj heq).1]

/-- **A page before an element** holds the elements farthest from it, and says whether there are
more; it is the page of those that immediately precede it only if at most a page of elements do,
and then it holds all of them. -/
theorem before_page_iff_few {s : Store} {c : Call} {id : String} {list : ListKey}
    {read : Page → Reply} {items pre rest : List (Key × String)} {ascending : Bool} {limit : ℕ}
    {x body : String} (hread : Reads s c id list read) (h : Listed s c list items)
    (hsplit : ordered ascending items = pre ++ (c.key x, body) :: rest)
    (hlimit : 1 ≤ limit ∧ limit ≤ 100) :
    let page := (read (pageBefore x ascending limit)).fetched.map (listPage · limit)
    page = some ⟨publicRows (pre.take limit), limit < pre.length⟩ ∧
      (page = some ⟨publicRows (pre.drop (pre.length - limit)), limit < pre.length⟩ ↔
        pre.length ≤ limit) := by
  intro page
  have hpage : page = some ⟨publicRows (pre.take limit), limit < pre.length⟩ := by
    change (read (pageBefore x ascending limit)).fetched.map (listPage · limit) = _
    rw [hread.eq, itemPage_eq_pageRows h.rows, pageRows_before h.nodup hsplit, pageReply,
      Reply.fetched, map_some, listPage, publicRows, map_take, cut_take, length_map, publicRows,
      map_take]
  refine ⟨hpage, ?_⟩
  have hnodup : (publicRows pre).Nodup := by
    have hall : (publicRows (ordered ascending items)).Nodup := by
      rw [ordered]
      split_ifs
      · exact h.nodup_publicRows
      · rw [publicRows, map_reverse, nodup_reverse]
        exact h.nodup_publicRows
    rw [hsplit, publicRows, map_append] at hall
    exact hall.of_append_left
  have hiff := take_eq_drop_iff hnodup hlimit.1
  rw [publicRows, length_map, ← map_take, ← map_drop] at hiff
  rwa [hpage, some.injEq, Listing.mk.injEq, and_iff_left rfl]

namespace Paged

/-- A response with three input items. -/
def store : Store := apiStore.after [createCall, beginCall]

/-- A call of the frontend. -/
def call : Call := frontendCall 6 .register

/-- The items of the response, with their bodies. -/
def items : List (Key × String) :=
  [(call.key "item1", "a"), (call.key "item2", "b"), (call.key "copy3", "a")]

lemma reads : Reads store call "resp" (.input (call.key "resp"))
    (responseInputs store call "resp") :=
  .responseInputs (by decide)

lemma listed : Listed store call (.input (call.key "resp")) items where
  rows := by decide
  nodup := by decide
  key := by decide

/-- A chat that is saved under its body. -/
def saved (id : String) : NewChat := ⟨id, "m", id, none, 5, [], 60⟩

/-- Two chats of one creation time, saved against the order of their ids. -/
def chatCalls : List Call :=
  [frontendCall 1 (.chatSave (saved "b")), frontendCall 2 (.chatSave (saved "a"))]

/-- The store that holds the two chats. -/
def chatStore : Store := apiStore.after chatCalls

lemma body_of_chat {id body : String} (h : chatMatches chatStore call none none id = some body) :
    body = id := by
  have hrecs : chatStore.records = Function.update (Function.update (fun _ => none)
      (call.key "b") (some (newChatRecord (frontendCall 1 .register) (saved "b"))))
      (call.key "a") (some (newChatRecord (frontendCall 2 .register) (saved "a"))) := rfl
  rw [chatMatches] at h
  split at h
  · cases h
  · rename_i r metadata hchat
    have hrec := (chat_eq_some.mp hchat).1
    obtain rfl : r.body = body := by simpa using h
    rw [hrecs, Function.update_apply, Function.update_apply] at hrec
    split_ifs at hrec with ha hb
    · rw [← some.inj hrec, key_injective call ha]
      rfl
    · rw [← some.inj hrec, key_injective call hb]
      rfl

theorem walked_in_pages :
    (∃ pages, walk Prod.fst (fun cursor =>
      (responseInputs store call "resp" (pageAfter cursor false 2)).fetched) 2 4 none =
        some pages ∧ Pages 2 (ordered false (publicRows items)) pages) ∧
    ∃ ids : List String, (∀ id, id ∈ ids ↔ (chatMatches chatStore call none none id).isSome) ∧
      ids.Pairwise (fun a b => a ≠ b ∧ CreatedBefore chatCalls call a b) ∧
      ∀ fuel, ids.length < fuel → ∃ pages,
        walk id
          (fun cursor => (chatList chatStore call (pageAfter cursor false 2) none none).bodies)
          2 fuel none = some pages ∧
        Pages 2 ((ordered false ids).filterMap (chatMatches chatStore call none none)) pages := by
  obtain ⟨hitems, hchats, -⟩ := forward_walks_enumerate call false (show 1 ≤ 2 ∧ 2 ≤ 100 by decide)
  exact ⟨hitems _ _ _ _ _ reads listed 4 (by decide),
    hchats chatCalls (by decide) none none id fun _ _ h => body_of_chat h⟩

theorem page_before_second :
    (responseInputs store call "resp" (pageBefore "item2" true 1)).fetched.map (listPage · 1) =
      some ⟨[("item1", "a")], false⟩ :=
  (before_page_iff_few reads listed (show ordered true items =
    [(call.key "item1", "a")] ++ (call.key "item2", "b") :: [(call.key "copy3", "a")] from rfl)
    (by decide)).2.mpr le_rfl

end Paged

open Paged

/-- **The page before the third element is the first**, not the second, and walking back from
there ends without the second. -/
theorem before_page_skips :
    Reads store call "resp" (.input (call.key "resp"))
      (responseInputs store call "resp") ∧
    Listed store call (.input (call.key "resp")) items ∧
    (responseInputs store call "resp" (pageBefore "copy3" true 1)).fetched.map
      (listPage · 1) = some ⟨[("item1", "a")], true⟩ ∧
    (responseInputs store call "resp" (pageBefore "item1" true 1)).fetched.map
      (listPage · 1) = some ⟨[], false⟩ :=
  ⟨reads, listed, by decide, by decide⟩

end Foretoken.ApiStore
