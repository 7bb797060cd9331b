import Foretoken.ApiStore.Life

/-!
The history view of a response.

A response shares the items of its history with other views. Its view is immutable all the same:
its input list is written by `begin` only, an item is never written with another body, and it stays
stored as long as a list holds it.
-/

namespace Foretoken.ApiStore

open List Option Foretoken.Shelf

variable {s : Store} {ids : List Key} {result : List (Key × String)} {c : Call} {x : Key}
  {item : Item} {l : Life}

/-! ### Rows -/

/-- The row of an item. -/
def rowOf (s : Store) (x : Key) : Option (Key × String) :=
  (s.shelf.body x).map fun item => (x, item.body)

/-- `rows` succeeds exactly when every item is stored. -/
lemma rows_eq_some_iff : rows s ids = some result ↔ ids.map (rowOf s) = result.map some := by
  induction ids generalizing result with
  | nil =>
    rw [rows]
    cases result <;> simp
  | cons x ids ih =>
    have hcons : rows s (x :: ids) = (rowOf s x).bind fun row => (rows s ids).map (row :: ·) := by
      rw [rows, mapM_cons]
      cases h : s.shelf.body x with
      | none => simp [rowOf, h]
      | some =>
        simp only [rowOf, h]
        rw [← rows]
        cases rows s ids <;> rfl
    rw [hcons, map_cons]
    cases hrow : rowOf s x with
    | none =>
      cases result <;> simp
    | some =>
      simp only [bind_some, map_eq_some_iff]
      constructor
      · rintro ⟨rest, hrest, rfl⟩
        rw [ih.mp hrest, map_cons]
      · intro h
        cases result with
        | nil => simp at h
        | cons first rest =>
          simp only [map_cons, cons.injEq, some.injEq] at h
          exact ⟨rest, ih.mpr h.2, by rw [h.1]⟩

lemma rows_of_stored (h : ∀ row ∈ result, ∃ caller, s.shelf.body row.1 = some ⟨caller, row.2⟩) :
    rows s (result.map Prod.fst) = some result := by
  rw [rows_eq_some_iff, List.map_map]
  refine map_congr_left fun row hrow => ?_
  obtain ⟨caller, hbody⟩ := h row hrow
  rw [Function.comp_apply, rowOf, hbody, map_some]

section

variable (h : rows s ids = some result)
include h

lemma rows_append {ids' : List Key} {result' : List (Key × String)}
    (h' : rows s ids' = some result') : rows s (ids ++ ids') = some (result ++ result') := by
  rw [rows_eq_some_iff] at h h' ⊢
  rw [map_append, map_append, h, h']

lemma rows_drop_take (m n : ℕ) :
    rows s ((ids.take n).drop m) = some ((result.take n).drop m) := by
  rw [rows_eq_some_iff] at h ⊢
  rw [map_drop, map_take, h, map_drop, map_take]

lemma rows_reverse : rows s ids.reverse = some result.reverse := by
  rw [rows_eq_some_iff] at h ⊢
  rw [map_reverse, map_reverse, h]

end

/-- A page of rows: `item_page` on rows that are there. -/
def pageRows (c : Call) (rows : List (Key × String)) (page : Page) :
    Option (List (Key × String)) :=
  match pageBounds c (rows.map Prod.fst) page with
  | none => none
  | some (lower, upper) =>
    if page.ascending then some ((rows.take (min upper (lower + page.limit + 1))).drop lower)
    else some ((rows.take upper).drop (max lower (upper - (page.limit + 1)))).reverse

lemma itemPage_eq_pageRows {list : ListKey} {page : Page}
    (h : rows s (s.shelf.lists list) = some result) :
    itemPage s c list page = pageRows c result page := by
  rw [itemPage, pageRows, (rows_eq_some h).1]
  cases pageBounds c (s.shelf.lists list) page with
  | none => rfl
  | some =>
    dsimp only
    split
    · exact rows_drop_take h _ _
    · exact rows_reverse (rows_drop_take h _ _)

/-! ### Stored items keep their body -/

section

variable {S : Shelf ListKey Key Item} {o : Caller} {seen : List Key} {rows : List (Key × String)}
  (h : Prepared S o seen rows) (l : ListKey)
include h

/-- Items that agree with the shelf keep its bodies. -/
lemma Prepared.body_append (hx : S.body x = some item) :
    (S.append l (storedRows o rows)).body x = some item :=
  body_append_of_agrees l h.agrees (by simpa using h.nodup) hx

/-- Items are stored with the body they are appended with. -/
lemma Prepared.body_appended {row : Key × String} (hrow : row ∈ rows) :
    (S.append l (storedRows o rows)).body row.1 = some ⟨o, row.2⟩ := by
  refine body_append_of_mem _ _ (by simpa using h.nodup) ?_
  exact mem_map_of_mem (f := fun row : Key × String => (row.1, (⟨o, row.2⟩ : Item))) hrow

end

lemma finished_body {f : Completion} {r : Record} {e : Execution}
    {turn : Option Conversation × List (Key × String)} (hs : s.Consistent)
    (hr : s.records (c.key f.id) = some r) (hkind : r.kind = .response e)
    (hturn : CompletedTurn s c f e turn) (hfresh : FreshOutput s c f.items)
    (hx : (withOutput s c f r.caller).shelf.body x = some item) :
    (finished s c f r e turn).shelf.body x = some item := by
  rw [finished_shelf]
  cases hturn with
  | alone => exact hx
  | @kept v originals hconv hv hactive hdel hkept hrows =>
    rw [closeTurn_some hactive]
    exact (turn_prepared hs hr ⟨r, e, v, hr, hkind, hconv, rfl, rfl, hv, hactive⟩ hrows
      hfresh).body_append _ hx
  | left =>
    rw [closeTurn]
    split
    · exact hx
    · exact hx

/-- **A stored item is never written with another body.** -/
theorem Effect.bodies {o : Store × Reply} (h : Effect s c o) (hs : s.Consistent) (hf : Fresh s c)
    {item' : Item} (hx : s.shelf.body x = some item) (hx' : o.1.shelf.body x = some item') :
    item' = item := by
  -- a call deletes items, or it leaves the ones that are stored
  have hdeletes : s.shelf.body x = some item' → item' = item := by
    intro hbefore
    rw [hx, some.injEq] at hbefore
    exact hbefore.symm
  have hkeeps : o.1.shelf.body x = some item → item' = item := by
    intro hafter
    rwa [hx', some.injEq] at hafter
  cases h with
  | rejected | quiet | cancelled | hidden | published | acknowledged | conversationDeleted
  | chatUpdated => exact hkeeps hx
  | @begun new xs conv ys ps hact hinh hrows hprep =>
    obtain ⟨-, hitems⟩ := hf.begin hact
    have hnew := prepareItems_fresh hitems (fun y hy =>
      ⟨_, ((hinh.spec hs).2 y hy).choose_spec⟩) hprep
    have hshelf : (started s c new xs conv ps).shelf
        = (s.shelf.pin (.input (c.key new.id)) xs).append (.input (c.key new.id))
          (storedRows c.caller ps) := by
      cases conv <;> rfl
    refine hkeeps ?_
    rw [hshelf]
    exact (hnew.pin (.input (c.key new.id)) xs).body_append _ (by rw [body_pin, hx])
  | @discarded id i r e =>
    obtain ⟨vs, expiry, huncl⟩ := unclaim_eq s c id e.conversation
    rw [huncl] at hx'
    exact hdeletes (body_of_release (body_of_release hx'))
  | deleted | conversationUpdated =>
    refine hkeeps ?_
    split
    · exact hx
    · exact hx
  | @finished f r e turn hact hr hkind hinst hpend hver hturn =>
    have hfresh := hf.finish hact hr hpend
    refine hkeeps (finished_body hs hr hkind hturn hfresh ?_)
    exact (hfresh.prepared hs r.caller (.output (c.key f.id))).body_append _ hx
  | conversationCreated hact hprep =>
    obtain ⟨-, hitems⟩ := hf.conversationCreate hact
    exact hkeeps ((prepareItems_fresh hitems (by simp) hprep).body_append _ hx)
  | conversationAppended hact hv hactive hprep =>
    exact hkeeps ((prepareItems_fresh (hf.conversationAppend hact)
      (fun y hy => hs.exact.body_of_mem hy) hprep).body_append _ hx)
  | itemDeleted => exact hdeletes (body_of_discard hx')
  | @chatSaved new hact =>
    obtain ⟨-, hitems⟩ := hf.chatSave hact
    exact hkeeps ((hitems.prepared hs c.caller (.input (c.key new.id))).body_append _ hx)
  | chatDeleted => exact hdeletes (body_of_release (body_of_release hx'))
  | collected => exact hdeletes ((collect_remains s c.now).bodies x item' hx')

/-! ### The view of a response -/

/-- The rows of the two lists of a response. -/
structure Viewed (s : Store) (key : Key) (inputs outputs : List (Key × String)) : Prop where
  inputs : rows s (s.shelf.lists (.input key)) = some inputs
  outputs : rows s (s.shelf.lists (.output key)) = some outputs

section

variable (hs : s.Settled) (hl : Lawful s c)
include hs hl

/-- A list that is not changed keeps its rows. -/
lemma next_rows {list : ListKey} (h : rows s ids = some result)
    (hids : ∀ x ∈ ids, x ∈ (apiStore.next s c).shelf.lists list) :
    rows (apiStore.next s c) ids = some result := by
  have hbodies := (rows_eq_some h).2
  refine (rows_congr fun x hx => ?_).trans h
  rw [← (rows_eq_some h).1] at hx
  obtain ⟨row, hrow, rfl⟩ := mem_map.mp hx
  obtain ⟨caller, hbody⟩ := hbodies row hrow
  have hmem := hids row.1 ((rows_eq_some h).1 ▸ mem_map_of_mem hrow)
  obtain ⟨item, hitem⟩ := (next_settled hs hl).consistent.exact.body_of_mem hmem
  have hsame := (execute_effect (renew s c) c).bodies hs.consistent hl.1 hbody hitem
  rw [hitem, hbody, hsame]

/-- A response begins with the rows that `begin` returned. -/
lemma begin_viewed {new : NewResponse} {v : Value} (hact : c.action = .begin new)
    (hreply : apiStore.reply s c = .ok v) :
    ∃ xs conv ys ps, inherit s c new = .ok (xs, conv)
      ∧ rows s xs = some ys
      ∧ prepareItems s c c.caller new.items xs = some ps
      ∧ v = .rows (publicRows (ys ++ ps))
      ∧ Viewed (apiStore.next s c) (c.key new.id) (ys ++ ps) [] := by
  obtain ⟨xs, conv, ys, ps, hinhe, hrows, hprep, hvalue, hnext⟩ :=
    begin_next hact hreply
  have hinh : Inherited s c new xs conv := inherited_of_inherit hinhe
  obtain ⟨⟨-, hnew⟩, hitems⟩ := hl.1.begin hact
  have hfresh := prepareItems_fresh hitems (fun y hy =>
    ⟨_, ((hinh.spec hs.consistent).2 y hy).choose_spec⟩) hprep
  have hempty : ∀ list : ListKey, list.object = .record (c.key new.id) →
      s.shelf.lists list = [] := by
    intro list hlist
    refine hs.consistent.lists_eq_nil ?_
    rw [hlist, callerOf, hnew, map_none]
  have hlists : (apiStore.next s c).shelf.lists
      = Function.update s.shelf.lists (.input (c.key new.id))
        (xs ++ ps.map Prod.fst) := by
    rw [hnext, lists_started]
    change Function.update s.shelf.lists _ (s.shelf.lists (.input (c.key new.id)) ++ _ ++ _) = _
    rw [hempty _ rfl, nil_append]
  have hinput : (apiStore.next s c).shelf.lists (.input (c.key new.id))
      = xs ++ ps.map Prod.fst := by
    rw [hlists, Function.update_self]
  refine ⟨xs, conv, ys, ps, hinhe, hrows, hprep, hvalue, ?_, ?_⟩
  · rw [hinput]
    have hlisted : ∀ x ∈ xs, x ∈ (apiStore.next s c).shelf.lists (.input (c.key new.id)) := by
      intro x hx
      rw [hinput]
      exact mem_append_left _ hx
    refine rows_append (next_rows hs hl hrows hlisted)
      (rows_of_stored fun row hrow => ⟨c.caller, ?_⟩)
    rw [hnext]
    have hbody := (hfresh.pin (.input (c.key new.id)) xs).body_appended (.input (c.key new.id))
      hrow
    cases conv <;> exact hbody
  · rw [hlists, Function.update_of_ne (by simp), hempty _ rfl]
    rfl

/-- The output is read back behind the earlier output. -/
lemma finish_viewed {f : Completion} {xs outputs : List (Key × String)}
    (hact : c.action = .finish f) (hlife : life s (c.key f.id) = some l)
    (hpend : isPending l.status = true) (hinst : f.instanceId = "" ∨ l.instanceId = f.instanceId)
    (hver : ∀ v ∈ f.version, v = l.version) (hv : Viewed s (c.key f.id) xs outputs) :
    Viewed (apiStore.next s c) (c.key f.id) xs (outputs ++ outputRows c f.items) := by
  obtain ⟨r, e, hr, hkind, rfl⟩ := life_eq_some hlife
  obtain ⟨turn, hturn, hfin⟩ :=
    finish_eq_finished (renew_settled hs c) hr hkind hinst hpend hver
  have hnext : apiStore.next s c = finished (renew s c) c f r e turn := by
    change (execute (renew s c) c).1 = _
    have hraises : raises (renew s c) c = false := by
      rw [raises, hact]
      exact misreadsRecord_of_some hr
    rw [execute_of_not_raises hraises, perform, hact]
    exact congrArg Prod.fst hfin
  have hfresh := Fresh.finish (s := renew s c) hl.1 hact hr hpend
  have hinput : (apiStore.next s c).shelf.lists (.input (c.key f.id))
      = s.shelf.lists (.input (c.key f.id)) := by
    rw [hnext, finished_lists (by simp)]
    rfl
  have hout : (apiStore.next s c).shelf.lists (.output (c.key f.id))
      = s.shelf.lists (.output (c.key f.id)) ++ (outputRows c f.items).map Prod.fst := by
    rw [hnext, finished_lists (by simp), if_pos rfl, map_fst_outputRows, List.map_map]
    rfl
  constructor
  · rw [hinput]
    exact next_rows hs hl hv.inputs fun x hx => hinput ▸ hx
  · rw [hout]
    refine rows_append (next_rows hs hl hv.outputs fun x hx => hout ▸ mem_append_left _ hx)
      (rows_of_stored fun row hrow => ⟨r.caller, ?_⟩)
    rw [hnext]
    refine finished_body hs.consistent hr hkind hturn hfresh ?_
    exact (hfresh.prepared hs.consistent r.caller (.output (c.key f.id))).body_appended _ hrow

end

/-- A call leaves the view alone, or completes the response. -/
lemma next_viewed {cs : List Call} {key : Key} {xs outputs : List (Key × String)}
    (h : apiStore.Along Lawful apiStore.init (cs ++ [c]))
    (hlife : life (apiStore.after cs) key = some l)
    (hk : (apiStore.after (cs ++ [c])).records key ≠ none)
    (hv : Viewed (apiStore.after cs) key xs outputs) :
    ∃ l', life (apiStore.after (cs ++ [c])) key = some l'
      ∧ (isPending l'.status = isPending l.status
          ∧ Viewed (apiStore.after (cs ++ [c])) key xs outputs
        ∨ ∃ f, c.action = .finish f ∧ c.key f.id = key ∧ isPending l.status = true
          ∧ isPending l'.status = false
          ∧ Viewed (apiStore.after (cs ++ [c])) key xs (outputs ++ outputRows c f.items)) := by
  have hs := run_settled h.left
  have hl : Lawful (apiStore.after cs) c := h.right.1
  rw [Machine.after_concat] at hk ⊢
  obtain ⟨l', hlife', hstep⟩ := next_life hl.1 hlife hk
  refine ⟨l', hlife', ?_⟩
  -- the two lists stay as they are unless the call completes the response
  have hkeeps : l'.inputs = l.inputs → l'.outputs = l.outputs →
      Viewed (apiStore.next (apiStore.after cs) c) key xs outputs := by
    obtain ⟨r, e, -, -, rfl⟩ := life_eq_some hlife
    obtain ⟨r', e', -, -, rfl⟩ := life_eq_some hlife'
    intro hinput hout
    dsimp only at hinput hout
    constructor
    · rw [hinput]
      exact next_rows hs hl hv.inputs fun x hx => hinput ▸ hx
    · rw [hout]
      exact next_rows hs hl hv.outputs fun x hx => hout ▸ hx
  generalize apiStore.reply (apiStore.after cs) c = reply at hstep
  cases hstep with
  | idle => exact .inl ⟨rfl, hkeeps rfl rfl⟩
  | @published id body t es hact hkey hpend =>
    refine .inl ⟨?_, hkeeps rfl rfl⟩
    have hstat := hl.2
    rw [Call.keepsStatus, hact] at hstat
    rw [Life.publish]
    split
    · rfl
    · rename_i hbody
      rw [hpend]
      simpa [hbody] using hstat
  | @finished f hact hkey hpend hinst hver =>
    subst hkey
    have hstat := hl.2
    rw [Call.keepsStatus, hact] at hstat
    exact .inr ⟨f, hact, rfl, hpend, by simpa [Life.finish] using hstat,
      finish_viewed hs hl hact hlife hpend hinst hver hv⟩

/-- The completion of a response in a run, with its output. -/
def CompletedIn (s : Store) (cs : List Call) (key : Key) (outputs : List (Key × String)) : Prop :=
  ∃ pre c post f, cs = pre ++ c :: post ∧ c.action = .finish f ∧ c.key f.id = key
    ∧ running (apiStore.run s pre) key = true ∧ running (apiStore.run s (pre ++ [c])) key = false
    ∧ outputs = outputRows c f.items

/-- **A run leaves the inputs of a response alone and adds the output of its completion.** -/
theorem run_viewed {cs₀ cs : List Call} {key : Key} {xs : List (Key × String)}
    (h : apiStore.Along Lawful apiStore.init (cs₀ ++ cs))
    (hlife : life (apiStore.after cs₀) key = some l)
    (hpend : isPending l.status = true) (hk : ∀ pre post, cs = pre ++ post →
      (apiStore.after (cs₀ ++ pre)).records key ≠ none)
    (hv : Viewed (apiStore.after cs₀) key xs []) :
    ∃ l' outputs, life (apiStore.after (cs₀ ++ cs)) key = some l'
      ∧ Viewed (apiStore.after (cs₀ ++ cs)) key xs outputs
      ∧ (isPending l'.status = true ∧ outputs = [] ∨ isPending l'.status = false
          ∧ CompletedIn (apiStore.after cs₀) cs key outputs) := by
  induction cs using reverseRecOn with
  | nil =>
    rw [append_nil]
    exact ⟨l, [], hlife, hv, .inl ⟨hpend, rfl⟩⟩
  | append_singleton cs c ih =>
    rw [← append_assoc] at h
    obtain ⟨l₁, outputs, hlife₁, hv₁, hstage⟩ := ih h.left fun pre post hsplit =>
      hk pre (post ++ [c]) (by rw [hsplit, append_assoc])
    have hheld := hk (cs ++ [c]) [] (append_nil _).symm
    rw [← append_assoc] at hheld ⊢
    obtain ⟨l₂, hlife₂, hsame | ⟨f, hact, hkey, hpend₁, hterm, hv₂⟩⟩ :=
      next_viewed h hlife₁ hheld hv₁
    · refine ⟨l₂, outputs, hlife₂, hsame.2, ?_⟩
      rw [hsame.1]
      refine hstage.imp_right fun ⟨hterm, pre, c', post, f, hsplit, hrest⟩ =>
        ⟨hterm, pre, c', post ++ [c], f, ?_, hrest⟩
      rw [hsplit, append_assoc, cons_append]
    · refine ⟨l₂, _, hlife₂, hv₂, .inr ⟨hterm, cs, c, [], f, rfl, hact, hkey, ?_, ?_, ?_⟩⟩
      · rw [← apiStore.after_append, running_eq hlife₁, hpend₁]
      · rw [← apiStore.after_append, ← append_assoc, running_eq hlife₂, hterm]
      · rcases hstage with ⟨-, rfl⟩ | ⟨hended, -⟩
        · rw [nil_append]
        · simp [hpend₁] at hended

/-- **The history view of a response is immutable.** The view is fixed by `begin`: the
inherited items, then the new inputs. While the response is there, `response_inputs`
pages through these rows, and `history` returns them followed by the output of the one
completion, whatever happens to the other objects that share the items. No call writes
a stored item with another body. -/
theorem history_view_immutable {cs₀ cs : List Call} {c₀ : Call} {new : NewResponse}
    {value : Value} (h : apiStore.Along Lawful apiStore.init (cs₀ ++ [c₀] ++ cs))
    (haction : c₀.action = .begin new)
    (hreply : apiStore.reply (apiStore.after cs₀) c₀ = .ok value)
    (hk : ∀ pre post, cs = pre ++ post →
      (apiStore.after (cs₀ ++ [c₀] ++ pre)).records (c₀.key new.id) ≠ none) :
    let s₀ := apiStore.after cs₀
    let s := apiStore.after (cs₀ ++ [c₀] ++ cs)
    (∃ history conv inherited prepared outputs, inherit s₀ c₀ new = .ok (history, conv)
      ∧ rows s₀ history = some inherited
      ∧ prepareItems s₀ c₀ c₀.caller new.items history = some prepared
      ∧ value = .rows (publicRows (inherited ++ prepared))
      ∧ (running s (c₀.key new.id) = false →
        CompletedIn (apiStore.after (cs₀ ++ [c₀])) cs (c₀.key new.id) outputs)
      ∧ ∀ (c : Call) (id : String) (r : Record) (e : Execution), c.key id = c₀.key new.id →
        response s c id = some (r, e) →
        (c.action = .history id → apiStore.reply s c =
          if isPending r.status then .responseBusy
          else .ok (.rows (publicRows (inherited ++ prepared ++ outputs))))
        ∧ ∀ page, c.action = .responseInputs id page →
          apiStore.reply s c = pageReply (pageRows c (inherited ++ prepared) page))
      ∧ ∀ (c : Call) (x : Key) (item item' : Item), Lawful s c → s.shelf.body x = some item →
        (apiStore.next s c).shelf.body x = some item' → item' = item := by
  intro s₀ s
  have hs₀ : s₀.Settled := run_settled h.left.left
  have hbegin : Lawful s₀ c₀ := h.left.right.1
  constructor
  · obtain ⟨history, conv, inherited, prepared, hinherit, hrows, hprepared, hvalue, hv⟩ :=
      begin_viewed hs₀ hbegin haction hreply
    obtain ⟨l, hlife, hqueued, -⟩ := begin_life haction hreply
    rw [← apiStore.after_concat] at hv hlife
    obtain ⟨l', outputs, hlife', hv', hstage⟩ :=
      run_viewed h hlife (by rw [hqueued]; rfl) hk hv
    refine ⟨history, conv, inherited, prepared, outputs, hinherit, hrows, hprepared, hvalue, ?_, ?_⟩
    · intro hended
      rw [running_eq hlife'] at hended
      rcases hstage with ⟨hpending, -⟩ | ⟨-, hcompleted⟩
      · simp [hended] at hpending
      · exact hcompleted
    · intro c id r e hkey hr
      have hread : (renew s c).misreadsRecord c id = false :=
        misreadsRecord_of_some (response_eq_some.mp hr).1
      rw [← hkey] at hv'
      constructor
      · intro hhistory
        change (execute (renew s c) c).2 = _
        rw [execute_of_not_raises (by rw [raises, hhistory]; exact hread), perform, hhistory]
        change ApiStore.history s c id = _
        rw [ApiStore.history, hr]
        dsimp only
        rw [rows_append hv'.inputs hv'.outputs]
      · intro page hpage
        change (execute (renew s c) c).2 = _
        rw [execute_of_not_raises (by rw [raises, hpage]; exact hread), perform, hpage]
        change responseInputs s c id page = _
        rw [responseInputs, hr]
        dsimp only
        rw [itemPage_eq_pageRows hv'.inputs]
  · intro c x item item' hl hx hx'
    exact (execute_effect (renew s c) c).bodies (s := renew s c) (run_settled h).consistent hl.1 hx
      hx'

theorem history_view_immutable_edited :
    ∃ outputs, apiStore.reply (apiStore.after ([createCall] ++ [beginCall]
        ++ turnCalls.tail)) (frontendCall 6 (.history "resp"))
      = .ok (.rows ([("item1", "a"), ("item2", "b"), ("copy3", "a")] ++ outputs)) := by
  have h : apiStore.Along Lawful apiStore.init ([createCall] ++ [beginCall] ++ turnCalls.tail) := by
    decide
  have hreply : apiStore.reply (apiStore.after [createCall]) beginCall
      = .ok (.rows [("item1", "a"), ("item2", "b"), ("copy3", "a")]) := by decide
  have hpresent : ∀ pre ∈ turnCalls.tail.inits, (apiStore.after
      ([createCall] ++ [beginCall] ++ pre)).records ⟨"svc:", "resp"⟩ ≠ none := by decide
  obtain ⟨⟨_, _, inherited, prepared, outputs, -, -, -, hvalue, -, hreads⟩, -⟩ :=
    history_view_immutable h rfl hreply fun pre post hsplit =>
      hpresent pre ((mem_inits _ _).mpr ⟨post, hsplit.symm⟩)
  have hread := (hreads (frontendCall 6 (.history "resp")) "resp" _ _ rfl rfl).1 rfl
  refine ⟨publicRows outputs, hread.trans ?_⟩
  rw [if_neg (by decide), publicRows, map_append, ← publicRows, ← publicRows,
    ← Value.rows.inj hvalue]

end Foretoken.ApiStore
