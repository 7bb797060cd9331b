import Foretoken.ApiStore.Turns
import Foretoken.Lib.Thread

/-!
The history of a conversation, read as a thread.

A call changes the conversation exactly by its edit (`next_thread`). The store finds the inputs of
a turn again by an offset into the input list of the response, so the proof rests on the
conversation being frozen while it is held.
-/

namespace Foretoken.ApiStore

open List Option Thread Record Foretoken.Shelf

open Function

variable {s s' : Store} {c : Call} {k key : Key} {v w : Conversation} {r : Record} {id : String}
  {e : Execution} {t : Thread String Key}

/-! ### The thread of a conversation -/

/-- The place of a response's own inputs in its input list. -/
def Record.inputStart (r : Record) : ℕ :=
  match r.kind with
  | .response e => e.newInputStart
  | .chat _ => 0

/-- The response's own inputs. -/
def newInputs (s : Store) (key : Key) : List Key :=
  (s.shelf.lists (.input key)).drop (((s.records key).map inputStart).getD 0)

/-- A conversation as a thread. -/
def thread (s : Store) (k : Key) : Option (Thread String Key) :=
  (s.conversations k).map fun v =>
    { items := s.shelf.lists (.items k)
      turn :=
        if v.activeResponse = "" then none
        else some (v.activeResponse, newInputs s ⟨k.scope, v.activeResponse⟩) }

/-- The keys of submitted items, in order: an item that is listed already is listed
under its copy id. -/
def aliases (c : Call) : List NewItem → List Key → List Key
  | [], _ => []
  | item :: items, seen =>
    let key := if c.key item.id ∈ seen then c.key item.copyId else c.key item.id
    key :: aliases c items (key :: seen)

lemma map_fst_prepareItems {o : Caller} {xs : List NewItem} {seen : List Key}
    {ps : List (Key × String)} (h : prepareItems s c o xs seen = some ps) :
    ps.map Prod.fst = aliases c xs seen := by
  induction xs generalizing seen ps with
  | nil =>
    cases h
    rfl
  | cons item xs ih =>
    rw [prepareItems] at h
    split at h
    · cases h
    · obtain ⟨rest, hrest, rfl⟩ := map_eq_some_iff.mp h
      rw [map_cons, ih hrest, aliases]

/-- The conversation is held by the response `id` of the partition of the call. -/
def Holder (s : Store) (c : Call) (k : Key) (id : String) : Prop :=
  c.scope = k.scope ∧ id ≠ "" ∧ activeOf (s.conversations k) = id

instance (s : Store) (c : Call) (k : Key) (id : String) : Decidable (Holder s c k id) :=
  inferInstanceAs (Decidable (_ ∧ _ ∧ _))

/-- `discard` finds the response queued and of its instance. -/
def discardable (s : Store) (c : Call) (id instanceId : String) : Bool :=
  (s.records (c.key id)).any fun r =>
    r.status = "queued" &&
      match r.kind with
      | .response e => e.executionInstance = instanceId
      | .chat _ => false

/-- The edit on the conversation `k` of a call with this reply. -/
def editWith (s : Store) (c : Call) (k : Key) (reply : Reply) : Option (Edit String Key) :=
  match c.action, reply with
  | .begin new, .ok _ =>
    if new.conversation.map c.key = some k then
      some (.opened new.id (aliases c new.items (s.shelf.lists (.items k))))
    else none
  | .discard id instanceId, .ok _ =>
    if Holder s c k id ∧ discardable s c id instanceId then some .abandoned else none
  | .finish f, .ok _ =>
    if Holder s c k f.id then
      some (.closed ((s.conversations k).any (!·.deleted) && f.Kept) (f.items.map (c.key ·.1)))
    else none
  | .conversationAppend id items _, .ok _ =>
    if c.key id = k then some (.appended (aliases c items (s.shelf.lists (.items k)))) else none
  | .conversationDeleteItem id item _, .ok _ =>
    if c.key id = k then some (.removed (c.key item)) else none
  | _, _ => none

/-- The edit a call makes on the conversation `k`. -/
def editOf (s : Store) (c : Call) (k : Key) : Option (Edit String Key) :=
  editWith s c k (apiStore.reply s c)

/-! ### The refinement -/

lemma Store.Settled.holder (hs : s.Settled) (hv : s.conversations k = some v)
    (hactive : v.activeResponse ≠ "") :
    ∃ r e, s.records ⟨k.scope, v.activeResponse⟩ = some r ∧ r.kind = .response e
      ∧ isPending r.status = true ∧ e.conversation = k.id := by
  have hk := hs.turns.named k v hv
  rw [← turnOf_eq_iff hk, hs.turns.agree k.scope k.id _ hk hactive, hv]
  rfl

/-- The conversation, its list and its holder's inputs are left alone. -/
lemma thread_frame {v' : Conversation} (hv : s.conversations k = some v)
    (hv' : s'.conversations k = some v') (hactive : v'.activeResponse = v.activeResponse)
    (hitems : s'.shelf.lists (.items k) = s.shelf.lists (.items k))
    (hholder : v.activeResponse ≠ "" →
      newInputs s' ⟨k.scope, v.activeResponse⟩ = newInputs s ⟨k.scope, v.activeResponse⟩) :
    thread s' k = thread s k := by
  rw [thread, thread, hv, hv', map_some, map_some, hactive, hitems]
  by_cases hidle : v.activeResponse = ""
  · rw [if_pos hidle, if_pos hidle]
  · rw [if_neg hidle, if_neg hidle, hholder hidle]

lemma thread_setRecord {r' : Record} (hconvs : s'.conversations = s.conversations)
    (hshelf : s'.shelf = s.shelf)
    (hrecs : s'.records = update s.records key (some r'))
    (hr : s.records key = some r) (hstart : r'.inputStart = r.inputStart) :
    thread s' k = thread s k := by
  have hinp : newInputs s' = newInputs s := by
    funext key'
    rw [newInputs, newInputs, hshelf, hrecs]
    by_cases hkey : key' = key
    · subst hkey
      rw [update_self, hr, map_some, map_some, hstart]
    · rw [update_of_ne hkey]
  cases hv : s.conversations k with
  | none => rw [thread, thread, hconvs, hv, map_none, map_none]
  | some =>
    refine thread_frame hv (hconvs ▸ hv) rfl (by rw [hshelf]) fun _ => ?_
    rw [hinp]

lemma newInputs_congr (hrec : s'.records key = s.records key)
    (hlist : s'.shelf.lists (.input key) = s.shelf.lists (.input key)) :
    newInputs s' key = newInputs s key := by
  rw [newInputs, newInputs, hrec, hlist]

/-- A pending response holds the conversation it names. -/
lemma holder_iff (hs : s.Settled) (hr : s.records (c.key id) = some r)
    (hkind : r.kind = .response e) (hpend : isPending r.status = true) :
    Holder s c k id ↔ e.conversation ≠ "" ∧ k = c.key e.conversation := by
  constructor
  · rintro ⟨hscope, hid, hactive⟩
    cases hv : s.conversations k with
    | none =>
      rw [hv] at hactive
      exact absurd hactive.symm hid
    | some v =>
      rw [hv] at hactive
      change v.activeResponse = id at hactive
      subst hactive
      obtain ⟨r', e', hr', hkind', -, hconv⟩ := hs.holder hv hid
      have hkey : c.key v.activeResponse = ⟨k.scope, v.activeResponse⟩ := by
        rw [Call.key, hscope]
      rw [hkey, hr'] at hr
      cases hr
      rw [hkind', Kind.response.injEq] at hkind
      subst hkind
      rw [hconv]
      exact ⟨hs.turns.named k v hv, by rw [Call.key, hscope]⟩
  · rintro ⟨hconv, rfl⟩
    obtain ⟨v, hv, hactive⟩ := claim_of_pending hs.toWellFormed hs.turns hr hkind hpend hconv
    refine ⟨rfl, hs.consistent.named _ r hr, ?_⟩
    rwa [hv]

lemma holder_ne (hv : s.conversations k = some v) (hactive : v.activeResponse ≠ "")
    (h : ¬ Holder s c k id) : (⟨k.scope, v.activeResponse⟩ : Key) ≠ c.key id := by
  intro heq
  obtain ⟨hscope, hid⟩ := Key.mk.inj heq
  subst hid
  refine h ⟨hscope.symm, hactive, ?_⟩
  rw [hv]
  rfl

section Steps

lemma thread_eq (hv : s.conversations k = some v) :
    thread s k = some
      { items := s.shelf.lists (.items k)
        turn :=
          if v.activeResponse = "" then none
          else some (v.activeResponse, newInputs s ⟨k.scope, v.activeResponse⟩) } := by
  rw [thread, hv, map_some]

/-- A new record leaves the other threads alone. -/
lemma thread_of_new (hs : s.Settled) (hnew : s.records key = none)
    (hv : s.conversations k = some v) (hv' : s'.conversations k = some v)
    (hrecs : ∀ key' ≠ key, s'.records key' = s.records key')
    (hlists : ∀ l, l ≠ .input key → s'.shelf.lists l = s.shelf.lists l) :
    thread s' k = thread s k := by
  refine thread_frame hv hv' rfl (hlists _ (by simp)) fun hactive => ?_
  obtain ⟨r, e, hr, -⟩ := hs.holder hv hactive
  have hne : (⟨k.scope, v.activeResponse⟩ : Key) ≠ key := by
    intro heq
    simp [heq, hnew] at hr
  exact newInputs_congr (hrecs _ hne) (hlists _ (by simpa using hne))

lemma started_thread (hs : s.Settled) {new : NewResponse} {history : List Key}
    {conv : Option (String × Conversation)} {prepared : List (Key × String)}
    (hact : c.action = .begin new) (hnew : s.records (c.key new.id) = none) (hid : new.id ≠ "")
    (h : Inherited s c new history conv)
    (hprep : prepareItems s c c.caller new.items history = some prepared)
    (hv : s.conversations k = some v) (ht : thread s k = some t) (reply : Value) :
    thread (started s c new history conv prepared) k
      = some ((editWith s c k (.ok reply)).elim t t.apply) := by
  have hothers : ∀ key' ≠ c.key new.id,
      (started s c new history conv prepared).records key' = s.records key' := by
    intro key' hkey
    rw [records_started, update_of_ne hkey]
  have hlists : ∀ l, l ≠ .input (c.key new.id) →
      (started s c new history conv prepared).shelf.lists l = s.shelf.lists l := by
    intro l hl
    rw [lists_started, update_of_ne hl]
  rw [editWith.eq_def, hact]
  dsimp only
  cases h with
  | nothing hnone | previous hnone =>
    rw [hnone, if_neg (by simp), elim_none, ← ht]
    exact thread_of_new hs hnew hv hv hothers hlists
  | @claimed id w hconversation hw hidle =>
    obtain ⟨hw', -⟩ := conversation_eq_some.mp hw
    simp only [hconversation, map_some, some.injEq]
    by_cases hk : c.key id = k
    · subst hk
      have hempty := hs.consistent.lists_eq_nil
        (by rw [ListKey.object, callerOf, hnew, map_none])
      have hinp : newInputs (started s c new (s.shelf.lists (.items (c.key id)))
          (some (id, w)) prepared) (c.key new.id)
            = aliases c new.items (s.shelf.lists (.items (c.key id))) := by
        rw [newInputs, lists_started, records_started, update_self,
          update_self, hempty, ← map_fst_prepareItems hprep]
        exact drop_left' rfl
      rw [thread_eq hw'] at ht
      cases ht
      rw [if_pos rfl, elim_some, apply, ← hinp, thread_eq (update_self ..),
        if_neg hid, hlists _ (by simp)]
      rfl
    · have hv' : (started s c new (s.shelf.lists (.items (c.key id))) (some (id, w))
          prepared).conversations k = some v := by
        refine Eq.trans ?_ hv
        exact update_of_ne (fun heq => hk heq.symm) _ _
      rw [if_neg hk, elim_none, ← ht]
      exact thread_of_new hs hnew hv hv' hothers hlists

/-- The claim is given back, and the list may have grown. -/
lemma thread_closed {xs : List Key} (hw : s'.conversations k = some w)
    (hidle : w.activeResponse = "") (hitems : s'.shelf.lists (.items k) = xs) :
    thread s' k = some ⟨xs, none⟩ := by
  rw [thread_eq hw, if_pos hidle, hitems]

lemma lists_items_dropRecord (s : Store) (key : Key) :
    (dropRecord s key).shelf.lists (.items k) = s.shelf.lists (.items k) := by
  refine (lists_dropRecord s.shelf key (.items k)).trans ?_
  rw [if_neg (by simp [ListKey.object])]

lemma thread_dropRecord (hv : s.conversations k = some w)
    (hne : w.activeResponse ≠ "" → (⟨k.scope, w.activeResponse⟩ : Key) ≠ key) :
    thread (dropRecord s key) k = thread s k := by
  refine thread_frame hv hv rfl (lists_items_dropRecord s key) fun hactive => ?_
  refine newInputs_congr (update_of_ne (hne hactive) _ _) ?_
  refine (lists_dropRecord s.shelf key _).trans ?_
  rw [if_neg]
  intro hobj
  cases hobj
  exact hne hactive rfl

lemma discarded_thread (hs : s.Settled) {i : String}
    (hact : c.action = .discard id i) (hr : s.records (c.key id) = some r)
    (hkind : r.kind = .response e) (hinst : e.executionInstance = i)
    (hq : r.status = "queued") (hv : s.conversations k = some v) (ht : thread s k = some t)
    (rp : Value) :
    thread (dropRecord (unclaim s c id e.conversation) (c.key id)) k
      = some ((editWith s c k (.ok rp)).elim t t.apply) := by
  have hpend : isPending r.status = true := by
    rw [hq]
    rfl
  have hdisc : discardable s c id i = true := by
    simp [discardable, hr, hq, hkind, hinst]
  rw [editWith.eq_def, hact]
  dsimp only
  by_cases hholder : Holder s c k id
  · obtain ⟨hconv, hk⟩ := (holder_iff hs hr hkind hpend).mp hholder
    subst hk
    obtain ⟨w, hw, hactive⟩ := claim_of_pending hs.toWellFormed hs.turns hr hkind hpend hconv
    rw [if_pos ⟨hholder, hdisc⟩, elim_some]
    have huncl : unclaim s c id e.conversation
        = enqueueExpiry (setConversation s (c.key e.conversation) { w with activeResponse := "" })
          (.conversation (c.key e.conversation)) := by
      rw [unclaim, if_neg hconv, hw]
      exact if_pos hactive
    rw [huncl]
    refine thread_closed (update_self ..) rfl ?_
    rw [thread_eq hw, some.injEq] at ht
    rw [← ht]
    exact lists_items_dropRecord _ _
  · rw [if_neg fun hcond => hholder hcond.1, elim_none, ← ht]
    have huncl : (unclaim s c id e.conversation).conversations k = some v
        ∧ (unclaim s c id e.conversation).records = s.records
        ∧ (unclaim s c id e.conversation).shelf = s.shelf := by
      rw [unclaim]
      split
      · exact ⟨hv, rfl, rfl⟩
      · rename_i hconv
        split
        · exact ⟨hv, rfl, rfl⟩
        · split
          · refine ⟨?_, rfl, rfl⟩
            refine (update_of_ne ?_ _ _).trans hv
            rintro rfl
            exact hholder ((holder_iff hs hr hkind hpend).mpr ⟨hconv, rfl⟩)
          · exact ⟨hv, rfl, rfl⟩
    obtain ⟨hconversation, hrecs, hshelf⟩ := huncl
    rw [thread_dropRecord hconversation fun hactive => holder_ne hv hactive hholder]
    refine thread_frame hv hconversation rfl (by rw [hshelf]) fun _ => ?_
    exact newInputs_congr (by rw [hrecs]) (by rw [hshelf])

lemma finished_thread (hs : s.Settled) {f : Completion}
    {turn : Option Conversation × List (Key × String)} (hact : c.action = .finish f)
    (hr : s.records (c.key f.id) = some r) (hkind : r.kind = .response e)
    (hpend : isPending r.status = true) (hturn : CompletedTurn s c f e turn)
    (hv : s.conversations k = some v) (ht : thread s k = some t) (rp : Value) :
    thread (finished s c f r e turn) k = some ((editWith s c k (.ok rp)).elim t t.apply) := by
  rw [editWith.eq_def, hact]
  dsimp only
  have hitems : (withOutput s c f r.caller).shelf.lists (.items k) = s.shelf.lists (.items k) := by
    rw [lists_withOutput, update_of_ne (by simp)]
  by_cases hholder : Holder s c k f.id
  · obtain ⟨hconv, hk⟩ := (holder_iff hs hr hkind hpend).mp hholder
    subst hk
    obtain ⟨w, hw, hactive⟩ := claim_of_pending hs.toWellFormed hs.turns hr hkind hpend hconv
    have hinp : newInputs s ⟨(c.key e.conversation).scope, w.activeResponse⟩
        = (s.shelf.lists (.input (c.key f.id))).drop e.newInputStart := by
      rw [hactive]
      change newInputs s (c.key f.id) = _
      rw [newInputs, hr, map_some, getD_some, inputStart, hkind]
    have hne : w.activeResponse ≠ "" := hactive ▸ hholder.2.1
    rw [thread_eq hw, if_neg hne, some.injEq] at ht
    rw [if_pos hholder, elim_some, apply]
    have hclosed : ∀ rows : List (Key × String), turn = (some w, rows) →
        (finished s c f r e turn).conversations (c.key e.conversation)
            = some (closedConversation c e w)
          ∧ (finished s c f r e turn).shelf.lists (.items (c.key e.conversation))
            = t.items ++ rows.map Prod.fst := by
      rintro rows rfl
      rw [finished_conversations, finished_shelf, closeTurn_some hactive]
      refine ⟨update_self .., ?_⟩
      refine (congrFun (lists_append _ _ _) _).trans ?_
      rw [update_self, ← ht]
      congr 1
      exact map_fst_storedRows r.caller rows
    cases hturn with
    | alone hempty => exact absurd hempty hconv
    | @kept u originals hconv' hu hactive' hdel hkept hrows =>
      rw [hw] at hu
      cases hu
      obtain ⟨hconversation, hlist⟩ := hclosed _ rfl
      rw [thread_closed hconversation (closedConversation_active w) hlist]
      have hkeep : ((s.conversations (c.key e.conversation)).any (!·.deleted)
          && decide f.Kept) = true := by
        simp [hw, hdel, hkept]
      rw [added, hkeep, if_pos rfl, map_append, (rows_eq_some hrows).1,
        map_fst_outputRows, List.map_map, ← ht]
      simp only [hinp]
      rfl
    | @left u hconv' hu hleft =>
      rw [hw] at hu
      cases hu
      obtain ⟨hconversation, hlist⟩ := hclosed _ rfl
      rw [thread_closed hconversation (closedConversation_active w) hlist]
      have hkeep : ((s.conversations (c.key e.conversation)).any (!·.deleted)
          && decide f.Kept) = false := by
        rw [hw, Bool.and_eq_false_iff]
        by_cases hdel : w.deleted = false
        · refine .inr (decide_eq_false fun hkept => ?_)
          exact hleft ⟨hactive, hdel, hkept⟩
        · simp [hdel]
      rw [added, hkeep, if_neg (by simp), map_nil]
  · rw [if_neg hholder, elim_none, ← ht]
    -- the turn is that of another conversation
    have hk : k ≠ c.key e.conversation := by
      rintro rfl
      have hconv := hs.turns.named _ v hv
      exact hholder ((holder_iff hs hr hkind hpend).mpr ⟨hconv, rfl⟩)
    have hlists : ∀ l, l ≠ .items (c.key e.conversation) → l ≠ .output (c.key f.id) →
        (finished s c f r e turn).shelf.lists l = s.shelf.lists l := by
      intro l hl hl'
      rw [finished_shelf, closeTurn_lists_of_ne hl, lists_withOutput, update_of_ne hl']
    have hv' : (finished s c f r e turn).conversations k = some v := by
      rwa [finished_conversations, closeTurn_conversations_of_ne hk]
    refine thread_frame hv hv' rfl (hlists _ (by simpa using hk) (by simp)) fun hactive => ?_
    refine newInputs_congr ?_ (hlists _ (by simp) (by simp))
    rw [finished_records, update_of_ne (holder_ne hv hactive hholder)]

lemma collected_thread (hs : s.Settled) {now : ℕ} (hv : s.conversations k = some v)
    (hk : (collect s now).conversations k ≠ none) : thread (collect s now) k = thread s k := by
  have hrem := collect_remains s now
  obtain ⟨w, hw⟩ := ne_none_iff_exists'.mp hk
  have hsame := hrem.conversations k w hw
  rw [hv] at hsame
  cases hsame
  refine thread_frame hv hw rfl (hrem.lists _ hk) fun hactive => ?_
  obtain ⟨r, e, hr, -, hpend, -⟩ := hs.holder hv hactive
  have hr' := hs.indexed.record_kept hrem hr (.inl hpend)
  refine newInputs_congr (hr'.trans hr.symm) (hrem.lists _ ?_)
  change (collect s now).records _ ≠ none
  rw [hr']
  exact some_ne_none r

/-- A conversation that is written with its turn unchanged. -/
lemma thread_setConversation {w' : Conversation} (hrecs : s'.records = s.records)
    (hshelf : s'.shelf = s.shelf)
    (hconvs : s'.conversations = update s.conversations key (some w'))
    (hw : s.conversations key = some w) (hactive : w'.activeResponse = w.activeResponse)
    (hv : s.conversations k = some v) : thread s' k = thread s k := by
  have hinp : ∀ key, newInputs s' key = newInputs s key := fun key =>
    newInputs_congr (by rw [hrecs]) (by rw [hshelf])
  by_cases hk : k = key
  · subst hk
    rw [hv] at hw
    cases hw
    exact thread_frame hv (by rw [hconvs, update_self]) hactive (by rw [hshelf]) fun _ => hinp _
  · exact thread_frame hv (by rw [hconvs, update_of_ne hk, hv]) rfl (by rw [hshelf]) fun _ => hinp _

/-- An edit of an idle conversation. -/
lemma edited_thread (s' : Store) {w' : Conversation} {list : List Key}
    (edit : Key → Edit String Key)
    (hedit : apply ⟨s.shelf.lists (.items key), none⟩ (edit key) = ⟨list, none⟩)
    (hrecs : s'.records = s.records)
    (hlists : s'.shelf.lists = update s.shelf.lists (.items key) list)
    (hconvs : s'.conversations = update s.conversations key (some w'))
    (hw : s.conversations key = some w) (hidle : w.activeResponse = "")
    (hidle' : w'.activeResponse = "") (hv : s.conversations k = some v) (ht : thread s k = some t) :
    thread s' k = some ((if key = k then some (edit k) else none).elim t t.apply) := by
  by_cases hk : key = k
  · subst hk
    rw [hv] at hw
    cases hw
    rw [thread_eq hv, if_pos hidle, some.injEq] at ht
    rw [if_pos rfl, elim_some, ← ht, hedit, thread_eq (by rw [hconvs, update_self]),
      if_pos hidle', hlists, update_self]
  · rw [if_neg hk, elim_none, ← ht]
    refine thread_frame hv ?_ rfl ?_ fun _ => newInputs_congr (by rw [hrecs]) ?_
    · rw [hconvs, update_of_ne (Ne.symm hk), hv]
    · rw [hlists, update_of_ne (by simpa using Ne.symm hk)]
    · rw [hlists, update_of_ne (by simp)]

end Steps

lemma editWith_quiet (hs : s.Settled) {va : Value} (h : Quiet s c) :
    editWith s c k (.ok va) = none := by
  rw [Quiet] at h
  rw [editWith.eq_def]
  split
  case h_1 hact _ => simp [hact] at h
  case h_2 id instanceId _ hact _ =>
    rw [if_neg]
    rintro ⟨-, hdisc⟩
    rw [hact] at h
    rw [discardable, Option.any_eq_true] at hdisc
    obtain ⟨r, hr, hcond⟩ := hdisc
    cases hkind : r.kind with
    | chat => simp [hkind] at hcond
    | response e =>
      simp only [hkind, Bool.and_eq_true, decide_eq_true_eq] at hcond
      exact h r e hr hkind ⟨hcond.2, hcond.1⟩
  case h_3 f _ hact _ =>
    rw [if_neg]
    rintro ⟨hscope, hid, hactive⟩
    -- the holder of a conversation is pending
    rw [hact] at h
    obtain ⟨r, hr, hterm⟩ := h
    cases hv : s.conversations k with
    | none =>
      rw [hv] at hactive
      exact hid hactive.symm
    | some v =>
      rw [hv] at hactive
      change v.activeResponse = f.id at hactive
      obtain ⟨r', e, hr', -, hpend, -⟩ := hs.holder hv (hactive ▸ hid)
      rw [hactive, ← hscope] at hr'
      change s.records (c.key f.id) = some r' at hr'
      rw [hr, some.injEq] at hr'
      simp [hr', hpend] at hterm
  case h_4 hact _ => simp [hact] at h
  case h_5 hact _ => simp [hact] at h
  case h_6 => rfl

lemma editWith_rejected {rp : Reply} (h : ∀ va, rp ≠ .ok va) : editWith s c k rp = none := by
  rw [editWith.eq_def]
  split
  case h_6 => rfl
  all_goals exact absurd rfl (h _)

/-- **Every effect of a lawful call changes a conversation by the edit of the call.** -/
theorem Effect.thread {o : Store × Reply} (h : Effect s c o) (hs : s.Settled) (hl : Lawful s c)
    (ht : thread s k = some t) (hk : o.1.conversations k ≠ none) :
    thread o.1 k = some ((editWith s c k o.2).elim t t.apply) := by
  obtain ⟨v, hv, -⟩ := map_eq_some_iff.mp ht
  -- most calls make no edit
  have hnone : ∀ {s' : Store} {rp : Reply}, ApiStore.thread s' k = ApiStore.thread s k →
      editWith s c k rp = none →
      ApiStore.thread s' k = some ((editWith s c k rp).elim t t.apply) := by
    intro s' rp hsame hedit
    rw [hedit, elim_none, hsame, ht]
  cases h with
  | rejected hreply => exact hnone rfl (editWith_rejected hreply)
  | quiet hquiet => exact hnone rfl (editWith_quiet hs hquiet)
  | begun hact hinh hrows hprep =>
    obtain ⟨⟨hid, hnew⟩, -⟩ := hl.1.begin hact
    exact started_thread hs hact hnew hid hinh hprep hv ht _
  | discarded hact hr hkind hinst hq =>
    exact discarded_thread hs hact hr hkind hinst hq hv ht _
  | @cancelled id r e hact hr =>
    obtain ⟨hrec, hkind, -⟩ := response_eq_some.mp hr
    refine hnone (thread_setRecord rfl rfl rfl hrec ?_) (by rw [editWith.eq_def, hact])
    rw [inputStart, inputStart, hkind]
  | hidden hact hr =>
    exact hnone (thread_setRecord rfl rfl rfl (response_eq_some.mp hr).1 rfl)
      (by rw [editWith.eq_def, hact])
  | deleted hact hr =>
    refine hnone ?_ (by rw [editWith.eq_def, hact])
    split
    all_goals exact thread_setRecord rfl rfl rfl (response_eq_some.mp hr).1 rfl
  | published hact hr hkind =>
    refine hnone (thread_setRecord rfl rfl rfl hr ?_) (by rw [editWith.eq_def, hact])
    rw [inputStart, inputStart, hkind]
    rfl
  | finished hact hr hkind hinst hpend hver hturn =>
    exact finished_thread hs hact hr hkind hpend hturn hv ht _
  | acknowledged hact hr =>
    exact hnone (thread_setRecord rfl rfl rfl hr rfl) (by rw [editWith.eq_def, hact])
  | @conversationCreated id m xs n ps hact =>
    obtain ⟨⟨-, hnew⟩, -⟩ := hl.1.conversationCreate hact
    have hne : k ≠ c.key id := by
      rintro rfl
      simp [hnew] at hv
    refine hnone ?_ (by rw [editWith.eq_def, hact])
    have hlists : ∀ l, l ≠ .items (c.key id) →
        (s.shelf.append (.items (c.key id)) (storedRows c.caller ps)).lists l
          = s.shelf.lists l := by
      intro l hl
      rw [lists_append, update_of_ne hl]
    refine thread_frame hv ((update_of_ne hne _ _).trans hv) rfl
      (hlists _ (by simpa using hne)) fun _ => ?_
    exact newInputs_congr rfl (hlists _ (by simp))
  | conversationUpdated hact hw =>
    obtain ⟨hw', -⟩ := conversation_eq_some.mp hw
    refine hnone ?_ (by rw [editWith.eq_def, hact])
    split
    all_goals exact thread_setConversation rfl rfl rfl hw' rfl hv
  | conversationDeleted hact hw =>
    exact hnone (thread_setConversation rfl rfl rfl (conversation_eq_some.mp hw).1 rfl hv)
      (by rw [editWith.eq_def, hact])
  | @conversationAppended id xs n w ps hact hw hactive hprep =>
    obtain ⟨hw', -⟩ := conversation_eq_some.mp hw
    have hlists : (s.shelf.append (.items (c.key id)) (storedRows c.caller ps)).lists
        = update s.shelf.lists (.items (c.key id)) (s.shelf.lists (.items (c.key id))
            ++ aliases c xs (s.shelf.lists (.items (c.key id)))) := by
      rw [lists_append, map_fst_storedRows, map_fst_prepareItems hprep]
    rw [editWith.eq_def, hact]
    exact edited_thread (s := s) (touchConversation (appendItems s (.items (c.key id)) c.caller ps)
      c id w n) (fun k => .appended (aliases c xs (s.shelf.lists (.items k)))) rfl rfl hlists rfl
      hw' hactive hactive hv ht
  | @itemDeleted id item n w hact hw hactive hitem =>
    obtain ⟨hw', -⟩ := conversation_eq_some.mp hw
    rw [editWith.eq_def, hact]
    exact edited_thread (s := s) (touchConversation
      { s with shelf := s.shelf.discard (.items (c.key id)) (c.key item) } c id w n)
      (fun _ => .removed (c.key item)) rfl rfl (lists_discard _ _ _) rfl hw' hactive hactive hv ht
  | @chatSaved new hact =>
    obtain ⟨⟨-, hnew⟩, -⟩ := hl.1.chatSave hact
    refine hnone (thread_of_new hs hnew hv hv ?_ ?_) (by rw [editWith.eq_def, hact])
    · intro key' hkey
      exact update_of_ne hkey _ _
    · intro l hl
      refine (congrFun (lists_append _ _ _) l).trans ?_
      rw [update_of_ne hl]
      rfl
  | chatUpdated hact hr =>
    obtain ⟨hrec, hchat, -⟩ := chat_eq_some.mp hr
    refine hnone (thread_setRecord rfl rfl rfl hrec ?_) (by rw [editWith.eq_def, hact])
    rw [inputStart, inputStart, hchat]
  | @chatDeleted id r m hact hr =>
    obtain ⟨hrec, hchat, -⟩ := chat_eq_some.mp hr
    refine hnone (thread_dropRecord hv fun hactive heq => ?_) (by rw [editWith.eq_def, hact])
    obtain ⟨r', e, hr', hkind', -⟩ := hs.holder hv hactive
    rw [heq, hrec, some.injEq] at hr'
    simp [← hr', hchat] at hkind'
  | collected hact =>
    exact hnone (collected_thread hs hv hk) (by rw [editWith.eq_def, hact])

lemma next_thread (hs : s.Settled) (hl : Lawful s c) (ht : thread s k = some t)
    (hk : (apiStore.next s c).conversations k ≠ none) :
    thread (apiStore.next s c) k = some ((editOf s c k).elim t t.apply) :=
  (execute_effect (renew s c) c).thread ⟨⟨hs.consistent, hs.indexed⟩, hs.turns⟩ hl ht hk

/-! ### Whole runs -/

/-- The edits that the calls of a run make on the conversation `k`. -/
def edits : Store → List Call → Key → List (Edit String Key)
  | _, [], _ => []
  | s, c :: cs, k => (editOf s c k).toList ++ edits (apiStore.next s c) cs k

/-- **A run changes a conversation by the edits of its calls.** -/
theorem run_thread (hs : s.Settled) {cs : List Call} (h : apiStore.Along Lawful s cs)
    (hk : ∀ pre post, cs = pre ++ post → (apiStore.run s pre).conversations k ≠ none)
    (ht : thread s k = some t) :
    thread (apiStore.run s cs) k = some ((edits s cs k).foldl apply t) := by
  induction cs generalizing s t with
  | nil => exact ht
  | cons c cs ih =>
    have hnext := next_thread hs h.1 ht (hk [c] cs rfl)
    rw [edits, foldl_append]
    have hfold : (editOf s c k).toList.foldl apply t = (editOf s c k).elim t t.apply := by
      cases editOf s c k <;> rfl
    rw [hfold]
    refine ih (next_settled hs h.1) h.2 (fun pre post hsplit => ?_) hnext
    exact hk (c :: pre) post (by rw [hsplit, cons_append])

lemma begin_rows {new : NewResponse} {value : Value} (hact : c.action = .begin new)
    (hconversation : new.conversation = some id) (hreply : apiStore.reply s c = .ok value) :
    ∃ inherited prepared, value = .rows (publicRows (inherited ++ prepared))
      ∧ rows s (s.shelf.lists (.items (c.key id))) = some inherited
      ∧ prepareItems s c c.caller new.items (s.shelf.lists (.items (c.key id))) = some prepared
      ∧ (inherited ++ prepared).map Prod.fst = s.shelf.lists (.items (c.key id))
        ++ aliases c new.items (s.shelf.lists (.items (c.key id))) := by
  obtain ⟨history, conv, inherited, prepared, hinhe, hrows, hprep, rfl, -⟩ :=
    begin_next hact hreply
  have hids : (inherited ++ prepared).map Prod.fst = history ++ aliases c new.items history := by
    rw [map_append, (rows_eq_some hrows).1, map_fst_prepareItems hprep]
  refine ⟨inherited, prepared, rfl, ?_⟩
  cases inherited_of_inherit hinhe with
  | nothing hnone | previous hnone =>
    simp [hnone] at hconversation
  | claimed hsome =>
    rw [hsome] at hconversation
    cases hconversation
    exact ⟨hrows, hprep, hids⟩

/-- **The history of a conversation is the concatenation of its turns.** While a
conversation exists, its items change only by the edits of the calls: a completed turn
appends its own inputs and its outputs as one block, and an item leaves its block only
when it is deleted. No item is repeated, and `begin` returns the items of the
conversation as they are stored, followed by the new inputs as they are prepared. -/
theorem conversation_is_its_turns {cs₀ cs : List Call} {k : Key}
    (h : apiStore.Along Lawful apiStore.init (cs₀ ++ cs))
    (hk : ∀ pre post, cs = pre ++ post → (apiStore.after (cs₀ ++ pre)).conversations k ≠ none) :
    let s := apiStore.after cs₀
    let s' := apiStore.after (cs₀ ++ cs)
    let es := edits s cs k
    (∃ t, thread s k = some t
      ∧ thread s' k = some (es.foldl apply t)
      ∧ s'.shelf.lists (.items k)
        = ((s.shelf.lists (.items k)).filter fun x => .removed x ∉ es) ++ (t.blocks es).flatten)
      ∧ (s'.shelf.lists (.items k)).Nodup
      ∧ ∀ (c : Call) (new : NewResponse) (id : String) (value : Value), c.action = .begin new →
        new.conversation = some id → c.key id = k → apiStore.reply s' c = .ok value →
        ∃ inherited prepared, value = .rows (publicRows (inherited ++ prepared))
          ∧ rows s' (s'.shelf.lists (.items k)) = some inherited
          ∧ prepareItems s' c c.caller new.items (s'.shelf.lists (.items k)) = some prepared
          ∧ (inherited ++ prepared).map Prod.fst = s'.shelf.lists (.items k)
            ++ aliases c new.items (s'.shelf.lists (.items k)) := by
  intro s s' es
  have hs : s.Settled := run_settled h.left
  have hs' : s'.Settled := run_settled h
  have hrun : s' = apiStore.run s cs := apiStore.after_append _ _
  refine ⟨?_, hs'.consistent.exact.nodup _, ?_⟩
  · have hstart : s.conversations k ≠ none := by
      have := hk [] cs rfl
      rwa [append_nil] at this
    obtain ⟨v, hv⟩ := ne_none_iff_exists'.mp hstart
    obtain ⟨v', hv'⟩ := ne_none_iff_exists'.mp (hk cs [] (append_nil _).symm)
    have hpresent : ∀ pre post, cs = pre ++ post →
        (apiStore.run s pre).conversations k ≠ none := by
      intro pre post hsplit
      rw [← apiStore.after_append]
      exact hk pre post hsplit
    have hthread := run_thread hs h.right hpresent (thread_eq hv)
    rw [← hrun] at hthread
    refine ⟨_, thread_eq hv, hthread, ?_⟩
    have hitems := hthread
    rw [thread_eq hv', some.injEq] at hitems
    have hlist := congrArg items hitems
    rwa [items_foldl_apply] at hlist
  · intro c new id value haction hconversation hkey hreply
    subst hkey
    exact begin_rows haction hconversation hreply

theorem conversation_is_its_turns_edited :
    (apiStore.after ([createCall] ++ turnCalls)).shelf.lists (.items ⟨"svc:", "conv"⟩)
      = [⟨"svc:", "item2"⟩, ⟨"svc:", "copy3"⟩, ⟨"svc:", "msg"⟩] := by
  have h : apiStore.Along Lawful apiStore.init ([createCall] ++ turnCalls) := by decide
  have hpresent : ∀ pre ∈ turnCalls.inits,
      (apiStore.after ([createCall] ++ pre)).conversations ⟨"svc:", "conv"⟩ ≠ none := by
    decide
  obtain ⟨⟨t, ht, -, hitems⟩, -⟩ := conversation_is_its_turns h fun pre post hsplit =>
    hpresent pre ((mem_inits _ _).mpr ⟨post, hsplit.symm⟩)
  have hstart : thread (apiStore.after [createCall]) ⟨"svc:", "conv"⟩
      = some ⟨[⟨"svc:", "item1"⟩], none⟩ := by decide
  rw [hstart, some.injEq] at ht
  rw [hitems, ← ht]
  decide

end Foretoken.ApiStore
