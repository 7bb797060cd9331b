import Foretoken.ApiStore.Turns

/-!
The life of one response: between two calls that both find it, nothing happens to it, the executing
instance publishes it, or it is completed (`Effect.life`).
-/

namespace Foretoken.ApiStore

open Function Option

/-- What the store keeps of a response. -/
@[ext] structure Life where
  body : String
  status : String
  version : ℕ
  instanceId : String
  replay : ℕ
  inputs : List Key
  outputs : List Key
  log : EventLog

variable {s s' : Store} {key k : Key} {r : Record} {e : Execution} {l : Life} {c : Call}

/-- The response under a key. -/
def life (s : Store) (key : Key) : Option Life :=
  match s.records key with
  | none => none
  | some r =>
    match r.kind with
    | .chat _ => none
    | .response e =>
      some
        { body := r.body
          status := r.status
          version := e.version
          instanceId := e.executionInstance
          replay := e.replay
          inputs := s.shelf.lists (.input key)
          outputs := s.shelf.lists (.output key)
          log := s.logs key }

/-- A record that is not completed. -/
def running (s : Store) (key : Key) : Bool := (s.records key).any fun r => isPending r.status

/-- The response after a publication. -/
def Life.publish (l : Life) (now : ℕ) (body status : String) (events : List (ℕ × String)) : Life :=
  { l with
    body := if body = "" then l.body else body
    status := if body = "" then l.status else status
    version := l.version + 1
    log := l.log.append now events }

/-- The response after its completion. -/
def Life.finish (l : Life) (now : ℕ) (outputs : List Key) (f : Completion) : Life :=
  { l with
    body := f.body
    status := f.status
    version := l.version + 1
    outputs := l.outputs ++ outputs
    log := (l.log.append now f.events).expireAt now (now + l.replay * 1000) }

/-- What a call with this reply does to a response that stays. -/
inductive Life.Step (c : Call) (key : Key) (l : Life) : Reply → Life → Prop
  | idle (reply : Reply) : Step c key l reply l
  | published {id body status : String} {events : List (ℕ × String)}
      (haction : c.action = .publish id l.instanceId body status events) (hkey : c.key id = key)
      (hpending : isPending l.status = true) :
      Step c key l (.ok .empty) (l.publish c.now body status events)
  | finished {f : Completion} (haction : c.action = .finish f) (hkey : c.key f.id = key)
      (hpending : isPending l.status = true)
      (hinstance : f.instanceId = "" ∨ l.instanceId = f.instanceId)
      (hversion : ∀ v ∈ f.version, v = l.version) :
      Step c key l (.ok (.text f.body)) (l.finish c.now (f.items.map (c.key ·.1)) f)

lemma life_eq (hr : s.records key = some r) (hkind : r.kind = .response e) :
    life s key = some ⟨r.body, r.status, e.version, e.executionInstance, e.replay,
      s.shelf.lists (.input key), s.shelf.lists (.output key), s.logs key⟩ := by
  rw [life, hr]
  dsimp only
  rw [hkind]

lemma life_eq_some (h : life s key = some l) :
    ∃ r e, s.records key = some r ∧ r.kind = .response e
      ∧ l = ⟨r.body, r.status, e.version, e.executionInstance, e.replay,
        s.shelf.lists (.input key), s.shelf.lists (.output key), s.logs key⟩ := by
  rw [life] at h
  split at h
  · cases h
  · rename_i r hr
    split at h
    · cases h
    · rename_i e hkind
      cases h
      exact ⟨r, e, hr, hkind, rfl⟩

lemma running_eq (h : life s key = some l) : running s key = isPending l.status := by
  obtain ⟨r, e, hr, -, rfl⟩ := life_eq_some h
  rw [running, hr, any_some]

lemma life_congr (hrec : s'.records key = s.records key)
    (hinput : s'.shelf.lists (.input key) = s.shelf.lists (.input key))
    (hout : s'.shelf.lists (.output key) = s.shelf.lists (.output key))
    (hlog : s'.logs key = s.logs key) : life s' key = life s key := by
  rw [life, life, hrec, hinput, hout, hlog]

/-- A record that is rewritten outside the life of its response. -/
lemma life_setRecord {r' : Record} {e' : Execution}
    (hrecs : s'.records = update s.records k (some r')) (hshelf : s'.shelf = s.shelf)
    (hlogs : s'.logs = s.logs) (hr : s.records k = some r) (hkind : r.kind = .response e)
    (hkind' : r'.kind = .response e') (hbody : r'.body = r.body) (hstat : r'.status = r.status)
    (he : e'.version = e.version ∧ e'.executionInstance = e.executionInstance
      ∧ e'.replay = e.replay) : life s' key = life s key := by
  by_cases hkey : key = k
  · subst hkey
    rw [life_eq hr hkind, life_eq (by rw [hrecs, update_self]) hkind', hshelf, hlogs,
      hbody, hstat, he.1, he.2.1, he.2.2]
  · exact life_congr (by rw [hrecs, update_of_ne hkey]) (by rw [hshelf])
      (by rw [hshelf]) (by rw [hlogs])

/-! ### Calls on other objects -/

lemma life_dropRecord : life (dropRecord s k) key = if key = k then none else life s key := by
  split
  · rename_i hkey
    subst hkey
    change (match update s.records key none key with
      | none => none
      | some r => _) = none
    rw [update_self]
  · rename_i hkey
    have hlists : ∀ l : ListKey, l.object = .record key →
        (dropRecord s k).shelf.lists l = s.shelf.lists l := by
      intro l hl
      refine (lists_dropRecord s.shelf k l).trans ?_
      rw [hl, if_neg (by simpa using hkey)]
    exact life_congr (update_of_ne hkey _ _) (hlists _ rfl) (hlists _ rfl) (update_of_ne hkey _ _)

lemma ne_of_kept_dropRecord (h : (dropRecord s k).records key ≠ none) : key ≠ k := by
  rintro rfl
  exact h (update_self ..)

/-- No process of this version puts a deadline into the shared replay index. -/
def Store.Unreplayed (s : Store) : Prop := s.replays.entries = []

lemma collectObject_logs {o : Object} (h : (collectObject s o).records k ≠ none) :
    s.records k ≠ none ∧ (collectObject s o).logs k = s.logs k := by
  cases o with
  | record key =>
    rw [collectObject] at h ⊢
    split at h
    · change update s.records key none k ≠ none at h
      by_cases hk : k = key
      · subst hk
        rw [update_self] at h
        exact absurd rfl h
      · rw [update_of_ne hk] at h
        exact ⟨h, update_of_ne hk _ _⟩
    · exact ⟨h, rfl⟩
  | conversation => exact ⟨h, rfl⟩

lemma collect_logs (hs : s.Unreplayed) {now : ℕ} (hk : (collect s now).records k ≠ none) :
    (collect s now).logs k = s.logs k := by
  have hcoll : collect s now = (s.expiry.upTo now 256).foldl collectObject s := by
    rw [collect, hs]
    rfl
  rw [hcoll] at hk ⊢
  have hobj : ∀ s' o t, (∀ k, s'.records k ≠ none → s'.logs k = s.logs k) →
      s'.expiry.score o = some t → t ≤ now →
      ∀ k, (collectObject s' o).records k ≠ none → (collectObject s' o).logs k = s.logs k := by
    intro s' o _ hlogs _ _ k' hk'
    obtain ⟨hheld, hsame⟩ := collectObject_logs hk'
    exact hsame.trans (hlogs k' hheld)
  exact foldl_collectObject hobj (SortedSet.nodup_upTo _ _ _) (fun _ _ => rfl)
    (fun o ho => SortedSet.score_of_mem_upTo ho) k hk

lemma collect_life (hs : s.Unreplayed) {now : ℕ} (hheld : (collect s now).records key ≠ none) :
    life (collect s now) key = life s key := by
  have hrem := collect_remains s now
  obtain ⟨r, hr⟩ := ne_none_iff_exists'.mp hheld
  refine life_congr ?_ (hrem.lists (.input key) hheld) (hrem.lists (.output key) hheld)
    (collect_logs hs hheld)
  rw [hr, hrem.records key r hr]

/-! ### Publications and completions -/

/-- A new record leaves the other responses alone. -/
lemma life_of_new (hkey : key ≠ k) (hrecs : ∀ k' ≠ k, s'.records k' = s.records k')
    (hlists : ∀ l, l ≠ .input k → s'.shelf.lists l = s.shelf.lists l) (hlogs : s'.logs = s.logs) :
    life s' key = life s key :=
  life_congr (hrecs key hkey) (hlists _ (by simpa using hkey)) (hlists _ (by simp)) (by rw [hlogs])

lemma life_of_items {list : List Key} (hrecs : s'.records = s.records)
    (hlists : s'.shelf.lists = update s.shelf.lists (.items k) list)
    (hlogs : s'.logs = s.logs) : life s' key = life s key := by
  refine life_congr (by rw [hrecs]) ?_ ?_ (by rw [hlogs])
  all_goals rw [hlists, update_of_ne (by simp)]

lemma published_life {id body t : String} {es : List (ℕ × String)}
    (hr : s.records (c.key id) = some r) (hkind : r.kind = .response e)
    (hl : life s (c.key id) = some l) :
    life { setRecord s (c.key id) (publishedRecord r e body t) with
        logs := update s.logs (c.key id) ((s.logs (c.key id)).append c.now es) }
      (c.key id) = some (l.publish c.now body t es) := by
  rw [life_eq hr hkind] at hl
  cases hl
  rw [life_eq (r := publishedRecord r e body t) (update_self ..) rfl]
  dsimp only
  rw [update_self]
  rfl

section Finish

variable {f : Completion} {turn : Option Conversation × List (Key × String)}

lemma closeTurn_logs (o : Caller) : (closeTurn s c f o e turn).logs = s.logs := by
  obtain ⟨v, rows⟩ := turn
  cases v with
  | none => rfl
  | some =>
    rw [closeTurn]
    split <;> rfl

lemma finished_logs :
    (finished s c f r e turn).logs = update s.logs (c.key f.id)
      (((s.logs (c.key f.id)).append c.now f.events).expireAt c.now (c.now + e.replay * 1000)) := by
  have hlogs : (closeTurn (withOutput s c f r.caller) c f r.caller e turn).logs = s.logs :=
    closeTurn_logs r.caller
  rw [finished]
  split
  all_goals
    change update (closeTurn (withOutput s c f r.caller) c f r.caller e turn).logs _
      ((((closeTurn (withOutput s c f r.caller) c f r.caller e turn).logs _).append _ _).expireAt
        _ _) = _
    rw [hlogs]

lemma finished_lists {l : ListKey} (hl : l ≠ .items (c.key e.conversation)) :
    (finished s c f r e turn).shelf.lists l
      = if l = .output (c.key f.id) then s.shelf.lists l ++ f.items.map (c.key ·.1)
        else s.shelf.lists l := by
  rw [finished_shelf, closeTurn_lists_of_ne hl, lists_withOutput, update_apply]
  split
  · rename_i heq
    rw [heq]
  · rfl

lemma finished_life (hr : s.records (c.key f.id) = some r) (hkind : r.kind = .response e)
    (hl : life s (c.key f.id) = some l) :
    life (finished s c f r e turn) (c.key f.id)
      = some (l.finish c.now (f.items.map (c.key ·.1)) f) := by
  rw [life_eq hr hkind] at hl
  cases hl
  rw [life_eq (by rw [finished_records, update_self]) rfl, finished_lists (by simp),
    finished_lists (by simp), finished_logs, update_self]
  simp [finishedRecord, Life.finish]

lemma finished_life_of_ne (hkey : key ≠ c.key f.id) :
    life (finished s c f r e turn) key = life s key := by
  refine life_congr ?_ ?_ ?_ ?_
  · rw [finished_records, update_of_ne hkey]
  · rw [finished_lists (by simp), if_neg (by simp)]
  · rw [finished_lists (by simp), if_neg (by simpa using hkey)]
  · rw [finished_logs, update_of_ne hkey]

end Finish

/-! ### The shared replay index stays empty -/

lemma Store.Unreplayed.remove (hs : s.Unreplayed) {o : Object}
    (h : s'.replays = s.replays.remove o) : s'.Unreplayed := by
  change s'.replays.entries = []
  have hents : (s.replays.remove o).entries = s.replays.entries.filter (·.2 ≠ o) := rfl
  rw [h, hents, hs, List.filter_nil]

lemma Store.Unreplayed.congr (hs : s.Unreplayed) (h : s'.replays = s.replays) :
    s'.Unreplayed := by
  change s'.replays.entries = []
  rw [h, hs]

lemma collectObject_unreplayed (hs : s.Unreplayed) (o : Object) :
    (collectObject s o).Unreplayed := by
  cases o with
  | record key =>
    rw [collectObject]
    split
    · exact hs.remove (o := .record key) rfl
    · exact hs
  | conversation => exact hs

lemma finished_replays {f : Completion} {turn : Option Conversation × List (Key × String)} :
    (finished s c f r e turn).replays = s.replays := by
  have hturn : (closeTurn (withOutput s c f r.caller) c f r.caller e turn).replays = s.replays := by
    obtain ⟨v, rows⟩ := turn
    cases v with
    | none => rfl
    | some =>
      rw [closeTurn]
      split <;> rfl
  rw [finished]
  split <;> exact hturn

lemma Effect.unreplayed {o : Store × Reply} (h : Effect s c o) (hs : s.Unreplayed) :
    o.1.Unreplayed := by
  cases h with
  | rejected | quiet | cancelled | hidden | published | acknowledged | conversationCreated
  | conversationDeleted | conversationAppended | itemDeleted | chatSaved | chatUpdated => exact hs
  | @begun new xs conv =>
    refine hs.congr ?_
    cases conv <;> rfl
  | @discarded id i r e =>
    refine hs.remove (o := .record (c.key id)) ?_
    obtain ⟨vs, expiry, huncl⟩ := unclaim_eq s c id e.conversation
    rw [huncl]
    rfl
  | deleted | conversationUpdated =>
    refine hs.congr ?_
    split <;> rfl
  | finished => exact hs.congr finished_replays
  | @chatDeleted id => exact hs.remove (o := .record (c.key id)) rfl
  | collected =>
    exact collect_induction hs (fun _ _ hs' => hs'.remove rfl)
      fun _ o _ hs' _ _ => collectObject_unreplayed hs' o

/-- **Runs leave the shared replay index empty.** -/
theorem run_unreplayed (cs : List Call) : (apiStore.after cs).Unreplayed :=
  Machine.run_stable (M := apiStore) (I := Store.Unreplayed) Machine.reachable_init
    (fun s c _ hs => (execute_effect (renew s c) c).unreplayed (s := renew s c) hs) rfl cs

/-! ### The step of a response -/

/-- **What a call can do to a response.** -/
theorem Effect.life {o : Store × Reply} (h : Effect s c o) (hs : s.Unreplayed) (hf : Fresh s c)
    (hl : ApiStore.life s key = some l) (hk : o.1.records key ≠ none) :
    ∃ l', ApiStore.life o.1 key = some l' ∧ Life.Step c key l o.2 l' := by
  -- most calls leave the response alone
  have hidle : ApiStore.life o.1 key = ApiStore.life s key →
      ∃ l', ApiStore.life o.1 key = some l' ∧ Life.Step c key l o.2 l' :=
    fun hsame => ⟨l, hsame.trans hl, .idle _⟩
  have hstays : ∀ {k : Key}, s.records k = none → key ≠ k := by
    rintro k hk rfl
    obtain ⟨r, e, hr, -⟩ := life_eq_some hl
    simp [hk] at hr
  cases h with
  | rejected | quiet | conversationDeleted => exact hidle rfl
  | @begun new xs conv ys ps hact =>
    obtain ⟨⟨-, hnew⟩, -⟩ := hf.begin hact
    refine hidle (life_of_new (hstays hnew) (fun k' hk' => ?_) (fun l hl => ?_) ?_)
    · rw [records_started, update_of_ne hk']
    · rw [lists_started, update_of_ne hl]
    · cases conv <;> rfl
  | @discarded id i r e =>
    obtain ⟨vs, expiry, huncl⟩ := unclaim_eq s c id e.conversation
    refine hidle ?_
    rw [life_dropRecord, if_neg (ne_of_kept_dropRecord hk), huncl]
    rfl
  | cancelled hact hr =>
    obtain ⟨hrec, hkind, -⟩ := response_eq_some.mp hr
    exact hidle (life_setRecord rfl rfl rfl hrec hkind rfl rfl rfl ⟨rfl, rfl, rfl⟩)
  | hidden hact hr =>
    obtain ⟨hrec, hkind, -⟩ := response_eq_some.mp hr
    exact hidle (life_setRecord rfl rfl rfl hrec hkind hkind rfl rfl ⟨rfl, rfl, rfl⟩)
  | deleted hact hr =>
    obtain ⟨hrec, hkind, -⟩ := response_eq_some.mp hr
    refine hidle ?_
    split
    all_goals exact life_setRecord rfl rfl rfl hrec hkind hkind rfl rfl ⟨rfl, rfl, rfl⟩
  | @published id i body t es r e hact hr hkind hinst hpend =>
    by_cases hkey : key = c.key id
    · subst hkey
      refine ⟨_, published_life hr hkind hl, ?_⟩
      rw [life_eq hr hkind, some.injEq] at hl
      subst hl hinst
      exact .published hact rfl hpend
    · refine hidle (life_congr ?_ rfl rfl ?_)
      all_goals exact update_of_ne hkey _ _
  | @finished f r e turn hact hr hkind hinst hpend hver =>
    by_cases hkey : key = c.key f.id
    · subst hkey
      refine ⟨_, finished_life hr hkind hl, ?_⟩
      rw [life_eq hr hkind] at hl
      cases hl
      exact .finished hact rfl hpend hinst hver
    · exact hidle (finished_life_of_ne hkey)
  | @acknowledged id r hact hr =>
    refine hidle ?_
    rcases hkind : r.kind with e | m
    · exact life_setRecord rfl rfl rfl hr hkind rfl rfl rfl ⟨rfl, rfl, rfl⟩
    · refine life_congr ?_ rfl rfl rfl
      refine update_of_ne ?_ _ _
      rintro rfl
      rw [ApiStore.life, hr] at hl
      dsimp only at hl
      simp [hkind] at hl
  | conversationCreated | conversationAppended =>
    exact hidle (life_of_items rfl (Shelf.lists_append _ _ _) rfl)
  | conversationUpdated =>
    refine hidle ?_
    split <;> rfl
  | itemDeleted => exact hidle (life_of_items rfl (Shelf.lists_discard _ _ _) rfl)
  | @chatSaved new hact =>
    obtain ⟨⟨-, hnew⟩, -⟩ := hf.chatSave hact
    refine hidle (life_of_new (hstays hnew) (fun k' hk' => ?_) (fun l hl => ?_) rfl)
    · exact update_of_ne hk' _ _
    · refine (congrFun (Shelf.lists_append _ _ _) l).trans ?_
      rw [update_of_ne hl]
      rfl
  | chatUpdated hact hr =>
    obtain ⟨hrec, hchat, -⟩ := chat_eq_some.mp hr
    refine hidle (life_congr ?_ rfl rfl rfl)
    refine update_of_ne ?_ _ _
    rintro rfl
    rw [ApiStore.life, hrec] at hl
    dsimp only at hl
    simp [hchat] at hl
  | chatDeleted => exact hidle (by rw [life_dropRecord, if_neg (ne_of_kept_dropRecord hk)])
  | collected => exact hidle (collect_life hs hk)

/-- What a call of a run can do to a response that it does not drop. -/
theorem next_life {cs : List Call} (h : Fresh (apiStore.after cs) c)
    (hl : life (apiStore.after cs) key = some l)
    (hk : (apiStore.next (apiStore.after cs) c).records key ≠ none) :
    ∃ l', life (apiStore.next (apiStore.after cs) c) key = some l'
      ∧ Life.Step c key l (apiStore.reply (apiStore.after cs) c) l' :=
  (execute_effect (renew (apiStore.after cs) c) c).life
    (s := renew (apiStore.after cs) c) (run_unreplayed cs) h hl hk

lemma begin_life {new : NewResponse} {v : Value} (hact : c.action = .begin new)
    (hreply : apiStore.reply s c = .ok v) :
    ∃ l, life (apiStore.next s c) (c.key new.id) = some l ∧ l.status = "queued"
      ∧ l.instanceId = new.instanceId ∧ l.replay = new.replay ∧ l.log = s.logs (c.key new.id) := by
  obtain ⟨xs, conv, inherited, prepared, -, -, -, -, hnext⟩ := begin_next hact hreply
  have hrec : (apiStore.next s c).records (c.key new.id)
      = some (newRecord c new xs.length ((conv.map Prod.fst).getD "")) := by
    rw [hnext, records_started, update_self]
  refine ⟨_, life_eq hrec rfl, rfl, rfl, rfl, ?_⟩
  rw [hnext]
  cases conv <;> rfl

end Foretoken.ApiStore
