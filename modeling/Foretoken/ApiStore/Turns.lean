import Foretoken.ApiStore.Index

/-!
One active turn per conversation: the claim in the hash of a conversation and the status in the
record of a response always agree.
-/

namespace Foretoken.ApiStore

open Function Record Option

variable {k : Key} {r : Record} {v v' : Conversation} {scope conv id : String} {e : Execution}
  {s : Store} {c : Call} {f : Completion}

/-- The conversation a pending response names. -/
def Record.turn (r : Record) : String :=
  match r.kind with
  | .response e => if isPending r.status then e.conversation else ""
  | .chat _ => ""

/-- The conversation of the turn under a key; empty without a turn. -/
def turnOf (r : Option Record) : String := (r.map turn).getD ""

/-- The active response of a conversation; empty between two turns. -/
def activeOf (v : Option Conversation) : String := (v.map Conversation.activeResponse).getD ""

/-- Pending responses and active conversations name each other. -/
structure Turns (R : Key → Option Record) (C : Key → Option Conversation) : Prop where
  named : ∀ k v, C k = some v → k.id ≠ ""
  agree : ∀ scope conv id, conv ≠ "" → id ≠ "" →
    (turnOf (R ⟨scope, id⟩) = conv ↔ activeOf (C ⟨scope, conv⟩) = id)

namespace Turns

variable {R : Key → Option Record} {C : Key → Option Conversation}

section

variable (h : Turns R C)
include h

lemma setRecord {r : Option Record} (hturn : turnOf r = turnOf (R k)) :
    Turns (update R k r) C where
  named := h.named
  agree scope conv id hconv hid := by
    rw [← h.agree scope conv id hconv hid]
    by_cases hk : (⟨scope, id⟩ : Key) = k
    · rw [hk, update_self, hturn]
    · rw [update_of_ne hk]

lemma setConversation {v : Option Conversation} (hid : ∀ v', v = some v' → k.id ≠ "")
    (hactive : activeOf v = activeOf (C k)) :
    Turns R (update C k v) where
  named k' v' hv' := by
    by_cases hk : k' = k
    · subst hk
      rw [update_self] at hv'
      exact hid v' hv'
    · rw [update_of_ne hk] at hv'
      exact h.named k' v' hv'
  agree scope conv id hconv hid := by
    rw [h.agree scope conv id hconv hid]
    by_cases hk : (⟨scope, conv⟩ : Key) = k
    · rw [hk, update_self, hactive]
    · rw [update_of_ne hk]

/-- A conversation that is there changes outside its turn. -/
lemma editConversation (hv : C k = some v) (hactive : v'.activeResponse = v.activeResponse) :
    Turns R (update C k (some v')) := by
  refine h.setConversation (fun _ _ => h.named k v hv) ?_
  rw [hv, activeOf, activeOf, map_some, map_some, hactive]

section

variable (hv : C ⟨scope, conv⟩ = some v)
include hv

/-- A record and a conversation change together. -/
lemma setTurn {r : Option Record}
    (hturn : ∀ conv', conv' ≠ "" → conv' ≠ conv → turnOf (R ⟨scope, id⟩) ≠ conv' ∧ turnOf r ≠ conv')
    (hactive : ∀ id', id' ≠ "" → id' ≠ id → v.activeResponse ≠ id' ∧ v'.activeResponse ≠ id')
    (hagree : id ≠ "" → (turnOf r = conv ↔ v'.activeResponse = id)) :
    Turns (update R ⟨scope, id⟩ r) (update C ⟨scope, conv⟩ (some v')) where
  named k w hw := by
    by_cases hk : k = ⟨scope, conv⟩
    · exact hk ▸ h.named _ v hv
    · rw [update_of_ne hk] at hw
      exact h.named k w hw
  agree scope' conv' id' hconv hid := by
    have hold := h.agree scope' conv' id' hconv hid
    by_cases hk : (⟨scope', id'⟩ : Key) = ⟨scope, id⟩
    · cases hk
      rw [update_self]
      by_cases hc : (⟨scope, conv'⟩ : Key) = ⟨scope, conv⟩
      · cases hc
        rw [update_self]
        exact hagree hid
      · have hne : conv' ≠ conv := fun heq => hc (by rw [heq])
        rw [update_of_ne hc, ← hold]
        exact iff_of_false (hturn conv' hconv hne).2 (hturn conv' hconv hne).1
    · rw [update_of_ne hk]
      by_cases hc : (⟨scope', conv'⟩ : Key) = ⟨scope, conv⟩
      · cases hc
        have hne : id' ≠ id := fun heq => hk (by rw [heq])
        rw [update_self, hold, hv]
        exact iff_of_false (hactive id' hid hne).1 (hactive id' hid hne).2
      · rwa [update_of_ne hc]

/-- An idle conversation is claimed by a new response. -/
lemma openTurn {r : Option Record} (hidle : v.activeResponse = "")
    (hnew : turnOf (R ⟨scope, id⟩) = "") (hturn : turnOf r = conv)
    (hactive : v'.activeResponse = id) :
    Turns (update R ⟨scope, id⟩ r) (update C ⟨scope, conv⟩ (some v')) := by
  refine h.setTurn hv ?_ ?_ (fun _ => ⟨fun _ => hactive, fun _ => hturn⟩)
  · intro conv' hconv hne
    rw [hnew, hturn]
    exact ⟨hconv.symm, hne.symm⟩
  · intro id' hid hne
    rw [hidle, hactive]
    exact ⟨hid.symm, hne.symm⟩

lemma closeTurn {r : Option Record} (hactive : v.activeResponse = id) (hid : id ≠ "")
    (hturn : turnOf r = "") (hidle : v'.activeResponse = "") :
    Turns (update R ⟨scope, id⟩ r) (update C ⟨scope, conv⟩ (some v')) := by
  have hconv := h.named _ v hv
  have hheld : turnOf (R ⟨scope, id⟩) = conv := by
    rwa [h.agree scope conv id hconv hid, hv]
  refine h.setTurn hv ?_ ?_ ?_
  · intro conv' hconv' hne
    rw [hheld, hturn]
    exact ⟨hne.symm, hconv'.symm⟩
  · intro id' hid' hne
    rw [hactive, hidle]
    exact ⟨hne.symm, hid'.symm⟩
  · rw [hturn, hidle]
    exact fun _ => iff_of_false hconv.symm hid.symm

end

/-- The conversation a pending response names is active for it. -/
lemma active_of_turn (hk : k.id ≠ "") (hconv : conv ≠ "") (hturn : turnOf (R k) = conv) :
    ∃ v, C ⟨k.scope, conv⟩ = some v ∧ v.activeResponse = k.id := by
  have hactive := (h.agree k.scope conv k.id hconv hk).mp hturn
  cases hv : C ⟨k.scope, conv⟩ with
  | none =>
    rw [hv] at hactive
    exact absurd hactive.symm hk
  | some v =>
    rw [hv] at hactive
    exact ⟨v, rfl, hactive⟩

end

end Turns

lemma Record.turn_of_pending (hkind : r.kind = .response e) (hpend : isPending r.status = true) :
    r.turn = e.conversation := by
  rw [turn, hkind]
  exact if_pos hpend

lemma Record.turn_of_terminal (hterm : isPending r.status = false) : r.turn = "" := by
  rw [turn]
  split
  · exact if_neg (by simp [hterm])
  · rfl

/-! ### The effects keep the agreement -/

lemma started_turns {new : NewResponse} {history : List Key}
    {conv : Option (String × Conversation)} {prepared : List (Key × String)}
    (ht : Turns s.records s.conversations) (h : Inherited s c new history conv)
    (hnew : s.records (c.key new.id) = none) :
    Turns (started s c new history conv prepared).records
      (started s c new history conv prepared).conversations := by
  have hnone : turnOf (s.records (c.key new.id)) = "" := by
    rw [hnew]
    rfl
  cases h with
  | nothing | previous => exact ht.setRecord hnone.symm
  | @claimed id v hconversation hv hactive =>
    exact ht.openTurn (conversation_eq_some.mp hv).1 hactive hnone rfl rfl

section

variable (hs : s.WellFormed) (ht : Turns s.records s.conversations)
include hs ht

lemma claim_of_pending (hr : s.records (c.key id) = some r) (hkind : r.kind = .response e)
    (hpend : isPending r.status = true) (hconv : e.conversation ≠ "") :
    ∃ v, s.conversations (c.key e.conversation) = some v ∧ v.activeResponse = id := by
  refine ht.active_of_turn (hs.consistent.named _ r hr) hconv ?_
  rw [hr]
  exact turn_of_pending hkind hpend

lemma finished_turns {turn : Option Conversation × List (Key × String)}
    (hr : s.records (c.key f.id) = some r) (hkind : r.kind = .response e)
    (hpend : isPending r.status = true) (hstat : isPending f.status = false)
    (hturn : CompletedTurn s c f e turn) :
    Turns (finished s c f r e turn).records (finished s c f r e turn).conversations := by
  have hended : turnOf (some (finishedRecord c f r e)) = "" :=
    turn_of_terminal (r := finishedRecord c f r e) hstat
  have hid := hs.consistent.named _ r hr
  rw [finished_records, finished_conversations]
  have hclosed : ∀ (v : Conversation) (rows : List (Key × String)), e.conversation ≠ "" →
      s.conversations (c.key e.conversation) = some v →
      Turns (update s.records (c.key f.id) (some (finishedRecord c f r e)))
        (closeTurn (withOutput s c f r.caller) c f r.caller e (some v, rows)).conversations := by
    intro v rows hconv hv
    -- the conversation of a pending response is active for it
    obtain ⟨w, hw, hactive⟩ := claim_of_pending hs ht hr hkind hpend hconv
    rw [hv] at hw
    cases hw
    rw [closeTurn_some hactive]
    exact ht.closeTurn hv hactive hid hended (closedConversation_active v)
  cases hturn with
  | alone hconv =>
    refine ht.setRecord ?_
    rw [hended, hr]
    exact ((turn_of_pending hkind hpend).trans hconv).symm
  | kept hconv hv | left hconv hv => exact hclosed _ _ hconv hv

lemma discarded_turns (hr : s.records (c.key id) = some r) (hkind : r.kind = .response e)
    (hq : r.status = "queued") :
    Turns (dropRecord (unclaim s c id e.conversation) (c.key id)).records
      (dropRecord (unclaim s c id e.conversation) (c.key id)).conversations := by
  have hpend : isPending r.status = true := by
    rw [hq]
    rfl
  by_cases hconv : e.conversation = ""
  · rw [unclaim, if_pos hconv]
    refine ht.setRecord ?_
    rw [hr]
    exact ((turn_of_pending hkind hpend).trans hconv).symm
  · obtain ⟨v, hv, hactive⟩ := claim_of_pending hs ht hr hkind hpend hconv
    rw [unclaim, if_neg hconv, hv]
    dsimp only
    rw [if_pos hactive]
    exact ht.closeTurn hv hactive (hs.consistent.named _ r hr) rfl rfl

end

lemma collectObject_turns (hs : s.Indexed) (ht : Turns s.records s.conversations) {o : Object}
    {time : ℕ} (hscore : s.expiry.score o = some time) :
    Turns (collectObject s o).records (collectObject s o).conversations := by
  cases o with
  | record k =>
    rw [collectObject]
    split
    · rename_i r hr
      refine ht.setRecord ?_
      have hplaced := hs.record k
      rw [hr, hscore] at hplaced
      have hcond := hplaced.2.2
      split at hcond
      · rename_i hterm
        rw [hr]
        exact (turn_of_terminal hterm.1).symm
      · cases hcond
    · exact ht
  | conversation k =>
    refine ht.setConversation (by simp) ?_
    have hidle := hs.conversation k
    rw [hscore] at hidle
    obtain ⟨v, hv, hexpiry⟩ := bind_eq_some_iff.mp hidle.symm
    rw [Conversation.idleExpiry] at hexpiry
    split at hexpiry
    · rename_i hactive
      rw [hv]
      exact hactive.symm
    · cases hexpiry

/-- **Every effect of a lawful call keeps the agreement.** -/
theorem Effect.turns {o : Store × Reply} (h : Effect s c o) (hs : s.WellFormed)
    (ht : Turns s.records s.conversations) (hl : Lawful s c) :
    Turns o.1.records o.1.conversations := by
  have hrew : ∀ {k : Key} {r r' : Record}, s.records k = some r → r'.turn = r.turn →
      Turns (update s.records k (some r')) s.conversations := by
    intro k r r' hr hturn
    refine ht.setRecord ?_
    rwa [hr]
  cases h with
  | rejected | quiet => exact ht
  | begun hact hinh => exact started_turns ht hinh (hl.1.begin hact).1.2
  | discarded hact hr hkind hinst hq => exact discarded_turns hs ht hr hkind hq
  | @cancelled id r e hact hr hpend =>
    obtain ⟨hrec, hkind, -⟩ := response_eq_some.mp hr
    refine hrew hrec ?_
    rw [turn_of_pending hkind hpend]
    exact turn_of_pending (e := { e with cancelRequested := true }) rfl hpend
  | hidden hact hr => exact hrew (response_eq_some.mp hr).1 rfl
  | @deleted id r e hact hr =>
    split
    all_goals exact hrew (response_eq_some.mp hr).1 rfl
  | @published id i body stt es r e hact hr hkind hinst hpend =>
    refine hrew hr ?_
    rw [turn_of_pending hkind hpend]
    refine turn_of_pending (e := { e with version := e.version + 1 }) rfl ?_
    have hkeeps := hl.2
    rw [Call.keepsStatus, hact] at hkeeps
    simp only [publishedRecord]
    split
    · exact hpend
    · rename_i hbody
      simpa [hbody] using hkeeps
  | finished hact hr hkind hinst hpend hver hturn =>
    refine finished_turns hs ht hr hkind hpend ?_ hturn
    have hkeeps := hl.2
    rw [Call.keepsStatus, hact] at hkeeps
    simpa using hkeeps
  | acknowledged hact hr => exact hrew hr rfl
  | @conversationCreated id m xs n ps hact =>
    obtain ⟨⟨hid, hnew⟩, -⟩ := hl.1.conversationCreate hact
    refine ht.setConversation (fun _ _ => hid) ?_
    rw [hnew]
    rfl
  | conversationUpdated hact hv =>
    split
    all_goals exact ht.editConversation (conversation_eq_some.mp hv).1 rfl
  | conversationDeleted hact hv | conversationAppended hact hv | itemDeleted hact hv =>
    exact ht.editConversation (conversation_eq_some.mp hv).1 rfl
  | @chatSaved new hact =>
    refine ht.setRecord ?_
    rw [(hl.1.chatSave hact).1.2]
    rfl
  | chatUpdated hact hr =>
    obtain ⟨hrec, hchat, -⟩ := chat_eq_some.mp hr
    refine hrew hrec ?_
    rw [turn, turn, hchat]
  | @chatDeleted id r m hact hr =>
    obtain ⟨hrec, hchat, -⟩ := chat_eq_some.mp hr
    refine ht.setRecord ?_
    rw [hrec]
    exact (turn_of_terminal ((hs.indexed.regular _ r hrec).2 _ hchat).1).symm
  | collected =>
    refine (collect_induction (I := fun s => s.Indexed ∧ Turns s.records s.conversations)
      ⟨hs.indexed, ht⟩ (fun s en hs => hs) fun s o t hs hscore _ => ?_).2
    exact ⟨collectObject_indexed hs.1 o, collectObject_turns hs.1 hs.2 hscore⟩

/-- The three invariants along lawful runs. -/
structure Store.Settled (s : Store) : Prop extends s.WellFormed where
  turns : Turns s.records s.conversations

lemma renew_settled (hs : s.Settled) (c : Call) : (renew s c).Settled :=
  ⟨⟨hs.consistent, hs.indexed⟩, hs.turns⟩

lemma next_settled (hs : s.Settled) (hl : Lawful s c) :
    (apiStore.next s c).Settled where
  toWellFormed := next_wellFormed hs.toWellFormed hl
  turns := (execute_effect (renew s c) c).turns ⟨hs.consistent, hs.indexed⟩ hs.turns hl

lemma empty_settled : Store.empty.Settled where
  consistent := empty_consistent
  indexed := empty_indexed
  turns :=
    { named := fun k v hv => by cases hv
      agree := fun scope conv id hconv hid => iff_of_false hconv.symm hid.symm }

/-- **Lawful runs reach settled stores.** -/
theorem run_settled {cs : List Call} (h : apiStore.Along Lawful apiStore.init cs) :
    (apiStore.after cs).Settled :=
  Machine.run_preserves Machine.reachable_init
    (fun _ _ _ hs hl => next_settled hs hl) empty_settled h

/-! ### One active turn -/

lemma turnOf_eq_iff (hconv : conv ≠ "") :
    turnOf (s.records k) = conv ↔
      ∃ r e, s.records k = some r ∧ r.kind = .response e ∧ isPending r.status = true
        ∧ e.conversation = conv := by
  constructor
  · intro hturn
    cases hr : s.records k with
    | none =>
      rw [hr] at hturn
      exact absurd hturn.symm hconv
    | some r =>
      rw [hr] at hturn
      change r.turn = conv at hturn
      cases hstat : isPending r.status with
      | false => exact absurd ((turn_of_terminal hstat).symm.trans hturn) hconv.symm
      | true =>
        cases hkind : r.kind with
        | chat =>
          rw [turn, hkind] at hturn
          exact absurd hturn.symm hconv
        | response e =>
          exact ⟨r, e, rfl, hkind, hstat, (turn_of_pending hkind hstat).symm.trans hturn⟩
  · rintro ⟨r, e, hr, hkind, hstat, rfl⟩
    rw [hr]
    exact turn_of_pending hkind hstat

section

variable (hs : s.Settled) (hr : s.records (c.key f.id) = some r) (hkind : r.kind = .response e)
include hs hr hkind

lemma exists_completedTurn (hpend : isPending r.status = true) :
    ∃ turn, completedTurn s c f e = some turn := by
  rw [completedTurn]
  split
  · exact ⟨_, rfl⟩
  · rename_i hconv
    obtain ⟨v, hv, -⟩ := claim_of_pending hs.toWellFormed hs.turns hr hkind hpend hconv
    rw [hv]
    dsimp only
    split
    · have hbodies : ∀ x ∈ (s.shelf.lists (.input (c.key f.id))).drop e.newInputStart,
          ∃ item, s.shelf.body x = some item :=
        fun x hx => hs.consistent.exact.body_of_mem (List.mem_of_mem_drop hx)
      obtain ⟨originals, hrows⟩ := exists_rows hbodies
      exact ⟨_, by rw [hrows, map_some]⟩
    · exact ⟨_, rfl⟩

section

variable (hinst : f.instanceId = "" ∨ e.executionInstance = f.instanceId)
include hinst

/-- A completion that passes the checks ends its response. -/
lemma finish_eq_finished (hpend : isPending r.status = true)
  (hver : ∀ v ∈ f.version, v = e.version) :
    ∃ turn, CompletedTurn s c f e turn
      ∧ finish s c f = (finished s c f r e turn, .ok (.text f.body)) := by
  obtain ⟨turn, hturn⟩ := exists_completedTurn hs hr hkind hpend
  refine ⟨turn, completedTurn_eq_some hturn, ?_⟩
  have hother : ¬(f.instanceId ≠ "" ∧ e.executionInstance ≠ f.instanceId) := by
    rwa [not_and_or, not_not, not_not]
  have hterm : ¬(!isPending r.status) = true := by rw [hpend]; simp
  have hchg : ¬f.version.any (· ≠ e.version) = true := by
    cases hv : f.version with
    | none => simp
    | some v => simp [hver v (by rw [hv]; rfl)]
  rw [finish, hr]
  dsimp only
  rw [hkind]
  dsimp only
  rw [if_neg hother, if_neg hterm, if_neg hchg, hturn]

/-- A completion of the instance, or a recovery, is answered. -/
lemma finish_answered :
    (finish s c f).2 ≠ .notFound := by
  rw [finish, hr]
  dsimp only
  rw [hkind]
  dsimp only
  split_ifs with hother hterm hver
  · exact absurd hinst (not_or.mpr hother)
  · simp
  · simp
  · obtain ⟨turn, hturn⟩ := exists_completedTurn hs hr hkind (by simpa using hterm)
    rw [hturn]
    simp

end

end

/-- **One active turn per conversation.** The active response of a conversation is the
pending response that names it, so there is at most one; collection keeps a claimed
conversation, and a completion finds it. -/
theorem one_active_turn {cs : List Call} (h : apiStore.Along Lawful apiStore.init cs) :
    let s := apiStore.after cs
    (∀ k v id, s.conversations k = some v → id ≠ "" →
      (v.activeResponse = id ↔
        ∃ r e, s.records ⟨k.scope, id⟩ = some r ∧ r.kind = .response e
          ∧ isPending r.status = true ∧ e.conversation = k.id))
      ∧ (∀ k k' r r' e e', s.records k = some r → s.records k' = some r' →
        r.kind = .response e → r'.kind = .response e' → isPending r.status = true →
        isPending r'.status = true → k.scope = k'.scope → e.conversation ≠ "" →
        e.conversation = e'.conversation → k = k')
      ∧ (∀ c : Call, c.action = .collect → ∀ k v, s.conversations k = some v →
        v.activeResponse ≠ "" → (apiStore.next s c).conversations k = some v)
      ∧ ∀ (c : Call) (f : Completion) r e, c.action = .finish f →
        s.records (c.key f.id) = some r → r.kind = .response e →
        f.instanceId = "" ∨ e.executionInstance = f.instanceId →
        (isPending r.status = true → e.conversation ≠ "" →
          s.conversations (c.key e.conversation) ≠ none)
          ∧ apiStore.reply s c ≠ .notFound := by
  intro s
  have hs : s.Settled := run_settled h
  refine ⟨?_, ?_, ?_, ?_⟩
  · intro k v id hv hid
    have hk := hs.turns.named k v hv
    rw [← turnOf_eq_iff hk, hs.turns.agree k.scope k.id id hk hid, hv]
    rfl
  · intro k k' r r' e e' hr hr' hkind hkind' hpending hpending' hscope hconv heq
    have hid := hs.consistent.named k r hr
    have hid' := hs.consistent.named k' r' hr'
    have hturn := (turnOf_eq_iff (k := k) hconv).mpr ⟨r, e, hr, hkind, hpending, rfl⟩
    have hturn' := (turnOf_eq_iff (k := k') hconv).mpr ⟨r', e', hr', hkind', hpending', heq.symm⟩
    obtain ⟨v, hv, hactive⟩ := hs.turns.active_of_turn hid hconv hturn
    obtain ⟨v', hv', hactive'⟩ := hs.turns.active_of_turn hid' hconv hturn'
    rw [← hscope, hv] at hv'
    cases hv'
    cases k
    cases k'
    cases hscope
    exact congrArg _ (hactive.symm.trans hactive')
  · intro c hc k v hv hactive
    have hnext : apiStore.next s c = collect (renew s c) c.now := by
      change (execute (renew s c) c).1 = _
      rw [execute_of_not_raises (by rw [raises, hc]), perform, hc]
    rw [hnext]
    exact Store.Indexed.conversation_kept (s := renew s c) hs.indexed (collect_remains _ _) hv
      (.inl hactive)
  · intro c f r e hc hr hkind hinstance
    constructor
    · intro hpending hconv
      obtain ⟨v, hv, -⟩ := claim_of_pending hs.toWellFormed hs.turns hr hkind hpending hconv
      rw [hv]
      exact some_ne_none v
    · have hreply : apiStore.reply s c = (finish (renew s c) c f).2 := by
        change (execute (renew s c) c).2 = _
        rw [execute_of_not_raises (by rw [raises, hc]; exact misreadsRecord_of_some hr), perform,
          hc]
      rw [hreply]
      exact finish_answered (s := renew s c) ⟨⟨hs.consistent, hs.indexed⟩, hs.turns⟩ hr hkind
        hinstance

/-- A turn that is executed while others try to begin and to edit. -/
def busyCalls : List Call :=
  [frontendCall 1 (.conversationCreate "conv" "{}" [⟨"item1", "copy1", some "a"⟩] 1),
    frontendCall 2 (.begin (conversationTurn "resp" [⟨"item2", "copy2", some "b"⟩])),
    frontendCall 3 (.begin (conversationTurn "late" [⟨"item3", "copy4", some "d"⟩])),
    frontendCall 4 (.conversationDeleteItem "conv" "item1" 3600),
    frontendCall 5000 .collect]

theorem one_active_turn_busy :
    apiStore.Along Lawful apiStore.init busyCalls
      ∧ (apiStore.after busyCalls).conversations ⟨"svc:", "conv"⟩ ≠ none
      ∧ ∃ r e, (apiStore.after busyCalls).records ⟨"svc:", "resp"⟩ = some r
        ∧ r.kind = .response e ∧ isPending r.status = true ∧ e.conversation = "conv" :=
  have h : apiStore.Along Lawful apiStore.init busyCalls := by decide
  have hv : (apiStore.after busyCalls).conversations ⟨"svc:", "conv"⟩
      = some ⟨some "alice", "{}", 0, "resp", false, 1001⟩ := by decide
  ⟨h, by rw [hv]; simp, ((one_active_turn h).1 _ _ "resp" hv (by decide)).mp rfl⟩

end Foretoken.ApiStore
