import Foretoken.ApiStore.Ownership

/-!
The index of chats: it holds the chats of a caller that are retained, each under the creation time
it was saved with, in every run of fresh calls (`run_chatsListed`).
-/

namespace Foretoken.ApiStore

open List Option SortedSet

variable {s s' : Store} {c : Call} {key : Key} {saved : Key → Option ℕ}

/-- The caller of a chat. -/
def chatOwner (R : Key → Option Record) (key : Key) : Option Caller :=
  (R key).bind fun r =>
    match r.kind with
    | .chat _ => some r.caller
    | .response _ => none

/-- The creation times of the chats, after a call. -/
def savedBy (saved : Key → Option ℕ) (c : Call) : Key → Option ℕ :=
  match c.action with
  | .chatSave new => Function.update saved (c.key new.id) (some new.createdAt)
  | _ => saved

/-- The creation time that a run saved a chat with last. -/
def createdAt (cs : List Call) : Key → Option ℕ := cs.foldl savedBy fun _ => none

/-- The index of a caller holds its chats, by the creation times they were saved with. -/
structure ChatsListed (saved : Key → Option ℕ) (s : Store) : Prop where
  index : ∀ scope caller id time, (s.chats (scope, caller)).score id = some time ↔
    chatOwner s.records ⟨scope, id⟩ = some caller ∧ saved ⟨scope, id⟩ = some time
  saved : ∀ key, chatOwner s.records key ≠ none → saved key ≠ none

/-- Where no chat comes or goes, the index stays right. -/
lemma ChatsListed.congr (h : ChatsListed saved s) (hchats : s'.chats = s.chats)
    (howner : ∀ key, chatOwner s'.records key = chatOwner s.records key) :
    ChatsListed saved s' where
  index scope caller id time := by
    rw [hchats, howner]
    exact h.index scope caller id time
  saved key := by
    rw [howner]
    exact h.saved key

lemma chatOwner_update {R : Key → Option Record} {r : Record}
    (h : chatOwner R key = chatOwner (fun _ => some r) key) (k : Key) :
    chatOwner (Function.update R key (some r)) k = chatOwner R k := by
  by_cases hk : k = key
  · subst hk
    rw [h, chatOwner, chatOwner, Function.update_self]
  · rw [chatOwner, chatOwner, Function.update_of_ne hk]

/-- A rewritten record stays a chat, or none. -/
lemma ChatsListed.setRecord (h : ChatsListed saved s) {r : Record}
    (hchats : s'.chats = s.chats) (hrecs : s'.records = Function.update s.records key (some r))
    (howner : chatOwner s.records key = chatOwner (fun _ => some r) key) :
    ChatsListed saved s' :=
  h.congr hchats fun k => by rw [hrecs, chatOwner_update howner]

/-- A response is rewritten as a response. -/
lemma ChatsListed.setResponse (h : ChatsListed saved s) {r r' : Record} {e e' : Execution}
    (hr : s.records key = some r) (hkind : r.kind = .response e) (hchats : s'.chats = s.chats)
    (hrecs : s'.records = Function.update s.records key (some r'))
    (hkind' : r'.kind = .response e') : ChatsListed saved s' := by
  refine h.setRecord hchats hrecs ?_
  rw [chatOwner, chatOwner, hr, bind_some, bind_some, hkind, hkind']

lemma chats_dropRecord {caller : Caller} {id scope : String} :
    ((dropRecord s key).chats (scope, caller)).score id =
      if chatOwner s.records key = some caller ∧ (⟨scope, id⟩ : Key) = key then none
      else (s.chats (scope, caller)).score id := by
  change ((dropChat s key).chats (scope, caller)).score id = _
  cases hr : s.records key with
  | none => simp [dropChat, chatOwner, hr]
  | some r =>
    obtain ⟨owner, kind, model, body, status, deleted, reservation, expiresAt⟩ := r
    cases kind with
    | response => simp [dropChat, chatOwner, hr]
    | chat =>
      have howner : chatOwner s.records key = some owner := by rw [chatOwner, hr]; rfl
      simp only [dropChat, hr, howner, some.injEq]
      by_cases hindex : (scope, caller) = (key.scope, owner)
      · obtain ⟨rfl, rfl⟩ := Prod.mk.inj hindex
        rw [Function.update_self, score_remove]
        exact if_congr (by cases key; simp) rfl rfl
      · rw [Function.update_of_ne hindex, if_neg]
        rintro ⟨rfl, rfl⟩
        exact hindex rfl

lemma chatOwner_dropRecord (k : Key) :
    chatOwner (dropRecord s key).records k = if k = key then none else chatOwner s.records k := by
  change chatOwner (Function.update s.records key none) k = _
  rw [chatOwner, Function.update_apply]
  split_ifs <;> rfl

lemma ChatsListed.dropRecord (h : ChatsListed saved s) (key : Key) :
    ChatsListed saved (dropRecord s key) where
  index scope caller id time := by
    rw [chats_dropRecord, chatOwner_dropRecord]
    by_cases hk : (⟨scope, id⟩ : Key) = key
    · rw [if_pos hk]
      refine iff_of_false ?_ (by simp)
      split_ifs with hcond
      · simp
      · rw [h.index scope caller id time, hk]
        exact fun hlisted => hcond ⟨hlisted.1, hk⟩
    · rw [if_neg fun hcond => hk hcond.2, if_neg hk]
      exact h.index scope caller id time
  saved k := by
    rw [chatOwner_dropRecord]
    split_ifs
    · exact fun hne => absurd rfl hne
    · exact h.saved k

lemma ChatsListed.chatSave (h : ChatsListed saved s) {new : NewChat}
    (hnew : s.records (c.key new.id) = none) :
    ChatsListed (Function.update saved (c.key new.id) (some new.createdAt))
      (chatSave s c new) := by
  have hrecs : (ApiStore.chatSave s c new).records =
      Function.update s.records (c.key new.id) (some (newChatRecord c new)) := rfl
  have hchats : (ApiStore.chatSave s c new).chats = Function.update s.chats (c.scope, c.caller)
      ((s.chats (c.scope, c.caller)).add new.id new.createdAt) := rfl
  -- the id of the new chat is in no index yet
  have hfresh : ∀ u t, (s.chats (c.scope, u)).score new.id ≠ some t := by
    intro u t hscore
    have hlisted := ((h.index c.scope u new.id t).mp hscore).1
    change chatOwner s.records (c.key new.id) = some u at hlisted
    simp [chatOwner, hnew] at hlisted
  constructor
  · intro scope caller id time
    rw [hrecs, hchats]
    by_cases hk : (⟨scope, id⟩ : Key) = c.key new.id
    · obtain ⟨rfl, rfl⟩ := Key.mk.inj hk
      rw [hk, chatOwner, Function.update_self, Function.update_self]
      change _ ↔ some c.caller = some caller ∧ some new.createdAt = some time
      by_cases hcaller : caller = c.caller
      · rw [hcaller, Function.update_self, score_add, if_pos rfl]
        simp
      · rw [Function.update_of_ne fun heq => hcaller (Prod.mk.inj heq).2]
        exact iff_of_false (hfresh caller time) fun hlisted =>
          hcaller (some.inj hlisted.1).symm
    · rw [chatOwner, Function.update_of_ne hk, Function.update_of_ne hk, ← chatOwner,
        ← h.index scope caller id time]
      by_cases hindex : (scope, caller) = (c.scope, c.caller)
      · obtain ⟨rfl, rfl⟩ := Prod.mk.inj hindex
        rw [Function.update_self, score_add, if_neg fun heq => hk (by rw [heq]; rfl)]
      · rw [Function.update_of_ne hindex]
  · intro key
    rw [hrecs, Function.update_apply]
    split_ifs with hk
    · simp
    · rw [chatOwner, Function.update_of_ne hk, ← chatOwner]
      exact h.saved key

lemma ChatsListed.collect (h : ChatsListed saved s) (now : ℕ) :
    ChatsListed saved (collect s now) := by
  refine collect_induction h (fun s e hs => hs.congr rfl fun _ => rfl) fun s o _ hs _ _ => ?_
  cases o with
  | record key =>
    rw [collectObject]
    split
    · exact hs.dropRecord key
    · exact hs.congr rfl fun _ => rfl
  | conversation => exact hs.congr rfl fun _ => rfl

lemma chats_closeTurn {f : Completion} {owner : Caller} {e : Execution}
    (turn : Option Conversation × List (Key × String)) :
    (closeTurn s c f owner e turn).chats = s.chats := by
  obtain ⟨v, append⟩ := turn
  cases v with
  | none => rfl
  | some v =>
    rw [closeTurn]
    split_ifs <;> rfl

lemma chats_finished {f : Completion} {r : Record} {e : Execution}
    {turn : Option Conversation × List (Key × String)} :
    (finished s c f r e turn).chats = s.chats := by
  rw [finished]
  split_ifs
  all_goals exact chats_closeTurn turn

/-- The time of a chat that is not there does not matter. -/
lemma ChatsListed.unsaved (h : ChatsListed saved s) (hf : Fresh s c) :
    ChatsListed (savedBy saved c) s := by
  rw [savedBy]
  split
  · rename_i new hact
    have hnone : chatOwner s.records (c.key new.id) = none := by
      rw [chatOwner, (hf.chatSave hact).1.2]
      rfl
    constructor
    · intro scope caller id time
      by_cases hk : (⟨scope, id⟩ : Key) = c.key new.id
      · rw [h.index scope caller id time, hk, hnone]
        simp
      · rw [Function.update_of_ne hk]
        exact h.index scope caller id time
    · intro key howner
      rw [Function.update_of_ne]
      · exact h.saved key howner
      · rintro rfl
        exact howner hnone
  · exact h

/-- **Every effect of a fresh call keeps the chats listed.** -/
theorem Effect.chatsListed {o : Store × Reply} (h : Effect s c o) (hf : Fresh s c)
    (hs : ChatsListed saved s) : ChatsListed (savedBy saved c) o.1 := by
  have hs' := hs.unsaved hf
  cases h with
  | rejected | quiet => exact hs'
  | @begun new history conv inherited prepared hact =>
    have hnone : chatOwner s.records (c.key new.id) = none := by
      rw [chatOwner, (hf.begin hact).1.2]
      rfl
    exact hs'.setRecord (by cases conv <;> rfl) records_started hnone
  | @discarded id instanceId r e =>
    obtain ⟨vs, expiry, hunclaimed⟩ := unclaim_eq s c id e.conversation
    rw [hunclaimed]
    have hunclaimed : ChatsListed (savedBy saved c)
        { s with conversations := vs, expiry := expiry } := hs'.congr rfl fun _ => rfl
    exact hunclaimed.dropRecord _
  | cancelled hact hr =>
    obtain ⟨hrec, hkind, -⟩ := response_eq_some.mp hr
    exact hs'.setResponse hrec hkind rfl rfl rfl
  | hidden hact hr =>
    obtain ⟨hrec, hkind, -⟩ := response_eq_some.mp hr
    exact hs'.setResponse hrec hkind rfl rfl hkind
  | deleted hact hr =>
    obtain ⟨hrec, hkind, -⟩ := response_eq_some.mp hr
    split
    · exact hs'.setResponse hrec hkind rfl rfl hkind
    · exact hs'.setResponse hrec hkind rfl rfl hkind
  | published hact hr hkind => exact hs'.setResponse hr hkind rfl rfl rfl
  | finished hact hr hkind => exact hs'.setResponse hr hkind chats_finished finished_records rfl
  | acknowledged hact hr =>
    refine hs'.setRecord rfl rfl ?_
    rw [chatOwner, chatOwner, hr]
    rfl
  | conversationUpdated =>
    split
    · exact hs'.congr rfl fun _ => rfl
    · exact hs'.congr rfl fun _ => rfl
  | conversationCreated | conversationDeleted | conversationAppended | itemDeleted =>
    exact hs'.congr rfl fun _ => rfl
  | @chatSaved new hact =>
    rw [savedBy, hact]
    exact hs.chatSave (hf.chatSave hact).1.2
  | chatUpdated hact hr =>
    obtain ⟨hrec, hchat, -⟩ := chat_eq_some.mp hr
    refine hs'.setRecord rfl rfl ?_
    rw [chatOwner, chatOwner, hrec, bind_some, hchat]
    rfl
  | chatDeleted => exact hs'.dropRecord _
  | collected => exact hs'.collect _

/-- **Every run of fresh calls keeps its chats listed.** -/
theorem run_chatsListed {cs : List Call} (h : apiStore.Along Fresh apiStore.init cs) :
    ChatsListed (createdAt cs) (apiStore.after cs) := by
  induction cs using reverseRecOn with
  | nil =>
    refine ⟨fun scope caller id time => ?_, fun key hkey => absurd rfl hkey⟩
    refine iff_of_false (fun hscore => ?_) fun hsaved => ?_
    · cases hscore
    · cases hsaved.1
  | append_singleton cs c ih =>
    obtain ⟨hcs, hc⟩ := Machine.along_concat.mp h
    rw [Machine.after_concat, createdAt, foldl_append]
    have hrenewed : ChatsListed (createdAt cs) (renew (apiStore.after cs) c) :=
      (ih hcs).congr rfl fun _ => rfl
    exact (execute_effect _ c).chatsListed hc hrenewed

/-! ### The chats of a caller in order -/

/-- A chat that a caller can read is one of its own. -/
lemma chatOwner_of_chat {id : String} {found : Record × Option (List (String × String))}
    (h : chat s c id = some found) : chatOwner s.records (c.key id) = some c.caller := by
  obtain ⟨hrec, hkind, hacc⟩ := chat_eq_some.mp h
  rw [chatOwner, hrec, bind_some, hkind]
  exact congrArg some (accessible_caller hacc)

/-- The first chat was created before the second one in the run, or at the same time and its id
comes first. -/
def CreatedBefore (cs : List Call) (c : Call) (a b : String) : Prop :=
  ∃ time time', createdAt cs (c.key a) = some time ∧ createdAt cs (c.key b) = some time' ∧
    (time < time' ∨ time = time' ∧ a ≤ b)

section Members

variable {cs : List Call} (h : ChatsListed (createdAt cs) s)
include h

lemma mem_members {id : String} (howner : chatOwner s.records (c.key id) = some c.caller) :
    id ∈ (s.chats (c.scope, c.caller)).members := by
  obtain ⟨time, htime⟩ := ne_none_iff_exists'.mp (h.saved (c.key id) (by rw [howner]; simp))
  have hscore := (h.index c.scope c.caller id time).mpr ⟨howner, htime⟩
  exact mem_map.mpr ⟨(time, id), score_eq_some.mp hscore, rfl⟩

/-- **The index lists each chat once, in the order of creation.** -/
lemma members_ordered :
    (s.chats (c.scope, c.caller)).members.Pairwise fun a b => a ≠ b ∧ CreatedBefore cs c a b := by
  have hdistinct := pairwise_map.mp (s.chats (c.scope, c.caller)).nodup
  refine pairwise_map.mpr ((hdistinct.and (s.chats (c.scope, c.caller)).sorted).imp_of_mem ?_)
  rintro ⟨time, a⟩ ⟨time', b⟩ ha hb ⟨hne, hbefore⟩
  have hsaved := ((h.index c.scope c.caller a time).mp (score_eq_some.mpr ha)).2
  have hsaved' := ((h.index c.scope c.caller b time').mp (score_eq_some.mpr hb)).2
  exact ⟨hne, time, time', hsaved, hsaved', hbefore⟩

end Members

end Foretoken.ApiStore
