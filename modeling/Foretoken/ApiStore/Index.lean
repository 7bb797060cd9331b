import Foretoken.ApiStore.Ownership

/-!
The pending, acknowledgement and expiry indexes, and the collection that reads the last of them.
-/

namespace Foretoken.ApiStore

open Option Store SortedSet Finset

open Function

variable {k : Key} {r : Record} {v : Conversation} {s s₀ : Store} {o : Object} {time now : ℕ}

/-- Publications leave a response pending and completions end it. -/
def Call.keepsStatus (c : Call) : Bool :=
  match c.action with
  | .publish _ _ body status _ => body = "" || isPending status
  | .finish f => !isPending f.status
  | _ => true

/-- The calls of the frontends: their ids are new, a publication leaves the status pending, and a
`finish` has a status that is not. -/
def Lawful (s : Store) (c : Call) : Prop := Fresh s c ∧ c.keepsStatus = true

instance (s : Store) (c : Call) : Decidable (Lawful s c) :=
  inferInstanceAs (Decidable (_ ∧ _))

/-- Where a record stands: in the pending index, in the acknowledgement index, or in
the expiry index with a score. -/
def Placed : Option Record → Prop → Prop → Option ℕ → Prop
  | none, pending, acknowledgement, score => ¬pending ∧ ¬acknowledgement ∧ score = none
  | some r, pending, acknowledgement, score =>
    (pending ↔ isPending r.status = true)
      ∧ (acknowledgement ↔ isPending r.status = false ∧ r.reservation ≠ "")
      ∧ score = if isPending r.status = false ∧ r.reservation = "" then r.expiresAt else none

/-- A terminal record expires, and a chat is terminal and holds no reservation. -/
def Record.Regular (r : Record) : Prop :=
  (isPending r.status = false → ∃ time, r.expiresAt = some time)
    ∧ ∀ metadata, r.kind = .chat metadata → isPending r.status = false ∧ r.reservation = ""

/-- The entry of a conversation in the expiry index. -/
def Conversation.idleExpiry (v : Conversation) : Option ℕ :=
  if v.activeResponse = "" then some v.expiresAt else none

/-- The invariant of the indexes. -/
structure Indexed (R : Key → Option Record) (C : Key → Option Conversation)
    (pending acknowledgements : Finset Key) (score : Object → Option ℕ) : Prop where
  record : ∀ k, Placed (R k) (k ∈ pending) (k ∈ acknowledgements) (score (.record k))
  regular : ∀ k r, R k = some r → r.Regular
  conversation : ∀ k, score (.conversation k) = (C k).bind Conversation.idleExpiry

namespace Indexed

variable {R : Key → Option Record} {C : Key → Option Conversation} {P A P' A' : Finset Key}
  {score score' : Object → Option ℕ}

section

variable (h : Indexed R C P A score)
include h

lemma setRecord {r : Option Record} (hP : ∀ k' ≠ k, (k' ∈ P' ↔ k' ∈ P))
    (hA : ∀ k' ≠ k, (k' ∈ A' ↔ k' ∈ A)) (hscore : ∀ o ≠ .record k, score' o = score o)
    (hplaced : Placed r (k ∈ P') (k ∈ A') (score' (.record k)))
    (hreg : ∀ r', r = some r' → r'.Regular) :
    Indexed (update R k r) C P' A' score' where
  record k' := by
    by_cases hk : k' = k
    · subst hk
      rwa [update_self]
    · rw [update_of_ne hk, hP k' hk, hA k' hk, hscore _ (by simpa using hk)]
      exact h.record k'
  regular k' r' hr' := by
    by_cases hk : k' = k
    · subst hk
      rw [update_self] at hr'
      exact hreg r' hr'
    · rw [update_of_ne hk] at hr'
      exact h.regular k' r' hr'
  conversation k' := by
    rw [hscore _ (by simp)]
    exact h.conversation k'

lemma setConversation {v : Option Conversation} (hscore : ∀ o ≠ .conversation k, score' o = score o)
    (hplaced : score' (.conversation k) = v.bind Conversation.idleExpiry) :
    Indexed R (update C k v) P A score' where
  record k' := by
    rw [hscore _ (by simp)]
    exact h.record k'
  regular := h.regular
  conversation k' := by
    by_cases hk : k' = k
    · subst hk
      rwa [update_self]
    · rw [update_of_ne hk, hscore _ (by simpa using hk)]
      exact h.conversation k'

lemma rewriteRecord {r' : Record} (hr : R k = some r)
    (hstat : isPending r'.status = isPending r.status) (hres : r'.reservation = r.reservation)
    (hexp : r'.expiresAt = r.expiresAt) (hkind : ∀ m, r'.kind = .chat m → ∃ m, r.kind = .chat m) :
    Indexed (update R k (some r')) C P A score := by
  refine h.setRecord (fun _ _ => Iff.rfl) (fun _ _ => Iff.rfl) (fun _ _ => rfl) ?_ ?_
  · have hplaced := h.record k
    rw [hr] at hplaced
    rwa [Placed, hstat, hres, hexp]
  · intro r'' hr''
    cases hr''
    obtain ⟨hterm, hchat⟩ := h.regular k r hr
    rw [Record.Regular, hstat, hres, hexp]
    refine ⟨hterm, fun m hmeta => ?_⟩
    obtain ⟨m', hmeta'⟩ := hkind m hmeta
    exact hchat m' hmeta'

lemma rewriteConversation {v' : Conversation} (hv : C k = some v)
    (hidle : v'.idleExpiry = v.idleExpiry) :
    Indexed R (update C k (some v')) P A score := by
  refine h.setConversation (fun _ _ => rfl) ?_
  rw [h.conversation, hv, bind_some, bind_some, hidle]

end

end Indexed

/-! ### The effects keep the invariant -/

/-- The invariant of a store. -/
abbrev Store.Indexed (s : Store) : Prop :=
  ApiStore.Indexed s.records s.conversations s.pending s.acknowledgements s.expiry.score

lemma score_enqueueExpiry (h : s.expiresAt o = some time) (o' : Object) :
    (enqueueExpiry s o).expiry.score o' = if o' = o then some time else s.expiry.score o' := by
  rw [enqueueExpiry]
  rw [h]
  exact score_add _ _ _ _

lemma enqueueConversation_indexed (hs : s.Indexed) (k : Key) (hactive : v.activeResponse = "") :
    (enqueueExpiry (setConversation s k v) (.conversation k)).Indexed := by
  have htime : (setConversation s k v).expiresAt (.conversation k) = some v.expiresAt := by
    rw [expiresAt, setConversation]
    dsimp only
    rw [update_self, map_some]
  refine Indexed.setConversation hs (fun o ho => ?_) ?_
  · rw [score_enqueueExpiry htime, if_neg ho]
    rfl
  · rw [score_enqueueExpiry htime, if_pos rfl, bind_some, Conversation.idleExpiry,
      if_pos hactive]

/-- A terminal record is written and put into the index. -/
lemma Indexed.enqueueRecord {R : Key → Option Record} {C : Key → Option Conversation}
    {P A P' A' : Finset Key} {score score' : Object → Option ℕ} (h : Indexed R C P A score)
    (hP : P' = P.erase k) (hA : A' = A.erase k)
    (hscore : ∀ o, score' o = if o = .record k then some time else score o)
    (hterm : isPending r.status = false) (hres : r.reservation = "")
    (htime : r.expiresAt = some time) :
    Indexed (update R k (some r)) C P' A' score' := by
  subst hP hA
  refine h.setRecord ?_ ?_ ?_ ?_ ?_
  · intro k' hk
    simp [hk]
  · intro k' hk
    simp [hk]
  · intro o ho
    rw [hscore, if_neg ho]
  · rw [hscore]
    simp [Placed, hterm, hres, htime]
  · intro r' hr'
    cases hr'
    exact ⟨fun _ => ⟨time, htime⟩, fun _ _ => ⟨hterm, hres⟩⟩

lemma Placed.notMem_pending {P : Finset Key} {a : Prop} {t : Option ℕ}
    (h : Placed (some r) (k ∈ P) a t) (hterm : isPending r.status = false) :
    P = P.erase k := by
  refine (erase_eq_of_notMem fun hmem => ?_).symm
  simp [h.1.mp hmem] at hterm

lemma Placed.notMem_acknowledgements {A : Finset Key} {p : Prop} {t : Option ℕ}
    (h : Placed (some r) p (k ∈ A) t) (hr : isPending r.status = true ∨ r.reservation = "") :
    A = A.erase k := by
  refine (erase_eq_of_notMem fun hmem => ?_).symm
  obtain ⟨hterm, hres⟩ := h.2.1.mp hmem
  rcases hr with hpend | hempty
  · simp [hpend] at hterm
  · exact hres hempty

lemma expiresAt_setRecord (s : Store) (k : Key) (r : Record) :
    (setRecord s k r).expiresAt (.record k) = r.expiresAt := by
  rw [expiresAt, setRecord]
  dsimp only
  rw [update_self, bind_some]

lemma dropRecord_indexed (hs : s.Indexed) (k : Key) : (dropRecord s k).Indexed := by
  refine Indexed.setRecord hs ?_ ?_ ?_ ?_ ?_
  · intro k' hk
    simp [dropRecord, releaseItems, dropChat, hk]
  · intro k' hk
    simp [dropRecord, releaseItems, dropChat, hk]
  · intro o ho
    exact (score_remove _ _ _).trans (if_neg ho)
  · refine ⟨?_, ?_, ?_⟩
    · simp [dropRecord]
    · simp [dropRecord]
    · exact (score_remove _ _ _).trans (if_pos rfl)
  · intro r' hr'
    cases hr'

lemma collectObject_indexed (hs : s.Indexed) (o : Object) : (collectObject s o).Indexed := by
  cases o with
  | record key =>
    rw [collectObject]
    split
    · exact dropRecord_indexed hs key
    · rename_i hnone
      -- an entry without a record is not there either
      have hscore := (hnone ▸ hs.record key).2.2
      have hsame : (s.expiry.remove (.record key)).score = s.expiry.score := by
        funext o
        rw [score_remove]
        split
        · rename_i ho
          rw [ho, hscore]
        · rfl
      change ApiStore.Indexed _ _ _ _ (s.expiry.remove (.record key)).score
      rwa [hsame]
  | conversation =>
    refine Indexed.setConversation hs ?_ ?_
    · intro o ho
      exact (score_remove _ _ _).trans (if_neg ho)
    · exact (score_remove _ _ _).trans (if_pos rfl)

section Begin

variable {c : Call} {new : NewResponse} {xs : List Key} {conv : Option (String × Conversation)}
  {ps : List (Key × String)}

lemma started_indexed (hs : s.Indexed) (hid : new.id ≠ "")
    (hnew : s.records (c.key new.id) = none) :
    (started s c new xs conv ps).Indexed := by
  have hrec : ApiStore.Indexed (update s.records (c.key new.id)
      (some (newRecord c new xs.length ((conv.map Prod.fst).getD ""))))
      s.conversations (insert (c.key new.id) s.pending) s.acknowledgements s.expiry.score := by
    have hplaced := hs.record (c.key new.id)
    rw [hnew] at hplaced
    refine Indexed.setRecord hs ?_ (fun _ _ => Iff.rfl) (fun _ _ => rfl) ?_ ?_
    · intro k' hk
      simp [hk]
    · exact ⟨by simp [newRecord, isPending], by simp [newRecord, isPending, hplaced.2.1],
        by simp [newRecord, isPending, hplaced.2.2]⟩
    · intro r hr
      cases hr
      exact ⟨fun hterm => absurd hterm (by simp [newRecord, isPending]), fun _ h => by cases h⟩
  cases conv with
  | none => exact hrec
  | some claimed =>
    refine hrec.setConversation ?_ ?_
    · intro o ho
      exact (score_remove _ _ _).trans (if_neg ho)
    · refine ((score_remove _ _ _).trans (if_pos rfl)).trans ?_
      rw [bind_some, Conversation.idleExpiry, if_neg hid]

end Begin

section Finish

variable {c : Call} {f : Completion} {e : Execution}
  {turn : Option Conversation × List (Key × String)}

lemma closeTurn_indexed (hs : s.Indexed) (ow : Caller) :
    (closeTurn s c f ow e turn).Indexed := by
  obtain ⟨cv, rows⟩ := turn
  cases cv with
  | none => exact hs
  | some v =>
    rw [closeTurn]
    split
    · exact enqueueConversation_indexed
        (s := appendItems s (.items (c.key e.conversation)) ow rows) hs _
        (closedConversation_active v)
    · exact hs

lemma finished_indexed (hs : s.Indexed) (hr : s.records (c.key f.id) = some r)
    (hpend : isPending r.status = true)
    (hstat : isPending f.status = false) : (finished s c f r e turn).Indexed := by
  have hclosed : (closeTurn (withOutput s c f r.caller) c f r.caller e turn).Indexed :=
    closeTurn_indexed (s := withOutput s c f r.caller) hs r.caller
  have hplaced := hclosed.record (c.key f.id)
  rw [closeTurn_records, show (withOutput s c f r.caller).records = s.records from rfl, hr]
    at hplaced
  rw [finished]
  split
  · rename_i hres
    refine hclosed.enqueueRecord rfl
      (hplaced.notMem_acknowledgements (.inl hpend)) (fun o => ?_) hstat hres rfl
    exact score_enqueueExpiry (expiresAt_setRecord _ _ _) o
  · rename_i hres
    refine hclosed.setRecord ?_ ?_ (fun _ _ => rfl) ?_ ?_
    · intro k' hk
      exact mem_erase.trans (and_iff_right hk)
    · intro k' hk
      exact mem_insert.trans (or_iff_right hk)
    · refine ⟨?_, ?_, ?_⟩
      · simp [finishedRecord, hstat]
      · simp [finishedRecord, hstat, hres]
      · -- a pending record has no entry in the expiry index
        simp only [finishedRecord, hres]
        refine hplaced.2.2.trans ?_
        simp [hpend]
    · intro r' hr'
      cases hr'
      refine ⟨fun _ => ⟨_, rfl⟩, fun m hchat => ?_⟩
      cases hchat

end Finish

/-- **Every effect of a lawful call keeps the indexes.** -/
theorem Effect.indexed {c : Call} {o : Store × Reply} (h : Effect s c o) (hs : s.Indexed)
    (hl : Lawful s c) : o.1.Indexed := by
  cases h with
  | rejected | quiet => exact hs
  | begun hact =>
    obtain ⟨⟨hid, hnew⟩, -⟩ := hl.1.begin hact
    exact started_indexed hs hid hnew
  | discarded =>
    refine dropRecord_indexed ?_ _
    rw [unclaim]
    split
    · exact hs
    · split
      · exact hs
      · split
        · exact enqueueConversation_indexed hs _ rfl
        · exact hs
  | cancelled hact hr =>
    refine hs.rewriteRecord (response_eq_some.mp hr).1 rfl rfl rfl fun md hchat => ?_
    cases hchat
  | hidden hact hr =>
    exact hs.rewriteRecord (response_eq_some.mp hr).1 rfl rfl rfl fun m hm => ⟨m, hm⟩
  | @deleted id r e hact hr hterm =>
    obtain ⟨hrec, hkind, -⟩ := response_eq_some.mp hr
    have hplaced := hs.record (c.key id)
    rw [hrec] at hplaced
    split
    · rename_i hres
      refine Indexed.enqueueRecord hs (hplaced.notMem_pending hterm)
        (hplaced.notMem_acknowledgements (.inr hres)) (fun o => ?_) hterm
        hres rfl
      exact score_enqueueExpiry (expiresAt_setRecord _ _ _) o
    · rename_i hres
      refine hs.setRecord (fun _ _ => Iff.rfl) (fun _ _ => Iff.rfl) (fun _ _ => rfl) ?_ ?_
      · obtain ⟨hpend, hack, hscore⟩ := hplaced
        refine ⟨hpend, hack, hscore.trans ?_⟩
        simp [hres]
      · intro r' hr'
        cases hr'
        refine ⟨fun _ => ⟨_, rfl⟩, fun md hchat => ?_⟩
        simp [hkind] at hchat
  | @published id i body t es r e hact hr hkind hinst hpend =>
    refine hs.rewriteRecord hr ?_ rfl rfl fun md hchat => ?_
    · have hkeeps := hl.2
      rw [Call.keepsStatus, hact] at hkeeps
      simp only [publishedRecord]
      split
      · rfl
      · rename_i hbody
        simp only [hbody, decide_false, Bool.false_or] at hkeeps
        rw [hkeeps, hpend]
    · cases hchat
  | @finished f r e turn hact hr hkind hinst hpend =>
    refine finished_indexed hs hr hpend ?_
    have hkeeps := hl.2
    rw [Call.keepsStatus, hact] at hkeeps
    simpa using hkeeps
  | @acknowledged id r hact hr hterm =>
    have hplaced := hs.record (c.key id)
    rw [hr] at hplaced
    obtain ⟨time, htime⟩ := (hs.regular _ r hr).1 hterm
    refine Indexed.enqueueRecord hs (hplaced.notMem_pending hterm) rfl (fun o => ?_) hterm rfl htime
    refine score_enqueueExpiry ?_ o
    exact (expiresAt_setRecord s (c.key id) { r with reservation := "" }).trans htime
  | @conversationCreated id md xs n ps =>
    exact enqueueConversation_indexed hs (c.key id) rfl
  | @conversationUpdated id md n v hact hv =>
    obtain ⟨hv', -⟩ := conversation_eq_some.mp hv
    split
    · rename_i hactive
      exact enqueueConversation_indexed hs _ hactive
    · rename_i hactive
      refine hs.rewriteConversation hv' ?_
      rw [Conversation.idleExpiry, Conversation.idleExpiry, if_neg hactive, if_neg hactive]
  | conversationDeleted hact hv =>
    exact hs.rewriteConversation (conversation_eq_some.mp hv).1 rfl
  | @conversationAppended id xs n v ps hact hv hactive =>
    exact enqueueConversation_indexed
      (s := appendItems s (.items (c.key id)) c.caller ps) hs _ hactive
  | @itemDeleted id item n v hact hv hactive =>
    exact enqueueConversation_indexed
      (s := { s with shelf := s.shelf.discard (.items (c.key id)) (c.key item) }) hs _ hactive
  | @chatSaved new hact =>
    obtain ⟨⟨-, hnew⟩, -⟩ := hl.1.chatSave hact
    have hplaced := hs.record (c.key new.id)
    rw [hnew] at hplaced
    refine Indexed.enqueueRecord hs (erase_eq_of_notMem hplaced.1).symm
      (erase_eq_of_notMem hplaced.2.1).symm (fun o => ?_) rfl rfl rfl
    exact score_enqueueExpiry (expiresAt_setRecord _ _ _) o
  | chatUpdated hact hr =>
    obtain ⟨hrec, hchat, -⟩ := chat_eq_some.mp hr
    exact hs.rewriteRecord hrec rfl rfl rfl fun _ _ => ⟨_, hchat⟩
  | chatDeleted => exact dropRecord_indexed hs _
  | collected =>
    exact collect_induction hs (fun s en hs => hs) fun s o _ hs _ _ => collectObject_indexed hs o

lemma empty_indexed : empty.Indexed := by
  constructor
  · intro k
    exact ⟨notMem_empty _, notMem_empty _, rfl⟩
  · intro k r hr
    cases hr
  · intro k
    rfl

/-- The two invariants along lawful runs. -/
structure Store.WellFormed (s : Store) : Prop where
  consistent : s.Consistent
  indexed : s.Indexed

lemma next_wellFormed {c : Call} (hs : s.WellFormed) (hl : Lawful s c) :
    (apiStore.next s c).WellFormed where
  consistent := next_consistent hs.consistent hl.1
  indexed := (execute_effect (renew s c) c).indexed hs.indexed hl

/-- **Lawful runs reach well-formed stores.** -/
theorem run_wellFormed {cs : List Call} (h : apiStore.Along Lawful apiStore.init cs) :
    (apiStore.after cs).WellFormed :=
  Machine.run_preserves Machine.reachable_init
    (fun _ _ _ hs hl => next_wellFormed hs hl) ⟨empty_consistent, empty_indexed⟩ h

lemma Store.Indexed.expiresAt_of_score (hs : s.Indexed) (h : s.expiry.score o = some time) :
    s.expiresAt o = some time := by
  cases o with
  | record k =>
    have hplaced := hs.record k
    rw [h] at hplaced
    cases hr : s.records k with
    | none =>
      rw [hr] at hplaced
      cases hplaced.2.2
    | some =>
      rw [hr] at hplaced
      have hscore := hplaced.2.2
      split at hscore
      · rw [expiresAt, hr, bind_some, ← hscore]
      · cases hscore
  | conversation k =>
    have hscore := hs.conversation k
    rw [h] at hscore
    obtain ⟨v, hv, hidle⟩ := bind_eq_some_iff.mp hscore.symm
    rw [Conversation.idleExpiry] at hidle
    split at hidle
    · rw [expiresAt, hv, map_some, hidle]
    · cases hidle

/-! ### Collection -/

/-- The store has the object. -/
def Store.Holds (s : Store) : Object → Prop
  | .record key => s.records key ≠ none
  | .conversation key => s.conversations key ≠ none

/-- What is left of `s₀` after objects that are due at `now` are collected. -/
structure Remains (now : ℕ) (s₀ s : Store) : Prop where
  score : ∀ o time, s.expiry.score o = some time → s₀.expiry.score o = some time
  gone : ∀ o, s₀.Holds o → ¬ s.Holds o → ∃ time, s₀.expiry.score o = some time ∧ time ≤ now
  records : ∀ k r, s.records k = some r → s₀.records k = some r
  conversations : ∀ k v, s.conversations k = some v → s₀.conversations k = some v
  lists : ∀ l : ListKey, s.Holds l.object → s.shelf.lists l = s₀.shelf.lists l
  bodies : ∀ x item, s.shelf.body x = some item → s₀.shelf.body x = some item

lemma Remains.refl (now : ℕ) (s : Store) : Remains now s s where
  score _ _ h := h
  gone _ h h' := absurd h h'
  records _ _ h := h
  conversations _ _ h := h
  lists _ _ := rfl
  bodies _ _ h := h

lemma holds_dropRecord : (dropRecord s k).Holds o ↔ s.Holds o ∧ o ≠ .record k := by
  cases o with
  | record key =>
    change update s.records k none key ≠ none ↔ _
    by_cases hk : key = k
    · subst hk
      simp
    · simp [hk, Holds]
  | conversation key =>
    change s.conversations key ≠ none ↔ _
    simp [Holds]

lemma Remains.dropRecord (h : Remains now s₀ s) (hscore : s.expiry.score (.record k) = some time)
    (htime : time ≤ now) :
    Remains now s₀ (dropRecord s k) where
  score o t ho := by
    change (s.expiry.remove (.record k)).score o = some t at ho
    rw [score_remove] at ho
    split at ho
    · cases ho
    · exact h.score o t ho
  gone o h₀ hgone := by
    by_cases hheld : s.Holds o
    · have ho : o = .record k := by
        by_contra hne
        exact hgone (holds_dropRecord.mpr ⟨hheld, hne⟩)
      subst ho
      exact ⟨time, h.score _ _ hscore, htime⟩
    · exact h.gone o h₀ hheld
  records key r hr := by
    change update s.records k none key = some r at hr
    rw [update_apply] at hr
    split at hr
    · cases hr
    · exact h.records key r hr
  conversations := h.conversations
  lists l hl := by
    rw [holds_dropRecord] at hl
    refine (lists_dropRecord s.shelf k l).trans ?_
    rw [if_neg hl.2]
    exact h.lists l hl.1
  bodies x item hitem :=
    h.bodies x item (Shelf.body_of_release (Shelf.body_of_release hitem))

lemma holds_collectConversation :
    (collectObject s (.conversation k)).Holds o ↔ s.Holds o ∧ o ≠ .conversation k := by
  cases o with
  | record key =>
    change s.records key ≠ none ↔ _
    simp [Holds]
  | conversation key =>
    change update s.conversations k none key ≠ none ↔ _
    by_cases hk : key = k
    · subst hk
      simp
    · simp [hk, Holds]

lemma Remains.collectConversation (h : Remains now s₀ s)
    (hscore : s.expiry.score (.conversation k) = some time) (htime : time ≤ now) :
    Remains now s₀ (collectObject s (.conversation k)) where
  score o t ho := by
    change (s.expiry.remove (.conversation k)).score o = some t at ho
    rw [score_remove] at ho
    split at ho
    · cases ho
    · exact h.score o t ho
  gone o h₀ hgone := by
    by_cases hheld : s.Holds o
    · have ho : o = .conversation k := by
        by_contra hne
        exact hgone (holds_collectConversation.mpr ⟨hheld, hne⟩)
      subst ho
      exact ⟨time, h.score _ _ hscore, htime⟩
    · exact h.gone o h₀ hheld
  records := h.records
  conversations key v hv := by
    change update s.conversations k none key = some v at hv
    rw [update_apply] at hv
    split at hv
    · cases hv
    · exact h.conversations key v hv
  lists l hl := by
    rw [holds_collectConversation] at hl
    refine (lists_dropConversation s.shelf k l).trans ?_
    rw [if_neg hl.2]
    exact h.lists l hl.1
  bodies x item hitem := h.bodies x item (Shelf.body_of_release hitem)

lemma Remains.collectObject (h : Remains now s₀ s) (hscore : s.expiry.score o = some time)
    (htime : time ≤ now) : Remains now s₀ (collectObject s o) := by
  cases o with
  | record k =>
    rw [ApiStore.collectObject]
    split
    · exact h.dropRecord hscore htime
    · refine ⟨fun o t ho => ?_, h.gone, h.records, h.conversations, h.lists, h.bodies⟩
      rw [score_remove] at ho
      split at ho
      · cases ho
      · exact h.score o t ho
  | conversation => exact h.collectConversation hscore htime

lemma collect_remains (s : Store) (now : ℕ) : Remains now s (collect s now) := by
  refine collect_induction (.refl now s) (fun _ _ h => ?_)
    fun _ _ _ h hscore htime => h.collectObject hscore htime
  exact ⟨h.score, h.gone, h.records, h.conversations, h.lists, h.bodies⟩

lemma Remains.record_kept (h : Remains now s₀ s) (hr : s₀.records k = some r)
    (hdue : ∀ time, s₀.expiry.score (.record k) = some time → now < time) :
    s.records k = some r := by
  cases hr' : s.records k with
  | none =>
    obtain ⟨time, hscore, htime⟩ := h.gone (.record k) (by simp [Holds, hr])
      (by simp [Holds, hr'])
    exact absurd htime (not_le.mpr (hdue time hscore))
  | some r' =>
    rw [← h.records k r' hr', hr]

lemma Remains.conversation_kept (h : Remains now s₀ s) (hv : s₀.conversations k = some v)
    (hdue : ∀ time, s₀.expiry.score (.conversation k) = some time → now < time) :
    s.conversations k = some v := by
  cases hv' : s.conversations k with
  | none =>
    obtain ⟨time, hscore, htime⟩ := h.gone (.conversation k) (by simp [Holds, hv])
      (by simp [Holds, hv'])
    exact absurd htime (not_le.mpr (hdue time hscore))
  | some v' =>
    rw [← h.conversations k v' hv', hv]

/-- A record that is in use or not expired survives a collection. -/
lemma Store.Indexed.record_kept {s' : Store} (hs : s.Indexed) (h : Remains now s s')
    (hr : s.records k = some r) (hkeep : isPending r.status = true ∨ r.reservation ≠ ""
      ∨ ∃ time, r.expiresAt = some time ∧ now < time) : s'.records k = some r := by
  refine h.record_kept hr fun time hscore => ?_
  have hexp := hs.expiresAt_of_score hscore
  rw [expiresAt, hr, bind_some] at hexp
  have hplaced := hs.record k
  rw [hr, hscore] at hplaced
  have hcond := hplaced.2.2
  split at hcond
  · rename_i hterm
    rcases hkeep with hpend | hres | ⟨time', htime', hlater⟩
    · rw [hpend] at hterm
      cases hterm.1
    · exact absurd hterm.2 hres
    · rw [hexp, some.injEq] at htime'
      exact htime' ▸ hlater
  · cases hcond

/-- An active or unexpired conversation survives a collection. -/
lemma Store.Indexed.conversation_kept {s' : Store} (hs : s.Indexed) (h : Remains now s s')
    (hv : s.conversations k = some v) (hkeep : v.activeResponse ≠ "" ∨ now < v.expiresAt) :
    s'.conversations k = some v := by
  refine h.conversation_kept hv fun time hscore => ?_
  have hidle := hs.conversation k
  rw [hscore, hv, bind_some, Conversation.idleExpiry] at hidle
  split at hidle
  · rename_i hactive
    cases hidle
    exact hkeep.resolve_left fun hne => hne hactive
  · cases hidle

lemma Remains.item_kept (h : Remains now s₀ s) (hs : s.Consistent) {l : ListKey}
    (hl : s.Holds l.object) {x : Key} (hx : x ∈ s₀.shelf.lists l) :
    x ∈ s.shelf.lists l ∧ s.shelf.body x = s₀.shelf.body x := by
  rw [← h.lists l hl] at hx
  obtain ⟨item, hitem⟩ := hs.exact.body_of_mem hx
  exact ⟨hx, by rw [hitem, h.bodies x item hitem]⟩

/-- **Index membership and collection.** Every record stands in the index of its status
and reservation, every conversation in the expiry index between two turns, with the
expiry of the object as the score. Collection at any time keeps every pending or
unacknowledged response, every active conversation, every object that expires later
and every item of a list that is left. -/
theorem indexes_exact_and_collection_safe {cs : List Call}
    (h : apiStore.Along Lawful apiStore.init cs) :
    let s := apiStore.after cs
    (∀ k r, s.records k = some r →
      (k ∈ s.pending ↔ isPending r.status = true)
        ∧ (k ∈ s.acknowledgements ↔ isPending r.status = false ∧ r.reservation ≠ "")
        ∧ ((s.expiry.score (.record k)).isSome
          ↔ isPending r.status = false ∧ r.reservation = ""))
      ∧ (∀ k v, s.conversations k = some v →
        ((s.expiry.score (.conversation k)).isSome ↔ v.activeResponse = ""))
      ∧ (∀ o time, s.expiry.score o = some time → s.expiresAt o = some time)
      ∧ ∀ c : Call, c.action = .collect →
        let s' := apiStore.next s c
        (∀ k r, s.records k = some r →
          isPending r.status = true ∨ r.reservation ≠ ""
            ∨ (∃ time, r.expiresAt = some time ∧ c.now < time) → s'.records k = some r)
          ∧ (∀ k v, s.conversations k = some v →
            v.activeResponse ≠ "" ∨ c.now < v.expiresAt → s'.conversations k = some v)
          ∧ ∀ l x, x ∈ s.shelf.lists l → s'.Holds l.object →
            x ∈ s'.shelf.lists l ∧ s'.shelf.body x = s.shelf.body x := by
  intro s
  have hs : s.WellFormed := run_wellFormed h
  refine ⟨?_, ?_, fun o time ho => hs.indexed.expiresAt_of_score ho, ?_⟩
  · intro k r hr
    have hplaced := hs.indexed.record k
    rw [hr] at hplaced
    refine ⟨hplaced.1, hplaced.2.1, ?_⟩
    rw [hplaced.2.2]
    split
    · rename_i hterminal
      obtain ⟨time, htime⟩ := (hs.indexed.regular k r hr).1 hterminal.1
      simp [htime, hterminal]
    · rename_i hterminal
      simp [hterminal]
  · intro k v hv
    rw [hs.indexed.conversation k, hv, bind_some, Conversation.idleExpiry]
    split
    all_goals
      rename_i hactive
      simp [hactive]
  · intro c hc s'
    have hs' : s' = collect (renew s c) c.now := by
      change (execute (renew s c) c).1 = _
      rw [execute_of_not_raises (by rw [raises, hc]), perform, hc]
    have hcollect := collect_remains (renew s c) c.now
    rw [← hs'] at hcollect
    have hremains : Remains c.now s s' :=
      ⟨hcollect.score, hcollect.gone, hcollect.records, hcollect.conversations, hcollect.lists,
        hcollect.bodies⟩
    have hconsistent : s'.Consistent := by
      rw [hs']
      exact collect_consistent (s := renew s c) hs.consistent c.now
    exact ⟨fun k r hr => hs.indexed.record_kept hremains hr,
      fun k v hv => hs.indexed.conversation_kept hremains hv,
      fun l x hx hl => hremains.item_kept hconsistent hl hx⟩

theorem indexes_exact_and_collection_safe_turn :
    apiStore.Along Lawful apiStore.init conversationCalls
      ∧ ∀ o time, (apiStore.after conversationCalls).expiry.score o = some time →
        (apiStore.after conversationCalls).expiresAt o = some time :=
  have h : apiStore.Along Lawful apiStore.init conversationCalls := by decide
  ⟨h, (indexes_exact_and_collection_safe h).2.2.1⟩

end Foretoken.ApiStore
