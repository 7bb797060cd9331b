import Foretoken.ApiStore.Life

/-!
The end of a response, while its executing instance, recovery processes and callers race for it.

Versions grow with every change, so an equal version means an equal response, and a recovery
commits only on the response it read. The executing instance numbers its events itself; `Numbered`
joins the two.
-/

namespace Foretoken.ApiStore

open List Option EventLog Machine SortedSet

open Function

variable {s : Store} {key : Key} {c : Call} {l l' l₁ : Life} {log : EventLog} {numbers : List ℕ}
  {events : List (ℕ × String)} {f : Completion} {pre mid post : List Call}

/-! ### Responses that are gone leave no events -/

/-- Only records have replay events. -/
def Store.Silent (s : Store) : Prop := ∀ k, s.records k = none → s.logs k = ⟨∅, none⟩

section

variable (hs : s.Silent)
include hs

lemma Store.Silent.frame {s' : Store} (hrecs : ∀ k, s'.records k = none → s.records k = none)
    (hlogs : s'.logs = s.logs) :
    s'.Silent := by
  intro k hk
  rw [hlogs]
  exact hs k (hrecs k hk)

lemma Store.Silent.setRecord {s' : Store} {r : Record}
    (hrecs : s'.records = update s.records key (some r)) (hlogs : ∀ k ≠ key, s'.logs k = s.logs k) :
    s'.Silent := by
  intro k hk
  rcases eq_or_ne k key with rfl | hkey
  · simp [hrecs] at hk
  · rw [hlogs k hkey]
    exact hs k (by simpa [hrecs, hkey] using hk)

lemma Store.Silent.dropRecord (key : Key) :
    (ApiStore.dropRecord s key).Silent := by
  intro k hk
  by_cases hkey : k = key
  · subst hkey
    exact update_self ..
  · refine (update_of_ne hkey _ _).trans (hs k ?_)
    exact (update_of_ne hkey _ _).symm.trans hk

lemma Store.Silent.handReplay (now : ℕ) (e : ℕ × Object) :
    (ApiStore.handReplay now s e).Silent := by
  obtain ⟨deadline, object⟩ := e
  cases object with
  | conversation => exact hs.frame (fun _ hk => hk) rfl
  | record key =>
    intro k hk
    by_cases hkey : k = key
    · subst hkey
      change update s.logs k (((s.logs k).at now).expireAt now deadline) k = _
      rw [update_self, hs k hk, EventLog.at, if_neg (by simp), EventLog.expireAt, if_pos (.inr rfl)]
    · refine (update_of_ne hkey _ _).trans (hs k hk)

lemma Store.Silent.collectObject (o : Object) :
    (ApiStore.collectObject s o).Silent := by
  cases o with
  | conversation => exact hs.frame (fun _ hk => hk) rfl
  | record key =>
    rw [ApiStore.collectObject]
    split
    · exact hs.dropRecord key
    · exact hs.frame (fun _ hk => hk) rfl

end

lemma Effect.silent {o : Store × Reply} (h : Effect s c o) (hs : s.Silent) : o.1.Silent := by
  cases h with
  | rejected | quiet => exact hs
  | @begun new xs conv =>
    refine hs.setRecord records_started fun k _ => ?_
    cases conv <;> rfl
  | @discarded id i r e =>
    obtain ⟨vs, expiry, huncl⟩ := unclaim_eq s c id e.conversation
    rw [huncl]
    exact Store.Silent.dropRecord (hs.frame (fun _ hk => hk) rfl) (c.key id)
  | cancelled | hidden | acknowledged | chatSaved | chatUpdated =>
    exact hs.setRecord rfl fun _ _ => rfl
  | deleted =>
    split
    all_goals exact hs.setRecord rfl fun _ _ => rfl
  | published => exact hs.setRecord rfl fun k hk => update_of_ne hk _ _
  | finished =>
    refine hs.setRecord finished_records fun k hk => ?_
    rw [finished_logs, update_of_ne hk]
  | conversationCreated | conversationDeleted | conversationAppended | itemDeleted =>
    exact hs.frame (fun _ hk => hk) rfl
  | conversationUpdated =>
    split
    all_goals exact hs.frame (fun _ hk => hk) rfl
  | chatDeleted => exact hs.dropRecord _
  | collected =>
    exact collect_induction hs (fun _ en hs' => hs'.handReplay c.now en)
      fun _ o _ hs' _ _ => hs'.collectObject o

/-- **Runs leave no events without a record.** -/
theorem run_silent (cs : List Call) : (apiStore.after cs).Silent :=
  run_stable reachable_init
    (fun s c _ hs => (execute_effect (renew s c) c).silent hs)
    (fun _ _ => rfl) cs

/-! ### Versions -/

/-- A response after some calls: its version grows with every change, and a terminal
response is not changed. -/
structure Life.Precedes (l l' : Life) : Prop where
  version : l.version ≤ l'.version
  same : l'.version = l.version → l' = l
  terminal : isPending l.status = false → l' = l
  owner : l'.instanceId = l.instanceId
  replay : l'.replay = l.replay

lemma Life.Precedes.refl (l : Life) : l.Precedes l where
  version := le_rfl
  same _ := rfl
  terminal _ := rfl
  owner := rfl
  replay := rfl

lemma Life.Precedes.trans {l'' : Life} (h : l.Precedes l') (h' : l'.Precedes l'') :
    l.Precedes l'' where
  version := h.version.trans h'.version
  same heq := by
    have hfirst : l'.version = l.version := le_antisymm (heq ▸ h'.version) h.version
    exact (h'.same (heq.trans hfirst.symm)).trans (h.same hfirst)
  terminal hterm := by
    have hfirst := h.terminal hterm
    exact (h'.terminal (hfirst ▸ hterm)).trans hfirst
  owner := h'.owner.trans h.owner
  replay := h'.replay.trans h.replay

lemma Life.precedes_of_pending (hpend : isPending l.status = true)
    (hver : l'.version = l.version + 1) (howner : l'.instanceId = l.instanceId)
    (hrep : l'.replay = l.replay) : l.Precedes l' where
  version := hver ▸ Nat.le_succ _
  same heq := absurd (hver.symm.trans heq) (Nat.succ_ne_self _)
  terminal hterm := by
    simp [hpend] at hterm
  owner := howner
  replay := hrep

lemma Life.Step.precedes {reply : Reply} (h : Life.Step c key l reply l') : l.Precedes l' := by
  cases h with
  | idle => exact .refl l
  | published hact hkey hpend | finished hact hkey hpend =>
    exact Life.precedes_of_pending hpend rfl rfl rfl

/-- **A response along a run that does not drop it.** -/
theorem run_life {cs₀ cs : List Call} (h : apiStore.Along Lawful apiStore.init (cs₀ ++ cs))
    (hl : life (apiStore.after cs₀) key = some l) (hk : ∀ pre post, cs = pre ++ post →
      (apiStore.after (cs₀ ++ pre)).records key ≠ none) :
    ∃ l', life (apiStore.after (cs₀ ++ cs)) key = some l' ∧ l.Precedes l' := by
  induction cs using reverseRecOn with
  | nil =>
    rw [append_nil]
    exact ⟨l, hl, .refl l⟩
  | append_singleton cs c ih =>
    rw [← append_assoc] at h
    obtain ⟨l₁, hl₁, hle⟩ := ih h.left fun pre post hsplit =>
      hk pre (post ++ [c]) (by rw [hsplit, append_assoc])
    have hheld := hk (cs ++ [c]) [] (append_nil _).symm
    rw [← append_assoc, after_concat] at hheld ⊢
    obtain ⟨l₂, hl₂, hstep⟩ := next_life h.right.1.1 hl₁ hheld
    exact ⟨l₂, hl₂, hle.trans hstep.precedes⟩

/-! ### Numbers of the replay events -/

/-- The numbers of the events that the executing instance sends for a response. -/
def ownNumbers (key : Key) (instanceId : String) (c : Call) : List ℕ :=
  match c.action with
  | .publish id sender _ _ events =>
    if c.key id = key ∧ sender = instanceId then events.map Prod.fst else []
  | .finish f =>
    if c.key f.id = key ∧ f.instanceId ≠ "" ∧ f.instanceId = instanceId then
      f.events.map Prod.fst
    else []
  | _ => []

/-- The call reads the version of a pending response and the number behind its last event. -/
def Snapshots (s : Store) (c : Call) (key : Key) (version number : ℕ) : Prop :=
  ∃ id body, c.action = .failureSnapshot id ∧ c.key id = key
    ∧ apiStore.reply s c = .ok (.snapshot (some (body, version, number)))

/-- Every completion by a recovery names a version it read in the run, and its one event
has the number it read with it. -/
def Recovering (s : Store) (cs : List Call) (key : Key) : Prop :=
  ∀ pre c post f, cs = pre ++ c :: post → c.action = .finish f → c.key f.id = key →
    f.instanceId = "" → ∃ pre' c' mid version number text, pre = pre' ++ c' :: mid
      ∧ Snapshots (apiStore.run s pre') c' key version number
      ∧ f.version = some version ∧ f.events = [(number, text)]

lemma EventLog.at_of_none (h : log.deadline = none) (now : ℕ) : log.at now = log := by
  rw [EventLog.at, h, if_neg (by simp)]

lemma EventLog.append_eq (log : EventLog) (now : ℕ) (events : List (ℕ × String)) :
    log.append now events = ⟨(log.at now).events.addAll events, (log.at now).deadline⟩ := by
  rw [append]
  generalize log.at now = log'
  induction events generalizing log' with
  | nil => rfl
  | cons e events ih =>
    rw [foldl_cons, ih]
    rfl

lemma EventLog.mem_of_mem_expireAt {now deadline : ℕ} {e : ℕ × String}
    (h : e ∈ (log.expireAt now deadline).events.entries) : e ∈ log.events.entries := by
  rw [expireAt] at h
  split at h
  · cases h
  · exact h

lemma EventLog.distinct_expireAt (h : log.events.Distinct) (now deadline : ℕ) :
    (log.expireAt now deadline).events.Distinct := by
  rw [expireAt]
  split
  · exact nodup_nil
  · exact h

lemma Snapshots.life {v n : ℕ} (h : Snapshots s c key v n)
    (hl : ApiStore.life s key = some l) :
    v = l.version ∧ isPending l.status = true
      ∧ n = (((l.log.at c.now).events.last).map (·.1 + 1)).getD 0 := by
  obtain ⟨id, body, hact, rfl, hreply⟩ := h
  obtain ⟨r, e, hr, hkind, rfl⟩ := life_eq_some hl
  have hsnap : apiStore.reply s c = failureSnapshot s c id := by
    change (execute (renew s c) c).2 = _
    rw [execute_of_ok hreply, perform, hact]
    rfl
  rw [hsnap, failureSnapshot, hr] at hreply
  dsimp only at hreply
  split at hreply
  · cases hreply
  · rename_i hpend
    rw [hkind] at hreply
    simp only [Reply.ok.injEq, Value.snapshot.injEq, some.injEq, Prod.mk.injEq] at hreply
    exact ⟨hreply.2.1.symm, by simpa using hpend, hreply.2.2.symm⟩

/-- The replay log of a pending response: its numbers are distinct and were sent by the
executing instance, and nothing is deleted. -/
structure Numbered (l : Life) (numbers : List ℕ) : Prop where
  kept : l.log.deadline = none
  distinct : l.log.events.Distinct
  sent : ∀ e ∈ l.log.events.entries, e.1 ∈ numbers

/-- Events that follow those of the log, in order. -/
structure Follows (l : Life) (events : List (ℕ × String)) : Prop where
  grow : (events.map Prod.fst).Pairwise (· < ·)
  behind : ∀ e ∈ l.log.events.entries, ∀ f ∈ events, e.1 < f.1

section

variable (h : Numbered l numbers)
include h

lemma Numbered.follows (hgrow : (numbers ++ events.map Prod.fst).Pairwise (· < ·)) :
    Follows l events := by
  rw [pairwise_append] at hgrow
  refine ⟨hgrow.2.1, fun e he f hf => ?_⟩
  exact hgrow.2.2 e.1 (h.sent e he) f.1 (mem_map_of_mem hf)

lemma Numbered.append_eq (now : ℕ) (events : List (ℕ × String)) :
    l.log.append now events = ⟨l.log.events.addAll events, none⟩ := by
  rw [EventLog.append_eq, EventLog.at_of_none h.kept, h.kept]

lemma Numbered.publish (hgrow : (numbers ++ events.map Prod.fst).Pairwise (· < ·)) (now : ℕ)
    (body t : String) :
    Numbered (l.publish now body t events) (numbers ++ events.map Prod.fst) := by
  have hlog : (l.publish now body t events).log = ⟨l.log.events.addAll events, none⟩ :=
    h.append_eq now events
  have hfol := h.follows hgrow
  constructor
  · rw [hlog]
  · rw [hlog]
    exact h.distinct.addAll hfol.grow hfol.behind
  · intro e he
    rw [hlog] at he
    rcases mem_of_mem_addAll he with hold | hnew
    · exact mem_append_left _ (h.sent e hold)
    · exact mem_append_right _ (mem_map_of_mem hnew)

/-- The log of a completed response ends with the terminal event. -/
lemma Numbered.finish (hfol : Follows l f.events) (now : ℕ) (outputs : List Key) :
    (l.finish now outputs f).log.events.Distinct
      ∧ ∀ last ∈ f.events.getLast?, ∀ e ∈ (l.finish now outputs f).log.events.entries,
        e.1 ≤ last.1 := by
  have hlog : (l.finish now outputs f).log
      = expireAt ⟨l.log.events.addAll f.events, none⟩ now (now + l.replay * 1000) := by
    rw [← h.append_eq now]
    rfl
  rw [hlog]
  refine ⟨distinct_expireAt (h.distinct.addAll hfol.grow hfol.behind) _ _, ?_⟩
  intro last hlast e he
  obtain ⟨front, hfront⟩ := getLast?_eq_some_iff.mp hlast
  rcases mem_of_mem_addAll (mem_of_mem_expireAt he) with hold | hnew
  · exact (hfol.behind e hold last (by rw [hfront]; simp)).le
  · have hgrow := hfol.grow
    rw [hfront, map_append, pairwise_append] at hgrow
    rw [hfront, mem_append, mem_singleton] at hnew
    rcases hnew with hnew | rfl
    · exact (hgrow.2.2 e.1 (mem_map_of_mem hnew) last.1 (by simp)).le
    · exact le_rfl

/-- The number behind the last event is behind every event. -/
lemma Numbered.lt_next {now : ℕ} {e : ℕ × String} (he : e ∈ l.log.events.entries) :
    e.1 < (((l.log.at now).events.last).map (·.1 + 1)).getD 0 := by
  rw [at_of_none h.kept]
  cases hlast : l.log.events.last with
  | none =>
    rw [last, getLast?_eq_none_iff] at hlast
    simp [hlast] at he
  | some =>
    exact Nat.lt_succ_of_le (score_le_last hlast he)

end

/-! ### Calls that lose -/

lemma reply_finish_of_terminal (hl : life s (c.key f.id) = some l)
    (hact : c.action = .finish f) (hterm : isPending l.status = false)
    (hinst : f.instanceId = "" ∨ f.instanceId = l.instanceId) :
    apiStore.reply s c = .ok (.text l.body) := by
  obtain ⟨r, e, hr, hkind, rfl⟩ := life_eq_some hl
  have hother : ¬(f.instanceId ≠ "" ∧ e.executionInstance ≠ f.instanceId) := by
    rw [not_and_or, not_not, not_not]
    exact hinst.imp_right Eq.symm
  have hrec : (renew s c).records (c.key f.id) = some r := hr
  change (execute (renew s c) c).2 = _
  rw [execute_of_not_raises (by rw [raises, hact]; exact misreadsRecord_of_some hr), perform, hact]
  simp [finish, hrec, hkind, hother, hterm]

lemma reply_publish {id body t : String} (hl : life s (c.key id) = some l)
    (hact : c.action = .publish id l.instanceId body t events) :
    apiStore.reply s c = if isPending l.status then .ok .empty else .responseBusy := by
  obtain ⟨r, e, hr, hkind, rfl⟩ := life_eq_some hl
  have hrec : (renew s c).records (c.key id) = some r := hr
  change (execute (renew s c) c).2 = _
  rw [execute_of_not_raises (by rw [raises, hact]; exact misreadsRecord_of_some hr), perform, hact]
  cases hpend : isPending r.status <;> simp [publish, hrec, hkind, hpend]

/-- The call publishes progress of a response. -/
def Publishes (s : Store) (c : Call) (key : Key) : Prop :=
  ∃ id sender body status events, c.action = .publish id sender body status events
    ∧ c.key id = key ∧ apiStore.reply s c = .ok .empty

lemma Publishes.life (h : Publishes s c key) (hl : ApiStore.life s key = some l) :
    ∃ l', ApiStore.life (apiStore.next s c) key = some l' ∧ l'.version = l.version + 1 := by
  obtain ⟨id, sender, body, status, events, hact, rfl, hreply⟩ := h
  obtain ⟨r, e, hr, hkind, hlife⟩ := life_eq_some hl
  have hperf : execute (renew s c) c = publish (renew s c) c id sender body status events := by
    rw [execute_of_ok hreply, perform, hact]
  change (execute (renew s c) c).2 = _ at hreply
  change ∃ l', ApiStore.life (execute (renew s c) c).1 (c.key id) = some l' ∧ _
  have hrec : (renew s c).records (c.key id) = some r := hr
  simp only [hperf, publish, hrec, hkind] at hreply ⊢
  split_ifs at hreply ⊢
  exact ⟨_, published_life hr hkind hl, rfl⟩

/-- The replay events stay until their deadline. -/
lemma Life.finish_log_at (l : Life) (now : ℕ) (outputs : List Key) (f : Completion) {time : ℕ}
    (htime : time ≤ now + l.replay * 1000) :
    (l.finish now outputs f).log.at time = (l.finish now outputs f).log := by
  rw [Life.finish, expireAt]
  split
  · exact EventLog.at_of_none rfl _
  · rw [EventLog.at, if_neg (by simpa using htime)]

/-! ### Runs from the start of a response -/

/-- The call takes a record out of the pending statuses. -/
def Commits (s : Store) (c : Call) (key : Key) : Prop :=
  running s key = true ∧ running (apiStore.next s c) key = false

instance (s : Store) (c : Call) (key : Key) : Decidable (Commits s c key) :=
  inferInstanceAs (Decidable (_ ∧ _))

section Run

variable {cs₀ cs : List Call} (h : apiStore.Along Lawful apiStore.init (cs₀ ++ cs))
  (hl : life (apiStore.after cs₀) key = some l)
  (hk : ∀ pre post, cs = pre ++ post → (apiStore.after (cs₀ ++ pre)).records key ≠ none)

include h hk

lemma life_between (hsplit : cs = pre ++ mid ++ post)
    (hl₁ : life (apiStore.after (cs₀ ++ pre)) key = some l₁) :
    ∃ l₂, life (apiStore.after (cs₀ ++ (pre ++ mid))) key = some l₂
      ∧ l₁.Precedes l₂ := by
  subst hsplit
  rw [← append_assoc, ← append_assoc] at h
  rw [← append_assoc]
  refine run_life h.left hl₁ fun pre₁ post₁ hsplit₁ => ?_
  rw [append_assoc]
  exact hk (pre ++ pre₁) (post₁ ++ post) (by rw [hsplit₁]; simp)

include hl

/-- The response at a moment, and what the next call does to it. -/
lemma life_at (hsplit : cs = pre ++ c :: post) :
    ∃ l₁ l₂, life (apiStore.after (cs₀ ++ pre)) key = some l₁ ∧ l.Precedes l₁
      ∧ life (apiStore.next (apiStore.after (cs₀ ++ pre)) c) key = some l₂
      ∧ Lawful (apiStore.after (cs₀ ++ pre)) c
      ∧ Life.Step c key l₁ (apiStore.reply (apiStore.after (cs₀ ++ pre)) c) l₂ := by
  subst hsplit
  rw [← append_assoc] at h
  obtain ⟨l₁, hl₁, hle⟩ := run_life h.left hl fun pre₁ post₁ hsplit₁ =>
    hk pre₁ (post₁ ++ c :: post) (by rw [hsplit₁, append_assoc])
  have hlawful : Lawful (apiStore.after (cs₀ ++ pre)) c := h.right.1
  have hheld := hk (pre ++ [c]) post (by simp)
  rw [← append_assoc, after_concat] at hheld
  obtain ⟨l₂, hl₂, hstep⟩ := next_life hlawful.1 hl₁ hheld
  exact ⟨l₁, l₂, hl₁, hle, hl₂, hlawful, hstep⟩

/-- A response ends by a completion of it as it is. -/
lemma commit_at (hsplit : cs = pre ++ c :: post)
    (hc : Commits (apiStore.after (cs₀ ++ pre)) c key) :
    ∃ l₁ f, life (apiStore.after (cs₀ ++ pre)) key = some l₁ ∧ l.Precedes l₁
      ∧ isPending l₁.status = true ∧ isPending f.status = false
      ∧ c.action = .finish f ∧ c.key f.id = key
      ∧ (f.instanceId = "" ∨ l₁.instanceId = f.instanceId) ∧ (∀ v ∈ f.version, v = l₁.version)
      ∧ life (apiStore.next (apiStore.after (cs₀ ++ pre)) c) key
        = some (l₁.finish c.now (f.items.map (c.key ·.1)) f) := by
  obtain ⟨l₁, l₂, hl₁, hle, hl₂, hlawful, hstep⟩ := life_at h hl hk hsplit
  have hpend := hc.1
  have hterm := hc.2
  rw [running_eq hl₁] at hpend
  rw [running_eq hl₂] at hterm
  have hstat := hlawful.2
  generalize apiStore.reply (apiStore.after (cs₀ ++ pre)) c = reply at hstep
  cases hstep with
  | idle =>
    simp [hpend] at hterm
  | @published id body t events hact hkey hpend₁ =>
    -- a publication leaves the response pending
    rw [Call.keepsStatus, hact] at hstat
    rw [Life.publish] at hterm
    split at hterm
    · simp [hpend] at hterm
    · rename_i hbody
      simp [hbody, hterm] at hstat
  | @finished f hact hkey hpend₁ hinst hver =>
    exact ⟨l₁, f, hl₁, hle, hpend, hterm, hact, hkey, hinst, hver, hl₂⟩

lemma exists_commit (hpend : isPending l.status = true)
    (hl' : life (apiStore.after (cs₀ ++ cs)) key = some l')
    (hterm : isPending l'.status = false) :
    ∃ pre c post, cs = pre ++ c :: post
      ∧ Commits (apiStore.after (cs₀ ++ pre)) c key := by
  induction cs using reverseRecOn generalizing l' with
  | nil =>
    rw [append_nil, hl, some.injEq] at hl'
    simp [hl', hterm] at hpend
  | append_singleton cs c ih =>
    have hk' : ∀ pre post, cs = pre ++ post →
        (apiStore.after (cs₀ ++ pre)).records key ≠ none := fun pre post hsplit =>
      hk pre (post ++ [c]) (by rw [hsplit, append_assoc])
    obtain ⟨l₁, -, hl₁, -⟩ := life_at h hl hk rfl
    rw [← append_assoc] at h
    cases hrun : isPending l₁.status with
    | true =>
      refine ⟨cs, c, [], rfl, by rw [running_eq hl₁, hrun], ?_⟩
      rw [← append_assoc, after_concat] at hl'
      rw [running_eq hl', hterm]
    | false =>
      obtain ⟨pre, c', post, hsplit, hcommit⟩ := ih h.left hk' hl₁ hrun
      exact ⟨pre, c', post ++ [c], by rw [hsplit]; simp, hcommit⟩

/-- The committed response, which every later state still has. -/
lemma committed_at (hsplit : cs = pre ++ c :: post)
    (hc : Commits (apiStore.after (cs₀ ++ pre)) c key) :
    ∃ l₂, life (apiStore.next (apiStore.after (cs₀ ++ pre)) c) key = some l₂
      ∧ isPending l₂.status = false ∧ l.Precedes l₂
      ∧ (∀ time ≤ c.now + l.replay * 1000, l₂.log.at time = l₂.log)
      ∧ ∀ mid post', post = mid ++ post' →
        life (apiStore.after (cs₀ ++ (pre ++ c :: mid))) key = some l₂ := by
  obtain ⟨l₁, f, hl₁, hle, hpend, hterm, -, -, -, -, hl₂⟩ := commit_at h hl hk hsplit hc
  refine ⟨_, hl₂, hterm, hle.trans (Life.precedes_of_pending hpend rfl rfl rfl), ?_, ?_⟩
  · intro time htime
    exact l₁.finish_log_at _ _ _ (by rw [hle.replay]; exact htime)
  · intro mid post' hpost
    rw [← after_concat, append_assoc] at hl₂
    have hmoments : cs = pre ++ [c] ++ mid ++ post' := by rw [hsplit, hpost]; simp
    obtain ⟨l₃, hl₃, hlater⟩ := life_between h hk hmoments hl₂
    rwa [hlater.terminal hterm, append_assoc pre] at hl₃

/-- A recovery does not commit behind an unread publication. -/
lemma not_commits_of_stale {mid' : List Call} {d c' : Call} {v n : ℕ}
    (hsplit : cs = pre ++ c :: mid ++ d :: mid' ++ c' :: post)
    (hsnap : Snapshots (apiStore.after (cs₀ ++ pre)) c key v n)
    (hpubl : Publishes (apiStore.after (cs₀ ++ (pre ++ c :: mid))) d key)
    (hact : c'.action = .finish f) (hver : f.version = some v) :
    ¬Commits (apiStore.after (cs₀ ++ (pre ++ c :: mid ++ d :: mid'))) c' key := by
  intro hc
  have hread₁ : cs = pre ++ c :: (mid ++ d :: mid' ++ c' :: post) := by rw [hsplit]; simp
  have hread₂ : cs = pre ++ c :: mid ++ (d :: mid' ++ c' :: post) := by rw [hsplit]; simp
  have hread₃ : cs = pre ++ c :: mid ++ [d] ++ mid' ++ c' :: post := by rw [hsplit]; simp
  obtain ⟨l₁, -, hl₁, -⟩ := life_at h hl hk hread₁
  obtain ⟨hread, -, -⟩ := hsnap.life hl₁
  obtain ⟨l₂, hl₂, hle₂⟩ := life_between h hk hread₂ hl₁
  -- the publication counts the version up
  obtain ⟨l₃, hl₃, hpub⟩ := hpubl.life hl₂
  rw [← after_concat, append_assoc] at hl₃
  obtain ⟨l₄, hl₄, hle₄⟩ := life_between h hk hread₃ hl₃
  obtain ⟨l₅, f', hl₅, -, -, -, hact', -, -, hver', -⟩ := commit_at h hl hk hsplit hc
  rw [append_assoc (pre ++ c :: mid), singleton_append, hl₅] at hl₄
  cases hl₄
  rw [hact, Action.finish.injEq] at hact'
  have hequal := hver' v (by rw [← hact', hver]; rfl)
  have h₂ := hle₂.version
  have h₄ := hle₄.version
  omega

section Numbers

variable (hlog : l.log = ⟨∅, none⟩)
  (hown : (cs.flatMap (ownNumbers key l.instanceId)).Pairwise (· < ·))
include hlog hown

lemma numbered_at (hsplit : cs = pre ++ post)
    (hl₁ : life (apiStore.after (cs₀ ++ pre)) key = some l₁)
    (hpend : isPending l₁.status = true) :
    Numbered l₁ (pre.flatMap (ownNumbers key l.instanceId)) := by
  induction pre using reverseRecOn generalizing post l₁ with
  | nil =>
    rw [append_nil, hl] at hl₁
    cases hl₁
    refine ⟨by rw [hlog], by rw [hlog]; exact nodup_nil, fun e he => ?_⟩
    rw [hlog] at he
    cases he
  | append_singleton pre c ih =>
    have hsplit' : cs = pre ++ c :: post := by rw [hsplit, append_assoc]; rfl
    obtain ⟨l₀, l₂, hl₀, hle, hl₂, hlawful, hstep⟩ := life_at h hl hk hsplit'
    rw [← append_assoc, after_concat, hl₂] at hl₁
    cases hl₁
    rw [flatMap_append, flatMap_singleton]
    generalize apiStore.reply (apiStore.after (cs₀ ++ pre)) c = reply at hstep
    cases hstep with
    | idle =>
      have hnum := ih hsplit' hl₀ hpend
      exact ⟨hnum.kept, hnum.distinct, fun e he =>
        mem_append_left _ (hnum.sent e he)⟩
    | @published id body t events hact hkey hpend₀ =>
      have hnumbers : ownNumbers key l.instanceId c = events.map Prod.fst := by
        rw [ownNumbers, hact]
        exact if_pos ⟨hkey, hle.owner⟩
      rw [hnumbers]
      refine (ih hsplit' hl₀ hpend₀).publish ?_ _ _ _
      rw [hsplit', flatMap_append, flatMap_cons, hnumbers, ← append_assoc] at hown
      exact (pairwise_append.mp hown).1
    | @finished f hact =>
      -- a completion does not leave the response pending
      have hstat := hlawful.2
      rw [Call.keepsStatus, hact] at hstat
      change isPending f.status = true at hpend
      simp [hpend] at hstat

variable (hrecov : Recovering (apiStore.after cs₀) cs key)
include hrecov

/-- The events of the completion follow those of the response. -/
lemma follows_at (hsplit : cs = pre ++ c :: post)
    (hl₁ : life (apiStore.after (cs₀ ++ pre)) key = some l₁) (hle : l.Precedes l₁)
    (hpend : isPending l₁.status = true) (hact : c.action = .finish f)
    (hkey : c.key f.id = key) (hinst : f.instanceId = "" ∨ l₁.instanceId = f.instanceId)
    (hver : ∀ v ∈ f.version, v = l₁.version) : Follows l₁ f.events := by
  have hnum := numbered_at h hl hk hlog hown hsplit hl₁ hpend
  by_cases hempty : f.instanceId = ""
  · -- a recovery: the version it read is still the version of the response
    obtain ⟨pre', c', mid, vn, number, text, hpre, hsnap, hread, hevts⟩ :=
      hrecov pre c post f hsplit hact hkey hempty
    have hsplit' : cs = pre' ++ c' :: (mid ++ c :: post) := by
      rw [hsplit, hpre, append_assoc, cons_append]
    obtain ⟨l', -, hl', -⟩ := life_at h hl hk hsplit'
    rw [← apiStore.after_append] at hsnap
    obtain ⟨hv, -, hnumber⟩ := hsnap.life hl'
    have hmoments : cs = pre' ++ c' :: mid ++ c :: post := by rw [← hpre, hsplit]
    obtain ⟨l₂, hl₂, hbetw⟩ := life_between h hk hmoments hl'
    rw [← hpre, hl₁] at hl₂
    cases hl₂
    have hsame : l₁ = l' := hbetw.same (by rw [← hv, hver vn hread])
    rw [hevts]
    refine ⟨pairwise_singleton _ _, fun e he g hg => ?_⟩
    rw [mem_singleton] at hg
    rw [hg, hnumber, ← hsame]
    exact hnum.lt_next he
  · have hsender : f.instanceId = l.instanceId :=
      (hinst.resolve_left hempty).symm.trans hle.owner
    have hnumbers : ownNumbers key l.instanceId c = f.events.map Prod.fst := by
      rw [ownNumbers, hact]
      exact if_pos ⟨hkey, hempty, hsender⟩
    rw [hsplit, flatMap_append, flatMap_cons, hnumbers, ← append_assoc] at hown
    exact hnum.follows (pairwise_append.mp hown).1

lemma numbered_of_committed (hsplit : cs = pre ++ c :: mid ++ post)
    (hc : Commits (apiStore.after (cs₀ ++ pre)) c key)
    (hact : c.action = .finish f)
    (hl' : life (apiStore.after (cs₀ ++ (pre ++ c :: mid))) key = some l') :
    l'.log.events.Distinct
      ∧ ∀ last ∈ f.events.getLast?, ∀ e ∈ l'.log.events.entries, e.1 ≤ last.1 := by
  have hsplit' : cs = pre ++ c :: (mid ++ post) := by rw [hsplit, append_assoc]; rfl
  obtain ⟨l₁, f', hl₁, hle, hpend, -, hact', hkey, hinst, hver, hl₂⟩ :=
    commit_at h hl hk hsplit' hc
  rw [hact, Action.finish.injEq] at hact'
  subst hact'
  have hfol := follows_at h hl hk hlog hown hrecov hsplit' hl₁ hle hpend hact hkey hinst hver
  obtain ⟨l₂, hl₂', -, -, -, hlater⟩ := committed_at h hl hk hsplit' hc
  rw [hl₂, some.injEq] at hl₂'
  have hnow := hlater mid post rfl
  rw [hl', some.injEq] at hnow
  rw [hnow, ← hl₂']
  exact (numbered_at h hl hk hlog hown hsplit' hl₁ hpend).finish hfol c.now _

lemma distinct_at (hpend : isPending l.status = true) (hsplit : cs = pre ++ post)
    (hl' : life (apiStore.after (cs₀ ++ pre)) key = some l') :
    l'.log.events.Distinct := by
  cases hended : isPending l'.status with
  | true => exact (numbered_at h hl hk hlog hown hsplit hl' hended).distinct
  | false =>
    have hpre : apiStore.Along Lawful apiStore.init (cs₀ ++ pre) := by
      rw [hsplit, ← append_assoc] at h
      exact h.left
    have hkpre : ∀ pre₁ post₁, pre = pre₁ ++ post₁ →
        (apiStore.after (cs₀ ++ pre₁)).records key ≠ none := fun pre₁ post₁ heq =>
      hk pre₁ (post₁ ++ post) (by rw [hsplit, heq, append_assoc])
    obtain ⟨pre', c, mid, heq, hc⟩ := exists_commit hpre hl hkpre hpend hl' hended
    obtain ⟨-, f, -, -, -, -, hact, -⟩ := commit_at hpre hl hkpre heq hc
    subst heq
    exact (numbered_of_committed h hl hk hlog hown hrecov hsplit hc hact hl').1

end Numbers

end Run

/-! ### The result -/

/-- **A terminal response is immutable and has a single winner.** As long as the response
is not dropped, one call at most ends it, and from then on its body, its status, its
lists and, until the replay period is over, its replay events stay as they are. A
completion that loses returns the committed body, a publication that loses is refused,
and a recovery whose version was read before a publication never commits. When the
executing instance numbers its events in order, no two replay events have one number and
none follows the terminal event. -/
theorem terminal_response_immutable {cs₀ cs : List Call} {c₀ : Call} {new : NewResponse}
    {value : Value} (h : apiStore.Along Lawful apiStore.init (cs₀ ++ [c₀] ++ cs))
    (haction : c₀.action = .begin new)
    (hreply : apiStore.reply (apiStore.after cs₀) c₀ = .ok value)
    (hk : ∀ pre post, cs = pre ++ post →
      (apiStore.after (cs₀ ++ [c₀] ++ pre)).records (c₀.key new.id) ≠ none) :
    let key := c₀.key new.id
    let state := fun pre => apiStore.after (cs₀ ++ [c₀] ++ pre)
    (∀ pre c mid c' post, cs = pre ++ c :: mid ++ c' :: post → Commits (state pre) c key →
      ¬Commits (state (pre ++ c :: mid)) c' key)
    ∧ (∀ pre c post, cs = pre ++ c :: post → Commits (state pre) c key →
      ∃ l, life (state (pre ++ [c])) key = some l
        ∧ (∀ time ≤ c.now + new.replay * 1000, l.log.at time = l.log)
        ∧ ∀ mid post', post = mid ++ post' →
          life (state (pre ++ c :: mid)) key = some l
          ∧ (∀ d f, d.action = .finish f → d.key f.id = key →
            f.instanceId = "" ∨ f.instanceId = new.instanceId →
            apiStore.reply (state (pre ++ c :: mid)) d = .ok (.text l.body))
          ∧ ∀ d id body status events,
            d.action = .publish id new.instanceId body status events → d.key id = key →
            apiStore.reply (state (pre ++ c :: mid)) d = .responseBusy)
    ∧ (∀ pre c mid d mid' c' post version number f,
      cs = pre ++ c :: mid ++ d :: mid' ++ c' :: post →
      Snapshots (state pre) c key version number → Publishes (state (pre ++ c :: mid)) d key →
      c'.action = .finish f → f.version = some version →
      ¬Commits (state (pre ++ c :: mid ++ d :: mid')) c' key)
    ∧ ((cs.flatMap (ownNumbers key new.instanceId)).Pairwise (· < ·) →
      Recovering (apiStore.after (cs₀ ++ [c₀])) cs key →
      ∀ pre post l, cs = pre ++ post → life (state pre) key = some l →
        l.log.events.Distinct
        ∧ ∀ pre' c post' f, pre = pre' ++ c :: post' → Commits (state pre') c key →
          c.action = .finish f → ∀ last ∈ f.events.getLast?, ∀ e ∈ l.log.events.entries,
            e.1 ≤ last.1) := by
  intro key state
  obtain ⟨l₀, hl₀, hqueued, howner, hreplay, hlog⟩ := begin_life haction hreply
  rw [← apiStore.after_concat] at hl₀
  obtain ⟨⟨-, hnew⟩, -⟩ := h.left.right.1.1.begin haction
  rw [run_silent cs₀ _ hnew] at hlog
  rw [← howner, ← hreplay]
  refine ⟨?_, ?_, ?_, ?_⟩
  · intro pre c mid c' post hsplit hc hc'
    have hsplit' : cs = pre ++ c :: (mid ++ c' :: post) := by rw [hsplit]; simp
    obtain ⟨l, -, hterminal, -, -, hlater⟩ := committed_at h hl₀ hk hsplit' hc
    have hrunning := hc'.1
    rw [running_eq (hlater mid _ rfl), hterminal] at hrunning
    cases hrunning
  · intro pre c post hsplit hc
    obtain ⟨l, hl, hterminal, hle, hkept, hlater⟩ := committed_at h hl₀ hk hsplit hc
    rw [← hle.owner]
    refine ⟨l, hlater [] post rfl, hkept, fun mid post' hpost => ⟨hlater mid post' hpost, ?_, ?_⟩⟩
    · intro d f hfinish hkey hinstance
      exact reply_finish_of_terminal (hkey ▸ hlater mid post' hpost) hfinish hterminal hinstance
    · intro d id body status events hpublish hkey
      rw [reply_publish (hkey ▸ hlater mid post' hpost) hpublish, hterminal]
      rfl
  · intro pre c mid d mid' c' post version number f hsplit hsnapshot hpublish hfinish hversion
    exact not_commits_of_stale h hl₀ hk hsplit hsnapshot hpublish hfinish hversion
  · intro hown hrecovery pre post l hsplit hl
    refine ⟨distinct_at h hl₀ hk hlog hown hrecovery (by rw [hqueued]; rfl) hsplit hl, ?_⟩
    intro pre' c post' f hpre hc hfinish
    subst hpre
    exact (numbered_of_committed h hl₀ hk hlog hown hrecovery hsplit hc hfinish hl).2

theorem terminal_response_immutable_failed :
    apiStore.reply (apiStore.after ([createCall] ++ [beginCall] ++ turnCalls.tail))
        (frontendCall 6 (.finish ⟨"resp", "", some 2, "failed", "failed", [], [(1, "failed")]⟩))
      = .ok (.text "done") := by
  have h : apiStore.Along Lawful apiStore.init ([createCall] ++ [beginCall] ++ turnCalls.tail) := by
    decide
  have hreply : apiStore.reply (apiStore.after [createCall]) beginCall
      = .ok (.rows [("item1", "a"), ("item2", "b"), ("copy3", "a")]) := by decide
  have hpresent : ∀ pre ∈ turnCalls.tail.inits, (apiStore.after
      ([createCall] ++ [beginCall] ++ pre)).records ⟨"svc:", "resp"⟩ ≠ none := by decide
  obtain ⟨-, hcommit, -, -⟩ := terminal_response_immutable h rfl hreply fun pre post hsplit =>
    hpresent pre ((mem_inits _ _).mpr ⟨post, hsplit.symm⟩)
  obtain ⟨l, hl, -, hlater⟩ := hcommit (turnCalls.tail.take 1) _ _ rfl (by decide)
  have hbody : (life (apiStore.after ([createCall] ++ [beginCall]
      ++ turnCalls.tail.take 2)) ⟨"svc:", "resp"⟩).map Life.body = some "done" := by decide
  obtain ⟨-, hfinish, -⟩ := hlater _ [] (append_nil _).symm
  refine (hfinish _ _ rfl rfl (.inl rfl)).trans ?_
  change life (apiStore.after ([createCall] ++ [beginCall] ++ turnCalls.tail.take 2))
    ⟨"svc:", "resp"⟩ = some l at hl
  rw [hl, map_some, some.injEq] at hbody
  rw [hbody]

/-- The replay events of a response are deleted before its record: with a replay period of
a minute and a retention of an hour, they are gone after two minutes. -/
theorem replay_events_deleted_before_record :
    ¬∀ (cs : List Call) (c d : Call) (key : Key),
      apiStore.Along Lawful apiStore.init (cs ++ [c, d]) →
      Commits (apiStore.after cs) c key → c.now ≤ d.now →
      (apiStore.after (cs ++ [c, d])).records key ≠ none →
      ((apiStore.after (cs ++ [c, d])).logs key).at d.now
        = ((apiStore.after (cs ++ [c])).logs key).at c.now := by
  intro hall
  have hsame := hall (createCall :: turnCalls.take 2)
    (frontendCall 4 (.finish ⟨"resp", "run", none, "done", "completed", [("msg", "c")],
      [(1, "completed")]⟩))
    (frontendCall 120000 .collect) ⟨"svc:", "resp"⟩ (by decide) (by decide) (by decide) (by decide)
  have hentries := congrArg (fun log : EventLog => log.events.entries) hsame
  exact absurd hentries (by decide)

end Foretoken.ApiStore
