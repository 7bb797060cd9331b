import Foretoken.Lib.Register
import Foretoken.RequestLedger.Records

/-!
The published configuration and membership.

The abstract model is a pair of registers in which the newest write wins. The fallback of the
membership revision to the published version is read only while both are empty
(`Settles.coupled`).
-/

namespace Foretoken.RequestLedger

open Option List

open Register

/-- What a call writes to the configuration register. -/
def Action.configMessage : Action → Option (ℕ × AdmissionConfig)
  | .publish version config _ _ => some (version, config)
  | _ => none

/-- What a call writes to the membership register. -/
def Action.memberMessage : Action → Option (ℕ × Finset String × Finset String)
  | .publish version _ frontends backends
  | .publishMembership version frontends backends =>
    some (version, frontends.toFinset, backends.toFinset)
  | _ => none

/-- The five fields of the hash are what the two registers hold. -/
structure Settles (s : Ledger) (config : Option (ℕ × AdmissionConfig))
    (members : Option (ℕ × Finset String × Finset String)) : Prop where
  version : s.version = config.map (·.1)
  config_eq : s.config = config.map (·.2)
  membershipVersion : s.membershipVersion = members.map (·.1)
  frontends : s.frontends = members.map (·.2.1)
  backends : s.backends = members.map (·.2.2)
  coupled : members = none → config = none

section Registers

variable {s : Ledger} {config : Option (ℕ × AdmissionConfig)}
  {members : Option (ℕ × Finset String × Finset String)}

section

variable (h : Settles s config members)
include h

lemma Settles.configRevision_lt (v : ℕ) :
    v > configRevision s ↔ config.all (·.1 < v) := by
  rw [configRevision, h.version]
  cases config with
  | none =>
    simp only [map_none, getD_none, all_none, iff_true]
    omega
  | some => simp

lemma Settles.membershipRevision_lt (v : ℕ) :
    v > membershipRevision s ↔ members.all (·.1 < v) := by
  rw [membershipRevision, h.membershipVersion]
  cases members with
  | none =>
    have hconf := h.configRevision_lt v
    rw [h.coupled rfl] at hconf
    simpa using hconf
  | some => simp

/-- The first half writes the configuration. -/
lemma Settles.publishConfig (v : ℕ) (c : AdmissionConfig) :
    (publishConfig s v (some c)).version = (write config (v, c)).map (·.1)
      ∧ (RequestLedger.publishConfig s v (some c)).config
        = (write config (v, c)).map (·.2) := by
  simp only [RequestLedger.publishConfig, write, h.configRevision_lt]
  split_ifs
  · exact ⟨rfl, rfl⟩
  · exact ⟨h.version, h.config_eq⟩

/-- The second half writes the membership. -/
lemma Settles.publishMembers {config' : Option (ℕ × AdmissionConfig)} {s₁ : Ledger}
    (hframe : ∃ v c, s₁ = { s with version := v, config := c })
    (hver : s₁.version = config'.map (·.1)) (hconf : s₁.config = config'.map (·.2)) (vn : ℕ)
    (fs bs : Finset String) :
    Settles (if vn > membershipRevision s then
        RequestLedger.publishMembers s₁ vn fs bs else s₁)
      config' (write members (vn, fs, bs)) := by
  simp only [write, h.membershipRevision_lt]
  split_ifs with hnew
  · obtain ⟨m, records, hmems, -⟩ := publishMembers_frame s₁ vn fs bs
    rw [hmems]
    exact ⟨hver, hconf, rfl, rfl, rfl, fun h => by cases h⟩
  · obtain ⟨v, c, rfl⟩ := hframe
    -- an empty register would have taken the write
    exact ⟨hver, hconf, h.membershipVersion, h.frontends, h.backends, fun hnone => by
      simp [hnone] at hnew⟩

end

/-- A call that publishes nothing leaves the five fields alone. -/
lemma settings_kept {s : Ledger} (id : String) {a : Action} (h : a.publishes = false) :
    (transition s id a).1.version = s.version ∧ (transition s id a).1.config = s.config
      ∧ (transition s id a).1.membershipVersion = s.membershipVersion
      ∧ (transition s id a).1.frontends = s.frontends
      ∧ (transition s id a).1.backends = s.backends := by
  have hloop : ∀ plan (s₁ : Ledger), (rewriteAll plan s₁).version = s₁.version
      ∧ (rewriteAll plan s₁).config = s₁.config
      ∧ (rewriteAll plan s₁).membershipVersion = s₁.membershipVersion
      ∧ (rewriteAll plan s₁).frontends = s₁.frontends
      ∧ (rewriteAll plan s₁).backends = s₁.backends := by
    intro plan s₁
    obtain ⟨m, records, hframe, -⟩ := rewriteAll_frame plan s₁
    rw [hframe]
    exact ⟨rfl, rfl, rfl, rfl, rfl⟩
  have he := transition_effect s id a
  generalize (transition s id a).1 = s' at he ⊢
  generalize (transition s id a).2 = reply at he
  cases he with
  | recover =>
    obtain ⟨m, hm⟩ := raiseEpoch_frame s _ _
    rw [finishBackendSlots_eq, hm]
    exact hloop _ _
  | publish | publishMembership => cases h
  | register =>
    rw [retireFrontends_eq]
    exact hloop _ _
  | accept =>
    obtain ⟨m, hm⟩ := raiseEpoch_frame _ _ _
    rw [hm]
    exact ⟨rfl, rfl, rfl, rfl, rfl⟩
  | _ => exact ⟨rfl, rfl, rfl, rfl, rfl⟩

lemma Settles.next (h : Settles s config members) (c : Command) :
    Settles (ledger.next s c) (c.action.configMessage.elim config (write config))
      (c.action.memberMessage.elim members (write members)) := by
  obtain ⟨id, action⟩ := c
  cases hpub : action.publishes with
  | false =>
    obtain ⟨hv, hc, hm, hf, hb⟩ := settings_kept id hpub
    have hnone : action.configMessage = none ∧ action.memberMessage = none := by
      cases action <;> first | exact ⟨rfl, rfl⟩ | cases hpub
    rw [hnone.1, hnone.2]
    exact ⟨hv.trans h.version, hc.trans h.config_eq, hm.trans h.membershipVersion,
      hf.trans h.frontends, hb.trans h.backends, h.coupled⟩
  | true =>
    cases action <;> cases hpub
    · rename_i v c fs bs
      obtain ⟨hv, hc⟩ := h.publishConfig v c
      exact h.publishMembers (publishConfig_frame s v (some c)) hv hc v
        fs.toFinset bs.toFinset
    · rename_i v fs bs
      exact h.publishMembers ⟨s.version, s.config, rfl⟩ h.version h.config_eq v
        fs.toFinset bs.toFinset

end Registers

/-- The messages of a run for the configuration register. -/
def configMessages (cs : List Command) : List (ℕ × AdmissionConfig) :=
  cs.filterMap (·.action.configMessage)

/-- The messages of a run for the membership register. -/
def memberMessages (cs : List Command) : List (ℕ × Finset String × Finset String) :=
  cs.filterMap (·.action.memberMessage)

lemma writes_filterMap_concat {α : Type*} (f : Command → Option (ℕ × α)) (cs : List Command)
    (c : Command) :
    writes ((cs ++ [c]).filterMap f)
      = (f c).elim (writes (cs.filterMap f)) (write (writes (cs.filterMap f))) := by
  cases h : f c with
  | none => simp [h]
  | some => simp [h, writes_concat]

/-- **The hash refines two registers.** After every run the configuration and the
membership are what newest-wins registers hold after its messages. -/
theorem settles_run (cs : List Command) :
    Settles (ledger.after cs) (writes (configMessages cs)) (writes (memberMessages cs)) := by
  induction cs using reverseRecOn with
  | nil => exact ⟨rfl, rfl, rfl, rfl, rfl, fun _ => rfl⟩
  | append_singleton cs c ih =>
    rw [Machine.after_concat, configMessages, memberMessages, writes_filterMap_concat,
      writes_filterMap_concat]
    exact ih.next c

/-! ### Members next to a configuration -/

section

variable {s : Ledger} (hs : ledger.Reachable s) (h : s.config ≠ none)
include hs h

lemma members_of_config :
    s.frontends ≠ none ∧ s.backends ≠ none := by
  obtain ⟨cs, rfl⟩ := hs
  have hrun := settles_run cs
  have hmems : writes (memberMessages cs) ≠ none := by
    intro hnone
    rw [hrun.config_eq, hrun.coupled hnone] at h
    exact h rfl
  rw [hrun.frontends, hrun.backends]
  simpa using hmems

/-- The settings a call finds under a published configuration. -/
lemma settings_of_config :
    ∃ config frontends backends, s.config = some config ∧ s.frontends = some frontends
      ∧ s.backends = some backends := by
  obtain ⟨hfront, hback⟩ := members_of_config hs h
  obtain ⟨config, hconf⟩ := ne_none_iff_exists'.mp h
  obtain ⟨frontends, hfront⟩ := ne_none_iff_exists'.mp hfront
  obtain ⟨backends, hback⟩ := ne_none_iff_exists'.mp hback
  exact ⟨config, frontends, backends, hconf, hfront, hback⟩

end

lemma config_next {s : Ledger} (c : Command) (h : s.config ≠ none) :
    (ledger.next s c).config ≠ none := by
  obtain ⟨id, action⟩ := c
  change (transition s id action).1.config ≠ none
  cases hpub : action.publishes with
  | false =>
    rwa [(settings_kept id hpub).2.1]
  | true =>
    have hconf : ∀ v config, (publishConfig s v config).config ≠ none := by
      intro v config
      cases config with
      | none => exact h
      | some =>
        rw [publishConfig]
        split_ifs
        · simp
        · exact h
    have hpubl : ∀ v config fs bs,
        (publish s v config fs bs).config ≠ none := by
      intro v config fs bs
      rw [publish]
      split_ifs
      · obtain ⟨m, records, hframe, -⟩ := publishMembers_frame (publishConfig s v config)
          v fs.toFinset bs.toFinset
        rw [hframe]
        exact hconf v config
      · exact hconf v config
    cases action <;> cases hpub <;> exact hpubl _ _ _ _

section Decoding

variable {s : Ledger} (id : String) (q : Request)

section

variable (hback : s.backends ≠ none)
include hback

lemma accept_decodes (k : ℕ) (slot : Slot) (o pod : String) (n : ℕ) :
    (accept s id q k slot o pod n).2 ≠ .scriptError := by
  obtain ⟨bs, hsome⟩ := ne_none_iff_exists'.mp hback
  fun_cases accept <;> simp_all

lemma slotted_decodes (a : Action) :
    (slotted s id q a).2 ≠ .scriptError := by
  fun_cases slotted <;> first | exact accept_decodes id q hback _ _ _ _ _ | simp

lemma recorded_decodes (config : AdmissionConfig) (fs : Finset String) (a : Action) :
    (recorded s config fs id a).2 ≠ .scriptError := by
  fun_cases recorded with
  | case4 => fun_cases retainCompletion <;> simp
  | case5 => fun_cases dispatch <;> simp
  | case6 => fun_cases retry <;> simp
  | case7 => exact slotted_decodes id _ hback _
  | _ => simp

end

lemma enqueue_decodes (config : AdmissionConfig) (fs : Finset String) (f : String)
    (n : ℕ) (u role : String) (units : ℕ) :
    (enqueue s config fs id f n u role units).2 ≠ .scriptError := by
  fun_cases enqueue <;> simp

lemma transition_decodes (hs : ledger.Reachable s) (a : Action) :
    (transition s id a).2 ≠ .scriptError := by
  have hpublished : (published s id a).2 ≠ .scriptError := by
    fun_cases published with
    | case1 => simp
    | case2 _ config hconf hnone => exact absurd hnone (members_of_config hs (by simp [hconf])).1
    | case3 => fun_cases allocateOwner <;> simp
    | case4 => fun_cases registerOwner <;> simp
    | case7 => exact enqueue_decodes id _ _ _ _ _ _ _
    | case10 config hconf | case11 config hconf =>
      exact recorded_decodes id (members_of_config hs (by simp [hconf])).2 _ _ _
    | _ => simp
  have hguarded : (guarded s id a).2 ≠ .scriptError := by
    rw [guarded]
    split_ifs
    · cases a <;> simp [guardReply]
    · exact hpublished
  cases a with
  | frontendActive f =>
    change frontendActive s f ≠ _
    fun_cases frontendActive <;> simp
  | finished =>
    change finished s id ≠ _
    fun_cases finished <;> simp
  | acknowledge =>
    change (acknowledge s id).2 ≠ _
    fun_cases acknowledge <;> simp
  | recoverBackend | publish | publishMembership | completedConsumers => simp [transition]
  | _ => exact hguarded

end Decoding

/-! ### Convergence -/

/-- A publication that was applied changes nothing again. -/
lemma next_applied {cs : List Command} {c : Command} (hc : c ∈ cs) (hpub : c.action.publishes) :
    ledger.next (ledger.after cs) c = ledger.after cs := by
  have hrun := settles_run cs
  generalize ledger.after cs = s at hrun ⊢
  have hmember : ∀ m, c.action.memberMessage = some m → ¬ m.1 > membershipRevision s := by
    intro m hm
    have hmem : m ∈ memberMessages cs := mem_filterMap.mpr ⟨c, hc, hm⟩
    obtain ⟨cur, hcur, hle⟩ := write_seen hmem
    rw [hrun.membershipRevision_lt, hcur]
    simpa using hle
  have hconf : ∀ m, c.action.configMessage = some m → ¬ m.1 > configRevision s := by
    intro m hm
    have hmem : m ∈ configMessages cs := mem_filterMap.mpr ⟨c, hc, hm⟩
    obtain ⟨cur, hcur, hle⟩ := write_seen hmem
    rw [hrun.configRevision_lt, hcur]
    simpa using hle
  obtain ⟨id, action⟩ := c
  cases action <;> cases hpub
  · change publish s _ _ _ _ = s
    rw [publish, if_neg (hmember _ rfl), publishConfig, if_neg (hconf _ rfl)]
  · change publish s _ _ _ _ = s
    rw [publish, if_neg (hmember _ rfl), publishConfig]

/-- The five fields hold the newest messages of a run. -/
structure HoldsNewest (cs : List Command) (s : Ledger) : Prop where
  config : configMessages cs = [] ∧ s.version = none ∧ s.config = none
    ∨ ∃ version config, IsNewest (configMessages cs) (version, config)
      ∧ s.version = some version ∧ s.config = some config
  members : memberMessages cs = [] ∧ s.membershipVersion = none ∧ s.frontends = none
      ∧ s.backends = none
    ∨ ∃ version frontends backends, IsNewest (memberMessages cs) (version, frontends, backends)
      ∧ s.membershipVersion = some version ∧ s.frontends = some frontends
      ∧ s.backends = some backends

lemma holdsNewest_run (cs : List Command) : HoldsNewest cs (ledger.after cs) := by
  have hrun := settles_run cs
  refine ⟨?_, ?_⟩
  · cases hw : writes (configMessages cs) with
    | none => exact .inl ⟨writes_eq_none.mp hw, by simp [hrun.version, hrun.config_eq, hw]⟩
    | some m =>
      exact .inr ⟨m.1, m.2, isNewest_of_writes hw, by simp [hrun.version, hrun.config_eq, hw]⟩
  · cases hw : writes (memberMessages cs) with
    | none =>
      exact .inl ⟨writes_eq_none.mp hw,
        by simp [hrun.membershipVersion, hrun.frontends, hrun.backends, hw]⟩
    | some m =>
      exact .inr ⟨m.1, m.2.1, m.2.2, isNewest_of_writes hw,
        by simp [hrun.membershipVersion, hrun.frontends, hrun.backends, hw]⟩

/-- The runs have applied the same publications. -/
def SamePublications (cs ds : List Command) : Prop :=
  ∀ action : Action, action.publishes →
    ((∃ c ∈ cs, c.action = action) ↔ ∃ c ∈ ds, c.action = action)

lemma SamePublications.mem_iff {cs ds : List Command} (h : SamePublications cs ds) {α : Type*}
    (f : Action → Option α) (hf : ∀ action m, f action = some m → action.publishes) (m : α) :
    m ∈ cs.filterMap (fun c => f c.action) ↔ m ∈ ds.filterMap fun c => f c.action := by
  have hiff : ∀ es : List Command, m ∈ es.filterMap (fun c => f c.action)
      ↔ ∃ action, f action = some m ∧ ∃ c ∈ es, c.action = action := by
    intro es
    grind
  rw [hiff, hiff]
  exact exists_congr fun action => and_congr_right fun hm => h action (hf action m hm)

/-- A version determines what a run publishes under it. -/
structure Consistent (cs : List Command) : Prop where
  config : ∀ m ∈ configMessages cs, ∀ m' ∈ configMessages cs, m.1 = m'.1 → m = m'
  members : ∀ m ∈ memberMessages cs, ∀ m' ∈ memberMessages cs, m.1 = m'.1 → m = m'

/-- **Configuration publication converges.** Two runs that apply the same publications,
in any order, with any repetition and among any other calls, end with the same
settings; these are the newest ones, a publication that comes again changes no
field, and where a configuration is present no action decodes missing members. -/
theorem publication_converges {cs ds : List Command} (hsame : SamePublications cs ds)
    (hcons : Consistent cs) :
    HoldsNewest cs (ledger.after cs)
      ∧ ((ledger.after cs).version = (ledger.after ds).version
        ∧ (ledger.after cs).config = (ledger.after ds).config
        ∧ (ledger.after cs).membershipVersion = (ledger.after ds).membershipVersion
        ∧ (ledger.after cs).frontends = (ledger.after ds).frontends
        ∧ (ledger.after cs).backends = (ledger.after ds).backends)
      ∧ (∀ c ∈ cs, c.action.publishes → ledger.next (ledger.after cs) c = ledger.after cs)
      ∧ ((ledger.after cs).config ≠ none → (ledger.after cs).frontends ≠ none
            ∧ (ledger.after cs).backends ≠ none)
      ∧ ∀ c, ledger.reply (ledger.after cs) c ≠ .scriptError := by
  have hconfig : writes (configMessages cs) = writes (configMessages ds) :=
    writes_congr hcons.config fun m => hsame.mem_iff Action.configMessage
      (fun action m hm => by cases action <;> first | rfl | cases hm) m
  have hmembers : writes (memberMessages cs) = writes (memberMessages ds) :=
    writes_congr hcons.members fun m => hsame.mem_iff Action.memberMessage
      (fun action m hm => by cases action <;> first | rfl | cases hm) m
  have hcs := settles_run cs
  have hds := settles_run ds
  rw [← hconfig, ← hmembers] at hds
  have hreach := Machine.reachable_after (M := ledger) cs
  exact ⟨holdsNewest_run cs,
    ⟨hcs.version.trans hds.version.symm, hcs.config_eq.trans hds.config_eq.symm,
      hcs.membershipVersion.trans hds.membershipVersion.symm,
      hcs.frontends.trans hds.frontends.symm, hcs.backends.trans hds.backends.symm⟩,
    fun c hc hpub => next_applied hc hpub, members_of_config hreach,
    fun c => transition_decodes c.id hreach c.action⟩

/-- Three publications, a newer configuration and a newer membership before older ones,
and the same three in another order and with a repetition. -/
theorem publication_converges_reordered :
    let p₁ : Command := ⟨"", .publish 1 {} ["f"] ["p"]⟩
    let p₂ : Command := ⟨"", .publish 2 { maxWaitingRequests := some 4 } ["f", "g"] ["p"]⟩
    let p₃ : Command := ⟨"", .publishMembership 3 ["g"] ["p", "q"]⟩
    (ledger.after [p₃, p₂, p₁]).config = (ledger.after [p₁, p₂, p₁, p₃]).config := by
  intro p₁ p₂ p₃
  have hsame : SamePublications [p₃, p₂, p₁] [p₁, p₂, p₁, p₃] := by
    intro action _
    simp only [mem_cons, not_mem_nil, or_false, exists_eq_or_imp, exists_eq_left]
    tauto
  exact (publication_converges hsame ⟨by decide, by decide⟩).2.1.2.1

end Foretoken.RequestLedger
