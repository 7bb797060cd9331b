import Foretoken.Cli.Mutation

/-!
Operations on one deployment exclude each other.

A patch in flight can set or clear the holder long after its process is gone, so the invariant
speaks of every operation with the patch it has sent: one that acquires was sent for a record
without a holder, and one that clears for a record of its own or of an operation that has exited.
-/

namespace Foretoken.Cli

open Function State Operation Option Stage Cell

/-- The operation is in its body or about to enter it, with a process left. -/
def Operation.Holding (op : Operation) (uid : ℕ) : Prop :=
  (op.stage = .entering uid ∨ op.stage = .body uid) ∧ op.Running

/-- The stages in which the process relies on its file. -/
def Stage.early : Stage → Bool
  | .waiting | .found .. | .opened .. | .recovering .. | .recovered _ => true
  | _ => false

/-- The patch of the operation would record it. -/
def Operation.Sets (op : Operation) (i : ℕ) : Prop := ∃ p ∈ op.stage.sent i, p.holder = some i

/-- A process that has exited reaches no active stage. -/
lemma Operation.exited_goto {stage : Stage} (op : Operation) (he : op.exited)
    (h : op.stage.isFinished → stage.isFinished) : { op with stage }.exited := by
  simp only [exited, Bool.and_eq_true, Bool.or_eq_true] at he ⊢
  exact he.imp_left (Or.imp_right h)

/-- A process that has exited does not rely on its file. -/
lemma Operation.not_early_of_exited {op : Operation} (he : op.exited) :
    ¬ (op.alive ∧ op.stage.early) := by
  rintro ⟨halive, hearly⟩
  simp only [exited, halive, Bool.not_true, Bool.false_or, Bool.and_eq_true] at he
  obtain ⟨hfinished, -⟩ := he
  cases hst : op.stage with
  | finished =>
    rw [hst] at hearly
    cases hearly
  | _ =>
    rw [hst] at hfinished
    cases hfinished

/-- The patch of a stage. -/
lemma Stage.sent_cases {stage : Stage} {i : ℕ} {p : Patch} (hp : stage.sent i = some p) :
    (∃ c, stage = .acquiring c ∧ p = ⟨c, some i⟩) ∨
    (∃ c owner, stage = .recovering c owner ∧ p = ⟨c, none⟩) ∨
    (∃ c, stage = .clearing c ∧ p = ⟨c, none⟩) ∨ stage = .finished (some p) := by
  cases stage with
  | acquiring c => exact .inl ⟨c, rfl, (some.inj hp).symm⟩
  | recovering c owner => exact .inr (.inl ⟨c, owner, rfl, (some.inj hp).symm⟩)
  | clearing c => exact .inr (.inr (.inl ⟨c, rfl, (some.inj hp).symm⟩))
  | finished => exact .inr (.inr (.inr (congrArg finished hp)))
  | _ => cases hp

/-- A patch that is applied makes no stage early. -/
lemma Stage.early_of_applied {stage : Stage} (h : stage.applied.early) : stage.early := by
  cases stage with
  | acquiring | clearing | finished => cases h
  | _ => exact h

/-- A patch that is applied is gone. -/
lemma Stage.sent_applied (stage : Stage) (i : ℕ) : stage.applied.sent i = none := by
  cases stage <;> rfl

namespace State

/-- The operation holds the instance. -/
def Holds (s : State) (i uid : ℕ) : Prop := ∃ op ∈ s.operation i, op.Holding uid

/-- A patch is on its way that would record the operation. -/
def Sets (s : State) (i : ℕ) : Prop := ∃ op ∈ s.operation i, op.Sets i

/-- No instance has the operation for its holder. -/
def Idle (s : State) (i : ℕ) : Prop := ∀ uid, ¬ s.Recorded i uid

end State

/-- A patch that was sent: it records an operation that is not recorded, or clears the record of
its own operation or of one that has exited. -/
structure Patch.Sound (s : State) (i : ℕ) (p : Patch) : Prop where
  seen : s.deployment.Seen p.current
  effect : (p.holder = some i ∧ p.current.value.holder = none ∧ s.Idle i) ∨
    (p.holder = none ∧ ∃ h, p.current.value.holder = some h ∧ (h = i ∨ s.Exited h))

/-- What an operation knows in each stage. -/
def Stage.Sound (s : State) (i : ℕ) (op : Operation) : Stage → Prop
  | .waiting | .released => s.Idle i
  | .found current owner | .opened current owner =>
    s.Idle i ∧ s.deployment.Seen current ∧ current.value.holder = some owner
  | .recovering current owner =>
    s.Idle i ∧ s.deployment.Seen current ∧ current.value.holder = some owner ∧ s.Exited owner
  | .recovered owner => s.Idle i ∧ s.Exited owner ∧ s.Idle owner ∧ ¬ s.Sets owner
  | .acquiring current => s.Idle i ∧ s.deployment.Seen current ∧ current.value.holder = none
  | .entering uid | .body uid => uid ≤ s.deployment.issued ∧ (∀ v, s.Recorded i v → v = uid) ∧
    (op.Running → ∀ o ∈ s.deployment.object, o.uid = uid → o.value.holder = some i)
  | .releasing uid => ∀ v, s.Recorded i v → v = uid
  | .clearing current => (∀ v, s.Recorded i v → v = current.uid) ∧ s.deployment.Seen current ∧
    current.value.holder = some i
  | .finished sent => ∀ p ∈ sent, p.Sound s i

/-- What holds of an operation in a state. -/
structure Operation.Sound (s : State) (i : ℕ) (op : Operation) : Prop where
  file : (op.alive ∧ op.stage.early) ∨ (∃ uid, s.Recorded i uid) ∨ op.Sets i → s.file i
  stage : op.stage.Sound s i op

/-- **The invariant.** -/
structure Inv (s : State) : Prop where
  sound : ∀ i, ∀ op ∈ s.operation i, op.Sound s i
  known : ∀ i uid, s.Recorded i uid → s.operation i ≠ none
  exclusive : ∀ i j uid, s.Holds i uid → s.Holds j uid → i = j

/-! ### What a step leaves to the others -/

/-- A step of the operation `i`, or of the server on its behalf, as the others see it. -/
structure Advance (s s' : State) (i : ℕ) : Prop where
  later : s.deployment.Later s'.deployment
  same : ∀ j ≠ i, s'.operation j = s.operation j ∧ s'.file j = s.file j
  known : s'.operation i = none → s.operation i = none
  exited : s.Exited i → s'.Exited i ∧ (s'.Sets i → s.Sets i)
  /-- Only a patch of its own records an operation, and is gone then. -/
  marks : ∀ h uid, s'.Recorded h uid → s.Recorded h uid ∨ (s.Sets h ∧ ¬ s'.Sets h)
  kept : ∀ h uid, s.Holds h uid → uid ≤ s.deployment.issued →
    (∀ o ∈ s.deployment.object, o.uid = uid → o.value.holder = some h) →
    ∀ o ∈ s'.deployment.object, o.uid = uid → o.value.holder = some h
  holds : ∀ uid, s'.Holds i uid → s.Holds i uid ∨
    ∃ o ∈ s.deployment.object, o.uid = uid ∧ o.value.holder = none

section Frame

variable {s s' : State} {i j h uid : ℕ} {op op' : Operation} {stage : Stage} {p : Patch}

lemma Advance.exited_of (ha : Advance s s' i) (he : s.Exited h) :
    s'.Exited h ∧ (s'.Sets h → s.Sets h) := by
  by_cases hh : h = i
  · subst hh
    exact ha.exited he
  · rw [State.Exited, State.Sets, (ha.same h hh).1]
    exact ⟨he, id⟩

lemma Patch.Sound.advance (hp : p.Sound s j) (ha : Advance s s' i) (hidle : s.Idle j → s'.Idle j) :
    p.Sound s' j := by
  refine ⟨hp.seen.later ha.later, hp.effect.imp ?_ ?_⟩
  · rintro ⟨hset, hnone, hj⟩
    exact ⟨hset, hnone, hidle hj⟩
  · rintro ⟨hclear, h, hh, hexit⟩
    exact ⟨hclear, h, hh, hexit.imp_right fun he => (ha.exited_of he).1⟩

/-- An idle operation that asks for nothing is not recorded. -/
lemma Advance.idle_of (ha : Advance s s' i) (hidle : s.Idle h) (hsets : ¬ s.Sets h) : s'.Idle h :=
  fun uid hr => (ha.marks h uid hr).elim (hidle uid) fun hset => hsets hset.1

/-- What is sound stays so, without a new record or hold. -/
lemma Operation.Sound.advance (hs : op.Sound s j) (ha : Advance s s' i)
    (hfile : s'.file j = s.file j) (hrec : ∀ uid, s'.Recorded j uid → s.Recorded j uid)
    (hholds : ∀ uid, op.Holding uid → s.Holds j uid) : op.Sound s' j := by
  have hidle : s.Idle j → s'.Idle j := fun hidle uid hr => hidle uid (hrec uid hr)
  have hv : ∀ {uid}, (∀ v, s.Recorded j v → v = uid) → ∀ v, s'.Recorded j v → v = uid :=
    fun hv v hr => hv v (hrec v hr)
  have hseen : ∀ {o}, s.deployment.Seen o → s'.deployment.Seen o := fun h => h.later ha.later
  refine ⟨fun hneeds => ?_, ?_⟩
  · rw [hfile]
    refine hs.file (hneeds.imp_right (Or.imp_left ?_))
    rintro ⟨uid, hr⟩
    exact ⟨uid, hrec uid hr⟩
  have hstage := hs.stage
  revert hstage
  cases hst : op.stage with
  | waiting | released => exact hidle
  | found | opened | acquiring =>
    rintro ⟨hj, hcurrent, hholder⟩
    exact ⟨hidle hj, hseen hcurrent, hholder⟩
  | recovering =>
    rintro ⟨hj, hcurrent, hholder, he⟩
    exact ⟨hidle hj, hseen hcurrent, hholder, (ha.exited_of he).1⟩
  | recovered =>
    rintro ⟨hj, he, howner, hsets⟩
    obtain ⟨he', hsets'⟩ := ha.exited_of he
    exact ⟨hidle hj, he', ha.idle_of howner hsets, fun hset => hsets (hsets' hset)⟩
  | entering uid =>
    rintro ⟨hle, huid, hkept⟩
    exact ⟨hle.trans ha.later.issued, hv huid, fun hrun =>
      ha.kept j uid (hholds uid ⟨.inl hst, hrun⟩) hle (hkept hrun)⟩
  | body uid =>
    rintro ⟨hle, huid, hkept⟩
    exact ⟨hle.trans ha.later.issued, hv huid, fun hrun =>
      ha.kept j uid (hholds uid ⟨.inr hst, hrun⟩) hle (hkept hrun)⟩
  | releasing => exact hv
  | clearing =>
    rintro ⟨huid, hcurrent, hholder⟩
    exact ⟨hv huid, hseen hcurrent, hholder⟩
  | finished =>
    intro hsent p hp
    exact (hsent p hp).advance ha hidle

lemma Stage.Sound.patch (hs : stage.Sound s i op) (hp : p ∈ stage.sent i) : p.Sound s i := by
  rcases sent_cases hp with ⟨c, rfl, rfl⟩ | ⟨c, owner, rfl, rfl⟩ | ⟨c, rfl, rfl⟩ | rfl
  · exact ⟨hs.2.1, .inl ⟨rfl, hs.2.2, hs.1⟩⟩
  · exact ⟨hs.2.1, .inr ⟨rfl, owner, hs.2.2.1, .inr hs.2.2.2⟩⟩
  · exact ⟨hs.2.1, .inr ⟨rfl, i, hs.2.2, .inl rfl⟩⟩
  · exact hs p rfl

/-- An operation that holds an instance is its holder. -/
lemma Inv.holder (hi : Inv s) (hh : s.Holds h uid) :
    ∀ o ∈ s.deployment.object, o.uid = uid → o.value.holder = some h := by
  obtain ⟨op, hop, hst, hrun⟩ := hh
  have hstage := (hi.sound h op hop).stage
  rcases hst with hst | hst
  all_goals
    rw [hst] at hstage
    exact hstage.2.2 hrun

/-- **The frame rule**: only the operation itself is to be checked. -/
lemma Inv.advance (hi : Inv s) (ha : Advance s s' i)
    (hown : ∀ op ∈ s'.operation i, op.Sound s' i) : Inv s' where
  sound j op hop := by
    by_cases hj : j = i
    · subst hj
      exact hown op hop
    obtain ⟨hsame, hfile⟩ := ha.same j hj
    have hold : op ∈ s.operation j := hsame ▸ hop
    refine (hi.sound j op hold).advance ha hfile (fun uid hr => ?_) fun uid hh => ⟨op, hold, hh⟩
    refine (ha.marks j uid hr).resolve_right ?_
    rintro ⟨hset, hnot⟩
    rw [State.Sets, hsame] at hnot
    exact hnot hset
  known j uid hr := by
    have hold : s.operation j ≠ none := by
      rcases ha.marks j uid hr with hr | ⟨⟨op, hop, -⟩, -⟩
      · exact hi.known j uid hr
      · exact ne_none_iff_exists'.mpr ⟨op, hop⟩
    by_cases hj : j = i
    · subst hj
      exact fun hnone => hold (ha.known hnone)
    · rwa [(ha.same j hj).1]
  exclusive j k uid hj hk := by
    -- at most the operation itself is new, and then nobody else holds the instance
    have hnew : ∀ j, s'.Holds j uid → s.Holds j uid ∨ j = i ∧
        ∃ o ∈ s.deployment.object, o.uid = uid ∧ o.value.holder = none := by
      intro j hj
      by_cases hji : j = i
      · subst hji
        exact (ha.holds uid hj).imp_right fun ho => ⟨rfl, ho⟩
      · rw [Holds, (ha.same j hji).1] at hj
        exact .inl hj
    rcases hnew j hj with hj | ⟨rfl, o, ho, huid, hnone⟩ <;>
      rcases hnew k hk with hk | ⟨rfl, o', ho', huid', hnone'⟩
    · exact hi.exclusive j k uid hj hk
    · cases hnone'.symm.trans (hi.holder hj o' ho' huid')
    · cases hnone.symm.trans (hi.holder hk o ho huid)
    · rfl

/-- One operation changes, without taking hold. -/
lemma Inv.set (hi : Inv s) (hop : op ∈ s.operation i)
    (hexit : op.exited → op'.exited ∧ (op'.Sets i → op.Sets i))
    (hheld : ∀ uid, op'.Holding uid → op.Holding uid) (hs : op'.Sound s i) :
    Inv (s.set i op') := by
  have hself : (s.set i op').operation i = some op' := update_self ..
  have ha : Advance s (s.set i op') i := by
    refine ⟨⟨le_rfl, fun _ ho _ => ho⟩, fun j hj => ⟨update_of_ne hj .., rfl⟩, ?_, ?_,
      fun _ _ hr => .inl hr, fun _ _ _ _ hk => hk, ?_⟩
    · intro hnone
      cases hself.symm.trans hnone
    · rintro ⟨q, hq, he⟩
      obtain rfl := mem_unique hop hq
      refine ⟨⟨op', hself, (hexit he).1⟩, ?_⟩
      rintro ⟨q', hq', hset⟩
      obtain rfl := mem_unique hself hq'
      exact ⟨op, hop, (hexit he).2 hset⟩
    · rintro uid ⟨q, hq, hh⟩
      obtain rfl := mem_unique hself hq
      exact .inl ⟨op, hop, hheld uid hh⟩
  refine hi.advance ha fun _ hop₂ => ?_
  obtain rfl := mem_unique hself hop₂
  exact hs.advance ha rfl (fun _ hr => hr) fun uid hh => ⟨op, hop, hheld uid hh⟩

/-- The file of an operation that does not rely on it is deleted. -/
lemma Inv.unlink (hi : Inv s) (hop : op ∈ s.operation i) (hgone : ¬ (op.alive ∧ op.stage.early))
    (hidle : s.Idle i) (hsets : ¬ op.Sets i) : Inv (s.unlink i) where
  sound j op' hop' := by
    have hs := hi.sound j op' hop'
    refine ⟨fun hneeds => ?_, ?_⟩
    · by_cases hj : j = i
      · subst hj
        obtain rfl := mem_unique hop hop'
        rcases hneeds with hneeds | ⟨uid, hr⟩ | hneeds
        · exact absurd hneeds hgone
        · exact absurd hr (hidle uid)
        · exact absurd hneeds hsets
      · exact (update_of_ne hj ..).trans (hs.file hneeds)
    · have hstage := hs.stage
      revert hstage
      cases op'.stage with
      | finished => exact fun hsent p hp => ⟨(hsent p hp).seen, (hsent p hp).effect⟩
      | _ => exact id
  known := hi.known
  exclusive := hi.exclusive

end Frame

/-! ### The steps of a process -/

section Process

variable {s : State} {i uid : ℕ} {op : Operation} {old stage : Stage} {pin : Option ℕ}

/-- A process or a child of it comes to its end. -/
lemma Operation.Sound.processes {alive : Bool} {children : ℕ} (hs : op.Sound s i)
    (halive : alive → op.alive) (hrun : alive ∨ 0 < children → op.Running) :
    Sound s i { op with alive, children } := by
  refine ⟨fun hneeds => hs.file (hneeds.imp_left (And.imp_left halive)), ?_⟩
  have hstage := hs.stage
  revert hstage
  change op.stage.Sound s i op → op.stage.Sound s i { op with alive, children }
  cases op.stage with
  | entering | body =>
    rintro ⟨hle, huid, hkept⟩
    exact ⟨hle, huid, fun hany => hkept (hrun hany)⟩
  | _ => exact id

variable (hi : Inv s) (hop : op ∈ s.operation i) (halive : op.alive)

include hi hop halive

/-- A process that is not through goes on to another stage. -/
lemma Inv.goto (hst : op.stage = old) (hlive : old.isFinished = false)
    (hfile : stage.early ∨ (∃ p ∈ stage.sent i, p.holder = some i) → s.file i)
    (hheld : ∀ uid, stage = .entering uid ∨ stage = .body uid → old = .entering uid)
    (hstage : stage.Sound s i op) : Inv (s.goto i { op with uid := pin } stage) := by
  refine hi.set hop (fun he => ?_) (fun uid hh => ⟨.inl ?_, hh.2⟩) ⟨?_, hstage⟩
  · simp [exited, halive, hst, hlive] at he
  · exact hst.trans (hheld uid hh.1)
  · rintro (⟨-, hearly⟩ | hr | hset)
    · exact hfile (.inl hearly)
    · exact (hi.sound i op hop).file (.inr (.inl hr))
    · exact hfile (.inr hset)

/-- A process that is not recorded gives up its file. -/
lemma Inv.quit (hst : op.stage = old) (hlive : old.isFinished = false) (hidle : s.Idle i)
    (hno : ∀ p ∈ old.sent i, p.holder ≠ some i) :
    Inv ((s.goto i op (.finished (old.sent i))).unlink i) := by
  have hsets : ¬ ∃ p ∈ old.sent i, p.holder = some i := fun ⟨p, hp, hset⟩ => hno p hp hset
  have hgoto : Inv (s.goto i op (.finished (old.sent i))) := by
    refine hi.goto hop halive hst hlive (fun hneeds => ?_) nofun fun p hp => ?_
    · exact absurd (hneeds.resolve_left nofun) hsets
    · exact (hi.sound i op hop).stage.patch (hst ▸ hp)
  exact hgoto.unlink (update_self ..) nofun hidle hsets

/-- A process that gives up leaves a sound state. -/
lemma Inv.fail : Inv (s.fail i op) := by
  have hs := hi.sound i op hop
  have hstage := hs.stage
  rw [State.fail]
  cases hst : op.stage with
  | waiting =>
    rw [hst] at hstage
    exact hi.quit hop halive hst rfl hstage nofun
  | found | opened | recovered =>
    rw [hst] at hstage
    exact hi.quit hop halive hst rfl hstage.1 nofun
  | recovering =>
    rw [hst] at hstage
    refine hi.quit hop halive hst rfl hstage.1 ?_
    rintro p ⟨⟩ ⟨⟩
  | acquiring | entering | releasing | clearing | released =>
    refine hi.goto hop halive hst rfl (fun hneeds => ?_) nofun fun p hp => hstage.patch (hst ▸ hp)
    refine hs.file (.inr (.inr ?_))
    rw [Operation.Sets, hst]
    exact hneeds.resolve_left nofun
  | body | finished => exact hi

/-- A process reads the record. -/
lemma Inv.read (hst : op.stage = .waiting) : Inv (s.read i op) := by
  have hs := hi.sound i op hop
  have hfile := hs.file (.inl ⟨halive, by rw [hst]; rfl⟩)
  have hstage := hs.stage
  rw [hst] at hstage
  rw [State.read]
  cases hobj : s.deployment.object with
  | none => exact hi.fail hop halive
  | some c =>
    dsimp only
    split_ifs
    · exact hi.fail hop halive
    cases hholder : c.value.holder with
    | some ow =>
      exact hi.goto hop halive hst rfl (fun _ => hfile) nofun
        ⟨hstage, seen_of_mem hobj, hholder⟩
    | none =>
      exact hi.goto hop halive hst rfl (fun _ => hfile) nofun
        ⟨hstage, seen_of_mem hobj, hholder⟩

/-- A process reads the record it is to clear. -/
lemma Inv.release (hst : op.stage = .releasing uid) : Inv (s.release i op uid) := by
  have hstage := (hi.sound i op hop).stage
  rw [hst] at hstage
  rw [State.release]
  cases hobj : s.deployment.object with
  | none =>
    refine hi.goto hop halive hst rfl nofun nofun ?_
    rintro v ⟨o, ho, -⟩
    exact absurd (hobj.symm.trans ho) nofun
  | some c =>
    dsimp only
    split_ifs with huid hholder
    · -- another instance has the name, and it is not the one that was acquired
      refine hi.goto hop halive hst rfl nofun nofun fun v hr => ?_
      have hv := hstage v hr
      obtain ⟨o, ho, rfl, -⟩ := hr
      exact huid (mem_unique ho hobj ▸ hv)
    · exact hi.goto hop halive hst rfl nofun nofun nofun
    · rw [not_not] at huid hholder
      exact hi.goto hop halive hst rfl nofun nofun ⟨huid ▸ hstage, seen_of_mem hobj, hholder⟩

/-- **Every step of a process keeps the invariant.** -/
lemma Inv.act (e : Event) (hst : op.stage = stage) : Inv (s.act i op e stage) := by
  have hs := hi.sound i op hop
  have hstage := hs.stage
  rw [hst] at hstage
  have hfile : stage.early → s.file i := fun hearly => hs.file (.inl ⟨halive, hst ▸ hearly⟩)
  fun_cases State.act s i op e stage with
  | case1 => exact hi.read hop halive hst
  | case2 => exact hi.release hop halive hst
  | case3 => exact hi.goto hop halive hst rfl (fun _ => hfile rfl) nofun hstage
  | case4 | case6 | case7 =>
    exact hi.goto hop halive hst rfl (fun _ => hfile rfl) nofun hstage.1
  | case5 current owner hexit =>
    exact hi.goto hop halive hst rfl (fun _ => hfile rfl) nofun
      ⟨hstage.1, hstage.2.1, hstage.2.2, hexit⟩
  | case8 uid =>
    refine hi.goto hop halive hst rfl nofun (fun v hv => ?_) hstage
    obtain ⟨⟩ := hv.resolve_left nofun
    rfl
  | case9 => exact hi.goto hop halive hst rfl nofun nofun hstage.2.1
  | case10 owner =>
    obtain ⟨hidle, ⟨q, hq, he⟩, hidle', hsets⟩ := hstage
    have hne : owner ≠ i := by
      rintro rfl
      obtain rfl := mem_unique hop hq
      simp [exited, halive, hst, isFinished] at he
    have hgoto : Inv (s.goto i op .waiting) :=
      hi.goto hop halive hst rfl (fun _ => hfile rfl) nofun hidle
    exact hgoto.unlink ((update_of_ne hne ..).trans hq) (not_early_of_exited he) hidle'
      fun hset => hsets ⟨q, hq, hset⟩
  | case11 => exact hi.quit hop halive hst rfl hstage nofun
  | case12 => exact hi.fail hop halive
  | case14 stage hlive =>
    refine hi.set hop (fun he => ?_) (fun uid hh => ⟨hh.1, .inl halive⟩)
      (hs.processes id fun _ => .inl halive)
    simp [exited, halive, hst, hlive] at he
  | case13 | case15 => exact hi

end Process

/-! ### The server -/

section Server

variable {s s' : State} {i : ℕ} {op : Operation} {p : Patch}
  (hi : Inv s) (hop : op ∈ s.operation i) (hp : op.stage.sent i = some p)
  (hobj : s.deployment.object = some p.current)
  (hs' : s' = ⟨s.deployment.modify fun d => { d with holder := p.holder },
    update s.operation i (some { op with stage := op.stage.applied }), s.file⟩)

include hobj hs'

/-- The record after the patch. -/
lemma applied_object : ∀ o ∈ s'.deployment.object,
    o.uid = p.current.uid ∧ o.value.holder = p.holder := by
  intro o ho
  subst hs'
  obtain ⟨o₀, ho₀, rfl⟩ := map_eq_some_iff.mp ho
  obtain rfl := mem_unique ho₀ hobj
  exact ⟨rfl, rfl⟩

include hi hop hp

/-- What the others see of a patch that is applied. -/
lemma applied_advance : Advance s s' i := by
  have hs := hi.sound i op hop
  have hobj' := applied_object hobj hs'
  have hself : s'.operation i = some { op with stage := op.stage.applied } := by
    rw [hs']
    exact update_self ..
  have hgone : ¬ s'.Sets i := by
    rintro ⟨q, hq, p', hp', -⟩
    obtain rfl := mem_unique hself hq
    cases (op.stage.sent_applied i).symm.trans hp'
  have heff := (hs.stage.patch hp).effect
  refine ⟨?_, fun j hj => hs' ▸ ⟨update_of_ne hj .., rfl⟩, ?_, ?_, ?_, ?_, ?_⟩
  · rw [hs']
    dsimp only
    exact later_modify
  · simp [hself]
  · rintro ⟨q, hq, he⟩
    obtain rfl := mem_unique hop hq
    refine ⟨⟨_, hself, op.exited_goto he ?_⟩, fun hset => absurd hset hgone⟩
    cases op.stage <;> simp [isFinished, applied]
  · -- a record that is new is the operation's own, by this patch
    rintro h uid ⟨o, ho, -, hh⟩
    have hset : p.holder = some h := (hobj' o ho).2.symm.trans hh
    rcases heff with ⟨hown, -⟩ | ⟨hclear, -⟩
    · obtain rfl := some.inj (hset.symm.trans hown)
      exact .inr ⟨⟨op, hop, p, hp, hset⟩, hgone⟩
    · cases hclear.symm.trans hset
  · -- the one whose record is cleared holds nothing: it is releasing, or has exited
    rintro h uid ⟨q, hq, hst, hrun⟩ - hall o ho huid
    have hcur := hall p.current hobj ((hobj' o ho).1.symm.trans huid)
    have hstays : q.stage.sent h = none ∧ q.stage.isFinished = false := by
      rcases hst with hst | hst <;> rw [hst] <;> exact ⟨rfl, rfl⟩
    rcases heff with ⟨-, hnone, -⟩ | ⟨-, h', hcur', hexit⟩
    · cases hnone.symm.trans hcur
    · obtain rfl := some.inj (hcur'.symm.trans hcur)
      rcases hexit with rfl | ⟨q', hq', he⟩
      · obtain rfl := mem_unique hop hq
        cases hstays.1.symm.trans hp
      · obtain rfl := mem_unique hq hq'
        simp only [exited, hstays.2, Bool.or_false, Bool.and_eq_true, Bool.not_eq_true',
          decide_eq_true_eq] at he
        simp [Running, he] at hrun
  · rintro uid ⟨q, hq, hst, -⟩
    obtain rfl := mem_unique hself hq
    have hstage := hs.stage
    rcases sent_cases hp with ⟨c, hacq, rfl⟩ | ⟨c, owner, hrec, -⟩ | ⟨c, hclear, -⟩ | hfin
    · rw [hacq] at hst hstage
      obtain ⟨⟩ := hst.resolve_right nofun
      exact .inr ⟨c, hobj, rfl, hstage.2.2⟩
    · simp [hrec, applied] at hst
    · simp [hclear, applied] at hst
    · simp [hfin, applied] at hst

/-- **A patch that is applied keeps the invariant.** -/
lemma Inv.applied : Inv s' := by
  have hs := hi.sound i op hop
  have hstage := hs.stage
  have ha := applied_advance hi hop hp hobj hs'
  have hobj' := applied_object hobj hs'
  have hself : s'.operation i = some { op with stage := op.stage.applied } := by
    rw [hs']
    exact update_self ..
  have hfile : s'.file i = s.file i := by rw [hs']
  have hcleared : p.holder = none → ∀ j, s'.Idle j := by
    rintro hclear j uid ⟨o, ho, -, hh⟩
    cases hclear.symm.trans ((hobj' o ho).2.symm.trans hh)
  refine hi.advance ha fun _ hop₂ => ?_
  obtain rfl := mem_unique hself hop₂
  refine ⟨fun hneeds => ?_, ?_⟩
  · rw [hfile]
    rcases hneeds with ⟨halive, hearly⟩ | ⟨uid, hr⟩ | ⟨p', hp', -⟩
    · exact hs.file (.inl ⟨halive, early_of_applied hearly⟩)
    · rcases ha.marks i uid hr with hr | ⟨⟨q, hq, hset⟩, -⟩
      · exact hs.file (.inr (.inl ⟨uid, hr⟩))
      · obtain rfl := mem_unique hop hq
        exact hs.file (.inr (.inr hset))
    · cases (op.stage.sent_applied i).symm.trans hp'
  · change op.stage.applied.Sound s' i _
    rcases sent_cases hp with ⟨c, hacq, rfl⟩ | ⟨c, owner, hrec, rfl⟩ | ⟨c, hclear, rfl⟩ | hfin
    · rw [hacq]
      refine ⟨(s.deployment.bounded _ hobj).1.trans ha.later.issued, ?_, fun _ o ho _ =>
        (hobj' o ho).2⟩
      rintro v ⟨o, ho, rfl, -⟩
      exact (hobj' o ho).1
    · rw [hrec] at hstage ⊢
      obtain ⟨-, -, hcur, he⟩ := hstage
      obtain ⟨he', hsets⟩ := ha.exited_of he
      refine ⟨hcleared rfl i, he', hcleared rfl owner, fun hset => ?_⟩
      -- the owner was recorded by its patch, so it has none left that records it
      obtain ⟨q, hq, p', hp', hset'⟩ := hsets hset
      rcases ((hi.sound owner q hq).stage.patch hp').effect with ⟨-, -, hidle⟩ | ⟨hnone, -⟩
      · exact hidle c.uid ⟨c, hobj, rfl, hcur⟩
      · cases hnone.symm.trans hset'
    · rw [hclear]
      exact hcleared rfl i
    · rw [hfin]
      exact nofun

end Server

/-! ### The whole step -/

section Results

variable {s : State} {i h : ℕ} {op q : Operation} {o : Current}

/-- A patch that is refused changes nothing. -/
lemma Inv.refused (hi : Inv s) (hop : op ∈ s.operation i) :
    Inv (s.goto i op op.stage.refused) := by
  have hs := hi.sound i op hop
  -- nothing is left in flight
  have hsent : op.stage.refused.sent i = none := by cases op.stage <;> rfl
  have hnone : ¬ ∃ p ∈ op.stage.refused.sent i, p.holder = some i := by simp [hsent]
  refine hi.set hop (fun he => ⟨op.exited_goto he ?_, fun hset => absurd hset hnone⟩)
    (fun uid hh => ⟨?_, hh.2⟩) ⟨?_, ?_⟩
  · cases op.stage <;> simp [isFinished, Stage.refused]
  · have hstage := hh.1
    revert hstage
    cases op.stage <;> simp [Stage.refused]
  · rintro (⟨halive, hearly⟩ | hr | hset)
    · cases hst : op.stage with
      | acquiring c => exact hs.file (.inr (.inr ⟨⟨c, some i⟩, by rw [hst]; rfl, rfl⟩))
      | waiting | found | opened | recovering | recovered =>
        exact hs.file (.inl ⟨halive, by rw [hst]; rfl⟩)
      | _ =>
        rw [hst] at hearly
        cases hearly
    · exact hs.file (.inr (.inl hr))
    · exact absurd hset hnone
  · have hstage := hs.stage
    revert hstage
    cases op.stage with
    | acquiring | recovering | clearing => exact And.left
    | finished => exact fun _ => nofun
    | _ => exact id

/-- A step of others that writes the object and not its holder. -/
lemma Inv.environment {c : Cell Deployment} (hi : Inv s) (hlater : s.deployment.Later c)
    (hc : ∀ o ∈ c.object, (∃ o₀ ∈ s.deployment.object, o₀.uid = o.uid ∧
      o₀.value.holder = o.value.holder) ∨ (s.deployment.issued < o.uid ∧ o.value.holder = none)) :
    Inv { s with deployment := c } := by
  have ha : Advance s { s with deployment := c } 0 := by
    refine ⟨hlater, fun _ _ => ⟨rfl, rfl⟩, id, fun he => ⟨he, id⟩, ?_, ?_, fun _ hh => .inl hh⟩
    · rintro h uid ⟨o, ho, huid, hh⟩
      rcases hc o ho with ⟨o₀, ho₀, huid₀, hh₀⟩ | ⟨-, hnone⟩
      · exact .inl ⟨o₀, ho₀, huid₀.trans huid, hh₀.trans hh⟩
      · cases hnone.symm.trans hh
    · intro h uid _ hle hall o ho huid
      rcases hc o ho with ⟨o₀, ho₀, huid₀, hh₀⟩ | ⟨hlt, -⟩
      · exact hh₀.symm.trans (hall o₀ ho₀ (huid₀.trans huid))
      · omega
  refine hi.advance ha fun op hop => (hi.sound 0 op hop).advance ha rfl (fun uid hr => ?_)
    fun uid hh => ⟨op, hop, hh⟩
  exact (ha.marks 0 uid hr).resolve_right fun hset => hset.2 hset.1

/-- A new operation. -/
lemma Inv.start (hi : Inv s) (hnone : s.operation i = none) (hop : op.stage = .waiting) :
    Inv ⟨s.deployment, update s.operation i (some op), update s.file i true⟩ := by
  have hself : update s.operation i (some op) i = some op := update_self ..
  refine hi.advance (i := i) ⟨⟨le_rfl, fun _ ho _ => ho⟩, fun j hj => ⟨update_of_ne hj .., ?_⟩,
    fun _ => hnone, ?_, fun _ _ hr => .inl hr, fun _ _ _ _ hk => hk, ?_⟩ fun op' hop' => ?_
  · exact update_of_ne hj ..
  · rintro ⟨q, hq, -⟩
    cases hnone.symm.trans hq
  · rintro uid ⟨q, hq, hst, -⟩
    obtain rfl := mem_unique hself hq
    simp [hop] at hst
  · obtain rfl := mem_unique hself hop'
    refine ⟨fun _ => update_self .., ?_⟩
    rw [hop]
    exact fun v hr => hi.known i v hr hnone

/-- **Every command keeps the invariant.** -/
lemma Inv.next (hi : Inv s) (c : Command) : Inv (s.next c) := by
  cases c with
  | start i host uid =>
    rw [State.next]
    cases hop : s.operation i with
    | some => exact hi
    | none => exact hi.start hop rfl
  | event i e =>
    rw [State.next]
    cases hop : s.operation i with
    | none => exact hi
    | some op =>
      have hs := hi.sound i op hop
      have hact : ∀ e, Inv (if op.alive then s.act i op e op.stage else s) := fun e => by
        split_ifs with halive
        · exact hi.act hop halive e rfl
        · exact hi
      cases e with
      | exit =>
        have hrun : op.alive ∨ 0 < op.children - 1 → op.Running := Or.imp_right fun h => by omega
        refine hi.set hop (fun he => ⟨?_, id⟩) (fun uid hh => ⟨hh.1, hrun hh.2⟩)
          (hs.processes id hrun)
        simp only [exited, Bool.and_eq_true, decide_eq_true_eq] at he ⊢
        exact ⟨he.1, by omega⟩
      | kill =>
        refine hi.set hop (fun he => ⟨?_, id⟩) (fun uid hh => ⟨hh.1, hh.2.imp_left nofun⟩)
          (hs.processes nofun fun hrun => hrun.imp_left nofun)
        simp only [exited, Bool.and_eq_true] at he ⊢
        exact ⟨rfl, he.2⟩
      | apply =>
        simp only [event]
        cases hp : op.stage.sent i with
        | none => exact hi
        | some p =>
          simp only [apply]
          split
          · exact hi
          · rename_i deployment hswap
            obtain ⟨hobj, rfl⟩ := object_of_swap (hs.stage.patch hp).seen hswap
            exact hi.applied hop hp hobj rfl
      | refuse => exact hi.refused hop
      | _ => exact hact _
  | create =>
    refine hi.environment later_create fun o ho => ?_
    rcases or_eq_some_iff.mp ho with hkept | ⟨-, ⟨⟩⟩
    · exact .inl ⟨o, hkept, rfl, rfl⟩
    · exact .inr ⟨Nat.lt_succ_self _, rfl⟩
  | write deleting =>
    refine hi.environment later_modify fun o ho => .inl ?_
    obtain ⟨o₀, ho₀, rfl⟩ := map_eq_some_iff.mp ho
    exact ⟨o₀, ho₀, rfl, rfl⟩
  | remove => exact hi.environment later_remove nofun

/-- **The invariant of every run.** -/
lemma inv_run (cs : List Command) : Inv (mutation.after cs) := by
  refine (Machine.reachable_after cs).rec_on ⟨nofun, ?_, ?_⟩ fun s c _ hi => hi.next c
  · rintro i uid ⟨_, ⟨⟩, -⟩
  · rintro i j uid ⟨_, ⟨⟩, -⟩

/-! ### What holds at every moment -/

/-- A process reaches the instance through the server only. -/
lemma act_deployment (e : Event) (stage : Stage) :
    (s.act i op e stage).deployment = s.deployment := by
  fun_cases act s i op e stage <;>
    grind [State.read, State.release, State.fail, State.goto, State.set, State.unlink]

section

variable (hi : Inv s) (ho : o ∈ s.deployment.object) (hh : o.value.holder = some h)
include hi ho hh

/-- The holder changes by its own patch, or after it has exited. -/
lemma Inv.cleared {c : Command} {o' : Current} (ho' : o' ∈ (s.next c).deployment.object)
    (huid : o'.uid = o.uid) (hne : o'.value.holder ≠ some h) :
    c = .event h .apply ∨ s.Exited h := by
  have hsame : o' ∈ s.deployment.object → c = .event h .apply ∨ s.Exited h := fun hmem =>
    absurd (mem_unique hmem ho ▸ hh) hne
  cases c with
  | start i =>
    rw [State.next] at ho'
    split at ho' <;> exact hsame ho'
  | event i e =>
    rw [State.next] at ho'
    cases hop : s.operation i with
    | none => exact hsame (by simpa [hop] using ho')
    | some op =>
      rw [hop] at ho'
      cases e with
      | apply =>
        simp only [event] at ho'
        cases hp : op.stage.sent i with
        | none => exact hsame (by simpa [hp] using ho')
        | some p =>
          obtain ⟨hseen, heff⟩ := (hi.sound i op hop).stage.patch hp
          simp only [hp, apply] at ho'
          split at ho'
          · exact hsame ho'
          · rename_i deployment hswap
            obtain ⟨hobj, rfl⟩ := object_of_swap hseen hswap
            obtain rfl := mem_unique ho hobj
            rcases heff with ⟨-, hnone, -⟩ | ⟨-, h', hcur, hexit⟩
            · exact absurd (hnone.symm.trans hh) nofun
            · obtain rfl := some.inj (hcur.symm.trans hh)
              exact hexit.imp_left fun hown => by rw [hown]
      | exit | kill | refuse => exact hsame ho'
      | _ =>
        simp only [event] at ho'
        split_ifs at ho'
        · exact hsame (act_deployment _ _ ▸ ho')
        · exact hsame ho'
  | create =>
    rcases or_eq_some_iff.mp ho' with hkept | ⟨hnone, -⟩
    · exact hsame hkept
    · exact absurd (hnone.symm.trans ho) nofun
  | write =>
    obtain ⟨o₀, ho₀, rfl⟩ := map_eq_some_iff.mp ho'
    exact absurd (mem_unique ho₀ ho ▸ hh) hne
  | remove => cases ho'

/-- A new operation clears a holder that has exited. -/
lemma Inv.recovers (hlive : o.value.deleting = false) (hq : q ∈ s.operation h) (hexit : q.exited)
    (hnew : s.operation i = none) :
    ∃ o' ∈ (mutation.run s [.start i q.host none, .event i .read, .event i .openFile,
      .event i .lock, .event i .apply]).deployment.object,
      o'.uid = o.uid ∧ o'.value.holder = none := by
  have hne : h ≠ i := by
    rintro rfl
    exact absurd (hnew.symm.trans hq) nofun
  have hfile : s.file h = true := (hi.sound h q hq).file (.inr (.inl ⟨o.uid, o, ho, rfl, hh⟩))
  simp only [Option.mem_def] at ho hq
  simp [Machine.run, Machine.next, mutation, State.next, hnew, State.event, State.act, State.read,
    ho, hlive, hh, State.goto, State.set, hne, sent, hq, hfile, hexit, State.apply,
    Cell.swap, Cell.modify]

end

end Results

/-- **Deployment operations exclude each other.** After every run: at most one operation for an
instance is in its body or, killed there, has a child left. A holder is replaced only by its own
patch or after it and its children have exited. The lock file of the holder exists, so that once
it has exited a new operation on its workstation clears it. -/
theorem operations_exclude (cs : List Command) :
    let s := mutation.after cs
    (∀ i j uid, s.Occupies i uid → s.Occupies j uid → i = j) ∧
      ∀ o ∈ s.deployment.object, ∀ h, o.value.holder = some h →
        (∀ c, ∀ o' ∈ (mutation.next s c).deployment.object, o'.uid = o.uid →
          o'.value.holder ≠ some h → c = .event h .apply ∨ s.Exited h) ∧
        s.file h ∧
        ∃ q ∈ s.operation h, q.exited → o.value.deleting = false → ∀ i, s.operation i = none →
          ∃ o' ∈ (mutation.run s [.start i q.host none, .event i .read, .event i .openFile,
            .event i .lock, .event i .apply]).deployment.object,
            o'.uid = o.uid ∧ o'.value.holder = none := by
  intro s
  have hi : Inv s := inv_run cs
  refine ⟨?_, fun o ho h hh => ⟨fun c o' ho' => hi.cleared ho hh ho', ?_⟩⟩
  · rintro i j uid ⟨op, hop, hst, hrun⟩ ⟨op', hop', hst', hrun'⟩
    exact hi.exclusive i j uid ⟨op, hop, .inr hst, hrun⟩ ⟨op', hop', .inr hst', hrun'⟩
  · obtain ⟨q, hq⟩ := ne_none_iff_exists'.mp (hi.known h o.uid ⟨o, ho, rfl, hh⟩)
    exact ⟨(hi.sound h q hq).file (.inr (.inl ⟨o.uid, o, ho, rfl, hh⟩)), q, hq,
      fun hexit hlive i hnew => hi.recovers ho hh hlive hq hexit hnew⟩

/-- An operation acquires a new instance and enters its body. -/
def entered : List Command :=
  [.create, .start 1 0 none, .event 1 .read, .event 1 .apply, .event 1 .enter]

/-- Killed in its body, it is cleared by another operation on its workstation. -/
theorem operations_exclude_killed :
    (mutation.after entered).Occupies 1 1 ∧
      ∃ o ∈ (mutation.run (mutation.after (entered ++ [.event 1 .kill]))
        [.start 2 0 none, .event 2 .read, .event 2 .openFile, .event 2 .lock,
          .event 2 .apply]).deployment.object, o.uid = 1 ∧ o.value.holder = none := by
  refine ⟨⟨_, rfl, rfl, .inl rfl⟩, ?_⟩
  obtain ⟨-, hholder⟩ := operations_exclude (entered ++ [.event 1 .kill])
  obtain ⟨-, -, q, hq, hrecovers⟩ := hholder ⟨1, 2, ⟨some 1, false⟩⟩ rfl 1 rfl
  cases hq
  exact hrecovers rfl rfl 2 rfl

end Foretoken.Cli
