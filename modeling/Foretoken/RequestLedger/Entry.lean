import Foretoken.RequestLedger.Fence

/-!
An uncertain `enqueue` and its cancellation.

Whichever of the two arrives first, the batch must not run. `cancel_entry` marks the record it
finds, or leaves a negative record; but `save` deletes a retired record with nothing left, and what
is left after that is the owner test. A request id is taken to be used by one process, and
`cancel_entry` not to meet retained evidence that is acknowledged afterwards; without these a
cancelled batch can be open again.
-/

namespace Foretoken.RequestLedger

open List Machine Request

variable {frontend id : String} {epoch : ℕ} {c : Command} {s : Ledger} {request : Request}
  {cs : List Command}

/-! ### Runs of one process -/

/-- The process was a member in some state of the run. -/
def Seen (name : Field) (cs : List Command) : Prop :=
  ∃ pre post, cs = pre ++ post ∧ isMember (ledger.after pre) name

/-- The process is not removed from the membership and added again. -/
def NeverReturns (name : Field) (cs : List Command) : Prop :=
  ∀ pre post, cs = pre ++ post → isMember (ledger.after pre) name →
    ledger.Along (NoReturn name) (ledger.after pre) post

/-- The frontend was a member with the given epoch in some state of the run. -/
def Registered (frontend : String) (epoch : ℕ) (cs : List Command) : Prop :=
  ∃ pre post, cs = pre ++ post ∧ isMember (ledger.after pre) (.o frontend)
    ∧ count (ledger.after pre) (.o frontend) = epoch

/-- If the command creates or cancels the batch, it speaks for the given process. -/
def Command.carries (id frontend : String) (epoch : ℕ) (c : Command) : Prop :=
  match c.action with
  | .enqueue f e _ _ _ => c.id = id → f = frontend ∧ e = epoch
  | .cancelEntry f e _ => c.id = id → f = frontend ∧ e = epoch
  | _ => True

section Runs

variable {name : Field} {ds : List Command}

lemma Seen.append (h : Seen name cs) (ds : List Command) : Seen name (cs ++ ds) := by
  obtain ⟨pre, post, rfl, hmember⟩ := h
  exact ⟨pre, post ++ ds, append_assoc _ _ _, hmember⟩

lemma Registered.seen (h : Registered frontend epoch cs) : Seen (.o frontend) cs := by
  obtain ⟨pre, post, hcs, hmember, -⟩ := h
  exact ⟨pre, post, hcs, hmember⟩

lemma NeverReturns.left (h : NeverReturns name (cs ++ ds)) : NeverReturns name cs := by
  rintro pre post rfl hmember
  exact (h pre (post ++ ds) (append_assoc _ _ _) hmember).left

lemma NeverReturns.noReturn (h : NeverReturns name (cs ++ c :: ds)) (hseen : Seen name cs) :
    NoReturn name (ledger.after cs) c := by
  obtain ⟨pre, post, rfl, hmember⟩ := hseen
  have hright := (h pre (post ++ c :: ds) (append_assoc _ _ _) hmember).right
  rw [after_append]
  exact hright.1

lemma Registered.pastEpoch (h : Registered frontend epoch cs)
    (hnever : NeverReturns (.o frontend) cs) :
    PastEpoch (.o frontend) epoch (ledger.after cs) := by
  obtain ⟨pre, post, rfl, hmember, hcount⟩ := h
  rw [after_append]
  exact pastEpoch_run (reachable_after pre) (fun _ => hcount.ge) (hnever pre post rfl hmember)

end Runs

/-! ### A retired record belongs to a process that is over -/

lemma pastEpoch_of_retires (howned : Owned s request) (hlive : request.retired = false)
    (hwrite : (transition s c.id c.action).1 ≠ s) (h : retires s c.action request) :
    PastEpoch (.o request.frontend) (request.epoch + 1) (ledger.next s c) := by
  intro hmember
  change isMember (transition s c.id c.action).1 _ at hmember
  change _ ≤ count (transition s c.id c.action).1 _
  unfold retires at h
  split at h
  · rename_i fs bs hnew
    obtain ⟨hf, -, -⟩ := members_new c.id hnew
    simp only [isMember, hf, Option.any_some, decide_eq_true_eq] at hmember h
    exact absurd hmember h
  · split at h
    · rename_i frontend epoch hact
      rw [hact] at hwrite ⊢
      simp only [keepsOwner, Bool.not_eq_true', Bool.or_eq_false_iff, decide_eq_false_iff_not,
        not_not] at h
      obtain ⟨-, -, -, hcount⟩ := howned.frontend hlive
      have hnewer := (register_tests hwrite).2
      have hactive : (epoch : ℤ) ≤ _ := activated_le hwrite rfl
      rw [h.1] at hcount ⊢
      omega
    · cases h

lemma retired_next (hs : ledger.Reachable s) {x : String} (hr : s.records.lookup x = some request)
    (hover : request.retired → PastEpoch (.o request.frontend) (request.epoch + 1) s)
    (hreturn : NoReturn (.o request.frontend) s c)
    (h : (recordAfter s c.id c.action x request).retired) :
    PastEpoch (.o request.frontend) (request.epoch + 1) (ledger.next s c) := by
  by_cases hret : request.retired
  · exact pastEpoch_next (hover hret) hreturn
  by_cases hsame : (transition s c.id c.action).1 = s
  · rw [recordAfter, if_pos hsame] at h
    exact absurd h hret
  · rw [recordAfter_of_ne hsame] at h
    simp only [recordWrite, Bool.or_eq_true] at h
    exact pastEpoch_of_retires (owned_of_reachable hs x request hr) (by simpa using hret) hsame
      (h.resolve_left hret)

/-- The record of a batch belongs to the process, which is over if the record is retired. -/
def Attributed (id frontend : String) (epoch : ℕ) (cs : List Command) : Prop :=
  ∀ request, (ledger.after cs).records.lookup id = some request →
    request.frontend = frontend ∧ request.epoch = epoch ∧ Seen (.o frontend) cs
      ∧ (request.retired → PastEpoch (.o frontend) (epoch + 1) (ledger.after cs))

/-- A record is created for the process its command speaks for. -/
lemma creates_carries (h : Creates s c.id c.action request) (hid : c.id = id)
    (hc : c.carries id frontend epoch) :
    request.frontend = frontend ∧ request.epoch = epoch ∧ request.retired = false := by
  obtain ⟨x, action⟩ := c
  cases h with
  | enqueue | negative => exact ⟨(hc hid).1, (hc hid).2, rfl⟩

/-- **Attribution of a batch** to the one process of its commands. -/
lemma attributed_run (hnever : NeverReturns (.o frontend) cs)
    (hcs : ∀ c ∈ cs, c.carries id frontend epoch) : Attributed id frontend epoch cs := by
  induction cs using reverseRecOn with
  | nil =>
    intro request hr
    cases hr
  | append_singleton cs c ih =>
    intro r hr
    have hreach := reachable_after (M := ledger) cs
    rw [after_concat] at hr ⊢
    rcases record_next (stored_of_reachable hreach) hr with
      ⟨request, hbefore, rfl⟩ | ⟨-, hid, hcreates⟩
    · obtain ⟨rfl, rfl, hseen, hover⟩ :=
        ih hnever.left (fun d hd => hcs d (mem_append_left _ hd)) request hbefore
      exact ⟨recordAfter_frontend _ _, recordAfter_epoch _ _, hseen.append _,
        retired_next hreach hbefore hover (hnever.noReturn hseen)⟩
    · obtain ⟨hfe, hepoch, hlive⟩ := creates_carries hcreates hid.symm (hcs c (by simp))
      obtain ⟨fs, hfront, hmember, -⟩ := (owned_creates hcreates).frontend hlive
      refine ⟨hfe, hepoch, ⟨cs ++ [c], [], by simp, ?_⟩, fun h => by simp [hlive] at h⟩
      rw [after_concat]
      change isMember (transition _ c.id c.action).1 _
      simpa [isMember, hfront, hfe] using hmember

/-! ### A cancelled batch stays barred -/

/-- The record of the batch is marked, or it is gone and its process is over. -/
def Barred (s : Ledger) (id frontend : String) (epoch : ℕ) : Prop :=
  (∃ request, s.records.lookup id = some request ∧ request.cancelled)
    ∨ s.records.lookup id = none ∧ PastEpoch (.o frontend) (epoch + 1) s

lemma retired_of_kept_none (h : request.kept = none) (hc : request.cancelled) :
    request.retired := by
  rw [kept] at h
  split_ifs at h with hdelete
  simpa [hc] using hdelete.2

lemma not_creates (hover : PastEpoch (.o frontend) (epoch + 1) s) (hid : c.id = id)
    (hc : c.carries id frontend epoch) (request : Request) :
    ¬ Creates s c.id c.action request := by
  have hrefused : ∀ {g fs}, Open s c.id g fs →
      ¬ owns s fs frontend epoch := by
    intro g fs hopen howns
    obtain ⟨hmember, hcount⟩ := (owns_iff hopen.frontends_eq frontend epoch).mp howns
    have hle := hover hmember
    omega
  intro h
  obtain ⟨x, action⟩ := c
  cases h with
  | enqueue hopen _ howns | negative hopen howns =>
    obtain ⟨rfl, rfl⟩ := hc hid
    exact hrefused hopen howns

/-- **No call lifts the bar.** -/
lemma barred_next (hnever : NeverReturns (.o frontend) (cs ++ [c]))
    (hcs : ∀ d ∈ cs ++ [c], d.carries id frontend epoch) (hseen : Seen (.o frontend) cs)
    (h : Barred (ledger.after cs) id frontend epoch) :
    Barred (ledger.after (cs ++ [c])) id frontend epoch := by
  have hreach := reachable_after (M := ledger) cs
  have hreturn := hnever.noReturn hseen
  have hattr := attributed_run hnever.left fun d hd => hcs d (mem_append_left _ hd)
  rw [Attributed] at hattr
  rw [after_concat]
  generalize ledger.after cs = s at h hreach hreturn hattr ⊢
  change (∃ request, (transition s c.id c.action).1.records.lookup id = some request ∧ _)
    ∨ (transition s c.id c.action).1.records.lookup id = none ∧ _
  rcases h with ⟨request, hr, hcanc⟩ | ⟨hnone, hover⟩
  · rw [lookup_transition (stored_of_reachable hreach) c.id c.action hr]
    have hmark : (recordAfter s c.id c.action id request).cancelled :=
      recordAfter_cancelled hcanc
    cases hkept : (recordAfter s c.id c.action id request).kept with
    | some r => exact .inl ⟨r, rfl, kept_eq_some hkept ▸ hmark⟩
    | none =>
      obtain ⟨rfl, rfl, -, hover⟩ := hattr request hr
      exact .inr ⟨rfl, retired_next hreach hr hover hreturn (retired_of_kept_none hkept hmark)⟩
  · rcases lookup_transition_none c.id c.action hnone with h | ⟨r, hid, hcreates, -⟩
    · exact .inr ⟨h, pastEpoch_next hover hreturn⟩
    · exact absurd hcreates (not_creates hover hid.symm (hcs c (by simp)) r)

lemma barred_run {ds : List Command} (hnever : NeverReturns (.o frontend) (cs ++ ds))
    (hcs : ∀ d ∈ cs ++ ds, d.carries id frontend epoch) (hseen : Seen (.o frontend) cs)
    (h : Barred (ledger.after cs) id frontend epoch) :
    Barred (ledger.after (cs ++ ds)) id frontend epoch := by
  induction ds using reverseRecOn with
  | nil => simpa using h
  | append_singleton ds d ih =>
    rw [← append_assoc] at hnever hcs ⊢
    exact barred_next hnever hcs (hseen.append ds)
      (ih hnever.left fun d hd => hcs d (mem_append_left _ hd))

lemma lookup_cancelRecord (s : Ledger) (id : String) (request : Request) :
    (cancelRecord s id request).records.lookup id = request.cancel.kept := by
  rw [cancelRecord_eq, lookup_save]

/-- The record `cancel_entry` saves is marked. -/
lemma barred_cancelRecord
    (hover : request.retired → PastEpoch (.o frontend) (epoch + 1) (cancelRecord s id request)) :
    Barred (cancelRecord s id request) id frontend epoch := by
  rw [Barred, lookup_cancelRecord]
  cases hkept : request.cancel.kept with
  | some r => exact .inl ⟨r, rfl, kept_eq_some hkept ▸ rfl⟩
  | none =>
    have hret : request.cancel.retired := retired_of_kept_none hkept rfl
    exact .inr ⟨rfl, hover hret⟩

/-- `cancel_entry` bars the batch, or meets its end. -/
lemma barred_cancelEntry (hs : ledger.Reachable s) {caller : String}
    (hpub : s.config ≠ none) (hpast : PastEpoch (.o frontend) epoch s)
    (hover : ∀ request, s.records.lookup id = some request → request.retired →
      PastEpoch (.o frontend) (epoch + 1) s)
    (hreturn : NoReturn (.o frontend) s ⟨id, .cancelEntry frontend epoch caller⟩)
    (hevid : s.completions.lookup id = none ∨ s.records.lookup id ≠ none) :
    Barred (ledger.next s ⟨id, .cancelEntry frontend epoch caller⟩) id frontend epoch := by
  obtain ⟨config, frontends, -, hconf, hfront, -⟩ := settings_of_config hs hpub
  by_cases hdone : s.completions.lookup id ≠ none ∧ terminated s id
  · -- a record that is kept with nothing left was marked before
    obtain ⟨request, hr⟩ := Option.ne_none_iff_exists'.mp (hevid.resolve_left hdone.1)
    have hzero : request.remaining = 0 := by simpa [terminated, hr] using hdone.2
    change Barred (guarded s id (.cancelEntry frontend epoch caller)).1 id frontend epoch
    rw [guarded, if_pos hdone]
    refine .inl ⟨request, hr, ?_⟩
    by_contra hmark
    have hkept := (stored_of_reachable hs).kept id request hr
    simp [kept, hzero, hmark] at hkept
  have hnext : ledger.next s ⟨id, .cancelEntry frontend epoch caller⟩
      = cancelEntry s frontends id frontend epoch caller :=
    congrArg Prod.fst (transition_cancelEntry ⟨hconf, hfront, hdone⟩ frontend epoch caller)
  cases hr : s.records.lookup id with
  | some request =>
    rw [cancelEntry, hr] at hnext
    have hkeep := fun h => pastEpoch_next (hover request hr h) hreturn
    rw [hnext] at hkeep ⊢
    exact barred_cancelRecord hkeep
  | none =>
    by_cases howns : owns s frontends frontend epoch
    · have hstage := hnext
      rw [cancelEntry, hr] at hstage
      rw [if_neg (by simpa using howns)] at hstage
      rw [hstage]
      exact barred_cancelRecord fun h => by cases h
    · -- the process is not the active one, and the epoch of a member only goes up
      have hsame : cancelEntry s frontends id frontend epoch caller = s := by
        rw [cancelEntry, hr]
        exact if_pos (by simpa using howns)
      rw [hnext, hsame]
      refine .inr ⟨hr, fun hmember => ?_⟩
      have hle := hpast hmember
      rw [owns_iff hfront] at howns
      have hne : count s (.o frontend) ≠ epoch := fun h => howns ⟨hmember, h⟩
      omega

/-! ### The fence -/

/-- A cancelled batch is fenced: none of its slots is waiting, reserved or handed off, no
`accept` takes one, and its `enqueue` is refused. -/
structure EntryFenced (s : Ledger) (id frontend : String) (epoch : ℕ) : Prop where
  slots : ∀ request, s.records.lookup id = some request →
    ∀ slot ∈ request.slots, slot.state = .cancelling ∨ slot.state = .completed
  accept : ∀ k owner pod backendEpoch,
    ledger.next s ⟨id, .accept k owner pod backendEpoch⟩ = s
  enqueue : ∀ caller role units,
    ledger.reply s ⟨id, .enqueue frontend epoch caller role units⟩ = .closed

section

variable (hs : ledger.Reachable s) (hpub : s.config ≠ none)
  (h : Barred s id frontend epoch ∨ s.completions.lookup id ≠ none ∧ s.records.lookup id = none)
include hs hpub h

/-- An `enqueue` of a process that is over is refused. -/
lemma reply_enqueue_closed (u role : String) (units : ℕ) :
    ledger.reply s ⟨id, .enqueue frontend epoch u role units⟩ = .closed := by
  obtain ⟨g, frontends, -, hconf, hfront, -⟩ := settings_of_config hs hpub
  change (guarded s id (.enqueue frontend epoch u role units)).2 = .closed
  by_cases hdone : s.completions.lookup id ≠ none ∧ terminated s id
  · rw [guarded, if_pos hdone]
    rfl
  simp only [guarded, if_neg hdone, published, hconf, hfront]
  by_cases hclosed : g.closed
  · rw [if_pos hclosed]
  rw [if_neg hclosed, enqueue]
  by_cases howns : owns s frontends frontend epoch
  swap
  · rw [if_pos (by simpa using howns)]
  rcases h with (⟨request, hr, hmark⟩ | ⟨hnone, hover⟩) | ⟨hevid, hnone⟩
  · simp [hr, hmark]
  · obtain ⟨hmember, hcount⟩ := (owns_iff hfront frontend epoch).mp howns
    have hle := hover hmember
    omega
  · exact absurd ⟨hevid, terminated_of_none hnone⟩ hdone

lemma entryFenced :
    EntryFenced s id frontend epoch := by
  have hslots : ∀ request, s.records.lookup id = some request →
      ∀ slot ∈ request.slots, slot.state = .cancelling ∨ slot.state = .completed := by
    intro request hr slot hslot
    rcases h with (⟨request', hr', hmark⟩ | ⟨hnone, -⟩) | ⟨-, hnone⟩
    · rw [hr] at hr'
      cases hr'
      simpa [Slot.revoked] using
        (owned_of_reachable hs id request hr).revoked (.inl hmark) slot hslot
    all_goals simp [hr] at hnone
  refine ⟨hslots, fun k o pod backendEpoch => ?_, reply_enqueue_closed hs hpub h⟩
  by_contra hwrite
  obtain ⟨request, slot, _, hr, hslot, -, -, -, -, hstate, -⟩ := accept_tests hwrite
  rcases hslots request hr slot (mem_of_getElem? hslot) with hend | hend <;>
    simp [hend] at hstate

end

/-- A `cancel_entry` of a registered process under a published configuration, with the run
before it and the run after it. -/
structure UncertainEntry (cs es : List Command) (id frontend : String) (epoch : ℕ)
    (caller : String) : Prop where
  registered : Registered frontend epoch cs
  neverReturns :
    NeverReturns (.o frontend) (cs ++ ⟨id, .cancelEntry frontend epoch caller⟩ :: es)
  published : (ledger.after cs).config ≠ none

/-- **An uncertain `enqueue` is fenced in either arrival order.** From a `cancel_entry`
on, a batch whose id is used by one process only is fenced, whatever else happens and
also after its record is deleted. The exception is the evidence of a batch that ended
before `cancel_entry`: `cancel_entry` leaves no mark then, and the batch is fenced
for as long as that evidence is not acknowledged. -/
theorem uncertain_entry_fenced (cs es : List Command) {id frontend caller : String} {epoch : ℕ}
    (h : UncertainEntry cs es id frontend epoch caller)
    (hid : ∀ c ∈ cs ++ es, c.carries id frontend epoch)
    (hevidence : ((ledger.after cs).completions.lookup id = none
        ∨ (ledger.after cs).records.lookup id ≠ none)
      ∨ ledger.Along (fun s c => ¬ Acknowledges id s c)
        (ledger.after (cs ++ [⟨id, .cancelEntry frontend epoch caller⟩])) es) :
    EntryFenced (ledger.after (cs ++ ⟨id, .cancelEntry frontend epoch caller⟩ :: es))
      id frontend epoch := by
  have hreach := reachable_after (M := ledger) cs
  have hsplit : cs ++ ⟨id, .cancelEntry frontend epoch caller⟩ :: es
      = (cs ++ [⟨id, .cancelEntry frontend epoch caller⟩]) ++ es := by simp
  have hnever := h.neverReturns
  have hconfig : ∀ ds, (ledger.run (ledger.after cs) ds).config ≠ none := fun ds =>
    run_stable (I := fun s => s.config ≠ none) hreach
      (fun s c _ hs => config_next c hs) h.published ds
  refine entryFenced (reachable_after _) (by rw [after_append]; exact hconfig _) ?_
  rw [hsplit] at hnever ⊢
  by_cases hmark : (ledger.after cs).completions.lookup id = none
      ∨ (ledger.after cs).records.lookup id ≠ none
  · left
    have hcs : ∀ c ∈ cs, c.carries id frontend epoch := fun c hc =>
      hid c (mem_append_left _ hc)
    refine barred_run hnever (fun c hc => ?_) (h.registered.seen.append _) ?_
    · simp only [append_assoc, mem_append, mem_singleton] at hc
      rcases hc with hc | rfl | hc
      · exact hcs c hc
      · exact fun _ => ⟨rfl, rfl⟩
      · exact hid c (mem_append_right _ hc)
    · rw [after_concat]
      exact barred_cancelEntry hreach h.published (h.registered.pastEpoch hnever.left.left)
        (fun request hr => (attributed_run hnever.left.left hcs request hr).2.2.2)
        (hnever.left.noReturn h.registered.seen) hmark
  · -- only the evidence is there; the guard keeps it as it is
    right
    rw [not_or, not_not] at hmark
    have hstart : ledger.after (cs ++ [⟨id, .cancelEntry frontend epoch caller⟩])
        = ledger.after cs := by
      rw [after_concat]
      exact congrArg Prod.fst (guarded_of_terminated hmark.1 (terminated_of_none hmark.2)
        (.cancelEntry frontend epoch caller))
    have hes := hevidence.resolve_left (by rw [not_or, not_not]; exact hmark)
    rw [hstart] at hes
    rw [after_append, hstart]
    exact run_preserves
      (I := fun s => s.completions.lookup id ≠ none ∧ s.records.lookup id = none) hreach
      (fun s c _ hI hc => ⟨completions_next hI.1 hc, lookup_none_next hI.1 hI.2 c⟩) hmark hes

/-- Only later commands can bring a member back. -/
lemma neverReturns_cons {name : Field}
    (h : ledger.Along (NoReturn name) (ledger.next ledger.init c) cs) :
    NeverReturns name (c :: cs) := by
  intro pre post hsplit hmember
  cases pre with
  | nil => cases name <;> cases hmember
  | cons =>
    obtain ⟨rfl, rfl⟩ := cons.inj hsplit
    exact h.right

/-- The delayed `enqueue` arrives after the negative record is dropped. -/
theorem uncertain_entry_fenced_dropped :
    EntryFenced (ledger.after ([⟨"", .publish 1 {} ["f"] ["p"]⟩,
        ⟨"", .registerOwner "f" 1⟩] ++ ⟨"r", .cancelEntry "f" 1 "c"⟩ ::
        [⟨"", .registerOwner "f" 2⟩, ⟨"r", .enqueue "f" 1 "c" "user" 1⟩])) "r" "f" 1 := by
  refine uncertain_entry_fenced _ _ ⟨⟨_, [], (append_nil _).symm, by decide, by decide⟩,
    neverReturns_cons (by decide), by decide⟩ ?_ (.inl (.inl (by decide)))
  simp [Command.carries]

/-- A batch that ended behind retained evidence. -/
def endedRun : List Command :=
  [⟨"", .publish 1 {} ["f"] ["p"]⟩, ⟨"", .registerOwner "f" 1⟩,
    ⟨"r", .enqueue "f" 1 "c" "user" 1⟩, ⟨"r", .retainCompletion "k"⟩, ⟨"r", .dispatch⟩,
    ⟨"r", .accept 0 "o" "p" 1⟩, ⟨"r", .complete 0 "o" true⟩]

/-- Two frontends, before one of them uses the request id of the other. -/
def sharedRun : List Command :=
  [⟨"", .publish 1 {} ["f", "g"] ["p"]⟩, ⟨"", .registerOwner "f" 1⟩, ⟨"", .registerOwner "g" 1⟩]

/-- A cancelled batch is open again once the evidence that swallowed the cancellation is
acknowledged, and once another process uses the request id. -/
theorem entry_reopened :
    (∃ es, UncertainEntry endedRun es "r" "f" 1 "c"
      ∧ ⟨"r", .enqueue "f" 1 "c" "user" 1⟩ ∈ endedRun ++ es
      ∧ (∀ c ∈ endedRun ++ es, c.carries "r" "f" 1)
      ∧ ¬ EntryFenced (ledger.after (endedRun ++ ⟨"r", .cancelEntry "f" 1 "c"⟩ :: es))
        "r" "f" 1)
    ∧ ∃ es, UncertainEntry sharedRun es "r" "f" 1 "c"
      ∧ ⟨"r", .enqueue "f" 1 "c" "user" 1⟩ ∈ sharedRun ++ es
      ∧ (ledger.after sharedRun).completions.lookup "r" = none
      ∧ ¬ EntryFenced (ledger.after (sharedRun ++ ⟨"r", .cancelEntry "f" 1 "c"⟩ :: es))
        "r" "f" 1 := by
  refine ⟨⟨[⟨"r", .acknowledge⟩, ⟨"r", .enqueue "f" 1 "c" "user" 1⟩],
    ⟨⟨_, [], (append_nil _).symm, by decide, by decide⟩, neverReturns_cons (by decide),
      by decide⟩, by decide, by simp [endedRun, Command.carries], fun h => ?_⟩,
    ⟨[⟨"r", .enqueue "f" 1 "c" "user" 1⟩, ⟨"", .publishMembership 2 ["g"] ["p"]⟩,
      ⟨"r", .enqueue "g" 1 "c" "user" 1⟩],
    ⟨⟨_, [], (append_nil _).symm, by decide, by decide⟩, neverReturns_cons (by decide),
      by decide⟩, by decide, by decide, fun h => ?_⟩⟩
  · have hslot := h.slots (.fresh "f" 1 "c" "user" 1) (by decide) { state := .waiting } (by decide)
    simp at hslot
  · have hslot := h.slots (.fresh "g" 1 "c" "user" 1) (by decide) { state := .waiting } (by decide)
    simp at hslot

end Foretoken.RequestLedger
