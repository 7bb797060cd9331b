import Foretoken.RequestLedger.Accounting

/-!
The life of one record and of one slot under the calls of the ledger.

A call touches many records at once, but each of them only through what it reads in it. The record
a call leaves behind is what `save` keeps of `recordAfter` (`lookup_transition`).
-/

namespace Foretoken.RequestLedger

open List Option Request RequestLedger.Action

variable {name : Field} {request r : Request} {slot : Slot} {s : Ledger} {id x : String}
  {action : Action} {j : ℕ} {f : Slot → Slot}

open FiniteMap

/-! ### One slot, one record -/

/-- The members a call publishes, if they are newer than the known ones. -/
def newMembers (s : Ledger) : Action → Option (Finset String × Finset String)
  | .publish version _ frontends backends
  | .publishMembership version frontends backends =>
    if version > membershipRevision s then some (frontends.toFinset, backends.toFinset) else none
  | _ => none

/-- The accepted slots a membership without their backend ends. -/
def omits (backends : Finset String) (slot : Slot) : Bool :=
  slot.backendPod.all (· ∉ backends)

/-- What an action of a request id does to slot `k` of its batch. -/
def Action.slotAt (k : ℕ) (slot : Slot) : Action → Slot
  | .cancelEntry _ _ _ => slot.cancel
  | .dispatch => slot.reserve
  | .retry => slot.unreserve
  | .accept j owner pod epoch => if k = j then slot.accept owner pod epoch else slot
  | .drop j => if k = j then slot.cancel else slot
  | .rejectBeforeSubmission j owner => if k = j then slot.reject owner else slot
  | .complete j owner finalStage => if k = j then slot.complete owner finalStage else slot
  | _ => slot

/-- What a call that writes does to slot `k` of the record of batch `x`. -/
def slotWrite (s : Ledger) (id : String) (action : Action) (x : String) (request : Request)
    (k : ℕ) (slot : Slot) : Slot :=
  match newMembers s action with
  | some (frontends, backends) =>
    (if request.frontend ∈ frontends then slot else slot.cancel).terminate (omits backends)
  | none =>
    match action with
    | .recoverBackend pod epoch => slot.terminate (recovered pod epoch)
    | .registerOwner frontend epoch =>
      if keepsOwner frontend epoch request then slot else slot.cancel
    | action => if x = id then action.slotAt k slot else slot

/-- A call that writes retires the record. -/
def retires (s : Ledger) (action : Action) (request : Request) : Bool :=
  match newMembers s action with
  | some (frontends, _) => request.frontend ∉ frontends
  | none =>
    match action with
    | .registerOwner frontend epoch => !keepsOwner frontend epoch request
    | _ => false

/-- The action cancels a batch. -/
def Action.isCancel : Action → Bool
  | .cancelEntry _ _ _ => true
  | _ => false

/-- The record a call that writes hands to `save` for batch `x`. -/
def recordWrite (s : Ledger) (id : String) (action : Action) (x : String) (request : Request) :
    Request :=
  let slots := request.slots.mapIdx (slotWrite s id action x request)
  { request with
      remaining := request.remaining + (openUnits slots - openUnits request.slots)
      accepted := request.accepted || (x = id && action.isAccept)
      cancelled := request.cancelled || (x = id && action.isCancel)
      retired := request.retired || retires s action request
      slots := slots }

/-- The record of batch `x` after a call, before `save` decides whether to keep it. -/
def recordAfter (s : Ledger) (id : String) (action : Action) (x : String) (request : Request) :
    Request :=
  if (transition s id action).1 = s then request else recordWrite s id action x request

/-! ### The loops, record by record -/

lemma read_charges_epoch (f : Slot → Slot) (caller : String) (m : Finmap fun _ : Field => ℤ)
    (slots : List Slot) (h : ¬ name.isCounter) :
    read (charges f caller m slots) name = read m name := by
  induction slots generalizing m with
  | nil => rfl
  | cons slot rest ih => rw [charges, ih, chargeSlot, read_charge_epoch _ _ _ _ h]

lemma rewriteAll_frame (plan : Request → Option ((Slot → Slot) × Request)) (s : Ledger) :
    ∃ m records, rewriteAll plan s = { s with counts := m, records := records }
      ∧ ∀ name : Field, ¬ name.isCounter → read m name = read s.counts name := by
  refine rewriteAll_preserves (P := fun t => ∃ m records,
    t = { s with counts := m, records := records }
      ∧ ∀ name : Field, ¬ name.isCounter → read m name = read s.counts name)
    (fun t id ht => ?_) ⟨s.counts, s.records, rfl, fun _ _ => rfl⟩
  obtain ⟨m, records, rfl, hm⟩ := ht
  rw [rewriteField]
  split
  · exact ⟨m, records, rfl, hm⟩
  · exact ⟨_, _, rfl, fun name h => (read_charges_epoch _ _ _ _ h).trans (hm name h)⟩

lemma planned_retirePlan (keep : Request → Bool) (h : request.kept = some request) :
    planned (retirePlan keep) request
      = (if keep request then request else request.retire).kept := by
  rw [planned, retirePlan]
  split_ifs
  · exact h.symm
  · rfl

/-- Where no slot ends, nothing changes. -/
lemma mapSlots_terminate {t : Slot → Bool}
    (h : ∀ slot ∈ request.slots, slot.ends t = false) :
    request.mapSlots (Slot.terminate t) = request :=
  mapSlots_self fun slot hslot => by simp [Slot.terminate, h slot hslot]

lemma planned_terminatePlan (t : Slot → Bool) (h : request.kept = some request) :
    planned (terminatePlan t) request
      = (request.mapSlots (Slot.terminate t)).kept := by
  rw [planned, terminatePlan]
  split_ifs with hany
  · rfl
  · rw [mapSlots_terminate (by simpa using hany)]
    exact h.symm

lemma ends_of_completed (t : Slot → Bool) (h : slot.state = .completed) :
    slot.ends t = false := by
  simp [Slot.ends, Slot.held, h]

/-- After a deletion the second loop has nothing left. -/
lemma kept_bind_terminate (t : Slot → Bool)
    (hrem : request.remaining = openUnits request.slots) :
    request.kept.bind (planned (terminatePlan t))
      = (request.mapSlots (Slot.terminate t)).kept := by
  cases hk : request.kept with
  | none =>
    have hopen := remaining_of_kept_none hk
    rw [hrem] at hopen
    rw [mapSlots_terminate fun slot hslot =>
      ends_of_completed _ (openUnits_eq_zero.mp hopen slot hslot), hk]
    rfl
  | some =>
    have hr := kept_eq_some hk
    subst hr
    exact planned_terminatePlan t hk

/-- The epochs of omitted processes are deleted. -/
lemma read_dropEpochs (frontends backends : Finset String) (m : Finmap fun _ : Field => ℤ)
    (name : Field) :
    read (m.keys.val.foldl (dropEpoch frontends backends) m) name
      = if name.stale frontends backends then 0 else read m name := by
  have hfold : ∀ (keys : Multiset Field) (m : Finmap fun _ : Field => ℤ),
      read (keys.foldl (dropEpoch frontends backends) m) name
        = if name ∈ keys ∧ name.stale frontends backends then 0 else read m name := by
    intro keys
    induction keys using Multiset.induction_on with
    | empty => intro m; simp
    | cons key keys ih =>
      intro m
      rw [Multiset.foldl_cons, ih, dropEpoch]
      by_cases hkey : name = key
      · subst hkey
        by_cases hstale : name.stale frontends backends <;> simp [hstale, read_erase]
      · by_cases hstale : key.stale frontends backends <;> simp [hstale, hkey, read_erase]
  rw [hfold]
  by_cases hmem : name ∈ m
  · simp [Finmap.mem_keys.mpr hmem]
  · have hzero : read m name = 0 := by
      rw [FiniteMap.read, Finmap.lookup_eq_none.mpr hmem, getD_none]
    simp [hzero]

lemma publishMembers_frame (s : Ledger) (version : ℕ) (frontends backends : Finset String) :
    ∃ m records, publishMembers s version frontends backends
        = { s with
              membershipVersion := some version
              frontends := some frontends
              backends := some backends
              counts := m
              records := records }
      ∧ ∀ name : Field, ¬ name.isCounter →
          read m name = if name.stale frontends backends then 0 else read s.counts name := by
  rw [publishMembers]
  simp only [retireFrontends_eq, finishBackendSlots_eq]
  obtain ⟨m, records, hretire, hm⟩ :=
    rewriteAll_frame (retirePlan fun request => request.frontend ∈ frontends)
      { s with
          membershipVersion := some version
          frontends := some frontends
          backends := some backends }
  rw [hretire]
  obtain ⟨m', records', hfin, hm'⟩ :=
    rewriteAll_frame (terminatePlan fun slot => slot.backendPod.all (· ∉ backends))
      { s with
          membershipVersion := some version
          frontends := some frontends
          backends := some backends
          counts := m
          records := records }
  rw [hfin]
  refine ⟨_, records', rfl, fun name hname => ?_⟩
  rw [read_dropEpochs, hm' name hname, hm name hname]

/-- What a newer membership hands to `save` for a record. -/
def Request.republish (frontends backends : Finset String) (request : Request) : Request :=
  (if request.frontend ∈ frontends then request else request.retire).mapSlots
    (Slot.terminate (omits backends))

lemma Request.retire_remaining (h : request.remaining = openUnits request.slots) :
    request.retire.remaining = openUnits request.retire.slots := by
  simp only [retire, mapSlots]
  omega

lemma lookup_publishMembers (s : Ledger) (v : ℕ) (fs bs : Finset String)
    (x : String)
    (h : ∀ request, s.records.lookup x = some request →
      request.kept = some request ∧ request.remaining = openUnits request.slots) :
    (publishMembers s v fs bs).records.lookup x
      = (s.records.lookup x).bind fun request => (request.republish fs bs).kept := by
  rw [publishMembers]
  simp only [retireFrontends_eq, finishBackendSlots_eq, lookup_rewriteAll]
  cases hr : s.records.lookup x with
  | none => rfl
  | some request =>
    obtain ⟨hkept, hrem⟩ := h request hr
    simp only [bind_some, planned_retirePlan _ hkept, decide_eq_true_eq]
    rw [republish]
    split_ifs with hmember
    · exact kept_bind_terminate _ hrem
    · exact kept_bind_terminate _ (retire_remaining hrem)

/-! ### What a call hands to `save` -/

/-- Every record is kept as it is. -/
def Ledger.Saved (s : Ledger) : Prop := ∀ x r, s.records.lookup x = some r → r.kept = some r

/-- The records of a ledger are stored as `save` leaves them. -/
structure Stored (s : Ledger) : Prop where
  kept : s.Saved
  remaining : ∀ x request, s.records.lookup x = some request →
    request.remaining = openUnits request.slots

lemma kept_kept (h : request.kept = some r) : r.kept = some r := by
  have hr := kept_eq_some h
  subst hr
  exact h

lemma Ledger.Saved.save (h : s.Saved) : (RequestLedger.save s id request).Saved := by
  intro x r hr
  rw [RequestLedger.save, lookup_putRecord] at hr
  split_ifs at hr
  · exact kept_kept hr
  · exact h x r hr

lemma Ledger.Saved.rewriteAll {plan : Request → Option ((Slot → Slot) × Request)} (h : s.Saved) :
    (RequestLedger.rewriteAll plan s).Saved := by
  intro x r hr
  rw [lookup_rewriteAll] at hr
  obtain ⟨request, hreq, hplan⟩ := bind_eq_some_iff.mp hr
  rw [planned] at hplan
  split at hplan
  · exact some.inj hplan ▸ h x request hreq
  · exact kept_kept hplan

lemma publishConfig_frame (s : Ledger) (vn : ℕ) (g : Option AdmissionConfig) :
    ∃ v c, publishConfig s vn g = { s with version := v, config := c } := by
  rw [publishConfig.eq_def]
  split
  · exact ⟨_, _, rfl⟩
  · split_ifs <;> exact ⟨_, _, rfl⟩

lemma publishConfig_records (s : Ledger) (v : ℕ) (g : Option AdmissionConfig) :
    (publishConfig s v g).records = s.records := by
  obtain ⟨_, _, hframe⟩ := publishConfig_frame s v g
  rw [hframe]

lemma Ledger.Saved.publish (h : s.Saved) (v : ℕ) (g : Option AdmissionConfig)
    (fs bs : List String) : (RequestLedger.publish s v g fs bs).Saved := by
  have hconfig : (publishConfig s v g).Saved := by rwa [Saved, publishConfig_records]
  rw [RequestLedger.publish, publishMembers]
  simp only [retireFrontends_eq, finishBackendSlots_eq]
  split_ifs
  · exact Saved.rewriteAll (Saved.rewriteAll hconfig)
  · exact hconfig

lemma raiseEpoch_frame (s : Ledger) (name : Field) (n : ℕ) :
    ∃ m, raiseEpoch s name n = { s with counts := m } := by
  rw [raiseEpoch]
  split_ifs
  all_goals exact ⟨_, rfl⟩

lemma raiseEpoch_records (s : Ledger) (name : Field) (n : ℕ) :
    (raiseEpoch s name n).records = s.records := by
  obtain ⟨m, hframe⟩ := raiseEpoch_frame s name n
  rw [hframe]

lemma Effect.saved {s' : Ledger} {rp : Reply} (he : Effect s id action s' rp) (h : s.Saved) :
    s'.Saved := by
  cases he with
  | unchanged | acknowledge | allocate | retain => exact h
  | recover =>
    rw [finishBackendSlots_eq]
    exact Ledger.Saved.rewriteAll (by rwa [Ledger.Saved, raiseEpoch_records])
  | publish | publishMembership => exact h.publish _ _ _ _
  | register =>
    rw [retireFrontends_eq]
    exact Ledger.Saved.rewriteAll h
  | enqueue | negative | cancel | dispatch | retry | slot => exact Ledger.Saved.save h
  | accept => exact Ledger.Saved.save (by rwa [Ledger.Saved, raiseEpoch_records])

/-- The records of a reachable ledger are stored as `save` leaves them. -/
theorem stored_of_reachable (h : ledger.Reachable s) : Stored s where
  kept := h.rec_on (fun x r hr => by cases hr)
    fun s c _ hs => (transition_effect s c.id c.action).saved hs
  remaining := (accounted_of_reachable h).remaining

lemma mapIdx_const (f : Slot → Slot) (ss : List Slot) :
    ss.mapIdx (fun _ slot => f slot) = ss.map f := by
  refine ext_getElem? fun k => ?_
  rw [getElem?_mapIdx, getElem?_map]

lemma mapIdx_set {ss : List Slot} (f : Slot → Slot) (h : ss[j]? = some slot) :
    ss.mapIdx (fun k slot => if k = j then f slot else slot) = ss.set j (f slot) := by
  refine ext_getElem? fun k => ?_
  rw [getElem?_mapIdx, getElem?_set]
  by_cases hk : j = k
  · subst hk
    obtain ⟨hlt, rfl⟩ := List.getElem?_eq_some_iff.mp h
    simp [hlt]
  · cases hslot : ss[k]? <;> simp [hk, Ne.symm hk]

section Written

lemma slots_written (h : ∀ k slot, slotWrite s id action x request k slot = f slot) :
    request.slots.mapIdx (slotWrite s id action x request) = request.slots.map f := by
  rw [← mapIdx_const]
  exact congrArg (request.slots.mapIdx ·) (funext fun k => funext fun slot => h k slot)

/-- The actions that reach no other record than that of their request id. -/
def Action.perRequest : Action → Bool
  | .recoverBackend _ _ | .publish _ _ _ _ | .publishMembership _ _ _ | .registerOwner _ _ => false
  | _ => true

section

variable (h : action.perRequest)
include h

lemma slotWrite_of_ne (hx : x ≠ id) (k : ℕ) (slot : Slot) :
    slotWrite s id action x request k slot = slot := by
  cases action <;> simp [perRequest] at h <;> simp [slotWrite, newMembers, hx]

lemma slotWrite_self (k : ℕ) (slot : Slot) :
    slotWrite s id action id request k slot = action.slotAt k slot := by
  cases action <;> simp [perRequest] at h <;> simp [slotWrite, newMembers]

lemma retires_perRequest : retires s action request = false := by
  cases action <;> simp [perRequest] at h <;> rfl

lemma recordWrite_of_ne (hx : x ≠ id) :
    recordWrite s id action x request = request := by
  simp [recordWrite, slots_written (slotWrite_of_ne h hx), retires_perRequest h, hx]

end

section

variable {s₁ : Ledger} (hs : Stored s) (h : action.perRequest) (hrecs : s₁.records = s.records)
include hs h hrecs

/-- An action of a request id saves the record of its batch. -/
lemma lookup_saved {r' : Request} (hid : s.records.lookup id = some r)
    (hr : s.records.lookup x = some request) (hwrite : recordWrite s id action id r = r') :
    (save s₁ id r').records.lookup x = (recordWrite s id action x request).kept := by
  rw [save, lookup_putRecord, hrecs]
  split_ifs with hx
  · subst hx
    rw [hr] at hid
    rw [some.inj hid, hwrite]
  · rw [recordWrite_of_ne h hx, hs.kept x request hr, hr]

lemma lookup_created (r' : Request) (hid : s.records.lookup id = none)
    (hr : s.records.lookup x = some request) :
    (save s₁ id r').records.lookup x = (recordWrite s id action x request).kept := by
  have hx : x ≠ id := by
    rintro rfl
    simp [hr] at hid
  rw [save, lookup_putRecord, hrecs, if_neg hx, recordWrite_of_ne h hx, hs.kept x request hr, hr]

end

lemma recordWrite_idle (h : action.perRequest) (hslot : ∀ k slot, action.slotAt k slot = slot)
    (haccept : action.isAccept = false) (hcancel : action.isCancel = false) :
    recordWrite s id action x request = request := by
  have hslots : ∀ k slot, slotWrite s id action x request k slot = slot := by
    intro k slot
    by_cases hx : x = id
    · rw [hx, slotWrite_self h, hslot]
    · exact slotWrite_of_ne h hx k slot
  simp [recordWrite, slots_written hslots, retires_perRequest h, haccept, hcancel]

end Written

lemma slots_set (h : action.perRequest)
    (hat : ∀ k slot, action.slotAt k slot = if k = j then f slot else slot)
    (hslot : request.slots[j]? = some slot) :
    request.slots.mapIdx (slotWrite s id action id request) = request.slots.set j (f slot) := by
  rw [← mapIdx_set f hslot]
  refine congrArg (request.slots.mapIdx ·) (funext fun k => funext fun slot => ?_)
  rw [slotWrite_self h, hat]

lemma setSlot_remaining {ss : List Slot} (slot' : Slot) (h : ss[j]? = some slot) :
    openUnits (ss.set j slot') - openUnits ss = slot'.openUnits - slot.openUnits := by
  rw [openUnits, openUnits, sum_set slot' _ h]
  ring

lemma onSlot_slotAt (h : action.onSlot = some (j, f)) :
    action.perRequest ∧ action.isAccept = false ∧ action.isCancel = false
      ∧ ∀ k slot, action.slotAt k slot = if k = j then f slot else slot := by
  cases action <;> simp [onSlot] at h <;> obtain ⟨rfl, rfl⟩ := h <;>
    exact ⟨rfl, rfl, rfl, fun _ _ => rfl⟩

/-! The record handed over, action by action. -/

section Actions

lemma recordWrite_recoverBackend (x pod : String) (n : ℕ) :
    recordWrite s id (.recoverBackend pod n) x request
      = request.mapSlots (Slot.terminate (recovered pod n)) := by
  have hslots : request.slots.mapIdx (slotWrite s id (.recoverBackend pod n) x request)
      = request.slots.map (Slot.terminate (recovered pod n)) := slots_written fun _ _ => rfl
  simp [recordWrite, mapSlots, retires, newMembers, hslots, isAccept,
    isCancel]

lemma recordWrite_registerOwner (x fe : String) (n : ℕ) :
    recordWrite s id (.registerOwner fe n) x request
      = if keepsOwner fe n request then request else request.retire := by
  have hslots : request.slots.mapIdx (slotWrite s id (.registerOwner fe n) x request)
      = request.slots.map fun slot =>
        if keepsOwner fe n request then slot else slot.cancel :=
    slots_written fun _ _ => rfl
  by_cases hkeep : keepsOwner fe n request
  · simp [recordWrite, retires, newMembers, hslots, hkeep, isAccept, isCancel]
  · simp [recordWrite, retire, mapSlots, retires, newMembers, hslots, hkeep,
      isAccept, isCancel]

lemma recordWrite_cancelEntry (fe : String) (n : ℕ) (u : String) :
    recordWrite s id (.cancelEntry fe n u) id request = request.cancel := by
  have hslots : request.slots.mapIdx
        (slotWrite s id (.cancelEntry fe n u) id request)
      = request.slots.map Slot.cancel := slots_written fun k slot => slotWrite_self rfl k slot
  simp [recordWrite, cancel, mapSlots, retires, newMembers, hslots,
    isAccept, isCancel]

lemma recordWrite_dispatch : recordWrite s id .dispatch id request = request.reserve := by
  have hslots : request.slots.mapIdx (slotWrite s id .dispatch id request)
      = request.slots.map Slot.reserve := slots_written fun k slot => slotWrite_self rfl k slot
  simp [recordWrite, reserve, retires, newMembers, hslots,
    (units_reserve request.slots).2.2, isAccept, isCancel]

lemma recordWrite_retry : recordWrite s id .retry id request = request.unreserve := by
  have hslots : request.slots.mapIdx (slotWrite s id .retry id request)
      = request.slots.map Slot.unreserve := slots_written fun k slot => slotWrite_self rfl k slot
  simp [recordWrite, unreserve, retires, newMembers, hslots,
    (units_unreserve request.slots).2.2, isAccept, isCancel]

lemma recordWrite_accept {k : ℕ} (o pod : String) (n : ℕ)
    (hslot : request.slots[k]? = some slot) :
    recordWrite s id (.accept k o pod n) id request
      = { request.setSlot k slot (slot.accept o pod n) with accepted := true } := by
  have hslots : request.slots.mapIdx (slotWrite s id (.accept k o pod n) id request)
      = request.slots.set k (slot.accept o pod n) := slots_set rfl (fun _ _ => rfl) hslot
  simp [recordWrite, setSlot, retires, newMembers, hslots, setSlot_remaining _ hslot,
    isAccept, isCancel]

lemma recordWrite_onSlot {k : ℕ} (hact : action.onSlot = some (k, f))
    (hslot : request.slots[k]? = some slot) :
    recordWrite s id action id request = request.setSlot k slot (f slot) := by
  obtain ⟨hper, hacc, hcan, hat⟩ := onSlot_slotAt hact
  simp [recordWrite, setSlot, retires_perRequest hper, slots_set hper hat hslot,
    setSlot_remaining _ hslot, hacc, hcan]

lemma recordWrite_members {frontends backends : Finset String}
    (h : newMembers s action = some (frontends, backends)) :
    recordWrite s id action x request = request.republish frontends backends := by
  have hflags : action.isAccept = false ∧ action.isCancel = false := by
    cases action <;> simp [newMembers] at h <;> exact ⟨rfl, rfl⟩
  have hslots : request.slots.mapIdx (slotWrite s id action x request)
      = request.slots.map fun slot =>
        (if request.frontend ∈ frontends then slot else slot.cancel).terminate (omits backends) :=
    slots_written fun k slot => by simp only [slotWrite, h]
  by_cases hmember : request.frontend ∈ frontends
  · simp [recordWrite, hslots, hflags, retires, h, republish, hmember, mapSlots]
  · simp only [recordWrite, hslots, hflags, retires, h, republish, hmember, if_false,
      mapSlots, retire, List.map_map, Function.comp_def, mk.injEq,
      Bool.and_false, Bool.or_false, decide_not, decide_false, Bool.not_false, Bool.or_true,
      true_and, and_true]
    ring

/-- The actions that publish a configuration or members. -/
def Action.publishes : Action → Bool
  | .publish _ _ _ _ | .publishMembership _ _ _ => true
  | _ => false

/-- A publication that is not newer hands over what was there. -/
lemma recordWrite_old (hpub : action.publishes) (h : newMembers s action = none) (x : String) :
    recordWrite s id action x request = request := by
  have hslots : request.slots.mapIdx (slotWrite s id action x request)
      = request.slots.map fun slot => slot := by
    refine slots_written fun _ _ => ?_
    cases action <;> simp [publishes] at hpub <;> simp [slotWrite, h, slotAt]
  cases action <;> simp [publishes] at hpub <;>
    simp [recordWrite, hslots, retires, h, isAccept, isCancel]

end Actions

lemma lookup_publish (hs : Stored s) (hpub : action.publishes) (v : ℕ)
    (g : Option AdmissionConfig) (fs bs : List String)
    (hmems : newMembers s action = if v > membershipRevision s then
      some (fs.toFinset, bs.toFinset) else none)
    (hr : s.records.lookup x = some request) :
    (publish s v g fs bs).records.lookup x
      = (recordWrite s id action x request).kept := by
  rw [publish]
  split_ifs at hmems ⊢ with hnew
  · rw [lookup_publishMembers, publishConfig_records, hr, bind_some,
      recordWrite_members hmems]
    intro r hr'
    rw [publishConfig_records] at hr'
    exact ⟨hs.kept x r hr', hs.remaining x r hr'⟩
  · rw [publishConfig_records, recordWrite_old hpub hmems, hs.kept x request hr, hr]

lemma lookup_publish_none (v : ℕ) (g : Option AdmissionConfig)
    (fs bs : List String) (h : s.records.lookup x = none) :
    (publish s v g fs bs).records.lookup x = none := by
  rw [publish]
  split_ifs
  · rw [lookup_publishMembers, publishConfig_records, h]
    · rfl
    · intro request hr
      simp [publishConfig_records, h] at hr
  · rw [publishConfig_records, h]

/-- What a call saves, by its effect. -/
lemma lookup_effect {s' : Ledger} {rp : Reply} (he : Effect s id action s' rp)
    (hs : Stored s) (hr : s.records.lookup x = some request) :
    s' = s ∨ s'.records.lookup x = (recordWrite s id action x request).kept := by
  have hkept := hs.kept x request hr
  cases he with
  | unchanged => exact .inl rfl
  | recover =>
    rw [finishBackendSlots_eq, lookup_rewriteAll, raiseEpoch_records, hr, bind_some,
      planned_terminatePlan _ hkept, recordWrite_recoverBackend]
    exact .inr rfl
  | publish v g fs bs =>
    exact .inr (lookup_publish hs rfl v (some g) fs bs rfl hr)
  | publishMembership v fs bs =>
    exact .inr (lookup_publish hs rfl v none fs bs rfl hr)
  | acknowledge | allocate | retain =>
    rw [recordWrite_idle rfl (fun _ _ => rfl) rfl rfl, hkept]
    exact .inr hr
  | register =>
    rw [recordWrite_registerOwner, ← planned_retirePlan _ hkept, retireFrontends_eq,
      lookup_rewriteAll]
    exact .inr (congrArg (bind · _) hr)
  | enqueue hopen hclosed howns hnone | negative hopen hnone =>
    exact .inr (lookup_created hs rfl rfl _ hnone hr)
  | cancel hopen hid =>
    exact .inr (lookup_saved hs rfl rfl hid hr (recordWrite_cancelEntry _ _ _))
  | dispatch hopen hclosed hid =>
    exact .inr (lookup_saved hs rfl rfl hid hr recordWrite_dispatch)
  | retry hopen hid => exact .inr (lookup_saved hs rfl rfl hid hr recordWrite_retry)
  | accept hopen hid hslot =>
    refine .inr (lookup_saved hs rfl ?_ hid hr (recordWrite_accept _ _ _ hslot))
    rw [raiseEpoch_records]
  | slot hopen hid hact hslot =>
    exact .inr (lookup_saved hs (onSlot_slotAt hact).1 rfl hid hr (recordWrite_onSlot hact hslot))

/-- **A record after a call**: what `save` keeps of the record handed to it. -/
theorem lookup_transition (hs : Stored s) (id : String) (action : Action)
    (hr : s.records.lookup x = some request) :
    (transition s id action).1.records.lookup x = (recordAfter s id action x request).kept := by
  rw [recordAfter]
  split_ifs with hsame
  · rw [hsame, hs.kept x request hr, hr]
  · exact (lookup_effect (transition_effect s id action) hs hr).resolve_left hsame

/-- The records a call creates. -/
inductive Creates (s : Ledger) (id : String) : Action → Request → Prop
  | enqueue {config : AdmissionConfig} {frontends : Finset String} {frontend : String} {epoch : ℕ}
      {caller role : String} {units : ℕ} (hopen : Open s id config frontends)
      (hclosed : config.closed = false) (howns : owns s frontends frontend epoch)
      (hadmits : Admits s config caller role units) :
      Creates s id (.enqueue frontend epoch caller role units)
        (.fresh frontend epoch caller role units)
  | negative {config : AdmissionConfig} {frontends : Finset String} {frontend : String} {epoch : ℕ}
      {caller : String} (hopen : Open s id config frontends)
      (howns : owns s frontends frontend epoch) :
      Creates s id (.cancelEntry frontend epoch caller) (.negative frontend epoch caller)

lemma Creates.slots (h : Creates s id action request) :
    ∀ slot ∈ request.slots, slot = { state := .waiting } := by
  intro slot hslot
  cases h with
  | enqueue => exact eq_of_mem_replicate hslot
  | negative => cases hslot

/-- **A record that appears**: a batch admitted by `enqueue`, or the negative record of
a cancelled one. -/
theorem lookup_transition_none (id : String) (action : Action) (hnone : s.records.lookup x = none) :
    (transition s id action).1.records.lookup x = none
      ∨ ∃ request, x = id ∧ Creates s id action request
        ∧ (transition s id action).1.records.lookup x = some request := by
  have hother : ∀ (s₁ : Ledger) (r request : Request), s₁.records = s.records →
      s.records.lookup id = some request → (save s₁ id r).records.lookup x = none := by
    intro s₁ r request hrecs hr
    have hx : x ≠ id := by
      rintro rfl
      simp [hr] at hnone
    rw [save, lookup_putRecord, if_neg hx, hrecs, hnone]
  have hcreated : ∀ (s₁ : Ledger) (r : Request), s₁.records = s.records → r.kept = some r →
      Creates s id action r → (save s₁ id r).records.lookup x = none
        ∨ ∃ request, x = id ∧ Creates s id action request
          ∧ (save s₁ id r).records.lookup x = some request := by
    intro s₁ r hrecs hkept hr
    rw [save, lookup_putRecord, hrecs]
    split_ifs with hx
    · exact .inr ⟨r, hx, hr, hkept⟩
    · exact .inl hnone
  have he := transition_effect s id action
  generalize (transition s id action).1 = s', (transition s id action).2 = reply at he ⊢
  cases he with
  | unchanged | acknowledge | allocate | retain => exact .inl hnone
  | recover =>
    rw [finishBackendSlots_eq, lookup_rewriteAll, raiseEpoch_records, hnone]
    exact .inl rfl
  | publish | publishMembership => exact .inl (lookup_publish_none _ _ _ _ hnone)
  | register =>
    rw [retireFrontends_eq, lookup_rewriteAll]
    exact .inl (congrArg (bind · _) hnone)
  | enqueue hopen hclosed howns hid hadm =>
    refine hcreated _ _ rfl ?_ (.enqueue hopen hclosed howns hadm)
    have hpos := hadm.positive
    simp only [kept, fresh]
    rw [if_neg (by omega)]
  | negative hopen hid howns => exact hcreated _ _ rfl rfl (.negative hopen howns)
  | cancel hopen hr | dispatch hopen hclosed hr | retry hopen hr | slot hopen hr =>
    exact .inl (hother _ _ _ rfl hr)
  | accept hopen hr => exact .inl (hother _ _ _ (raiseEpoch_records _ _ _) hr)

/-! ### Members and epochs -/

/-- **Where a record comes from**: it was there and the call has rewritten it, or the call
has created it. -/
theorem record_next (hs : Stored s) {c : Command}
    (h : (ledger.next s c).records.lookup x = some r) :
    (∃ request, s.records.lookup x = some request ∧ r = recordAfter s c.id c.action x request)
      ∨ s.records.lookup x = none ∧ x = c.id ∧ Creates s c.id c.action r := by
  change (transition s c.id c.action).1.records.lookup x = some r at h
  cases hbefore : s.records.lookup x with
  | some request =>
    rw [lookup_transition hs c.id c.action hbefore] at h
    exact .inl ⟨request, rfl, kept_eq_some h⟩
  | none =>
    rcases lookup_transition_none c.id c.action hbefore with hnone | ⟨r', hid, hcreates, hr'⟩
    · simp [hnone] at h
    · rw [hr'] at h
      exact .inr ⟨rfl, hid, some.inj h ▸ hcreates⟩

/-- A newer membership replaces the members. -/
lemma publish_new {vn : ℕ} (g : Option AdmissionConfig)
    (fs bs : List String) (hnew : vn > membershipRevision s) :
    (publish s vn g fs bs).frontends = some fs.toFinset
      ∧ (publish s vn g fs bs).backends = some bs.toFinset
      ∧ ∀ name : Field, ¬ name.isCounter →
        count (publish s vn g fs bs) name
          = if name.stale fs.toFinset bs.toFinset then 0 else count s name := by
  rw [publish, if_pos hnew]
  obtain ⟨v, c, hconf⟩ := publishConfig_frame s vn g
  rw [hconf]
  obtain ⟨m, records, hframe, hm⟩ := publishMembers_frame { s with version := v, config := c }
    vn fs.toFinset bs.toFinset
  rw [hframe]
  exact ⟨rfl, rfl, hm⟩

/-- An older membership changes neither members nor counters. -/
lemma publish_old {version : ℕ} (config : Option AdmissionConfig)
    (frontends backends : List String) (hold : ¬ version > membershipRevision s) :
    (publish s version config frontends backends).frontends = s.frontends
      ∧ (publish s version config frontends backends).backends = s.backends
      ∧ ∀ name, count (publish s version config frontends backends) name = count s name := by
  rw [publish, if_neg hold]
  obtain ⟨v, c, hconf⟩ := publishConfig_frame s version config
  rw [hconf]
  exact ⟨rfl, rfl, fun _ => rfl⟩

/-- **A newer membership** is what the members and the epochs are afterwards. -/
theorem members_new (id : String) {fs bs : Finset String}
    (h : newMembers s action = some (fs, bs)) :
    (transition s id action).1.frontends = some fs
      ∧ (transition s id action).1.backends = some bs
      ∧ ∀ name : Field, ¬ name.isCounter →
        count (transition s id action).1 name
          = if name.stale fs bs then 0 else count s name := by
  cases action <;> simp only [newMembers, ite_none_right_eq_some, some.injEq,
    Prod.mk.injEq, reduceCtorEq] at h
  all_goals
    obtain ⟨hnew, rfl, rfl⟩ := h
    exact publish_new _ _ _ hnew

lemma count_raiseEpoch (s : Ledger) (name x : Field) (n : ℕ) :
    count (raiseEpoch s name n) x
      = if x = name then max (count s name) n else count s x := by
  rw [raiseEpoch]
  by_cases hx : x = name
  · subst hx
    split_ifs <;> simp [setCount, count, read_insert] at * <;> omega
  · split_ifs <;> simp [setCount, count, read_insert, hx]

section

variable (plan : Request → Option ((Slot → Slot) × Request)) (s : Ledger)

lemma count_rewriteAll (h : ¬ name.isCounter) : count (rewriteAll plan s) name = count s name := by
  obtain ⟨m, records, hframe, hm⟩ := rewriteAll_frame plan s
  rw [hframe]
  exact hm name h

lemma members_rewriteAll :
    (rewriteAll plan s).frontends = s.frontends ∧ (rewriteAll plan s).backends = s.backends := by
  obtain ⟨m, records, hframe, -⟩ := rewriteAll_frame plan s
  rw [hframe]
  exact ⟨rfl, rfl⟩

end

lemma members_raiseEpoch (s : Ledger) (name : Field) (n : ℕ) :
    (raiseEpoch s name n).frontends = s.frontends
      ∧ (raiseEpoch s name n).backends = s.backends := by
  obtain ⟨m, hframe⟩ := raiseEpoch_frame s name n
  rw [hframe]
  exact ⟨rfl, rfl⟩

lemma count_charged (s : Ledger) (id caller : String) (wait active : ℤ) (request : Request)
    (h : ¬ name.isCounter) :
    count (save { s with counts := charge s.counts caller wait active } id request) name
      = count s name := read_charge_epoch s.counts caller wait active h

lemma count_accepted (s : Ledger) (id u : String) (slot slot' : Slot) (request : Request)
    {x : Field} (n : ℕ) (hname : ¬ name.isCounter) (h : ¬ x.isCounter) :
    count (save (raiseEpoch { s with counts := chargeSlot s.counts u slot slot' } name n)
        id request) x
      = if x = name then max (count s name) n else count s x := by
  have hraise := count_raiseEpoch { s with counts := chargeSlot s.counts u slot slot' } name x
    n
  have hcharge : ∀ y : Field, ¬ y.isCounter →
      read (chargeSlot s.counts u slot slot') y = read s.counts y :=
    fun y hy => read_charge_epoch _ _ _ _ hy
  simp only [count, hcharge name hname, hcharge x h] at hraise ⊢
  exact hraise

/-- The epoch a call activates. -/
def Action.activates : Action → Option (Field × ℕ)
  | .recoverBackend pod epoch => some (.b pod, epoch)
  | .accept _ _ pod epoch => some (.b pod, epoch)
  | .registerOwner frontend epoch => some (.o frontend, epoch)
  | _ => none

lemma activates_owner {frontend : String} {epoch : ℕ}
    (h : action.activates = some (.o frontend, epoch)) :
    action = .registerOwner frontend epoch := by
  cases action <;> simp [activates] at h
  rw [h.1, h.2]

/-- **Without a newer membership** the members stay, and an activated epoch moves only
up, to the one a call carries. -/
theorem members_kept (id : String) (h : newMembers s action = none) :
    (transition s id action).1.frontends = s.frontends
      ∧ (transition s id action).1.backends = s.backends
      ∧ ∀ name : Field, ¬ name.isCounter → name ≠ .ownerEpoch →
        count (transition s id action).1 name = count s name
          ∨ ∃ epoch : ℕ, action.activates = some (name, epoch) ∧ count s name < epoch
            ∧ count (transition s id action).1 name = epoch := by
  have he := transition_effect s id action
  generalize (transition s id action).1 = s', (transition s id action).2 = reply at he ⊢
  cases he with
  | unchanged | acknowledge | negative | retain => exact ⟨rfl, rfl, fun _ _ _ => .inl rfl⟩
  | @recover pod epoch _ hback hpod hepoch =>
    rw [finishBackendSlots_eq, (members_rewriteAll _ _).1, (members_rewriteAll _ _).2,
      (members_raiseEpoch _ _ _).1, (members_raiseEpoch _ _ _).2]
    refine ⟨rfl, rfl, fun name hname _ => ?_⟩
    rw [count_rewriteAll _ _ hname, count_raiseEpoch]
    split_ifs with hx
    · subst hx
      rcases eq_or_lt_of_le hepoch with heq | hlt
      · left; omega
      · exact .inr ⟨epoch, rfl, hlt, by omega⟩
    · exact .inl rfl
  | publish | publishMembership =>
    refine (publish_old _ _ _ ?_).imp_right (And.imp_right fun hc name _ _ => .inl (hc name))
    simpa [newMembers] using h
  | allocate =>
    refine ⟨rfl, rfl, fun name _ hname => .inl ?_⟩
    rw [setCount, count, read_insert, if_neg hname, count]
  | @register _ _ frontend epoch hopen hmember hepoch =>
    rw [retireFrontends_eq, (members_rewriteAll _ _).1, (members_rewriteAll _ _).2]
    refine ⟨rfl, rfl, fun name hname _ => ?_⟩
    rw [count_rewriteAll _ _ hname, setCount, count, read_insert]
    split_ifs with hx
    · subst hx
      exact .inr ⟨epoch, rfl, hepoch, rfl⟩
    · exact .inl rfl
  | enqueue | dispatch | retry | slot =>
    exact ⟨rfl, rfl, fun _ hname _ => .inl (count_charged s _ _ _ _ _ hname)⟩
  | cancel => exact ⟨rfl, rfl, fun _ hname _ => .inl (read_charges_epoch _ _ s.counts _ hname)⟩
  | @accept _ _ _ _ _ _ owner pod epoch hopen hr hslot hback hpod hepoch =>
    refine ⟨(members_raiseEpoch _ _ _).1, (members_raiseEpoch _ _ _).2, fun name hname _ => ?_⟩
    rw [count_accepted _ _ _ _ _ _ _ (by simp [Field.isCounter]) hname]
    split_ifs with hx
    · subst hx
      rcases eq_or_lt_of_le hepoch with heq | hlt
      · left; omega
      · exact .inr ⟨epoch, rfl, hlt, by omega⟩
    · exact .inl rfl

/-- A call that writes leaves the epoch it carries activated. -/
lemma activated_le (hwrite : (transition s id action).1 ≠ s) {epoch : ℕ}
    (h : action.activates = some (name, epoch)) :
    (epoch : ℤ) ≤ count (transition s id action).1 name := by
  have he := transition_effect s id action
  generalize (transition s id action).1 = s' at he hwrite ⊢
  generalize (transition s id action).2 = reply at he
  cases he with
  | unchanged => exact absurd rfl hwrite
  | recover =>
    obtain ⟨rfl, rfl⟩ := Prod.mk.inj (some.inj h)
    rw [finishBackendSlots_eq, count_rewriteAll _ _ (by simp [Field.isCounter]),
      count_raiseEpoch, if_pos rfl]
    exact le_max_right _ _
  | register =>
    obtain ⟨rfl, rfl⟩ := Prod.mk.inj (some.inj h)
    rw [retireFrontends_eq, count_rewriteAll _ _ (by simp [Field.isCounter]), setCount, count,
      read_insert, if_pos rfl]
  | accept =>
    obtain ⟨rfl, rfl⟩ := Prod.mk.inj (some.inj h)
    rw [count_accepted _ _ _ _ _ _ _ (by simp [Field.isCounter]) (by simp [Field.isCounter]),
      if_pos rfl]
    exact le_max_right _ _
  | slot _ _ hact =>
    cases action <;> simp [activates] at h <;> cases hact
  | _ => cases h

end Foretoken.RequestLedger
