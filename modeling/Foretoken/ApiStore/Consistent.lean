import Foretoken.ApiStore.Effect

/-!
The invariant of the stored items, which the views of responses, conversations and chats share.
The lemmas say which small writes keep it; the effects of the calls are composed from them.
-/

namespace Foretoken.ApiStore

open List Option Foretoken.Shelf ListKey

open Function

variable {k key conv : Key} {start : ℕ} {l : ListKey} {owner : Caller} {v : Conversation}

variable {R : Key → Option Record} {C : Key → Option Conversation} {S : Shelf ListKey Key Item}

/-- The caller of an object. -/
def callerOf (R : Key → Option Record) (C : Key → Option Conversation) : Object → Option Caller
  | .record key => (R key).map Record.caller
  | .conversation key => (C key).map Conversation.caller

/-- The response `key` holds the conversation `conv`, and its own inputs start at `start`. -/
def Claims (R : Key → Option Record) (C : Key → Option Conversation) (key conv : Key)
    (start : ℕ) : Prop :=
  ∃ r e v, R key = some r ∧ r.kind = .response e ∧ e.conversation ≠ ""
    ∧ conv = ⟨key.scope, e.conversation⟩ ∧ e.newInputStart = start
    ∧ C conv = some v ∧ v.activeResponse = key.id

/-- The invariant of the records, the conversations and the shelf. -/
structure Consistent (R : Key → Option Record) (C : Key → Option Conversation)
    (S : Shelf ListKey Key Item) : Prop where
  named : ∀ key r, R key = some r → key.id ≠ ""
  exact : S.Exact
  apart : ∀ l l' : ListKey, l.object = l'.object → l ≠ l' → (S.lists l).Disjoint (S.lists l')
  owned : ∀ l x item, x ∈ S.lists l → S.body x = some item →
    callerOf R C l.object = some item.caller
  frozen : ∀ key conv start, Claims R C key conv start →
    (S.lists (.input key)).take start = S.lists (.items conv)
  mine : ∀ key conv start, Claims R C key conv start →
    callerOf R C (.record key) = callerOf R C (.conversation conv)

/-! ### Writes that keep the invariant -/

lemma callerOf_update_record (k : Key) (r : Option Record) (o : Object) :
    callerOf (update R k r) C o
      = if o = .record k then r.map Record.caller else callerOf R C o := by
  cases o with
  | record key =>
    rcases eq_or_ne key k with rfl | hk <;> simp [callerOf, *]
  | conversation => simp [callerOf]

lemma callerOf_update_conversation (k : Key) (v : Option Conversation) (o : Object) :
    callerOf R (update C k v) o
      = if o = .conversation k then v.map Conversation.caller else callerOf R C o := by
  cases o with
  | record => simp [callerOf]
  | conversation key =>
    rcases eq_or_ne key k with rfl | hk <;> simp [callerOf, *]

lemma claims_update_record_of_ne {r : Option Record} (hk : key ≠ k) :
    Claims (update R k r) C key conv start ↔ Claims R C key conv start := by
  rw [Claims, Claims, update_of_ne hk]

lemma claims_update_conversation_of_ne {v : Option Conversation} (hk : conv ≠ k) :
    Claims R (update C k v) key conv start ↔ Claims R C key conv start := by
  rw [Claims, Claims, update_of_ne hk]

lemma lists_dropRecord (S : Shelf ListKey Key Item) (k : Key) (l : ListKey) :
    ((S.release (.input k)).release (.output k)).lists l
      = if l.object = .record k then [] else S.lists l := by
  rw [lists_release, lists_release]
  cases l with
  | input key | output key =>
    rcases eq_or_ne key k with rfl | hk <;> simp [object, *]
  | items => simp [object]

lemma lists_dropConversation (S : Shelf ListKey Key Item) (k : Key) (l : ListKey) :
    (S.release (.items k)).lists l = if l.object = .conversation k then [] else S.lists l := by
  rw [lists_release]
  cases l with
  | input | output => simp [object]
  | items key =>
    rcases eq_or_ne key k with rfl | hk <;> simp [object, *]

namespace Consistent

lemma lists_eq_nil (h : Consistent R C S) (hl : callerOf R C l.object = none) :
    S.lists l = [] := by
  refine eq_nil_iff_forall_not_mem.mpr fun x hx => ?_
  obtain ⟨item, hitem⟩ := h.exact.body_of_mem hx
  have howner := h.owned l x item hx hitem
  simp [hl] at howner

/-- The items of a list belong to the caller of its object. -/
lemma caller_of_mem (h : Consistent R C S) {x : Key} (hl : callerOf R C l.object = some owner)
    (hx : x ∈ S.lists l) : ∃ body, S.body x = some ⟨owner, body⟩ := by
  obtain ⟨⟨u, body⟩, hitem⟩ := h.exact.body_of_mem hx
  have howner := h.owned l x _ hx hitem
  rw [hl] at howner
  cases howner
  exact ⟨body, hitem⟩

variable {R' : Key → Option Record} {C' : Key → Option Conversation}
  {S' : Shelf ListKey Key Item}

section

variable (h : Consistent R C S)
include h

/-- **An object comes or goes**, without items or claims. -/
lemma replace {o : Object} (hnamed : ∀ key r, R' key = some r → key.id ≠ "") (hexact : S'.Exact)
    (hbody : ∀ x item, S'.body x = some item → S.body x = some item)
    (hlists : ∀ l, S'.lists l = if l.object = o then [] else S.lists l)
    (hcaller : ∀ o', o' ≠ o → callerOf R' C' o' = callerOf R C o')
    (hclaims : ∀ key conv start, Claims R' C' key conv start →
      .record key ≠ o ∧ .conversation conv ≠ o ∧ Claims R C key conv start) :
    Consistent R' C' S' where
  named := hnamed
  exact := hexact
  apart l l' hobj hne := by
    rw [hlists, hlists, ← hobj]
    split
    · exact disjoint_nil_left _
    · exact h.apart l l' hobj hne
  owned l x item hx hitem := by
    rw [hlists] at hx
    split at hx
    · cases hx
    · rename_i hl
      rw [hcaller _ hl]
      exact h.owned l x item hx (hbody x item hitem)
  frozen key conv start hclaim := by
    obtain ⟨hkey, hconv, hclaim⟩ := hclaims key conv start hclaim
    rw [hlists, hlists, object, if_neg hkey, object, if_neg hconv]
    exact h.frozen key conv start hclaim
  mine key conv start hclaim := by
    obtain ⟨hkey, hconv, hclaim⟩ := hclaims key conv start hclaim
    rw [hcaller _ hkey, hcaller _ hconv]
    exact h.mine key conv start hclaim

lemma lists_eq_ite {o : Object} (ho : callerOf R C o = none) (l : ListKey) :
    S.lists l = if l.object = o then [] else S.lists l := by
  split
  · rename_i hl
    exact h.lists_eq_nil (hl ▸ ho)
  · rfl

lemma insertRecord {r : Record} (hk : R k = none) (hid : k.id ≠ "")
    (hclaims : ∀ conv start, ¬ Claims (update R k (some r)) C k conv start) :
    Consistent (update R k (some r)) C S := by
  refine h.replace (o := .record k) ?_ h.exact (fun _ _ => id)
    (h.lists_eq_ite (by rw [callerOf, hk]; rfl)) ?_ ?_
  · intro key r' hr'
    by_cases hkey : key = k
    · exact hkey ▸ hid
    · rw [update_of_ne hkey] at hr'
      exact h.named key r' hr'
  · exact fun o ho => (callerOf_update_record k _ o).trans (if_neg ho)
  · intro key conv start hclaim
    have hkey : key ≠ k := by
      rintro rfl
      exact hclaims conv start hclaim
    exact ⟨by simpa using hkey, by simp, (claims_update_record_of_ne hkey).mp hclaim⟩

/-- A rewritten record keeps its caller and its claim. -/
lemma setRecord {r r' : Record} (hr : R k = some r) (hcaller : r'.caller = r.caller)
    (hkind : ∀ e', r'.kind = .response e' →
      ∃ e, r.kind = .response e ∧ e'.conversation = e.conversation ∧
        e'.newInputStart = e.newInputStart) :
    Consistent (update R k (some r')) C S := by
  have hcals : callerOf (update R k (some r')) C = callerOf R C := by
    funext o
    rw [callerOf_update_record]
    split
    · rename_i ho
      rw [ho, callerOf, hr, map_some, map_some, hcaller]
    · rfl
  have hclaims : ∀ key conv start, Claims (update R k (some r')) C key conv start →
      Claims R C key conv start := by
    intro key conv start hclaim
    by_cases hkey : key = k
    · subst hkey
      obtain ⟨r'', e', v, hr'', hkind', hne, hconv, hstart, hv, hactive⟩ := hclaim
      rw [update_self] at hr''
      cases hr''
      obtain ⟨e, he, hconversation, hinput⟩ := hkind e' hkind'
      rw [hconversation] at hne hconv
      exact ⟨r, e, v, hr, he, hne, hconv, hinput.symm.trans hstart, hv, hactive⟩
    · exact (claims_update_record_of_ne hkey).mp hclaim
  constructor
  · intro key r'' hr''
    by_cases hkey : key = k
    · exact hkey ▸ h.named k r hr
    · rw [update_of_ne hkey] at hr''
      exact h.named key r'' hr''
  · exact h.exact
  · exact h.apart
  · rw [hcals]
    exact h.owned
  · intro key conv start hclaim
    exact h.frozen key conv start (hclaims key conv start hclaim)
  · intro key conv start hclaim
    rw [hcals]
    exact h.mine key conv start (hclaims key conv start hclaim)

lemma dropRecord (k : Key) :
    Consistent (update R k none) C ((S.release (.input k)).release (.output k)) := by
  have hpres : ∀ key r, update R k none key = some r → key ≠ k := by
    rintro key r hr rfl
    simp [update_self] at hr
  refine h.replace (o := .record k) ?_ ((h.exact.release _).release _)
    (fun _ _ hitem => body_of_release (body_of_release hitem)) (lists_dropRecord S k)
    (fun o ho => (callerOf_update_record k _ o).trans (if_neg ho)) ?_
  · intro key r hr
    rw [update_of_ne (hpres key r hr)] at hr
    exact h.named key r hr
  · intro key conv start hclaim
    obtain ⟨r, -, -, hr, -⟩ := id hclaim
    have hkey := hpres key r hr
    exact ⟨by simpa using hkey, by simp, (claims_update_record_of_ne hkey).mp hclaim⟩

/-- A rewritten conversation keeps its caller; its claim is frozen. -/
lemma setConversation {v' : Conversation} (hv : C k = some v) (hcaller : v'.caller = v.caller)
    (hclmd : ∀ key start, Claims R (update C k (some v')) key k start →
      (S.lists (.input key)).take start = S.lists (.items k) ∧
        callerOf R C (.record key) = callerOf R C (.conversation k)) :
    Consistent R (update C k (some v')) S := by
  have hcals : callerOf R (update C k (some v')) = callerOf R C := by
    funext o
    rw [callerOf_update_conversation]
    split
    · rename_i ho
      rw [ho, callerOf, hv, map_some, map_some, hcaller]
    · rfl
  constructor
  · exact h.named
  · exact h.exact
  · exact h.apart
  · rw [hcals]
    exact h.owned
  · intro key conv start hclaim
    by_cases hconv : conv = k
    · subst hconv
      exact (hclmd key start hclaim).1
    · exact h.frozen key conv start ((claims_update_conversation_of_ne hconv).mp hclaim)
  · intro key conv start hclaim
    rw [hcals]
    by_cases hconv : conv = k
    · subst hconv
      exact (hclmd key start hclaim).2
    · exact h.mine key conv start ((claims_update_conversation_of_ne hconv).mp hclaim)

lemma not_claims_of_idle (hv : C conv = some v) (hactive : v.activeResponse = "") :
    ¬ Claims R C key conv start := by
  rintro ⟨r, -, v', hr, -, -, -, -, hv', hactive'⟩
  rw [hv] at hv'
  cases hv'
  exact h.named key r hr (hactive'.symm.trans hactive)

lemma editConversation {v' : Conversation} (hv : C k = some v) (hcaller : v'.caller = v.caller)
    (hactive : v'.activeResponse = "" ∨ v'.activeResponse = v.activeResponse) :
    Consistent R (update C k (some v')) S := by
  refine h.setConversation hv hcaller fun key start hclaim => ?_
  obtain ⟨r, e, w, hr, he, hne, hconv, hstart, hw, hwactive⟩ := hclaim
  rw [update_self] at hw
  cases hw
  rcases hactive with hempty | hkeep
  · exact absurd (hwactive.symm.trans hempty) (h.named key r hr)
  · have hclaim : Claims R C key k start :=
      ⟨r, e, v, hr, he, hne, hconv, hstart, hv, hkeep ▸ hwactive⟩
    exact ⟨h.frozen key k start hclaim, h.mine key k start hclaim⟩

lemma insertConversation (hk : C k = none) (hactive : v.activeResponse = "") :
    Consistent R (update C k (some v)) S := by
  refine h.replace (o := .conversation k) h.named h.exact (fun _ _ => id)
    (h.lists_eq_ite (by rw [callerOf, hk]; rfl))
    (fun o ho => (callerOf_update_conversation k _ o).trans (if_neg ho))
    fun key conv start hclaim => ?_
  have hconv : conv ≠ k := by
    obtain ⟨r, -, w, hr, -, -, -, -, hw, hwactive⟩ := id hclaim
    rintro rfl
    rw [update_self] at hw
    cases hw
    exact h.named key r hr (hwactive.symm.trans hactive)
  exact ⟨by simp, by simpa using hconv, (claims_update_conversation_of_ne hconv).mp hclaim⟩

lemma dropConversation (k : Key) :
    Consistent R (update C k none) (S.release (.items k)) := by
  refine h.replace (o := .conversation k) h.named (h.exact.release _)
    (fun _ _ => body_of_release) (lists_dropConversation S k)
    (fun o ho => (callerOf_update_conversation k _ o).trans (if_neg ho))
    fun key conv start hclaim => ?_
  have hconv : conv ≠ k := by
    obtain ⟨-, -, v, -, -, -, -, -, hv, -⟩ := id hclaim
    rintro rfl
    simp [update_self] at hv
  exact ⟨by simp, by simpa using hconv, (claims_update_conversation_of_ne hconv).mp hclaim⟩

/-- New items keep the lists of an object apart. -/
lemma apart_update {new : List Key}
    (hnew : ∀ x ∈ new, ∀ l' : ListKey, l'.object = l.object → x ∉ S.lists l') {l₁ l₂ : ListKey}
    (hobj : l₁.object = l₂.object) (hne : l₁ ≠ l₂) :
    (update S.lists l (S.lists l ++ new) l₁).Disjoint (update S.lists l (S.lists l ++ new) l₂) := by
  intro x hx₁ hx₂
  have hold : x ∈ S.lists l₁ → x ∉ S.lists l₂ := fun h₁ h₂ => h.apart l₁ l₂ hobj hne h₁ h₂
  grind [update_apply]

/-- A list that no claim reads may change. -/
lemma frozen_update {list : List Key}
    (hfree : ∀ key conv start, Claims R C key conv start → l ≠ .input key ∧ l ≠ .items conv)
    (hclaim : Claims R C key conv start) :
    (update S.lists l list (.input key)).take start = update S.lists l list (.items conv) := by
  obtain ⟨hinput, hitems⟩ := hfree key conv start hclaim
  rw [update_of_ne hinput.symm, update_of_ne hitems.symm]
  exact h.frozen key conv start hclaim

end

end Consistent

/-- Rows as `append_items` stores them. -/
def storedRows (owner : Caller) (rows : List (Key × String)) : List (Key × Item) :=
  rows.map fun row => (row.1, ⟨owner, row.2⟩)

@[simp] lemma map_fst_storedRows (owner : Caller) (rows : List (Key × String)) :
    (storedRows owner rows).map Prod.fst = rows.map Prod.fst := by
  simp [storedRows]

lemma caller_of_mem_storedRows {rows : List (Key × String)} {x : Key} {item : Item}
    (h : (x, item) ∈ storedRows owner rows) : item.caller = owner := by
  obtain ⟨row, -, hrow⟩ := mem_map.mp h
  rw [← (Prod.mk.inj hrow).2]

namespace Consistent

lemma append (h : Consistent R C S) {rows : List (Key × String)}
    (hl : callerOf R C l.object = some owner) (hnodup : (rows.map Prod.fst).Nodup)
    (hnew : ∀ x ∈ rows.map Prod.fst, ∀ l' : ListKey, l'.object = l.object → x ∉ S.lists l')
    (hagrees : S.Agrees (storedRows owner rows))
    (hfree : ∀ key conv start, Claims R C key conv start → l ≠ .input key ∧ l ≠ .items conv) :
    Consistent R C (S.append l (storedRows owner rows)) where
  named := h.named
  exact := by
    refine h.exact.append (by simpa using hnodup) fun x hx => ?_
    exact hnew x (by simpa using hx) l rfl
  apart l₁ l₂ hobj hne := by
    rw [lists_append, map_fst_storedRows]
    exact h.apart_update hnew hobj hne
  owned l' x item hx hitem := by
    rw [lists_append, map_fst_storedRows] at hx
    by_cases hmem : x ∈ rows.map Prod.fst
    · -- an appended item carries the caller of the object, also where it is listed already
      obtain ⟨⟨y, stored⟩, hstored, rfl⟩ := mem_map.mp (map_fst_storedRows owner rows ▸ hmem)
      have hbody := S.body_append_of_mem l (by simpa using hnodup) hstored
      rw [hbody] at hitem
      cases hitem
      rw [caller_of_mem_storedRows hstored]
      by_cases hl' : l' = l
      · rw [hl', hl]
      · rw [update_of_ne hl'] at hx
        obtain ⟨old, hold⟩ := h.exact.body_of_mem hx
        have hcaller := h.owned l' y old hx hold
        rcases hagrees _ hstored with hnone | hsome
        · simp [hold] at hnone
        · rw [hold, some.injEq] at hsome
          rw [hcaller, hsome, caller_of_mem_storedRows hstored]
    · rw [body_append_of_notMem S l (by simpa using hmem)] at hitem
      refine h.owned l' x item ?_ hitem
      grind [update_apply]
  frozen key conv start hclaim := by
    rw [lists_append]
    exact h.frozen_update hfree hclaim
  mine := h.mine

/-- Items of the caller of the object that are listed once more. -/
lemma pin (h : Consistent R C S) {xs : List Key} (hl : callerOf R C l.object = some owner)
    (hnodup : xs.Nodup) (hnew : ∀ x ∈ xs, ∀ l' : ListKey, l'.object = l.object → x ∉ S.lists l')
    (hbody : ∀ x ∈ xs, ∃ body, S.body x = some ⟨owner, body⟩)
    (hfree : ∀ key conv start, Claims R C key conv start → l ≠ .input key ∧ l ≠ .items conv) :
    Consistent R C (S.pin l xs) where
  named := h.named
  exact := by
    refine h.exact.pin hnodup (fun x hx => hnew x hx l rfl) fun x hx => ?_
    obtain ⟨body, hsome⟩ := hbody x hx
    simp [hsome]
  apart l₁ l₂ hobj hne := by
    rw [lists_pin]
    exact h.apart_update hnew hobj hne
  owned l' x item hx hitem := by
    rw [lists_pin] at hx
    rw [body_pin] at hitem
    have hold : x ∈ S.lists l' → callerOf R C l'.object = some item.caller :=
      fun hx => h.owned l' x item hx hitem
    grind [update_apply]
  frozen key conv start hclaim := by
    rw [lists_pin]
    exact h.frozen_update hfree hclaim
  mine := h.mine

lemma discardItem (h : Consistent R C S) (x : Key) (hidle : ∀ key start, ¬ Claims R C key k start) :
    Consistent R C (S.discard (.items k) x) where
  named := h.named
  exact := h.exact.discard _ x
  apart l₁ l₂ hobj hne := by
    intro y hy₁ hy₂
    exact h.apart l₁ l₂ hobj hne (lists_discard_subset hy₁) (lists_discard_subset hy₂)
  owned l y item hy hitem :=
    h.owned l y item (lists_discard_subset hy) (body_of_discard hitem)
  frozen key conv start hclaim := by
    rw [lists_discard]
    refine h.frozen_update (fun key' conv' start' hclaim' => ⟨by simp, ?_⟩) hclaim
    rintro ⟨⟩
    exact hidle key' start' hclaim'
  mine := h.mine

end Consistent

end Foretoken.ApiStore
