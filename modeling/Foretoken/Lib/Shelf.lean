import Mathlib.Data.Finset.Basic
import Mathlib.Logic.Function.Basic
import Mathlib.Tactic

/-!
Items shared between lists, with reference counting.

A shelf keeps the body of an item once, and lists the item under any number of lists. Next to the
body stands the set of the lists that own it; the body is deleted together with its last owner.
-/

namespace Foretoken

open List

open Function

/-- Lists of items, the owners of each item, and the bodies. -/
structure Shelf (L X B : Type*) where
  lists : L → List X
  owners : X → Finset L
  body : X → Option B

namespace Shelf

variable {L X B : Type*} [DecidableEq L] [DecidableEq X]

/-- A shelf without items. -/
def empty : Shelf L X B := ⟨fun _ => [], fun _ => ∅, fun _ => none⟩

section

variable (s : Shelf L X B) (l : L) (x : X)

/-- Writes the body of an item, adds the list to its owners and the item to the list. -/
def put (b : B) : Shelf L X B where
  lists := update s.lists l (s.lists l ++ [x])
  owners := update s.owners x (insert l (s.owners x))
  body := update s.body x (some b)

/-- Writes and lists items one after the other. -/
def append (items : List (X × B)) : Shelf L X B :=
  items.foldl (fun s item => s.put l item.1 item.2) s

/-- Lists an item without writing its body. -/
def pinOne : Shelf L X B where
  lists := update s.lists l (s.lists l ++ [x])
  owners := update s.owners x (insert l (s.owners x))
  body := s.body

/-- Lists items one after the other without writing their bodies. -/
def pin (xs : List X) : Shelf L X B :=
  xs.foldl (fun s x => s.pinOne l x) s

/-- Takes a list out of the owners of an item, which is deleted with its last owner. -/
def unlink : Shelf L X B where
  lists := s.lists
  owners := update s.owners x ((s.owners x).erase l)
  body := if (s.owners x).erase l = ∅ then update s.body x none else s.body

/-- `unlink` for all items of a list. -/
def unlinkAll (xs : List X) : Shelf L X B :=
  xs.foldl (fun s x => s.unlink l x) s

/-- Gives up all items of a list and deletes it. -/
def release : Shelf L X B :=
  let s := s.unlinkAll l (s.lists l)
  { s with lists := update s.lists l [] }

/-- Takes one item out of a list. -/
def discard : Shelf L X B :=
  { s with lists := update s.lists l ((s.lists l).filter (· ≠ x)) }.unlink l x

end

/-! ### Closed forms -/

section

variable (s : Shelf L X B) (l : L)

lemma lists_append (xs : List (X × B)) :
    (s.append l xs).lists = update s.lists l (s.lists l ++ xs.map Prod.fst) := by
  induction xs generalizing s with
  | nil => simp [append]
  | cons item xs ih =>
    change ((s.put l item.1 item.2).append l xs).lists = _
    rw [ih]
    simp [put]

lemma owners_append (xs : List (X × B)) (x : X) :
    (s.append l xs).owners x
      = if x ∈ xs.map Prod.fst then insert l (s.owners x) else s.owners x := by
  induction xs generalizing s with
  | nil => simp [append]
  | cons item xs ih =>
    change ((s.put l item.1 item.2).append l xs).owners x = _
    rw [ih, map_cons]
    rcases eq_or_ne x item.1 with rfl | hx
    · simp [put]
    · simp only [put, mem_cons, hx, false_or, update_of_ne, ne_eq, not_false_eq_true]

lemma body_append_of_notMem {xs : List (X × B)} {x : X} (h : x ∉ xs.map Prod.fst) :
    (s.append l xs).body x = s.body x := by
  induction xs generalizing s with
  | nil => rfl
  | cons item xs ih =>
    rw [map_cons, mem_cons, not_or] at h
    change ((s.put l item.1 item.2).append l xs).body x = _
    rw [ih _ h.2]
    simp [put, h.1]

lemma body_append_of_mem {xs : List (X × B)} (hnodup : (xs.map Prod.fst).Nodup) {x : X} {b : B}
    (h : (x, b) ∈ xs) :
    (s.append l xs).body x = some b := by
  induction xs generalizing s with
  | nil => cases h
  | cons item xs ih =>
    rw [map_cons, nodup_cons] at hnodup
    change ((s.put l item.1 item.2).append l xs).body x = _
    rcases mem_cons.mp h with rfl | h
    · rw [body_append_of_notMem _ _ hnodup.1]
      simp [put]
    · exact ih _ hnodup.2 h

end

/-- Items that are new, or written as they are stored. -/
def Agrees (s : Shelf L X B) (items : List (X × B)) : Prop :=
  ∀ item ∈ items, s.body item.1 = none ∨ s.body item.1 = some item.2

/-- Items that agree with the shelf leave its bodies alone. -/
lemma body_append_of_agrees {s : Shelf L X B} (l : L) {xs : List (X × B)}
    (hagrees : s.Agrees xs) (hnodup : (xs.map Prod.fst).Nodup) {x : X} {b : B}
    (hx : s.body x = some b) : (s.append l xs).body x = some b := by
  by_cases hmem : x ∈ xs.map Prod.fst
  · obtain ⟨⟨y, b'⟩, hitem, rfl⟩ := mem_map.mp hmem
    rw [body_append_of_mem s l hnodup hitem]
    rcases hagrees _ hitem with hnone | hsome
    · simp [hnone] at hx
    · exact hsome.symm.trans hx
  · rw [body_append_of_notMem s l hmem, hx]

section

variable (s : Shelf L X B) (l : L)

section

variable (xs : List X)

lemma lists_pin :
    (s.pin l xs).lists = update s.lists l (s.lists l ++ xs) := by
  induction xs generalizing s with
  | nil => simp [pin]
  | cons x xs ih =>
    change ((s.pinOne l x).pin l xs).lists = _
    rw [ih]
    simp [pinOne]

lemma owners_pin (x : X) :
    (s.pin l xs).owners x = if x ∈ xs then insert l (s.owners x) else s.owners x := by
  induction xs generalizing s with
  | nil => simp [pin]
  | cons y xs ih =>
    change ((s.pinOne l y).pin l xs).owners x = _
    rw [ih]
    rcases eq_or_ne x y with rfl | hx <;> simp [pinOne, *]

lemma body_pin : (s.pin l xs).body = s.body := by
  induction xs generalizing s with
  | nil => rfl
  | cons x xs ih => exact ih (s.pinOne l x)

lemma lists_unlinkAll :
    (s.unlinkAll l xs).lists = s.lists := by
  induction xs generalizing s with
  | nil => rfl
  | cons x xs ih => exact ih (s.unlink l x)

lemma owners_unlinkAll (x : X) :
    (s.unlinkAll l xs).owners x = if x ∈ xs then (s.owners x).erase l else s.owners x := by
  induction xs generalizing s with
  | nil => simp [unlinkAll]
  | cons y xs ih =>
    change ((s.unlink l y).unlinkAll l xs).owners x = _
    rw [ih]
    rcases eq_or_ne x y with rfl | hx <;> simp [unlink, *]

end

lemma body_unlink (x y : X) :
    (s.unlink l y).body x = if x = y ∧ (s.owners x).erase l = ∅ then none else s.body x := by
  rw [unlink]
  rcases eq_or_ne x y with rfl | hx <;> split <;> simp_all

lemma body_unlinkAll (xs : List X) (x : X) :
    (s.unlinkAll l xs).body x = if x ∈ xs ∧ (s.owners x).erase l = ∅ then none else s.body x := by
  induction xs generalizing s with
  | nil => simp [unlinkAll]
  | cons y xs ih =>
    change ((s.unlink l y).unlinkAll l xs).body x = _
    rw [ih, body_unlink]
    rcases eq_or_ne x y with rfl | hx
    · by_cases he : (s.owners x).erase l = ∅ <;> simp [unlink, he]
    · simp [unlink, hx]

lemma lists_release :
    (s.release l).lists = update s.lists l [] := by
  rw [release, lists_unlinkAll]

lemma owners_release (x : X) :
    (s.release l).owners x = if x ∈ s.lists l then (s.owners x).erase l else s.owners x :=
  s.owners_unlinkAll l (s.lists l) x

lemma body_release (x : X) :
    (s.release l).body x = if x ∈ s.lists l ∧ (s.owners x).erase l = ∅ then none else s.body x :=
  s.body_unlinkAll l (s.lists l) x

lemma lists_discard (x : X) :
    (s.discard l x).lists = update s.lists l ((s.lists l).filter (· ≠ x)) := rfl

end

lemma lists_discard_subset {s : Shelf L X B} {l l' : L} {x : X} :
    (s.discard l x).lists l' ⊆ s.lists l' := by
  intro y hy
  rw [lists_discard] at hy
  by_cases hl : l' = l
  · subst hl
    rw [update_self] at hy
    exact mem_of_mem_filter hy
  · rwa [update_of_ne hl] at hy

lemma owners_discard (s : Shelf L X B) (l : L) (x y : X) :
    (s.discard l x).owners y = if y = x then (s.owners x).erase l else s.owners y := by
  simp [discard, unlink, update_apply]

lemma body_discard (s : Shelf L X B) (l : L) (x y : X) :
    (s.discard l x).body y = if y = x ∧ (s.owners y).erase l = ∅ then none else s.body y :=
  body_unlink _ _ _ _

lemma body_of_release {s : Shelf L X B} {l : L} {x : X} {b : B}
    (h : (s.release l).body x = some b) : s.body x = some b := by
  rw [body_release] at h
  exact (Option.ite_none_left_eq_some.mp h).2

lemma body_of_discard {s : Shelf L X B} {l : L} {x y : X} {b : B}
    (h : (s.discard l x).body y = some b) : s.body y = some b := by
  rw [body_discard] at h
  exact (Option.ite_none_left_eq_some.mp h).2

/-! ### The reference count -/

/-- The owners of an item are the lists it occurs in, no list repeats an item, and a
body has an owner. -/
structure Exact (s : Shelf L X B) : Prop where
  owned : ∀ l x, l ∈ s.owners x ↔ x ∈ s.lists l
  nodup : ∀ l, (s.lists l).Nodup
  stored : ∀ x, s.body x ≠ none ↔ s.owners x ≠ ∅

omit [DecidableEq L] [DecidableEq X] in
lemma exact_empty : (empty : Shelf L X B).Exact := by
  constructor <;> simp [empty]

namespace Exact

variable {s : Shelf L X B}

omit [DecidableEq L] [DecidableEq X] in
lemma body_of_mem (h : s.Exact) {l : L} {x : X} (hx : x ∈ s.lists l) : ∃ b, s.body x = some b := by
  have hne := (h.stored x).mpr (Finset.ne_empty_of_mem ((h.owned l x).mpr hx))
  exact Option.ne_none_iff_exists'.mp hne

omit [DecidableEq L] [DecidableEq X] in
lemma notMem_of_body (h : s.Exact) {x : X} (hx : s.body x = none) (l : L) : x ∉ s.lists l := by
  intro hmem
  obtain ⟨b, hb⟩ := h.body_of_mem hmem
  simp [hx] at hb

lemma owned_update (h : s.Exact) {l : L} {new : List X} {l' : L} {x : X} {owners : Finset L}
    (howners : owners = if x ∈ new then insert l (s.owners x) else s.owners x) :
    l' ∈ owners ↔ x ∈ update s.lists l (s.lists l ++ new) l' := by
  rw [howners]
  rcases eq_or_ne l' l with rfl | hl <;> by_cases hx : x ∈ new <;> simp [*, h.owned]

omit [DecidableEq X] in
lemma nodup_update (h : s.Exact) {l : L} {new : List X} (hnew : new.Nodup)
    (hfresh : ∀ x ∈ new, x ∉ s.lists l) (l' : L) :
    (update s.lists l (s.lists l ++ new) l').Nodup := by
  by_cases hl : l' = l
  · subst hl
    rw [update_self]
    refine (h.nodup l').append hnew ?_
    intro x hx hx'
    exact hfresh x hx' hx
  · rw [update_of_ne hl]
    exact h.nodup l'

theorem append (h : s.Exact) {l : L} {xs : List (X × B)} (hnodup : (xs.map Prod.fst).Nodup)
    (hfresh : ∀ x ∈ xs.map Prod.fst, x ∉ s.lists l) : (s.append l xs).Exact where
  owned l' x := by
    rw [lists_append]
    exact h.owned_update (s.owners_append l xs x)
  nodup l' := by
    rw [lists_append]
    exact h.nodup_update hnodup hfresh l'
  stored x := by
    rw [owners_append]
    by_cases hx : x ∈ xs.map Prod.fst
    · obtain ⟨⟨y, b⟩, hmem, rfl⟩ := mem_map.mp hx
      rw [body_append_of_mem s l hnodup hmem, if_pos hx]
      simp
    · rw [body_append_of_notMem s l hx, if_neg hx]
      exact h.stored x

theorem pin (h : s.Exact) {l : L} {xs : List X} (hnodup : xs.Nodup)
    (hfresh : ∀ x ∈ xs, x ∉ s.lists l) (hbody : ∀ x ∈ xs, s.body x ≠ none) :
    (s.pin l xs).Exact where
  owned l' x := by
    rw [lists_pin]
    exact h.owned_update (s.owners_pin l xs x)
  nodup l' := by
    rw [lists_pin]
    exact h.nodup_update hnodup hfresh l'
  stored x := by
    rw [owners_pin, body_pin]
    split
    · rename_i hx
      simp [hbody x hx]
    · exact h.stored x

lemma stored_erase (h : s.Exact) {l : L} {x : X} {xs : List X}
    (hxs : x ∉ xs → (s.owners x).erase l = s.owners x) :
    (if x ∈ xs ∧ (s.owners x).erase l = ∅ then none else s.body x) ≠ none
      ↔ (s.owners x).erase l ≠ ∅ := by
  by_cases hx : x ∈ xs
  · by_cases he : (s.owners x).erase l = ∅
    · simp [hx, he]
    · have hne : s.owners x ≠ ∅ := by
        rintro hempty
        exact he (by rw [hempty, Finset.erase_empty])
      simp [he, (h.stored x).mpr hne]
  · rw [hxs hx, if_neg (fun hc => hx hc.1)]
    exact h.stored x

omit [DecidableEq X] in
lemma erase_of_notMem (h : s.Exact) {l : L} {x : X} (hx : x ∉ s.lists l) :
    (s.owners x).erase l = s.owners x :=
  Finset.erase_eq_of_notMem (fun hmem => hx ((h.owned l x).mp hmem))

theorem release (h : s.Exact) (l : L) : (s.release l).Exact := by
  have howners : ∀ x, (s.release l).owners x = (s.owners x).erase l := by
    intro x
    rw [owners_release]
    split
    · rfl
    · rename_i hx
      exact (h.erase_of_notMem hx).symm
  constructor
  · intro l' x
    rw [howners, lists_release]
    rcases eq_or_ne l' l with rfl | hl <;> simp [*, h.owned]
  · intro l'
    rw [lists_release]
    rcases eq_or_ne l' l with rfl | hl <;> simp [*, h.nodup]
  · intro x
    rw [howners, body_release]
    exact h.stored_erase fun hx => h.erase_of_notMem hx

theorem discard (h : s.Exact) (l : L) (x : X) : (s.discard l x).Exact := by
  constructor
  · intro l' y
    rw [owners_discard, lists_discard]
    rcases eq_or_ne y x with rfl | hy <;> rcases eq_or_ne l' l with rfl | hl <;>
      simp [*, h.owned]
  · intro l'
    rw [lists_discard]
    rcases eq_or_ne l' l with rfl | hl
    · simpa using (h.nodup l').filter _
    · simpa [hl] using h.nodup l'
  · intro y
    rw [owners_discard, body_discard]
    by_cases hy : y = x
    · subst hy
      have herase := h.stored_erase (l := l) fun hy : y ∉ [y] => absurd (mem_singleton_self y) hy
      simpa using herase
    · simp only [hy]
      exact h.stored y

end Exact

end Shelf

end Foretoken
