import Mathlib.Data.List.AList
import Mathlib.Data.List.Sort
import Mathlib.Tactic

/-!
Finite maps and sets that are read in the order of their keys.

A map that is iterated in key order is an association list without repeated keys (`Table`); the
order is made when it is read, so it never has to be kept.
-/

namespace Foretoken

open List Option AList

/-- The list in increasing order. -/
def sortByOrd {α : Type*} [Ord α] (l : List α) : List α :=
  l.insertionSort fun a b => (compare a b).isLE

@[simp] lemma mem_sortByOrd {α : Type*} [Ord α] {l : List α} {a : α} :
    a ∈ sortByOrd l ↔ a ∈ l :=
  (perm_insertionSort _ l).mem_iff

/-- The list in increasing order of a key. -/
def sortOn {α β : Type*} [Ord β] (key : α → β) (l : List α) : List α :=
  l.insertionSort fun a b => (compare (key a) (key b)).isLE

lemma perm_sortOn {α β : Type*} [Ord β] (key : α → β) (l : List α) : (sortOn key l).Perm l :=
  perm_insertionSort _ l

@[simp] lemma mem_sortOn {α β : Type*} [Ord β] {key : α → β} {l : List α} {a : α} :
    a ∈ sortOn key l ↔ a ∈ l :=
  (perm_sortOn key l).mem_iff

/-- The elements of a list, each once and in increasing order. -/
def orderedSet {α : Type*} [DecidableEq α] [Ord α] (l : List α) : List α := sortByOrd l.dedup

@[simp] lemma mem_orderedSet {α : Type*} [DecidableEq α] [Ord α] {l : List α} {a : α} :
    a ∈ orderedSet l ↔ a ∈ l := by
  rw [orderedSet, mem_sortByOrd, mem_dedup]

lemma nodup_orderedSet {α : Type*} [DecidableEq α] [Ord α] (l : List α) : (orderedSet l).Nodup :=
  (perm_insertionSort _ _).nodup_iff.mpr l.nodup_dedup

lemma length_orderedSet {α : Type*} [DecidableEq α] [Ord α] {l : List α} (h : l.Nodup) :
    (orderedSet l).length = l.length := by
  rw [orderedSet, sortByOrd, length_insertionSort, h.dedup]

/-! ### Lawful orders -/

section Lawful

variable {α : Type*} [Ord α] [Std.TransOrd α]

instance isLE_total : Std.Total fun a b : α => (compare a b).isLE = true where
  total a b := by
    rw [Std.OrientedOrd.eq_swap (a := b)]
    cases compare a b <;> simp

instance isLE_trans : IsTrans α fun a b : α => (compare a b).isLE = true where
  trans _ _ _ := Std.TransOrd.isLE_trans

variable [Std.LawfulEqOrd α]

instance isLE_antisymm : Std.Antisymm fun a b : α => (compare a b).isLE = true where
  antisymm a b hab hba := by
    rw [Std.OrientedOrd.eq_swap (a := b)] at hba
    refine Std.LawfulEqOrd.eq_of_compare ?_
    cases h : compare a b <;> simp_all

lemma sortByOrd_congr {l l' : List α} (h : l.Perm l') : sortByOrd l = sortByOrd l' := by
  have hperm : (sortByOrd l).Perm (sortByOrd l') :=
    ((perm_insertionSort _ l).trans h).trans (perm_insertionSort _ l').symm
  exact hperm.eq_of_pairwise' (pairwise_insertionSort _ l) (pairwise_insertionSort _ l')

lemma orderedSet_congr [DecidableEq α] {l l' : List α} (h : ∀ a, a ∈ l ↔ a ∈ l') :
    orderedSet l = orderedSet l' := by
  refine sortByOrd_congr ((perm_ext_iff_of_nodup l.nodup_dedup l'.nodup_dedup).mpr ?_)
  intro a
  rw [mem_dedup, mem_dedup, h]

end Lawful

section On

variable {α β : Type*} [Ord α] [Ord β] {f : α → β}

section

variable (h : ∀ a b : α, compare a b = compare (f a) (f b))
include h

lemma transOrd_of_on [Std.TransOrd β] :
    Std.TransOrd α := by
  have hon : (compare : α → α → Ordering) = compareOn f := by
    funext a b
    exact h a b
  rw [Std.TransOrd, hon]
  infer_instance

lemma lawfulEqOrd_of_on [Std.LawfulEqOrd β] (hinj : Function.Injective f) : Std.LawfulEqOrd α where
  compare_self {a} := by rw [h, Std.ReflOrd.compare_self]
  eq_of_compare {a b} heq := by
    rw [h] at heq
    exact hinj (Std.LawfulEqOrd.eq_of_compare heq)

end

end On

section Lex

variable {α β γ : Type*} [Ord α] [Ord β] [Ord γ]

section

variable {f : α → β} {g : α → γ}
  (h : ∀ a b : α, compare a b = (compare (f a) (f b)).then (compare (g a) (g b)))
include h

lemma transOrd_of_lex [Std.TransOrd β] [Std.TransOrd γ] :
    Std.TransOrd α := by
  have hlex : (compare : α → α → Ordering) = compareLex (compareOn f) (compareOn g) := by
    funext a b
    exact h a b
  rw [Std.TransOrd, hlex]
  infer_instance

lemma lawfulEqOrd_of_lex [Std.LawfulEqOrd β] [Std.LawfulEqOrd γ]
    (hinj : ∀ a b, f a = f b → g a = g b → a = b) : Std.LawfulEqOrd α where
  compare_self {a} := by
    rw [h, Std.ReflOrd.compare_self, Std.ReflOrd.compare_self]
    rfl
  eq_of_compare {a b} heq := by
    rw [h, Ordering.then_eq_eq] at heq
    exact hinj a b (Std.LawfulEqOrd.eq_of_compare heq.1) (Std.LawfulEqOrd.eq_of_compare heq.2)

end

end Lex

/-- A finite map. -/
abbrev Table (κ ν : Type*) := AList fun _ : κ => ν

namespace Table

variable {κ ν μ : Type*}

/-- Keep the fields that pass a test. -/
def retain (t : Table κ ν) (p : κ → ν → Bool) : Table κ ν where
  entries := t.entries.filter fun e => p e.1 e.2
  nodupKeys := List.NodupKeys.sublist List.filter_sublist t.nodupKeys

/-- Rewrite every value. -/
def mapValues (t : Table κ ν) (f : ν → μ) : Table κ μ where
  entries := t.entries.map fun e => ⟨e.1, f e.2⟩
  nodupKeys := by
    have h : (t.entries.map fun e => (⟨e.1, f e.2⟩ : (_ : κ) × μ)).keys = t.entries.keys := by
      simp [List.keys, Function.comp_def]
    rw [List.NodupKeys, h]
    exact t.nodupKeys

/-- The fields in the order of their keys. -/
def toList [Ord κ] (t : Table κ ν) : List (κ × ν) :=
  (t.entries.map fun e => (e.1, e.2)).insertionSort fun a b => (compare a.1 b.1).isLE

variable [DecidableEq κ]

/-- Rewrite one field, a missing one from its default. -/
def modify [Inhabited ν] (t : Table κ ν) (k : κ) (f : ν → ν) : Table κ ν :=
  t.insert k (f ((t.lookup k).getD default))

section

variable (t : Table κ ν)

lemma lookup_insert_eq (k x : κ) (v : ν) :
    (t.insert k v).lookup x = if x = k then some v else t.lookup x := by
  by_cases hx : x = k
  · rw [if_pos hx, hx, lookup_insert]
  · rw [if_neg hx, lookup_insert_ne hx]

lemma lookup_erase_eq (k x : κ) :
    (t.erase k).lookup x = if x = k then none else t.lookup x := by
  by_cases hx : x = k
  · rw [if_pos hx, hx, lookup_erase]
  · rw [if_neg hx, lookup_erase_ne hx]

lemma lookup_retain (p : κ → ν → Bool) (k : κ) :
    (t.retain p).lookup k = (t.lookup k).filter (p k) := by
  refine ext fun v => ?_
  have hleft : (t.retain p).lookup k = some v ↔ ⟨k, v⟩ ∈ t.entries ∧ p k v = true := by
    rw [← mem_def, mem_lookup_iff, retain, mem_filter]
  rw [hleft, ← mem_lookup_iff, mem_def, filter_eq_some_iff]

lemma lookup_mapValues (f : ν → μ) (k : κ) :
    (t.mapValues f).lookup k = (t.lookup k).map f := by
  refine Option.ext fun v => ?_
  rw [← Option.mem_def, mem_lookup_iff, mapValues, List.mem_map, Option.map_eq_some_iff]
  constructor
  · rintro ⟨⟨x, w⟩, hmem, heq⟩
    obtain ⟨rfl, hw⟩ := Sigma.mk.inj heq
    exact ⟨w, mem_lookup_iff.mpr hmem, eq_of_heq hw⟩
  · rintro ⟨w, hw, rfl⟩
    exact ⟨⟨k, w⟩, mem_lookup_iff.mp hw, rfl⟩

lemma lookup_modify [Inhabited ν] (k x : κ) (f : ν → ν) :
    (t.modify k f).lookup x = if x = k then some (f ((t.lookup k).getD default)) else t.lookup x :=
  lookup_insert_eq t k x _

end

section Inserts

variable {l : List (κ × ν)} {t : Table κ ν} {k : κ} {v : ν}

lemma mem_of_lookup_inserts
    (h : (l.foldl (fun (t : Table κ ν) e => t.insert e.1 e.2) t).lookup k = some v) :
    (k, v) ∈ l ∨ t.lookup k = some v := by
  induction l generalizing t with
  | nil => exact .inr h
  | cons e l ih =>
    rcases ih h with hmem | hlook
    · exact .inl (mem_cons_of_mem _ hmem)
    · rw [lookup_insert_eq] at hlook
      split_ifs at hlook with hk
      · cases hlook
        rw [hk]
        exact .inl mem_cons_self
      · exact .inr hlook

lemma lookup_inserts_of_notMem (h : k ∉ l.map Prod.fst) :
    (l.foldl (fun (t : Table κ ν) e => t.insert e.1 e.2) t).lookup k = t.lookup k := by
  induction l generalizing t with
  | nil => rfl
  | cons e l ih =>
    rw [map_cons, mem_cons, not_or] at h
    rw [foldl_cons, ih h.2, lookup_insert_eq, if_neg h.1]

lemma isSome_lookup_inserts (h : k ∈ l.map Prod.fst ∨ (t.lookup k).isSome = true) :
    ((l.foldl (fun (t : Table κ ν) e => t.insert e.1 e.2) t).lookup k).isSome = true := by
  induction l generalizing t with
  | nil => exact h.resolve_left not_mem_nil
  | cons e l ih =>
    refine ih ?_
    rw [lookup_insert_eq]
    rcases h with h | h
    · rcases mem_cons.mp h with h | h
      · right
        rw [if_pos h]
        rfl
      · exact .inl h
    · right
      split_ifs
      · rfl
      · exact h

lemma lookup_inserts_of_mem (hnodup : (l.map Prod.fst).Nodup) (h : (k, v) ∈ l) :
    (l.foldl (fun (t : Table κ ν) e => t.insert e.1 e.2) t).lookup k = some v := by
  induction l generalizing t with
  | nil => cases h
  | cons e l ih =>
    rw [map_cons, nodup_cons] at hnodup
    rcases mem_cons.mp h with rfl | h
    · rw [foldl_cons, lookup_inserts_of_notMem hnodup.1, lookup_insert]
    · exact ih hnodup.2 h

lemma length_keys_inserts (hnodup : (l.map Prod.fst).Nodup) (h : ∀ k ∈ l.map Prod.fst, k ∉ t) :
    (l.foldl (fun (t : Table κ ν) e => t.insert e.1 e.2) t).keys.length =
      l.length + t.keys.length := by
  induction l generalizing t with
  | nil => exact (Nat.zero_add _).symm
  | cons e l ih =>
    rw [map_cons, nodup_cons] at hnodup
    rw [map_cons, forall_mem_cons] at h
    have hfresh : ∀ k ∈ l.map Prod.fst, k ∉ t.insert e.1 e.2 := by
      intro k hk hmem
      rcases (mem_insert t).mp hmem with rfl | hmem
      · exact hnodup.1 hk
      · exact h.2 k hk hmem
    rw [foldl_cons, ih hnodup.2 hfresh, keys_insert,
      erase_of_not_mem (mem_keys.not.mp h.1), length_cons, length_cons]
    omega

end Inserts

lemma eq_empty_of_lookup {t : Table κ ν} (h : ∀ k, t.lookup k = none) : t = ∅ := by
  refine ext (eq_nil_iff_forall_not_mem.mpr fun e he => ?_)
  have hsome : t.lookup e.1 = some e.2 := mem_lookup_iff.mpr he
  simp [h] at hsome

lemma mem_toList [Ord κ] {t : Table κ ν} {k : κ} {v : ν} :
    (k, v) ∈ t.toList ↔ t.lookup k = some v := by
  rw [toList, (List.perm_insertionSort _ _).mem_iff, List.mem_map, ← Option.mem_def,
    mem_lookup_iff]
  constructor
  · rintro ⟨e, he, heq⟩
    obtain ⟨rfl, rfl⟩ := Prod.mk.inj heq
    exact he
  · intro h
    exact ⟨⟨k, v⟩, h, rfl⟩

end Table

end Foretoken
