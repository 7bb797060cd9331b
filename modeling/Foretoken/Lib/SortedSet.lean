import Mathlib.Data.List.Sort
import Mathlib.Data.String.Basic
import Mathlib.Tactic

/-!
Sorted sets of a store: each member once, with a score, in the order of the scores; members of equal
score stand in the order of the names they are stored under.
-/

namespace Foretoken

open List

/-- A type whose values are stored under a name. -/
class Named (α : Type*) where
  name : α → String

instance : Named String := ⟨id⟩

namespace SortedSet

variable {α : Type*} [Named α]

/-- The order of the entries: by score, then by name. -/
def Before (a b : ℕ × α) : Prop :=
  a.1 < b.1 ∨ a.1 = b.1 ∧ Named.name a.2 ≤ Named.name b.2

instance : DecidableRel (Before (α := α)) := fun a b =>
  inferInstanceAs (Decidable (a.1 < b.1 ∨ a.1 = b.1 ∧ Named.name a.2 ≤ Named.name b.2))

lemma Before.score_le {a b : ℕ × α} (h : Before a b) : a.1 ≤ b.1 := by
  rcases h with h | ⟨h, -⟩
  · exact h.le
  · exact h.le

instance : IsTrans (ℕ × α) Before where
  trans a b c := by
    rintro (hab | ⟨hab, hab'⟩) (hbc | ⟨hbc, hbc'⟩)
    · exact .inl (hab.trans hbc)
    · exact .inl (hbc ▸ hab)
    · exact .inl (hab ▸ hbc)
    · exact .inr ⟨hab.trans hbc, hab'.trans hbc'⟩

instance : Std.Total (Before (α := α)) where
  total a b := by
    rcases lt_trichotomy a.1 b.1 with h | h | h
    · exact .inl (.inl h)
    · rcases le_total (Named.name a.2) (Named.name b.2) with h' | h'
      · exact .inl (.inr ⟨h, h'⟩)
      · exact .inr (.inr ⟨h.symm, h'⟩)
    · exact .inr (.inl h)

end SortedSet

/-- Members with scores, each member once, in order. -/
structure SortedSet (α : Type*) [Named α] where
  entries : List (ℕ × α)
  nodup : (entries.map Prod.snd).Nodup
  sorted : entries.Pairwise SortedSet.Before

namespace SortedSet

variable {α : Type*} [Named α]

/-- The set of a key that does not exist. -/
def empty : SortedSet α := ⟨[], List.nodup_nil, List.Pairwise.nil⟩

instance : EmptyCollection (SortedSet α) := ⟨empty⟩

variable [DecidableEq α] {s : SortedSet α}

/-- `ZREM`. -/
def remove (s : SortedSet α) (a : α) : SortedSet α where
  entries := s.entries.filter (·.2 ≠ a)
  nodup := (s.entries.filter_sublist.map Prod.snd).nodup s.nodup
  sorted := s.sorted.sublist s.entries.filter_sublist

lemma mem_remove {a : α} {e : ℕ × α} :
    e ∈ (s.remove a).entries ↔ e ∈ s.entries ∧ e.2 ≠ a := by
  simp [remove]

/-- `ZADD`: a member that is there already is moved to the new score. -/
def add (s : SortedSet α) (a : α) (n : ℕ) : SortedSet α where
  entries := (s.remove a).entries.orderedInsert Before (n, a)
  nodup := by
    have hperm := (List.perm_orderedInsert Before (n, a) (s.remove a).entries).map Prod.snd
    refine hperm.nodup_iff.mpr (List.nodup_cons.mpr ⟨?_, (s.remove a).nodup⟩)
    simp only [List.mem_map, not_exists, not_and]
    rintro e he rfl
    exact (mem_remove.mp he).2 rfl
  sorted := List.Pairwise.orderedInsert (n, a) _ (s.remove a).sorted

lemma mem_add {a : α} {n : ℕ} {e : ℕ × α} :
    e ∈ (s.add a n).entries ↔ e = (n, a) ∨ e ∈ s.entries ∧ e.2 ≠ a := by
  simp only [add, mem_orderedInsert, mem_remove]

/-! ### Scores -/

/-- `ZSCORE`. -/
def score (s : SortedSet α) (a : α) : Option ℕ := (s.entries.find? (·.2 = a)).map Prod.fst

lemma score_eq_some {a : α} {n : ℕ} :
    s.score a = some n ↔ (n, a) ∈ s.entries := by
  rw [score, Option.map_eq_some_iff]
  constructor
  · rintro ⟨e, he, rfl⟩
    have hmem := mem_of_find?_eq_some he
    have hsnd : e.2 = a := by simpa using find?_some he
    exact hsnd ▸ hmem
  · intro hmem
    cases he : s.entries.find? (·.2 = a) with
    | none =>
      have := find?_eq_none.mp he (n, a) hmem
      simp at this
    | some e =>
      refine ⟨e, rfl, ?_⟩
      have hsnd : e.2 = a := by simpa using find?_some he
      have hinj := inj_on_of_nodup_map s.nodup (mem_of_find?_eq_some he) hmem hsnd
      rw [hinj]

lemma score_eq_none {a : α} :
    s.score a = none ↔ ∀ n, (n, a) ∉ s.entries := by
  rw [Option.eq_none_iff_forall_ne_some]
  exact forall_congr' fun n => not_congr score_eq_some

lemma score_add (s : SortedSet α) (a b : α) (n : ℕ) :
    (s.add a n).score b = if b = a then some n else s.score b := by
  split
  · rename_i h
    exact score_eq_some.mpr (mem_add.mpr (.inl (by rw [h])))
  · rename_i h
    refine Option.ext fun m => ?_
    simp only [score_eq_some, mem_add, Prod.mk.injEq, h, and_false, false_or]
    exact and_iff_left h

lemma score_remove (s : SortedSet α) (a b : α) :
    (s.remove a).score b = if b = a then none else s.score b := by
  split
  · rename_i h
    exact score_eq_none.mpr fun n hn => (mem_remove.mp hn).2 h
  · rename_i h
    refine Option.ext fun m => ?_
    simp only [score_eq_some, mem_remove]
    exact and_iff_left h

/-! ### Entries of distinct scores -/

/-- Adds entries one after another. -/
def addAll (s : SortedSet α) (entries : List (ℕ × α)) : SortedSet α :=
  entries.foldl (fun s e => s.add e.2 e.1) s

lemma mem_of_mem_addAll {entries : List (ℕ × α)} {e : ℕ × α}
    (h : e ∈ (s.addAll entries).entries) : e ∈ s.entries ∨ e ∈ entries := by
  induction entries generalizing s with
  | nil => exact .inl h
  | cons f entries ih =>
    rcases ih h with hadd | hrest
    · rcases mem_add.mp hadd with rfl | ⟨hold, -⟩
      · exact .inr (mem_cons_self ..)
      · exact .inl hold
    · exact .inr (mem_cons_of_mem _ hrest)

/-- No two entries have one score. -/
def Distinct (s : SortedSet α) : Prop := (s.entries.map Prod.fst).Nodup

lemma Distinct.add (h : s.Distinct) (a : α) {n : ℕ}
    (hn : ∀ e ∈ s.entries, e.1 < n) : (s.add a n).Distinct := by
  have hperm := (perm_orderedInsert Before (n, a) (s.remove a).entries).map Prod.fst
  refine hperm.nodup_iff.mpr (nodup_cons.mpr ⟨?_, ?_⟩)
  · intro hmem
    obtain ⟨e, he, heq⟩ := mem_map.mp hmem
    exact (hn e (mem_remove.mp he).1).ne heq
  · exact (s.entries.filter_sublist.map Prod.fst).nodup h

lemma Distinct.addAll (h : s.Distinct) {es : List (ℕ × α)}
    (hgrow : (es.map Prod.fst).Pairwise (· < ·))
    (hn : ∀ e ∈ s.entries, ∀ f ∈ es, e.1 < f.1) : (s.addAll es).Distinct := by
  induction es generalizing s with
  | nil => exact h
  | cons f es ih =>
    rw [map_cons, pairwise_cons] at hgrow
    refine ih (h.add f.2 fun e he => hn e he f (mem_cons_self ..)) hgrow.2 ?_
    intro e he g hg
    rcases mem_add.mp he with rfl | ⟨hold, -⟩
    · exact hgrow.1 g.1 (mem_map_of_mem hg)
    · exact hn e hold g (mem_cons_of_mem _ hg)

/-! ### Readers -/

/-- `ZRANGEBYSCORE -inf n LIMIT 0 limit`. -/
def upTo (s : SortedSet α) (n limit : ℕ) : List α :=
  ((s.entries.filter (·.1 ≤ n)).take limit).map Prod.snd

/-- `ZRANGEBYSCORE (n +inf LIMIT 0 limit`; without `n` it reads from the start. -/
def above (s : SortedSet α) (n : Option ℕ) (limit : ℕ) : List α :=
  ((s.entries.filter fun e => n.all (· < e.1)).take limit).map Prod.snd

/-- `ZCOUNT n n`. -/
def countAt (s : SortedSet α) (n : ℕ) : ℕ := s.entries.countP (·.1 = n)

/-- `ZREVRANGE 0 0 WITHSCORES`: the entry of the highest score. -/
def last (s : SortedSet α) : Option (ℕ × α) := s.entries.getLast?

/-- The members in order, as `ZRANGE` reads them. -/
def members (s : SortedSet α) : List α := s.entries.map Prod.snd

lemma score_of_mem_upTo {n l : ℕ} {a : α} (h : a ∈ s.upTo n l) :
    ∃ m, s.score a = some m ∧ m ≤ n := by
  obtain ⟨e, he, rfl⟩ := mem_map.mp h
  have hmem := mem_filter.mp (mem_of_mem_take he)
  exact ⟨e.1, score_eq_some.mpr hmem.1, by simpa using hmem.2⟩

omit [DecidableEq α] in
lemma nodup_upTo (s : SortedSet α) (n l : ℕ) : (s.upTo n l).Nodup :=
  ((((take_sublist _ _).trans filter_sublist).map Prod.snd).nodup s.nodup)

omit [DecidableEq α] in
lemma score_le_last {e : ℕ × α} (he : s.last = some e) {f : ℕ × α}
    (hf : f ∈ s.entries) : f.1 ≤ e.1 := by
  obtain ⟨front, hfront⟩ := getLast?_eq_some_iff.mp he
  rw [hfront, mem_append, mem_singleton] at hf
  rcases hf with hf | rfl
  · have hsorted := hfront ▸ s.sorted
    exact ((pairwise_append.mp hsorted).2.2 f hf e (by simp)).score_le
  · exact le_rfl

end SortedSet

end Foretoken
