import Mathlib.Data.Finmap
import Mathlib.Algebra.BigOperators.Group.Multiset.Basic
import Mathlib.Algebra.Order.BigOperators.Group.Multiset
import Mathlib.Tactic

/-!
Totals and signed counters over finite maps.

A hash whose fields are rewritten one at a time is a `Finmap`. A total sums a weight over its
entries; a counter is read with `0` for a missing field and never stored as zero.
-/

namespace Foretoken.FiniteMap

open Finmap Finset

variable {κ ν : Type*} [DecidableEq κ] {m : Finmap fun _ : κ => ν}

/-- Writing back the value a field already holds changes nothing. -/
lemma insert_eq_self {k : κ} {v : ν} (h : m.lookup k = some v) :
    m.insert k v = m := by
  refine ext_lookup fun x => ?_
  rcases eq_or_ne x k with rfl | hx <;> simp [*]

lemma erase_eq_self {k : κ} (h : m.lookup k = none) :
    m.erase k = m := by
  refine ext_lookup fun x => ?_
  rcases eq_or_ne x k with rfl | hx <;> simp [*]

lemma lookup_insert_eq (m : Finmap fun _ : κ => ν) (k x : κ) (v : ν) :
    (m.insert k v).lookup x = if x = k then some v else m.lookup x := by
  rcases eq_or_ne x k with rfl | hx <;> simp [*]

lemma lookup_erase_eq (m : Finmap fun _ : κ => ν) (k x : κ) :
    (m.erase k).lookup x = if x = k then none else m.lookup x := by
  rcases eq_or_ne x k with rfl | hx <;> simp [*]

lemma insert_eq_insert_erase (m : Finmap fun _ : κ => ν) (k : κ) (v : ν) :
    m.insert k v = (m.erase k).insert k v := by
  refine ext_lookup fun x => ?_
  rcases eq_or_ne x k with rfl | hx <;> simp [*]

/-! ### Totals -/

section Total

variable {M : Type*} [AddCommMonoid M]

/-- The sum of a weight over the entries of a finite map. -/
def total (m : Finmap fun _ : κ => ν) (f : κ → ν → M) : M :=
  (m.entries.map fun e => f e.1 e.2).sum

omit [DecidableEq κ] in
@[simp] lemma total_empty (f : κ → ν → M) : total (∅ : Finmap fun _ : κ => ν) f = 0 := by
  change ((0 : Multiset (Sigma fun _ : κ => ν)).map fun e => f e.1 e.2).sum = 0
  rw [Multiset.map_zero, Multiset.sum_zero]

lemma total_insert_new {k : κ} (v : ν) (f : κ → ν → M)
    (h : m.lookup k = none) : total (m.insert k v) f = f k v + total m f := by
  rw [total, entries_insert_of_notMem (lookup_eq_none.mp h), Multiset.map_cons,
    Multiset.sum_cons]
  rfl

lemma total_erase {k : κ} {v : ν} (f : κ → ν → M)
    (h : m.lookup k = some v) : total m f = f k v + total (m.erase k) f := by
  have hback : (m.erase k).insert k v = m := by
    refine ext_lookup fun x => ?_
    rcases eq_or_ne x k with rfl | hx <;> simp [*]
  conv_lhs => rw [← hback]
  exact total_insert_new v f (lookup_erase k m)

/-- Rewriting an entry exchanges its old weight for its new one. -/
lemma total_replace {k : κ} {v : ν} (v' : ν) (f : κ → ν → M)
    (h : m.lookup k = some v) : total (m.insert k v') f + f k v = total m f + f k v' := by
  rw [insert_eq_insert_erase, total_insert_new v' f (lookup_erase k m), total_erase f h]
  exact (add_right_comm _ _ _).trans (by rw [add_comm (f k v') (f k v), add_right_comm])

end Total

omit [DecidableEq κ] in
lemma total_nonneg {f : κ → ν → ℤ} (hf : ∀ x y, 0 ≤ f x y) :
    0 ≤ total m f := by
  refine Multiset.sum_nonneg fun x hx => ?_
  obtain ⟨e, -, rfl⟩ := Multiset.mem_map.mp hx
  exact hf _ _

/-- Totals compare entry by entry. -/
lemma total_le_total {m m' : Finmap fun _ : κ => ν} {f : κ → ν → ℤ} (hf : ∀ x y, 0 ≤ f x y)
    (h : ∀ k v', m'.lookup k = some v' → f k v' ≤ (m.lookup k).elim 0 (f k)) :
    total m' f ≤ total m f := by
  -- one entry of `m'` is split off both maps at a time
  induction hn : m'.keys.card generalizing m m' with
  | zero =>
    have hempty : m' = ∅ := by
      refine ext_lookup fun k => ?_
      rw [lookup_empty, lookup_eq_none, ← mem_keys, card_eq_zero.mp hn]
      exact notMem_empty k
    rw [hempty]
    exact total_nonneg hf
  | succ n ih =>
    obtain ⟨k, hk⟩ : m'.keys.Nonempty := card_pos.mp (by omega)
    obtain ⟨v', hv'⟩ := mem_iff.mp (mem_keys.mp hk)
    have hcard : (m'.erase k).keys.card = n := by
      rw [keys_erase, card_erase_of_mem hk]
      omega
    have hrest : total (m'.erase k) f ≤ total (m.erase k) f := by
      refine ih (fun x y hx => ?_) hcard
      rw [lookup_erase_eq] at hx ⊢
      split_ifs at hx ⊢
      exact h x y hx
    have hentry := h k v' hv'
    rw [total_erase f hv']
    cases hv : m.lookup k with
    | none =>
      rw [hv] at hentry
      rw [erase_eq_self hv] at hrest
      exact (add_le_add hentry hrest).trans (zero_add _).le
    | some =>
      rw [hv] at hentry
      rw [total_erase f hv]
      exact add_le_add hentry hrest

/-! ### Signed counters -/

/-- The reading of a counter; a missing field reads `0`. -/
def read (m : Finmap fun _ : κ => ℤ) (k : κ) : ℤ := (m.lookup k).getD 0

/-- Moves a counter by an amount and deletes the field when it comes to zero; a
zero amount leaves the map as it is. -/
def bump (m : Finmap fun _ : κ => ℤ) (k : κ) (amount : ℤ) : Finmap fun _ : κ => ℤ :=
  if amount = 0 then m
  else if read m k + amount = 0 then m.erase k
  else m.insert k (read m k + amount)

/-- No field is stored with the value zero. -/
def NoZero (m : Finmap fun _ : κ => ℤ) : Prop := ∀ k, m.lookup k ≠ some 0

section

variable (m : Finmap fun _ : κ => ℤ)

lemma read_insert (k x : κ) (v : ℤ) :
    read (m.insert k v) x = if x = k then v else read m x := by
  rw [read, lookup_insert_eq]
  split <;> rfl

lemma read_erase (k x : κ) :
    read (m.erase k) x = if x = k then 0 else read m x := by
  rw [read, lookup_erase_eq]
  split <;> rfl

@[simp] lemma bump_zero (k : κ) : bump m k 0 = m := if_pos rfl

lemma read_bump (k x : κ) (n : ℤ) :
    read (bump m k n) x = read m x + if x = k then n else 0 := by
  rw [bump]
  split_ifs with hamount hx hsum hx hx
  · rw [hamount, add_zero]
  · rw [add_zero]
  · rw [read_erase, if_pos hx, hx, hsum]
  · rw [read_erase, if_neg hx, add_zero]
  · rw [read_insert, if_pos hx, hx]
  · rw [read_insert, if_neg hx, add_zero]

end

lemma lookup_bump_of_ne {m : Finmap fun _ : κ => ℤ} {k x : κ} (n : ℤ) (h : x ≠ k) :
    (bump m k n).lookup x = m.lookup x := by
  rw [bump]
  split_ifs
  · rfl
  · rw [lookup_erase_ne h]
  · rw [lookup_insert_of_ne _ h]

/-- A moved counter is stored unless it is zero. -/
lemma lookup_bump_self {m : Finmap fun _ : κ => ℤ} {k : κ} {n : ℤ} (h : n ≠ 0) :
    (bump m k n).lookup k
      = if read m k + n = 0 then none else some (read m k + n) := by
  rw [bump, if_neg h]
  split_ifs
  · rw [lookup_erase]
  · rw [lookup_insert]

lemma noZero_empty : NoZero (∅ : Finmap fun _ : κ => ℤ) := fun k h => by
  cases h

lemma noZero_bump {m : Finmap fun _ : κ => ℤ} (k : κ) (n : ℤ) (h : NoZero m) :
    NoZero (bump m k n) := by
  intro x hx
  by_cases hamount : n = 0
  · rw [hamount] at hx
    exact h x hx
  by_cases hk : x = k
  · rw [hk, lookup_bump_self hamount] at hx
    split_ifs at hx with hzero
    exact hzero (Option.some.inj hx)
  · rw [lookup_bump_of_ne n hk] at hx
    exact h x hx

/-- A stored field is not read as zero. -/
lemma NoZero.read_ne {m : Finmap fun _ : κ => ℤ} (h : NoZero m) {k : κ} (hk : k ∈ m) :
    read m k ≠ 0 := by
  obtain ⟨v, hv⟩ := mem_iff.mp hk
  rw [read, hv]
  rintro rfl
  exact h k hv

lemma bump_comm (m : Finmap fun _ : κ => ℤ) (k l : κ) (a b : ℤ) :
    bump (bump m k a) l b = bump (bump m l b) k a := by
  by_cases ha : a = 0
  · rw [ha, bump_zero, bump_zero]
  by_cases hb : b = 0
  · rw [hb, bump_zero, bump_zero]
  refine ext_lookup fun x => ?_
  rcases eq_or_ne x k with rfl | hk <;> rcases eq_or_ne x l with rfl | hl <;>
    simp [lookup_bump_self, lookup_bump_of_ne, read_bump, add_right_comm, *]

/-- An additive total moves by the weight of the amount. -/
lemma total_bump (m : Finmap fun _ : κ => ℤ) (k : κ) (amount : ℤ) (f : κ → ℤ → ℤ)
    (hzero : ∀ x, f x 0 = 0) (hadd : ∀ x a b, f x (a + b) = f x a + f x b) :
    total (bump m k amount) f = total m f + f k amount := by
  have hread : total m f = f k (read m k) + total (m.erase k) f := by
    cases hk : m.lookup k with
    | none => rw [read, hk, Option.getD_none, hzero, zero_add, erase_eq_self hk]
    | some => rw [read, hk, Option.getD_some, total_erase f hk]
  rw [bump]
  split_ifs with h0 h1
  · rw [h0, hzero, add_zero]
  · have := hadd k (read m k) amount
    rw [h1, hzero] at this
    omega
  · rw [insert_eq_insert_erase, total_insert_new _ f (lookup_erase k m), hadd]
    omega

end Foretoken.FiniteMap
