import Mathlib.Tactic

/-!
An object under compare-and-set.

A server keeps at most one object under a name. Every write gives it a version that was never
issued before, and every creation a new identity. What a client has read it can rely on later, as
long as it writes under the version it has read.
-/

namespace Foretoken

open Option

/-- An object with its identity and its version. -/
structure Versioned (α : Type*) where
  uid : ℕ
  version : ℕ
  value : α
  deriving DecidableEq

/-- The object under a name, and the last number that was issued. -/
structure Cell (α : Type*) where
  issued : ℕ
  object : Option (Versioned α)
  bounded : ∀ o ∈ object, o.uid ≤ issued ∧ o.version ≤ issued

namespace Cell

variable {α : Type*} {c c' c'' : Cell α} {o : Versioned α} {f : α → α} {value : α}

/-- No object was created. -/
def empty : Cell α := ⟨0, none, by simp⟩

/-- A write to the object as it is. -/
def modify (c : Cell α) (f : α → α) : Cell α where
  issued := c.issued + 1
  object := c.object.map fun o => ⟨o.uid, c.issued + 1, f o.value⟩
  bounded := by
    intro o ho
    obtain ⟨o₀, ho₀, rfl⟩ := map_eq_some_iff.mp ho
    exact ⟨(c.bounded o₀ ho₀).1.trans (Nat.le_succ _), le_rfl⟩

/-- A new object, unless there is one. -/
def create (c : Cell α) (value : α) : Cell α where
  issued := c.issued + 1
  object := c.object.or (some ⟨c.issued + 1, c.issued + 1, value⟩)
  bounded := by
    intro o ho
    rcases or_eq_some_iff.mp ho with hkept | ⟨-, ⟨⟩⟩
    · have hbounded := c.bounded o hkept
      omega
    · exact ⟨le_rfl, le_rfl⟩

/-- The object is deleted. -/
def remove (c : Cell α) : Cell α := ⟨c.issued, none, by simp⟩

/-- A write under the identity and the version of an object that was read. -/
def swap (c : Cell α) (seen : Versioned α) (f : α → α) : Option (Cell α) :=
  if ∃ o ∈ c.object, o.uid = seen.uid ∧ o.version = seen.version then some (c.modify f)
  else none

/-- The object was read, and nothing else has its version. -/
def Seen (c : Cell α) (o : Versioned α) : Prop :=
  o.version ≤ c.issued ∧ ∀ o' ∈ c.object, o'.version = o.version → o' = o

/-- What a server can do: a version that is there and was issued before was there before. -/
structure Later (c c' : Cell α) : Prop where
  issued : c.issued ≤ c'.issued
  version : ∀ o ∈ c'.object, o.version ≤ c.issued → o ∈ c.object

lemma seen_of_mem (h : o ∈ c.object) : c.Seen o :=
  ⟨(c.bounded o h).2, fun _ ho' _ => mem_unique ho' h⟩

lemma Seen.later (h : c.Seen o) (hlater : c.Later c') : c'.Seen o :=
  ⟨h.1.trans hlater.issued, fun o' ho' heq =>
    h.2 o' (hlater.version o' ho' (heq ▸ h.1)) heq⟩

lemma later_modify : c.Later (c.modify f) where
  issued := Nat.le_succ _
  version o ho hold := by
    obtain ⟨o₀, -, rfl⟩ := map_eq_some_iff.mp ho
    exact absurd hold (Nat.not_succ_le_self _)

lemma later_remove : c.Later c.remove := ⟨le_rfl, by simp [remove]⟩

lemma later_create : c.Later (c.create value) where
  issued := Nat.le_succ _
  version o ho hold := by
    rcases or_eq_some_iff.mp ho with hkept | ⟨-, ⟨⟩⟩
    · exact hkept
    · exact absurd hold (Nat.not_succ_le_self _)

/-- **A compare-and-set** finds the object that was read. -/
lemma object_of_swap (hseen : c.Seen o) (h : c.swap o f = some c') :
    c.object = some o ∧ c' = c.modify f := by
  rw [swap] at h
  split_ifs at h with htest
  obtain ⟨o', ho', -, hver⟩ := htest
  exact ⟨hseen.2 o' ho' hver ▸ ho', (some.inj h).symm⟩

end Cell

end Foretoken
