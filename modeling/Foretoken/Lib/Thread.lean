import Mathlib.Data.List.Basic
import Mathlib.Tactic

/-!
A list that grows by turns.

A thread holds a list of items and at most one open turn. A turn is opened with its own inputs, and
closing it appends the inputs and the outputs as one block, or leaves the list alone.
-/

namespace Foretoken

open List

/-- The items of a thread and its open turn, with the inputs of the turn. -/
structure Thread (I X : Type*) where
  items : List X
  turn : Option (I × List X)
  deriving DecidableEq, Repr

/-- The edits of a thread. -/
inductive Edit (I X : Type*) where
  | opened (id : I) (inputs : List X)
  | closed (kept : Bool) (outputs : List X)
  | abandoned
  | appended (xs : List X)
  | removed (x : X)
  deriving DecidableEq, Repr

namespace Thread

variable {I X : Type*} [DecidableEq I] [DecidableEq X]

/-- The inputs of the open turn. -/
def inputs (t : Thread I X) : List X := (t.turn.map Prod.snd).getD []

/-- The block an edit appends. -/
def added (t : Thread I X) : Edit I X → List X
  | .closed kept outputs => if kept then t.inputs ++ outputs else []
  | .appended xs => xs
  | _ => []

/-- The thread after an edit. -/
def apply (t : Thread I X) : Edit I X → Thread I X
  | .opened id inputs => { t with turn := some (id, inputs) }
  | .closed kept outputs => ⟨t.items ++ t.added (.closed kept outputs), none⟩
  | .abandoned => { t with turn := none }
  | .appended xs => { t with items := t.items ++ xs }
  | .removed x => { t with items := t.items.filter (· ≠ x) }

/-- The blocks that a sequence of edits appends, without the items that later edits
remove. -/
def blocks : Thread I X → List (Edit I X) → List (List X)
  | _, [] => []
  | t, e :: es =>
    ((t.added e).filter fun x => .removed x ∉ es) :: blocks (t.apply e) es

lemma items_apply (t : Thread I X) (e : Edit I X) :
    (t.apply e).items = (t.items.filter fun x => .removed x ≠ e) ++ t.added e := by
  cases e with
  | opened | abandoned | appended | removed => simp [apply, added]
  | closed => simp [apply]

/-- **A thread is the concatenation of its blocks.** -/
theorem items_foldl_apply (t : Thread I X) (es : List (Edit I X)) :
    (es.foldl apply t).items
      = (t.items.filter fun x => .removed x ∉ es) ++ (t.blocks es).flatten := by
  induction es generalizing t with
  | nil => simp [blocks]
  | cons e es ih =>
    rw [foldl_cons, ih, items_apply, filter_append, filter_filter, blocks,
      flatten_cons, append_assoc]
    simp only [mem_cons, not_or, Bool.decide_and, Bool.and_comm]

end Thread

end Foretoken
