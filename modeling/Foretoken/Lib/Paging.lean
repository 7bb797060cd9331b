import Mathlib.Tactic

/-!
Listings that are read page by page.

A reader asks for the elements behind a cursor and is given one more than its limit, so that it
sees whether more remain. `walk` follows the last element of each page.
-/

namespace Foretoken.Paging

open List

/-- A page, and whether more remain. -/
structure Listing (α : Type*) where
  data : List α
  hasMore : Bool
  deriving DecidableEq, Repr

variable {α ι : Type*}

/-- Cut what was fetched at the limit. -/
def cut (limit : ℕ) (fetched : List α) : Listing α :=
  ⟨fetched.take limit, limit < fetched.length⟩

/-- Follow the last element of each page until no more remain. -/
def walk (id : α → ι) (fetch : Option ι → Option (List α)) (limit : ℕ) :
    ℕ → Option ι → Option (List (Listing α))
  | 0, _ => none
  | fuel + 1, cursor =>
    (fetch cursor).bind fun fetched =>
      let page := cut limit fetched
      if page.hasMore then (walk id fetch limit fuel (page.data.getLast?.map id)).map (page :: ·)
      else some [page]

/-- The pages of a list: all but the last are full, and exactly these are followed by more. -/
inductive Pages (limit : ℕ) : List α → List (Listing α) → Prop
  | last {l : List α} (hlen : l.length ≤ limit) : Pages limit l [⟨l, false⟩]
  | more {page rest : List α} {pages : List (Listing α)} (hlen : page.length = limit)
      (hrest : rest ≠ []) (hpages : Pages limit rest pages) :
      Pages limit (page ++ rest) (⟨page, true⟩ :: pages)

lemma cut_take (limit : ℕ) (l : List α) :
    cut limit (l.take (limit + 1)) = ⟨l.take limit, limit < l.length⟩ := by
  rw [cut, take_take, min_eq_left (Nat.le_succ limit)]
  simp

/-- The first elements are the last ones only if they are all. -/
lemma take_eq_drop_iff {l : List α} (hl : l.Nodup) {n : ℕ} (hn : 0 < n) :
    l.take n = l.drop (l.length - n) ↔ l.length ≤ n := by
  constructor
  · intro h
    by_contra hlong
    have hfirst : l[0]? = l[l.length - n]? := by
      rw [← getElem?_take_of_lt hn, h, getElem?_drop, Nat.add_zero]
    have hne := nodup_iff_getElem?_ne_getElem?.mp hl 0 (l.length - n) (by omega) (by omega)
    exact hne hfirst
  · intro h
    rw [take_of_length_le h, Nat.sub_eq_zero_of_le h, drop_zero]

/-- **A walk reads the whole list.** -/
lemma walk_pages {id : α → ι} {fetch : Option ι → Option (List α)} {limit fuel : ℕ} {l : List α}
    (hlimit : 0 < limit) (hfuel : l.length < fuel)
    (hfetch : ∀ pre rest, pre ++ rest = l →
      fetch (pre.getLast?.map id) = some (rest.take (limit + 1))) :
    ∃ pages, walk id fetch limit fuel none = some pages ∧ Pages limit l pages := by
  suffices h : ∀ pre rest, pre ++ rest = l → rest.length < fuel → ∃ pages,
      walk id fetch limit fuel (pre.getLast?.map id) = some pages ∧ Pages limit rest pages from
    h [] l rfl hfuel
  clear hfuel
  induction fuel with
  | zero => exact fun _ _ _ h => absurd h (Nat.not_lt_zero _)
  | succ fuel ih =>
    intro pre rest hsplit hlen
    rw [walk, hfetch pre rest hsplit, Option.bind_some, cut_take]
    dsimp only
    split_ifs with hmore
    · have hmore : limit < rest.length := of_decide_eq_true hmore
      have hpage : rest.take limit ≠ [] := by
        rw [← length_pos_iff, length_take]
        omega
      have hsplit' : (pre ++ rest.take limit) ++ rest.drop limit = l := by
        rw [append_assoc, take_append_drop, hsplit]
      obtain ⟨pages, hwalk, hpages⟩ := ih _ _ hsplit' (by rw [length_drop]; omega)
      rw [getLast?_append_of_ne_nil _ hpage] at hwalk
      refine ⟨⟨rest.take limit, true⟩ :: pages, by rw [hwalk, decide_eq_true hmore]; rfl, ?_⟩
      have hfull : (rest.take limit).length = limit := by
        rw [length_take]
        omega
      have hrest : rest.drop limit ≠ [] := by
        rw [← length_pos_iff, length_drop]
        omega
      have h := Pages.more hfull hrest hpages
      rwa [take_append_drop] at h
    · have hlast : rest.length ≤ limit := not_lt.mp (of_decide_eq_false (by simpa using hmore))
      rw [take_of_length_le hlast, decide_eq_false (not_lt.mpr hlast)]
      exact ⟨_, rfl, .last hlast⟩

end Foretoken.Paging
