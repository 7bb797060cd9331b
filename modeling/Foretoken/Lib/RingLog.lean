import Mathlib.Data.List.Basic
import Mathlib.Tactic

/-!
A log that is numbered from zero and kept in a ring of bounded length.

A writer numbers its events and keeps the last ones in a ring; a reader holds the number of the
last event it has taken and asks for the next page.
-/

namespace Foretoken

open List Option

variable {n : ℕ} {t : Option ℕ}

/-- An event with its number. -/
structure Numbered (α : Type*) where
  sequence : ℕ
  event : α
  deriving DecidableEq, Repr

namespace RingLog

variable {α : Type*}

/-! ### Numbering -/

/-- The events of a list, numbered from a start. -/
def numberFrom (start : ℕ) : List α → List (Numbered α)
  | [] => []
  | e :: es => ⟨start, e⟩ :: numberFrom (start + 1) es

@[simp] lemma length_numberFrom (n : ℕ) (log : List α) :
    (numberFrom n log).length = log.length := by
  induction log generalizing n with
  | nil => rfl
  | cons e es ih => rw [numberFrom, length_cons, length_cons, ih]

lemma numberFrom_append (n : ℕ) (log more : List α) :
    numberFrom n (log ++ more) =
      numberFrom n log ++ numberFrom (n + log.length) more := by
  induction log generalizing n with
  | nil => rfl
  | cons e es ih =>
    rw [cons_append, numberFrom, numberFrom, ih, cons_append, length_cons,
      Nat.add_right_comm, Nat.add_assoc]

lemma getElem?_numberFrom (n : ℕ) (log : List α) (i : ℕ) :
    (numberFrom n log)[i]? = log[i]?.map fun e => ⟨n + i, e⟩ := by
  induction log generalizing n i with
  | nil => rfl
  | cons e es ih =>
    cases i with
    | zero => rfl
    | succ =>
      rw [numberFrom, getElem?_cons_succ, getElem?_cons_succ, ih,
        Nat.add_right_comm, Nat.add_assoc]

lemma mem_numberFrom {log : List α} {x : Numbered α} (h : x ∈ numberFrom n log) :
    n ≤ x.sequence ∧ x.sequence < n + log.length := by
  obtain ⟨i, hi⟩ := List.getElem?_of_mem h
  rw [getElem?_numberFrom, map_eq_some_iff] at hi
  obtain ⟨e, he, rfl⟩ := hi
  have hlt := (List.getElem?_eq_some_iff.mp he).1
  exact ⟨Nat.le_add_right _ _, Nat.add_lt_add_left hlt n⟩

section

variable (n : ℕ) (log : List α)

lemma drop_numberFrom (k : ℕ) :
    (numberFrom n log).drop k = numberFrom (n + k) (log.drop k) := by
  refine ext_getElem? fun i => ?_
  rw [getElem?_drop, getElem?_numberFrom, getElem?_numberFrom, getElem?_drop,
    Nat.add_assoc]

lemma take_numberFrom (k : ℕ) :
    (numberFrom n log).take k = numberFrom n (log.take k) := by
  refine ext_getElem? fun i => ?_
  rw [getElem?_take, getElem?_numberFrom, getElem?_numberFrom, getElem?_take]
  split_ifs <;> rfl

@[simp] lemma map_event_numberFrom :
    (numberFrom n log).map (·.event) = log := by
  induction log generalizing n with
  | nil => rfl
  | cons e es ih => rw [numberFrom, map_cons, ih]

lemma getLast?_numberFrom :
    (numberFrom n log).getLast?.map (·.sequence) =
      if log = [] then none else some (n + (log.length - 1)) := by
  rw [getLast?_eq_getElem?, getElem?_numberFrom, length_numberFrom]
  split_ifs with hnil
  · rw [hnil]
    rfl
  · have hpos := length_pos_of_ne_nil hnil
    rw [getElem?_eq_getElem (by omega)]
    rfl

end

/-- **Genuine entries whose numbers follow each other are a piece of the log.** -/
theorem eq_take_of_entries {log events : List α} {first : ℕ}
    (h : ∀ x ∈ numberFrom first events, log[x.sequence]? = some x.event) :
    events = (log.drop first).take events.length := by
  refine ext_getElem? fun i => ?_
  rw [getElem?_take, getElem?_drop]
  split_ifs with hi
  · have hmem : (⟨first + i, events[i]⟩ : Numbered α) ∈ numberFrom first events := by
      refine mem_of_getElem? (i := i) ?_
      rw [getElem?_numberFrom, getElem?_eq_getElem hi, map_some]
    rw [getElem?_eq_getElem hi]
    exact (h _ hmem).symm
  · exact getElem?_eq_none (not_lt.mp hi)

/-- Numbered entries are entries of the log. -/
lemma entry_of_mem_numberFrom {log : List α} {first : ℕ} {x : Numbered α}
    (h : x ∈ numberFrom first (log.drop first)) : log[x.sequence]? = some x.event := by
  obtain ⟨i, hi⟩ := getElem?_of_mem h
  rw [getElem?_numberFrom, getElem?_drop, map_eq_some_iff] at hi
  obtain ⟨e, he, rfl⟩ := hi
  exact he

/-! ### The ring -/

/-- The number of the last entry, zero if there is none. -/
def lastSequence (entries : List (Numbered α)) : ℕ := (entries.getLast?.map (·.sequence)).getD 0

/-- Append an event under the next number and drop the first entry if there are too many. -/
def append (capacity : ℕ) (entries : List (Numbered α)) (event : α) : List (Numbered α) :=
  let sequence := (entries.getLast?.map fun last => last.sequence + 1).getD 0
  let entries := entries ++ [⟨sequence, event⟩]
  if capacity < entries.length then entries.tail else entries

/-- The last events of a log under their numbers, as many as the capacity allows. -/
def window (capacity : ℕ) (log : List α) : List (Numbered α) :=
  numberFrom (log.length - capacity) (log.drop (log.length - capacity))

variable {capacity : ℕ}

@[simp] lemma window_nil : window capacity ([] : List α) = [] := by
  rw [window, drop_nil, numberFrom]

section

variable (hcap : 0 < capacity) (log : List α)
include hcap

lemma next_window :
    ((window capacity log).getLast?.map fun last => last.sequence + 1).getD 0 = log.length := by
  rw [window, getLast?_eq_getElem?, getElem?_numberFrom, length_numberFrom, length_drop,
    getElem?_drop]
  cases hlen : log.length with
  | zero =>
    rw [length_eq_zero_iff.mp hlen]
    rfl
  | succ =>
    rw [getElem?_eq_getElem (by omega)]
    simp only [map_some, getD_some]
    omega

lemma lastSequence_window :
    lastSequence (window capacity log) = log.length - 1 := by
  have hnext := next_window hcap log
  rw [lastSequence]
  cases hlast : (window capacity log).getLast? with
  | none | some =>
    rw [hlast] at hnext
    rw [← hnext]
    rfl

/-- **Appending to the ring is appending to the log.** -/
theorem append_window (e : α) :
    append capacity (window capacity log) e = window capacity (log ++ [e]) := by
  have hfull : window capacity log ++ [⟨log.length, e⟩] =
      numberFrom (log.length - capacity) ((log ++ [e]).drop (log.length - capacity)) := by
    rw [drop_append_of_le_length (Nat.sub_le _ _), numberFrom_append, length_drop,
      Nat.add_sub_of_le (Nat.sub_le _ _), window]
    rfl
  rw [append, next_window hcap, hfull]
  simp only [length_numberFrom, length_drop, length_append, length_singleton]
  split_ifs with hover
  · rw [← drop_one, drop_numberFrom, drop_drop, window, length_append,
      length_singleton, show log.length + 1 - capacity = log.length - capacity + 1 by omega]
  · rw [window, length_append, length_singleton,
      show log.length + 1 - capacity = log.length - capacity by omega]

end

/-- A bounded ring, with the log of everything that was pushed since it was empty. The log
is an observation: no operation reads it. -/
structure Ring (capacity : ℕ) (α : Type*) where
  entries : List (Numbered α)
  log : List α
  entries_eq : entries = window capacity log

namespace Ring

/-- The ring without entries. -/
def empty : Ring capacity α := ⟨[], [], window_nil.symm⟩

/-- An event is appended; the oldest gives way when the ring is full. -/
def push [NeZero capacity] (ring : Ring capacity α) (event : α) : Ring capacity α where
  entries := append capacity ring.entries event
  log := ring.log ++ [event]
  entries_eq := by
    rw [ring.entries_eq]
    exact append_window (NeZero.pos capacity) ring.log event

/-- The number of the last entry, zero if there is none. -/
def current (ring : Ring capacity α) : ℕ := lastSequence ring.entries

variable (ring : Ring capacity α)

@[simp] lemma log_push [NeZero capacity] (e : α) : (ring.push e).log = ring.log ++ [e] :=
  rfl

lemma log_foldl_push [NeZero capacity] (events : List α) :
    (events.foldl push ring).log = ring.log ++ events := by
  induction events generalizing ring with
  | nil => exact (append_nil _).symm
  | cons event events ih => rw [foldl_cons, ih, log_push, append_assoc]; rfl

lemma current_eq [NeZero capacity] : ring.current = ring.log.length - 1 := by
  rw [current, ring.entries_eq, lastSequence_window (NeZero.pos capacity)]

lemma getLast?_entries [NeZero capacity] :
    ring.entries.getLast?.map (·.sequence) =
      if ring.log = [] then none else some (ring.log.length - 1) := by
  have hcap := NeZero.pos capacity
  rw [ring.entries_eq, window, getLast?_numberFrom, length_drop]
  split_ifs with hdrop hnil hnil
  · rfl
  · have hpos := length_pos_of_ne_nil hnil
    rw [drop_eq_nil_iff] at hdrop
    omega
  · exact absurd (by rw [hnil, drop_nil]) hdrop
  · have hpos := length_pos_of_ne_nil hnil
    congr 1
    omega

/-- The first number counts the events that have left. -/
lemma head?_entries [NeZero capacity] :
    ring.entries.head?.map (·.sequence) =
      if ring.log = [] then none else some (ring.log.length - capacity) := by
  have hcap := NeZero.pos capacity
  rw [ring.entries_eq, window, head?_eq_getElem?, getElem?_numberFrom, getElem?_drop]
  split_ifs with hnil
  · rw [hnil]
    rfl
  · have hpos := length_pos_of_ne_nil hnil
    rw [getElem?_eq_getElem (by omega)]
    rfl

end Ring

/-! ### Pages -/

/-- The number that a reader waits for, given the last one it has taken. -/
def expected (after : Option ℕ) : ℕ := after.elim 0 (· + 1)

/-- The first entries after a position. -/
def page (entries : List (Numbered α)) (after : Option ℕ) (limit : ℕ) : List (Numbered α) :=
  (entries.filter fun x => after.all (· < x.sequence)).take limit

lemma all_lt_iff : t.all (· < n) = true ↔ expected t ≤ n := by
  cases t with
  | none | some => simp [expected]

lemma filter_numberFrom (log : List α) (h : n ≤ expected t) :
    (numberFrom n log).filter (fun x => t.all (· < x.sequence)) =
      numberFrom (expected t) (log.drop (expected t - n)) := by
  -- the entries before the expected one and those from it on
  have hsplit : numberFrom n log = numberFrom n (log.take (expected t - n)) ++
      numberFrom (expected t) (log.drop (expected t - n)) := by
    rw [← take_numberFrom]
    conv_lhs => rw [← take_append_drop (expected t - n) (numberFrom n log)]
    rw [drop_numberFrom, Nat.add_sub_of_le h]
  have hbefore : (numberFrom n (log.take (expected t - n))).filter
      (fun x => t.all (· < x.sequence)) = [] := by
    refine filter_eq_nil_iff.mpr fun x hx hall => ?_
    have hlt := (mem_numberFrom hx).2
    have hle := all_lt_iff.mp hall
    rw [length_take] at hlt
    omega
  have hafter : (numberFrom (expected t) (log.drop (expected t - n))).filter
      (fun x => t.all (· < x.sequence)) =
      numberFrom (expected t) (log.drop (expected t - n)) :=
    filter_eq_self.mpr fun x hx => all_lt_iff.mpr (mem_numberFrom hx).1
  rw [hsplit, filter_append, hbefore, hafter, nil_append]

/-- **A page is the next piece of the log**, as long as the ring still holds its first event. -/
theorem Ring.page_entries (ring : Ring capacity α) (l : ℕ)
    (h : ring.log.length - capacity ≤ expected t) :
    page ring.entries t l =
      numberFrom (expected t) ((ring.log.drop (expected t)).take l) := by
  rw [page, ring.entries_eq, window, filter_numberFrom _ h, drop_drop, take_numberFrom,
    Nat.add_sub_of_le h]

end RingLog

end Foretoken
