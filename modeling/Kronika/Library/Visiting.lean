/-
Feeding a list of numbered rows to a visitor that may stop.

A visitor takes its state, the number of a row and the row, and says whether to go
on.  `feed` calls it on the rows in order until it says no.  The lemmas say how a
feed runs over two lists one behind the other, over rows that are numbered from
another start, and with the last answer kept beside the state.
-/
import Mathlib.Data.List.Basic

namespace Kronika.Library

variable {σ T : Type*}

abbrev Visitor (σ T : Type*) := σ → Nat → T → σ × Bool

/-- What is left of a feed: the state, the rows that were visited, and the last answer. -/
structure Fed (σ : Type*) where
  state : σ
  count : Nat
  goOn : Bool

/-- Calls the visitor on the rows in order, up to the first call that says no. -/
def feed (visitor : Visitor σ T) (s : σ) : List (Nat × T) → Fed σ
  | [] => { state := s, count := 0, goOn := true }
  | item :: items =>
    if (visitor s item.1 item.2).2 then
      { feed visitor (visitor s item.1 item.2).1 items with
        count := (feed visitor (visitor s item.1 item.2).1 items).count + 1 }
    else { state := (visitor s item.1 item.2).1, count := 1, goOn := false }

variable {visitor : Visitor σ T} {s : σ} {items later : List (Nat × T)}

@[simp] theorem feed_nil : feed visitor s [] = { state := s, count := 0, goOn := true } := rfl

theorem feed_cons_of_goOn {item : Nat × T} (h : (visitor s item.1 item.2).2 = true) :
    feed visitor s (item :: items) =
      { feed visitor (visitor s item.1 item.2).1 items with
        count := (feed visitor (visitor s item.1 item.2).1 items).count + 1 } := by
  rw [feed, if_pos h]

theorem feed_cons_of_stop {item : Nat × T} (h : (visitor s item.1 item.2).2 = false) :
    feed visitor s (item :: items) =
      { state := (visitor s item.1 item.2).1, count := 1, goOn := false } := by
  rw [feed, if_neg (by rw [h]; exact Bool.false_ne_true)]

theorem count_feed_le : (feed visitor s items).count ≤ items.length := by
  induction items generalizing s with
  | nil => exact Nat.le_refl 0
  | cons item items ih =>
    cases h : (visitor s item.1 item.2).2 with
    | false =>
      rw [feed_cons_of_stop h]
      exact Nat.le_add_left 1 _
    | true =>
      rw [feed_cons_of_goOn h]
      exact Nat.succ_le_succ ih

theorem count_feed_of_goOn (h : (feed visitor s items).goOn = true) :
    (feed visitor s items).count = items.length := by
  induction items generalizing s with
  | nil => rfl
  | cons item items ih =>
    cases hitem : (visitor s item.1 item.2).2 with
    | false =>
      rw [feed_cons_of_stop hitem] at h
      cases h
    | true =>
      rw [feed_cons_of_goOn hitem] at h ⊢
      rw [List.length_cons, ← ih h]

theorem feed_append : feed visitor s (items ++ later) =
    if (feed visitor s items).goOn then
      { feed visitor (feed visitor s items).state later with
        count := (feed visitor s items).count +
          (feed visitor (feed visitor s items).state later).count }
    else feed visitor s items := by
  induction items generalizing s with
  | nil => simp
  | cons item items ih =>
    rw [List.cons_append]
    cases hitem : (visitor s item.1 item.2).2 with
    | false =>
      rw [feed_cons_of_stop hitem, feed_cons_of_stop hitem]
      rfl
    | true =>
      rw [feed_cons_of_goOn hitem, feed_cons_of_goOn hitem, ih]
      split
      · simp only [Nat.add_right_comm]
      · rfl

def Visitor.renumber (f : Nat → Nat) (visitor : Visitor σ T) : Visitor σ T :=
  fun s number row => visitor s (f number) row

theorem feed_renumber (f : Nat → Nat) : feed (visitor.renumber f) s items =
    feed visitor s (items.map fun item => (f item.1, item.2)) := by
  induction items generalizing s with
  | nil => rfl
  | cons item items ih => simp only [List.map_cons, feed, Visitor.renumber, ih]

def Visitor.watched (visitor : Visitor σ T) : Visitor (σ × Bool) T :=
  fun s number row => ((visitor s.1 number row), (visitor s.1 number row).2)

theorem feed_watched : feed visitor.watched (s, true) items =
    { state := ((feed visitor s items).state, (feed visitor s items).goOn)
      count := (feed visitor s items).count
      goOn := (feed visitor s items).goOn } := by
  induction items generalizing s with
  | nil => rfl
  | cons item items ih =>
    cases h : (visitor s item.1 item.2).2 with
    | false =>
      have hwatched : (visitor.watched (s, true) item.1 item.2).2 = false := h
      have hstate : (visitor.watched (s, true) item.1 item.2).1 =
        ((visitor s item.1 item.2).1, false) := Prod.ext rfl h
      rw [feed_cons_of_stop h, feed_cons_of_stop hwatched, hstate]
    | true =>
      have hwatched : (visitor.watched (s, true) item.1 item.2).2 = true := h
      have hstate : (visitor.watched (s, true) item.1 item.2).1 =
        ((visitor s item.1 item.2).1, true) := Prod.ext rfl h
      rw [feed_cons_of_goOn h, feed_cons_of_goOn hwatched, hstate, ih]

def Visitor.record (goOn : Nat → T → Bool) : Visitor (List (Nat × T)) T :=
  fun log number row => (log ++ [(number, row)], goOn number row)

theorem feed_record {goOn : Nat → T → Bool} {log : List (Nat × T)} :
    (feed (Visitor.record goOn) log items).state =
      log ++ items.take (feed (Visitor.record goOn) log items).count := by
  induction items generalizing log with
  | nil => simp
  | cons item items ih =>
    cases h : (Visitor.record goOn log item.1 item.2).2 with
    | false =>
      rw [feed_cons_of_stop h]
      rfl
    | true =>
      rw [feed_cons_of_goOn h]
      rw [ih]
      simp [Visitor.record]

theorem feed_record_goOn {goOn : Nat → T → Bool} {log : List (Nat × T)}
    (h : ∀ number row, goOn number row = true) :
    (feed (Visitor.record goOn) log items).goOn = true := by
  induction items generalizing log with
  | nil => rfl
  | cons item items ih =>
    rw [feed_cons_of_goOn (h item.1 item.2)]
    exact ih

/-! ## Numbered rows -/

/-- The rows with their numbers, from `base` on. -/
def numbered (base : Nat) : List T → List (Nat × T)
  | [] => []
  | row :: rows => (base, row) :: numbered (base + 1) rows

variable {base : Nat} {rows more : List T}

@[simp] theorem length_numbered : (numbered base rows).length = rows.length := by
  induction rows generalizing base with
  | nil => rfl
  | cons row rows ih => rw [numbered, List.length_cons, List.length_cons, ih]

theorem numbered_append :
    numbered base (rows ++ more) = numbered base rows ++ numbered (base + rows.length) more := by
  induction rows generalizing base with
  | nil => rfl
  | cons row rows ih =>
    rw [List.cons_append, numbered, numbered, ih, List.length_cons, List.cons_append,
      Nat.add_assoc, Nat.add_comm 1]

theorem drop_numbered (n : Nat) :
    (numbered base rows).drop n = numbered (base + n) (rows.drop n) := by
  induction rows generalizing base n with
  | nil => simp [numbered]
  | cons row rows ih =>
    cases n with
    | zero => rfl
    | succ n => rw [numbered, List.drop_succ_cons, ih, List.drop_succ_cons, Nat.add_assoc,
        Nat.add_comm 1]

theorem take_numbered (n : Nat) : (numbered base rows).take n = numbered base (rows.take n) := by
  induction rows generalizing base n with
  | nil => simp [numbered]
  | cons row rows ih =>
    cases n with
    | zero => rfl
    | succ n => rw [numbered, List.take_succ_cons, ih, List.take_succ_cons, numbered]

theorem map_numbered {f : Nat → Nat} {start : Nat}
    (h : ∀ i, i < rows.length → f (base + i) = start + i) :
    (numbered base rows).map (fun item => (f item.1, item.2)) = numbered start rows := by
  induction rows generalizing base start with
  | nil => rfl
  | cons row rows ih =>
    have hfirst : f base = start := h 0 (Nat.succ_pos _)
    have hrest : ∀ i, i < rows.length → f (base + 1 + i) = start + 1 + i := fun i hi => by
      rw [Nat.add_assoc, Nat.add_comm 1, h (i + 1) (Nat.succ_lt_succ hi)]
      omega
    rw [numbered, List.map_cons, ih hrest, hfirst, numbered]

/-- The rows from `offset` up to `offset + limit`, with their numbers. -/
def rowRange (offset limit : Nat) (rows : List T) : List (Nat × T) :=
  ((numbered 0 rows).drop offset).take limit

theorem rowRange_eq (offset limit : Nat) (rows : List T) :
    rowRange offset limit rows = numbered offset ((rows.drop offset).take limit) := by
  rw [rowRange, drop_numbered, take_numbered, Nat.zero_add]

end Kronika.Library
