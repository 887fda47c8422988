/-
Lists of rows of one width.

A codec encodes a row to `width` bytes, and may refuse a row for its value or for
the row it stands behind.  The two rules lift what is known of one row to the list:
the rows of an encoded list are read back, and a list that was read encodes to the
bytes it was read from exactly when each of its rows does.
-/
import Kronika.Library.LittleEndian

namespace Kronika.Library

structure RowCodec (α : Type*) where
  width : Nat
  encodeRow : α → List UInt8
  decodeRow : List UInt8 → Option α
  valid : α → Bool
  /-- The second row may not stand right behind the first. -/
  refuses : α → α → Bool

namespace RowCodec

variable {α : Type*} (codec : RowCodec α)

def encodeRows : Option α → List α → Option (List UInt8)
  | _, [] => some []
  | previous, row :: rows =>
    if previous.any (codec.refuses · row) || !codec.valid row then none
    else (encodeRows (some row) rows).map (codec.encodeRow row ++ ·)

def decodeRows : Option α → Nat → List UInt8 → Option (List α)
  | _, 0, _ => some []
  | previous, count + 1, bytes =>
    match codec.decodeRow (bytes.take codec.width) with
    | none => none
    | some row =>
      if previous.any (codec.refuses · row) then none
      else (decodeRows (some row) count (bytes.drop codec.width)).map (row :: ·)

/-- The bytes of one row. -/
def rowAt (bytes : List UInt8) (i : Nat) : List UInt8 :=
  slice bytes (i * codec.width) (i * codec.width + codec.width)

/-- A row that was read is valid, and is encoded to the bytes it was read from exactly
when these are `canonical`. -/
structure Lawful (canonical : List UInt8 → Prop) : Prop where
  length_encode : ∀ row, (codec.encodeRow row).length = codec.width
  encode_decode : ∀ raw row, raw.length = codec.width → codec.decodeRow raw = some row →
    codec.valid row = true ∧ (codec.encodeRow row = raw ↔ canonical raw)

variable {codec} {canonical : List UInt8 → Prop} {previous : Option α} {rows : List α}
variable {bytes : List UInt8} {count : Nat}

theorem Lawful.length_encodeRows (h : codec.Lawful canonical)
    (hrows : codec.encodeRows previous rows = some bytes) :
    bytes.length = rows.length * codec.width := by
  induction rows generalizing previous bytes with
  | nil =>
    rw [← Option.some.inj hrows]
    simp
  | cons row rows ih =>
    rw [encodeRows] at hrows
    split at hrows
    · cases hrows
    · obtain ⟨rest, hrest, heq⟩ := Option.map_eq_some_iff.mp hrows
      have hlen := ih hrest
      rw [← heq, List.length_append, h.length_encode, List.length_cons, Nat.add_mul]
      omega

theorem Lawful.decodeRows_encodeRows (h : codec.Lawful canonical)
    (hround : ∀ row ∈ rows, codec.valid row = true →
      codec.decodeRow (codec.encodeRow row) = some row)
    (hrows : codec.encodeRows previous rows = some bytes) :
    codec.decodeRows previous rows.length bytes = some rows := by
  induction rows generalizing previous bytes with
  | nil => rfl
  | cons row rows ih =>
    rw [encodeRows] at hrows
    split at hrows
    · cases hrows
    · rename_i hok
      obtain ⟨rest, hrest, heq⟩ := Option.map_eq_some_iff.mp hrows
      simp only [Bool.or_eq_true, Bool.not_eq_true', not_or, Bool.not_eq_true,
        Bool.not_eq_false] at hok
      have hlen := h.length_encode row
      have htake : (codec.encodeRow row ++ rest).take codec.width = codec.encodeRow row := by
        rw [← hlen, List.take_left]
      have hdrop : (codec.encodeRow row ++ rest).drop codec.width = rest := by
        rw [← hlen, List.drop_left]
      have htail := ih (fun other hother => hround other (List.mem_cons_of_mem _ hother)) hrest
      rw [← heq, List.length_cons, decodeRows, htake, hdrop, hround row List.mem_cons_self hok.2]
      dsimp only
      rw [if_neg (by rw [hok.1]; decide), htail, Option.map_some]

theorem rowAt_succ (i : Nat) :
    codec.rowAt bytes (i + 1) = codec.rowAt (bytes.drop codec.width) i := by
  apply List.ext_getElem?
  intro j
  rw [rowAt, rowAt, getElem?_slice, getElem?_slice, List.getElem?_drop, Nat.add_mul]
  by_cases hj : j < codec.width
  · rw [if_pos (by omega), if_pos (by omega)]
    congr 1
    omega
  · rw [if_neg (by omega), if_neg (by omega)]

/-- A list that was read can be encoded, to bytes of the same length, and these are
the bytes it was read from exactly when every row of them is canonical. -/
theorem Lawful.encodeRows_decodeRows (h : codec.Lawful canonical)
    (hlen : bytes.length = count * codec.width)
    (hrows : codec.decodeRows previous count bytes = some rows) :
    rows.length = count ∧ ∃ out, codec.encodeRows previous rows = some out ∧
      out.length = bytes.length ∧
      (out = bytes ↔ ∀ i < count, canonical (codec.rowAt bytes i)) := by
  induction count generalizing previous rows bytes with
  | zero =>
    have hnil : bytes = [] := List.eq_nil_of_length_eq_zero (by rw [hlen, Nat.zero_mul])
    rw [← Option.some.inj hrows, hnil]
    exact ⟨rfl, [], rfl, rfl, by simp⟩
  | succ count ih =>
    rw [Nat.add_mul] at hlen
    rw [decodeRows] at hrows
    cases hrow : codec.decodeRow (bytes.take codec.width) with
    | none =>
      rw [hrow] at hrows
      cases hrows
    | some row =>
      rw [hrow] at hrows
      dsimp only at hrows
      split at hrows
      · cases hrows
      · rename_i hok
        obtain ⟨rest, hrest, rfl⟩ := Option.map_eq_some_iff.mp hrows
        have htake : (bytes.take codec.width).length = codec.width := by
          rw [List.length_take]
          omega
        obtain ⟨hvalid, hcanonical⟩ := h.encode_decode _ row htake hrow
        obtain ⟨hcount, out, hout, houtlen, hiff⟩ := ih (by rw [List.length_drop]; omega) hrest
        rw [List.length_drop] at houtlen
        have hfirst : codec.rowAt bytes 0 = bytes.take codec.width := by
          rw [rowAt, Nat.zero_mul, Nat.zero_add, slice, List.drop_zero]
        have hwidth := h.length_encode row
        refine ⟨by rw [List.length_cons, hcount], codec.encodeRow row ++ out, ?_, ?_, ?_⟩
        · rw [encodeRows, hvalid, Bool.eq_false_iff.mpr hok, hout]
          rfl
        · rw [List.length_append]
          omega
        · have hsplit : codec.encodeRow row ++ out = bytes ↔
              codec.encodeRow row = bytes.take codec.width ∧ out = bytes.drop codec.width := by
            constructor
            · intro heq
              rw [← heq, ← hwidth, List.take_left, List.drop_left]
              exact ⟨rfl, rfl⟩
            · rintro ⟨hhead, htail⟩
              rw [hhead, htail, List.take_append_drop]
          rw [hsplit, hcanonical, hiff, ← hfirst]
          constructor
          · rintro ⟨hzero, hlater⟩ i hi
            cases i with
            | zero => exact hzero
            | succ i =>
              rw [rowAt_succ]
              exact hlater i (by omega)
          · intro hall
            refine ⟨hall 0 (by omega), fun i hi => ?_⟩
            rw [← rowAt_succ]
            exact hall (i + 1) (by omega)

end RowCodec

end Kronika.Library
