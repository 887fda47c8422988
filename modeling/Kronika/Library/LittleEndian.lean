/-
Little-endian numbers of a fixed width, and byte strings that are partly rewritten.

`splice k xs ys` is `ys` after its first `k` elements were replaced by those of
`xs`.  A number whose low bytes were rewritten agrees with the new one modulo the
rewritten width; this is all that a torn write leaves to say about it.
-/
import Mathlib.Data.Nat.Digits.Lemmas

namespace Kronika.Library

/-! ## Slices and splices -/

variable {n : Nat}

section Slices

variable {α : Type*}

/-- The elements from `start` up to `stop`. -/
def slice (xs : List α) (start stop : Nat) : List α := (xs.take stop).drop start

variable {xs : List α}

theorem length_slice {start stop : Nat} (h : stop ≤ xs.length) :
    (slice xs start stop).length = stop - start := by
  rw [slice, List.length_drop, List.length_take, Nat.min_eq_left h]

theorem getElem?_slice (xs : List α) (start stop i : Nat) :
    (slice xs start stop)[i]? = if start + i < stop then xs[start + i]? else none := by
  rw [slice, List.getElem?_drop, List.getElem?_take]

variable {xs ys : List α}

theorem slice_append_left {start stop : Nat} (h : stop ≤ xs.length) :
    slice (xs ++ ys) start stop = slice xs start stop := by
  rw [slice, slice, List.take_append_of_le_length h]

theorem slice_append_right (start stop : Nat) (h : xs.length = n) :
    slice (xs ++ ys) (n + start) (n + stop) = slice ys start stop := by
  rw [slice, slice, ← h, List.take_length_add_append, List.drop_length_add_append]

theorem slice_slice {start stop a b : Nat} (h : start + b ≤ stop) :
    slice (slice xs start stop) a b = slice xs (start + a) (start + b) := by
  apply List.ext_getElem?
  intro i
  simp only [getElem?_slice, Nat.add_assoc]
  by_cases hi : a + i < b
  · rw [if_pos hi, if_pos (by omega), if_pos (by omega)]
  · rw [if_neg hi, if_neg (by omega)]

theorem slice_append_slice {a b c : Nat} (hab : a ≤ b) (hbc : b ≤ c) :
    slice xs a b ++ slice xs b c = slice xs a c := by
  have hb : slice xs a b = (slice xs a c).take (b - a) := by
    rw [slice, slice, List.take_drop, Nat.add_sub_cancel' hab, List.take_take, Nat.min_eq_left hbc]
  have hc : slice xs b c = (slice xs a c).drop (b - a) := by
    rw [slice, slice, List.drop_drop, Nat.add_sub_cancel' hab]
  rw [hb, hc, List.take_append_drop]

theorem slice_pair (xs : List UInt8) {start : Nat} (h : start + 2 ≤ xs.length) :
    slice xs start (start + 2) = [xs.getD start 0, xs.getD (start + 1) 0] := by
  apply List.ext_getElem?
  intro i
  rw [getElem?_slice]
  have hzero : xs[start]? = some (xs[start]?.getD 0) := by
    rw [List.getElem?_eq_getElem (by omega), Option.getD_some]
  have hone : xs[start + 1]? = some (xs[start + 1]?.getD 0) := by
    rw [List.getElem?_eq_getElem (by omega), Option.getD_some]
  match i with
  | 0 => rw [if_pos (by omega)]; exact hzero
  | 1 => rw [if_pos (by omega)]; exact hone
  | i + 2 => rw [if_neg (by omega)]; rfl

theorem slice_single (xs : List UInt8) {start : Nat} (h : start < xs.length) :
    slice xs start (start + 1) = [xs.getD start 0] := by
  apply List.ext_getElem?
  intro i
  rw [getElem?_slice, List.getD_eq_getElem?_getD]
  match i with
  | 0 => rw [if_pos (by omega), Nat.add_zero, List.getElem?_eq_getElem h]; rfl
  | i + 1 => rw [if_neg (by omega)]; rfl

theorem slice_full (h : xs.length ≤ n) : slice xs 0 n = xs := by
  rw [slice, List.take_of_length_le h, List.drop_zero]

/-- `ys` with its first `k` elements taken from `xs`. -/
def splice (k : Nat) (xs ys : List α) : List α := xs.take k ++ ys.drop k

variable {k : Nat}

theorem length_splice (h : xs.length = ys.length) : (splice k xs ys).length = ys.length := by
  rw [splice, List.length_append, List.length_take, List.length_drop]
  omega

theorem length_splice_of_le (hx : k ≤ xs.length)
    (hy : k ≤ ys.length) : (splice k xs ys).length = ys.length := by
  rw [splice, List.length_append, List.length_take, List.length_drop]
  omega

theorem drop_splice {k n : Nat} (hx : k ≤ xs.length) (hn : k ≤ n) :
    (splice k xs ys).drop n = ys.drop n := by
  have htake : (xs.take k).length = k := by rw [List.length_take, Nat.min_eq_left hx]
  rw [splice, List.drop_append, List.drop_of_length_le (by omega), List.nil_append, htake,
    List.drop_drop, Nat.add_sub_cancel' hn]

@[simp] theorem splice_zero (xs ys : List α) : splice 0 xs ys = ys := by
  rw [splice, List.take_zero, List.drop_zero, List.nil_append]

theorem splice_of_length_le (hx : xs.length ≤ k) (hy : ys.length ≤ k) : splice k xs ys = xs := by
  rw [splice, List.take_of_length_le hx, List.drop_of_length_le hy, List.append_nil]

theorem getElem?_splice (h : xs.length = ys.length) (i : Nat) :
    (splice k xs ys)[i]? = if i < k then xs[i]? else ys[i]? := by
  by_cases hk : k ≤ xs.length
  · have hlen : (xs.take k).length = k := by rw [List.length_take, Nat.min_eq_left hk]
    by_cases hi : i < k
    · rw [if_pos hi, splice, List.getElem?_append_left (by omega), List.getElem?_take, if_pos hi]
    · rw [if_neg hi, splice, List.getElem?_append_right (by omega), List.getElem?_drop]
      congr 1
      omega
  · rw [splice_of_length_le (by omega) (by omega)]
    by_cases hi : i < k
    · rw [if_pos hi]
    · rw [if_neg hi, List.getElem?_eq_none (by omega), List.getElem?_eq_none (by omega)]

theorem slice_splice {k start stop : Nat} (h : xs.length = ys.length) (hstop : stop ≤ xs.length) :
    slice (splice k xs ys) start stop =
      splice (k - start) (slice xs start stop) (slice ys start stop) := by
  have hlen : (slice xs start stop).length = (slice ys start stop).length := by
    rw [length_slice hstop, length_slice (h ▸ hstop)]
  apply List.ext_getElem?
  intro i
  rw [getElem?_splice hlen, getElem?_slice, getElem?_slice, getElem?_slice, getElem?_splice h]
  by_cases hi : start + i < stop
  · by_cases hk : start + i < k
    · rw [if_pos hi, if_pos hk, if_pos (by omega), if_pos hi]
    · rw [if_pos hi, if_neg hk, if_neg (by omega), if_pos hi]
  · rw [if_neg hi, if_neg hi, if_neg hi, ite_self]

@[simp] theorem splice_self (k : Nat) (xs : List α) : splice k xs xs = xs :=
  List.take_append_drop k xs

theorem splice_append (zs : List α) (h : k ≤ ys.length) :
    splice k xs (ys ++ zs) = splice k xs ys ++ zs := by
  rw [splice, splice, List.drop_append_of_le_length h, List.append_assoc]

theorem splice_splice {j k : Nat} (h : xs.length = ys.length) :
    splice j xs (splice k xs ys) = splice (max j k) xs ys := by
  have hlen : xs.length = (splice k xs ys).length := by rw [length_splice h, h]
  apply List.ext_getElem?
  intro i
  rw [getElem?_splice hlen, getElem?_splice h, getElem?_splice h]
  by_cases hj : i < j
  · rw [if_pos hj, if_pos (by omega)]
  · by_cases hk : i < k
    · rw [if_neg hj, if_pos hk, if_pos (by omega)]
    · rw [if_neg hj, if_neg hk, if_neg (by omega)]

end Slices

/-! ## Numbers -/

/-- The `width` low bytes of `n`, lowest first. -/
def leBytes : Nat → Nat → List UInt8
  | 0, _ => []
  | width + 1, n => UInt8.ofNat n :: leBytes width (n / 256)

def leNat (bytes : List UInt8) : Nat := Nat.ofDigits 256 (bytes.map UInt8.toNat)

@[simp] theorem length_leBytes (width n : Nat) : (leBytes width n).length = width := by
  induction width generalizing n with
  | zero => rfl
  | succ width ih => rw [leBytes, List.length_cons, ih]

theorem leNat_cons (b : UInt8) (bytes : List UInt8) :
    leNat (b :: bytes) = b.toNat + 256 * leNat bytes := rfl

theorem leNat_append (xs ys : List UInt8) :
    leNat (xs ++ ys) = leNat xs + 256 ^ xs.length * leNat ys := by
  rw [leNat, List.map_append, Nat.ofDigits_append, List.length_map]
  rfl

theorem leNat_lt (bytes : List UInt8) : leNat bytes < 256 ^ bytes.length := by
  have hdigit : ∀ x ∈ bytes.map UInt8.toNat, x < 256 := by
    intro x hx
    obtain ⟨b, -, rfl⟩ := List.mem_map.mp hx
    exact b.toNat_lt
  have h : leNat bytes < 256 ^ (bytes.map UInt8.toNat).length :=
    Nat.ofDigits_lt_base_pow_length (by omega) hdigit
  rwa [List.length_map] at h

theorem leNat_leBytes (width n : Nat) : leNat (leBytes width n) = n % 256 ^ width := by
  induction width generalizing n with
  | zero => rw [pow_zero, Nat.mod_one]; rfl
  | succ width ih =>
    have hbyte : (UInt8.ofNat n).toNat = n % 256 := UInt8.toNat_ofNat'
    have hpow : 256 ^ (width + 1) = 256 * 256 ^ width := pow_succ' 256 width
    rw [leBytes, leNat_cons, ih, hbyte, hpow, Nat.mod_mul]

theorem leNat_leBytes_of_lt {width n : Nat} (h : n < 256 ^ width) :
    leNat (leBytes width n) = n := by
  rw [leNat_leBytes, Nat.mod_eq_of_lt h]

theorem leNat_u32 (h : n < 2 ^ 32) : leNat (leBytes 4 n) = n :=
  leNat_leBytes_of_lt h

theorem leNat_u64 (h : n < 2 ^ 64) : leNat (leBytes 8 n) = n :=
  leNat_leBytes_of_lt h

theorem leBytes_leNat (bytes : List UInt8) : leBytes bytes.length (leNat bytes) = bytes := by
  induction bytes with
  | nil => rfl
  | cons b bytes ih =>
    have hb := b.toNat_lt
    have hdiv : (b.toNat + 256 * leNat bytes) / 256 = leNat bytes := by omega
    have hmod : UInt8.ofNat (b.toNat + 256 * leNat bytes) = b := by
      apply UInt8.toNat_inj.mp
      rw [UInt8.toNat_ofNat']
      omega
    rw [List.length_cons, leBytes, leNat_cons, hdiv, hmod, ih]

/-! ## Numbers of a fixed width -/

def u16Of (bytes : List UInt8) : UInt16 := UInt16.ofNat (leNat bytes)
def u32Of (bytes : List UInt8) : UInt32 := UInt32.ofNat (leNat bytes)
def u64Of (bytes : List UInt8) : UInt64 := UInt64.ofNat (leNat bytes)

theorem u16Of_leBytes (value : UInt16) : u16Of (leBytes 2 value.toNat) = value := by
  rw [u16Of, leNat_leBytes_of_lt value.toNat_lt, UInt16.ofNat_toNat]

theorem u32Of_leBytes (value : UInt32) : u32Of (leBytes 4 value.toNat) = value := by
  rw [u32Of, leNat_leBytes_of_lt value.toNat_lt, UInt32.ofNat_toNat]

theorem u64Of_leBytes (value : UInt64) : u64Of (leBytes 8 value.toNat) = value := by
  rw [u64Of, leNat_leBytes_of_lt value.toNat_lt, UInt64.ofNat_toNat]

variable {bytes : List UInt8}

theorem leBytes_u16Of (h : bytes.length = 2) : leBytes 2 (u16Of bytes).toNat = bytes := by
  have hlt := leNat_lt bytes
  rw [h] at hlt
  rw [u16Of, UInt16.toNat_ofNat_of_lt' hlt, ← h, leBytes_leNat]

theorem leBytes_u32Of (h : bytes.length = 4) : leBytes 4 (u32Of bytes).toNat = bytes := by
  have hlt := leNat_lt bytes
  rw [h] at hlt
  rw [u32Of, UInt32.toNat_ofNat_of_lt' hlt, ← h, leBytes_leNat]

theorem leBytes_u64Of (h : bytes.length = 8) : leBytes 8 (u64Of bytes).toNat = bytes := by
  have hlt := leNat_lt bytes
  rw [h] at hlt
  rw [u64Of, UInt64.toNat_ofNat_of_lt' hlt, ← h, leBytes_leNat]

theorem leNat_splice_mod (k : Nat) {xs : List UInt8} (ys : List UInt8)
    (hk : k ≤ xs.length) : leNat (splice k xs ys) % 256 ^ k = leNat xs % 256 ^ k := by
  have hsplit : leNat xs = leNat (xs.take k) + 256 ^ k * leNat (xs.drop k) := by
    have happ := leNat_append (xs.take k) (xs.drop k)
    rwa [List.take_append_drop, List.length_take, Nat.min_eq_left hk] at happ
  rw [splice, leNat_append, List.length_take, Nat.min_eq_left hk, hsplit, Nat.add_mul_mod_self_left,
    Nat.add_mul_mod_self_left]

end Kronika.Library
