/-
Comparing two products of 128-bit factors without rounding.

A product is kept in limbs of 32 bits, the least significant first.  A loop over a
buffer runs over the limbs from its index on, and an index behind the end of the buffer
is `none`: the fixed buffer then gives up, and the heap buffer would stop the program.
-/
import Kronika.Library.Digits
import Mathlib.Algebra.BigOperators.Group.List.Basic
import Mathlib.Tactic.Ring

namespace Kronika.Query

open Library

abbrev Limb := BitVec 32

/-! ## Multiplication -/

def factorDigits (factor : BitVec 128) : List Limb :=
  [factor.setWidth 32, (factor >>> 32).setWidth 32, (factor >>> 64).setWidth 32,
    (factor >>> 96).setWidth 32]

/-- `while carry > 0` on a buffer that cannot grow. -/
def fixedCarry : List Limb → BitVec 64 → Option (List Limb)
  | [], carry => if carry = 0 then some [] else none
  | slot :: slots, carry =>
    if carry = 0 then some (slot :: slots)
    else
      let value := slot.setWidth 64 + carry
      (fixedCarry slots (value >>> 32)).map (value.setWidth 32 :: ·)

theorem next_lt (slot : Limb) {carry : BitVec 64} (h : carry ≠ 0) :
    ((slot.setWidth 64 + carry) >>> 32).toNat * 2 ^ 32 + (List.headD [0] (0 : Limb)).toNat <
      carry.toNat * 2 ^ 32 + (List.headD (slot :: []) (0 : Limb)).toNat := by
  have hpos : carry.toNat ≠ 0 := fun hzero => h (BitVec.eq_of_toNat_eq hzero)
  have hle : (slot.setWidth 64 + carry).toNat ≤ slot.toNat + carry.toNat := by
    exact Nat.mod_le _ _
  rw [List.headD_cons, List.headD_cons, BitVec.toNat_ushiftRight]
  have hzero : (0 : Limb).toNat = 0 := rfl
  omega

/-- `while carry > 0` on a buffer that grows at its end. -/
def heapCarry (slots : List Limb) (carry : BitVec 64) : Option (List Limb) :=
  if _hcarry : carry = 0 then some slots
  else
    match slots with
    | [] => none
    | slot :: slots =>
      let value := slot.setWidth 64 + carry
      let next := value >>> 32
      (heapCarry (if slots = [] ∧ next ≠ 0 then [0] else slots) next).map
        (value.setWidth 32 :: ·)
termination_by (slots.length, carry.toNat * 2 ^ 32 + (slots.headD 0).toNat)
decreasing_by
  split_ifs with hpush
  · rw [hpush.1]
    exact Prod.Lex.right _ (next_lt slot _hcarry)
  · exact Prod.Lex.left _ _ (Nat.lt_succ_self _)

/-- The digits of a factor times one limb, added to the limbs from its index on. -/
def mulRow (finish : List Limb → BitVec 64 → Option (List Limb)) (left : Limb) :
    List Limb → List Limb → BitVec 64 → Option (List Limb)
  | [], slots, carry => finish slots carry
  | _ :: _, [], _ => none
  | right :: rights, slot :: slots, carry =>
    let value := slot.setWidth 64 + left.setWidth 64 * right.setWidth 64 + carry
    (mulRow finish left rights slots (value >>> 32)).map (value.setWidth 32 :: ·)

/-- The rows of all limbs of the accumulator, each one limb further. -/
def mulRows (finish : List Limb → BitVec 64 → Option (List Limb)) (digits : List Limb) :
    List Limb → List Limb → Option (List Limb)
  | [], slots => some slots
  | left :: lefts, slots =>
    match mulRow finish left digits slots 0 with
    | none | some [] => none
    | some (slot :: slots) => (mulRows finish digits lefts slots).map (slot :: ·)

/-- `while len > 1 && digits[len - 1] == 0`. -/
def trim (digits : List Limb) : Nat → Nat
  | 0 => 0
  | 1 => 1
  | len + 2 => if digits.getD (len + 1) 0 = 0 then trim digits (len + 1) else len + 2

/-! ## The two buffers -/

structure FixedProduct where
  digits : List Limb
  len : Nat

def fixedStep (accumulator : FixedProduct) (factor : BitVec 128) : Option FixedProduct :=
  match mulRows fixedCarry (factorDigits factor) (accumulator.digits.take accumulator.len)
      (List.replicate 16 0) with
  | none => none
  | some result =>
    some { digits := result, len := trim result (min (accumulator.len + 4) result.length) }

def fixedProductLimbs (factors : List (BitVec 128)) : Option FixedProduct :=
  if 4 < factors.length then none
  else factors.foldlM fixedStep { digits := 1 :: List.replicate 15 0, len := 1 }

def heapStep (accumulator : List Limb) (factor : BitVec 128) : Option (List Limb) :=
  match mulRows heapCarry (factorDigits factor) accumulator
      (List.replicate (accumulator.length + 4) 0) with
  | none => none
  | some multiplied => some (multiplied.take (trim multiplied multiplied.length))

def heapProductLimbs (factors : List (BitVec 128)) : Option (List Limb) :=
  (factors.foldlM heapStep [1]).map List.reverse

def compareLimbs (left right : List Limb) : Ordering :=
  List.compareLex (fun a b => compare a.toNat b.toNat) left right

def compareFixed (left right : FixedProduct) : Ordering :=
  (compare left.len right.len).then
    (compareLimbs (left.digits.take left.len).reverse (right.digits.take right.len).reverse)

def compareHeap (left right : List Limb) : Ordering :=
  (compare left.length right.length).then (compareLimbs left right)

def compareProducts (left right : List (BitVec 128)) : Option Ordering :=
  match fixedProductLimbs left, fixedProductLimbs right with
  | some left, some right => some (compareFixed left right)
  | _, _ =>
    match heapProductLimbs left, heapProductLimbs right with
    | some left, some right => some (compareHeap left right)
    | _, _ => none

/-! ## What the limbs stand for -/

def value (limbs : List Limb) : Nat :=
  Nat.ofDigits (2 ^ 32) (limbs.map BitVec.toNat)

@[simp] theorem value_nil : value [] = 0 :=
  rfl

@[simp] theorem value_cons (limb : Limb) (limbs : List Limb) :
    value (limb :: limbs) = limb.toNat + 2 ^ 32 * value limbs :=
  Nat.ofDigits_cons

theorem value_append (xs ys : List Limb) :
    value (xs ++ ys) = value xs + (2 ^ 32) ^ xs.length * value ys := by
  rw [value, List.map_append, Nat.ofDigits_append, List.length_map]
  rfl

theorem value_lt (limbs : List Limb) : value limbs < (2 ^ 32) ^ limbs.length := by
  have hdigits : ∀ x ∈ limbs.map BitVec.toNat, x < 2 ^ 32 := by
    intro x hx
    obtain ⟨limb, -, rfl⟩ := List.mem_map.mp hx
    exact limb.isLt
  have hlt := Nat.ofDigits_lt_base_pow_length (by decide : 1 < 2 ^ 32) hdigits
  rw [List.length_map] at hlt
  exact hlt

theorem value_zeros (n : Nat) : value (List.replicate n 0) = 0 := by
  induction n with
  | zero => rfl
  | succ n ih => rw [List.replicate_succ, value_cons, ih]; rfl

theorem value_factorDigits (factor : BitVec 128) : value (factorDigits factor) = factor.toNat := by
  simp only [factorDigits, value_cons, value_nil, BitVec.toNat_setWidth, BitVec.toNat_ushiftRight]
  omega

/-! ## One row -/

theorem next_carry_lt (v : BitVec 64) : (v >>> 32).toNat < 2 ^ 32 := by
  rw [BitVec.toNat_ushiftRight]
  omega

theorem low_add_high (v : BitVec 64) :
    (v.setWidth 32).toNat + 2 ^ 32 * (v >>> 32).toNat = v.toNat := by
  rw [BitVec.toNat_ushiftRight, Nat.shiftRight_eq_div_pow]
  exact Nat.mod_add_div _ _

theorem add_toNat (slot : Limb) {carry : BitVec 64} (h : carry.toNat < 2 ^ 32) :
    (slot.setWidth 64 + carry).toNat = slot.toNat + carry.toNat := by
  rw [BitVec.toNat_add, BitVec.toNat_setWidth, Nat.mod_eq_of_lt (by omega : slot.toNat < 2 ^ 64),
    Nat.mod_eq_of_lt (by omega)]

theorem mulAdd_toNat (slot left right : Limb) {carry : BitVec 64} (h : carry.toNat < 2 ^ 32) :
    (slot.setWidth 64 + left.setWidth 64 * right.setWidth 64 + carry).toNat =
      slot.toNat + left.toNat * right.toNat + carry.toNat := by
  have hmul : left.toNat * right.toNat ≤ (2 ^ 32 - 1) * (2 ^ 32 - 1) :=
    Nat.mul_le_mul (by omega) (by omega)
  rw [BitVec.toNat_add, BitVec.toNat_add, BitVec.toNat_mul, BitVec.toNat_setWidth,
    BitVec.toNat_setWidth, BitVec.toNat_setWidth,
    Nat.mod_eq_of_lt (by omega : slot.toNat < 2 ^ 64),
    Nat.mod_eq_of_lt (by omega : left.toNat < 2 ^ 64),
    Nat.mod_eq_of_lt (by omega : right.toNat < 2 ^ 64),
    Nat.mod_eq_of_lt (by omega : left.toNat * right.toNat < 2 ^ 64),
    Nat.mod_eq_of_lt (by omega : slot.toNat + left.toNat * right.toNat < 2 ^ 64),
    Nat.mod_eq_of_lt (by omega)]

/-- The buffer keeps its length and takes up the amount. -/
structure Takes (slots : List Limb) (amount : Nat) (result : Option (List Limb)) : Prop where
  out : ∃ out, result = some out ∧ out.length = slots.length ∧ value out = value slots + amount

theorem Takes.cons {slot limb : Limb} {slots : List Limb} {rest amount : Nat}
    {result : Option (List Limb)} (h : Takes slots rest result)
    (hsum : limb.toNat + 2 ^ 32 * rest = slot.toNat + amount) :
    Takes (slot :: slots) amount (result.map (limb :: ·)) := by
  obtain ⟨out, rfl, hlen, hvalue⟩ := h.out
  refine ⟨limb :: out, rfl, ?_, ?_⟩
  · rw [List.length_cons, List.length_cons, hlen]
  · rw [value_cons, value_cons]
    omega

theorem fits_tail {slot limb : Limb} {slots : List Limb} {rest amount : Nat}
    (h : value (slot :: slots) + amount < (2 ^ 32) ^ (slot :: slots).length)
    (hsum : limb.toNat + 2 ^ 32 * rest = slot.toNat + amount) :
    value slots + rest < (2 ^ 32) ^ slots.length := by
  rw [value_cons, List.length_cons] at h
  omega

/-- The rest of a row takes up the carry when the number fits into the buffer. -/
def TakesCarry (finish : List Limb → BitVec 64 → Option (List Limb)) : Prop :=
  ∀ (slots : List Limb) (carry : BitVec 64), carry.toNat < 2 ^ 32 →
    value slots + carry.toNat < (2 ^ 32) ^ slots.length →
    Takes slots carry.toNat (finish slots carry)

theorem takesCarry_fixed : TakesCarry fixedCarry := by
  intro slots
  induction slots with
  | nil =>
    intro carry _ hfits
    have hzero : carry = 0 := by
      apply BitVec.eq_of_toNat_eq
      rw [List.length_nil] at hfits
      show carry.toNat = 0
      omega
    rw [hzero]
    exact ⟨[], rfl, rfl, rfl⟩
  | cons slot slots ih =>
    intro carry hcarry hfits
    rw [fixedCarry]
    by_cases hzero : carry = 0
    · rw [hzero]
      exact ⟨slot :: slots, rfl, rfl, rfl⟩
    · rw [if_neg hzero]
      have hsum := low_add_high (slot.setWidth 64 + carry)
      rw [add_toNat slot hcarry] at hsum
      exact (ih _ (next_carry_lt _) (fits_tail hfits hsum)).cons hsum

theorem heapCarry_eq (slots : List Limb) : ∀ carry : BitVec 64, carry.toNat < 2 ^ 32 →
    value slots + carry.toNat < (2 ^ 32) ^ slots.length →
    heapCarry slots carry = fixedCarry slots carry := by
  induction slots with
  | nil =>
    intro carry _ _
    rw [heapCarry, fixedCarry]
    by_cases hzero : carry = 0
    · rw [dif_pos hzero, if_pos hzero]
    · rw [dif_neg hzero, if_neg hzero]
  | cons slot slots ih =>
    intro carry hcarry hfits
    rw [heapCarry, fixedCarry]
    by_cases hzero : carry = 0
    · rw [dif_pos hzero, if_pos hzero]
    · rw [dif_neg hzero, if_neg hzero]
      have hsum := low_add_high (slot.setWidth 64 + carry)
      rw [add_toNat slot hcarry] at hsum
      have htail := fits_tail hfits hsum
      have hroom : ¬(slots = [] ∧ (slot.setWidth 64 + carry) >>> 32 ≠ 0) := by
        rintro ⟨rfl, hnext⟩
        apply hnext
        apply BitVec.eq_of_toNat_eq
        rw [List.length_nil] at htail
        show ((slot.setWidth 64 + carry) >>> 32).toNat = 0
        omega
      dsimp only
      rw [if_neg hroom, ih _ (next_carry_lt _) htail]

theorem takesCarry_heap : TakesCarry heapCarry := by
  intro slots carry hcarry hfits
  rw [heapCarry_eq slots carry hcarry hfits]
  exact takesCarry_fixed slots carry hcarry hfits

variable {finish : List Limb → BitVec 64 → Option (List Limb)}

theorem takes_mulRow (hfinish : TakesCarry finish) (left : Limb) (rights : List Limb) :
    ∀ (slots : List Limb) (carry : BitVec 64), rights.length ≤ slots.length →
      carry.toNat < 2 ^ 32 →
      value slots + (left.toNat * value rights + carry.toNat) < (2 ^ 32) ^ slots.length →
      Takes slots (left.toNat * value rights + carry.toNat)
        (mulRow finish left rights slots carry) := by
  induction rights with
  | nil =>
    intro slots carry _ hcarry hfits
    rw [value_nil, Nat.mul_zero, Nat.zero_add] at hfits ⊢
    exact hfinish slots carry hcarry hfits
  | cons right rights ih =>
    intro slots carry hlen hcarry hfits
    cases slots with
    | nil => exact absurd hlen (Nat.not_succ_le_zero _)
    | cons slot slots =>
      rw [mulRow]
      have hlow := low_add_high
        (slot.setWidth 64 + left.setWidth 64 * right.setWidth 64 + carry)
      rw [mulAdd_toNat slot left right hcarry] at hlow
      generalize slot.setWidth 64 + left.setWidth 64 * right.setWidth 64 + carry = v at hlow ⊢
      have hsum : (v.setWidth 32).toNat +
          2 ^ 32 * (left.toNat * value rights + (v >>> 32).toNat) =
            slot.toNat + (left.toNat * value (right :: rights) + carry.toNat) := by
        rw [value_cons, Nat.mul_add, Nat.mul_add, Nat.mul_left_comm left.toNat]
        omega
      have hrest := ih slots (v >>> 32) (Nat.le_of_succ_le_succ hlen) (next_carry_lt v)
        (fits_tail hfits hsum)
      exact hrest.cons hsum

/-! ## All rows -/

theorem takes_mulRows (hfinish : TakesCarry finish) (digits lefts : List Limb) :
    ∀ slots : List Limb, lefts.length + digits.length ≤ slots.length →
      value slots + value lefts * value digits < (2 ^ 32) ^ slots.length →
      Takes slots (value lefts * value digits) (mulRows finish digits lefts slots) := by
  induction lefts with
  | nil =>
    intro slots _ _
    rw [value_nil, Nat.zero_mul]
    exact ⟨slots, rfl, rfl, rfl⟩
  | cons left lefts ih =>
    intro slots hlen hfits
    rw [List.length_cons] at hlen
    have hsplit : value (left :: lefts) * value digits =
        left.toNat * value digits + 2 ^ 32 * (value lefts * value digits) := by
      rw [value_cons, Nat.add_mul, Nat.mul_assoc]
    have hrowFits : value slots + (left.toNat * value digits + 0) < (2 ^ 32) ^ slots.length := by
      omega
    have hrow := takes_mulRow hfinish left digits slots 0 (by omega) (by decide) hrowFits
    obtain ⟨row, hmul, hrowLen, hrowValue⟩ := hrow.out
    rw [mulRows, hmul]
    cases row with
    | nil =>
      rw [List.length_nil] at hrowLen
      omega
    | cons slot rest =>
      have hslots : slots.length = rest.length + 1 := hrowLen.symm
      have hsum : slot.toNat + 2 ^ 32 * value rest =
          value slots + (left.toNat * value digits + 0) := hrowValue
      have hfitsRest :
          value rest + value lefts * value digits < (2 ^ 32) ^ rest.length := by
        rw [hslots] at hfits
        omega
      obtain ⟨out, hout, houtLen, houtValue⟩ := (ih rest (by omega) hfitsRest).out
      dsimp only
      rw [hout]
      refine ⟨slot :: out, rfl, ?_, ?_⟩
      · rw [List.length_cons, houtLen, hslots]
      · rw [value_cons]
        omega

/-! ## Leading zeros -/

theorem trim_le (digits : List Limb) (n : Nat) : trim digits n ≤ n := by
  induction n with
  | zero => exact Nat.le_refl 0
  | succ n ih =>
    cases n with
    | zero => exact Nat.le_refl 1
    | succ n =>
      rw [trim]
      split
      · exact Nat.le_succ_of_le ih
      · exact Nat.le_refl _

theorem value_take_trim (digits : List Limb) (n : Nat) (h : n ≤ digits.length) :
    value (digits.take (trim digits n)) = value (digits.take n) := by
  induction n with
  | zero => rfl
  | succ n ih =>
    cases n with
    | zero => rfl
    | succ n =>
      rw [trim]
      split
      · rename_i hzero
        have hget : digits[n + 1]? = some 0 := by
          rw [List.getElem?_eq_getElem h]
          rw [List.getD_eq_getElem?_getD, List.getElem?_eq_getElem h, Option.getD_some] at hzero
          rw [hzero]
        rw [ih (Nat.le_of_succ_le h), List.take_add_one (i := n + 1), hget, value_append]
        exact (Nat.add_zero _).symm
      · rfl

abbrev NormalLimbs (limbs : List Limb) : Prop :=
  Normal (limbs.map BitVec.toNat)

theorem normal_take_trim (digits : List Limb) (n : Nat) (hpos : 0 < n) (h : n ≤ digits.length) :
    NormalLimbs (digits.take (trim digits n)) := by
  induction n with
  | zero => exact absurd hpos (Nat.lt_irrefl 0)
  | succ n ih =>
    cases n with
    | zero =>
      have hlen : ((digits.take (trim digits 1)).map BitVec.toNat).length = 1 := by
        rw [List.length_map, List.length_take]
        exact Nat.min_eq_left h
      exact ⟨by rw [hlen]; exact Nat.one_pos, fun hlong => absurd hlong (by rw [hlen]; decide)⟩
    | succ n =>
      rw [trim]
      split
      · exact ih (Nat.succ_pos n) (Nat.le_of_succ_le h)
      · rename_i hnonzero
        rw [List.getD_eq_getElem?_getD, List.getElem?_eq_getElem h] at hnonzero
        have hlast : (digits.take (n + 2)).map BitVec.toNat =
            (digits.take (n + 1)).map BitVec.toNat ++ [digits[n + 1].toNat] := by
          rw [List.take_add_one (i := n + 1), List.getElem?_eq_getElem h, List.map_append]
          rfl
        rw [NormalLimbs, hlast]
        refine ⟨by simp, fun _ hne => ?_⟩
        rw [List.getLast_append_singleton]
        intro hzero
        exact hnonzero (BitVec.eq_of_toNat_eq hzero)

theorem value_take_of_lt (limbs : List Limb) (n : Nat) (hn : n ≤ limbs.length)
    (h : value limbs < (2 ^ 32) ^ n) : value (limbs.take n) = value limbs := by
  have hsplit := value_append (limbs.take n) (limbs.drop n)
  rw [List.take_append_drop, List.length_take, Nat.min_eq_left hn] at hsplit
  have hzero : value (limbs.drop n) = 0 := by
    by_contra hne
    have hle : (2 ^ 32) ^ n * 1 ≤ (2 ^ 32) ^ n * value (limbs.drop n) :=
      Nat.mul_le_mul_left _ (Nat.pos_of_ne_zero hne)
    omega
  rw [hsplit, hzero, Nat.mul_zero, Nat.add_zero]

/-! ## Products of all factors -/

def product (factors : List (BitVec 128)) : Nat :=
  (factors.map BitVec.toNat).prod

@[simp] theorem product_cons (factor : BitVec 128) (factors : List (BitVec 128)) :
    product (factor :: factors) = factor.toNat * product factors :=
  List.prod_cons

/-- The limbs of a number, without leading zeros. -/
structure Limbs (limbs : List Limb) (n : Nat) : Prop where
  normal : NormalLimbs limbs
  value_eq : value limbs = n

theorem limbs_one : Limbs [1] 1 :=
  ⟨⟨Nat.one_pos, fun h => absurd h (Nat.lt_irrefl 1)⟩, rfl⟩

variable {limbs : List Limb}

theorem Limbs.lt {n : Nat} (h : Limbs limbs n) :
    n < (2 ^ 32) ^ limbs.length := by
  rw [← h.value_eq]
  exact value_lt limbs

theorem Limbs.length_le {n k : Nat} (h : Limbs limbs n) (hk : 0 < k)
    (hn : n < (2 ^ 32) ^ k) : limbs.length ≤ k := by
  by_contra hlong
  have hmany : 1 < (limbs.map BitVec.toNat).length := by rw [List.length_map]; omega
  have hle : (2 ^ 32) ^ (limbs.length - 1) ≤ n := by
    rw [← h.value_eq, ← List.length_map (f := BitVec.toNat)]
    exact pow_le_ofDigits h.normal hmany
  have hpow : (2 ^ 32) ^ k ≤ (2 ^ 32) ^ (limbs.length - 1) :=
    Nat.pow_le_pow_right (by decide) (by omega)
  omega

theorem mul_factor_lt {n k : Nat} (factor : BitVec 128) (h : n < (2 ^ 32) ^ k) :
    n * factor.toNat < (2 ^ 32) ^ (k + 4) := by
  have hfactor : factor.toNat < (2 ^ 32) ^ 4 := factor.isLt
  rw [Nat.pow_add]
  exact Nat.mul_lt_mul'' h hfactor

theorem mulRows_zeros (hfinish : TakesCarry finish) {limbs : List Limb} {n size : Nat}
    (h : Limbs limbs n) (factor : BitVec 128) (hsize : limbs.length + 4 ≤ size) :
    ∃ out, mulRows finish (factorDigits factor) limbs (List.replicate size 0) = some out ∧
      out.length = size ∧ value out = n * factor.toNat := by
  have hlt : n * factor.toNat < (2 ^ 32) ^ size :=
    Nat.lt_of_lt_of_le (mul_factor_lt factor h.lt) (Nat.pow_le_pow_right (by decide) hsize)
  have hlen : limbs.length + (factorDigits factor).length ≤
      (List.replicate size (0 : Limb)).length := by
    rw [List.length_replicate]
    exact hsize
  have hfits : value (List.replicate size 0) + value limbs * value (factorDigits factor) <
      (2 ^ 32) ^ (List.replicate size (0 : Limb)).length := by
    rw [value_zeros, value_factorDigits, h.value_eq, Nat.zero_add, List.length_replicate]
    exact hlt
  obtain ⟨out, hout, houtLen, houtValue⟩ :=
    (takes_mulRows hfinish (factorDigits factor) limbs _ hlen hfits).out
  rw [List.length_replicate] at houtLen
  rw [value_zeros, value_factorDigits, h.value_eq, Nat.zero_add] at houtValue
  exact ⟨out, hout, houtLen, houtValue⟩

theorem limbs_trim {digits : List Limb} {n len : Nat} (hpos : 0 < len)
    (hlen : len ≤ digits.length) (hvalue : value digits = n) (hn : n < (2 ^ 32) ^ len) :
    Limbs (digits.take (trim digits len)) n := by
  refine ⟨normal_take_trim digits len hpos hlen, ?_⟩
  rw [value_take_trim digits len hlen, value_take_of_lt digits len hlen (by rw [hvalue]; exact hn),
    hvalue]

theorem heapStep_ok {n : Nat} (h : Limbs limbs n) (factor : BitVec 128) :
    ∃ out, heapStep limbs factor = some out ∧ Limbs out (n * factor.toNat) := by
  obtain ⟨out, hout, hlen, hvalue⟩ :=
    mulRows_zeros takesCarry_heap h factor (Nat.le_refl (limbs.length + 4))
  refine ⟨out.take (trim out out.length), ?_, ?_⟩
  · rw [heapStep, hout]
  · apply limbs_trim (by omega) (Nat.le_refl _) hvalue
    rw [hlen]
    exact mul_factor_lt factor h.lt

theorem heapFold_ok (factors : List (BitVec 128)) : ∀ {limbs : List Limb} {n : Nat},
    Limbs limbs n → ∃ out, factors.foldlM heapStep limbs = some out ∧
      Limbs out (n * product factors) := by
  induction factors with
  | nil =>
    intro limbs n h
    refine ⟨limbs, rfl, ?_⟩
    show Limbs limbs (n * 1)
    rw [Nat.mul_one]
    exact h
  | cons factor factors ih =>
    intro limbs n h
    obtain ⟨next, hstep, hnext⟩ := heapStep_ok h factor
    obtain ⟨out, hout, hlimbs⟩ := ih hnext
    refine ⟨out, ?_, ?_⟩
    · rw [List.foldlM_cons, hstep]
      exact hout
    · rw [product_cons, ← Nat.mul_assoc]
      exact hlimbs

theorem heapProductLimbs_ok (factors : List (BitVec 128)) :
    ∃ out, heapProductLimbs factors = some out.reverse ∧ Limbs out (product factors) := by
  obtain ⟨out, hout, hlimbs⟩ := heapFold_ok factors limbs_one
  rw [Nat.one_mul] at hlimbs
  exact ⟨out, by rw [heapProductLimbs, hout]; rfl, hlimbs⟩

/-- The number in the fixed buffer, after `count` factors. -/
structure FixedHolds (buffer : FixedProduct) (count n : Nat) : Prop where
  full : buffer.digits.length = 16
  len_le : buffer.len ≤ 16
  limbs : Limbs (buffer.digits.take buffer.len) n
  le : n ≤ (2 ^ 128 - 1) ^ count

theorem fixedStep_ok {buffer : FixedProduct} {count n : Nat} (h : FixedHolds buffer count n)
    (hcount : count < 4) (factor : BitVec 128) :
    ∃ next, fixedStep buffer factor = some next ∧
      FixedHolds next (count + 1) (n * factor.toNat) := by
  have hsmall : n < (2 ^ 32) ^ 12 := by
    have hpow : (2 ^ 128 - 1) ^ count ≤ (2 ^ 128 - 1) ^ 3 :=
      Nat.pow_le_pow_right (by decide) (by omega)
    exact Nat.lt_of_le_of_lt (Nat.le_trans h.le hpow) (by decide)
  have hlen : (buffer.digits.take buffer.len).length = buffer.len := by
    rw [List.length_take, h.full]
    exact Nat.min_eq_left h.len_le
  have hroom : buffer.len ≤ 12 := by
    rw [← hlen]
    exact h.limbs.length_le (by decide) hsmall
  obtain ⟨out, hout, houtLen, hvalue⟩ :=
    mulRows_zeros takesCarry_fixed h.limbs factor (by omega : _ ≤ 16)
  have hmin : min (buffer.len + 4) out.length = buffer.len + 4 := Nat.min_eq_left (by omega)
  have htrim := trim_le out (buffer.len + 4)
  refine ⟨{ digits := out, len := trim out (buffer.len + 4) }, ?_, houtLen, ?_, ?_, ?_⟩
  · rw [fixedStep, hout]
    dsimp only
    rw [hmin]
  · show trim out (buffer.len + 4) ≤ 16
    omega
  · apply limbs_trim (by omega) (by omega) hvalue
    rw [← hlen]
    exact mul_factor_lt factor h.limbs.lt
  · exact Nat.mul_le_mul h.le (by omega)

theorem fixedFold_ok (factors : List (BitVec 128)) : ∀ {buffer : FixedProduct} {count n : Nat},
    FixedHolds buffer count n → count + factors.length ≤ 4 →
    ∃ out, factors.foldlM fixedStep buffer = some out ∧
      Limbs (out.digits.take out.len) (n * product factors) ∧ out.len ≤ out.digits.length := by
  induction factors with
  | nil =>
    intro buffer count n h _
    refine ⟨buffer, rfl, ?_, ?_⟩
    · show Limbs _ (n * 1)
      rw [Nat.mul_one]
      exact h.limbs
    · rw [h.full]
      exact h.len_le
  | cons factor factors ih =>
    intro buffer count n h hcount
    rw [List.length_cons] at hcount
    obtain ⟨next, hstep, hnext⟩ := fixedStep_ok h (by omega) factor
    obtain ⟨out, hout, hlimbs, hlen⟩ := ih hnext (by omega)
    refine ⟨out, ?_, ?_, hlen⟩
    · rw [List.foldlM_cons, hstep]
      exact hout
    · rw [product_cons, ← Nat.mul_assoc]
      exact hlimbs

theorem fixedProductLimbs_ok {factors : List (BitVec 128)} (h : factors.length ≤ 4) :
    ∃ out, fixedProductLimbs factors = some out ∧
      Limbs (out.digits.take out.len) (product factors) ∧ out.len ≤ out.digits.length := by
  have hstart : FixedHolds { digits := 1 :: List.replicate 15 0, len := 1 } 0 1 :=
    ⟨rfl, by decide, limbs_one, Nat.le_refl 1⟩
  obtain ⟨out, hout, hlimbs, hlen⟩ := fixedFold_ok factors hstart (by omega)
  rw [Nat.one_mul] at hlimbs
  refine ⟨out, ?_, hlimbs, hlen⟩
  rw [fixedProductLimbs, if_neg (by omega)]
  exact hout

/-! ## The comparison -/

theorem compareLimbs_map (left right : List Limb) :
    compareLimbs left right =
      List.compareLex compare (left.map BitVec.toNat) (right.map BitVec.toNat) := by
  induction left generalizing right with
  | nil =>
    cases right with
    | nil => rfl
    | cons _ _ => rfl
  | cons a left ih =>
    cases right with
    | nil => rfl
    | cons b right =>
      rw [compareLimbs, List.compareLex_cons_cons, List.map_cons, List.map_cons,
        List.compareLex_cons_cons, ← ih right, compareLimbs]

variable {m n : Nat}

theorem compare_limbs {left right : List Limb} (hleft : Limbs left m)
    (hright : Limbs right n) :
    (compare left.length right.length).then (compareLimbs left.reverse right.reverse) =
      compare m n := by
  have hdigits : ∀ limbs : List Limb, ∀ x ∈ limbs.map BitVec.toNat, x < 2 ^ 32 := by
    intro limbs x hx
    obtain ⟨limb, -, rfl⟩ := List.mem_map.mp hx
    exact limb.isLt
  have horder := compare_digits (by decide : 1 < 2 ^ 32) (hdigits left) (hdigits right)
    hleft.normal hright.normal
  rw [compareLimbs_map, List.map_reverse, List.map_reverse, ← hleft.value_eq, ← hright.value_eq]
  rw [List.length_map, List.length_map] at horder
  exact horder

theorem compareHeap_eq {left right : List Limb} (hleft : Limbs left m)
    (hright : Limbs right n) : compareHeap left.reverse right.reverse = compare m n := by
  rw [compareHeap, List.length_reverse, List.length_reverse]
  exact compare_limbs hleft hright

theorem compareFixed_eq {left right : FixedProduct}
    (hleft : Limbs (left.digits.take left.len) m) (hleftLen : left.len ≤ left.digits.length)
    (hright : Limbs (right.digits.take right.len) n)
    (hrightLen : right.len ≤ right.digits.length) : compareFixed left right = compare m n := by
  have horder := compare_limbs hleft hright
  rw [List.length_take, List.length_take, Nat.min_eq_left hleftLen,
    Nat.min_eq_left hrightLen] at horder
  exact horder

theorem fixedProductLimbs_isSome (factors : List (BitVec 128)) :
    (fixedProductLimbs factors).isSome = decide (factors.length ≤ 4) := by
  by_cases hlen : factors.length ≤ 4
  · obtain ⟨out, hout, -⟩ := fixedProductLimbs_ok hlen
    rw [hout, decide_eq_true hlen]
    rfl
  · rw [fixedProductLimbs, if_pos (by omega), decide_eq_false hlen]
    rfl

theorem length_le_of_fixed {factors : List (BitVec 128)} {limbs : FixedProduct}
    (h : fixedProductLimbs factors = some limbs) : factors.length ≤ 4 := by
  have hsome := fixedProductLimbs_isSome factors
  rw [h] at hsome
  exact of_decide_eq_true hsome.symm

theorem compareFixed_of_some {left right : List (BitVec 128)} {l r : FixedProduct}
    (hl : fixedProductLimbs left = some l) (hr : fixedProductLimbs right = some r) :
    compareFixed l r = compare (product left) (product right) := by
  obtain ⟨l', hl', hlLimbs, hlLe⟩ := fixedProductLimbs_ok (length_le_of_fixed hl)
  obtain ⟨r', hr', hrLimbs, hrLe⟩ := fixedProductLimbs_ok (length_le_of_fixed hr)
  rw [hl] at hl'
  rw [hr] at hr'
  rw [Option.some.inj hl', Option.some.inj hr']
  exact compareFixed_eq hlLimbs hlLe hrLimbs hrLe

theorem compareHeap_of_some (left right : List (BitVec 128)) :
    ∃ l r, heapProductLimbs left = some l ∧ heapProductLimbs right = some r ∧
      compareHeap l r = compare (product left) (product right) := by
  obtain ⟨l, hl, hlLimbs⟩ := heapProductLimbs_ok left
  obtain ⟨r, hr, hrLimbs⟩ := heapProductLimbs_ok right
  exact ⟨l.reverse, r.reverse, hl, hr, compareHeap_eq hlLimbs hrLimbs⟩

theorem compareProducts_eq (left right : List (BitVec 128)) :
    compareProducts left right = some (compare (product left) (product right)) := by
  rw [compareProducts]
  split
  · next l r hl hr => rw [compareFixed_of_some hl hr]
  · obtain ⟨l, r, hl, hr, hheap⟩ := compareHeap_of_some left right
    rw [hl, hr]
    dsimp only
    rw [hheap]

/-- The heap path orders every two products, the fixed path every two of at most four
factors each, and neither leaves its buffer. -/
theorem compareProducts_exact (left right : List (BitVec 128)) :
    compareProducts left right = some (compare (product left) (product right)) ∧
      (∃ l r, heapProductLimbs left = some l ∧ heapProductLimbs right = some r ∧
        compareHeap l r = compare (product left) (product right)) ∧
      (∀ factors : List (BitVec 128),
        (fixedProductLimbs factors).isSome = decide (factors.length ≤ 4)) ∧
      ∀ l r, fixedProductLimbs left = some l → fixedProductLimbs right = some r →
        compareFixed l r = compare (product left) (product right) :=
  ⟨compareProducts_eq left right, compareHeap_of_some left right, fixedProductLimbs_isSome,
    fun _ _ => compareFixed_of_some⟩

end Kronika.Query
