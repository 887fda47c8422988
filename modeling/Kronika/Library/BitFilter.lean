/-
A set of bits in an array of words, and the filter that keeps a few bits of each
of its members.

`insert` switches bits on and never off, so a filter that holds the bits of a
member goes on holding them.  `mayContain` says no only when a bit of the member
is off, which is impossible for a member that went in.
-/
import Mathlib.Data.List.Basic

namespace Kronika.Library

/-- The bits of `w` words, sixty-four to a word. -/
abbrev BitSet (w : Nat) := Vector UInt64 w

namespace BitSet

variable {w : Nat}

def mask (bit : Nat) : UInt64 := 1 <<< UInt64.ofNat (bit % 64)

theorem word_lt (bit : Fin (64 * w)) : bit.val / 64 < w := by
  omega

def word (bits : BitSet w) (bit : Fin (64 * w)) : UInt64 := bits.get ⟨bit.val / 64, word_lt bit⟩

def test (bits : BitSet w) (bit : Fin (64 * w)) : Bool := (word bits bit &&& mask bit.val) != 0

def insert (bits : BitSet w) (bit : Fin (64 * w)) : BitSet w :=
  bits.set (bit.val / 64) (word bits bit ||| mask bit.val) (word_lt bit)

theorem word_insert (bits : BitSet w) (bit other : Fin (64 * w)) :
    word (insert bits other) bit =
      if other.val / 64 = bit.val / 64 then word bits bit ||| mask other.val
      else word bits bit := by
  refine (Vector.getElem_set (word_lt other) (word_lt bit)).trans ?_
  by_cases h : other.val / 64 = bit.val / 64
  · rw [if_pos h, if_pos h, word, word]
    simp only [h]
  · rw [if_neg h, if_neg h]
    rfl

theorem mask_ne_zero (bit : Nat) : mask bit ≠ 0 := by
  have hall : ∀ k : Fin 64, (1 : UInt64) <<< UInt64.ofNat k.val ≠ 0 := by decide
  exact hall ⟨bit % 64, Nat.mod_lt _ (by decide)⟩

theorem or_and_eq_zero {x y m : UInt64} (h : (x ||| y) &&& m = 0) : x &&& m = 0 ∧ y &&& m = 0 := by
  rw [← UInt64.or_eq_zero_iff, ← h]
  apply UInt64.toBitVec_inj.mp
  simp only [UInt64.toBitVec_or, UInt64.toBitVec_and]
  ext i hi
  simp only [BitVec.getElem_or, BitVec.getElem_and, Bool.and_or_distrib_right]

theorem test_insert_self (bits : BitSet w) (bit : Fin (64 * w)) :
    test (insert bits bit) bit = true := by
  rw [test, word_insert, if_pos rfl, bne_iff_ne]
  intro h
  have hmask := (or_and_eq_zero h).2
  rw [UInt64.and_self] at hmask
  exact mask_ne_zero bit.val hmask

theorem test_insert {bits : BitSet w} {bit : Fin (64 * w)} (other : Fin (64 * w))
    (h : test bits bit = true) : test (insert bits other) bit = true := by
  rw [test, bne_iff_ne] at h ⊢
  intro hzero
  apply h
  by_cases heq : other.val / 64 = bit.val / 64
  · rw [word_insert, if_pos heq] at hzero
    exact (or_and_eq_zero hzero).1
  · rwa [word_insert, if_neg heq] at hzero

end BitSet

section Filter

variable {α : Type*} {w : Nat} (bitsOf : α → List (Fin (64 * w)))

def addMember (filter : BitSet w) (a : α) : BitSet w := (bitsOf a).foldl BitSet.insert filter

def mayContain (filter : BitSet w) (a : α) : Bool := (bitsOf a).all (filter.test ·)

variable {filter : BitSet w}

theorem test_foldl_insert {bits : List (Fin (64 * w))} {bit : Fin (64 * w)}
    (h : bit ∈ bits ∨ filter.test bit = true) :
    (bits.foldl BitSet.insert filter).test bit = true := by
  induction bits generalizing filter with
  | nil => exact h.resolve_left List.not_mem_nil
  | cons first bits ih =>
    apply ih
    rcases h with hmem | htest
    · rcases List.mem_cons.mp hmem with rfl | hmem
      · exact .inr (BitSet.test_insert_self _ _)
      · exact .inl hmem
    · exact .inr (BitSet.test_insert _ htest)

theorem mayContain_addMember_self (filter : BitSet w) (a : α) :
    mayContain bitsOf (addMember bitsOf filter a) a = true := by
  rw [mayContain, List.all_eq_true]
  intro bit hbit
  exact test_foldl_insert (.inl hbit)

theorem mayContain_addMember {a : α} (other : α)
    (h : mayContain bitsOf filter a = true) :
    mayContain bitsOf (addMember bitsOf filter other) a = true := by
  rw [mayContain, List.all_eq_true] at h ⊢
  intro bit hbit
  exact test_foldl_insert (.inr (h bit hbit))

theorem mayContain_foldl {members : List α} {a : α}
    (h : a ∈ members ∨ mayContain bitsOf filter a = true) :
    mayContain bitsOf (members.foldl (addMember bitsOf) filter) a = true := by
  induction members generalizing filter with
  | nil => exact h.resolve_left List.not_mem_nil
  | cons first members ih =>
    apply ih
    rcases h with hmem | hmay
    · rcases List.mem_cons.mp hmem with rfl | hmem
      · exact .inr (mayContain_addMember_self bitsOf _ _)
      · exact .inl hmem
    · exact .inr (mayContain_addMember bitsOf _ hmay)

end Filter

end Kronika.Library
