/-
Tagged parts, written behind their lengths.

A byte string behind its length ends where the length says, so a row of them is read back in
one way only.  A field that is written under a tag of its own is then found among the parts.
-/
import Kronika.Library.LittleEndian

namespace Kronika.Library
namespace Framing

/-! ## Frames -/

section Frames

variable {width : Nat} {xs ys rest rest' : List UInt8}

def frame (width : Nat) (xs : List UInt8) : List UInt8 :=
  leBytes width (min xs.length (256 ^ width - 1)) ++ xs

def Short (width : Nat) (xs : List UInt8) : Prop := xs.length < 256 ^ width

theorem frame_eq (h : Short width xs) : frame width xs = leBytes width xs.length ++ xs := by
  have hle : xs.length ≤ 256 ^ width - 1 := Nat.le_pred_of_lt h
  rw [frame, Nat.min_eq_left hle]

theorem frame_append_inj (hxs : Short width xs) (hys : Short width ys)
    (h : frame width xs ++ rest = frame width ys ++ rest') : xs = ys ∧ rest = rest' := by
  rw [frame_eq hxs, frame_eq hys, List.append_assoc, List.append_assoc] at h
  have hlengths : (leBytes width xs.length).length = (leBytes width ys.length).length := by
    rw [length_leBytes, length_leBytes]
  obtain ⟨hhead, htail⟩ := List.append_inj h hlengths
  have hlength : xs.length = ys.length := by
    rw [← leNat_leBytes_of_lt hxs, hhead, leNat_leBytes_of_lt hys]
  exact List.append_inj htail hlength

end Frames

/-! ## Parts -/

section Parts

variable {width : Nat} {τ : Type*} (text : τ → List UInt8)

/-- What a row of parts is written as: every tag and every value behind its length. -/
def written (width : Nat) (parts : List (τ × List UInt8)) : List UInt8 :=
  parts.flatMap fun part => frame width (text part.1) ++ frame width part.2

theorem written_cons (part : τ × List UInt8) (parts : List (τ × List UInt8)) :
    written text width (part :: parts) =
      frame width (text part.1) ++ (frame width part.2 ++ written text width parts) := by
  rw [written, List.flatMap_cons, List.append_assoc]
  rfl

theorem frame_ne_nil (hwidth : 0 < width) (xs rest : List UInt8) : frame width xs ++ rest ≠ [] := by
  intro h
  have hlength := congrArg List.length h
  rw [frame, List.length_append, List.length_append, length_leBytes, List.length_nil] at hlength
  omega

theorem written_injective (hwidth : 0 < width) (htext : Function.Injective text)
    {xs ys : List (τ × List UInt8)}
    (hxs : ∀ part ∈ xs, Short width (text part.1) ∧ Short width part.2)
    (hys : ∀ part ∈ ys, Short width (text part.1) ∧ Short width part.2)
    (h : written text width xs = written text width ys) : xs = ys := by
  induction xs generalizing ys with
  | nil =>
    cases ys with
    | nil => rfl
    | cons part ys =>
      rw [written_cons] at h
      exact absurd h.symm (frame_ne_nil hwidth _ _)
  | cons part xs ih =>
    cases ys with
    | nil =>
      rw [written_cons] at h
      exact absurd h (frame_ne_nil hwidth _ _)
    | cons other ys =>
      obtain ⟨hpart, hxs⟩ := List.forall_mem_cons.mp hxs
      obtain ⟨hother, hys⟩ := List.forall_mem_cons.mp hys
      rw [written_cons, written_cons] at h
      obtain ⟨htag, h⟩ := frame_append_inj hpart.1 hother.1 h
      obtain ⟨hvalue, h⟩ := frame_append_inj hpart.2 hother.2 h
      rw [ih hxs hys h, Prod.ext (htext htag) hvalue]

end Parts

/-! ## Rows of frames -/

section Rows

variable {width : Nat} {xs ys : List (List UInt8)}

def frames (width : Nat) (xs : List (List UInt8)) : List UInt8 := xs.flatMap (frame width)

theorem frames_injective (hwidth : 0 < width) (hxs : ∀ text ∈ xs, Short width text)
    (hys : ∀ text ∈ ys, Short width text) (h : frames width xs = frames width ys) : xs = ys := by
  induction xs generalizing ys with
  | nil =>
    cases ys with
    | nil => rfl
    | cons text ys =>
      exact absurd h.symm (frame_ne_nil hwidth _ _)
  | cons text xs ih =>
    cases ys with
    | nil =>
      exact absurd h (frame_ne_nil hwidth _ _)
    | cons other ys =>
      obtain ⟨htext, hxs⟩ := List.forall_mem_cons.mp hxs
      obtain ⟨hother, hys⟩ := List.forall_mem_cons.mp hys
      obtain ⟨hhead, htail⟩ := frame_append_inj htext hother h
      rw [hhead, ih hxs hys htail]

end Rows

/-! ## Fields -/

section Fields

variable {τ β : Type*} [DecidableEq τ] {tag other : τ} {parts : List (τ × β)}

def valuesOf (tag : τ) (parts : List (τ × β)) : List β :=
  parts.filterMap fun part => if part.1 = tag then some part.2 else none

def tagged (tag : τ) (values : List β) : List (τ × β) := values.map fun value => (tag, value)

theorem valuesOf_nil : valuesOf tag ([] : List (τ × β)) = [] := rfl

theorem valuesOf_append (xs ys : List (τ × β)) :
    valuesOf tag (xs ++ ys) = valuesOf tag xs ++ valuesOf tag ys := List.filterMap_append

theorem valuesOf_tagged (tag : τ) (values : List β) :
    valuesOf tag (tagged tag values) = values := by
  induction values with
  | nil => rfl
  | cons value values ih =>
    rw [tagged, List.map_cons, valuesOf, List.filterMap_cons, if_pos rfl]
    exact congrArg (value :: ·) ih

theorem valuesOf_other (h : ∀ part ∈ parts, part.1 ≠ tag) : valuesOf tag parts = [] := by
  rw [valuesOf, List.filterMap_eq_nil_iff]
  intro part hpart
  rw [if_neg (h part hpart)]

theorem valuesOf_tagged_other (h : other ≠ tag) (values : List β) :
    valuesOf tag (tagged other values) = [] := by
  apply valuesOf_other
  intro part hpart
  obtain ⟨value, _, rfl⟩ := List.mem_map.mp hpart
  exact h

end Fields

end Framing
end Kronika.Library
