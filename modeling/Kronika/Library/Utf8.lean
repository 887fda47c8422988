/-
Well-formed UTF-8 in a list of bytes.

Between two bytes a decoder owes continuation bytes, each of them in a range of its
own, and `run` follows what is owed.  Bytes are valid when nothing is owed at their
end.  Two ways to cut text are proved to give valid text: before the byte where
validation stops, and at a character boundary.
-/
import Mathlib.Data.Nat.Find

namespace Kronika.Utf8

/-- The ranges of the continuation bytes that are owed, the next one first. -/
abbrev Owed := List (UInt8 × UInt8)

def continuation : UInt8 × UInt8 := (0x80, 0xBF)

/-- What is owed after the first byte of a character. -/
def lead (byte : UInt8) : Option Owed :=
  if byte ≤ 0x7F then some []
  else if 0xC2 ≤ byte ∧ byte ≤ 0xDF then some [continuation]
  else if byte = 0xE0 then some [(0xA0, 0xBF), continuation]
  else if byte = 0xED then some [(0x80, 0x9F), continuation]
  else if 0xE1 ≤ byte ∧ byte ≤ 0xEF then some [continuation, continuation]
  else if byte = 0xF0 then some [(0x90, 0xBF), continuation, continuation]
  else if 0xF1 ≤ byte ∧ byte ≤ 0xF3 then some [continuation, continuation, continuation]
  else if byte = 0xF4 then some [(0x80, 0x8F), continuation, continuation]
  else none

def step : Owed → UInt8 → Option Owed
  | [], byte => lead byte
  | (low, high) :: owed, byte => if low ≤ byte ∧ byte ≤ high then some owed else none

def run : Owed → List UInt8 → Option Owed
  | owed, [] => some owed
  | owed, byte :: bytes =>
    match step owed byte with
    | some next => run next bytes
    | none => none

def Valid (bytes : List UInt8) : Prop := run [] bytes = some []

instance (bytes : List UInt8) : Decidable (Valid bytes) :=
  inferInstanceAs (Decidable (run [] bytes = some []))

theorem valid_nil : Valid [] := rfl

/-- The length of the longest valid text that the bytes begin with. -/
def validUpTo (bytes : List UInt8) : Nat :=
  Nat.findGreatest (fun length => Valid (bytes.take length)) bytes.length

/-- Whether a character begins at the offset, or the text ends there. -/
def isCharBoundary (bytes : List UInt8) (offset : Nat) : Bool :=
  offset == 0 ||
    match bytes[offset]? with
    | none => offset == bytes.length
    | some byte => byte < 0x80 || 0xC0 ≤ byte

def Owing (owed : Owed) : Prop := ∀ range ∈ owed, 0x80 ≤ range.1 ∧ range.2 ≤ 0xBF

variable {byte : UInt8}

theorem owing_lead {owed : Owed} (h : lead byte = some owed) : Owing owed := by
  unfold lead at h
  split_ifs at h <;> cases h <;> simp [Owing, continuation]

variable {owed next : Owed}

theorem owing_step (howing : Owing owed) (h : step owed byte = some next) : Owing next := by
  cases owed with
  | nil => exact owing_lead h
  | cons range rest =>
    simp only [step, Option.ite_none_right_eq_some] at h
    obtain ⟨-, hnext⟩ := h
    cases hnext
    intro other hother
    exact howing other (List.mem_cons_of_mem range hother)

theorem run_append (owed : Owed) (left right : List UInt8) :
    run owed (left ++ right) = (run owed left).bind fun next => run next right := by
  induction left generalizing owed with
  | nil => rfl
  | cons byte left ih =>
    simp only [List.cons_append, run]
    cases step owed byte with
    | none => rfl
    | some next => exact ih next

theorem valid_append {left right : List UInt8} (hleft : Valid left) (hright : Valid right) :
    Valid (left ++ right) := by
  show run [] (left ++ right) = some []
  have hrun : run [] left = some [] := hleft
  rw [run_append, hrun]
  exact hright

variable {bytes : List UInt8}

theorem owing_run (howing : Owing owed) (h : run owed bytes = some next) : Owing next := by
  induction bytes generalizing owed with
  | nil =>
    cases h
    exact howing
  | cons byte bytes ih =>
    simp only [run] at h
    cases hstep : step owed byte with
    | none =>
      rw [hstep] at h
      cases h
    | some after =>
      rw [hstep] at h
      exact ih (owing_step howing hstep) h

theorem owed_eq_nil (howing : Owing owed)
    (h : step owed byte = some next) (hbyte : byte < 0x80 ∨ 0xC0 ≤ byte) : owed = [] := by
  cases owed with
  | nil => rfl
  | cons range rest =>
    obtain ⟨hlow, hhigh⟩ := howing range List.mem_cons_self
    simp only [step, Option.ite_none_right_eq_some] at h
    exfalso
    simp only [UInt8.le_iff_toNat_le, UInt8.lt_iff_toNat_lt] at *
    have hBF : (0xBF : UInt8).toNat = 0xBF := rfl
    have hC0 : (0xC0 : UInt8).toNat = 0xC0 := rfl
    omega

theorem valid_cut {before after : List UInt8}
    (hvalid : Valid (before ++ byte :: after)) (hbyte : byte < 0x80)
    (hlead : lead byte = some []) : Valid before ∧ Valid after := by
  have hrun : run [] (before ++ byte :: after) = some [] := hvalid
  rw [run_append] at hrun
  obtain ⟨owed, hbefore, hafter⟩ := Option.bind_eq_some_iff.mp hrun
  have howing : Owing owed := owing_run (fun _ h => absurd h List.not_mem_nil) hbefore
  simp only [run] at hafter
  cases hstep : step owed byte with
  | none =>
    rw [hstep] at hafter
    cases hafter
  | some next =>
    have hnil := owed_eq_nil howing hstep (Or.inl hbyte)
    subst hnil
    rw [hstep] at hafter
    have hnext : next = [] := Option.some.inj (hstep.symm.trans hlead)
    subst hnext
    exact ⟨hbefore, hafter⟩

theorem valid_take (hvalid : Valid bytes) {offset : Nat}
    (hboundary : isCharBoundary bytes offset = true) : Valid (bytes.take offset) := by
  unfold isCharBoundary at hboundary
  rcases Nat.eq_zero_or_pos offset with rfl | hpos
  · exact valid_nil
  · rw [Bool.or_eq_true, beq_iff_eq] at hboundary
    have hboundary := hboundary.resolve_left (Nat.ne_of_gt hpos)
    cases hget : bytes[offset]? with
    | none =>
      rw [List.take_of_length_le (List.getElem?_eq_none_iff.mp hget)]
      exact hvalid
    | some byte =>
      rw [hget] at hboundary
      have hsplit : bytes = bytes.take offset ++ byte :: bytes.drop (offset + 1) := by
        obtain ⟨hlt, rfl⟩ := List.getElem?_eq_some_iff.mp hget
        rw [List.getElem_cons_drop, List.take_append_drop]
      have hrun : run [] (bytes.take offset ++ byte :: bytes.drop (offset + 1)) = some [] := by
        rw [← hsplit]
        exact hvalid
      rw [run_append] at hrun
      obtain ⟨owed, htake, hrest⟩ := Option.bind_eq_some_iff.mp hrun
      have howing : Owing owed := owing_run (fun _ h => absurd h List.not_mem_nil) htake
      simp only [run] at hrest
      cases hstep : step owed byte with
      | none =>
        rw [hstep] at hrest
        cases hrest
      | some next =>
        have hbyte : byte < 0x80 ∨ 0xC0 ≤ byte := by simpa using hboundary
        show run [] (bytes.take offset) = some []
        rw [htake, owed_eq_nil howing hstep hbyte]

theorem valid_append_iff {left right : List UInt8} (hleft : Valid left) :
    Valid (left ++ right) ↔ Valid right := by
  have hrun : run [] left = some [] := hleft
  show run [] (left ++ right) = some [] ↔ run [] right = some []
  rw [run_append, hrun, Option.bind_some]

theorem lead_eq_none (hlow : 0x80 ≤ byte) (hhigh : byte < 0xC0) : lead byte = none := by
  unfold lead
  split_ifs <;> grind

/-- Where valid text can be cut: only at a character boundary. -/
theorem isCharBoundary_of_valid_take (hvalid : Valid bytes) {offset : Nat}
    (hoffset : offset ≤ bytes.length) (htake : Valid (bytes.take offset)) :
    isCharBoundary bytes offset = true := by
  unfold isCharBoundary
  rw [Bool.or_eq_true]
  right
  cases hget : bytes[offset]? with
  | none =>
    have hlength : bytes.length ≤ offset := List.getElem?_eq_none_iff.mp hget
    exact beq_iff_eq.mpr (Nat.le_antisymm hoffset hlength)
  | some byte =>
    obtain ⟨hlt, rfl⟩ := List.getElem?_eq_some_iff.mp hget
    have hrest : Valid (bytes.drop offset) := by
      rw [← valid_append_iff htake, List.take_append_drop]
      exact hvalid
    rw [List.drop_eq_getElem_cons hlt] at hrest
    have hrun : run [] (bytes[offset] :: bytes.drop (offset + 1)) = some [] := hrest
    simp only [run, step] at hrun
    show (decide (bytes[offset] < 0x80) || decide (0xC0 ≤ bytes[offset])) = true
    by_contra hout
    rw [lead_eq_none (by grind) (by grind)] at hrun
    cases hrun

/-! ## The longest valid text that bytes begin with -/

def validPrefix (bytes : List UInt8) : List UInt8 := bytes.take (validUpTo bytes)

theorem validPrefix_isPrefix (bytes : List UInt8) : validPrefix bytes <+: bytes :=
  List.take_prefix _ _

theorem valid_validPrefix (bytes : List UInt8) : Valid (validPrefix bytes) :=
  Nat.findGreatest_spec (P := fun length => Valid (bytes.take length)) (Nat.zero_le _) valid_nil

theorem length_le_validPrefix {text bytes : List UInt8} (h : text <+: bytes)
    (hvalid : Valid text) : text.length ≤ (validPrefix bytes).length := by
  have hlength : text.length ≤ bytes.length := h.length_le
  have hupTo : text.length ≤ validUpTo bytes := by
    apply Nat.le_findGreatest hlength
    rw [← List.prefix_iff_eq_take.mp h]
    exact hvalid
  unfold validPrefix
  rw [List.length_take]
  omega

theorem eq_validPrefix {text bytes : List UInt8} (h : text <+: bytes) (hvalid : Valid text)
    (hlongest : ∀ other, other <+: bytes → Valid other → other.length ≤ text.length) :
    text = validPrefix bytes := by
  have hle := hlongest _ (validPrefix_isPrefix bytes) (valid_validPrefix bytes)
  have hge := length_le_validPrefix h hvalid
  have hbegins := List.prefix_of_prefix_length_le h (validPrefix_isPrefix bytes) hge
  exact hbegins.eq_of_length (Nat.le_antisymm hge hle)

theorem validPrefix_of_valid (h : Valid bytes) : validPrefix bytes = bytes := by
  symm
  apply eq_validPrefix (List.prefix_refl bytes) h
  intro other hother _
  exact hother.length_le

theorem validPrefix_append {left : List UInt8} (hleft : Valid left) (right : List UInt8) :
    validPrefix (left ++ right) = left ++ validPrefix right := by
  symm
  apply eq_validPrefix
  · exact List.prefix_append_right_inj left |>.mpr (validPrefix_isPrefix right)
  · exact valid_append hleft (valid_validPrefix right)
  · intro other hother hvalid
    rw [List.length_append]
    rcases Nat.le_total other.length left.length with hle | hle
    · omega
    · have hbegins := List.prefix_of_prefix_length_le (List.prefix_append left right) hother hle
      obtain ⟨rest, rfl⟩ := hbegins
      have hrest := length_le_validPrefix ((List.prefix_append_right_inj left).mp hother)
        ((valid_append_iff hleft).mp hvalid)
      rw [List.length_append]
      omega

/-- Cutting twice is cutting once, at the smaller bound. -/
theorem validPrefix_take_validPrefix (bytes : List UInt8) {small large : Nat} (h : small ≤ large) :
    validPrefix ((validPrefix (bytes.take large)).take small) = validPrefix (bytes.take small) := by
  symm
  have htake : bytes.take small <+: bytes.take large := List.take_prefix_take_left h
  have hsmall := validPrefix_isPrefix (bytes.take small)
  apply eq_validPrefix
  · have hlarge := List.prefix_of_prefix_length_le (hsmall.trans htake)
      (validPrefix_isPrefix (bytes.take large))
      (length_le_validPrefix (hsmall.trans htake) (valid_validPrefix _))
    rw [List.prefix_take_iff]
    exact ⟨hlarge, Nat.le_trans hsmall.length_le (List.length_take_le _ _)⟩
  · exact valid_validPrefix _
  · intro other hother hvalid
    apply length_le_validPrefix _ hvalid
    rw [List.prefix_take_iff] at hother ⊢
    refine ⟨?_, hother.2⟩
    exact (hother.1.trans (validPrefix_isPrefix _)).trans (List.take_prefix _ _)

end Kronika.Utf8
