/-
Words and lines of a text.

Words are what stands between characters of white space, and no word is empty.  Lines
end at a line feed, or at a carriage return in front of one.
-/
import Kronika.Library.Lines
import Mathlib.Data.List.DropRight
import Mathlib.Tactic.Common

namespace Kronika.Words

def isWhitespace (c : Char) : Bool :=
  (0x09 ≤ c.val && c.val ≤ 0x0D) || c.val == 0x20 || c.val == 0x85 || c.val == 0xA0 ||
    c.val == 0x1680 || (0x2000 ≤ c.val && c.val ≤ 0x200A) || c.val == 0x2028 ||
    c.val == 0x2029 || c.val == 0x202F || c.val == 0x205F || c.val == 0x3000

variable {c : Char}

theorem isWhitespace_digit (hlow : '0' ≤ c) (hhigh : c ≤ '9') :
    isWhitespace c = false := by
  have hlowVal : 48 ≤ c.toNat := hlow
  have hhighVal : c.toNat ≤ 57 := hhigh
  simp only [isWhitespace, Bool.or_eq_false_iff, beq_eq_false_iff_ne, UInt32.le_iff_toNat_le, ne_eq,
    ← UInt32.toNat_inj]
  simp
  omega

def words (text : List Char) : List (List Char) :=
  (text.splitOnP isWhitespace).filter (· ≠ [])

/-- At least one character, and no white space. -/
structure Word (text : List Char) : Prop where
  ne_nil : text ≠ []
  plain : ∀ c ∈ text, isWhitespace c = false

instance decidableWord (text : List Char) : Decidable (Word text) :=
  decidable_of_iff (text ≠ [] ∧ text.any isWhitespace = false)
    ⟨fun h => ⟨h.1, fun c hc => Bool.eq_false_iff.mpr (List.any_eq_false.mp h.2 c hc)⟩,
      fun h => ⟨h.ne_nil, List.any_eq_false.mpr fun c hc => Bool.eq_false_iff.mp (h.plain c hc)⟩⟩

theorem splitOnP_plain {α : Type*} {p : α → Bool} {text piece : List α}
    (h : piece ∈ text.splitOnP p) : ∀ c ∈ piece, p c = false := by
  induction text generalizing piece with
  | nil =>
    rw [List.splitOnP_nil, List.mem_singleton] at h
    rw [h]
    intro c hc
    cases hc
  | cons x text ih =>
    rw [List.splitOnP_cons_eq_if_modifyHead] at h
    by_cases hx : p x = true
    · rw [if_pos hx] at h
      rcases List.mem_cons.mp h with rfl | htail
      · intro c hc
        cases hc
      · exact ih htail
    · rw [if_neg hx] at h
      generalize hsplit : text.splitOnP p = pieces at h ih
      cases pieces with
      | nil => exact absurd hsplit (List.splitOnP_ne_nil p text)
      | cons first pieces =>
        rcases List.mem_cons.mp h with rfl | htail
        · intro c hc
          rcases List.mem_cons.mp hc with rfl | hfirst
          · exact Bool.eq_false_iff.mpr hx
          · exact ih List.mem_cons_self c hfirst
        · exact ih (List.mem_cons_of_mem _ htail)

theorem splitOnP_append_of_plain {α : Type*} {p : α → Bool} {front : List α}
    (h : ∀ x ∈ front, p x = false) (text : List α) :
    (front ++ text).splitOnP p = (text.splitOnP p).modifyHead (front ++ ·) := by
  induction front with
  | nil => exact (congrFun List.modifyHead_id _).symm
  | cons x front ih =>
    obtain ⟨hx, hfront⟩ := List.forall_mem_cons.mp h
    rw [List.cons_append, List.splitOnP_cons_eq_if_modifyHead, if_neg (by rw [hx]; decide),
      ih hfront, List.modifyHead_modifyHead]
    rfl

theorem word_of_mem {text word : List Char} (h : word ∈ words text) : Word word := by
  obtain ⟨hmem, hne⟩ := List.mem_filter.mp h
  exact ⟨of_decide_eq_true hne, splitOnP_plain hmem⟩

theorem words_word {word : List Char} (h : Word word) : words word = [word] := by
  rw [words, List.splitOnP_eq_singleton h.plain, List.filter_cons_of_pos]
  · rfl
  · exact decide_eq_true h.ne_nil

theorem words_append_cons (h : isWhitespace c = true) (left right : List Char) :
    words (left ++ c :: right) = words left ++ words right := by
  rw [words, List.splitOnP_append_cons left right h, List.filter_append]
  rfl

theorem words_append_space (left right : List Char) :
    words (left ++ ' ' :: right) = words left ++ words right :=
  words_append_cons rfl left right

theorem words_append {word : List Char} (h : Word word) (text : List Char) :
    words (word ++ ' ' :: text) = word :: words text := by
  rw [words_append_space, words_word h]
  rfl

theorem words_cons (h : isWhitespace c = false) (text : List Char) :
    ∃ word rest, words (c :: text) = (c :: word) :: rest := by
  rw [words, List.splitOnP_cons_eq_if_modifyHead, if_neg (by rw [h]; decide)]
  cases hsplit : text.splitOnP isWhitespace with
  | nil => exact absurd hsplit (List.splitOnP_ne_nil _ _)
  | cons piece pieces =>
    rw [List.modifyHead_cons, List.filter_cons_of_pos]
    · exact ⟨piece, _, rfl⟩
    · exact decide_eq_true (List.cons_ne_nil c piece)

theorem words_ne_nil {text : List Char} (hc : c ∈ text) (h : isWhitespace c = false) :
    words text ≠ [] := by
  induction text with
  | nil => exact absurd hc List.not_mem_nil
  | cons d text ih =>
    cases hd : isWhitespace d with
    | false =>
      obtain ⟨word, rest, hwords⟩ := words_cons hd text
      rw [hwords]
      exact List.cons_ne_nil _ _
    | true =>
      have hwords : words (d :: text) = words text := words_append_cons hd [] text
      rw [hwords]
      rcases List.mem_cons.mp hc with rfl | hmem
      · rw [h] at hd
        exact absurd hd (by decide)
      · exact ih hmem

/-! ## White space around a text -/

def trim (text : List Char) : List Char :=
  (text.dropWhile isWhitespace).rdropWhile isWhitespace

theorem words_dropWhile (text : List Char) : words (text.dropWhile isWhitespace) = words text := by
  induction text with
  | nil => rfl
  | cons c text ih =>
    rw [List.dropWhile_cons]
    cases hc : isWhitespace c with
    | false => rfl
    | true =>
      rw [if_pos rfl, ih]
      exact (words_append_cons hc [] text).symm

theorem words_rdropWhile (text : List Char) :
    words (text.rdropWhile isWhitespace) = words text := by
  induction text using List.reverseRecOn with
  | nil => rfl
  | append_singleton text c ih =>
    cases hc : isWhitespace c with
    | false => rw [List.rdropWhile_concat_neg _ _ _ (by rw [hc]; decide)]
    | true =>
      rw [List.rdropWhile_concat_pos _ _ _ hc, ih, words_append_cons hc text []]
      exact (List.append_nil _).symm

theorem words_trim (text : List Char) : words (trim text) = words text := by
  rw [trim, words_rdropWhile, words_dropWhile]

/-- A text without white space at its ends. -/
structure Trimmed (text : List Char) : Prop where
  head : ∀ c, text.head? = some c → isWhitespace c = false
  last : ∀ c, text.getLast? = some c → isWhitespace c = false

theorem trimmed_trim (text : List Char) : Trimmed (trim text) where
  head c hc := by
    obtain ⟨rest, hrest⟩ := List.rdropWhile_prefix isWhitespace (text.dropWhile isWhitespace)
    have hhead := List.head?_dropWhile_not isWhitespace text
    rw [← hrest, List.head?_append] at hhead
    rw [trim] at hc
    rw [hc] at hhead
    exact Bool.eq_false_iff.mpr (by simpa using hhead)
  last c hc := by
    have hne : trim text ≠ [] := fun hnil => by
      rw [hnil] at hc
      cases hc
    have hlast := List.rdropWhile_last_not isWhitespace (text.dropWhile isWhitespace) hne
    rw [List.getLast?_eq_some_getLast hne] at hc
    rw [← Option.some.inj hc]
    exact Bool.eq_false_iff.mpr hlast

theorem trim_of_trimmed {text : List Char} (h : Trimmed text) : trim text = text := by
  have hdrop : text.dropWhile isWhitespace = text := by
    cases text with
    | nil => rfl
    | cons c text =>
      rw [List.dropWhile_cons, h.head c rfl]
      rfl
  rw [trim, hdrop, List.rdropWhile_eq_self_iff]
  intro hne
  rw [h.last _ (List.getLast?_eq_some_getLast hne)]
  exact Bool.false_ne_true

theorem trim_trim (text : List Char) : trim (trim text) = trim text :=
  trim_of_trimmed (trimmed_trim text)

theorem words_eq_singleton {text word : List Char} (h : Trimmed text) :
    words text = [word] ↔ text = word ∧ Word text := by
  constructor
  · intro hwords
    have hword : Word text := by
      refine ⟨fun hnil => ?_, fun c hc => ?_⟩
      · rw [hnil] at hwords
        exact absurd hwords.symm (List.cons_ne_nil _ _)
      · by_contra hspace
        rw [Bool.not_eq_false] at hspace
        obtain ⟨left, right, hsplit⟩ := List.append_of_mem hc
        -- There is a word on each side, since the ends are no white space.
        have hleft : words left ≠ [] := by
          cases left with
          | nil =>
            have hhead := h.head c (by rw [hsplit]; rfl)
            rw [hspace] at hhead
            exact absurd hhead (by decide)
          | cons first left =>
            exact words_ne_nil List.mem_cons_self (h.head first (by rw [hsplit]; rfl))
        have hright : words right ≠ [] := by
          have hne : c :: right ≠ [] := List.cons_ne_nil _ _
          have hlast := h.last _ (by
            rw [hsplit, List.getLast?_append_of_ne_nil _ hne, List.getLast?_eq_some_getLast hne])
          cases right with
          | nil =>
            rw [List.getLast_singleton, hspace] at hlast
            exact absurd hlast (by decide)
          | cons next right =>
            exact words_ne_nil (List.getLast_mem _) hlast
        have hlength := congrArg List.length hwords
        rw [hsplit, words_append_cons hspace, List.length_append, List.length_singleton] at hlength
        have hleftLength := List.length_pos_iff.mpr hleft
        have hrightLength := List.length_pos_iff.mpr hright
        omega
    rw [words_word hword] at hwords
    exact ⟨(List.cons.inj hwords).1, hword⟩
  · intro hword
    rw [words_word hword.2, hword.1]

/-! ## Lines -/

/-- A line without the carriage return in front of its line feed. -/
def stripReturn (line : List Char) : List Char :=
  if line.getLast? = some '\r' then line.dropLast else line

def lines (text : List Char) : List (List Char) :=
  let (complete, rest) := Lines.split '\n' [] text
  complete.map stripReturn ++ if rest = [] then [] else [rest]

theorem lines_join_map {pieces : List (List Char)} (h : ∀ piece ∈ pieces, '\n' ∉ piece) :
    lines (Lines.join '\n' pieces) = pieces.map stripReturn := by
  have hsplit : Lines.split '\n' [] (Lines.join '\n' pieces) = (pieces, []) := by
    have hjoin : Lines.split '\n' [] (Lines.join '\n' pieces ++ []) = (pieces, []) :=
      Lines.split_join h List.not_mem_nil
    rw [List.append_nil] at hjoin
    exact hjoin
  rw [lines, hsplit]
  show pieces.map stripReturn ++ (if ([] : List Char) = [] then [] else [[]]) = _
  rw [if_pos rfl, List.append_nil]

theorem lines_join {pieces : List (List Char)} (h : ∀ piece ∈ pieces, '\n' ∉ piece ∧ '\r' ∉ piece) :
    lines (Lines.join '\n' pieces) = pieces := by
  have hstrip : pieces.map stripReturn = pieces := by
    have hsame : ∀ piece ∈ pieces, stripReturn piece = id piece := by
      intro piece hpiece
      rw [stripReturn, if_neg]
      · rfl
      · intro hlast
        exact (h piece hpiece).2 (List.mem_of_getLast? hlast)
    rw [List.map_congr_left hsame, List.map_id]
  rw [lines_join_map fun piece hpiece => (h piece hpiece).1, hstrip]

theorem stripReturn_append {back : List Char} (h : back ≠ []) (front : List Char) :
    stripReturn (front ++ back) = front ++ stripReturn back := by
  have hlast : (front ++ back).getLast? = back.getLast? := by
    rw [List.getLast?_append, List.getLast?_eq_some_getLast h, Option.some_or]
  rw [stripReturn, stripReturn, hlast, List.dropLast_append_of_ne_nil h]
  split_ifs
  · rfl
  · rfl

end Kronika.Words
