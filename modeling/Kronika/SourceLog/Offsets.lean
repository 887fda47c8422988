/-
The offsets a restart resumes from.

The file has a line `name dev inode offset` for each source, and a source is named by
the path of its log.
-/
import Kronika.Library.Integers
import Kronika.Library.TreeMap
import Kronika.Library.Words
import Kronika.SourceLog.Tail

namespace Kronika.SourceLog

open Library Words

abbrev Positions := Std.TreeMap String Position compare

/-- Each field is a `u64`. -/
structure Position.Valid (position : Position) : Prop where
  dev : position.dev < 2 ^ 64
  inode : position.inode < 2 ^ 64
  offset : position.offset < 2 ^ 64

def renderLine (name : String) (position : Position) : List Char :=
  name.toList ++ ' ' :: (Nat.toDigits 10 position.dev ++ ' ' :: (Nat.toDigits 10 position.inode ++
    ' ' :: Nat.toDigits 10 position.offset))

def render (positions : Positions) : List Char :=
  Lines.join '\n' (positions.toList.map fun entry => renderLine entry.1 entry.2)

def parseFields : List (List Char) → Option (String × Position)
  | name :: dev :: inode :: offset :: _ => do
    let dev ← parseUnsigned 64 (String.ofList dev)
    let inode ← parseUnsigned 64 (String.ofList inode)
    let offset ← parseUnsigned 64 (String.ofList offset)
    some (String.ofList name, { dev := dev, inode := inode, offset := offset })
  | _ => none

def insertLine (positions : Positions) (line : List Char) : Positions :=
  match parseFields (words line) with
  | some (name, position) => positions.insert name position
  | none => positions

def parse (text : List Char) : Positions :=
  (lines text).foldl insertLine ∅

/-! ## One line -/

theorem word_digits (n : Nat) : Word (Nat.toDigits 10 n) := by
  refine ⟨Nat.toDigits_ne_nil, ?_⟩
  intro c hc
  obtain ⟨hlow, hhigh⟩ := digit_of_mem_toDigits hc
  exact isWhitespace_digit hlow hhigh

variable {name : String}

theorem parseFields_renderLine {position : Position} (hname : Word name.toList)
    (h : position.Valid) :
    parseFields (words (renderLine name position)) = some (name, position) := by
  rw [renderLine, words_append hname, words_append (word_digits _), words_append (word_digits _),
    words_word (word_digits _), parseFields, parseUnsigned_toDigits h.dev,
    parseUnsigned_toDigits h.inode, parseUnsigned_toDigits h.offset, String.ofList_toList]
  rfl

theorem word_of_parseFields {line : List Char} {position : Position}
    (h : parseFields (words line) = some (name, position)) : Word name.toList := by
  generalize hwords : words line = fields at h
  rw [parseFields.eq_def] at h
  split at h
  · rename_i first _ _ _ _
    obtain ⟨_, -, h⟩ := Option.bind_eq_some_iff.mp h
    obtain ⟨_, -, h⟩ := Option.bind_eq_some_iff.mp h
    obtain ⟨_, -, h⟩ := Option.bind_eq_some_iff.mp h
    have hname : String.ofList first = name := congrArg Prod.fst (Option.some.inj h)
    rw [← hname, String.toList_ofList]
    have hmem : first ∈ words line := by
      rw [hwords]
      exact List.mem_cons_self
    exact word_of_mem hmem
  · cases h

theorem newline_not_mem_renderLine (hname : Word name.toList)
    (position : Position) : '\n' ∉ renderLine name position ∧ '\r' ∉ renderLine name position := by
  have hplain : ∀ c ∈ renderLine name position, c = ' ' ∨ isWhitespace c = false := by
    intro c hc
    have hdigits := fun n => (word_digits n).plain c
    simp only [renderLine, List.mem_append, List.mem_cons] at hc
    rcases hc with h | h | h | h | h | h | h
    · exact .inr (hname.plain c h)
    · exact .inl h
    · exact .inr (hdigits _ h)
    · exact .inl h
    · exact .inr (hdigits _ h)
    · exact .inl h
    · exact .inr (hdigits _ h)
  refine ⟨fun h => ?_, fun h => ?_⟩
  · exact absurd (hplain _ h) (by decide)
  · exact absurd (hplain _ h) (by decide)

/-! ## The whole file -/

theorem word_of_parse {text : List Char}
    (h : (parse text)[name]? ≠ none) : Word name.toList := by
  have hfold : ∀ (pieces : List (List Char)) (positions : Positions),
      (∀ known : String, positions[known]? ≠ none → Word known.toList) →
      ∀ known : String, (pieces.foldl insertLine positions)[known]? ≠ none → Word known.toList := by
    intro pieces
    induction pieces with
    | nil => exact fun positions hpositions => hpositions
    | cons line pieces ih =>
      intro positions hpositions
      apply ih
      intro known hknown
      rw [insertLine] at hknown
      split at hknown
      · rename_i name position hparse
        by_cases heq : known = name
        · rw [heq]
          exact word_of_parseFields hparse
        · rw [TreeMap.getElem?_insert_ne _ _ heq] at hknown
          exact hpositions known hknown
      · exact hpositions known hknown
  refine hfold (lines text) ∅ ?_ name h
  intro known hknown
  exact absurd Std.TreeMap.getElem?_emptyc hknown

theorem foldl_insertLine (entries : List (String × Position)) : ∀ positions : Positions,
    (∀ entry ∈ entries, Word entry.1.toList ∧ entry.2.Valid) →
    (entries.map fun entry => renderLine entry.1 entry.2).foldl insertLine positions =
      positions.insertMany entries := by
  induction entries with
  | nil =>
    intro positions _
    rfl
  | cons entry entries ih =>
    intro positions h
    obtain ⟨hname, hvalid⟩ := h entry List.mem_cons_self
    rw [List.map_cons, List.foldl_cons, insertLine, parseFields_renderLine hname hvalid,
      Std.TreeMap.insertMany_cons]
    exact ih _ fun later hlater => h later (List.mem_cons_of_mem _ hlater)

theorem parse_render {positions : Positions}
    (hnames : ∀ name : String, positions[name]? ≠ none → Word name.toList)
    (hvalid : ∀ (name : String) (position : Position), positions[name]? = some position →
      position.Valid) :
    ∀ name : String, (parse (render positions))[name]? = positions[name]? := by
  have hentries : ∀ entry ∈ positions.toList, Word entry.1.toList ∧ entry.2.Valid := by
    intro entry hentry
    have hget := Std.TreeMap.mem_toList_iff_getElem?_eq_some.mp hentry
    refine ⟨hnames _ ?_, hvalid _ _ hget⟩
    rw [hget]
    exact Option.some_ne_none _
  have hlines : lines (render positions) =
      positions.toList.map fun entry => renderLine entry.1 entry.2 := by
    apply lines_join
    intro piece hpiece
    obtain ⟨entry, hentry, rfl⟩ := List.mem_map.mp hpiece
    exact newline_not_mem_renderLine (hentries entry hentry).1 entry.2
  intro name
  rw [parse, hlines, foldl_insertLine positions.toList ∅ hentries]
  cases hget : positions[name]? with
  | none =>
    rw [Std.TreeMap.getElem?_insertMany_list_of_contains_eq_false]
    · exact Std.TreeMap.getElem?_emptyc
    · rw [Bool.eq_false_iff]
      intro hcontains
      obtain ⟨entry, hentry, rfl⟩ := List.mem_map.mp (List.contains_iff_mem.mp hcontains)
      rw [Std.TreeMap.mem_toList_iff_getElem?_eq_some.mp hentry] at hget
      cases hget
  | some position =>
    have hdistinct := positions.distinct_keys_toList
    exact Std.TreeMap.getElem?_insertMany_list_of_mem (k := name) Std.ReflCmp.compare_self
      hdistinct (Std.TreeMap.mem_toList_iff_getElem?_eq_some.mpr hget)

/-- A restart finds every source where it left off just when every name is a word. -/
theorem offsets_survive_iff (positions : Positions)
    (hvalid : ∀ (name : String) (position : Position), positions[name]? = some position →
      position.Valid) :
    (∀ name : String, (parse (render positions))[name]? = positions[name]?) ↔
      ∀ name : String, positions[name]? ≠ none → Word name.toList := by
  constructor
  · intro hsame name hname
    rw [← hsame name] at hname
    exact word_of_parse hname
  · intro hnames
    exact parse_render hnames hvalid

def onePosition (name : String) (position : Position) : Positions :=
  (∅ : Positions).insert name position

theorem onePosition_valid {name known : String} {position found : Position}
    (hvalid : position.Valid) (h : (onePosition name position)[known]? = some found) :
    found.Valid := by
  rw [onePosition] at h
  by_cases hname : known = name
  · rw [hname, TreeMap.getElem?_insert_self] at h
    rw [← Option.some.inj h]
    exact hvalid
  · rw [TreeMap.getElem?_insert_ne _ _ hname] at h
    cases h

theorem offsets_survive_iff_one :
    (∀ name : String,
        (parse (render (onePosition "/var/log/pg.log" ⟨1, 2, 2 ^ 64 - 1⟩)))[name]? =
          (onePosition "/var/log/pg.log" ⟨1, 2, 2 ^ 64 - 1⟩)[name]?) ↔
      ∀ name : String, (onePosition "/var/log/pg.log" ⟨1, 2, 2 ^ 64 - 1⟩)[name]? ≠ none →
        Word name.toList :=
  offsets_survive_iff _ fun _ _ => onePosition_valid ⟨by decide, by decide, by decide⟩

/-- The position of a log whose path has a space in it is lost. -/
theorem offsets_lost_space :
    (onePosition "/var/log/my pg.log" ⟨1, 2, 4096⟩)["/var/log/my pg.log"]? =
        some ⟨1, 2, 4096⟩ ∧
      (parse (render (onePosition "/var/log/my pg.log" ⟨1, 2, 4096⟩)))["/var/log/my pg.log"]? =
        none := by
  refine ⟨TreeMap.getElem?_insert_self _ _ _, ?_⟩
  by_contra hfound
  have hspace := (word_of_parse hfound).plain ' ' (by simp)
  exact absurd hspace (by decide)

end Kronika.SourceLog
