/-
What a record retains of the lines it is made of.

The text of a record is its lines, each without the carriage return of its end, joined
by newlines.  While nothing but the end of that text has been cut, the record retains
the longest UTF-8 prefix of its first `maxLineBytes` bytes.  Once a cut leaves room for
a separator and another line follows, the lines after the gap are retained as well, and
the record holds bytes that its text does not begin with.
-/
import Kronika.SourceLog.Csvlog
import Mathlib.Data.List.Induction

namespace Kronika.SourceLog

open Format

/-- The line whose bytes were read in chunks, at its newline. -/
def scanLine (trackQuotes : Bool) (chunks : List Bytes) (endAt : Nat) : PhysicalLine :=
  (chunks.foldl (fun line chunk => line.push chunk trackQuotes) PartialLine.new).finish endAt

/-- The record that lines are pushed into, each given by its chunks and its end. -/
def OpenRecord.ofLines (trackQuotes : Bool) (lines : List (List Bytes × Nat)) : OpenRecord :=
  (lines.map fun line => scanLine trackQuotes line.1 line.2).foldl OpenRecord.push OpenRecord.new

/-- The text of a line: its bytes without the carriage return they may end with. -/
def lineText (line : Bytes) : Bytes :=
  if line.getLast? == some carriageReturn then line.dropLast else line

def fullText (lines : List Bytes) : Bytes := List.intercalate [newline] (lines.map lineText)

/-- What a record that was given these lines should hold of them. -/
structure Retained (trackQuotes : Bool) (lines : List Bytes) (record : OpenRecord) : Prop where
  bounded : (joinLines record.lines).length ≤ maxLineBytes
  isPrefix : joinLines record.lines <+: fullText lines
  onBoundary : Utf8.Valid (joinLines record.lines)
  flagged : record.truncated = true ↔ joinLines record.lines ≠ fullText lines
  parity : record.quotesOdd = (trackQuotes && quoteParity lines.flatten)

/-! ## Lines -/

/-- The longest UTF-8 prefix of the bytes there is room for. -/
def kept (room : Nat) (bytes : Bytes) : Bytes := Utf8.validPrefix (bytes.take room)

theorem kept_isPrefix (room : Nat) (bytes : Bytes) : kept room bytes <+: bytes :=
  (Utf8.validPrefix_isPrefix _).trans (List.take_prefix _ _)

theorem length_kept_le (room : Nat) (bytes : Bytes) : (kept room bytes).length ≤ room :=
  Nat.le_trans (Utf8.validPrefix_isPrefix _).length_le (List.length_take_le _ _)

theorem foldl_push_chunks (trackQuotes : Bool) (chunks : List Bytes) (line : PartialLine) :
    chunks.foldl (fun line chunk => line.push chunk trackQuotes) line =
      line.push chunks.flatten trackQuotes := by
  induction chunks generalizing line with
  | nil => exact (line.push_nil trackQuotes).symm
  | cons chunk chunks ih =>
    rw [List.foldl_cons, ih, PartialLine.push_push, List.flatten_cons]

theorem length_lineText_le (line : Bytes) :
    (lineText line).length ≤ line.length ∧ line.length ≤ (lineText line).length + 1 := by
  unfold lineText
  split_ifs with hreturn
  · rw [List.length_dropLast]
    omega
  · omega

variable {line : Bytes}

theorem take_lineText {room : Nat} (h : room < line.length) :
    (lineText line).take room = line.take room := by
  unfold lineText
  split_ifs with hreturn
  · rw [List.dropLast_eq_take, List.take_take]
    congr 1
    omega
  · rfl

theorem fromUtf8_validUpTo (bytes : Bytes) :
    Text.fromUtf8 (bytes.take (Utf8.validUpTo bytes)) =
      .ok ⟨Utf8.validPrefix bytes, Utf8.valid_validPrefix bytes⟩ :=
  dif_pos (Utf8.valid_validPrefix bytes)

/-- What `finish` reads of the raw bytes. -/
theorem scanLine_eq (trackQuotes : Bool) (chunks : List Bytes) (endAt : Nat) :
    scanLine trackQuotes chunks endAt =
      { endAt := endAt
        text := some ⟨kept maxLineBytes (lineText chunks.flatten), Utf8.valid_validPrefix _⟩
        truncated := decide (maxLineBytes < chunks.flatten.length ∨
          kept maxLineBytes (lineText chunks.flatten) ≠ lineText chunks.flatten)
        quotesOdd := trackQuotes && quoteParity chunks.flatten } := by
  have hroom : PartialLine.new.room = maxLineBytes := rfl
  unfold scanLine
  rw [foldl_push_chunks, PartialLine.push_eq, hroom]
  generalize chunks.flatten = line
  have hquotes : (if trackQuotes = true then PartialLine.new.quotesOdd ^^ quoteParity line
      else PartialLine.new.quotesOdd) = (trackQuotes && quoteParity line) := by
    cases trackQuotes with
    | false => rfl
    | true => exact Bool.false_xor _
  have hbytes : PartialLine.new.bytes = [] := rfl
  have htruncated : PartialLine.new.truncated = false := rfl
  rw [hquotes, hbytes, htruncated, List.nil_append, Bool.false_or]
  have hraw : (if !decide (maxLineBytes < line.length) &&
      (line.take maxLineBytes).getLast? == some carriageReturn then
        (line.take maxLineBytes).dropLast
      else line.take maxLineBytes) = (lineText line).take maxLineBytes := by
    by_cases hlong : maxLineBytes < line.length
    · rw [take_lineText hlong]
      simp [hlong]
    · have hshort : line.length ≤ maxLineBytes := Nat.le_of_not_lt hlong
      have htext : (lineText line).length ≤ maxLineBytes :=
        Nat.le_trans (length_lineText_le line).1 hshort
      rw [List.take_of_length_le hshort, List.take_of_length_le htext]
      simp [hlong, lineText]
  unfold PartialLine.finish
  dsimp only
  rw [hraw]
  by_cases hvalid : Utf8.Valid ((lineText line).take maxLineBytes)
  · have hkept : kept maxLineBytes (lineText line) = (lineText line).take maxLineBytes :=
      Utf8.validPrefix_of_valid hvalid
    have hcut : (lineText line).take maxLineBytes ≠ lineText line →
        maxLineBytes < line.length := by
      intro hne
      by_contra hshort
      apply hne
      apply List.take_of_length_le
      have := (length_lineText_le line).1
      omega
    unfold Text.fromUtf8
    rw [dif_pos hvalid]
    simp only [hkept]
    congr 1
    apply decide_eq_decide.mpr
    exact ⟨Or.inl, fun h => h.elim id hcut⟩
  · unfold Text.fromUtf8
    rw [dif_neg hvalid]
    dsimp only
    have hread := fromUtf8_validUpTo ((lineText line).take maxLineBytes)
    unfold Text.fromUtf8 at hread
    rw [hread]
    have hcut : maxLineBytes < line.length ∨
        kept maxLineBytes (lineText line) ≠ lineText line := by
      by_contra hnot
      rw [not_or, not_not] at hnot
      apply hvalid
      have hle := (length_lineText_le line).1
      rw [List.take_of_length_le (by omega), ← hnot.2]
      exact Utf8.valid_validPrefix _
    rw [decide_eq_true hcut]
    rfl

/-- Cutting text again, to a smaller room, keeps what one cut would have kept. -/
theorem truncate_kept {text : Text} {bytes : Bytes} {large room : Nat}
    (htext : text.bytes = kept large bytes) (hroom : room ≤ large) :
    (text.truncate room).bytes = kept room bytes := by
  have hcut : (text.truncate room).bytes = Utf8.validPrefix (text.bytes.take room) := by
    unfold Text.truncate
    split_ifs with hfits
    · rw [List.take_of_length_le hfits, Utf8.validPrefix_of_valid text.valid]
    · have hbelow : text.floorCharBoundary room ≤ room := Nat.findGreatest_le room
      apply Utf8.eq_validPrefix
      · exact List.take_prefix_take_left hbelow
      · exact (Text.mk (text.bytes.take (text.floorCharBoundary room)) _).valid
      · intro other hother hvalid
        rw [List.prefix_take_iff] at hother
        have hlength : other.length ≤ text.bytes.length := hother.1.length_le
        have hboundary : Utf8.isCharBoundary text.bytes other.length = true := by
          apply Utf8.isCharBoundary_of_valid_take text.valid hlength
          rw [← List.prefix_iff_eq_take.mp hother.1]
          exact hvalid
        have hfloor : other.length ≤ text.floorCharBoundary room :=
          Nat.le_findGreatest hother.2 hboundary
        rw [List.length_take]
        omega
  rw [hcut, htext]
  exact Utf8.validPrefix_take_validPrefix bytes hroom

/-! ## Records -/

/-- What stands before the next line of a text: the lines so far and a separator. -/
def before (lines : List Bytes) : Bytes :=
  if lines = [] then [] else List.intercalate [newline] lines ++ [newline]

theorem before_of_ne_nil {lines : List Bytes} (h : lines ≠ []) :
    before lines = List.intercalate [newline] lines ++ [newline] :=
  if_neg h

theorem intercalate_concat (lines : List Bytes) (line : Bytes) :
    List.intercalate [newline] (lines ++ [line]) = before lines ++ line := by
  induction lines with
  | nil => exact List.intercalate_singleton
  | cons first lines ih =>
    rw [before_of_ne_nil (List.cons_ne_nil first lines)]
    cases lines with
    | nil => simp [List.intercalate_cons_cons]
    | cons second lines =>
      rw [before_of_ne_nil (List.cons_ne_nil second lines), List.cons_append] at ih
      rw [List.cons_append, List.cons_append, List.intercalate_cons_cons, ih,
        List.intercalate_cons_cons]
      simp only [List.append_assoc]

theorem fullText_concat (lines : List Bytes) (line : Bytes) :
    fullText (lines ++ [line]) = before (lines.map lineText) ++ lineText line := by
  unfold fullText
  rw [List.map_append]
  exact intercalate_concat _ _

namespace OpenRecord

/-- What stands before the next line that a record retains. -/
def written (record : OpenRecord) : Bytes := before (record.lines.map Text.bytes)

theorem joinLines_append_eq (record : OpenRecord) (text : Text) :
    joinLines (record.lines ++ [text]) = record.written ++ text.bytes := by
  unfold joinLines
  rw [List.map_append]
  exact intercalate_concat _ _

theorem written_of_ne_nil {record : OpenRecord} (h : record.lines ≠ []) :
    record.written = joinLines record.lines ++ [newline] :=
  before_of_ne_nil (by simpa using h)

end OpenRecord

theorem isPrefix_before (lines : List Bytes) :
    List.intercalate [newline] lines <+: before lines := by
  by_cases h : lines = []
  · rw [h]
    exact List.prefix_refl _
  · rw [before_of_ne_nil h]
    exact List.prefix_append _ _

theorem fullText_isPrefix (lines : List Bytes) (line : Bytes) :
    fullText lines <+: fullText (lines ++ [line]) := by
  rw [fullText_concat]
  exact (isPrefix_before _).trans (List.prefix_append _ _)

theorem kept_of_valid {room : Nat} {bytes : Bytes} (h : Utf8.Valid (bytes.take room)) :
    kept room bytes = bytes.take room :=
  Utf8.validPrefix_of_valid h

/-- A smaller room keeps as much of what a larger one keeps. -/
theorem kept_isPrefix_kept {small large : Nat} (h : small ≤ large) (bytes : Bytes) :
    kept small bytes <+: kept large bytes := by
  have hsmall : kept small bytes <+: bytes.take large :=
    (Utf8.validPrefix_isPrefix _).trans (List.take_prefix_take_left h)
  exact List.prefix_of_prefix_length_le hsmall (Utf8.validPrefix_isPrefix _)
    (Utf8.length_le_validPrefix hsmall (Utf8.valid_validPrefix _))

/-- What is cut of a text is cut at the larger room or then at the smaller one. -/
theorem cut_iff {small large : Nat} (h : small ≤ large) (bytes : Bytes) :
    (kept large bytes ≠ bytes ∨ (kept small bytes).length < (kept large bytes).length) ↔
      kept small bytes ≠ bytes := by
  have hsmall := kept_isPrefix_kept h bytes
  have hlarge := kept_isPrefix large bytes
  constructor
  · rintro hcut hwhole
    rw [hwhole] at hsmall hcut
    exact hcut.elim (fun hcut => hcut (hlarge.eq_of_length_le hsmall.length_le))
      fun hshorter => Nat.not_le_of_lt hshorter hlarge.length_le
  · intro hcut
    by_cases hwhole : kept large bytes = bytes
    · right
      rw [hwhole] at hsmall ⊢
      exact Nat.lt_of_le_of_ne hsmall.length_le fun heq => hcut (hsmall.eq_of_length heq)
    · exact Or.inl hwhole

theorem kept_append {left : Bytes} (hleft : Utf8.Valid left) (room : Nat) (right : Bytes) :
    kept (left.length + room) (left ++ right) = left ++ kept room right := by
  unfold kept
  rw [List.take_length_add_append, Utf8.validPrefix_append hleft]

/-- What holds of a record whatever was cut. -/
structure Counted (trackQuotes : Bool) (lines : List Bytes) (record : OpenRecord) : Prop where
  bytes_eq : record.bytes = (joinLines record.lines).length
  bounded : record.bytes ≤ maxLineBytes
  lines_eq_nil : record.lines = [] ↔ lines = []
  quotesOdd_eq : record.quotesOdd = (trackQuotes && quoteParity lines.flatten)

section

variable {trackQuotes : Bool} {lines : List Bytes} {record : OpenRecord}

namespace Counted

theorem length_written (h : Counted trackQuotes lines record) :
    record.written.length = record.bytes + if record.lines.isEmpty then 0 else 1 := by
  rw [h.bytes_eq]
  by_cases hnil : record.lines = []
  · simp [OpenRecord.written, before, hnil, joinLines]
  · rw [OpenRecord.written_of_ne_nil hnil]
    simp [hnil]

end Counted

namespace OpenRecord

theorem quotesOdd_push (record : OpenRecord) (line : PhysicalLine) :
    (record.push line).quotesOdd = (record.quotesOdd ^^ line.quotesOdd) := by
  unfold push
  cases line.text with
  | none => rfl
  | some text =>
    dsimp only
    split_ifs <;> rfl

/-- What a line adds to a record.  Without room for the separator nothing is retained of
it; otherwise its text is cut to the room that is left. -/
theorem push_cases (h : Counted trackQuotes lines record) (chunks : List Bytes) (endAt : Nat) :
    (maxLineBytes < record.written.length ∧
      (record.push (scanLine trackQuotes chunks endAt)).lines = record.lines ∧
      (record.push (scanLine trackQuotes chunks endAt)).bytes = record.bytes ∧
      (record.push (scanLine trackQuotes chunks endAt)).truncated = true) ∨
    ∃ (room : Nat) (text : Text), record.written.length + room = maxLineBytes ∧
      text.bytes = kept room (lineText chunks.flatten) ∧
      (record.push (scanLine trackQuotes chunks endAt)).lines = record.lines ++ [text] ∧
      (record.push (scanLine trackQuotes chunks endAt)).bytes =
        record.written.length + text.bytes.length ∧
      ((record.push (scanLine trackQuotes chunks endAt)).truncated = true ↔
        record.truncated = true ∨ maxLineBytes < chunks.flatten.length ∨
          text.bytes ≠ lineText chunks.flatten) := by
  rw [scanLine_eq, h.length_written]
  unfold push
  dsimp only
  generalize (if record.lines.isEmpty then 0 else 1) = separator
  generalize chunks.flatten = line
  by_cases hfull : maxLineBytes < record.bytes + separator
  · rw [if_pos hfull]
    exact Or.inl ⟨hfull, rfl, rfl, rfl⟩
  · rw [if_neg hfull]
    have hle : maxLineBytes - record.bytes - separator ≤ maxLineBytes := by omega
    have hcut : (Text.truncate ⟨kept maxLineBytes (lineText line), Utf8.valid_validPrefix _⟩
        (maxLineBytes - record.bytes - separator)).bytes =
          kept (maxLineBytes - record.bytes - separator) (lineText line) :=
      truncate_kept rfl hle
    refine Or.inr ⟨_, _, by omega, hcut, rfl, rfl, ?_⟩
    simp only [Bool.or_eq_true, decide_eq_true_iff, hcut, or_assoc, cut_iff hle]

end OpenRecord

theorem Counted.push (h : Counted trackQuotes lines record) (chunks : List Bytes) (endAt : Nat) :
    Counted trackQuotes (lines ++ [chunks.flatten])
      (record.push (scanLine trackQuotes chunks endAt)) := by
  have hquotes : (record.push (scanLine trackQuotes chunks endAt)).quotesOdd =
      (trackQuotes && quoteParity (lines ++ [chunks.flatten]).flatten) := by
    rw [OpenRecord.quotesOdd_push, scanLine_eq, h.quotesOdd_eq, List.flatten_append,
      List.flatten_singleton, quoteParity_append]
    cases trackQuotes <;> rfl
  rcases OpenRecord.push_cases h chunks endAt with
    ⟨hfull, hlines, hbytes, -⟩ | ⟨room, text, hroom, htext, hlines, hbytes, -⟩
  · have hnil : record.lines ≠ [] := by
      intro hnil
      have hwritten := h.length_written
      have hbounded := h.bounded
      rw [hnil, List.isEmpty_nil, if_pos rfl] at hwritten
      omega
    refine ⟨?_, ?_, by simpa [hlines] using hnil, hquotes⟩
    · rw [hbytes, hlines, h.bytes_eq]
    · rw [hbytes]
      exact h.bounded
  · refine ⟨?_, ?_, by simp [hlines], hquotes⟩
    · rw [hbytes, hlines, OpenRecord.joinLines_append_eq, List.length_append]
    · have := length_kept_le room (lineText chunks.flatten)
      rw [hbytes, htext]
      omega

/-- The one case in which the flag is set although the text is retained whole: a line
that fills the room, before a carriage return. -/
def FillsBeforeReturn (lines : List Bytes) : Prop :=
  ∃ text : Bytes, lines = [text ++ [carriageReturn]] ∧ text.length = maxLineBytes ∧
    Utf8.Valid text

/-- The record of which only the end has been cut. -/
structure Prefixed (lines : List Bytes) (record : OpenRecord) : Prop where
  joined_eq : joinLines record.lines = kept maxLineBytes (fullText lines)
  flagged : record.truncated = true ↔
    joinLines record.lines ≠ fullText lines ∨ FillsBeforeReturn lines

/-- The record that went on after a gap. -/
def Broken (lines : List Bytes) (record : OpenRecord) : Prop :=
  ¬ joinLines record.lines <+: fullText lines ∧ ¬ fullText lines <+: joinLines record.lines

/-- Texts of which neither begins the other stay apart as they grow. -/
theorem apart_of_isPrefix {joined full joined' full' : Bytes} (hjoined : joined <+: joined')
    (hfull : full <+: full') (h : ¬ joined <+: full ∧ ¬ full <+: joined) :
    ¬ joined' <+: full' ∧ ¬ full' <+: joined' := by
  constructor
  · intro hgrown
    have hcompare := List.prefix_or_prefix_of_prefix (hjoined.trans hgrown) hfull
    exact hcompare.elim h.1 h.2
  · intro hgrown
    have hcompare := List.prefix_or_prefix_of_prefix hjoined (hfull.trans hgrown)
    exact hcompare.elim h.1 h.2

/-- A record that went on after a gap has it for good. -/
theorem Broken.push (h : Broken lines record) (hcounted : Counted trackQuotes lines record)
    (chunks : List Bytes) (endAt : Nat) :
    Broken (lines ++ [chunks.flatten]) (record.push (scanLine trackQuotes chunks endAt)) := by
  refine apart_of_isPrefix ?_ (fullText_isPrefix lines chunks.flatten) h
  rcases OpenRecord.push_cases hcounted chunks endAt with
    ⟨-, hlines, -, -⟩ | ⟨room, text, -, -, hlines, -, -⟩
  · exact hlines ▸ List.prefix_refl _
  · rw [hlines, OpenRecord.joinLines_append_eq]
    exact (isPrefix_before _).trans (List.prefix_append _ _)

/-- A line after a cut that leaves room for the separator is retained beyond a gap. -/
theorem Prefixed.push_broken (h : Prefixed lines record)
    (hcounted : Counted trackQuotes lines record)
    (hcut : ¬ Utf8.Valid ((fullText lines).take maxLineBytes)) (chunks : List Bytes) (endAt : Nat) :
    Broken (lines ++ [chunks.flatten]) (record.push (scanLine trackQuotes chunks endAt)) := by
  have hlines : lines ≠ [] := by
    intro hnil
    rw [hnil] at hcut
    exact hcut Utf8.valid_nil
  have hnil : record.lines ≠ [] := fun hnil => hlines (hcounted.lines_eq_nil.mp hnil)
  -- the cut leaves the retained text short of the room and of the full text
  have hshort : (joinLines record.lines).length < ((fullText lines).take maxLineBytes).length := by
    have hbegins := Utf8.validPrefix_isPrefix ((fullText lines).take maxLineBytes)
    rw [h.joined_eq]
    refine Nat.lt_of_le_of_ne hbegins.length_le fun heq => hcut ?_
    rw [← hbegins.eq_of_length heq]
    exact Utf8.valid_validPrefix _
  have hwritten := OpenRecord.written_of_ne_nil hnil
  have hgap : ¬ record.written <+: fullText lines := by
    intro hbegins
    have hlength : record.written.length = (joinLines record.lines).length + 1 := by
      rw [hwritten, List.length_append, List.length_singleton]
    have htake : record.written <+: (fullText lines).take maxLineBytes := by
      rw [List.prefix_take_iff]
      refine ⟨hbegins, ?_⟩
      rw [List.length_take] at hshort
      omega
    have hvalid : Utf8.Valid record.written := by
      rw [hwritten, h.joined_eq]
      exact Utf8.valid_append (Utf8.valid_validPrefix _) (by decide)
    have hlongest := Utf8.length_le_validPrefix htake hvalid
    have hkept : (joinLines record.lines).length =
        (Utf8.validPrefix ((fullText lines).take maxLineBytes)).length := by
      rw [h.joined_eq]
      rfl
    omega
  refine @apart_of_isPrefix record.written _ _ _ ?_ (fullText_isPrefix lines chunks.flatten)
    ⟨hgap, ?_⟩
  · rcases OpenRecord.push_cases hcounted chunks endAt with
      ⟨hfull, -⟩ | ⟨room, text, -, -, hpushed, -, -⟩
    · rw [hwritten, List.length_append, List.length_singleton] at hfull
      rw [List.length_take] at hshort
      omega
    · rw [hpushed, OpenRecord.joinLines_append_eq]
      exact List.prefix_append _ _
  · intro hbegins
    have hle : record.written.length ≤ (fullText lines).length := by
      rw [List.length_take] at hshort
      rw [hwritten, List.length_append, List.length_singleton]
      omega
    apply hgap
    exact hbegins.eq_of_length_le hle ▸ List.prefix_refl _

theorem lineText_concat_return (text : Bytes) : lineText (text ++ [carriageReturn]) = text := by
  simp [lineText]

theorem eq_concat_return (h : (lineText line).length < line.length) :
    line = lineText line ++ [carriageReturn] := by
  unfold lineText at h ⊢
  split_ifs at h ⊢ with hreturn
  · rw [beq_iff_eq] at hreturn
    exact (List.dropLast_append_getLast? _ hreturn).symm
  · exact absurd h (Nat.lt_irrefl _)

theorem FillsBeforeReturn.spec (h : FillsBeforeReturn lines) :
    (fullText lines).length = maxLineBytes ∧ Utf8.Valid (fullText lines) := by
  obtain ⟨text, hline, hlength, hvalid⟩ := h
  have hfull : fullText lines = text := by
    rw [hline]
    show List.intercalate [newline] [lineText (text ++ [carriageReturn])] = text
    rw [lineText_concat_return, List.intercalate_singleton]
  rw [hfull]
  exact ⟨hlength, hvalid⟩

namespace Prefixed

/-- While there is room for the separator, all of the text so far is retained. -/
theorem written_eq (h : Prefixed lines record) (hcounted : Counted trackQuotes lines record)
    (hcut : Utf8.Valid ((fullText lines).take maxLineBytes))
    (hroom : record.written.length ≤ maxLineBytes) :
    record.written = before (lines.map lineText) ∧ record.truncated = false := by
  have hfalse : joinLines record.lines = fullText lines →
      (fullText lines).length < maxLineBytes → record.truncated = false := by
    intro hwhole hshort
    rw [Bool.eq_false_iff]
    intro htruncated
    rcases h.flagged.mp htruncated with hne | hfills
    · exact hne hwhole
    · exact absurd hfills.spec.1 (Nat.ne_of_lt hshort)
  by_cases hnil : record.lines = []
  · have hlines := hcounted.lines_eq_nil.mp hnil
    rw [hlines, hnil] at hfalse
    refine ⟨?_, hfalse rfl (by decide)⟩
    rw [OpenRecord.written, hnil, hlines]
    rfl
  · have hlines : lines ≠ [] := fun hlines => hnil (hcounted.lines_eq_nil.mpr hlines)
    have hwritten := OpenRecord.written_of_ne_nil hnil
    have hjoined : joinLines record.lines = (fullText lines).take maxLineBytes :=
      h.joined_eq.trans (kept_of_valid hcut)
    have hlength : (joinLines record.lines).length + 1 ≤ maxLineBytes := by
      rw [hwritten, List.length_append] at hroom
      exact hroom
    have hshort : (fullText lines).length < maxLineBytes := by
      rw [hjoined, List.length_take] at hlength
      omega
    rw [List.take_of_length_le (Nat.le_of_lt hshort)] at hjoined
    refine ⟨?_, hfalse hjoined hshort⟩
    rw [hwritten, hjoined, before_of_ne_nil (by simpa using hlines)]
    rfl

theorem push (h : Prefixed lines record) (hcounted : Counted trackQuotes lines record)
    (hcut : Utf8.Valid ((fullText lines).take maxLineBytes)) (chunks : List Bytes) (endAt : Nat) :
    Prefixed (lines ++ [chunks.flatten])
      (record.push (scanLine trackQuotes chunks endAt)) := by
  rcases OpenRecord.push_cases hcounted chunks endAt with
    ⟨hfull, hpushed, -, htruncated⟩ | ⟨room, text, hroom, htext, hpushed, -, htruncated⟩
  · -- the room was filled before this line
    have hjoined : joinLines record.lines = (fullText lines).take maxLineBytes :=
      h.joined_eq.trans (kept_of_valid hcut)
    have hlength : maxLineBytes ≤ (joinLines record.lines).length := by
      rw [hcounted.length_written, hcounted.bytes_eq] at hfull
      split_ifs at hfull <;> omega
    have hlong : maxLineBytes ≤ (fullText lines).length := by
      rw [hjoined, List.length_take] at hlength
      omega
    have hlines : lines ≠ [] := by
      intro hlines
      rw [hlines] at hlong
      exact absurd hlong (by decide)
    obtain ⟨rest, hrest⟩ := fullText_isPrefix lines chunks.flatten
    have htake : (fullText (lines ++ [chunks.flatten])).take maxLineBytes =
        (fullText lines).take maxLineBytes := by
      rw [← hrest, List.take_append_of_le_length hlong]
    refine ⟨?_, ?_⟩
    · rw [hpushed, hjoined, ← htake]
      exact (kept_of_valid (by rw [htake]; exact hcut)).symm
    · refine iff_of_true htruncated (Or.inl ?_)
      intro hwhole
      have hlonger : maxLineBytes < (fullText (lines ++ [chunks.flatten])).length := by
        rw [fullText_concat, before_of_ne_nil (by simpa using hlines), List.length_append,
          List.length_append, List.length_singleton]
        have : (fullText lines).length =
          (List.intercalate [newline] (lines.map lineText)).length := rfl
        omega
      have hbounded := hcounted.bounded
      rw [hpushed] at hwhole
      rw [hcounted.bytes_eq, hwhole] at hbounded
      omega
  · obtain ⟨hwritten, hfalse⟩ := h.written_eq hcounted hcut (by omega)
    have hvalid : Utf8.Valid record.written := by
      by_cases hnil : record.lines = []
      · rw [OpenRecord.written, hnil]
        exact Utf8.valid_nil
      · rw [OpenRecord.written_of_ne_nil hnil, h.joined_eq]
        exact Utf8.valid_append (Utf8.valid_validPrefix _) (by decide)
    have hnext : fullText (lines ++ [chunks.flatten]) =
        record.written ++ lineText chunks.flatten := by
      rw [fullText_concat, hwritten]
    refine ⟨?_, ?_⟩
    · rw [hpushed, OpenRecord.joinLines_append_eq, hnext, ← hroom, kept_append hvalid, htext]
    · have hsame : record.written ++ text.bytes ≠ record.written ++ lineText chunks.flatten ↔
          text.bytes ≠ lineText chunks.flatten := not_congr (List.append_right_inj _)
      rw [htruncated, hfalse, hpushed, OpenRecord.joinLines_append_eq, hnext, hsame]
      have hbound := length_kept_le room (lineText chunks.flatten)
      constructor
      · rintro (hfalse | hlong | hcut)
        · cases hfalse
        · by_cases hwhole : text.bytes = lineText chunks.flatten
          · -- the line fills the room alone, and its carriage return is what was dropped
            have hreturn := (length_lineText_le chunks.flatten).2
            rw [← htext, hwhole] at hbound
            have hempty : record.written = [] := List.length_eq_zero_iff.mp (by omega)
            have hlines : lines = [] := by
              by_contra hlines
              rw [hwritten, before_of_ne_nil (by simpa using hlines)] at hempty
              exact absurd hempty (List.append_ne_nil_of_right_ne_nil _ (List.cons_ne_nil _ _))
            refine Or.inr ⟨text.bytes, ?_, by rw [hwhole]; omega, text.valid⟩
            rw [hlines, hwhole]
            exact congrArg (fun line => [line]) (eq_concat_return (by omega))
          · exact Or.inl hwhole
        · exact Or.inl hcut
      · rintro (hcut | ⟨fills, hline, hlength, -⟩)
        · exact Or.inr (Or.inr hcut)
        · right
          left
          have hlast : chunks.flatten = fills ++ [carriageReturn] := by
            have := congrArg List.getLast? hline
            simpa using this
          rw [hlast, List.length_append, hlength]
          exact Nat.lt_succ_self _

end Prefixed

end

/-! ## Whole records -/

theorem valid_take_fullText {lines : List Bytes}
    (h : Utf8.Valid ((fullText (lines ++ [line])).take maxLineBytes)) :
    Utf8.Valid ((fullText lines).take maxLineBytes) := by
  obtain ⟨rest, hrest⟩ := fullText_isPrefix lines line
  by_cases hlong : maxLineBytes ≤ (fullText lines).length
  · rw [← hrest, List.take_append_of_le_length hlong] at h
    exact h
  · rw [List.take_of_length_le (by omega)]
    by_cases hlines : lines = []
    · rw [hlines]
      exact Utf8.valid_nil
    · have hnext : fullText (lines ++ [line]) = fullText lines ++ newline :: lineText line := by
        rw [fullText_concat, before_of_ne_nil (by simpa using hlines), List.append_assoc]
        rfl
      rw [hnext, List.take_append, List.take_of_length_le (by omega)] at h
      obtain ⟨more, hmore⟩ : ∃ more, maxLineBytes - (fullText lines).length = more + 1 :=
        ⟨_, (Nat.succ_pred_eq_of_pos (by omega)).symm⟩
      rw [hmore] at h
      exact (Utf8.valid_cut h (by decide) (by decide)).1

/-- The bytes of lines that are given by their chunks. -/
def lineBytes (lines : List (List Bytes × Nat)) : List Bytes :=
  lines.map fun line => line.1.flatten

theorem ofLines_concat (trackQuotes : Bool) (lines : List (List Bytes × Nat))
    (line : List Bytes × Nat) :
    OpenRecord.ofLines trackQuotes (lines ++ [line]) =
      (OpenRecord.ofLines trackQuotes lines).push (scanLine trackQuotes line.1 line.2) := by
  unfold OpenRecord.ofLines
  rw [List.map_append, List.foldl_append]
  rfl

/-- Up to the first line after a cut with room left the record is `Prefixed`, and from
there on `Broken`. -/
theorem ofLines_spec (trackQuotes : Bool) (lines : List (List Bytes × Nat)) :
    Counted trackQuotes (lineBytes lines) (OpenRecord.ofLines trackQuotes lines) ∧
      if Utf8.Valid ((fullText (lineBytes lines).dropLast).take maxLineBytes) then
        Prefixed (lineBytes lines) (OpenRecord.ofLines trackQuotes lines)
      else Broken (lineBytes lines) (OpenRecord.ofLines trackQuotes lines) := by
  induction lines using List.reverseRecOn with
  | nil =>
    refine ⟨⟨rfl, Nat.zero_le _, iff_of_true rfl rfl, (Bool.and_false trackQuotes).symm⟩, ?_⟩
    refine ⟨rfl, iff_of_false Bool.false_ne_true ?_⟩
    rintro (hne | ⟨text, hnil, -, -⟩)
    · exact hne rfl
    · exact absurd hnil.symm (List.cons_ne_nil _ _)
  | append_singleton lines line ih =>
    obtain ⟨hcounted, hcases⟩ := ih
    have hbytes : lineBytes (lines ++ [line]) = lineBytes lines ++ [line.1.flatten] := by
      simp [lineBytes]
    rw [ofLines_concat, hbytes, List.dropLast_concat]
    refine ⟨hcounted.push line.1 line.2, ?_⟩
    by_cases hcut : Utf8.Valid ((fullText (lineBytes lines)).take maxLineBytes)
    · have hbefore : Utf8.Valid ((fullText (lineBytes lines).dropLast).take maxLineBytes) := by
        rcases List.eq_nil_or_concat (lineBytes lines) with hnil | ⟨front, last, hconcat⟩
        · rw [hnil]
          exact Utf8.valid_nil
        · rw [List.concat_eq_append] at hconcat
          rw [hconcat] at hcut ⊢
          rw [List.dropLast_concat]
          exact valid_take_fullText hcut
      rw [if_pos hbefore] at hcases
      rw [if_pos hcut]
      exact hcases.push hcounted hcut line.1 line.2
    · rw [if_neg hcut]
      split_ifs at hcases with hbefore
      · exact hcases.push_broken hcounted hcut line.1 line.2
      · exact hcases.push hcounted line.1 line.2

/-- What a record retains is right exactly when only the end of its text was cut, and it
is not one line that fills the room before a carriage return. -/
theorem retained_ofLines_iff (trackQuotes : Bool) (lines : List (List Bytes × Nat)) :
    Retained trackQuotes (lineBytes lines) (OpenRecord.ofLines trackQuotes lines) ↔
      Utf8.Valid ((fullText (lineBytes lines).dropLast).take maxLineBytes) ∧
        ¬ FillsBeforeReturn (lineBytes lines) := by
  obtain ⟨hcounted, hcases⟩ := ofLines_spec trackQuotes lines
  by_cases hcut : Utf8.Valid ((fullText (lineBytes lines).dropLast).take maxLineBytes)
  · rw [if_pos hcut] at hcases
    constructor
    · intro hretained
      refine ⟨hcut, ?_⟩
      intro hfills
      have hset := hcases.flagged.mpr (Or.inr hfills)
      apply hretained.flagged.mp hset
      rw [hcases.joined_eq, kept, List.take_of_length_le (Nat.le_of_eq hfills.spec.1)]
      exact Utf8.validPrefix_of_valid hfills.spec.2
    · rintro ⟨-, hfills⟩
      refine ⟨?_, ?_, ?_, ?_, hcounted.quotesOdd_eq⟩
      · rw [← hcounted.bytes_eq]
        exact hcounted.bounded
      · rw [hcases.joined_eq]
        exact kept_isPrefix _ _
      · rw [hcases.joined_eq]
        exact Utf8.valid_validPrefix _
      · rw [hcases.flagged, or_iff_left hfills]
  · rw [if_neg hcut] at hcases
    exact iff_of_false (fun hretained => hcases.1 hretained.isPrefix) fun h => hcut h.1

/-- The line after one that is not UTF-8 is retained as if it followed what was kept. -/
theorem retained_after_invalid : ¬ ∀ (trackQuotes : Bool) (lines : List (List Bytes × Nat)),
    Retained trackQuotes (lineBytes lines) (OpenRecord.ofLines trackQuotes lines) := by
  intro h
  have hbegins := (h false [([[0x62, 0xFF]], 3), ([[0x78]], 5)]).isPrefix
  revert hbegins
  decide +kernel

end Kronika.SourceLog
