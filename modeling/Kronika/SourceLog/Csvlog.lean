/-
The csvlog format: how a row is written, and that splitting reads its fields back.
-/
import Kronika.SourceLog.Tail

namespace Kronika.SourceLog

open Format

namespace Csvlog

def comma : UInt8 := 44

/-- Columns that every supported release writes (`MIN_FIELDS`). -/
def minFields : Nat := 23

def continues : Continues := fun _ _ rawQuotesOdd => rawQuotesOdd

/-- The loop of `decode_field`.  The characters it looks for are single bytes, and no
other character has them among its bytes. -/
def decodeLoop : Bool → Bytes → Bytes → Bytes
  | _, out, [] => out
  | quoted, out, byte :: rest =>
    if byte = quote then
      match quoted, rest with
      | true, next :: after =>
        if next = quote then decodeLoop true (out ++ [quote]) after
        else decodeLoop false out (next :: after)
      | true, [] => decodeLoop false out []
      | false, rest => decodeLoop true out rest
    else decodeLoop quoted (out ++ [byte]) rest

def decodeField (field : Bytes) : Bytes :=
  if field.contains quote then decodeLoop false [] field else field

/-- The loop of `split`; `field` is the text since the last separator. -/
def splitLoop : Bool → Bytes → List Bytes → Bytes → List Bytes
  | _, field, fields, [] => fields ++ [decodeField field]
  | quoted, field, fields, byte :: rest =>
    if byte = quote then
      match quoted, rest with
      | true, next :: after =>
        if next = quote then splitLoop true (field ++ [byte, next]) fields after
        else splitLoop false (field ++ [byte]) fields (next :: after)
      | true, [] => splitLoop false (field ++ [byte]) fields []
      | false, rest => splitLoop true (field ++ [byte]) fields rest
    else if byte = comma ∧ quoted = false then
      let fields := fields ++ [decodeField field]
      if fields.length = minFields then fields else splitLoop false [] fields rest
    else splitLoop quoted (field ++ [byte]) fields rest

/-- Split one record into its decoded fields, at most `minFields` of them. -/
def split (record : Bytes) : List Bytes := splitLoop false [] [] record

end Csvlog

def joinLines (lines : List Text) : Bytes := List.intercalate [newline] (lines.map Text.bytes)

def Record.joined (record : Record) : Bytes := joinLines record.lines

namespace Csvlog

/-! ## What the server writes -/

def doubled (value : Bytes) : Bytes :=
  value.flatMap fun byte => if byte = quote then [quote, quote] else [byte]

def quoteField (value : Bytes) : Bytes := quote :: (doubled value ++ [quote])

/-- A field of a row.  It is written in quotes, or as it is when it holds neither a
quote nor a separator. -/
structure CsvField where
  value : Text
  quoted : Bool
  noReturn : carriageReturn ∉ value.bytes
  plain : quoted = false →
    quote ∉ value.bytes ∧ comma ∉ value.bytes ∧ newline ∉ value.bytes

def CsvField.text (field : CsvField) : Bytes :=
  if field.quoted then quoteField field.value.bytes else field.value.bytes

def rowText (fields : List CsvField) : Bytes :=
  List.intercalate [comma] (fields.map CsvField.text)

/-- A row of the log, within the limit of a line. -/
structure CsvRow where
  fields : List CsvField
  enough : minFields ≤ fields.length
  short : (rowText fields).length ≤ maxLineBytes

def CsvRow.text (row : CsvRow) : Bytes := rowText row.fields

def CsvRow.values (row : CsvRow) : List Bytes := row.fields.map fun field => field.value.bytes

def stream (rows : List CsvRow) : Bytes := Lines.join newline (rows.map CsvRow.text)

/-! ## Splitting a row -/

section Fields

variable {quoted : Bool} {out field rest : Bytes} {fields : List Bytes} {byte : UInt8}

theorem decodeLoop_other (h : byte ≠ quote) :
    decodeLoop quoted out (byte :: rest) = decodeLoop quoted (out ++ [byte]) rest := by
  rw [decodeLoop.eq_def]
  exact if_neg h

theorem decodeLoop_open : decodeLoop false out (quote :: rest) = decodeLoop true out rest := by
  exact if_pos rfl

theorem decodeLoop_pair :
    decodeLoop true out (quote :: quote :: rest) = decodeLoop true (out ++ [quote]) rest := by
  rw [decodeLoop.eq_def]
  simp

theorem decodeLoop_doubled (value : Bytes) :
    decodeLoop true out (doubled value ++ [quote]) = out ++ value := by
  induction value generalizing out with
  | nil =>
    show decodeLoop true out [quote] = _
    simp [decodeLoop]
  | cons byte value ih =>
    by_cases h : byte = quote
    · subst h
      show decodeLoop true out (quote :: quote :: (doubled value ++ [quote])) = _
      rw [decodeLoop_pair, ih]
      simp
    · have hdoubled : doubled (byte :: value) = byte :: doubled value := by simp [doubled, h]
      rw [hdoubled, List.cons_append, decodeLoop_other h, ih]
      simp

theorem decodeField_text (field : CsvField) : decodeField field.text = field.value.bytes := by
  unfold decodeField CsvField.text
  cases hquoted : field.quoted with
  | true =>
    show decodeLoop false [] (quote :: (doubled field.value.bytes ++ [quote])) = _
    rw [decodeLoop_open, decodeLoop_doubled, List.nil_append]
  | false =>
    have hnot : ¬ field.value.bytes.contains quote = true := by
      simp [(field.plain hquoted).1]
    rw [if_neg Bool.false_ne_true, if_neg hnot]

theorem splitLoop_open :
    splitLoop false field fields (quote :: rest) =
      splitLoop true (field ++ [quote]) fields rest := by
  exact if_pos rfl

theorem splitLoop_pair :
    splitLoop true field fields (quote :: quote :: rest) =
      splitLoop true (field ++ [quote, quote]) fields rest := by
  rw [splitLoop.eq_def]
  simp

theorem splitLoop_close (h : rest.head? ≠ some quote) :
    splitLoop true field fields (quote :: rest) =
      splitLoop false (field ++ [quote]) fields rest := by
  rw [splitLoop.eq_def]
  cases rest with
  | nil => simp
  | cons next after =>
    have hnext : next ≠ quote := fun hsame => h (by rw [hsame]; rfl)
    simp [hnext]

theorem splitLoop_other (hquote : byte ≠ quote) (hcomma : byte ≠ comma ∨ quoted = true) :
    splitLoop quoted field fields (byte :: rest) =
      splitLoop quoted (field ++ [byte]) fields rest := by
  rw [splitLoop.eq_def]
  dsimp only
  rw [if_neg hquote, if_neg fun h => hcomma.elim (fun hne => hne h.1)
    fun hquoted => absurd (h.2.symm.trans hquoted) Bool.false_ne_true]

theorem splitLoop_comma :
    splitLoop false field fields (comma :: rest) =
      if fields.length + 1 = minFields then fields ++ [decodeField field]
      else splitLoop false [] (fields ++ [decodeField field]) rest := by
  rw [splitLoop.eq_def]
  dsimp only
  rw [List.length_append]
  rfl

theorem splitLoop_doubled (value : Bytes) :
    splitLoop true field fields (doubled value ++ rest) =
      splitLoop true (field ++ doubled value) fields rest := by
  induction value generalizing field with
  | nil => simp [doubled]
  | cons byte value ih =>
    by_cases h : byte = quote
    · subst h
      show splitLoop true field fields (quote :: quote :: (doubled value ++ rest)) =
        splitLoop true (field ++ (quote :: quote :: doubled value)) fields rest
      rw [splitLoop_pair, ih]
      simp
    · have hdoubled : doubled (byte :: value) = byte :: doubled value := by simp [doubled, h]
      rw [hdoubled, List.cons_append, splitLoop_other h (Or.inr rfl), ih]
      simp

theorem splitLoop_plain {value : Bytes} (hquote : quote ∉ value) (hcomma : comma ∉ value) :
    splitLoop false field fields (value ++ rest) =
      splitLoop false (field ++ value) fields rest := by
  induction value generalizing field with
  | nil => simp
  | cons byte value ih =>
    simp only [List.mem_cons, not_or] at hquote hcomma
    rw [List.cons_append, splitLoop_other (Ne.symm hquote.1) (Or.inl (Ne.symm hcomma.1)),
      ih hquote.2 hcomma.2]
    simp

theorem splitLoop_text (written : CsvField) (h : rest.head? ≠ some quote) :
    splitLoop false [] fields (written.text ++ rest) =
      splitLoop false written.text fields rest := by
  unfold CsvField.text
  cases hquoted : written.quoted with
  | true =>
    show splitLoop false [] fields (quote :: (doubled written.value.bytes ++ [quote] ++ rest)) = _
    rw [splitLoop_open, List.append_assoc, splitLoop_doubled]
    show splitLoop true _ fields (quote :: rest) = _
    rw [splitLoop_close h]
    simp [quoteField]
  | false =>
    obtain ⟨hquote, hcomma, -⟩ := written.plain hquoted
    rw [if_neg Bool.false_ne_true, splitLoop_plain hquote hcomma, List.nil_append]

theorem splitLoop_rowText (first : CsvField) (more : List CsvField)
    (h : fields.length < minFields) :
    splitLoop false [] fields (rowText (first :: more)) =
      (fields ++ (first :: more).map fun field => field.value.bytes).take minFields := by
  induction more generalizing first fields with
  | nil =>
    have htext : rowText [first] = first.text ++ [] := by simp [rowText]
    rw [htext, splitLoop_text first (by simp), splitLoop, decodeField_text,
      List.take_of_length_le (by simpa using Nat.succ_le_of_lt h)]
    rfl
  | cons second more ih =>
    have htext : rowText (first :: second :: more) =
        first.text ++ comma :: rowText (second :: more) := by
      simp [rowText]
    have hcomma : (comma :: rowText (second :: more)).head? ≠ some quote := by
      simp [comma, quote]
    rw [htext, splitLoop_text first hcomma, splitLoop_comma, decodeField_text]
    by_cases hfull : fields.length + 1 = minFields
    · have hlength : (fields ++ [first.value.bytes]).length = minFields := by simpa using hfull
      rw [if_pos hfull, List.map_cons, List.append_cons fields first.value.bytes (List.map _ _),
        List.take_append_of_le_length hlength.ge, List.take_of_length_le hlength.le]
    · rw [if_neg hfull, ih second (by simp; omega)]
      simp

end Fields

theorem split_text (row : CsvRow) : split row.text = row.values.take minFields := by
  unfold split CsvRow.text CsvRow.values
  have henough := row.enough
  cases hfields : row.fields with
  | nil =>
    rw [hfields] at henough
    exact absurd henough (by decide)
  | cons first more => exact splitLoop_rowText first more (by decide)

end Csvlog
end Kronika.SourceLog
