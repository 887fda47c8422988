/-
Framing of the csvlog format.

A row may span lines, when a quoted field holds newlines.  Framing follows the parity of
the quotes while splitting decodes doubled quotes; that the two agree rests on one fact
about a row, `Spans`: the quotes before a newline of the row are odd in number, and those
of the whole row are even.  So every framing of a log of rows has the rows as frames,
whatever the reads that it was cut into (`rows_framed_and_split`).
-/
import Kronika.SourceLog.Csvlog
import Kronika.SourceLog.Following

namespace Kronika.SourceLog

open Format

namespace Csvlog

/-! ## The quotes of a row -/

/-- A text whose newlines all stand inside quotes. -/
structure Spans (text : Bytes) : Prop where
  odd : ∀ before after, text = before ++ newline :: after → quoteParity before = true
  even : quoteParity text = false
  valid : Utf8.Valid text
  noReturn : carriageReturn ∉ text

theorem Spans.append {left right : Bytes} (hleft : Spans left) (hright : Spans right) :
    Spans (left ++ right) where
  odd before after h := by
    rcases List.append_eq_append_iff.mp h with ⟨middle, rfl, hsplit⟩ | ⟨middle, hsplit, hmiddle⟩
    · rw [quoteParity_append, hleft.even, hright.odd middle after hsplit]
      rfl
    · cases middle with
      | nil =>
        have hempty := hright.odd [] after hmiddle.symm
        exact absurd hempty (by decide)
      | cons byte middle =>
        obtain ⟨rfl, -⟩ := List.cons_eq_cons.mp hmiddle
        exact hleft.odd before middle hsplit
  even := by
    rw [quoteParity_append, hleft.even, hright.even]
    rfl
  valid := Utf8.valid_append hleft.valid hright.valid
  noReturn h := by
    rcases List.mem_append.mp h with hmem | hmem
    · exact hleft.noReturn hmem
    · exact hright.noReturn hmem

theorem Spans.plain {text : Bytes} (hquote : quote ∉ text) (hnewline : newline ∉ text)
    (hvalid : Utf8.Valid text) (hreturn : carriageReturn ∉ text) : Spans text where
  odd before after h := by
    refine absurd ?_ hnewline
    rw [h]
    simp
  even := by
    unfold quoteParity
    rw [List.count_eq_zero.mpr hquote]
    rfl
  valid := hvalid
  noReturn := hreturn

theorem mem_doubled {value : Bytes} {byte : UInt8} : byte ∈ doubled value ↔ byte ∈ value := by
  unfold doubled
  rw [List.mem_flatMap]
  constructor
  · rintro ⟨other, hother, hmem⟩
    split at hmem
    · rename_i hquote
      have hbyte : byte = other := by simpa [hquote] using hmem
      rw [hbyte]
      exact hother
    · rw [List.mem_singleton.mp hmem]
      exact hother
  · intro hmem
    refine ⟨byte, hmem, ?_⟩
    split
    · rename_i hquote
      rw [hquote]
      simp
    · simp

theorem quoteParity_doubled {value before after : Bytes}
    (h : doubled value = before ++ after) (hafter : after.head? ≠ some quote) :
    quoteParity before = false := by
  induction value generalizing before with
  | nil =>
    obtain ⟨rfl, -⟩ := List.append_eq_nil_iff.mp h.symm
    rfl
  | cons byte value ih =>
    by_cases hbyte : byte = quote
    · subst hbyte
      have hdoubled : quote :: quote :: doubled value = before ++ after := h
      cases before with
      | nil => rfl
      | cons first before =>
        obtain ⟨rfl, htail⟩ := List.cons_eq_cons.mp hdoubled
        cases before with
        | nil =>
          refine absurd ?_ hafter
          rw [← show quote :: doubled value = after from htail]
          rfl
        | cons second before =>
          obtain ⟨rfl, hrest⟩ := List.cons_eq_cons.mp htail
          have hsplit : quote :: quote :: before = [quote, quote] ++ before := rfl
          rw [hsplit, quoteParity_append, ih hrest]
          rfl
    · have hdoubled : byte :: doubled value = before ++ after := by
        rw [← h]
        simp [doubled, hbyte]
      cases before with
      | nil => rfl
      | cons first before =>
        obtain ⟨rfl, hrest⟩ := List.cons_eq_cons.mp hdoubled
        have hsplit : byte :: before = [byte] ++ before := rfl
        rw [hsplit, quoteParity_append, ih hrest]
        simp [quoteParity, hbyte]

theorem run_doubled {value : Bytes} {owed next : Utf8.Owed} (howing : Utf8.Owing owed)
    (h : Utf8.run owed value = some next) : Utf8.run owed (doubled value) = some next := by
  induction value generalizing owed with
  | nil => exact h
  | cons byte value ih =>
    simp only [Utf8.run] at h
    cases hstep : Utf8.step owed byte with
    | none =>
      rw [hstep] at h
      cases h
    | some after =>
      rw [hstep] at h
      have hrest := ih (Utf8.owing_step howing hstep) h
      by_cases hbyte : byte = quote
      · subst hbyte
        have hnil := Utf8.owed_eq_nil howing hstep (by decide)
        subst hnil
        have hafter : after = [] := Option.some.inj (hstep.symm.trans (by decide))
        subst hafter
        exact hrest
      · have hdoubled : doubled (byte :: value) = byte :: doubled value := by
          simp [doubled, hbyte]
        rw [hdoubled, Utf8.run, hstep]
        exact hrest

theorem spans_text (field : CsvField) : Spans field.text := by
  unfold CsvField.text
  cases hquoted : field.quoted with
  | false =>
    obtain ⟨hquote, -, hnewline⟩ := field.plain hquoted
    exact .plain hquote hnewline field.value.valid field.noReturn
  | true =>
    rw [if_pos rfl]
    have hsplit : quoteField field.value.bytes =
        [quote] ++ (doubled field.value.bytes ++ [quote]) := rfl
    have hone : quoteParity [quote] = true := by decide
    refine ⟨fun before after h => ?_, ?_, ?_, fun h => ?_⟩
    · -- the newline is one of the doubled text: it is neither of the two quotes
      cases before with
      | nil => exact absurd (List.cons_eq_cons.mp h).1 (by decide)
      | cons first before =>
        obtain ⟨rfl, hrest⟩ := List.cons_eq_cons.mp h
        have hinner : doubled field.value.bytes ++ [quote] = before ++ newline :: after := hrest
        have hparity : quoteParity before = false := by
          rcases List.append_eq_append_iff.mp hinner with
            ⟨middle, -, hend⟩ | ⟨middle, hdoubled, hend⟩
          · have hmem : newline ∈ [quote] := by
              rw [hend]
              simp
            exact absurd hmem (by decide)
          · cases middle with
            | nil => exact absurd (List.cons_eq_cons.mp hend).1 (by decide)
            | cons byte middle =>
              obtain ⟨rfl, -⟩ := List.cons_eq_cons.mp hend
              exact quoteParity_doubled hdoubled (by simp [newline, quote])
        have hfirst : quote :: before = [quote] ++ before := rfl
        rw [hfirst, quoteParity_append, hparity]
        rfl
    · have hparity := quoteParity_doubled (List.append_nil (doubled field.value.bytes)).symm
        (by simp)
      rw [hsplit, quoteParity_append, quoteParity_append, hparity]
      rfl
    · rw [hsplit]
      have hvalid : Utf8.Valid [quote] := by decide
      exact Utf8.valid_append hvalid (Utf8.valid_append
        (run_doubled (fun _ h => absurd h List.not_mem_nil) field.value.valid) hvalid)
    · rw [hsplit, List.mem_append, List.mem_append, mem_doubled] at h
      rcases h with h | h | h
      · exact absurd (List.mem_singleton.mp h) (by decide)
      · exact field.noReturn h
      · exact absurd (List.mem_singleton.mp h) (by decide)

theorem spans_rowText (fields : List CsvField) : Spans (rowText fields) := by
  have hempty : Spans [] := .plain List.not_mem_nil List.not_mem_nil Utf8.valid_nil List.not_mem_nil
  have hcomma : Spans [comma] := .plain (by decide) (by decide) (by decide) (by decide)
  induction fields with
  | nil => exact hempty
  | cons field more ih =>
    cases more with
    | nil =>
      have htext : rowText [field] = field.text := by simp [rowText]
      rw [htext]
      exact spans_text field
    | cons second more =>
      exact (spans_text field).append (hcomma.append ih)

/-! ## The lines of a row -/

theorem join_eq_intercalate {lines : List Bytes} (h : lines ≠ []) :
    Lines.join newline lines = List.intercalate [newline] lines ++ [newline] := by
  induction lines with
  | nil => exact absurd rfl h
  | cons line lines ih =>
    cases lines with
    | nil => simp [Lines.join]
    | cons second lines =>
      rw [Lines.join_cons, ih (List.cons_ne_nil _ _)]
      simp

def CsvRow.lines (row : CsvRow) : List Bytes :=
  (Lines.split newline [] row.text).1 ++ [(Lines.split newline [] row.text).2]

variable {row : CsvRow}

theorem CsvRow.join_lines (row : CsvRow) :
    Lines.join newline row.lines = row.text ++ [newline] := by
  have hsplit := Lines.join_split newline [] row.text
  rw [List.nil_append] at hsplit
  unfold CsvRow.lines
  conv => rhs; rw [← hsplit]
  simp [Lines.join]

theorem CsvRow.newline_not_mem (row : CsvRow) : ∀ line ∈ row.lines, newline ∉ line := by
  have hempty : newline ∉ ([] : Bytes) := List.not_mem_nil
  obtain ⟨hlines, hrest⟩ := Lines.sep_not_mem_split hempty row.text
  intro line hline
  rcases List.mem_append.mp hline with hmem | hmem
  · exact hlines line hmem
  · rw [List.mem_singleton.mp hmem]
    exact hrest

theorem valid_of_mem_join {lines : List Bytes} (h : Utf8.Valid (Lines.join newline lines)) :
    ∀ line ∈ lines, Utf8.Valid line := by
  induction lines with
  | nil => exact fun _ hmem => absurd hmem List.not_mem_nil
  | cons first lines ih =>
    rw [Lines.join_cons] at h
    obtain ⟨hfirst, hrest⟩ := Utf8.valid_cut h (by decide) (by decide)
    intro line hline
    rcases List.mem_cons.mp hline with rfl | hmem
    · exact hfirst
    · exact ih hrest line hmem

theorem CsvRow.valid_lines (row : CsvRow) : ∀ line ∈ row.lines, Utf8.Valid line := by
  apply valid_of_mem_join
  rw [row.join_lines]
  exact Utf8.valid_append (spans_rowText row.fields).valid (by decide)

def CsvRow.texts (row : CsvRow) : List Text := row.lines.pmap Text.mk row.valid_lines

theorem CsvRow.texts_bytes (row : CsvRow) : row.texts.map Text.bytes = row.lines := by
  unfold CsvRow.texts
  rw [List.map_pmap]
  simp

theorem CsvRow.lines_ne_nil (row : CsvRow) : row.lines ≠ [] := by simp [CsvRow.lines]

theorem CsvRow.joinLines_texts (row : CsvRow) : joinLines row.texts = row.text := by
  unfold joinLines
  rw [row.texts_bytes]
  have hjoin := row.join_lines
  rw [join_eq_intercalate row.lines_ne_nil] at hjoin
  exact List.append_cancel_right hjoin

theorem CsvRow.text_of_append {left right : List Text} (h : row.texts = left ++ right)
    (hleft : left ≠ []) (hright : right ≠ []) :
    row.text = joinLines left ++ newline :: joinLines right := by
  have hjoin := row.join_lines
  rw [← row.texts_bytes, h, List.map_append, Lines.join_append,
    join_eq_intercalate (by simpa using hleft), join_eq_intercalate (by simpa using hright),
    ← List.append_assoc] at hjoin
  have htext := List.append_cancel_right hjoin
  rw [← htext]
  simp [joinLines]

theorem CsvRow.noReturn {text : Text} (h : text ∈ row.texts) : carriageReturn ∉ text.bytes := by
  intro hreturn
  have hmem : text.bytes ∈ row.lines := by
    rw [← row.texts_bytes]
    exact List.mem_map_of_mem h
  have hjoin : carriageReturn ∈ Lines.join newline row.lines :=
    List.mem_flatMap.mpr ⟨text.bytes, hmem, List.mem_append_left _ hreturn⟩
  rw [row.join_lines] at hjoin
  rcases List.mem_append.mp hjoin with hrow | hend
  · exact (spans_rowText row.fields).noReturn hrow
  · exact absurd (List.mem_singleton.mp hend) (by decide)

/-! ## Framing rows -/

/-- The frame of lines that are kept whole and end at the offset. -/
def frameOf (endAt : Nat) (texts : List Text) : OpenRecord :=
  { lines := texts
    bytes := (joinLines texts).length
    endAt := endAt
    truncated := false
    quotesOdd := quoteParity (joinLines texts) }

theorem joinLines_concat {texts : List Text} (h : texts ≠ []) (text : Text) :
    joinLines (texts ++ [text]) = joinLines texts ++ newline :: text.bytes := by
  have hjoin : Lines.join newline ((texts ++ [text]).map Text.bytes) =
      Lines.join newline (texts.map Text.bytes) ++ (text.bytes ++ [newline]) := by
    simp [Lines.join]
  rw [join_eq_intercalate (by simp), join_eq_intercalate (by simpa using h),
    ← List.append_assoc] at hjoin
  have hcut := List.append_cancel_right hjoin
  show List.intercalate [newline] ((texts ++ [text]).map Text.bytes) = _
  rw [hcut]
  simp [joinLines]

theorem frameOf_push (texts : List Text) (text : Text) (endAt next : Nat)
    (hshort : (joinLines (texts ++ [text])).length ≤ maxLineBytes) :
    (frameOf endAt texts).push
        { endAt := next
          text := some text
          truncated := false
          quotesOdd := quoteParity text.bytes } =
      frameOf next (texts ++ [text]) := by
  have hparity : quoteParity [newline] = false := by decide
  cases texts with
  | nil =>
    have hjoin : joinLines [text] = text.bytes := List.intercalate_singleton
    rw [List.nil_append, hjoin] at hshort
    simp [OpenRecord.push, frameOf, Text.truncate, hshort, joinLines, quoteParity]
  | cons first texts =>
    have hjoin := joinLines_concat (List.cons_ne_nil first texts) text
    rw [hjoin, List.length_append, List.length_cons] at hshort
    have hroom : ¬ maxLineBytes < (joinLines (first :: texts)).length + 1 := by omega
    have hfits : text.bytes.length ≤ maxLineBytes - (joinLines (first :: texts)).length - 1 := by
      omega
    have hsplit : newline :: text.bytes = [newline] ++ text.bytes := rfl
    have hquotes : quoteParity (joinLines (first :: texts) ++ newline :: text.bytes) =
        (quoteParity (joinLines (first :: texts)) ^^ quoteParity text.bytes) := by
      rw [hsplit, quoteParity_append, quoteParity_append, hparity, Bool.false_xor]
    have hlength : (joinLines (first :: texts) ++ newline :: text.bytes).length =
        (joinLines (first :: texts)).length + 1 + text.bytes.length := by
      rw [List.length_append, List.length_cons]
      omega
    unfold frameOf
    rw [hjoin, hquotes, hlength]
    simp [OpenRecord.push, Text.truncate, hroom, hfits]

theorem wholeLine_clean {text : Text} (offset : Nat) (hshort : text.bytes.length ≤ maxLineBytes)
    (hreturn : carriageReturn ∉ text.bytes) :
    wholeLine true offset text.bytes =
      { endAt := offset + (text.bytes.length + 1)
        text := some text
        truncated := false
        quotesOdd := quoteParity text.bytes } := by
  have hpush : PartialLine.new.push text.bytes true =
      { bytes := text.bytes, truncated := false, quotesOdd := quoteParity text.bytes } := by
    have hroom : PartialLine.new.room = maxLineBytes := rfl
    rw [PartialLine.push_eq, hroom, List.take_of_length_le hshort]
    simp [PartialLine.new, Nat.not_lt.mpr hshort]
  have hlast : (text.bytes.getLast? == some carriageReturn) = false := by
    rw [beq_eq_false_iff_ne]
    exact fun h => hreturn (List.mem_of_getLast? h)
  have htext : Text.fromUtf8 text.bytes = .ok text := dif_pos text.valid
  unfold wholeLine PartialLine.finish
  rw [hpush]
  dsimp only
  rw [hlast, Bool.and_false, if_neg Bool.false_ne_true, htext]

def Even (framing : Framing) : Prop :=
  ∀ frame, framing.openRecord = some frame → frame.quotesOdd = false

variable {framing : Framing}

theorem Even.endsAt (h : Even framing) (text : Bytes) :
    framing.EndsAt continues true (some text) := by
  cases hopen : framing.openRecord with
  | none => exact Or.inl hopen
  | some frame =>
    refine Or.inr ⟨text, rfl, ?_⟩
    have heven := h frame hopen
    simp [Framing.startsNew, hopen, continues, heven]

theorem run_texts {left right : List Text} (hrow : row.texts = left ++ right)
    (hleft : left ≠ []) (heven : Even framing) :
    Framing.run continues true [] framing (left.map Text.bytes) =
      { offset := framing.offset + ((joinLines left).length + 1)
        closed := framing.frames
        openRecord := some (frameOf (framing.offset + ((joinLines left).length + 1)) left) } := by
  induction left using List.reverseRecOn generalizing right with
  | nil => exact absurd rfl hleft
  | append_singleton left text ih =>
    have hmem : text ∈ row.texts := by
      rw [hrow]
      simp
    have hjoined : (joinLines (left ++ [text])).length ≤ maxLineBytes := by
      have hshort : row.text.length ≤ maxLineBytes := row.short
      by_cases hright : right = []
      · subst hright
        rw [List.append_nil] at hrow
        rw [← hrow, row.joinLines_texts]
        exact hshort
      · rw [CsvRow.text_of_append hrow hleft hright, List.length_append] at hshort
        exact (Nat.le_add_right _ _).trans hshort
    rw [List.map_append, List.map_singleton, Framing.run_concat]
    by_cases hnil : left = []
    · subst hnil
      have hjoin : joinLines [text] = text.bytes := List.intercalate_singleton
      rw [List.nil_append, hjoin] at hjoined ⊢
      show framing.line continues true [] text.bytes = _
      rw [← Framing.line_close (heven.endsAt text.bytes), Framing.line_of_continues rfl,
        wholeLine_clean _ hjoined (CsvRow.noReturn hmem)]
      have hpush := frameOf_push [] text 0 (framing.offset + (text.bytes.length + 1))
        (by rw [List.nil_append, hjoin]; exact hjoined)
      rw [List.nil_append] at hpush
      rw [← hpush]
      rfl
    · rw [List.append_assoc] at hrow
      have hodd : quoteParity (joinLines left) = true :=
        (spans_rowText row.fields).odd _ _ (CsvRow.text_of_append hrow hnil (by simp))
      have hconcat := joinLines_concat hnil text
      have hshort : text.bytes.length ≤ maxLineBytes := by
        rw [hconcat, List.length_append, List.length_cons] at hjoined
        omega
      rw [ih hrow hnil]
      rw [Framing.line_of_continues (by simp [Framing.startsNew, continues, frameOf, hodd]),
        wholeLine_clean _ hshort (CsvRow.noReturn hmem)]
      rw [Option.getD_some, frameOf_push left text _ _ hjoined, hconcat, List.length_append,
        List.length_cons]
      have hend : framing.offset + ((joinLines left).length + 1) + (text.bytes.length + 1) =
          framing.offset + ((joinLines left).length + (text.bytes.length + 1) + 1) := by omega
      rw [hend]

def rowFrames : Nat → List CsvRow → List OpenRecord
  | _, [] => []
  | low, row :: rows =>
    frameOf (low + (row.text.length + 1)) row.texts :: rowFrames (low + (row.text.length + 1)) rows

theorem run_row (heven : Even framing) (row : CsvRow) :
    Framing.run continues true [] framing row.lines =
      { offset := framing.offset + (row.text.length + 1)
        closed := framing.frames
        openRecord := some (frameOf (framing.offset + (row.text.length + 1)) row.texts) } := by
  have hne : row.texts ≠ [] := by
    intro hnil
    apply row.lines_ne_nil
    rw [← row.texts_bytes, hnil]
    rfl
  rw [← row.texts_bytes, run_texts (List.append_nil _).symm hne heven, row.joinLines_texts]

theorem even_frameOf_texts (row : CsvRow) (endAt : Nat) :
    (frameOf endAt row.texts).quotesOdd = false := by
  show quoteParity (joinLines row.texts) = false
  rw [row.joinLines_texts]
  exact (spans_rowText row.fields).even

theorem run_rows (heven : Even framing) (rows : List CsvRow) :
    (Framing.run continues true [] framing (rows.flatMap CsvRow.lines)).offset =
        framing.offset + (stream rows).length ∧
      (Framing.run continues true [] framing (rows.flatMap CsvRow.lines)).frames =
        framing.frames ++ rowFrames framing.offset rows ∧
      Even (Framing.run continues true [] framing (rows.flatMap CsvRow.lines)) := by
  induction rows generalizing framing with
  | nil => exact ⟨rfl, (List.append_nil _).symm, heven⟩
  | cons row rows ih =>
    rw [List.flatMap_cons, Framing.run_append, run_row heven]
    have hnext : Even
        { offset := framing.offset + (row.text.length + 1)
          closed := framing.frames
          openRecord := some (frameOf (framing.offset + (row.text.length + 1)) row.texts) } := by
      intro frame hframe
      cases hframe
      exact even_frameOf_texts row _
    obtain ⟨hoffset, hframes, hlast⟩ := ih hnext
    refine ⟨?_, ?_, hlast⟩
    · rw [hoffset]
      have hlength : (stream (row :: rows)).length =
          row.text.length + 1 + (stream rows).length := Lines.length_join_cons _ _ _
      rw [hlength]
      exact Nat.add_assoc _ _ _
    · rw [hframes]
      show framing.frames ++ [frameOf _ row.texts] ++ _ = _
      rw [List.append_assoc]
      rfl

/-! ## Flushes at ends of file -/

theorem line_flushes (flushes : List Nat) (framing : Framing) (text : Bytes) :
    framing.line continues true flushes text =
      if flushes.contains (framing.offset + (text.length + 1)) then
        (framing.line continues true [] text).close
      else framing.line continues true [] text := by
  unfold Framing.line
  rw [if_neg (show ¬ ([] : List Nat).contains _ = true by simp)]

theorem openRecord_line (framing : Framing) (text : Bytes) :
    ∃ frame, (framing.line continues true [] text).openRecord = some frame ∧
      frame.endAt = framing.offset + (text.length + 1) := by
  cases hstarts : framing.startsNew continues true text with
  | true =>
    exact ⟨_, rfl, (push_endAt _ _).trans (wholeLine_endAt _ _ _)⟩
  | false =>
    exact ⟨_, rfl, (push_endAt _ _).trans (wholeLine_endAt _ _ _)⟩

theorem closed_line (flushes : List Nat) (framing : Framing) (text : Bytes) :
    framing.closed ⊆ (framing.line continues true flushes text).closed := by
  have hunflushed : framing.closed ⊆ (framing.line continues true [] text).closed := by
    cases hstarts : framing.startsNew continues true text with
    | true =>
      rw [Framing.line_of_startsNew hstarts]
      exact List.subset_append_left _ _
    | false =>
      rw [Framing.line_of_continues hstarts]
      exact List.Subset.refl _
  rw [line_flushes]
  split
  · exact fun frame hframe => List.mem_append_left _ (hunflushed hframe)
  · exact hunflushed

variable {flushes : List Nat}

theorem open_not_flushed {low : Nat} {lines : List Bytes} {frame : OpenRecord}
    (h : (Framing.run continues true flushes (Framing.start low) lines).openRecord = some frame) :
    frame.endAt ∉ flushes := by
  rcases List.eq_nil_or_concat lines with rfl | ⟨init, last, rfl⟩
  · cases h
  · rw [List.concat_eq_append, Framing.run_concat, line_flushes] at h
    obtain ⟨other, hopen, hend⟩ := openRecord_line
      (Framing.run continues true flushes (Framing.start low) init) last
    split at h
    · cases h
    · rename_i hnot
      rw [hopen] at h
      cases h
      rw [hend]
      simpa using hnot

theorem run_flushes {low : Nat} {lines : List Bytes}
    (hrule : ∀ frame ∈ (Framing.run continues true flushes (Framing.start low) lines).frames,
      frame.endAt ∈ flushes → frame.quotesOdd = false) :
    Framing.run continues true flushes (Framing.start low) lines =
        Framing.run continues true [] (Framing.start low) lines ∨
      Framing.run continues true flushes (Framing.start low) lines =
        (Framing.run continues true [] (Framing.start low) lines).close ∧
      Even (Framing.run continues true [] (Framing.start low) lines) := by
  induction lines using List.reverseRecOn with
  | nil => exact Or.inl rfl
  | append_singleton lines last ih =>
    rw [Framing.run_concat] at hrule
    have hbefore := ih fun frame hframe hflushed => by
      rcases List.mem_append.mp hframe with hclosed | hopen
      · exact hrule frame (List.mem_append_left _ (closed_line _ _ _ hclosed)) hflushed
      · exact absurd hflushed (open_not_flushed (Option.mem_toList.mp hopen))
    rw [Framing.run_concat, Framing.run_concat]
    generalize Framing.run continues true flushes (Framing.start low) lines = flushed at *
    generalize Framing.run continues true [] (Framing.start low) lines = framing at *
    have hline : flushed.line continues true flushes last =
        framing.line continues true flushes last := by
      rcases hbefore with rfl | ⟨rfl, heven⟩
      · rfl
      · exact Framing.line_close (heven.endsAt last)
    rw [hline, line_flushes] at hrule ⊢
    split
    · rename_i hcontains
      rw [if_pos hcontains, Framing.frames_close] at hrule
      refine Or.inr ⟨rfl, fun frame hframe => ?_⟩
      obtain ⟨other, hopen, hend⟩ := openRecord_line framing last
      rw [hframe] at hopen
      cases hopen
      apply hrule frame (List.mem_append_right _ (Option.mem_toList.mpr hframe))
      rw [hend]
      simpa using hcontains
    · exact Or.inl rfl

/-! ## The rows of a log -/

theorem linesFrom_stream (rows : List CsvRow) :
    linesFrom (stream rows) 0 = rows.flatMap CsvRow.lines := by
  have hjoin : stream rows = Lines.join newline (rows.flatMap CsvRow.lines) ++ [] := by
    rw [List.append_nil]
    induction rows with
    | nil => rfl
    | cons row rows ih =>
      rw [List.flatMap_cons, Lines.join_append, row.join_lines, ← ih]
      show Lines.join newline (row.text :: rows.map CsvRow.text) = _
      rw [Lines.join_cons]
      simp [stream]
  have hempty : newline ∉ ([] : Bytes) := List.not_mem_nil
  rw [linesFrom, List.drop_zero, hjoin, Lines.split_join ?_ hempty]
  intro line hline
  obtain ⟨row, -, hmem⟩ := List.mem_flatMap.mp hline
  exact row.newline_not_mem line hmem

theorem cut_rows {rows : List CsvRow} {lines later : List Bytes}
    (h : rows.flatMap CsvRow.lines = lines ++ later) :
    ∃ n part, n ≤ rows.length ∧ lines = (rows.take n).flatMap CsvRow.lines ++ part ∧
      (part = [] ∨ ∃ (row : CsvRow) (left right : List Text), row.texts = left ++ right ∧
        left ≠ [] ∧ right ≠ [] ∧ part = left.map Text.bytes) := by
  induction rows generalizing lines with
  | nil =>
    obtain ⟨rfl, -⟩ := List.append_eq_nil_iff.mp h.symm
    exact ⟨0, [], le_rfl, rfl, Or.inl rfl⟩
  | cons row rows ih =>
    rcases List.append_eq_append_iff.mp h with ⟨middle, rfl, hrest⟩ | ⟨middle, hrow, -⟩
    · obtain ⟨n, part, hn, rfl, hpart⟩ := ih hrest
      refine ⟨n + 1, part, Nat.succ_le_succ hn, ?_, hpart⟩
      rw [List.take_succ_cons, List.flatMap_cons, List.append_assoc]
    · by_cases hmiddle : middle = []
      · refine ⟨1, [], Nat.succ_le_succ (Nat.zero_le _), ?_, Or.inl rfl⟩
        rw [hmiddle] at hrow
        simp [hrow]
      · by_cases hlines : lines = []
        · exact ⟨0, [], Nat.zero_le _, hlines, Or.inl rfl⟩
        · rw [← row.texts_bytes] at hrow
          obtain ⟨left, right, htexts, rfl, rfl⟩ := List.map_eq_append_iff.mp hrow
          exact ⟨0, _, Nat.zero_le _, rfl,
            Or.inr ⟨row, left, right, htexts, by simpa using hlines, by simpa using hmiddle, rfl⟩⟩

theorem rows_of_framed {rows : List CsvRow} {high : Nat} {frames : List OpenRecord}
    (h : Framed continues true flushes (stream rows) 0 high frames)
    (hrule : ∀ frame ∈ frames, frame.endAt ∈ flushes → frame.quotesOdd = false) :
    ∃ n, n ≤ rows.length ∧ high = (stream (rows.take n)).length ∧
      frames = rowFrames 0 (rows.take n) := by
  obtain ⟨-, lines, later, hlines, hhigh, rfl, hends⟩ := h
  rw [linesFrom_stream] at hlines
  have hstart : Even (Framing.start 0) := fun _ hframe => by cases hframe
  have heven : Even (Framing.run continues true [] (Framing.start 0) lines) := by
    rcases run_flushes hrule with hsame | ⟨-, heven⟩
    · rw [hsame] at hends
      intro frame hframe
      rcases hends with hnone | ⟨text, -, hstarts⟩
      · rw [hnone] at hframe
        cases hframe
      · simpa [Framing.startsNew, hframe, continues] using hstarts
    · exact heven
  have hframes : (Framing.run continues true flushes (Framing.start 0) lines).frames =
      (Framing.run continues true [] (Framing.start 0) lines).frames := by
    rcases run_flushes hrule with hsame | ⟨hclose, -⟩
    · rw [hsame]
    · rw [hclose, Framing.frames_close]
  obtain ⟨n, part, hn, hcut, hpart⟩ := cut_rows hlines
  obtain ⟨hoffset, hrows, hclean⟩ := run_rows hstart (rows.take n)
  have hnil : part = [] := by
    rcases hpart with hnil | ⟨row, left, right, htexts, hleft, hright, rfl⟩
    · exact hnil
    · -- inside a row a quote is open
      rw [hcut, Framing.run_append, run_texts htexts hleft hclean] at heven
      have hopen := heven _ rfl
      have hodd := (spans_rowText row.fields).odd _ _ (CsvRow.text_of_append htexts hleft hright)
      exact absurd (hopen.symm.trans hodd) Bool.false_ne_true
  rw [hnil, List.append_nil] at hcut
  refine ⟨n, hn, ?_, ?_⟩
  · rw [hhigh, hcut, ← hoffset.trans (Nat.zero_add _), Framing.run_offset]
    rfl
  · rw [hframes, hcut, hrows]
    rfl

theorem onePass_stream (rows : List CsvRow) :
    onePass continues true [] (stream rows) = rowFrames 0 rows := by
  have hstart : Even (Framing.start 0) := fun _ hframe => by cases hframe
  have hlines : (Lines.split newline [] (stream rows)).1 = rows.flatMap CsvRow.lines :=
    linesFrom_stream rows
  unfold onePass
  rw [hlines, (run_rows hstart rows).2.1]
  rfl

theorem endAt_rowFrames (low : Nat) (rows : List CsvRow) :
    (rowFrames low rows).map OpenRecord.endAt =
      (List.range rows.length).map fun n => low + (stream (rows.take (n + 1))).length := by
  induction rows generalizing low with
  | nil => rfl
  | cons row rows ih =>
    rw [List.length_cons, List.range_succ_eq_map, List.map_cons, List.map_map]
    show (low + (row.text.length + 1)) :: _ = _
    have hlength : ∀ rest : List CsvRow,
        (stream (row :: rest)).length = row.text.length + 1 + (stream rest).length :=
      fun rest => Lines.length_join_cons _ _ _
    rw [ih, List.take_succ_cons, hlength]
    have hfirst : low + (row.text.length + 1) = low + (row.text.length + 1 + 0) := rfl
    refine congrArg₂ List.cons hfirst (List.map_congr_left fun n _ => ?_)
    show low + (row.text.length + 1) + (stream (rows.take (n + 1))).length =
      low + (stream (row :: rows.take (n + 1))).length
    rw [hlength]
    exact Nat.add_assoc _ _ _

theorem record_frameOf (row : CsvRow) (endAt : Nat) :
    (frameOf endAt row.texts).record = some { lines := row.texts, truncated := false } := by
  have hcomma : comma ∈ row.text := by
    have henough := row.enough
    unfold CsvRow.text rowText
    rcases hfields : row.fields with _ | ⟨first, _ | ⟨second, more⟩⟩
    · rw [hfields] at henough
      exact absurd henough (by simp [minFields])
    · rw [hfields] at henough
      exact absurd henough (by simp [minFields])
    · simp [List.intercalate_cons_cons]
  have hjoin : comma ∈ Lines.join newline row.lines := by
    rw [row.join_lines]
    exact List.mem_append_left _ hcomma
  obtain ⟨line, hline, hmem⟩ := List.mem_flatMap.mp hjoin
  have hinside : comma ∈ line := by
    rcases List.mem_append.mp hmem with hmem | hmem
    · exact hmem
    · exact absurd (List.mem_singleton.mp hmem) (by decide)
  rw [← row.texts_bytes] at hline
  obtain ⟨text, htext, rfl⟩ := List.mem_map.mp hline
  have hany : row.texts.any (fun line => !line.isEmpty) = true := by
    refine List.any_eq_true.mpr ⟨text, htext, ?_⟩
    simp [Text.isEmpty, List.ne_nil_of_mem hinside]
  exact if_pos hany

theorem records_rowFrames (low : Nat) (rows : List CsvRow) :
    ((rowFrames low rows).filterMap OpenRecord.record).map
        (fun record => (record.truncated, record.joined, split record.joined)) =
      rows.map fun row => (false, row.text, row.values.take minFields) := by
  induction rows generalizing low with
  | nil => rfl
  | cons row rows ih =>
    show (List.filterMap OpenRecord.record (frameOf _ row.texts :: rowFrames _ rows)).map _ = _
    rw [List.filterMap_cons_some (record_frameOf row _), List.map_cons, ih, List.map_cons]
    show (false, joinLines row.texts, split (joinLines row.texts)) :: _ = _
    rw [row.joinLines_texts, split_text]

/-- Over every run on a log of rows, also while the last of them is being written, the
acknowledged records are the first rows, whole, and split into their first fields; read in
one pass, the log is cut where its rows end. -/
theorem rows_framed_and_split (rows : List CsvRow) (file : LogFile) (events : List TailEvent)
    {follower : Follower}
    (hrun : follower =
      Run.finish (Follower.step continues true) (Follower.start file) events)
    (hrows : follower.file.bytes <+: stream rows) :
    (∃ n, n ≤ rows.length ∧
      follower.tail.position.offset = (stream (rows.take n)).length ∧
      follower.acknowledged.map
          (fun record => (record.truncated, record.joined, split record.joined)) =
        (rows.take n).map fun row => (false, row.text, row.values.take minFields)) ∧
    (onePass continues true [] (stream rows)).map OpenRecord.endAt =
      ((List.range rows.length).map fun n => (stream (rows.take (n + 1))).length) ∧
    ((onePass continues true [] (stream rows)).filterMap OpenRecord.record).map
        (fun record => (record.truncated, record.joined, split record.joined)) =
      rows.map fun row => (false, row.text, row.values.take minFields) := by
  have hinv : Follower.Inv continues true follower := by
    rw [hrun]
    exact Follower.inv_run file events
  obtain ⟨flushes, frames, hframed, hrecords, -, -, hrule⟩ := hinv.acknowledged
  obtain ⟨added, hadded⟩ := hrows
  have hgrown := hframed.grow added
  rw [hadded] at hgrown
  obtain ⟨n, hn, hhigh, hframes⟩ := rows_of_framed hgrown hrule
  refine ⟨⟨n, hn, hhigh, ?_⟩, ?_, ?_⟩
  · rw [hrecords, hframes]
    exact records_rowFrames 0 _
  · rw [onePass_stream, endAt_rowFrames]
    simp
  · rw [onePass_stream]
    exact records_rowFrames 0 rows

/-! ## A concrete row -/

/-- The text `a,"`, a newline and `b`, which is written in quotes. -/
def sampleField : CsvField where
  value := ⟨[97, comma, quote, newline, 98], by decide⟩
  quoted := true
  noReturn := by decide
  plain h := by cases h

/-- A field without a value. -/
def emptyField : CsvField where
  value := Text.empty
  quoted := false
  noReturn := List.not_mem_nil
  plain _ := ⟨List.not_mem_nil, List.not_mem_nil, List.not_mem_nil⟩

def sampleRow : CsvRow where
  fields := sampleField :: List.replicate 23 emptyField
  enough := by decide
  short := by decide +kernel

/-- One row, and the first bytes of another. -/
def sampleLog : LogFile :=
  { dev := 1, inode := 2, bytes := (stream [sampleRow, sampleRow]).take 40 }

def sampleFollower : Follower :=
  Run.finish (Follower.step continues true) (Follower.start sampleLog)
    [.readBatch wholeReads 8 4096, .acknowledge]

theorem rows_framed_and_split_sample :
    sampleFollower.tail.position.offset = (stream [sampleRow]).length ∧
      sampleFollower.acknowledged.map
          (fun record => (record.truncated, record.joined, split record.joined)) =
        [(false, sampleRow.text, sampleRow.values.take minFields)] := by
  obtain ⟨⟨n, hn, hoffset, hrecords⟩, -⟩ :=
    @rows_framed_and_split [sampleRow, sampleRow] sampleLog _ sampleFollower rfl
      (by decide +kernel)
  have hat : sampleFollower.tail.position.offset = 32 := by decide +kernel
  have hlengths : ∀ n ≤ 2, 32 = (stream ([sampleRow, sampleRow].take n)).length → n = 1 := by
    decide +kernel
  obtain rfl := hlengths n hn (hat.symm.trans hoffset)
  exact ⟨hoffset, hrecords⟩

end Csvlog

end Kronika.SourceLog
