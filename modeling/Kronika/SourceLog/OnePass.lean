/-
Framing of a text in one pass.

The lines of the text in order: a line that does not continue the open record closes
it, and the open record is also closed at the offsets of `flushes`.  What a text is
framed to is the frames closed on the way and the record that is open at its end.
Two facts carry every result about batches: closing a record where the next line
closes it anyway changes nothing (`line_close`), and a framing whose record has been
closed goes on like a new one (`run_close`).
-/
import Kronika.SourceLog.Tail
import Mathlib.Data.List.Induction

namespace Kronika.SourceLog

open Format

structure Framing where
  offset : Nat
  closed : List OpenRecord
  openRecord : Option OpenRecord

def wholeLine (trackQuotes : Bool) (offset : Nat) (line : Bytes) : PhysicalLine :=
  (PartialLine.new.push line trackQuotes).finish (offset + (line.length + 1))

namespace Framing

def start (offset : Nat) : Framing := { offset := offset, closed := [], openRecord := none }

def frames (framing : Framing) : List OpenRecord := framing.closed ++ framing.openRecord.toList

def close (framing : Framing) : Framing :=
  { framing with closed := framing.frames, openRecord := none }

/-- Whether the line closes the open record. -/
def startsNew (continues : Continues) (trackQuotes : Bool) (framing : Framing) (line : Bytes) :
    Bool :=
  framing.openRecord.any fun openRecord =>
    !continues openRecord.lines
      ((wholeLine trackQuotes framing.offset line).text.getD Text.empty) openRecord.quotesOdd

def line (continues : Continues) (trackQuotes : Bool) (flushes : List Nat) (framing : Framing)
    (line : Bytes) : Framing :=
  let before := if framing.startsNew continues trackQuotes line then framing.close else framing
  let physical := wholeLine trackQuotes framing.offset line
  let after : Framing :=
    { offset := framing.offset + (line.length + 1)
      closed := before.closed
      openRecord := some ((before.openRecord.getD OpenRecord.new).push physical) }
  if flushes.contains after.offset then after.close else after

def run (continues : Continues) (trackQuotes : Bool) (flushes : List Nat) (framing : Framing)
    (lines : List Bytes) : Framing :=
  lines.foldl (Framing.line continues trackQuotes flushes) framing

def unclosed (framing : Framing) : Framing := { framing with closed := [] }

def after (earlier : List OpenRecord) (framing : Framing) : Framing :=
  { framing with closed := earlier ++ framing.closed }

end Framing

def onePass (continues : Continues) (trackQuotes : Bool) (flushes : List Nat) (text : Bytes) :
    List OpenRecord :=
  (Framing.run continues trackQuotes flushes (Framing.start 0)
    (Lines.split newline [] text).1).frames

/-! ## Rules of the framing -/

theorem finish_endAt (line : PartialLine) (endAt : Nat) : (line.finish endAt).endAt = endAt := by
  unfold PartialLine.finish
  dsimp only
  split <;> rfl

theorem push_endAt (openRecord : OpenRecord) (line : PhysicalLine) :
    (openRecord.push line).endAt = line.endAt := by
  unfold OpenRecord.push
  cases line.text with
  | none => rfl
  | some text =>
    dsimp only
    split <;> split <;> rfl

theorem wholeLine_endAt (trackQuotes : Bool) (offset : Nat) (line : Bytes) :
    (wholeLine trackQuotes offset line).endAt = offset + (line.length + 1) :=
  finish_endAt _ _

variable {framing : Framing}

namespace Framing

variable {continues : Continues} {trackQuotes : Bool} {flushes : List Nat}

@[simp] theorem frames_close (framing : Framing) : framing.close.frames = framing.frames :=
  List.append_nil _

theorem frames_after (earlier : List OpenRecord) (framing : Framing) :
    (framing.after earlier).frames = earlier ++ framing.frames :=
  List.append_assoc _ _ _

theorem close_of_none (h : framing.openRecord = none) : framing.close = framing := by
  cases framing with
  | mk offset closed openRecord =>
    obtain rfl : openRecord = none := h
    show (⟨offset, closed ++ [], none⟩ : Framing) = _
    rw [List.append_nil]

theorem run_append (framing : Framing) (left right : List Bytes) :
    run continues trackQuotes flushes framing (left ++ right) =
      run continues trackQuotes flushes (run continues trackQuotes flushes framing left) right :=
  List.foldl_append

theorem run_concat (framing : Framing) (lines : List Bytes) (last : Bytes) :
    run continues trackQuotes flushes framing (lines ++ [last]) =
      (run continues trackQuotes flushes framing lines).line continues trackQuotes flushes last :=
  run_append framing lines [last]

theorem line_offset (framing : Framing) (text : Bytes) :
    (framing.line continues trackQuotes flushes text).offset =
      framing.offset + (text.length + 1) := by
  unfold line
  dsimp only
  split <;> rfl

theorem run_offset (framing : Framing) (lines : List Bytes) :
    (run continues trackQuotes flushes framing lines).offset =
      framing.offset + (Lines.join newline lines).length := by
  induction lines using List.reverseRecOn with
  | nil => rfl
  | append_singleton lines last ih =>
    rw [run_concat, line_offset, ih, Lines.join_append, List.length_append,
      Lines.length_join_cons, Nat.add_assoc]
    rfl

theorem startsNew_after (earlier : List OpenRecord) (framing : Framing) (text : Bytes) :
    (framing.after earlier).startsNew continues trackQuotes text =
      framing.startsNew continues trackQuotes text := rfl

theorem line_after (earlier : List OpenRecord) (framing : Framing) (text : Bytes) :
    (framing.after earlier).line continues trackQuotes flushes text =
      (framing.line continues trackQuotes flushes text).after earlier := by
  unfold line
  rw [startsNew_after]
  by_cases hflush : framing.offset + (text.length + 1) ∈ flushes <;>
    cases framing.startsNew continues trackQuotes text <;>
    simp [after, close, frames, hflush]

theorem run_after (earlier : List OpenRecord) (framing : Framing) (lines : List Bytes) :
    run continues trackQuotes flushes (framing.after earlier) lines =
      (run continues trackQuotes flushes framing lines).after earlier := by
  induction lines generalizing framing with
  | nil => rfl
  | cons text lines ih =>
    show run continues trackQuotes flushes
      (Framing.line continues trackQuotes flushes (framing.after earlier) text) lines = _
    rw [line_after, ih]
    rfl

theorem run_close (framing : Framing) (lines : List Bytes) :
    run continues trackQuotes flushes framing.close lines =
      (run continues trackQuotes flushes (start framing.offset) lines).after framing.frames := by
  rw [← run_after]
  have hclose : framing.close = (start framing.offset).after framing.frames := by
    show (⟨framing.offset, framing.frames, none⟩ : Framing) =
      ⟨framing.offset, framing.frames ++ [], none⟩
    rw [List.append_nil]
  rw [hclose]

/-- Whether the open record, if there is one, ends where the line begins. -/
def EndsAt (continues : Continues) (trackQuotes : Bool) (framing : Framing) (next : Option Bytes) :
    Prop :=
  framing.openRecord = none ∨ ∃ text, next = some text ∧
    framing.startsNew continues trackQuotes text = true

variable {text : Bytes}

theorem line_close (h : framing.EndsAt continues trackQuotes (some text)) :
    framing.close.line continues trackQuotes flushes text =
      framing.line continues trackQuotes flushes text := by
  rcases h with hnone | ⟨other, hother, hstarts⟩
  · rw [close_of_none hnone]
  · cases hother
    unfold line
    rw [hstarts]
    rfl

theorem run_of_endsAt (h : framing.EndsAt continues trackQuotes (some text)) (lines : List Bytes) :
    run continues trackQuotes flushes framing (text :: lines) =
      (run continues trackQuotes flushes (start framing.offset) (text :: lines)).after
        framing.frames := by
  rw [← run_close]
  show run _ _ _ (framing.line continues trackQuotes flushes text) lines =
    run _ _ _ (framing.close.line continues trackQuotes flushes text) lines
  rw [line_close h]

theorem run_congr {other : List Nat} (framing : Framing) (lines : List Bytes)
    (h : ∀ offset, framing.offset < offset →
      offset ≤ framing.offset + (Lines.join newline lines).length →
        (offset ∈ flushes ↔ offset ∈ other)) :
    run continues trackQuotes flushes framing lines =
      run continues trackQuotes other framing lines := by
  induction lines generalizing framing with
  | nil => rfl
  | cons text lines ih =>
    have hjoin := Lines.length_join_cons newline text lines
    have hline : framing.line continues trackQuotes flushes text =
        framing.line continues trackQuotes other text := by
      have hsame := h (framing.offset + (text.length + 1)) (by omega) (by omega)
      unfold line
      simp only [List.contains_iff_mem, hsame]
    show run _ _ _ (framing.line continues trackQuotes flushes text) lines =
      run _ _ _ (framing.line continues trackQuotes other text) lines
    rw [← hline]
    refine ih _ fun offset hlow hhigh => ?_
    rw [line_offset] at hlow hhigh
    exact h offset (by omega) (by omega)

/-! ## Where frames end -/

/-- Every frame ends after `low` and by the offset, the open one at the offset, and the
closed ones before it. -/
structure Within (low : Nat) (framing : Framing) : Prop where
  closed : ∀ frame ∈ framing.closed, low < frame.endAt ∧ frame.endAt ≤ framing.offset
  openRecord : ∀ frame, framing.openRecord = some frame →
    low < framing.offset ∧ frame.endAt = framing.offset
  before : framing.openRecord ≠ none → ∀ frame ∈ framing.closed, frame.endAt < framing.offset
  low_le : low ≤ framing.offset

variable {low : Nat}

theorem Within.close (h : framing.Within low) : framing.close.Within low where
  closed frame hframe := by
    rcases List.mem_append.mp hframe with hclosed | hopen
    · exact h.closed frame hclosed
    · obtain ⟨hlow, hend⟩ := h.openRecord frame (Option.mem_toList.mp hopen)
      rw [hend]
      exact ⟨hlow, le_rfl⟩
  openRecord frame hframe := by cases hframe
  before hopen := absurd rfl hopen
  low_le := h.low_le

theorem Within.line (h : framing.Within low) (text : Bytes) :
    (framing.line continues trackQuotes flushes text).Within low := by
  have hbefore : ∀ before : Framing, before = framing.close ∨ before = framing →
      before.Within low ∧ before.offset = framing.offset := by
    rintro before (rfl | rfl)
    · exact ⟨h.close, rfl⟩
    · exact ⟨h, rfl⟩
  unfold Framing.line
  dsimp only
  obtain ⟨hwithin, hoffset⟩ := hbefore
    (if framing.startsNew continues trackQuotes text then framing.close else framing)
    (by split <;> simp)
  generalize (if framing.startsNew continues trackQuotes text then framing.close else framing)
    = before at *
  have hafter : Within low
      { offset := framing.offset + (text.length + 1)
        closed := before.closed
        openRecord := some ((before.openRecord.getD OpenRecord.new).push
          (wholeLine trackQuotes framing.offset text)) } := by
    have hlow := h.low_le
    refine ⟨fun frame hframe => ?_, fun frame hframe => ?_, fun _ frame hframe => ?_, ?_⟩
    · obtain ⟨hleft, hright⟩ := hwithin.closed frame hframe
      dsimp only
      exact ⟨hleft, by omega⟩
    · cases hframe
      dsimp only
      rw [push_endAt, wholeLine_endAt]
      exact ⟨by omega, rfl⟩
    · obtain ⟨hleft, hright⟩ := hwithin.closed frame hframe
      dsimp only
      omega
    · dsimp only
      omega
  split
  · exact hafter.close
  · exact hafter

theorem within_run (low : Nat) (lines : List Bytes) :
    (run continues trackQuotes flushes (start low) lines).Within low := by
  induction lines using List.reverseRecOn with
  | nil =>
    exact ⟨fun _ h => absurd h List.not_mem_nil, fun _ h => (by cases h), fun h => absurd rfl h,
      le_rfl⟩
  | append_singleton lines last ih =>
    rw [run_concat]
    exact ih.line last

theorem Within.frames (h : framing.Within low) :
    ∀ frame ∈ framing.frames, low < frame.endAt ∧ frame.endAt ≤ framing.offset :=
  h.close.closed

theorem frames_line (continues : Continues) (trackQuotes : Bool) (flushes : List Nat)
    (framing : Framing) (text : Bytes) :
    ∃ earlier openRecord, (framing.line continues trackQuotes flushes text).frames =
      earlier ++ [OpenRecord.push openRecord (wholeLine trackQuotes framing.offset text)] := by
  unfold Framing.line
  dsimp only
  split
  · exact ⟨_, _, frames_close _⟩
  · exact ⟨_, _, rfl⟩

theorem last_frame (continues : Continues) (trackQuotes : Bool) (flushes : List Nat)
    (framing : Framing) (lines : List Bytes) (last : Bytes) :
    ∃ frame, (run continues trackQuotes flushes framing (lines ++ [last])).frames.getLast? =
        some frame ∧
      frame.endAt = (run continues trackQuotes flushes framing (lines ++ [last])).offset := by
  rw [run_concat, line_offset]
  obtain ⟨earlier, openRecord, hframes⟩ := frames_line continues trackQuotes flushes
    (run continues trackQuotes flushes framing lines) last
  rw [hframes]
  exact ⟨_, List.getLast?_concat, (push_endAt _ _).trans (wholeLine_endAt _ _ _)⟩

/-! ## Cutting a text where a record ends -/

theorem line_of_startsNew (h : framing.startsNew continues trackQuotes text = true) :
    framing.line continues trackQuotes [] text =
      { offset := framing.offset + (text.length + 1)
        closed := framing.frames
        openRecord := some (OpenRecord.new.push (wholeLine trackQuotes framing.offset text)) } := by
  unfold Framing.line
  rw [h]
  rfl

theorem line_of_continues (h : framing.startsNew continues trackQuotes text = false) :
    framing.line continues trackQuotes [] text =
      { offset := framing.offset + (text.length + 1)
        closed := framing.closed
        openRecord := some ((framing.openRecord.getD OpenRecord.new).push
          (wholeLine trackQuotes framing.offset text)) } := by
  unfold Framing.line
  rw [h]
  rfl

/-- A text that closed a record is cut where the last closed one ends: the lines before
the cut frame to the closed records, and those after it have closed none. -/
theorem run_cut (low : Nat) (lines : List Bytes)
    (h : (run continues trackQuotes [] (start low) lines).closed ≠ []) :
    ∃ left right, lines = left ++ right ∧
      (run continues trackQuotes [] (start low) left).frames =
        (run continues trackQuotes [] (start low) lines).closed ∧
      (run continues trackQuotes [] (start low) left).EndsAt continues trackQuotes right.head? ∧
      right ≠ [] ∧
      run continues trackQuotes []
          (start (run continues trackQuotes [] (start low) left).offset) right =
        (run continues trackQuotes [] (start low) lines).unclosed := by
  induction lines using List.reverseRecOn with
  | nil => exact absurd rfl h
  | append_singleton lines last ih =>
    rw [run_concat] at h ⊢
    cases hstarts :
      (run continues trackQuotes [] (start low) lines).startsNew continues trackQuotes last with
    | true =>
      refine ⟨lines, [last], rfl, ?_, Or.inr ⟨last, rfl, hstarts⟩, List.cons_ne_nil _ _, ?_⟩
      · rw [line_of_startsNew hstarts]
      · rw [line_of_startsNew hstarts]
        rfl
    | false =>
      rw [line_of_continues hstarts] at h ⊢
      obtain ⟨left, right, rfl, hframes, hends, hright, hrest⟩ := ih h
      refine ⟨left, right ++ [last], List.append_assoc _ _ _, hframes, ?_, by simp, ?_⟩
      · rw [List.head?_append_of_ne_nil _ hright]
        exact hends
      · have hunclosed :
            (run continues trackQuotes [] (start low) (left ++ right)).unclosed.startsNew
              continues trackQuotes last = false := hstarts
        rw [run_concat, hrest, line_of_continues hunclosed]
        rfl

theorem run_flush (continues : Continues) (trackQuotes : Bool) (low : Nat) (lines : List Bytes)
    (last : Bytes) :
    run continues trackQuotes [low + (Lines.join newline (lines ++ [last])).length] (start low)
        (lines ++ [last]) =
      (run continues trackQuotes [] (start low) (lines ++ [last])).close := by
  have hjoin : (Lines.join newline (lines ++ [last])).length =
      (Lines.join newline lines).length + (last.length + 1) := by
    rw [Lines.join_append, List.length_append, Lines.length_join_cons]
    rfl
  generalize hstop : low + (Lines.join newline (lines ++ [last])).length = stop
  have hsame : run continues trackQuotes [stop] (start low) lines =
      run continues trackQuotes [] (start low) lines := by
    refine run_congr _ _ fun offset hlow hhigh => ?_
    have hne : offset ≠ stop := by
      have hstart : (start low).offset = low := rfl
      omega
    simp [hne]
  have hoffset : (run continues trackQuotes [] (start low) lines).offset + (last.length + 1) =
      stop := by
    rw [run_offset, ← hstop, hjoin, Nat.add_assoc]
    rfl
  rw [run_concat, run_concat, hsame]
  unfold Framing.line
  rw [hoffset]
  simp

end Framing

/-! ## Stretches of a file -/

def linesFrom (bytes : Bytes) (offset : Nat) : List Bytes :=
  (Lines.split newline [] (bytes.drop offset)).1

/-- The bytes between two offsets are complete lines that frame to the records, the last
of which ends there in every framing of the file that has the flushes. -/
structure Framed (continues : Continues) (trackQuotes : Bool) (flushes : List Nat)
    (bytes : Bytes) (low high : Nat) (frames : List OpenRecord) : Prop where
  low_le : low ≤ bytes.length
  framed : ∃ lines later, linesFrom bytes low = lines ++ later ∧
    high = low + (Lines.join newline lines).length ∧
    (Framing.run continues trackQuotes flushes (Framing.start low) lines).frames = frames ∧
    (Framing.run continues trackQuotes flushes (Framing.start low) lines).EndsAt continues
      trackQuotes later.head?

section Stretches

variable {continues : Continues} {trackQuotes : Bool} {flushes : List Nat} {bytes : Bytes}
  {low mid high : Nat} {frames more : List OpenRecord}

theorem linesFrom_eq (bytes : Bytes) (offset : Nat) :
    ∃ rest, bytes.drop offset = Lines.join newline (linesFrom bytes offset) ++ rest ∧
      (∀ line ∈ linesFrom bytes offset, newline ∉ line) ∧ newline ∉ rest := by
  have hempty : newline ∉ ([] : Bytes) := List.not_mem_nil
  obtain ⟨hlines, hrest⟩ := Lines.sep_not_mem_split hempty (bytes.drop offset)
  exact ⟨_, (Lines.join_split newline [] (bytes.drop offset)).symm, hlines, hrest⟩

theorem linesFrom_add {lines later : List Bytes} (h : linesFrom bytes low = lines ++ later) :
    linesFrom bytes (low + (Lines.join newline lines).length) = later := by
  obtain ⟨rest, hdrop, hlines, hrest⟩ := linesFrom_eq bytes low
  have hlater : ∀ line ∈ later, newline ∉ line := fun line hline =>
    hlines line (by rw [h]; exact List.mem_append_right lines hline)
  rw [linesFrom, ← List.drop_drop, hdrop, h, Lines.join_append, List.append_assoc,
    List.drop_left, Lines.split_join hlater hrest]

theorem linesFrom_append (h : low ≤ bytes.length) (added : Bytes) :
    ∃ extra, linesFrom (bytes ++ added) low = linesFrom bytes low ++ extra := by
  rw [linesFrom, List.drop_append_of_le_length h, Lines.split_append]
  exact ⟨_, rfl⟩

theorem join_length_le {lines later : List Bytes} (hlow : low ≤ bytes.length)
    (h : linesFrom bytes low = lines ++ later) :
    low + (Lines.join newline lines).length ≤ bytes.length := by
  obtain ⟨rest, hdrop, -, -⟩ := linesFrom_eq bytes low
  have hlength := congrArg List.length hdrop
  rw [h, Lines.join_append, List.length_append, List.length_append, List.length_drop] at hlength
  omega

theorem Framing.EndsAt.append {later : List Bytes}
    (h : framing.EndsAt continues trackQuotes later.head?) (extra : List Bytes) :
    framing.EndsAt continues trackQuotes (later ++ extra).head? := by
  rcases h with hnone | ⟨text, hhead, hstarts⟩
  · exact Or.inl hnone
  · refine Or.inr ⟨text, ?_, hstarts⟩
    rw [List.head?_append, hhead]
    rfl

theorem Framed.refl (h : low ≤ bytes.length) :
    Framed continues trackQuotes flushes bytes low low [] :=
  ⟨h, [], linesFrom bytes low, rfl, rfl, rfl, Or.inl rfl⟩

theorem Framed.high_le (h : Framed continues trackQuotes flushes bytes low high frames) :
    high ≤ bytes.length := by
  obtain ⟨hlow, lines, later, hlines, rfl, -, -⟩ := h
  exact join_length_le hlow hlines

theorem Framed.low_le_high (h : Framed continues trackQuotes flushes bytes low high frames) :
    low ≤ high := by
  obtain ⟨-, lines, later, -, rfl, -, -⟩ := h
  exact Nat.le_add_right _ _

theorem Framed.grow (h : Framed continues trackQuotes flushes bytes low high frames)
    (added : Bytes) : Framed continues trackQuotes flushes (bytes ++ added) low high frames := by
  obtain ⟨hlow, lines, later, hlines, hhigh, hframes, hends⟩ := h
  obtain ⟨extra, hextra⟩ := linesFrom_append hlow added
  refine ⟨by rw [List.length_append]; omega, lines, later ++ extra, ?_, hhigh, hframes,
    hends.append extra⟩
  rw [hextra, hlines, List.append_assoc]

theorem Framed.bounds (h : Framed continues trackQuotes flushes bytes low high frames) :
    ∀ frame ∈ frames, low < frame.endAt ∧ frame.endAt ≤ high := by
  obtain ⟨-, lines, later, -, rfl, rfl, -⟩ := h
  intro frame hframe
  have hbounds := (Framing.within_run low lines).frames frame hframe
  rw [Framing.run_offset] at hbounds
  exact hbounds

theorem Framed.high_eq (h : Framed continues trackQuotes flushes bytes low high frames) :
    high = (frames.getLast?.map OpenRecord.endAt).getD low := by
  obtain ⟨-, lines, later, -, hhigh, rfl, -⟩ := h
  rcases List.eq_nil_or_concat lines with rfl | ⟨init, last, rfl⟩
  · exact hhigh
  · obtain ⟨frame, hlast, hend⟩ :=
      Framing.last_frame continues trackQuotes flushes (Framing.start low) init last
    rw [List.concat_eq_append] at hhigh ⊢
    rw [hlast, hhigh]
    show _ = frame.endAt
    rw [hend, Framing.run_offset]
    rfl

theorem Framed.congr (h : Framed continues trackQuotes flushes bytes low high frames)
    {other : List Nat}
    (hsame : ∀ offset, low < offset → offset ≤ high → (offset ∈ flushes ↔ offset ∈ other)) :
    Framed continues trackQuotes other bytes low high frames := by
  obtain ⟨hlow, lines, later, hlines, rfl, hframes, hends⟩ := h
  have hrun : Framing.run continues trackQuotes flushes (Framing.start low) lines =
      Framing.run continues trackQuotes other (Framing.start low) lines :=
    Framing.run_congr (Framing.start low) lines hsame
  rw [hrun] at hframes hends
  exact ⟨hlow, lines, later, hlines, rfl, hframes, hends⟩

theorem Framed.trans (h : Framed continues trackQuotes flushes bytes low mid frames)
    (h' : Framed continues trackQuotes flushes bytes mid high more) :
    Framed continues trackQuotes flushes bytes low high (frames ++ more) := by
  obtain ⟨hlow, lines, later, hlines, rfl, rfl, hends⟩ := h
  obtain ⟨-, lines', later', hlines', rfl, rfl, hends'⟩ := h'
  rw [linesFrom_add hlines] at hlines'
  subst hlines'
  refine ⟨hlow, lines ++ lines', later', ?_, ?_, ?_, ?_⟩
  · rw [hlines, List.append_assoc]
  · rw [Lines.join_append, List.length_append]
    omega
  · rw [Framing.run_append]
    cases lines' with
    | nil => exact (List.append_nil _).symm
    | cons text lines' =>
      rw [Framing.run_of_endsAt hends, Framing.frames_after, Framing.run_offset]
      rfl
  · rw [Framing.run_append]
    cases lines' with
    | nil => exact hends
    | cons text lines' =>
      rw [Framing.run_of_endsAt hends, Framing.run_offset]
      exact hends'

theorem Framed.onePass (h : Framed continues trackQuotes flushes bytes 0 high frames) :
    onePass continues trackQuotes flushes (bytes.take high) = frames ∧
      ∃ later, SourceLog.onePass continues trackQuotes flushes bytes = frames ++ later := by
  obtain ⟨-, lines, later, hlines, rfl, rfl, hends⟩ := h
  obtain ⟨rest, hdrop, hclean, -⟩ := linesFrom_eq bytes 0
  rw [hlines] at hdrop hclean
  refine ⟨?_, ?_⟩
  · have htake : bytes.take (0 + (Lines.join newline lines).length) =
        Lines.join newline lines ++ [] := by
      rw [List.drop_zero, Lines.join_append, List.append_assoc] at hdrop
      rw [hdrop, Nat.zero_add, List.take_left, List.append_nil]
    have hempty : newline ∉ ([] : Bytes) := List.not_mem_nil
    rw [SourceLog.onePass, htake, Lines.split_join
      (fun line hline => hclean line (List.mem_append_left later hline)) hempty]
  · have hsplit : (Lines.split newline [] bytes).1 = lines ++ later := hlines
    rw [SourceLog.onePass, hsplit, Framing.run_append]
    cases later with
    | nil => exact ⟨[], (List.append_nil _).symm⟩
    | cons text later =>
      rw [Framing.run_of_endsAt hends, Framing.frames_after]
      exact ⟨_, rfl⟩

end Stretches

end Kronika.SourceLog
