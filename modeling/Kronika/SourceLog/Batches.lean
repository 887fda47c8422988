/-
What one batch takes from the file.

The bytes scanned since an offset are complete lines and a line that has not ended,
and the tail holds what the one-pass framing of them leaves open.  A batch that reaches
its record cap stages the line that closed the last record, so the frames it hands out
are always cut where the next line begins one.
-/
import Kronika.SourceLog.OnePass

namespace Kronika.SourceLog

open Format

/-- The bytes from `low` on have been scanned: the frames are closed, and the open record
and the unfinished line are in the tail. -/
structure Reading (continues : Continues) (trackQuotes : Bool) (low : Nat) (seen : Bytes)
    (frames : List OpenRecord) (tail : Tail) : Prop where
  scanOffset : tail.scanOffset = low + seen.length
  staged : tail.staged = none
  lines : ∃ lines rest, Lines.split newline [] seen = (lines, rest) ∧
    Framing.run continues trackQuotes [] (Framing.start low) lines =
      { offset := low + (Lines.join newline lines).length
        closed := frames
        openRecord := tail.openRecord } ∧
    tail.partialLine = PartialLine.new.push rest trackQuotes

/-- The last line scanned is staged: the frames end where it begins. -/
structure Halted (continues : Continues) (trackQuotes : Bool) (low : Nat) (seen : Bytes)
    (frames : List OpenRecord) (tail : Tail) : Prop where
  scanOffset : tail.scanOffset = low + seen.length
  openRecord : tail.openRecord = none
  partialLine : tail.partialLine = PartialLine.new
  lines : ∃ lines text, Lines.split newline [] seen = (lines ++ [text], []) ∧
    (Framing.run continues trackQuotes [] (Framing.start low) lines).frames =
      frames ∧
    (Framing.run continues trackQuotes [] (Framing.start low) lines).EndsAt
      continues trackQuotes (some text) ∧
    tail.staged =
      some (wholeLine trackQuotes (low + (Lines.join newline lines).length) text)

abbrev BatchConfig.Reads (config : BatchConfig) := Reading config.continues config.trackQuotes

abbrev BatchConfig.Halts (config : BatchConfig) := Halted config.continues config.trackQuotes

/-- The records and the candidate end of a batch are those of its frames. -/
structure Counts (frames : List OpenRecord) (scan : Scan) : Prop where
  records : scan.records = frames.filterMap OpenRecord.record
  candidateEnd : scan.candidateEnd = frames.getLast?.map OpenRecord.endAt

/-- What a scan does not touch. -/
structure SamePosition (before after : Tail) : Prop where
  position : after.position = before.position
  pendingEnd : after.pendingEnd = before.pendingEnd

theorem SamePosition.refl (tail : Tail) : SamePosition tail tail := ⟨rfl, rfl⟩

theorem SamePosition.trans {before mid after : Tail} (h : SamePosition before mid)
    (h' : SamePosition mid after) : SamePosition before after :=
  ⟨h'.position.trans h.position, h'.pendingEnd.trans h.pendingEnd⟩

variable {config : BatchConfig} {low : Nat} {seen : Bytes} {frames : List OpenRecord}
  {scan : Scan} {tail : Tail}

theorem flushOpen_spec {openRecord : OpenRecord} (hopen : scan.tail.openRecord = some openRecord)
    (hcounts : Counts frames scan) :
    Counts (frames ++ [openRecord]) scan.flushOpen ∧
      scan.flushOpen.tail = { scan.tail with openRecord := none } := by
  unfold Scan.flushOpen
  rw [hopen]
  refine ⟨⟨?_, ?_⟩, rfl⟩
  · show scan.records ++ openRecord.record.toList = _
    rw [hcounts.records]
    cases h : openRecord.record <;> simp [h]
  · show some openRecord.endAt = _
    rw [List.getLast?_concat]
    rfl

theorem acceptLine_spec (config : BatchConfig) (framing : Framing) (scan : Scan) (text : Bytes)
    {line : PhysicalLine} (hline : line = wholeLine config.trackQuotes framing.offset text)
    (hopen : scan.tail.openRecord = framing.openRecord) (hcounts : Counts framing.closed scan) :
    ((scan.acceptLine config line).stop = false ∧
      (scan.acceptLine config line).tail =
        { scan.tail with
          openRecord := (framing.line config.continues config.trackQuotes [] text).openRecord } ∧
      Counts (framing.line config.continues config.trackQuotes [] text).closed
        (scan.acceptLine config line)) ∨
    ((scan.acceptLine config line).stop = true ∧
      framing.startsNew config.continues config.trackQuotes text = true ∧
      (scan.acceptLine config line).tail =
        { scan.tail with openRecord := none, staged := some line } ∧
      Counts framing.frames (scan.acceptLine config line)) := by
  have hstarts : (scan.tail.openRecord.any fun openRecord => !config.continues openRecord.lines
      (line.text.getD Text.empty) openRecord.quotesOdd) =
      framing.startsNew config.continues config.trackQuotes text := by
    rw [hopen, hline]
    rfl
  unfold Scan.acceptLine
  dsimp only
  rw [hstarts]
  cases h : framing.startsNew config.continues config.trackQuotes text with
  | false =>
    left
    rw [Framing.line_of_continues h]
    refine ⟨rfl, ?_, hcounts.records, hcounts.candidateEnd⟩
    simp [hopen, hline]
  | true =>
    obtain ⟨openRecord, hsome, -⟩ := (Option.any_eq_true _ _).mp h
    have hframes : framing.frames = framing.closed ++ [openRecord] := by
      rw [Framing.frames, hsome]
      rfl
    obtain ⟨hflushed, htail⟩ := flushOpen_spec (hopen.trans hsome) hcounts
    rw [← hframes] at hflushed
    rw [if_pos rfl, Bool.true_and]
    cases hcap : decide (config.maxRecords ≤ scan.flushOpen.records.length) with
    | true =>
      right
      rw [if_pos rfl]
      refine ⟨rfl, rfl, ?_, hflushed.records, hflushed.candidateEnd⟩
      rw [htail]
    | false =>
      left
      rw [Framing.line_of_startsNew h]
      refine ⟨rfl, ?_, hflushed.records, hflushed.candidateEnd⟩
      rw [htail, hline]
      rfl

theorem takeLine_spec {text : Bytes} (htext : newline ∉ text)
    (hreading : config.Reads low seen frames scan.tail) (hcounts : Counts frames scan) :
    SamePosition scan.tail (scan.takeLine config text).tail ∧
      ∃ frames', Counts frames' (scan.takeLine config text) ∧
        (((scan.takeLine config text).stop = false ∧
          config.Reads low (seen ++ (text ++ [newline])) frames' (scan.takeLine config text).tail) ∨
        ((scan.takeLine config text).stop = true ∧
          config.Halts low (seen ++ (text ++ [newline])) frames'
            (scan.takeLine config text).tail)) := by
  obtain ⟨hoffset, hstaged, lines, rest, hsplit, hrun, hunfinished⟩ := hreading
  have hseen : (Lines.join newline lines).length + rest.length = seen.length := by
    have hjoin := congrArg List.length (Lines.join_split newline [] seen)
    rw [hsplit, List.length_append] at hjoin
    exact hjoin
  have hsplit' : Lines.split newline [] (seen ++ (text ++ [newline])) =
      (lines ++ [rest ++ text], []) := by
    rw [Lines.split_append, hsplit, Lines.split_append, Lines.split_of_not_mem htext]
    rfl
  have hline : (scan.tail.partialLine.push text config.trackQuotes).finish
        (scan.tail.scanOffset + (text.length + 1)) =
      wholeLine config.trackQuotes (low + (Lines.join newline lines).length) (rest ++ text) := by
    rw [wholeLine, hunfinished, PartialLine.push_push, List.length_append]
    congr 1
    omega
  have hend : scan.tail.scanOffset + (text.length + 1) =
      low + (seen ++ (text ++ [newline])).length := by
    simp only [List.length_append, List.length_singleton]
    omega
  have haccept := acceptLine_spec config
    { offset := low + (Lines.join newline lines).length
      closed := frames
      openRecord := scan.tail.openRecord }
    { scan with
      tail := { scan.tail with
        scanOffset := scan.tail.scanOffset + (text.length + 1)
        partialLine := PartialLine.new } }
    (rest ++ text) hline rfl ⟨hcounts.records, hcounts.candidateEnd⟩
  rw [← hrun] at haccept
  unfold Scan.takeLine
  rcases haccept with ⟨hstop, htail, hcounts'⟩ | ⟨hstop, hstarts, htail, hcounts'⟩
  · refine ⟨by rw [htail]; exact ⟨rfl, rfl⟩, _, hcounts', Or.inl ⟨hstop, ?_⟩⟩
    rw [htail]
    refine ⟨hend, hstaged, lines ++ [rest ++ text], [], hsplit', ?_, ?_⟩
    · have hnext : (Framing.run config.continues config.trackQuotes [] (Framing.start low)
          (lines ++ [rest ++ text])).offset =
          low + (Lines.join newline (lines ++ [rest ++ text])).length := Framing.run_offset _ _
      rw [← hnext, Framing.run_concat]
    · rw [PartialLine.push_nil]
  · refine ⟨by rw [htail]; exact ⟨rfl, rfl⟩, _, hcounts', Or.inr ⟨hstop, ?_⟩⟩
    rw [htail]
    refine ⟨hend, rfl, rfl, lines, rest ++ text, hsplit', rfl, Or.inr ⟨_, rfl, hstarts⟩, ?_⟩
    rw [hline]

/-- What a scan has taken: it is still reading, or it has halted at its record cap. -/
structure Scanned (config : BatchConfig) (low : Nat) (seen : Bytes) (frames : List OpenRecord)
    (scan : Scan) : Prop where
  counts : Counts frames scan
  state : (scan.stop = false ∧ config.Reads low seen frames scan.tail) ∨
    (scan.stop = true ∧ config.Halts low seen frames scan.tail)

theorem takeLines_spec {lines : List Bytes} (hlines : ∀ line ∈ lines, newline ∉ line)
    (hstop : scan.stop = false) (hscanned : Scanned config low seen frames scan) :
    SamePosition scan.tail (Scan.takeLines config lines scan).tail ∧
      ∃ taken frames', taken <+: lines ∧
        Scanned config low (seen ++ Lines.join newline taken) frames'
          (Scan.takeLines config lines scan) ∧
        ((Scan.takeLines config lines scan).stop = false → taken = lines) := by
  induction lines generalizing scan seen frames with
  | nil =>
    refine ⟨SamePosition.refl _, [], frames, List.prefix_rfl, ?_, fun _ => rfl⟩
    rw [Lines.join, List.flatMap_nil, List.append_nil]
    exact hscanned
  | cons line lines ih =>
    have hreading : config.Reads low seen frames scan.tail := by
      rcases hscanned.state with ⟨-, hreading⟩ | ⟨hstopped, -⟩
      · exact hreading
      · rw [hstop] at hstopped
        cases hstopped
    obtain ⟨hsame, frames', hcounts, htaken⟩ :=
      takeLine_spec (hlines line List.mem_cons_self) hreading hscanned.counts
    have hjoin : ∀ taken : List Bytes, seen ++ (line ++ [newline]) ++ Lines.join newline taken =
        seen ++ Lines.join newline (line :: taken) := by
      intro taken
      rw [Lines.join_cons]
      simp
    rw [Scan.takeLines]
    rcases htaken with ⟨hgoes, hreading'⟩ | ⟨hhalts, hhalted⟩
    · rw [hgoes]
      obtain ⟨hsame', taken, frames'', htaken, hscanned', hall⟩ :=
        ih (fun other hother => hlines other (List.mem_cons_of_mem line hother)) hgoes
          ⟨hcounts, Or.inl ⟨hgoes, hreading'⟩⟩
      refine ⟨hsame.trans hsame', line :: taken, frames'', ?_, ?_, fun h => ?_⟩
      · exact List.cons_prefix_cons.mpr ⟨rfl, htaken⟩
      · rw [← hjoin]
        exact hscanned'
      · rw [hall h]
    · rw [hhalts, if_pos rfl]
      refine ⟨hsame, [line], frames', List.cons_prefix_cons.mpr ⟨rfl, List.nil_prefix⟩,
        ⟨hcounts, Or.inr ⟨hhalts, ?_⟩⟩, fun h => ?_⟩
      · rw [← hjoin, Lines.join, List.flatMap_nil, List.append_nil]
        exact hhalted
      · rw [hhalts] at h
        cases h

theorem takeRest_spec {chunk : Bytes} (hchunk : newline ∉ chunk)
    (hreading : config.Reads low seen frames scan.tail) :
    config.Reads low (seen ++ chunk) frames (scan.takeRest config chunk).tail := by
  obtain ⟨hoffset, hstaged, lines, rest, hsplit, hrun, hunfinished⟩ := hreading
  refine ⟨?_, hstaged, lines, rest ++ chunk, ?_, hrun, ?_⟩
  · show scan.tail.scanOffset + chunk.length = _
    rw [hoffset, List.length_append, Nat.add_assoc]
  · rw [Lines.split_append, hsplit, Lines.split_of_not_mem hchunk, List.append_nil]
  · show scan.tail.partialLine.push chunk config.trackQuotes = _
    rw [hunfinished, PartialLine.push_push]

theorem takeBuffer_spec (buffer : Bytes) (hstop : scan.stop = false)
    (hscanned : Scanned config low seen frames scan) :
    SamePosition scan.tail (Scan.takeBuffer config buffer scan).tail ∧
      ∃ taken frames', taken <+: buffer ∧
        Scanned config low (seen ++ taken) frames' (Scan.takeBuffer config buffer scan) := by
  have hempty : newline ∉ ([] : Bytes) := List.not_mem_nil
  obtain ⟨hlines, hrest⟩ := Lines.sep_not_mem_split hempty buffer
  have hjoin := Lines.join_split newline [] buffer
  unfold Scan.takeBuffer
  rcases hsplit : Lines.split newline [] buffer with ⟨lines, rest⟩
  rw [hsplit] at hlines hrest hjoin
  dsimp only at hlines hrest hjoin ⊢
  rw [List.nil_append] at hjoin
  obtain ⟨hsame, taken, frames', htaken, hscanned', hall⟩ := takeLines_spec hlines hstop hscanned
  obtain ⟨later, rfl⟩ := htaken
  cases hend : (Scan.takeLines config (taken ++ later) scan).stop with
  | true =>
    refine ⟨hsame, Lines.join newline taken, frames', ?_, hscanned'⟩
    rw [← hjoin, Lines.join_append, List.append_assoc]
    exact List.prefix_append _ _
  | false =>
    have hreading : config.Reads low (seen ++ Lines.join newline taken) frames'
        (Scan.takeLines config (taken ++ later) scan).tail := by
      rcases hscanned'.state with ⟨-, hreading⟩ | ⟨hstopped, -⟩
      · exact hreading
      · rw [hend] at hstopped
        cases hstopped
    refine ⟨⟨hsame.position, hsame.pendingEnd⟩, buffer, frames', List.prefix_rfl,
      ⟨⟨hscanned'.counts.records, hscanned'.counts.candidateEnd⟩, Or.inl ⟨hend, ?_⟩⟩⟩
    have hwhole : taken ++ later = taken := (hall hend).symm
    rw [hwhole] at hreading hjoin ⊢
    rw [← hjoin, ← List.append_assoc]
    exact takeRest_spec hrest hreading

theorem readLoop_spec {bytes : Bytes} {reads : List Nat} {scanned : Scan}
    (hscanned : Scanned config low seen frames scan) (hseen : seen <+: bytes.drop low)
    (hread : Scan.readLoop config bytes reads scan = some scanned) :
    SamePosition scan.tail scanned.tail ∧ ∃ seen' frames', seen' <+: bytes.drop low ∧
      Scanned config low seen' frames' scanned := by
  induction reads generalizing scan seen frames with
  | nil =>
    rw [Scan.readLoop] at hread
    split at hread
    · cases hread
      exact ⟨SamePosition.refl _, seen, frames, hseen, hscanned⟩
    · cases hread
  | cons returned reads ih =>
    rw [Scan.readLoop] at hread
    split at hread
    · cases hread
      exact ⟨SamePosition.refl _, seen, frames, hseen, hscanned⟩
    · rename_i hgoes
      simp only [Bool.or_eq_true, not_or, Bool.not_eq_true] at hgoes
      have hstop : scan.stop = false := hgoes.1.1
      dsimp only at hread
      generalize min returned (min (min readBufBytes (config.rawLimit - scan.rawBytes))
        (bytes.length - scan.tail.scanOffset)) = count at hread
      split at hread
      · cases hread
        exact ⟨SamePosition.refl _, seen, frames, hseen, hscanned⟩
      · have hoffset : scan.tail.scanOffset = low + seen.length := by
          rcases hscanned.state with ⟨-, hreading⟩ | ⟨-, hhalted⟩
          · exact hreading.scanOffset
          · exact hhalted.scanOffset
        have hcounted : Scanned config low seen frames
            { scan with rawBytes := scan.rawBytes + count } :=
          ⟨⟨hscanned.counts.records, hscanned.counts.candidateEnd⟩, hscanned.state⟩
        obtain ⟨hsame, taken, frames', htaken, hscanned'⟩ := takeBuffer_spec
          ((bytes.drop scan.tail.scanOffset).take count)
          (show ({ scan with rawBytes := scan.rawBytes + count } : Scan).stop = false from hstop)
          hcounted
        have hseen' : seen ++ taken <+: bytes.drop low := by
          obtain ⟨more, hmore⟩ := hseen
          have hdrop : bytes.drop scan.tail.scanOffset = more := by
            rw [hoffset, ← List.drop_drop, ← hmore, List.drop_left]
          rw [hdrop] at htaken
          rw [← hmore]
          exact (List.prefix_append_right_inj seen).mpr
            (htaken.trans (List.take_prefix count more))
        obtain ⟨hsame', seen', frames'', hseen'', hscanned''⟩ := ih hscanned' hseen' hread
        exact ⟨SamePosition.trans ⟨hsame.position, hsame.pendingEnd⟩ hsame', seen', frames'',
          hseen'', hscanned''⟩

/-! ## Between batches -/

section Between

variable {continues : Continues} {trackQuotes : Bool} {bytes : Bytes}

/-- No record has been closed since `low`. -/
def AtRest (continues : Continues) (trackQuotes : Bool) (low : Nat) (seen : Bytes) (tail : Tail) :
    Prop :=
  Reading continues trackQuotes low seen [] tail ∨ Halted continues trackQuotes low seen [] tail

theorem AtRest.scanOffset (h : AtRest continues trackQuotes low seen tail) :
    tail.scanOffset = low + seen.length := by
  rcases h with hreading | hhalted
  · exact hreading.scanOffset
  · exact hhalted.scanOffset

theorem AtRest.staging (h : AtRest continues trackQuotes low seen tail) (position : Position)
    (pendingEnd : Option Position) :
    AtRest continues trackQuotes low seen
      { tail with position := position, pendingEnd := pendingEnd } := by
  rcases h with ⟨hoffset, hstaged, hlines⟩ | ⟨hoffset, hopen, hunfinished, hlines⟩
  · exact Or.inl ⟨hoffset, hstaged, hlines⟩
  · exact Or.inr ⟨hoffset, hopen, hunfinished, hlines⟩

theorem atRest_nil (hoffset : tail.scanOffset = low)
    (hunfinished : tail.partialLine = PartialLine.new) (hopen : tail.openRecord = none)
    (hstaged : tail.staged = none) : AtRest continues trackQuotes low [] tail := by
  refine Or.inl ⟨hoffset, hstaged, [], [], rfl, ?_, ?_⟩
  · rw [hopen]
    rfl
  · rw [hunfinished, PartialLine.push_nil]

/-- What stands between `low` and a later offset of the file is framed, and nothing has
been closed since. -/
structure Rested (continues : Continues) (trackQuotes : Bool) (flushes : List Nat) (bytes : Bytes)
    (low high : Nat) (frames : List OpenRecord) (tail : Tail) : Prop where
  framed : Framed continues trackQuotes flushes bytes low high frames
  atRest : ∃ seen, seen <+: bytes.drop high ∧ AtRest continues trackQuotes high seen tail

theorem linesFrom_of_prefix {lines : List Bytes} {rest : Bytes} (hseen : seen <+: bytes.drop low)
    (hsplit : Lines.split newline [] seen = (lines, rest)) :
    ∃ extra, linesFrom bytes low = lines ++ extra := by
  obtain ⟨more, hmore⟩ := hseen
  rw [linesFrom, ← hmore, Lines.split_append, hsplit]
  exact ⟨_, rfl⟩

theorem scanned_after {left right : List Bytes} {rest : Bytes} (hseen : seen <+: bytes.drop low)
    (hsplit : Lines.split newline [] seen = (left ++ right, rest)) :
    seen = Lines.join newline left ++ (Lines.join newline right ++ rest) ∧
      Lines.join newline right ++ rest <+: bytes.drop (low + (Lines.join newline left).length) ∧
      Lines.split newline [] (Lines.join newline right ++ rest) = (right, rest) := by
  have hempty : newline ∉ ([] : Bytes) := List.not_mem_nil
  obtain ⟨hlines, hrest⟩ := Lines.sep_not_mem_split hempty seen
  have hjoin := Lines.join_split newline [] seen
  rw [hsplit] at hlines hrest hjoin
  have hsplit' : seen = Lines.join newline left ++ (Lines.join newline right ++ rest) := by
    rw [← List.append_assoc, ← Lines.join_append]
    exact hjoin.symm
  obtain ⟨more, hmore⟩ := hseen
  refine ⟨hsplit', ⟨more, ?_⟩, Lines.split_join
    (fun line hline => hlines line (List.mem_append_right left hline)) hrest⟩
  rw [← List.drop_drop, ← hmore, hsplit', List.append_assoc (Lines.join newline left),
    List.drop_left]

theorem Reading.rested (h : Reading continues trackQuotes low seen frames tail)
    (hlow : low ≤ bytes.length) (hseen : seen <+: bytes.drop low) :
    ∃ high, Rested continues trackQuotes [] bytes low high frames tail := by
  cases frames with
  | nil => exact ⟨low, .refl hlow, seen, hseen, Or.inl h⟩
  | cons first frames =>
    obtain ⟨hoffset, hstaged, lines, rest, hsplit, hrun, hunfinished⟩ := h
    have hclosed :
        (Framing.run continues trackQuotes [] (Framing.start low) lines).closed ≠ [] := by
      rw [hrun]
      exact List.cons_ne_nil _ _
    obtain ⟨left, right, rfl, hframes, hends, -, hrest⟩ := Framing.run_cut low lines hclosed
    obtain ⟨extra, hlines⟩ := linesFrom_of_prefix hseen hsplit
    obtain ⟨hseen', htaken, hsplit'⟩ := scanned_after hseen hsplit
    rw [Framing.run_offset] at hrest
    refine ⟨low + (Lines.join newline left).length, ⟨hlow, left, right ++ extra, ?_, rfl, ?_, ?_⟩,
      _, htaken, Or.inl ⟨?_, hstaged, right, rest, hsplit', ?_, hunfinished⟩⟩
    · rw [hlines, List.append_assoc]
    · rw [hframes, hrun]
    · exact hends.append extra
    · rw [hoffset, hseen', List.length_append, Nat.add_assoc]
    · show Framing.run _ _ _ (Framing.start ((Framing.start low).offset + _)) right = _
      rw [hrest, hrun, Lines.join_append, List.length_append, ← Nat.add_assoc]
      rfl

theorem Halted.rested (h : Halted continues trackQuotes low seen frames tail)
    (hlow : low ≤ bytes.length) (hseen : seen <+: bytes.drop low) :
    ∃ high, Rested continues trackQuotes [] bytes low high frames tail := by
  obtain ⟨hoffset, hopen, hunfinished, lines, text, hsplit, hframes, hends, hstaged⟩ := h
  obtain ⟨extra, hlines⟩ := linesFrom_of_prefix hseen hsplit
  obtain ⟨hseen', htaken, hsplit'⟩ := scanned_after hseen hsplit
  refine ⟨low + (Lines.join newline lines).length,
    ⟨hlow, lines, text :: extra, ?_, rfl, hframes, hends⟩, _, htaken,
    Or.inr ⟨?_, hopen, hunfinished, [], text, hsplit', rfl, Or.inl rfl, hstaged⟩⟩
  · rw [hlines, List.append_assoc]
    rfl
  · rw [hoffset, hseen', List.length_append, Nat.add_assoc]

theorem Reading.flushed (h : Reading continues trackQuotes low seen frames tail)
    (hlow : low ≤ bytes.length) (hseen : seen <+: bytes.drop low) {openRecord : OpenRecord}
    (hopen : tail.openRecord = some openRecord) (hempty : tail.partialLine.isEmpty = true)
    (hend : bytes.length ≤ tail.scanOffset) :
    Rested continues trackQuotes [bytes.length] bytes low bytes.length (frames ++ [openRecord])
      { tail with openRecord := none } := by
  obtain ⟨hoffset, hstaged, lines, rest, hsplit, hrun, hunfinished⟩ := h
  rw [hunfinished, PartialLine.isEmpty_push_new, List.isEmpty_iff] at hempty
  subst hempty
  have hlength : low + seen.length = bytes.length := by
    have hle := hseen.length_le
    rw [List.length_drop] at hle
    omega
  have hjoin : (Lines.join newline lines).length = seen.length := by
    have heq := Lines.join_split newline [] seen
    rw [hsplit, List.append_nil, List.nil_append] at heq
    rw [heq]
  obtain ⟨extra, hlines⟩ := linesFrom_of_prefix hseen hsplit
  rcases List.eq_nil_or_concat lines with rfl | ⟨init, last, rfl⟩
  · have hnone := congrArg Framing.openRecord hrun
    rw [hopen] at hnone
    cases hnone
  · rw [List.concat_eq_append] at hrun hjoin hlines
    have hhigh : bytes.length = low + (Lines.join newline (init ++ [last])).length := by
      rw [hjoin, hlength]
    have hflush := Framing.run_flush continues trackQuotes low init last
    rw [← hhigh, hrun] at hflush
    refine ⟨⟨hlow, init ++ [last], extra, hlines, hhigh, ?_, Or.inl ?_⟩, [], List.nil_prefix,
      atRest_nil ?_ ?_ rfl hstaged⟩
    · rw [hflush, Framing.frames_close, hopen]
      rfl
    · rw [hflush]
      rfl
    · show tail.scanOffset = _
      rw [hoffset, hlength]
    · show tail.partialLine = _
      rw [hunfinished, PartialLine.push_nil]

/-- A batch of the bytes between the position and `high`: its frames are closed there, by
a later line or by the flush at the end of the file. -/
structure Batched (continues : Continues) (trackQuotes : Bool) (bytes : Bytes) (high : Nat)
    (flushes : List Nat) (frames : List OpenRecord) (before : Tail) (batch : TailBatch)
    (after : Tail) : Prop where
  rested : Rested continues trackQuotes flushes bytes before.position.offset high frames after
  atEnd : flushes ⊆ [bytes.length]
  within : ∀ flush ∈ flushes, before.position.offset < flush ∧ flush ≤ high
  flushed : ∀ frame ∈ frames, frame.endAt ∈ flushes →
    continues frame.lines Text.empty frame.quotesOdd = false
  records : batch.records = frames.filterMap OpenRecord.record
  position : after.position = before.position
  pendingEnd : after.pendingEnd =
    if frames = [] then none else some { before.position with offset := high }
  needsAck : batch.needsAck = after.pendingEnd.isSome

theorem takeStaged_spec (config : BatchConfig) (scan : Scan)
    (hrest : AtRest config.continues config.trackQuotes low seen scan.tail)
    (hcounts : Counts [] scan) :
    SamePosition scan.tail (scan.takeStaged config).tail ∧ Counts [] (scan.takeStaged config) ∧
      config.Reads low seen [] (scan.takeStaged config).tail := by
  unfold Scan.takeStaged
  rcases hrest with hreading |
    ⟨hoffset, hopen, hunfinished, lines, text, hsplit, hframes, -, hstaged⟩
  · rw [hreading.staged]
    exact ⟨SamePosition.refl _, hcounts, hreading⟩
  · have hlines : lines = [] := by
      rcases List.eq_nil_or_concat lines with hnil | ⟨init, last, hconcat⟩
      · exact hnil
      · obtain ⟨frame, hlast, -⟩ := Framing.last_frame config.continues config.trackQuotes []
          (Framing.start low) init last
        rw [List.concat_eq_append] at hconcat
        rw [← hconcat, hframes] at hlast
        cases hlast
    subst hlines
    have hline : wholeLine config.trackQuotes (low + (Lines.join newline []).length) text =
        wholeLine config.trackQuotes (Framing.start low).offset text := rfl
    have haccept := acceptLine_spec config (Framing.start low)
      { scan with tail := { scan.tail with staged := none } } text hline hopen
      ⟨hcounts.records, hcounts.candidateEnd⟩
    rw [hstaged]
    rcases haccept with ⟨-, htail, hcounts'⟩ | ⟨-, hstarts, -, -⟩
    · rw [htail]
      refine ⟨⟨rfl, rfl⟩, hcounts', hoffset, rfl, [text], [], hsplit, ?_, ?_⟩
      · have hrun : (Framing.run config.continues config.trackQuotes [] (Framing.start low)
            [text]).offset = low + (Lines.join newline [text]).length := Framing.run_offset _ _
        rw [← hrun]
        rfl
      · rw [PartialLine.push_nil]
        exact hunfinished
    · cases hstarts

/-- The flush at the end of the file closes the open record, and otherwise the frames stay
cut where a line closed the last of them. -/
theorem flushAtEof_spec (hscanned : Scanned config low seen frames scan)
    (hlow : low ≤ bytes.length) (hseen : seen <+: bytes.drop low) :
    SamePosition scan.tail (scan.flushAtEof config bytes.length).tail ∧
      ∃ high flushes frames', Counts frames' (scan.flushAtEof config bytes.length) ∧
        flushes ⊆ [bytes.length] ∧ (∀ flush ∈ flushes, low < flush ∧ flush ≤ high) ∧
        (∀ frame ∈ frames', frame.endAt ∈ flushes →
          config.continues frame.lines Text.empty frame.quotesOdd = false) ∧
        Rested config.continues config.trackQuotes flushes bytes low high frames'
          (scan.flushAtEof config bytes.length).tail := by
  unfold Scan.flushAtEof
  split
  · rename_i hflush
    simp only [Bool.and_eq_true, decide_eq_true_eq, Option.isNone_iff_eq_none] at hflush
    obtain ⟨⟨⟨⟨hend, -⟩, hstaged⟩, hempty⟩, hany⟩ := hflush
    obtain ⟨openRecord, hopen, hrule⟩ := (Option.any_eq_true _ _).mp hany
    have hreading : config.Reads low seen frames scan.tail := by
      rcases hscanned.state with ⟨-, hreading⟩ | ⟨-, hhalted⟩
      · exact hreading
      · obtain ⟨-, -, -, lines, text, -, -, -, hsome⟩ := hhalted
        rw [hstaged] at hsome
        cases hsome
    obtain ⟨hcounts, htail⟩ := flushOpen_spec hopen hscanned.counts
    rw [htail]
    have hrested := hreading.flushed hlow hseen hopen hempty hend
    have hlast := hrested.framed.bounds openRecord (by simp)
    refine ⟨⟨rfl, rfl⟩, bytes.length, [bytes.length], frames ++ [openRecord], hcounts,
      List.Subset.refl _, fun flush hflush => ?_, fun frame hframe hat => ?_, hrested⟩
    · rw [List.mem_singleton.mp hflush]
      exact ⟨hlast.1.trans_le hlast.2, le_rfl⟩
    rcases List.mem_append.mp hframe with hclosed | hlast
    · -- A frame that a line closed ends before the line.
      exfalso
      obtain ⟨-, -, lines, rest, hsplit, hrun, -⟩ := hreading
      have hwithin : (Framing.run config.continues config.trackQuotes [] (Framing.start low)
          lines).Within low := Framing.within_run low lines
      have hjoin := congrArg List.length (Lines.join_split newline [] seen)
      rw [hsplit, List.length_append, List.nil_append] at hjoin
      have hle := hseen.length_le
      rw [List.length_drop] at hle
      rw [hrun] at hwithin
      have hbefore := hwithin.before (by rw [hopen]; exact Option.some_ne_none _) frame hclosed
      rw [List.mem_singleton.mp hat] at hbefore
      dsimp only at hbefore hjoin
      omega
    · rw [List.mem_singleton.mp hlast]
      simpa using hrule
  · have hrested : ∃ high, Rested config.continues config.trackQuotes [] bytes low high frames
        scan.tail := by
      rcases hscanned.state with ⟨-, hreading⟩ | ⟨-, hhalted⟩
      · exact hreading.rested hlow hseen
      · exact hhalted.rested hlow hseen
    obtain ⟨high, hrested⟩ := hrested
    exact ⟨SamePosition.refl _, high, [], frames, hscanned.counts, List.nil_subset _,
      fun _ hflush => absurd hflush List.not_mem_nil, fun _ _ hat => absurd hat List.not_mem_nil,
      hrested⟩

theorem finish_pendingEnd (size : Nat) {high : Nat} (hcounts : Counts frames scan)
    (hpending : scan.tail.pendingEnd = none)
    (hhigh : high = (frames.getLast?.map OpenRecord.endAt).getD low) :
    (scan.finish size).2.pendingEnd =
      if frames = [] then none else some { scan.tail.position with offset := high } := by
  unfold Scan.finish
  rw [hcounts.candidateEnd]
  rcases List.eq_nil_or_concat frames with rfl | ⟨init, last, rfl⟩
  · exact hpending
  · rw [List.concat_eq_append, List.getLast?_concat] at *
    rw [if_neg (by simp), hhigh]
    rfl

theorem scan_spec {reads : List Nat} {after : Tail} {batch : TailBatch}
    (hrest : AtRest config.continues config.trackQuotes tail.position.offset seen tail)
    (hlow : tail.position.offset ≤ bytes.length) (hseen : seen <+: bytes.drop tail.position.offset)
    (hpending : tail.pendingEnd = none) (h : tail.scan config bytes reads = some (batch, after)) :
    ∃ high flushes frames, Batched config.continues config.trackQuotes bytes high flushes frames
      tail batch after := by
  unfold Tail.scan at h
  obtain ⟨hsame, hcounts, hreads⟩ := takeStaged_spec config
    { tail := tail, records := [], candidateEnd := none, rawBytes := 0, stop := false }
    hrest ⟨rfl, rfl⟩
  dsimp only at h hsame hcounts hreads
  generalize Scan.takeStaged config _ = resumed at h hsame hcounts hreads
  have hstop : (!resumed.records.isEmpty && decide (config.maxRecords ≤ resumed.records.length)) =
      false := by
    rw [hcounts.records]
    rfl
  rw [hstop] at h
  split at h
  · cases h
  · next scanned hread =>
    have hgoes : Scanned config tail.position.offset seen [] { resumed with stop := false } :=
      ⟨⟨hcounts.records, hcounts.candidateEnd⟩, Or.inl ⟨rfl, hreads⟩⟩
    obtain ⟨hsame', seen', frames, hseen', hscanned⟩ := readLoop_spec hgoes hseen hread
    obtain ⟨hsame'', high, flushes, frames', hcounts', hflushes, hwithin, hrule, hrested⟩ :=
      flushAtEof_spec hscanned hlow hseen'
    have hposition : SamePosition tail (scanned.flushAtEof config bytes.length).tail :=
      (hsame.trans hsame').trans hsame''
    have hpending' : (scanned.flushAtEof config bytes.length).tail.pendingEnd = none :=
      hposition.pendingEnd.trans hpending
    have hend := finish_pendingEnd bytes.length hcounts' hpending' hrested.framed.high_eq
    have hfinish : (scanned.flushAtEof config bytes.length).finish bytes.length = (batch, after) :=
      Option.some.inj h
    obtain ⟨seen'', hseen'', hatRest⟩ := hrested.atRest
    obtain ⟨rfl, rfl⟩ := Prod.mk.inj hfinish
    exact ⟨high, flushes, frames', ⟨hrested.framed, seen'', hseen'', hatRest.staging _ _⟩, hflushes,
      hwithin, hrule, hcounts'.records, hposition.position, hposition.position ▸ hend, rfl⟩

end Between

end Kronika.SourceLog
