/-
Dictionary completeness of the journal.

Every id of a data row has a dictionary record in the row's part or in an earlier
part of the segment.  The invariant behind it: an id that the interner counts as
flushed has a record in a part of the journal, and an id that it has answered is
flushed or still in the window, which the next part carries.
-/
import Kronika.Collector.Delivery
import Kronika.Dictionary.Membership

namespace Kronika.Collector

open Format Writer

variable {Row : Type} {codec : SectionCodec Row} {hashes : Hashes} {crc32c : Checksum}
  {journalConfig : JournalConfig} {config : Config} {grown : Bool}
  {held : List (ValidPart crc32c)} {before mid after : Storage} {id : SegmentId} {body : Bytes}

/-! ## Complete segments -/

/-- Every id of a row has a record in the row's part or in an earlier one. -/
def Complete (codec : SectionCodec Row) (crc32c : Checksum) (bodies : List Bytes) : Prop :=
  ∀ front body back, bodies = front ++ body :: back → ∀ row ∈ partRows codec crc32c body,
    ∀ strId ∈ codec.ids row, ∃ earlier ∈ front ++ [body],
      strId.raw ∈ partRecords codec crc32c earlier

theorem complete_nil : Complete codec crc32c [] := by
  intro front body back h
  cases front <;> cases h

theorem Complete.concat {bodies : List Bytes} (h : Complete codec crc32c bodies)
    (hlast : ∀ row ∈ partRows codec crc32c body, ∀ strId ∈ codec.ids row,
      ∃ earlier ∈ bodies ++ [body], strId.raw ∈ partRecords codec crc32c earlier) :
    Complete codec crc32c (bodies ++ [body]) := by
  intro front other back hsplit
  rcases List.eq_nil_or_concat back with rfl | ⟨init, last, rfl⟩
  · obtain ⟨rfl, heq⟩ := List.append_inj' hsplit rfl
    cases heq
    exact hlast
  · have hsplit' : bodies ++ [body] = (front ++ other :: init) ++ [last] := by
      rw [hsplit]
      simp
    exact h front other init (List.append_inj' hsplit' rfl).1

/-! ## The rows that the sources build -/

/-- A row holds only ids that the interner of the open segment has answered. -/
def Sourced (hashes : Hashes) (codec : SectionCodec Row) :
    SegmentState → List (CollectStep Row) → Prop
  | _, [] => True
  | segment, .intern kind bytes :: steps =>
    Sourced hashes codec (internStep hashes segment kind bytes) steps
  | segment, .push row :: steps =>
    (∀ strId ∈ codec.ids row, strId ∈ segment.answered) ∧ Sourced hashes codec segment steps

def Answers (segment : SegmentState) : Prop :=
  ∀ strId ∈ segment.answered, segment.interner.Present strId

theorem internStep_keeps (hashes : Hashes) (segment : SegmentState) (kind : Kind) (bytes : Bytes) :
    Interner.KeepsIds segment.interner (internStep hashes segment kind bytes).interner ∧
      (∀ strId ∈ segment.answered, strId ∈ (internStep hashes segment kind bytes).answered) ∧
      (Answers segment → Answers (internStep hashes segment kind bytes)) := by
  obtain ⟨hkeeps, hanswer⟩ := Interner.call_keeps hashes segment.interner kind bytes
  unfold internStep
  rcases hcall : segment.interner.call hashes kind bytes with ⟨_ | answer, interner⟩
  · rw [hcall] at hkeeps
    exact ⟨hkeeps, fun _ h => h, fun h strId hid => hkeeps.present (h strId hid)⟩
  · rw [hcall] at hkeeps hanswer
    refine ⟨hkeeps, fun _ h => List.mem_cons_of_mem _ h, fun h strId hid => ?_⟩
    rcases List.mem_cons.mp hid with rfl | hold
    · exact hanswer answer rfl
    · exact hkeeps.present (h strId hold)

theorem collect_sourced (steps : List (CollectStep Row)) (segment : SegmentState)
    (buffers : SectionBuffers codec) (hanswers : Answers segment)
    (hsourced : Sourced hashes codec segment steps)
    (hrows : ∀ row ∈ buffers.rows, ∀ strId ∈ codec.ids row, strId ∈ segment.answered) :
    Interner.KeepsIds segment.interner (collect hashes segment buffers steps).2.interner ∧
      Answers (collect hashes segment buffers steps).2 ∧
      ∀ filled, (collect hashes segment buffers steps).1 = some filled →
        ∀ row ∈ filled.rows, ∀ strId ∈ codec.ids row,
          strId ∈ (collect hashes segment buffers steps).2.answered := by
  induction steps generalizing segment buffers with
  | nil =>
    refine ⟨Interner.KeepsIds.refl _, hanswers, fun filled h => ?_⟩
    rw [← Option.some.inj h]
    exact hrows
  | cons step steps ih =>
    cases step with
    | intern kind bytes =>
      obtain ⟨hkeeps, hmore, hknown⟩ := internStep_keeps hashes segment kind bytes
      obtain ⟨hrest, hlast, hfilled⟩ := ih (internStep hashes segment kind bytes) buffers
        (hknown hanswers) hsourced
        fun row hrow strId hid => hmore strId (hrows row hrow strId hid)
      exact ⟨hkeeps.trans hrest, hlast, hfilled⟩
    | push row =>
      rw [collect]
      cases hpush : buffers.push row with
      | none => exact ⟨Interner.KeepsIds.refl _, hanswers, fun filled h => by cases h⟩
      | some later =>
        refine ih segment later hanswers hsourced.2 fun other hother => ?_
        rcases List.mem_cons.mp ((SectionBuffers.rows_push hpush).mem_iff.mp hother) with rfl | hold
        · exact hsourced.1
        · exact hrows other hold

/-! ## The invariant -/

/-- The invariant of the collector's storage. -/
structure Covered (codec : SectionCodec Row) (crc32c : Checksum) (journalConfig : JournalConfig)
    (held : List (ValidPart crc32c)) (storage : Storage) : Prop where
  kept : ∃ grown, Kept crc32c journalConfig storage.journal grown held
  complete : Complete codec crc32c (held.map ValidPart.bytes)
  recorded : ∀ strId : StrId, storage.segment.interner.flushed[strId]? ≠ none →
    ∃ body ∈ held.map ValidPart.bytes, strId.raw ∈ partRecords codec crc32c body
  answers : Answers storage.segment
  closed : ∀ segment ∈ storage.closed, Complete codec crc32c segment.2

def Consistent (codec : SectionCodec Row) (crc32c : Checksum) (journalConfig : JournalConfig)
    (storage : Storage) : Prop :=
  ∃ held, Covered codec crc32c journalConfig held storage

theorem answers_withSealSeed (seed : Nat) : Answers (SegmentState.withSealSeed seed) :=
  fun _ hid => absurd hid List.not_mem_nil

theorem flushed_withSealSeed (seed : Nat) (strId : StrId) :
    (SegmentState.withSealSeed seed).interner.flushed[strId]? = none :=
  Std.TreeMap.getElem?_emptyc

theorem Covered.collected (h : Covered codec crc32c journalConfig held before)
    {segment : SegmentState} (hkeeps : Interner.KeepsIds before.segment.interner segment.interner)
    (hanswers : Answers segment) :
    Covered codec crc32c journalConfig held { before with segment := segment } where
  kept := h.kept
  complete := h.complete
  recorded strId hid := h.recorded strId ((hkeeps.flushed strId).mp hid)
  answers := hanswers
  closed := h.closed

theorem Covered.same (h : Covered codec crc32c journalConfig held before)
    (hsame : SameParts crc32c journalConfig grown held before after) :
    Covered codec crc32c journalConfig held after where
  kept := ⟨grown, hsame.kept⟩
  complete := h.complete
  recorded strId hid := by
    rcases hsame.segment with heq | heq
    · rw [heq] at hid
      exact h.recorded strId hid
    · rw [heq] at hid
      exact absurd rfl hid
  answers := by
    rcases hsame.segment with heq | heq
    · rw [heq]
      exact h.answers
    · rw [heq]
      exact answers_withSealSeed _
  closed := by
    rw [hsame.closed]
    exact h.closed

theorem Covered.closes (h : Covered codec crc32c journalConfig held before)
    (hcloses : Closes crc32c journalConfig grown before after id) :
    Covered codec crc32c journalConfig [] after where
  kept := ⟨grown, hcloses.kept⟩
  complete := complete_nil
  recorded strId hid := by
    rw [hcloses.segment] at hid
    exact absurd rfl hid
  answers := by
    rw [hcloses.segment]
    exact answers_withSealSeed _
  closed := by
    obtain ⟨_, hkept⟩ := h.kept
    intro segment hsegment
    rw [hcloses.closed] at hsegment
    rcases List.mem_append.mp hsegment with hold | hnew
    · exact h.closed segment hold
    · rw [List.mem_singleton.mp hnew]
      show Complete codec crc32c before.journal.bodies
      rw [hkept.bodies hcloses.healthy]
      exact h.complete

/-- An appended part records the window it was encoded with, so that the ids of its rows
and of the flushed entries are recorded. -/
theorem Covered.appends (h : Covered codec crc32c journalConfig held before)
    (happends : Appends hashes crc32c journalConfig held before after id body)
    {buffers : SectionBuffers codec}
    (hencode : encodeWindow crc32c buffers before.segment.interner = .ok body)
    (hrows : ∀ row ∈ buffers.rows, ∀ strId ∈ codec.ids row, strId ∈ before.segment.answered) :
    ∃ valid : ValidPart crc32c, valid.bytes = body ∧
      Covered codec crc32c journalConfig (held ++ [valid]) after := by
  obtain ⟨valid, rfl, hkept⟩ := happends.kept
  obtain ⟨hsame, hrecords⟩ := happends.contents hencode
  have hbodies : (held ++ [valid]).map ValidPart.bytes =
      held.map ValidPart.bytes ++ [valid.bytes] := List.map_append
  have hknown : ∀ strId : StrId, before.segment.interner.Present strId →
      ∃ body ∈ held.map ValidPart.bytes ++ [valid.bytes],
        strId.raw ∈ partRecords codec crc32c body := by
    intro strId hid
    rcases hid with hwindow | hflushed
    · obtain ⟨stored, hstored⟩ := Option.ne_none_iff_exists'.mp hwindow
      refine ⟨valid.bytes, List.mem_append_right _ (List.mem_singleton.mpr rfl), ?_⟩
      exact hrecords (SegmentDicts.snapshot strId stored) (List.mem_map.mpr
        ⟨(strId, stored), Std.TreeMap.mem_toList_iff_getElem?_eq_some.mpr hstored, rfl⟩)
    · obtain ⟨earlier, hmem, hrecord⟩ := h.recorded strId hflushed
      exact ⟨earlier, List.mem_append_left _ hmem, hrecord⟩
  refine ⟨valid, rfl, ⟨⟨true, hkept⟩, ?_, fun strId hid => ?_, fun strId hid => ?_, ?_⟩⟩
  · rw [hbodies]
    exact h.complete.concat fun row hrow strId hid =>
      hknown strId (h.answers strId (hrows row (hsame.mem_iff.mp hrow) strId hid))
  · rw [happends.interner, Interner.flushed_afterFlush] at hid
    rw [hbodies]
    exact hknown strId hid
  · rw [happends.answered] at hid
    rw [happends.interner]
    exact Or.inr ((Interner.flushed_afterFlush hashes _ strId).mpr (h.answers strId hid))
  · rw [happends.closed]
    exact h.closed

theorem validPart_ext {a b : ValidPart crc32c} (h : a.bytes = b.bytes) : a = b := by
  cases a with
  | mk bytes catalog valid short =>
    cases b with
    | mk bytes' catalog' valid' short' =>
      obtain rfl : bytes = bytes' := h
      rw [valid] at valid'
      cases valid'
      rfl

theorem Covered.admission (h : Covered codec crc32c journalConfig held before)
    {buffers : SectionBuffers codec} {ts : Int64}
    {result : Except AppendWindowError (List (SegmentId × CloseReason))}
    (hencode : encodeWindow crc32c buffers before.segment.interner = .ok body)
    (hrows : ∀ row ∈ buffers.rows, ∀ strId ∈ codec.ids row, strId ∈ before.segment.answered)
    (hadmission : Admission hashes crc32c journalConfig grown held before ts body result after) :
    Consistent codec crc32c journalConfig after := by
  cases hadmission with
  | refused same _ => exact ⟨held, h.same same⟩
  | full closes => exact ⟨[], h.closes closes⟩
  | fullNotClosed same => exact ⟨held, h.same same⟩
  | appended _ appends =>
    obtain ⟨valid, -, hafter⟩ := h.appends appends hencode hrows
    exact ⟨_, hafter⟩
  | appendedClosed _ appends closes _ =>
    obtain ⟨valid, -, hmid⟩ := h.appends appends hencode hrows
    exact ⟨[], hmid.closes closes⟩
  | appendedNotClosed _ appends hvalid same =>
    obtain ⟨valid, hbytes, hmid⟩ := h.appends appends hencode hrows
    rw [validPart_ext (hvalid.trans hbytes.symm)] at same
    exact ⟨_, hmid.same same⟩
  | appendedNoClock _ appends _ =>
    obtain ⟨valid, -, hafter⟩ := h.appends appends hencode hrows
    exact ⟨_, hafter⟩

/-! ## Runs -/

/-- An event of the collector: a window, one attempt of a streamed batch, or a close. -/
inductive Event (Row : Type) where
  | window (window : Window Row)
  | portion (ts : Int64) (forced : Bool) (attempt : Attempt Row)
  | close (io : CloseIo)

def step (hashes : Hashes) (codec : SectionCodec Row) (crc32c : Checksum) (config : Config)
    (storage : Storage) : Event Row → Storage
  | .window window => (appendWindow hashes codec crc32c config storage window).2
  | .portion ts forced attempt =>
    (appendPortion hashes codec crc32c config storage ts forced attempt).2
  | .close io => (closeOpenSegment crc32c io storage).2

/-- The rows of an event hold only ids answered since their segment began; the second
attempt of a window begins with the dictionary of a new segment. -/
def Event.Sourced (hashes : Hashes) (codec : SectionCodec Row) (storage : Storage) :
    Event Row → Prop
  | .window given =>
    Collector.Sourced hashes codec storage.segment given.first.collected.steps ∧
      Collector.Sourced hashes codec (SegmentState.withSealSeed storage.segment.sealSeed)
        given.second.collected.steps
  | .portion _ _ attempt =>
    Collector.Sourced hashes codec storage.segment attempt.collected.steps
  | .close _ => True

theorem bufferWindow_eq_rows {segment later : SegmentState} {collected : Collected Row}
    {buffers : SectionBuffers codec}
    (h : bufferWindow hashes codec segment collected = (.rows buffers, later)) :
    (collect hashes segment (SectionBuffers.new : SectionBuffers codec) collected.steps).1 =
      some buffers := by
  unfold bufferWindow at h
  rcases hcollect : collect hashes segment (SectionBuffers.new : SectionBuffers codec)
    collected.steps with ⟨_ | filled, last⟩
  · rw [hcollect] at h
    cases h
  · rw [hcollect] at h
    dsimp only at h
    split at h
    · cases h
    · split at h
      · cases h
      · cases h
        rfl

theorem Covered.attemptWindow (h : Covered codec crc32c journalConfig held before)
    (attempt : Attempt Row) (hsourced : Sourced hashes codec before.segment attempt.collected.steps)
    (config : Config) (ts : Int64) (written : List (SegmentId × CloseReason)) :
    Consistent codec crc32c journalConfig
      (attemptWindow hashes codec crc32c config before ts written attempt).2 := by
  obtain ⟨hkeeps, hanswers, hrows⟩ := collect_sourced attempt.collected.steps before.segment
    (SectionBuffers.new : SectionBuffers codec) h.answers hsourced
    fun row hrow => absurd hrow List.not_mem_nil
  rw [← bufferWindow_snd] at hkeeps hanswers hrows
  unfold Collector.attemptWindow
  rcases hbuffer : bufferWindow hashes codec before.segment attempt.collected with
    ⟨buffered, segment⟩
  rw [hbuffer] at hkeeps hanswers hrows
  have hcollected := h.collected hkeeps hanswers
  cases buffered with
  | failed =>
    dsimp only
    split <;> exact ⟨held, hcollected⟩
  | empty => exact ⟨held, hcollected⟩
  | rows buffers =>
    have hfilled := hrows buffers (bufferWindow_eq_rows hbuffer)
    dsimp only
    cases hencode : encodeWindow crc32c buffers segment.interner with
    | error problem =>
      dsimp only
      split <;> exact ⟨held, hcollected⟩
    | ok body =>
      obtain ⟨grown, hkept⟩ := hcollected.kept
      have hadmission := appendWindowAndMaybeClose_admission hkept hashes config attempt.io ts
        false body
      dsimp only
      unfold appendEncoded
      rcases happend : appendWindowAndMaybeClose hashes crc32c config attempt.io
        { before with segment := segment } ts false body with ⟨result, after⟩
      rw [happend] at hadmission
      have hafter := hcollected.admission hencode hfilled hadmission
      cases result with
      | ok finished =>
        dsimp only
        split <;> exact hafter
      | error failure =>
        cases failure with
        | close problem => exact hafter
        | other problem =>
          dsimp only
          split <;> exact hafter

theorem Covered.appendWindow (h : Covered codec crc32c journalConfig held before)
    {window : Window Row} (config : Config)
    (hsourced : (Event.window window).Sourced hashes codec before) :
    Consistent codec crc32c journalConfig
      (appendWindow hashes codec crc32c config before window).2 := by
  obtain ⟨_, hkept⟩ := h.kept
  have hfirst := h.attemptWindow window.first hsourced.1 config window.ts []
  have houtcome := attemptWindow_outcome hkept hashes codec config window.ts [] window.first
  unfold Collector.appendWindow
  rcases hattempt : Collector.attemptWindow hashes codec crc32c config before window.ts []
    window.first with ⟨attempted, mid⟩
  rw [hattempt] at hfirst houtcome
  cases attempted with
  | done result => exact hfirst
  | retry written =>
    obtain ⟨_, hmid⟩ := hfirst
    have hfresh : mid.segment = SegmentState.withSealSeed before.segment.sealSeed := by
      cases houtcome with
      | retry _ _ segment => exact segment
    have hsecond := hmid.attemptWindow window.second (by
      rw [hfresh]
      exact hsourced.2) config window.ts written
    dsimp only
    rcases hlater : Collector.attemptWindow hashes codec crc32c config mid window.ts written
      window.second with ⟨_ | _, after⟩
    · rw [hlater] at hsecond
      exact hsecond
    · rw [hlater] at hsecond
      exact hsecond

theorem Covered.appendPortion (h : Covered codec crc32c journalConfig held before)
    {attempt : Attempt Row} (hsourced : Sourced hashes codec before.segment attempt.collected.steps)
    (config : Config) (ts : Int64) (forced : Bool) :
    Consistent codec crc32c journalConfig
      (appendPortion hashes codec crc32c config before ts forced attempt).2 := by
  obtain ⟨hkeeps, hanswers, hrows⟩ := collect_sourced attempt.collected.steps before.segment
    (SectionBuffers.new : SectionBuffers codec) h.answers hsourced
    fun row hrow => absurd hrow List.not_mem_nil
  unfold Collector.appendPortion
  rcases hcollect : collect hashes before.segment (SectionBuffers.new : SectionBuffers codec)
    attempt.collected.steps with ⟨_ | buffers, segment⟩
  · rw [hcollect] at hkeeps hanswers
    exact ⟨held, h.collected hkeeps hanswers⟩
  · rw [hcollect] at hkeeps hanswers hrows
    have hcollected := h.collected hkeeps hanswers
    dsimp only
    split
    · exact ⟨held, hcollected⟩
    · cases hencode : encodeWindow crc32c buffers segment.interner with
      | error problem => exact ⟨held, hcollected⟩
      | ok body =>
        obtain ⟨grown, hkept⟩ := hcollected.kept
        have hadmission := appendWindowAndMaybeClose_admission hkept hashes config attempt.io ts
          forced body
        dsimp only
        rcases happend : appendWindowAndMaybeClose hashes crc32c config attempt.io
          { before with segment := segment } ts forced body with ⟨_ | _, after⟩
        · rw [happend] at hadmission
          exact hcollected.admission hencode (hrows buffers rfl) hadmission
        · rw [happend] at hadmission
          exact hcollected.admission hencode (hrows buffers rfl) hadmission

theorem Consistent.step (h : Consistent codec crc32c journalConfig before)
    (config : Config) (event : Event Row) (hsourced : event.Sourced hashes codec before) :
    Consistent codec crc32c journalConfig
      (step hashes codec crc32c config before event) := by
  obtain ⟨held, hcovered⟩ := h
  cases event with
  | window window => exact hcovered.appendWindow config hsourced
  | portion ts forced attempt => exact hcovered.appendPortion hsourced config ts forced
  | close io =>
    obtain ⟨grown, hkept⟩ := hcovered.kept
    rcases closeOpenSegment_cases hkept io with ⟨_, _, hsame⟩ | ⟨_, _, hcloses⟩
    · exact ⟨held, hcovered.same hsame⟩
    · exact ⟨[], hcovered.closes hcloses⟩

theorem Consistent.run (config : Config) {events : List (Event Row)}
    (h : Consistent codec crc32c journalConfig before)
    (hsourced : Run.Along (fun storage event => Event.Sourced hashes codec storage event)
      (Collector.step hashes codec crc32c config) before events) :
    Consistent codec crc32c journalConfig
      (Run.finish (Collector.step hashes codec crc32c config) before events) :=
  Run.invariant (fun _ event _ hstorage hevent => hstorage.step config event hevent) h hsourced

def opened (journal : Journal) (seed : Nat) : Storage :=
  { journal := journal, segment := SegmentState.withSealSeed seed, closed := [] }

theorem covered_opened {journal : Journal} (h : Reaches crc32c journalConfig journal grown)
    (hempty : journal.parts = []) (codec : SectionCodec Row) (seed : Nat) :
    Covered codec crc32c journalConfig [] (opened journal seed) := by
  obtain ⟨held, hkept⟩ := h.kept
  have hnil : held = [] := by
    have hlocated : (locate journalHeaderLen held).map Prod.fst = [] :=
      hkept.repaired.refs.symm.trans hempty
    have hlength := congrArg List.length hlocated
    rw [List.length_map, length_locate] at hlength
    exact List.eq_nil_of_length_eq_zero hlength
  subst hnil
  refine ⟨⟨grown, hkept⟩, complete_nil, fun strId hid => ?_, answers_withSealSeed seed, ?_⟩
  · exact absurd (flushed_withSealSeed seed strId) hid
  · exact fun segment hsegment => absurd hsegment List.not_mem_nil

/-- Over every run of the collector, the segments it has closed and the parts it has
appended to the journal are complete, whatever fails on the way. -/
theorem journal_dictionary_complete (hashes : Hashes) (codec : SectionCodec Row)
    (config : Config) {journal : Journal} (hopened : Reaches crc32c journalConfig journal grown)
    (hempty : journal.parts = []) (seed : Nat) (events : List (Event Row))
    (hsourced : Run.Along (fun storage event => Event.Sourced hashes codec storage event)
      (step hashes codec crc32c config) (opened journal seed) events) :
    (∀ segment ∈ (Run.finish (step hashes codec crc32c config) (opened journal seed)
        events).closed, Complete codec crc32c segment.2) ∧
      ∃ held : List (ValidPart crc32c),
        (Run.finish (step hashes codec crc32c config) (opened journal seed)
          events).journal.parts = (locate journalHeaderLen held).map Prod.fst ∧
        ((Run.finish (step hashes codec crc32c config) (opened journal seed)
            events).journal.poisoned = false →
          (Run.finish (step hashes codec crc32c config) (opened journal seed)
            events).journal.bodies = held.map ValidPart.bytes) ∧
        Complete codec crc32c (held.map ValidPart.bytes) := by
  obtain ⟨held, hcovered⟩ := Consistent.run config
    ⟨[], covered_opened hopened hempty codec seed⟩ hsourced
  obtain ⟨_, hkept⟩ := hcovered.kept
  exact ⟨hcovered.closed, held, hkept.repaired.refs, hkept.bodies, hcovered.complete⟩

/-! ## A concrete run -/

def planId : StrId := (StrId.fromRaw 198643258655125820).get (by decide)

/-- A row that refers to `plan`. -/
def planAttempt : Attempt (Option StrId) :=
  { plainAttempt .done true with
    collected := { steps := [.intern .intern planBytes, .push (some planId)], failed := false } }

/-- Two windows with the same string, which only the first part records. -/
def planRun : List (Event (Option StrId)) :=
  [.window { ts := 1, first := planAttempt, second := planAttempt },
    .window { ts := 2, first := planAttempt, second := planAttempt }]

theorem planAttempt_sourced {segment : SegmentState}
    (h : planId ∈ (internStep knownHashes segment .intern planBytes).answered) :
    Sourced knownHashes sampleCodec segment planAttempt.collected.steps := by
  refine ⟨fun strId hid => ?_, trivial⟩
  rw [show strId = planId from List.mem_singleton.mp hid]
  exact h

theorem journal_dictionary_complete_planRun :
    (∃ held : List (ValidPart castagnoli),
      (Run.finish (step knownHashes sampleCodec castagnoli (hourly 1000))
          (opened (Journal.fresh castagnoli .default) 0) planRun).journal.bodies =
        held.map ValidPart.bytes ∧
      Complete sampleCodec castagnoli (held.map ValidPart.bytes)) ∧
    (Run.finish (step knownHashes sampleCodec castagnoli (hourly 1000))
          (opened (Journal.fresh castagnoli .default) 0) planRun).journal.bodies.map
        (fun body =>
          (partRows sampleCodec castagnoli body, partRecords sampleCodec castagnoli body)) =
      [([some planId], [planId.raw]), ([some planId], [])] := by
  refine ⟨?_, by decide +kernel⟩
  have hfresh : Reaches castagnoli .default (Journal.fresh castagnoli .default) false :=
    .opened (open_create rfl)
  have hsourced : Run.Along
      (fun storage event => Event.Sourced knownHashes sampleCodec storage event)
      (step knownHashes sampleCodec castagnoli (hourly 1000))
      (opened (Journal.fresh castagnoli .default) 0) planRun :=
    ⟨⟨planAttempt_sourced (by decide +kernel), planAttempt_sourced (by decide +kernel)⟩,
      ⟨planAttempt_sourced (by decide +kernel), planAttempt_sourced (by decide +kernel)⟩, trivial⟩
  obtain ⟨-, held, -, hbodies, hcomplete⟩ := journal_dictionary_complete knownHashes sampleCodec
    (hourly 1000) hfresh rfl 0 planRun hsourced
  exact ⟨held, hbodies (by decide +kernel), hcomplete⟩

end Kronika.Collector
