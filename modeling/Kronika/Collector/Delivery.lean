/-
The delivery of a window: all or nothing, and at most once.

The parts of the storage are those of the closed segments and those of the journal.
An accepted window adds one of them; a window that is not accepted adds none, unless
a rollback failed and poisoned the journal.
-/
import Kronika.Collector.Transitions

namespace Kronika.Collector

open Format Writer

variable {Row : Type} {codec : SectionCodec Row} {hashes : Hashes} {crc32c : Checksum}
  {journalConfig : JournalConfig} {config : Config} {grown : Bool}
  {held : List (ValidPart crc32c)} {before mid after : Storage} {id : SegmentId} {body : Bytes}

/-! ## Parts -/

def Storage.parts (storage : Storage) : List (Option SegmentId × Bytes) :=
  (storage.closed.flatMap fun segment => segment.2.map fun body => (some segment.1, body)) ++
    storage.journal.bodies.map fun body => (storage.journal.segmentId, body)

theorem bodies_of_no_parts {journal : Journal} (h : journal.parts = []) : journal.bodies = [] := by
  rw [Journal.bodies, h]
  rfl

theorem Closes.parts (h : Closes crc32c journalConfig grown before after id) :
    after.parts = before.parts := by
  rw [Storage.parts, Storage.parts, h.closed, bodies_of_no_parts h.empty, List.flatMap_append,
    List.flatMap_singleton, h.identity, List.map_nil, List.append_nil]

theorem SameParts.parts (h : SameParts crc32c journalConfig grown held before after) :
    after.parts = before.parts ∨ after.journal.poisoned = true := by
  rcases h.journal with heq | hpoisoned
  · left
    rw [Storage.parts, Storage.parts, heq, h.closed]
  · exact Or.inr hpoisoned

theorem Appends.healthy (h : Appends hashes crc32c journalConfig held before after id body) :
    after.journal.poisoned = false := by
  rw [h.journal]
  exact (checkAppend_ok h.check).1

theorem Appends.parts (hkept : Kept crc32c journalConfig before.journal grown held)
    (h : Appends hashes crc32c journalConfig held before after id body) :
    after.parts = before.parts ++ [(some id, body)] := by
  obtain ⟨hhealthy, howner, -⟩ := checkAppend_ok h.check
  obtain ⟨valid, hvalid, hafter⟩ := h.kept
  have hbefore := hkept.bodies hhealthy
  have hbodies : after.journal.bodies = before.journal.bodies ++ [body] := by
    rw [hafter.bodies h.healthy, hbefore, List.map_append, ← hvalid]
    rfl
  have hidentity : after.journal.segmentId = some id := by
    rw [h.journal]
    rfl
  have htag : (before.journal.bodies.map fun body => (before.journal.segmentId, body)) =
      before.journal.bodies.map fun body => (some id, body) := by
    cases hsegment : before.journal.segmentId with
    | none =>
      have hnil := (hkept.clean hhealthy).identity.mp hsegment
      rw [hbefore, hnil]
      rfl
    | some owner => rw [howner owner hsegment]
  rw [Storage.parts, Storage.parts, h.closed, hbodies, hidentity, List.map_append, htag,
    List.append_assoc]
  rfl

/-! ## The rows of an attempt -/

def CollectStep.row? : CollectStep Row → Option Row
  | intern _ _ => none
  | push row => some row

def Collected.rows (collected : Collected Row) : List Row :=
  collected.steps.filterMap CollectStep.row?

@[simp] theorem internStep_firstId (segment : SegmentState) (kind : Kind) (bytes : Bytes) :
    (internStep hashes segment kind bytes).firstId = segment.firstId := by
  unfold internStep
  rcases segment.interner.call hashes kind bytes with ⟨_ | _, _⟩ <;> rfl

@[simp] theorem internStep_sealSeed (segment : SegmentState) (kind : Kind) (bytes : Bytes) :
    (internStep hashes segment kind bytes).sealSeed = segment.sealSeed := by
  unfold internStep
  rcases segment.interner.call hashes kind bytes with ⟨_ | _, _⟩ <;> rfl

theorem collect_segment (hashes : Hashes) (steps : List (CollectStep Row)) (segment : SegmentState)
    (buffers : SectionBuffers codec) :
    (collect hashes segment buffers steps).2.firstId = segment.firstId ∧
      (collect hashes segment buffers steps).2.sealSeed = segment.sealSeed := by
  induction steps generalizing segment buffers with
  | nil => exact ⟨rfl, rfl⟩
  | cons step steps ih =>
    cases step with
    | intern kind bytes =>
      have htail := ih (internStep hashes segment kind bytes) buffers
      rw [internStep_firstId, internStep_sealSeed] at htail
      exact htail
    | push row =>
      rw [collect]
      cases hpush : buffers.push row with
      | none => exact ⟨rfl, rfl⟩
      | some later => exact ih segment later

theorem collect_rows (steps : List (CollectStep Row)) (segment : SegmentState)
    (buffers : SectionBuffers codec) {filled : SectionBuffers codec}
    (h : (collect hashes segment buffers steps).1 = some filled) :
    filled.rows.Perm (steps.filterMap CollectStep.row? ++ buffers.rows) := by
  induction steps generalizing segment buffers with
  | nil =>
    rw [← Option.some.inj h]
    exact List.Perm.refl _
  | cons step steps ih =>
    cases step with
    | intern kind bytes => exact ih _ _ h
    | push row =>
      rw [collect] at h
      split at h
      · cases h
      · next later hpush =>
        have hrest := (ih segment later h).trans
          ((SectionBuffers.rows_push hpush).append_left _)
        exact hrest.trans List.perm_middle

theorem bufferWindow_snd (segment : SegmentState) (collected : Collected Row) :
    (bufferWindow hashes codec segment collected).2 =
      (collect hashes segment (SectionBuffers.new : SectionBuffers codec) collected.steps).2 := by
  unfold bufferWindow
  rcases collect hashes segment (SectionBuffers.new : SectionBuffers codec) collected.steps with
    ⟨_ | buffers, later⟩
  · rfl
  · dsimp only
    split
    · rfl
    · split <;> rfl

theorem bufferWindow_rows {segment later : SegmentState} {collected : Collected Row}
    {buffered : Buffered codec}
    (h : bufferWindow hashes codec segment collected = (buffered, later)) :
    match buffered with
    | .failed => True
    | .empty => collected.rows = []
    | .rows buffers => buffers.rows.Perm collected.rows := by
  unfold bufferWindow at h
  rcases hcollect : collect hashes segment (SectionBuffers.new : SectionBuffers codec)
    collected.steps with ⟨_ | filled, last⟩
  · rw [hcollect] at h
    cases h
    trivial
  · have hrows : filled.rows.Perm (collected.rows ++ []) :=
      collect_rows collected.steps segment (SectionBuffers.new : SectionBuffers codec)
        (congrArg Prod.fst hcollect)
    rw [List.append_nil] at hrows
    rw [hcollect] at h
    dsimp only at h
    by_cases hfailed : collected.failed = true
    · rw [if_pos hfailed] at h
      cases h
      trivial
    · rw [if_neg hfailed] at h
      by_cases hempty : filled.isEmpty = true
      · rw [if_pos hempty] at h
        rw [SectionBuffers.rows_of_isEmpty hempty] at hrows
        cases h
        exact hrows.symm.eq_nil
      · rw [if_neg hempty] at h
        cases h
        exact hrows

theorem encodeWindow_ok {buffers : SectionBuffers codec} {interner : Interner}
    (h : encodeWindow crc32c buffers interner = .ok body) :
    ∃ dict, dictSections codec interner.window = .ok dict ∧
      buffers.flush crc32c dict = .ok (some body) := by
  unfold encodeWindow at h
  cases hdict : dictSections codec interner.window with
  | error problem =>
    rw [hdict] at h
    cases h
  | ok dict =>
    rw [hdict] at h
    dsimp only at h
    cases hflush : buffers.flush crc32c dict with
    | error problem =>
      rw [hflush] at h
      cases h
    | ok flushed =>
      rw [hflush] at h
      cases flushed with
      | none => cases h
      | some part =>
        rw [← Except.ok.inj h]
        exact ⟨dict, rfl, hflush⟩

theorem Appends.contents (h : Appends hashes crc32c journalConfig held before after id body)
    {buffers : SectionBuffers codec} {interner : Interner}
    (hencode : encodeWindow crc32c buffers interner = .ok body) :
    (partRows codec crc32c body).Perm buffers.rows ∧
      ∀ entry ∈ interner.window.snapshots, entry.strId.raw ∈ partRecords codec crc32c body := by
  obtain ⟨valid, rfl, hkept⟩ := h.kept
  obtain ⟨dict, hdict, hflush⟩ := encodeWindow_ok hencode
  have hshort : valid.bytes.length < 2 ^ 32 := by
    have hbound := hkept.repaired.bound
    have hmax := (validateConfig_ok hkept.repaired.config).2
    have hmaxLen : maxJournalLen = 1073741824 := rfl
    have hlen : after.journal.len = before.journal.len + (frameHeaderLen + valid.bytes.length) := by
      rw [h.journal]
      rfl
    dsimp only at hbound hmax
    omega
  exact flush_contents hdict hflush valid.valid hshort

/-! ## One attempt -/

/-- The storage may have changed by one part at most. -/
def AtMostOne (codec : SectionCodec Row) (crc32c : Checksum) (attempt : Attempt Row)
    (ts : Int64) (before after : Storage) : Prop :=
  after.parts = before.parts ∨ after.journal.poisoned = true ∨
    ∃ id body, segmentIdFor before.segment ts = some id ∧
      (partRows codec crc32c body).Perm attempt.collected.rows ∧
      after.parts = before.parts ++ [(some id, body)]

/-- What an attempt comes to. -/
inductive Outcome (codec : SectionCodec Row) (crc32c : Checksum) (journalConfig : JournalConfig)
    (grown : Bool) (before : Storage) (ts : Int64) (attempt : Attempt Row)
    (written : List (SegmentId × CloseReason)) : Attempted → Storage → Prop
  | accepted {closed : List (SegmentId × CloseReason)} {id : SegmentId} {body : Bytes}
      {after : Storage} (hid : segmentIdFor before.segment ts = some id)
      (hrows : (partRows codec crc32c body).Perm attempt.collected.rows)
      (hparts : after.parts = before.parts ++ [(some id, body)]) :
      Outcome codec crc32c journalConfig grown before ts attempt written
        (.done (.ok { written := closed, accepted := true, appended := true })) after
  | empty {after : Storage} (hrows : attempt.collected.rows = [])
      (hparts : after.parts = before.parts) :
      Outcome codec crc32c journalConfig grown before ts attempt written
        (.done (.ok { written := written, accepted := true, appended := false })) after
  | notAccepted {after : Storage}
      (hparts : after.parts = before.parts ∨ after.journal.poisoned = true) :
      Outcome codec crc32c journalConfig grown before ts attempt written
        (.done (.ok { written := written, accepted := false, appended := false })) after
  | failed {problem : CollectorError} {after : Storage}
      (hparts : AtMostOne codec crc32c attempt ts before after) :
      Outcome codec crc32c journalConfig grown before ts attempt written
        (.done (.error problem)) after
  | retry {id : SegmentId} {after : Storage}
      (kept : Kept crc32c journalConfig after.journal grown ([] : List (ValidPart crc32c)))
      (firstId : before.segment.firstId = some id)
      (segment : after.segment = SegmentState.withSealSeed before.segment.sealSeed)
      (closed : after.closed = before.closed ++ [(id, before.journal.bodies)])
      (empty : after.journal.parts = []) (hparts : after.parts = before.parts) :
      Outcome codec crc32c journalConfig grown before ts attempt written
        (.retry (written ++ [(id, .journalFull)])) after

theorem appendEncoded_outcome (h : Kept crc32c journalConfig before.journal grown held)
    {segment : SegmentState} {buffers : SectionBuffers codec} {attempt : Attempt Row}
    (ts : Int64) (written : List (SegmentId × CloseReason))
    (hfirst : segment.firstId = before.segment.firstId)
    (hseed : segment.sealSeed = before.segment.sealSeed)
    (hrows : buffers.rows.Perm attempt.collected.rows)
    (hencode : encodeWindow crc32c buffers segment.interner = .ok body) :
    Outcome codec crc32c journalConfig grown before ts attempt written
      (appendEncoded hashes crc32c config { before with segment := segment }
        before.segment.isEmpty ts attempt.io written body).1
      (appendEncoded hashes crc32c config { before with segment := segment }
        before.segment.isEmpty ts attempt.io written body).2 := by
  obtain ⟨start, hstart⟩ : ∃ start : Storage, start = { before with segment := segment } := ⟨_, rfl⟩
  have hkept : Kept crc32c journalConfig start.journal grown held := by
    rw [hstart]
    exact h
  have hsame : start.parts = before.parts := by
    rw [hstart]
    rfl
  have hempty : before.segment.isEmpty = start.segment.isEmpty := by
    rw [hstart, SegmentState.isEmpty, SegmentState.isEmpty, hfirst]
  have hid : segmentIdFor before.segment ts = segmentIdFor start.segment ts := by
    rw [hstart, segmentIdFor, segmentIdFor, hfirst]
  have hadmission := appendWindowAndMaybeClose_admission hkept hashes config attempt.io ts false
    body
  have hencoded : encodeWindow crc32c buffers start.segment.interner = .ok body := by
    rw [hstart]
    exact hencode
  rw [← hstart, appendEncoded, hempty]
  rcases happend : appendWindowAndMaybeClose hashes crc32c config attempt.io start ts false body
    with ⟨result, after⟩
  rw [happend] at hadmission
  cases hadmission with
  | refused same hsegment =>
    have hparts := same.parts
    rw [hsame] at hparts
    by_cases hfresh : start.segment.isEmpty = true
    · dsimp only
      rw [if_pos hfresh]
      exact .failed (hparts.imp_right Or.inl)
    · dsimp only
      rw [if_neg hfresh]
      exact .notAccepted hparts
  | @full id after closes =>
    have hparts := closes.parts
    have hfull : ([(id, CloseReason.journalFull)].any fun close =>
        close.2 = CloseReason.journalFull) = true := rfl
    rw [hsame] at hparts
    dsimp only at closes hparts ⊢
    rw [if_pos hfull]
    refine .retry closes.kept ?_ ?_ ?_ closes.empty hparts
    · rw [← hfirst, ← closes.firstId, hstart]
    · rw [closes.segment, hstart, hseed]
    · rw [closes.closed, hstart]
  | fullNotClosed same =>
    have hparts := same.parts
    rw [hsame] at hparts
    exact .failed (hparts.imp_right Or.inl)
  | appended hidStart appends =>
    have hparts := appends.parts hkept
    rw [hsame] at hparts
    exact .accepted (hid.trans hidStart) ((appends.contents hencoded).1.trans hrows) hparts
  | appendedClosed hidStart appends closes hreason =>
    have hparts := closes.parts.trans (appends.parts hkept)
    rw [hsame] at hparts
    dsimp only
    rw [if_neg (by simpa using hreason)]
    exact .accepted (hid.trans hidStart) ((appends.contents hencoded).1.trans hrows) hparts
  | appendedNotClosed hidStart appends hvalid same =>
    have hmid := appends.parts hkept
    rw [hsame] at hmid
    refine .failed (same.parts.elim (fun hparts => ?_) fun hpoisoned => Or.inr (Or.inl hpoisoned))
    exact Or.inr (Or.inr ⟨_, _, hid.trans hidStart,
      (appends.contents hencoded).1.trans hrows, hparts.trans hmid⟩)
  | appendedNoClock hidStart appends hfirstId =>
    have hfresh : start.segment.isEmpty = true := by
      rw [SegmentState.isEmpty, hfirstId]
      rfl
    have hparts := appends.parts hkept
    rw [hsame] at hparts
    dsimp only
    rw [if_pos hfresh]
    exact .failed (Or.inr (Or.inr ⟨_, _, hid.trans hidStart,
      (appends.contents hencoded).1.trans hrows, hparts⟩))

theorem attemptWindow_outcome (h : Kept crc32c journalConfig before.journal grown held)
    (hashes : Hashes) (codec : SectionCodec Row) (config : Config) (ts : Int64)
    (written : List (SegmentId × CloseReason)) (attempt : Attempt Row) :
    Outcome codec crc32c journalConfig grown before ts attempt written
      (attemptWindow hashes codec crc32c config before ts written attempt).1
      (attemptWindow hashes codec crc32c config before ts written attempt).2 := by
  have hsegment := collect_segment hashes attempt.collected.steps before.segment
    (SectionBuffers.new : SectionBuffers codec)
  rw [← bufferWindow_snd] at hsegment
  unfold attemptWindow
  rcases hbuffer : bufferWindow hashes codec before.segment attempt.collected with
    ⟨buffered, segment⟩
  have hrows := bufferWindow_rows hbuffer
  rw [hbuffer] at hsegment
  cases buffered with
  | failed =>
    dsimp only
    by_cases hfresh : before.segment.isEmpty = true
    · rw [if_pos hfresh]
      exact .failed (Or.inl rfl)
    · rw [if_neg hfresh]
      exact .notAccepted (Or.inl rfl)
  | empty => exact .empty hrows rfl
  | rows buffers =>
    dsimp only
    cases hencode : encodeWindow crc32c buffers segment.interner with
    | error problem =>
      dsimp only
      by_cases hfresh : before.segment.isEmpty = true
      · rw [if_pos hfresh]
        exact .failed (Or.inl rfl)
      · rw [if_neg hfresh]
        exact .notAccepted (Or.inl rfl)
    | ok body => exact appendEncoded_outcome h ts written hsegment.1 hsegment.2 hrows hencode

/-! ## A window -/

/-- The storage in which the last attempt of a window starts, and this attempt. -/
def lastAttempt (hashes : Hashes) (codec : SectionCodec Row) (crc32c : Checksum)
    (config : Config) (before : Storage) (window : Window Row) : Storage × Attempt Row :=
  match attemptWindow hashes codec crc32c config before window.ts [] window.first with
  | (.retry _, mid) => (mid, window.second)
  | (.done _, _) => (before, window.first)

/-- A full journal is closed before the window is encoded again, into the segment that
begins with the window, and there is no other retry. -/
def RetriedOnce (hashes : Hashes) (codec : SectionCodec Row) (crc32c : Checksum)
    (config : Config) (before : Storage) (window : Window Row) : Prop :=
  ∀ written mid,
    attemptWindow hashes codec crc32c config before window.ts [] window.first =
      (.retry written, mid) →
    (∃ id, before.segment.firstId = some id ∧ written = [(id, .journalFull)] ∧
      mid.closed = before.closed ++ [(id, before.journal.bodies)] ∧ mid.journal.bodies = [] ∧
      mid.parts = before.parts) ∧
    lastAttempt hashes codec crc32c config before window = (mid, window.second) ∧
    segmentIdFor mid.segment window.ts = SegmentId.new window.ts ∧
    ∀ again later, attemptWindow hashes codec crc32c config mid window.ts written window.second ≠
      (.retry again, later)

/-- All or nothing, and at most once. -/
structure Delivery (hashes : Hashes) (codec : SectionCodec Row) (crc32c : Checksum)
    (config : Config) (before : Storage) (window : Window Row)
    (result : Except CollectorError PendingWindowOutcome) (after : Storage) : Prop where
  /-- An accepted window is one part, or has no rows. -/
  accepted : ∀ outcome, result = .ok outcome → outcome.accepted = true →
    (∃ id body,
      segmentIdFor (lastAttempt hashes codec crc32c config before window).1.segment window.ts =
        some id ∧
      (partRows codec crc32c body).Perm
        (lastAttempt hashes codec crc32c config before window).2.collected.rows ∧
      after.parts = before.parts ++ [(some id, body)]) ∨
    (lastAttempt hashes codec crc32c config before window).2.collected.rows = [] ∧
      after.parts = before.parts
  /-- A window that is not accepted leaves no part, unless a rollback failed. -/
  notAccepted : ∀ outcome, result = .ok outcome → outcome.accepted = false →
    after.parts = before.parts ∨ after.journal.poisoned = true
  /-- An error, which ends the collector, leaves one part at most. -/
  failed : ∀ problem, result = .error problem →
    after.parts = before.parts ∨ after.journal.poisoned = true ∨
      ∃ id body, after.parts = before.parts ++ [(some id, body)]
  retried : RetriedOnce hashes codec crc32c config before window

/-- What an attempt that is the last one of its window comes to. -/
theorem Outcome.delivery {window : Window Row} {start : Storage} {attempt : Attempt Row}
    {written : List (SegmentId × CloseReason)} {result : Except CollectorError PendingWindowOutcome}
    (hlast : lastAttempt hashes codec crc32c config before window = (start, attempt))
    (hstart : start.parts = before.parts)
    (h : Outcome codec crc32c journalConfig grown start window.ts attempt written
      (.done result) after)
    (hretried : RetriedOnce hashes codec crc32c config before window) :
    Delivery hashes codec crc32c config before window result after := by
  cases h with
  | accepted hid hrows hparts =>
    refine ⟨fun outcome _ _ => Or.inl ⟨_, _, ?_, ?_, hparts.trans (by rw [hstart])⟩,
      fun outcome hok hfalse => ?_, (fun problem herror => by cases herror), hretried⟩
    · rw [hlast]
      exact hid
    · rw [hlast]
      exact hrows
    · rw [← Except.ok.inj hok] at hfalse
      cases hfalse
  | empty hrows hparts =>
    refine ⟨fun outcome _ _ => Or.inr ⟨?_, hparts.trans hstart⟩,
      fun outcome hok hfalse => ?_, (fun problem herror => by cases herror), hretried⟩
    · rw [hlast]
      exact hrows
    · rw [← Except.ok.inj hok] at hfalse
      cases hfalse
  | notAccepted hparts =>
    rw [hstart] at hparts
    refine ⟨fun outcome hok htrue => ?_, fun outcome _ _ => hparts,
      (fun problem herror => by cases herror), hretried⟩
    rw [← Except.ok.inj hok] at htrue
    cases htrue
  | failed hparts =>
    refine ⟨(fun outcome hok => by cases hok), (fun outcome hok => by cases hok),
      fun problem _ => ?_, hretried⟩
    rw [AtMostOne, hstart] at hparts
    rcases hparts with hsame | hpoisoned | ⟨id, body, -, -, hone⟩
    · exact Or.inl hsame
    · exact Or.inr (Or.inl hpoisoned)
    · exact Or.inr (Or.inr ⟨id, body, hone⟩)

/-- A window is delivered all or nothing and at most once, whatever the journal holds and
whatever fails. -/
theorem append_window_delivery (hashes : Hashes) (codec : SectionCodec Row) (config : Config)
    (h : Reaches crc32c journalConfig before.journal grown) (window : Window Row) :
    Delivery hashes codec crc32c config before window
      (appendWindow hashes codec crc32c config before window).1
      (appendWindow hashes codec crc32c config before window).2 := by
  obtain ⟨held, hkept⟩ := h.kept
  have hfirst := attemptWindow_outcome hkept hashes codec config window.ts [] window.first
  unfold appendWindow
  rcases hattempt : attemptWindow hashes codec crc32c config before window.ts [] window.first with
    ⟨attempted, mid⟩
  rw [hattempt] at hfirst
  cases attempted with
  | done result =>
    have hlast : lastAttempt hashes codec crc32c config before window = (before, window.first) := by
      rw [lastAttempt, hattempt]
    exact Outcome.delivery hlast rfl hfirst fun written later hretry => by
      rw [hattempt] at hretry
      cases hretry
  | retry written =>
    have hlast : lastAttempt hashes codec crc32c config before window = (mid, window.second) := by
      rw [lastAttempt, hattempt]
    cases hfirst with
    | @retry id _ kept firstId segment closed empty hparts =>
      have hfresh : mid.segment.firstId = none := by
        rw [segment]
        rfl
      have hsecond := attemptWindow_outcome kept hashes codec config window.ts
        ([] ++ [(id, CloseReason.journalFull)]) window.second
      -- A fresh segment is not closed for a full journal.
      have honce : ∀ again later, attemptWindow hashes codec crc32c config mid window.ts
          ([] ++ [(id, CloseReason.journalFull)]) window.second ≠ (.retry again, later) := by
        intro again later hagain
        rw [hagain] at hsecond
        cases hsecond with
        | retry _ hsome =>
          rw [hfresh] at hsome
          cases hsome
      dsimp only
      rcases hlater : attemptWindow hashes codec crc32c config mid window.ts
        ([] ++ [(id, CloseReason.journalFull)]) window.second with ⟨result, after⟩
      rw [hlater] at hsecond
      cases result with
      | retry again => exact absurd hlater (honce again after)
      | done result =>
        refine Outcome.delivery hlast hparts hsecond fun written later hretry => ?_
        rw [hattempt] at hretry
        cases hretry
        refine ⟨⟨id, firstId, rfl, closed, bodies_of_no_parts empty, hparts⟩, hlast, ?_, honce⟩
        rw [segmentIdFor, hfresh]

/-! ## Concrete windows -/

def startStorage (config : JournalConfig) : Storage :=
  { journal := Journal.fresh castagnoli config, segment := SegmentState.withSealSeed 0
    closed := [] }

def plainAttempt (append : WriteIo) (published : Bool) : Attempt (Option StrId) :=
  { collected := { steps := [.push none], failed := false }
    io := { append := append, clock := { now := 0, utc := some 0 }
            close := { published := published, reset := .done } } }

def plainWindow (append : WriteIo) (published : Bool) : Window (Option StrId) :=
  { ts := 1, first := plainAttempt append published, second := plainAttempt append published }

def smallConfig : JournalConfig := { JournalConfig.default with maxJournalLen := 200 }

def plainPart : Bytes :=
  buildPart castagnoli [{ typeId := 1001001, rows := 1, body := [0] }] { minTs := 1, maxTs := 1 }

def hourly (maxBytes : Nat) : Config := { segmentMaxAgeSecs := 3600, segmentMaxBytes := maxBytes }

def openedOnce (config : JournalConfig) : Storage :=
  (appendWindow knownHashes sampleCodec castagnoli (hourly 1000) (startStorage config)
    (plainWindow .done true)).2

/-- The file of an append whose writes were all made, when neither its sync nor its
rollback succeeded. -/
def unsyncedFile : Bytes :=
  ((openedOnce .default).journal.appended castagnoli sampleId plainPart).file

/-- A size close that fails answers an error while the journal holds the window; a failed
rollback leaves a window that was not accepted in the file; and the segment of a retried
window has the old identity when the clock was set back to it. -/
theorem plainWindow_not_all_or_nothing :
    ((appendWindow knownHashes sampleCodec castagnoli (hourly 1) (startStorage .default)
          (plainWindow .done false)).1 = .error .write ∧
        (appendWindow knownHashes sampleCodec castagnoli (hourly 1) (startStorage .default)
          (plainWindow .done false)).2.parts = [(some sampleId, plainPart)]) ∧
      ((openedOnce .default).parts = [(some sampleId, plainPart)] ∧
        (appendWindow knownHashes sampleCodec castagnoli (hourly 1000) (openedOnce .default)
          (plainWindow (.poisoned unsyncedFile) true)).1 =
            .ok { written := [], accepted := false, appended := false } ∧
        (appendWindow knownHashes sampleCodec castagnoli (hourly 1000) (openedOnce .default)
          (plainWindow (.poisoned unsyncedFile) true)).2.journal.file = unsyncedFile ∧
        (Journal.open castagnoli .default (some unsyncedFile)).map Journal.bodies =
          .ok [plainPart, plainPart]) ∧
      (openedOnce smallConfig).segment.firstId = some sampleId ∧
      (appendWindow knownHashes sampleCodec castagnoli (hourly 1000) (openedOnce smallConfig)
          (plainWindow .done true)).1 =
        .ok { written := [(sampleId, .journalFull)], accepted := true, appended := true } ∧
      (appendWindow knownHashes sampleCodec castagnoli (hourly 1000) (openedOnce smallConfig)
          (plainWindow .done true)).2.parts =
        [(some sampleId, plainPart), (some sampleId, plainPart)] := by
  decide +kernel

/-- A journal that one part has filled. -/
def fullStorage : Storage :=
  { journal := ((Journal.fresh castagnoli smallConfig).append castagnoli sampleId plainPart).2
    segment := (openedOnce smallConfig).segment
    closed := [] }

/-- The window is retried in a new segment. -/
theorem append_window_delivery_plain :
    (appendWindow knownHashes sampleCodec castagnoli (hourly 1000) fullStorage
        (plainWindow .done true)).1 =
          .ok { written := [(sampleId, .journalFull)], accepted := true, appended := true } ∧
      Delivery knownHashes sampleCodec castagnoli (hourly 1000) fullStorage
        (plainWindow .done true)
        (appendWindow knownHashes sampleCodec castagnoli (hourly 1000) fullStorage
          (plainWindow .done true)).1
        (appendWindow knownHashes sampleCodec castagnoli (hourly 1000) fullStorage
          (plainWindow .done true)).2 :=
  ⟨by decide +kernel, append_window_delivery knownHashes sampleCodec (hourly 1000)
    (.append sampleId plainPart (.opened (open_create rfl))) (plainWindow .done true)⟩

end Kronika.Collector
