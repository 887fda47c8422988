/-
Incremental scans of a journal that a writer changes.

The reader finds the file as any of the writes of an append or of a reset leave it.
A ghost log keeps the parts of every generation.  What the reader remembers is a
part of the log, and so is what it finds, except after it has seen a committed
reset: the end of that reset is then taken for a place in the next generation.
-/
import Kronika.Store.Scans
import Mathlib.Logic.Function.Basic

namespace Kronika.Store

open Format Library Writer

/-- What the writer of a journal is doing. -/
inductive Activity (crc32c : Checksum) where
  | idle
  | appending (segmentId : SegmentId) (part : ValidPart crc32c)
  | resetting (marker : ResetMarker)

/-- A writer, and the file that a reader finds. -/
structure WriterState (crc32c : Checksum) where
  /-- The journal as of the last operation that is complete. -/
  journal : Journal
  activity : Activity crc32c
  file : Bytes
  /-- Ghost: the parts that each generation has received. -/
  log : SegmentId → List (ValidPart crc32c)

variable {crc32c : Checksum}

namespace WriterState

def ops (s : WriterState crc32c) : List FileOp :=
  match s.activity with
  | .idle => []
  | .appending segmentId part => s.journal.appendOps crc32c segmentId part.bytes
  | .resetting marker => s.journal.resetOps crc32c marker

def fresh (crc32c : Checksum) (config : JournalConfig) : WriterState crc32c :=
  { journal := Journal.fresh crc32c config, activity := .idle
    file := (Journal.fresh crc32c config).file, log := fun _ => [] }

/-- The journal and the file once the operation is complete. -/
def complete (s : WriterState crc32c) (journal : Journal) : WriterState crc32c :=
  { s with journal := journal, activity := .idle, file := journal.file }

end WriterState

/-- A step of the writer.  The first append to an empty journal starts a generation,
under an id that no generation had. -/
inductive WriterStep : WriterState crc32c → WriterState crc32c → Prop
  | startAppend {s : WriterState crc32c} (segmentId : SegmentId) (part : ValidPart crc32c)
      (hidle : s.activity = .idle)
      (hcheck : s.journal.checkAppend crc32c segmentId part.bytes = .ok ())
      (hnew : s.journal.parts = [] → s.log segmentId = []) :
      WriterStep s { s with
        activity := .appending segmentId part
        log := Function.update s.log segmentId (s.log segmentId ++ [part]) }
  | startReset {s : WriterState crc32c} (marker : ResetMarker) (hidle : s.activity = .idle)
      (hmarker : s.journal.resetMarker crc32c = .ok marker) :
      WriterStep s { s with activity := .resetting marker }
  | write {s : WriterState crc32c} (file : Bytes) (hfile : file ∈ stops s.journal.file s.ops) :
      WriterStep s { s with file := file }
  | finishAppend {s : WriterState crc32c} (segmentId : SegmentId) (part : ValidPart crc32c)
      (h : s.activity = .appending segmentId part) :
      WriterStep s (s.complete (s.journal.appended crc32c segmentId part.bytes))
  | finishReset {s : WriterState crc32c} (marker : ResetMarker)
      (h : s.activity = .resetting marker) :
      WriterStep s (s.complete (s.journal.reset crc32c).2)

/-! ## The invariant of the writer -/

/-- What the log says about the journal and the operation that is under way. -/
def Logged (s : WriterState crc32c) (parts : List (ValidPart crc32c)) : Prop :=
  match s.activity with
  | .idle => ∀ segmentId, s.journal.segmentId = some segmentId → s.log segmentId = parts
  | .appending segmentId part =>
    s.journal.checkAppend crc32c segmentId part.bytes = .ok () ∧
      s.log segmentId = parts ++ [part]
  | .resetting marker =>
    s.journal.resetMarker crc32c = .ok marker ∧
      ∀ segmentId, s.journal.segmentId = some segmentId → s.log segmentId = parts

structure Sound (s : WriterState crc32c) (parts : List (ValidPart crc32c)) : Prop where
  clean : s.journal.Clean crc32c parts
  logged : Logged s parts
  file : s.file ∈ stops s.journal.file s.ops
  admits : ∀ segmentId, Admits .default maxJournalParts 0 (s.log segmentId)

theorem sound_fresh {config : JournalConfig} (hconfig : validateConfig config = .ok ()) :
    Sound (WriterState.fresh crc32c config) [] where
  clean := clean_fresh hconfig
  logged segmentId hid := by cases hid
  file := mem_stops_nil.mpr rfl
  admits _ := admits_nil _ _

def LogLe (before after : SegmentId → List (ValidPart crc32c)) : Prop :=
  ∀ segmentId, before segmentId <+: after segmentId

theorem validateConfig_limits {config : JournalConfig} (h : validateConfig config = .ok ()) :
    config.maxParts ≤ maxJournalParts ∧ config.limits.maxPartLen ≤ maxPartLen := by
  unfold validateConfig at h
  split at h
  · cases h
  · split at h
    · cases h
    · split at h
      · cases h
      · omega

theorem LogLe.refl (log : SegmentId → List (ValidPart crc32c)) : LogLe log log :=
  fun _ => List.prefix_rfl

variable {s : WriterState crc32c} {parts : List (ValidPart crc32c)}

theorem Sound.file_eq
    (h : Sound s parts) (hidle : s.activity = .idle) : s.file = s.journal.file := by
  have hfile := h.file
  rw [WriterState.ops, hidle] at hfile
  exact mem_stops_nil.mp hfile

variable {segmentId : SegmentId}

theorem Sound.log_eq {part : ValidPart crc32c} (h : Sound s parts) (hidle : s.activity = .idle)
    (hcheck : s.journal.checkAppend crc32c segmentId part.bytes = .ok ())
    (hnew : s.journal.parts = [] → s.log segmentId = []) : s.log segmentId = parts := by
  have hlogged := h.logged
  rw [Logged, hidle] at hlogged
  cases hid : s.journal.segmentId with
  | none =>
    have hparts := h.clean.identity.mp hid
    have hrefs : s.journal.parts = [] := by
      rw [h.clean.refs, hparts]
      rfl
    rw [hnew hrefs, hparts]
  | some found =>
    have hsame := (checkAppend_ok hcheck).2.1 found hid
    rw [← hsame]
    exact hlogged found hid

theorem Sound.startAppend {part : ValidPart crc32c} (h : Sound s parts) (hidle : s.activity = .idle)
    (hcheck : s.journal.checkAppend crc32c segmentId part.bytes = .ok ())
    (hlog : s.log segmentId = parts) :
    Sound { s with
      activity := .appending segmentId part
      log := Function.update s.log segmentId (s.log segmentId ++ [part]) } parts := by
  obtain ⟨-, -, hpart, -, hcount, -⟩ := checkAppend_ok hcheck
  obtain ⟨hmaxParts, hmaxPartLen⟩ := validateConfig_limits h.clean.config
  have hparts : s.journal.parts.length = parts.length := by
    rw [h.clean.refs, List.length_map, length_locate]
  refine ⟨h.clean, ⟨hcheck, ?_⟩, ?_, fun other => ?_⟩
  · show Function.update s.log segmentId (s.log segmentId ++ [part]) segmentId = _
    rw [Function.update_self, hlog]
  · rw [h.file_eq hidle]
    exact self_mem_stops _ _
  · show Admits .default maxJournalParts 0 (Function.update s.log segmentId _ other)
    by_cases hother : other = segmentId
    · rw [hother, Function.update_self, hlog]
      have hold := h.admits segmentId
      rw [hlog] at hold
      refine ⟨fun stored hstored => ?_, ?_⟩
      · rcases List.mem_append.mp hstored with hin | hlast
        · exact hold.len stored hin
        · rw [List.mem_singleton.mp hlast]
          exact Nat.le_trans hpart hmaxPartLen
      · rw [List.length_append, List.length_singleton]
        omega
    · rw [Function.update_of_ne hother]
      exact h.admits other

theorem Sound.step {s s' : WriterState crc32c} (h : Sound s parts) (hstep : WriterStep s s') :
    (∃ parts', Sound s' parts') ∧ LogLe s.log s'.log := by
  have hlogged := h.logged
  cases hstep with
  | startAppend segmentId part hidle hcheck hnew =>
    refine ⟨⟨parts, h.startAppend hidle hcheck (h.log_eq hidle hcheck hnew)⟩, fun other => ?_⟩
    show _ <+: Function.update s.log segmentId _ other
    by_cases hother : other = segmentId
    · rw [hother, Function.update_self]
      exact List.prefix_append _ _
    · rw [Function.update_of_ne hother]
  | startReset marker hidle hmarker =>
    rw [Logged, hidle] at hlogged
    refine ⟨⟨parts, h.clean, ⟨hmarker, hlogged⟩, ?_, h.admits⟩, .refl _⟩
    rw [h.file_eq hidle]
    exact self_mem_stops _ _
  | write file hfile => exact ⟨⟨parts, h.clean, hlogged, hfile, h.admits⟩, .refl _⟩
  | finishAppend segmentId part hactivity =>
    rw [Logged, hactivity] at hlogged
    obtain ⟨hcheck, hlog⟩ := hlogged
    refine ⟨⟨parts ++ [part], h.clean.appended hcheck, fun other hother => ?_,
      mem_stops_nil.mpr rfl, h.admits⟩, .refl _⟩
    cases hother
    exact hlog
  | finishReset marker hactivity =>
    rw [Logged, hactivity] at hlogged
    rw [reset_eq_fresh h.clean hlogged.1]
    refine ⟨⟨[], clean_fresh h.clean.config, fun other hother => ?_, mem_stops_nil.mpr rfl,
      h.admits⟩, .refl _⟩
    cases hother

/-! ## What the reader finds -/

/-- A plan for a generation means that the file has some of its parts, or all of them
and a reset behind them. -/
def Found (log : SegmentId → List (ValidPart crc32c)) (file : Bytes) : Prop :=
  ∀ plan segmentId, readJournalPlan crc32c file = .ok plan → plan.segmentId = some segmentId →
    plan.committedReset = true ∨
      ∃ parts, parts <+: log segmentId ∧ Live crc32c file segmentId parts

section Found

variable {s : WriterState crc32c} {parts : List (ValidPart crc32c)} {file : Bytes}
variable {log : SegmentId → List (ValidPart crc32c)}

theorem found_of_shows {identity : Option SegmentId} (h : Shows crc32c file identity parts)
    (hlog : ∀ segmentId, identity = some segmentId → parts <+: log segmentId) : Found log file := by
  intro plan segmentId hplan hid
  obtain ⟨hidentity, hlive⟩ := live_of_shows h hplan hid
  exact .inr ⟨parts, hlog segmentId hidentity, hlive⟩

theorem found_of_rewritten {journal : Journal} {marker : ResetMarker}
    (h : journal.Clean crc32c parts) (hne : parts ≠ [])
    (hmarker : journal.resetMarker crc32c = .ok marker)
    (hfile : Rewritten crc32c journal.segmentId parts marker file) : Found log file := by
  obtain ⟨-, -, hroom, -⟩ := resetMarker_ok hmarker
  have hmax := (validateConfig_ok h.config).2
  have hlen := h.len
  cases hfile with
  | torn j hj =>
    obtain ⟨found, hfound⟩ := committedResetPlan_eq (committedReset_of_torn h hne hmarker hj rfl)
    have htotal : (splice j (JournalHeader.empty.encode crc32c)
        ((headerOf journal.segmentId parts).encode crc32c) ++
          (frames parts ++ marker.encode crc32c)).length = journal.len + resetMarkerLen := by
      rw [List.length_append, List.length_append, length_splice_headers, ResetMarker.length_encode]
      omega
    intro plan segmentId hplan _
    rw [readJournalPlan_of_reset (by omega) (by omega) hfound] at hplan
    cases hplan
    exact .inl rfl
  | done =>
    refine found_of_shows (shows_tornFirstHeader (JournalHeader.length_encode crc32c .empty))
      (fun segmentId hid => ?_)
    cases hid

theorem Sound.found (h : Sound s parts) : Found s.log s.file := by
  have hlogged := h.logged
  have hfile := h.file
  cases hactivity : s.activity with
  | idle =>
    rw [Logged, hactivity] at hlogged
    rw [h.file_eq hactivity]
    exact found_of_shows h.clean.shows fun segmentId hid =>
      (hlogged segmentId hid).symm ▸ List.prefix_rfl
  | appending segmentId part =>
    rw [Logged, hactivity] at hlogged
    obtain ⟨hcheck, hlog⟩ := hlogged
    rw [WriterState.ops, hactivity] at hfile
    rcases shows_of_mem_stops h.clean hcheck hfile with hold | hnew
    · refine found_of_shows hold fun other hid => ?_
      rw [(checkAppend_ok hcheck).2.1 other hid, hlog]
      exact List.prefix_append _ _
    · refine found_of_shows hnew fun other hid => ?_
      cases hid
      rw [hlog]
  | resetting marker =>
    rw [Logged, hactivity] at hlogged
    obtain ⟨hmarker, hlog⟩ := hlogged
    rw [WriterState.ops, hactivity] at hfile
    have hne := ne_nil_of_resetMarker h.clean hmarker
    rcases mem_stops_resetOps h.clean hfile with hbefore | hafter
    · exact found_of_shows (hbefore.shows h.clean hne) fun segmentId hid =>
        (hlog segmentId hid).symm ▸ List.prefix_rfl
    · exact found_of_rewritten h.clean hne hmarker (hafter.rewritten h.clean)

end Found

/-! ## What the reader remembers -/

/-- The previous scan had no generation, a committed reset, or a part of one. -/
inductive Remembers (log : SegmentId → List (ValidPart crc32c)) (prev : JournalScan) : Prop
  | nothing (hactive : prev.active = []) (hvalid : prev.validLen ≤ journalHeaderLen)
      (hcommitted : prev.committedReset = false)
  | reset (hactive : prev.active = []) (hvalid : journalHeaderLen < prev.validLen)
      (hcommitted : prev.committedReset = true)
  | generation (segmentId : SegmentId) (parts : List (ValidPart crc32c)) (hne : parts ≠ [])
      (hlog : parts <+: log segmentId)
      (hactive : prev.active = activeParts segmentId journalHeaderLen parts)
      (hvalid : prev.validLen = journalHeaderLen + (frames parts).length)
      (hcommitted : prev.committedReset = false)

/-- The reader takes the end of a committed reset for a place in a live generation. -/
def reusesResetOffset (crc32c : Checksum) (prev : JournalScan) (file : Bytes) : Bool :=
  match readJournalPlan crc32c file with
  | .error _ => false
  | .ok plan =>
    prev.committedReset && plan.segmentId.isSome && !plan.committedReset &&
      prev.validLen ≤ plan.scanLen

section Remembers

variable {s : WriterState crc32c} {parts : List (ValidPart crc32c)} {file : Bytes}
variable {log log' : SegmentId → List (ValidPart crc32c)} {prev scan : JournalScan}

theorem Remembers.mono (h : Remembers log prev) (hle : LogLe log log') : Remembers log' prev := by
  cases h with
  | nothing hactive hvalid hcommitted => exact .nothing hactive hvalid hcommitted
  | reset hactive hvalid hcommitted => exact .reset hactive hvalid hcommitted
  | generation segmentId parts hne hlog hactive hvalid hcommitted =>
    exact .generation segmentId parts hne (hlog.trans (hle segmentId)) hactive hvalid hcommitted

theorem remembers_full (hfound : Found log file)
    (hadmits : ∀ segmentId, Admits .default maxJournalParts 0 (log segmentId))
    (hscan : scanJournal crc32c (some file) = .ok scan) : Remembers log scan := by
  cases hplan : readJournalPlan crc32c file with
  | error problem =>
    rw [scanJournal_of_error hplan] at hscan
    cases hscan
  | ok plan =>
    cases hid : plan.segmentId with
    | none =>
      rw [scanJournal_of_none hplan hid] at hscan
      cases hscan
      refine .nothing rfl ?_ rfl
      rcases readJournalPlan_ok hplan with ⟨-, hvalid⟩ | ⟨-, hsome, -, -⟩ |
        ⟨_, _, -, -, -, -, hwhole⟩
      · exact hvalid
      · exact absurd hid hsome
      · rw [hwhole] at hid
        cases hid
    | some segmentId =>
      rcases hfound plan segmentId hplan hid with hcommitted | ⟨parts, hlog, hlive⟩
      · obtain ⟨hactive, hvalid, hreset⟩ := scanJournal_of_reset hplan hid hcommitted hscan
        rcases readJournalPlan_ok hplan with ⟨hnone, -⟩ | ⟨-, -, hlong, -⟩ |
          ⟨_, _, -, -, -, -, hwhole⟩
        · rw [hnone] at hid
          cases hid
        · exact .reset hactive (by omega) hreset
        · rw [hwhole] at hcommitted
          cases hcommitted
      · have hlen := hlive.length
        rw [scanJournal_live hlive ((hadmits segmentId).shorter hlog)] at hscan
        cases hscan
        exact .generation segmentId parts hlive.ne_nil hlog rfl hlen rfl

theorem shorter_of_length_le {all parts later : List (ValidPart crc32c)} (h : parts <+: all)
    (hlater : later <+: all) (hlen : (frames parts).length ≤ (frames later).length) :
    parts <+: later := by
  rcases List.prefix_or_prefix_of_prefix h hlater with hle | ⟨more, rfl⟩
  · exact hle
  · rw [frames_append, List.length_append] at hlen
    have hnil : more = [] := frames_eq_nil.mp (by omega)
    rw [hnil, List.append_nil]

/-- Behind a committed reset, a scan of a live generation goes wrong exactly where it
goes on from the end of the reset. -/
theorem scan_eq_iff_of_reset (hfound : Found log file)
    (hadmits : ∀ segmentId, Admits .default maxJournalParts 0 (log segmentId))
    (hactive : prev.active = []) (hvalid : journalHeaderLen < prev.validLen)
    (hcommitted : prev.committedReset = true) :
    scanJournalFrom crc32c (some file) prev.validLen prev.active =
        scanJournal crc32c (some file) ↔ reusesResetOffset crc32c prev file = false := by
  by_cases hreuse : reusesResetOffset crc32c prev file = true
  · have hne : scanJournalFrom crc32c (some file) prev.validLen prev.active ≠
        scanJournal crc32c (some file) := by
      unfold reusesResetOffset at hreuse
      split at hreuse
      · cases hreuse
      · next plan hplan =>
        simp only [Bool.and_eq_true, decide_eq_true_eq] at hreuse
        obtain ⟨⟨⟨-, hsome⟩, hlive⟩, hend⟩ := hreuse
        obtain ⟨segmentId, hid⟩ := Option.isSome_iff_exists.mp hsome
        rcases hfound plan segmentId hplan hid with hreset | ⟨parts, hlog, hparts⟩
        · rw [hreset] at hlive
          cases hlive
        · have hsame := hparts.plan
          rw [hplan] at hsame
          rw [hactive]
          refine scanJournalFrom_ne hparts ((hadmits segmentId).shorter hlog) hvalid ?_
          cases hsame
          exact hend
    rw [hreuse]
    exact ⟨fun heq => absurd heq hne, fun hfalse => by cases hfalse⟩
  · refine ⟨fun _ => Bool.not_eq_true _ ▸ hreuse, fun _ => scanJournalFrom_eq ?_⟩
    intro plan segmentId hplan hid hresume
    refine absurd ?_ hreuse
    simp only [canResume, Bool.and_eq_true] at hresume
    obtain ⟨⟨⟨hlive, -⟩, -⟩, hend⟩ := hresume
    simp [reusesResetOffset, hplan, hcommitted, hid, hlive, hend]

theorem reusesResetOffset_of_not_reset (hcommitted : prev.committedReset = false) :
    reusesResetOffset crc32c prev file = false := by
  unfold reusesResetOffset
  rw [hcommitted]
  cases readJournalPlan crc32c file <;> rfl

theorem scan_eq_of_generation (hfound : Found log file)
    (hadmits : ∀ segmentId, Admits .default maxJournalParts 0 (log segmentId))
    {segmentId : SegmentId} (hne : parts ≠ []) (hlog : parts <+: log segmentId) :
    scanJournalFrom crc32c (some file) (journalHeaderLen + (frames parts).length)
        (activeParts segmentId journalHeaderLen parts) = scanJournal crc32c (some file) := by
  by_cases hresume : ∃ plan found, readJournalPlan crc32c file = .ok plan ∧
      plan.segmentId = some found ∧ canResume plan found
        (journalHeaderLen + (frames parts).length)
          (activeParts segmentId journalHeaderLen parts) = true
  · obtain ⟨plan, found, hplan, hid, hresume⟩ := hresume
    simp only [canResume, Bool.and_eq_true, decide_eq_true_eq] at hresume
    obtain ⟨⟨⟨hcommitted, hhead⟩, -⟩, hend⟩ := hresume
    have hsame : segmentId = found := by
      cases parts with
      | nil => exact absurd rfl hne
      | cons part parts => simpa [activeParts, locate] using hhead
    subst hsame
    rcases hfound plan segmentId hplan hid with hreset | ⟨later, hlater, hlive⟩
    · rw [hreset] at hcommitted
      cases hcommitted
    · have hplan' := hlive.plan
      rw [hplan] at hplan'
      cases hplan'
      have hlen := hlive.length
      have hscan : (wholePlan (some segmentId) file.length).scanLen = file.length := rfl
      obtain ⟨more, rfl⟩ := shorter_of_length_le hlog hlater (by omega)
      exact scanJournalFrom_live hlive hne ((hadmits segmentId).shorter hlater)
  · refine scanJournalFrom_eq fun plan found hplan hid hres => ?_
    exact absurd ⟨plan, found, hplan, hid, hres⟩ hresume

theorem scan_eq_iff (hfound : Found log file)
    (hadmits : ∀ segmentId, Admits .default maxJournalParts 0 (log segmentId))
    (hprev : Remembers log prev) :
    scanJournalFrom crc32c (some file) prev.validLen prev.active =
        scanJournal crc32c (some file) ↔ reusesResetOffset crc32c prev file = false := by
  cases hprev with
  | nothing hactive hvalid hcommitted =>
    refine iff_of_true (scanJournalFrom_eq fun plan segmentId _ _ hresume => ?_)
      (reusesResetOffset_of_not_reset hcommitted)
    simp only [canResume, Bool.and_eq_true, decide_eq_true_eq] at hresume
    exact ⟨Nat.le_antisymm hvalid hresume.1.2, hactive⟩
  | reset hactive hvalid hcommitted =>
    exact scan_eq_iff_of_reset hfound hadmits hactive hvalid hcommitted
  | generation segmentId parts hne hlog hactive hvalid hcommitted =>
    rw [hactive, hvalid]
    exact iff_of_true (scan_eq_of_generation hfound hadmits hne hlog)
      (reusesResetOffset_of_not_reset hcommitted)

end Remembers

/-! ## Runs -/

/-- The runs of a writer and a reader, in any interleaving.  A reader remembers its last
successful scan; none of its incremental scans reuses the offset of a reset. -/
inductive Watched : WriterState crc32c → JournalScan → Prop
  | start (config : JournalConfig) (hconfig : validateConfig config = .ok ()) :
      Watched (WriterState.fresh crc32c config) emptyJournalScan
  | writer {s s' : WriterState crc32c} {prev : JournalScan} (h : Watched s prev)
      (hstep : WriterStep s s') : Watched s' prev
  | full {s : WriterState crc32c} {prev scan : JournalScan} (h : Watched s prev)
      (hscan : scanJournal crc32c (some s.file) = .ok scan) : Watched s scan
  | incremental {s : WriterState crc32c} {prev scan : JournalScan} (h : Watched s prev)
      (hreuse : reusesResetOffset crc32c prev s.file = false)
      (hscan : scanJournalFrom crc32c (some s.file) prev.validLen prev.active = .ok scan) :
      Watched s scan

theorem Watched.sound {prev : JournalScan} (h : Watched s prev) :
    (∃ parts, Sound s parts) ∧ Remembers s.log prev := by
  induction h with
  | start config hconfig =>
    exact ⟨⟨[], sound_fresh hconfig⟩, .nothing rfl (Nat.zero_le _) rfl⟩
  | writer _ hstep ih =>
    obtain ⟨⟨parts, hsound⟩, hprev⟩ := ih
    obtain ⟨hnext, hle⟩ := hsound.step hstep
    exact ⟨hnext, hprev.mono hle⟩
  | full _ hscan ih =>
    obtain ⟨⟨parts, hsound⟩, -⟩ := ih
    exact ⟨⟨parts, hsound⟩, remembers_full hsound.found hsound.admits hscan⟩
  | incremental _ hreuse hscan ih =>
    obtain ⟨⟨parts, hsound⟩, hprev⟩ := ih
    rw [(scan_eq_iff hsound.found hsound.admits hprev).mpr hreuse] at hscan
    exact ⟨⟨parts, hsound⟩, remembers_full hsound.found hsound.admits hscan⟩

/-- At any moment of a run, an incremental scan returns what a full scan returns if and
only if it does not go on from the end of a committed reset. -/
theorem incremental_scan_eq_full {s : WriterState crc32c} {prev : JournalScan}
    (h : Watched s prev) :
    scanJournalFrom crc32c (some s.file) prev.validLen prev.active =
        scanJournal crc32c (some s.file) ↔ reusesResetOffset crc32c prev s.file = false := by
  obtain ⟨⟨parts, hsound⟩, hprev⟩ := h.sound
  exact scan_eq_iff hsound.found hsound.admits hprev

/-! ### A generation as long as the reset before it -/

def sampleMarker : ResetMarker :=
  { previousLen := 129, previousSegmentId := 1, previousHeaderCrc := 1214729159 }

def laterId : SegmentId := ⟨2, by decide⟩

/-- A part that ends where the marker of `sampleJournal` ended. -/
def laterPart : Bytes :=
  buildPart castagnoli [{ typeId := 1001001, rows := 1, body := List.replicate 33 7 }]
    { minTs := 2, maxTs := 2 }

def laterJournal : Journal :=
  (Journal.fresh castagnoli .default).appended castagnoli laterId laterPart

/-- The scan of `sampleJournal` with its reset marker. -/
def resetScan : JournalScan := { active := [], validLen := 161, committedReset := true }

theorem resetMarker_sample : sampleJournal.resetMarker castagnoli = .ok sampleMarker := by
  decide +kernel

theorem checkAppend_later : (Journal.fresh castagnoli .default).checkAppend castagnoli laterId
    laterPart = .ok () := by
  decide +kernel

theorem scan_marked :
    scanJournal castagnoli (some (sampleJournal.marked castagnoli sampleMarker)) =
      .ok resetScan := by
  decide +kernel

theorem Watched.append {prev : JournalScan}
    {bytes : Bytes} (h : Watched s prev) (hidle : s.activity = .idle)
    (hcheck : s.journal.checkAppend crc32c segmentId bytes = .ok ())
    (hnew : s.journal.parts = [] → s.log segmentId = []) :
    ∃ s' : WriterState crc32c, Watched s' prev ∧ s'.activity = .idle ∧
      s'.journal = s.journal.appended crc32c segmentId bytes ∧ s'.file = s'.journal.file ∧
      ∀ other ≠ segmentId, s'.log other = s.log other := by
  obtain ⟨⟨parts, hsound⟩, -⟩ := h.sound
  obtain ⟨part, rfl⟩ := validPart_of_checkAppend hsound.clean hcheck
  have happending := h.writer (.startAppend segmentId part hidle hcheck hnew)
  exact ⟨_, happending.writer (.finishAppend segmentId part rfl), rfl, rfl, rfl,
    fun other hother => Function.update_of_ne hother _ _⟩

theorem Watched.reset {prev scan : JournalScan} {marker : ResetMarker}
    (h : Watched s prev) (hidle : s.activity = .idle)
    (hmarker : s.journal.resetMarker crc32c = .ok marker)
    (hscan : scanJournal crc32c (some (s.journal.marked crc32c marker)) = .ok scan) :
    ∃ s' : WriterState crc32c, Watched s' scan ∧ s'.activity = .idle ∧
      s'.journal = Journal.fresh crc32c s.journal.config ∧ s'.log = s.log := by
  obtain ⟨⟨parts, hsound⟩, -⟩ := h.sound
  have hmarked : s.journal.marked crc32c marker ∈
      stops s.journal.file (s.journal.resetOps crc32c marker) := by
    refine mem_stops_write.mpr (.inr ?_)
    rw [← hsound.clean.length_file, writeAt_length]
    exact self_mem_stops _ _
  have hresetting := h.writer (.startReset marker hidle hmarker)
  have hscanned := (hresetting.writer (.write _ hmarked)).full hscan
  refine ⟨_, hscanned.writer (.finishReset marker rfl), rfl, ?_, rfl⟩
  exact congrArg Prod.snd (reset_eq_fresh hsound.clean hmarker)

theorem watched_later :
    ∃ s : WriterState castagnoli, Watched s resetScan ∧ s.file = laterJournal.file := by
  have hstart : Watched (WriterState.fresh castagnoli .default) emptyJournalScan := .start _ rfl
  obtain ⟨s, hfirst, hidle, hjournal, -, hlog⟩ :=
    hstart.append rfl checkAppend_sample (fun _ => rfl)
  have hsample : s.journal = sampleJournal := hjournal
  obtain ⟨s', hreset, hidle', hfresh, hlog'⟩ :=
    hfirst.reset hidle (hsample ▸ resetMarker_sample) (hsample ▸ scan_marked)
  rw [hsample] at hfresh
  obtain ⟨s'', hlater, -, hjournal'', hfile, -⟩ :=
    hreset.append hidle' (hfresh ▸ checkAppend_later) (fun _ => by
      rw [hlog', hlog laterId (by decide)]
      rfl)
  refine ⟨s'', hlater, ?_⟩
  rw [hfile, hjournal'', hfresh]
  rfl

/-- The incremental scan returns no part of the later generation. -/
theorem incremental_scan_skips_later :
    ∃ s : WriterState castagnoli, ∃ prev, Watched s prev ∧
      scanJournalFrom castagnoli (some s.file) prev.validLen prev.active ≠
        scanJournal castagnoli (some s.file) := by
  obtain ⟨s, hwatched, hfile⟩ := watched_later
  refine ⟨s, resetScan, hwatched, ?_⟩
  rw [hfile]
  decide +kernel

theorem incremental_scan_eq_full_later :
    ∃ s : WriterState castagnoli, s.file = laterJournal.file ∧
      (scanJournalFrom castagnoli (some s.file) resetScan.validLen resetScan.active =
          scanJournal castagnoli (some s.file) ↔
        reusesResetOffset castagnoli resetScan s.file = false) := by
  obtain ⟨s, hwatched, hfile⟩ := watched_later
  exact ⟨s, hfile, incremental_scan_eq_full hwatched⟩

end Kronika.Store
