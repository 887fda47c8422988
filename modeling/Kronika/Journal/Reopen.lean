/-
Reopening a journal.

The handle, the header, the frames and the recovery probe are four views of one
journal.  After any number of appends they agree: opening the file returns the
handle itself, and no clean journal looks like a committed reset.
-/
import Kronika.Journal.Reset

namespace Kronika.Writer

open Format Library

variable {crc32c : Checksum} {journal : Journal} {parts : List (ValidPart crc32c)}
variable {segmentId : SegmentId} {config : JournalConfig} {file : Bytes}

/-! ## References to parts -/

/-- A part of one generation of an open journal. -/
structure JournalPartRef where
  raw : PartRef
  generation : Nat
deriving DecidableEq

inductive PartRefError where
  | poisoned
  | stalePartRef (offset len : Nat)
deriving DecidableEq

namespace Journal

/-- The references of a handle whose generation is `generation`. -/
def partRefs (journal : Journal) (generation : Nat) : List JournalPartRef :=
  journal.parts.map fun raw => { raw := raw, generation := generation }

/-- The offsets increase, so that the search by offset finds the only candidate. -/
def checkPartRef (journal : Journal) (generation : Nat) (part : JournalPartRef) :
    Except PartRefError Unit :=
  if journal.poisoned then .error .poisoned
  else if part.generation = generation ∧
      (journal.partRefs generation).find? (·.raw.offset = part.raw.offset) = some part ∧
      journalHeaderLen + frameHeaderLen ≤ part.raw.offset ∧
      part.raw.offset + part.raw.len ≤ journal.len then .ok ()
  else .error (.stalePartRef part.raw.offset part.raw.len)

/-- `read_part`: the body behind a reference of this handle. -/
def readPartRef (journal : Journal) (generation : Nat) (part : JournalPartRef) :
    Except PartRefError Bytes :=
  match journal.checkPartRef generation part with
  | .error problem => .error problem
  | .ok () => .ok (journal.readPart part.raw)

end Journal

/-! ## No false reset -/

theorem recoverCommittedReset_of_no_reset (h : ∀ marker, ¬MarkedReset crc32c file marker) :
    recoverCommittedReset crc32c config file = .ok false := by
  unfold recoverCommittedReset
  by_cases hlong : file.length < journalHeaderLen + resetMarkerLen
  · rw [if_pos hlong]
  · rw [if_neg hlong]
    dsimp only
    cases hdecode : ResetMarker.decode crc32c (file.drop (file.length - resetMarkerLen)) with
    | none => rfl
    | some marker =>
      dsimp only
      by_cases hmeta : marker.previousLen ≠ file.length - resetMarkerLen ∨
          config.maxJournalLen < marker.previousLen ∨
          (SegmentId.new marker.previousSegmentId).isNone
      · rw [if_pos hmeta]
      · rw [if_neg hmeta]
        by_cases hexpected : (marker.expectedPreviousHeader crc32c).isNone
        · rw [if_pos hexpected]
        · rw [if_neg hexpected]
          by_cases hheader : (marker.classifyHeaderTransition crc32c
              (slice file 0 journalHeaderLen)).isNone
          · rw [if_pos hheader]
          · rw [not_or, not_not] at hmeta
            rw [Option.isNone_iff_eq_none] at hheader
            exact absurd ⟨by omega, hdecode, hmeta.1, Option.isSome_iff_ne_none.mpr hheader⟩
              (h marker)

/-- A header and the frames of parts never look like a committed reset, whatever the
last part ends in. -/
theorem no_false_reset (segmentId : SegmentId) (parts : List (ValidPart crc32c))
    (hlen : (image (some segmentId) parts).length ≤ maxJournalLen) (config : JournalConfig) :
    recoverCommittedReset crc32c config (image (some segmentId) parts) = .ok false ∧
      openOps crc32c config (image (some segmentId) parts) = [] := by
  have hmaxLen : maxJournalLen = 1073741824 := rfl
  rw [length_image] at hlen
  have hshows : Shows crc32c (image (some segmentId) parts ++ []) (some segmentId) parts :=
    shows_tail segmentId [] (by rw [List.length_nil]; omega)
      (fun hzero => absurd hzero (by decide))
  rw [List.append_nil] at hshows
  exact ⟨recoverCommittedReset_of_no_reset hshows.no_reset,
    openOps_of_no_reset hshows.ne_nil hshows.no_reset⟩

/-- A reset is not taken for committed behind one part. -/
theorem no_false_reset_sample :
    recoverCommittedReset castagnoli .default (image (some sampleId) [sampleValidPart]) =
        .ok false ∧
      openOps castagnoli .default (image (some sampleId) [sampleValidPart]) = [] :=
  no_false_reset sampleId [sampleValidPart] (by decide +kernel) .default

/-! ## Appends, and what reopening returns -/

/-- A sequence of appends under one identity, all of them accepted. -/
def Journal.appends (crc32c : Checksum) (journal : Journal) (segmentId : SegmentId) :
    List Bytes → Except JournalError Journal
  | [] => .ok journal
  | part :: parts =>
    match journal.append crc32c segmentId part with
    | (.error problem, _) => .error problem
    | (.ok _, next) => Journal.appends crc32c next segmentId parts

theorem open_clean (h : journal.Clean crc32c parts) :
    Journal.open crc32c journal.config (some journal.file) = .ok journal := by
  have hshows := h.shows
  have hbound := h.bound
  have hlen := h.length_file
  rw [open_of_checked h.config (by omega) (recoverCommittedReset_of_no_reset hshows.no_reset),
    openOps_of_no_reset hshows.ne_nil hshows.no_reset, applyAll_nil, h.file,
    openFile_image h.identity (Nat.lt_of_lt_of_le h.short (by decide)) h.admits, ← h.file,
    ← h.len, ← h.refs, ← h.healthy]

theorem open_create (hconfig : validateConfig config = .ok ()) :
    Journal.open crc32c config none = .ok (Journal.fresh crc32c config) := by
  have hfile : FileOp.applyAll [] (initializeJournal crc32c) =
      JournalHeader.empty.encode crc32c := by
    exact setLen_splice_empty []
  have hopen : openExisting crc32c config (JournalHeader.empty.encode crc32c) =
      .ok (Journal.fresh crc32c config) := open_some (open_clean (clean_fresh hconfig))
  unfold Journal.open
  rw [hconfig]
  rw [hfile, hopen]

theorem open_none {start : Journal} (h : Journal.open crc32c config none = .ok start) :
    validateConfig config = .ok () ∧ start = Journal.fresh crc32c config := by
  cases hconfig : validateConfig config with
  | error problem =>
    unfold Journal.open at h
    rw [hconfig] at h
    cases h
  | ok _ =>
    rw [open_create hconfig] at h
    exact ⟨rfl, (Except.ok.inj h).symm⟩

theorem append_ok {bytes : Bytes} {part : PartRef} {next : Journal}
    (h : journal.append crc32c segmentId bytes = (.ok part, next)) :
    journal.checkAppend crc32c segmentId bytes = .ok () ∧
      next = journal.appended crc32c segmentId bytes := by
  unfold Journal.append at h
  cases hcheck : journal.checkAppend crc32c segmentId bytes with
  | error problem =>
    rw [hcheck] at h
    cases h
  | ok _ =>
    rw [hcheck] at h
    cases h
    exact ⟨rfl, rfl⟩

theorem Journal.Clean.appends (h : journal.Clean crc32c parts) {bytes : List Bytes}
    {next : Journal} (happends : journal.appends crc32c segmentId bytes = .ok next) :
    ∃ more, next.Clean crc32c (parts ++ more) ∧ more.map ValidPart.bytes = bytes ∧
      next.config = journal.config := by
  induction bytes generalizing journal parts with
  | nil =>
    cases happends
    exact ⟨[], by rwa [List.append_nil], rfl, rfl⟩
  | cons first bytes ih =>
    rw [Journal.appends] at happends
    cases happend : journal.append crc32c segmentId first with
    | mk result after =>
      rw [happend] at happends
      cases result with
      | error problem => cases happends
      | ok ref =>
        obtain ⟨hcheck, rfl⟩ := append_ok happend
        obtain ⟨part, rfl⟩ := validPart_of_checkAppend h hcheck
        obtain ⟨more, hclean, hbytes, hconfig⟩ := ih (h.appended hcheck) happends
        refine ⟨part :: more, ?_, congrArg (part.bytes :: ·) hbytes, hconfig⟩
        rwa [List.append_assoc] at hclean

theorem find?_of_sorted {refs : List PartRef} (h : refs.Pairwise (·.offset < ·.offset))
    {part : PartRef} (hpart : part ∈ refs) (generation : Nat) :
    (refs.map fun raw => JournalPartRef.mk raw generation).find?
      (·.raw.offset = part.offset) = some ⟨part, generation⟩ := by
  induction refs with
  | nil => cases hpart
  | cons first refs ih =>
    obtain ⟨hfirst, hrest⟩ := List.pairwise_cons.mp h
    rcases List.mem_cons.mp hpart with rfl | htail
    · rw [List.map_cons, List.find?_cons_of_pos (by simp)]
    · have hlt := hfirst part htail
      have hne : first.offset ≠ part.offset := by omega
      rw [List.map_cons, List.find?_cons_of_neg (by simpa using hne)]
      exact ih hrest htail

theorem Journal.Clean.tiles (h : journal.Clean crc32c parts) :
    Tiles journalHeaderLen journal.parts journal.len := by
  rw [h.refs, h.len]
  exact tiles_locate _ _

theorem Journal.Clean.checkPartRef (h : journal.Clean crc32c parts) {raw : PartRef}
    (hraw : raw ∈ journal.parts) (generation : Nat) :
    journal.checkPartRef generation ⟨raw, generation⟩ = .ok () := by
  obtain ⟨hstart, hend⟩ := h.tiles.bounds hraw
  have hfind := find?_of_sorted h.tiles.sorted hraw generation
  rw [Journal.checkPartRef, h.healthy, if_neg Bool.false_ne_true]
  exact if_pos ⟨rfl, hfind, hstart, hend⟩

theorem readPartRef_clean (h : journal.Clean crc32c parts) (generation : Nat) :
    (journal.partRefs generation).map (journal.readPartRef generation) =
      parts.map fun part => .ok part.bytes := by
  have hread : ∀ raw ∈ journal.parts,
      journal.readPartRef generation ⟨raw, generation⟩ = .ok (journal.readPart raw) := by
    intro raw hraw
    rw [Journal.readPartRef, h.checkPartRef hraw]
  have hbodies := congrArg (List.map (Except.ok : Bytes → Except PartRefError Bytes)) h.bodies
  rw [Journal.bodies, List.map_map, List.map_map] at hbodies
  rw [Journal.partRefs, List.map_map]
  exact (List.map_congr_left hread).trans hbodies

/-- Reopening a journal after any number of appends returns the same identity, length and
parts, and reads every part back. -/
theorem reopen_appends {start : Journal} {bytes : List Bytes}
    (hstart : Journal.open crc32c config none = .ok start)
    (h : start.appends crc32c segmentId bytes = .ok journal) :
    Journal.open crc32c config (some journal.file) = .ok journal ∧
      ∀ generation, (journal.partRefs generation).map (journal.readPartRef generation) =
        bytes.map .ok := by
  obtain ⟨hconfig, rfl⟩ := open_none hstart
  obtain ⟨parts, hclean, hbytes, hsame⟩ := (clean_fresh hconfig).appends h
  have hopen := open_clean hclean
  rw [hsame] at hopen
  refine ⟨hopen, fun generation => ?_⟩
  rw [readPartRef_clean hclean, ← hbytes, List.map_map]
  rfl

theorem appends_sample : (Journal.fresh castagnoli .default).appends castagnoli sampleId
    [samplePart, secondPart] = .ok secondJournal := by
  rw [Journal.appends, Journal.append, checkAppend_sample]
  show sampleJournal.appends castagnoli sampleId [secondPart] = _
  rw [Journal.appends, Journal.append, checkAppend_second]
  rfl

theorem reopen_appends_sample :
    Journal.open castagnoli .default (some secondJournal.file) = .ok secondJournal ∧
      ∀ generation, (secondJournal.partRefs generation).map
        (secondJournal.readPartRef generation) = [samplePart, secondPart].map .ok :=
  reopen_appends (open_create rfl) appends_sample

end Kronika.Writer
