/-
The writer and the reader accept the same journals.

Opening and scanning are written twice, over arbitrary bytes.  Both accept the
clean journals within the limits of the format, and see the same parts in them.
-/
import Kronika.Journal.Lives
import Kronika.Store.Scans

namespace Kronika.Store

open Format Library Writer

variable {crc32c : Checksum} {file : Bytes} {journal : Journal} {segmentId : SegmentId}
variable {parts : List (ValidPart crc32c)} {scan : JournalScan}

/-! ## What the writer accepts -/

theorem readJournalPlan_whole (hmax : file.length ≤ maxJournalLen)
    (hlong : journalHeaderLen ≤ file.length)
    (hreset : ∀ marker, ¬MarkedReset crc32c file marker) {header : JournalHeader}
    (hdecode : JournalHeader.decode crc32c (slice file 0 journalHeaderLen) = .ok header) :
    readJournalPlan crc32c file = headerPlan header (file.length - journalHeaderLen) := by
  have hheader36 : journalHeaderLen = 36 := rfl
  have hplan : committedResetPlan crc32c file = none := by
    cases hsome : committedResetPlan crc32c file with
    | none => rfl
    | some plan =>
      obtain ⟨-, -, -, marker, hmarker, -⟩ := committedResetPlan_some hsome
      exact absurd hmarker (hreset marker)
  rw [readJournalPlan, if_neg (by omega), if_neg (by omega), if_neg (by omega), hplan, hdecode]

theorem headerPlan_image (identity : Option SegmentId) (hidentity : identity = none ↔ parts = []) :
    headerPlan (headerOf identity parts) (frames parts).length =
      .ok (wholePlan identity (journalHeaderLen + (frames parts).length)) := by
  have hbody : (headerOf identity parts).bodyLen = (frames parts).length := rfl
  rw [headerPlan, if_neg (fun hne => hne hbody)]
  cases identity with
  | none =>
    rw [hidentity.mp rfl]
    rfl
  | some segmentId =>
    have hne : (frames parts).length ≠ 0 := fun hzero =>
      Option.some_ne_none _ (hidentity.mpr (frames_eq_nil.mp hzero))
    dsimp only [headerOf, stateOf]
    rw [if_neg hne, SegmentId.new_value]

theorem readJournalPlan_clean (h : journal.Clean crc32c parts) :
    readJournalPlan crc32c journal.file = .ok (wholePlan journal.segmentId journal.len) := by
  have hmax := (validateConfig_ok h.config).2
  have hbound := h.bound
  have hlen := h.len
  have hlength := h.length_file
  have hheader := JournalHeader.length_encode crc32c (headerOf journal.segmentId parts)
  have hdecode : JournalHeader.decode crc32c (slice journal.file 0 journalHeaderLen) =
      .ok (headerOf journal.segmentId parts) := by
    rw [h.file, image, slice_header_full hheader]
    exact JournalHeader.decode_encode (Nat.lt_of_lt_of_le h.short (by decide))
  have hbody : journal.file.length - journalHeaderLen = (frames parts).length := by omega
  rw [readJournalPlan_whole (by omega) (by omega) h.shows.no_reset hdecode, hbody,
    headerPlan_image _ h.identity, ← hlen]

theorem live_of_clean (h : journal.Clean crc32c parts) (hid : journal.segmentId = some segmentId) :
    Live crc32c journal.file segmentId parts where
  plan := by
    rw [readJournalPlan_clean h, hid, h.length_file]
  long := h.shows.long
  body := by
    rw [h.file]
    exact List.drop_left' (JournalHeader.length_encode crc32c _)
  ne_nil hnil := by
    rw [h.identity.mpr hnil] at hid
    cases hid

theorem activeParts_part (segmentId : SegmentId) (pos : Nat) (parts : List (ValidPart crc32c)) :
    (activeParts segmentId pos parts).map ActivePart.part = (locate pos parts).map Prod.fst := by
  rw [activeParts, List.map_map]
  rfl

theorem scanJournal_clean (h : journal.Clean crc32c parts)
    (hadmits : Admits .default maxJournalParts 0 parts) :
    ∃ scan, scanJournal crc32c (some journal.file) = .ok scan ∧ scan.committedReset = false ∧
      scan.validLen = journal.len ∧ scan.active.map ActivePart.part = journal.parts ∧
      ∀ part ∈ scan.active, some part.segmentId = journal.segmentId := by
  cases hid : journal.segmentId with
  | none =>
    have hplan := readJournalPlan_clean h
    rw [hid] at hplan
    have hrefs : journal.parts = [] := by
      rw [h.refs, h.identity.mp hid]
      rfl
    exact ⟨_, scanJournal_of_none hplan rfl, rfl, rfl, hrefs.symm,
      fun part hpart => absurd hpart List.not_mem_nil⟩
  | some segmentId =>
    refine ⟨_, scanJournal_live (live_of_clean h hid) hadmits, rfl, h.length_file, ?_, ?_⟩
    · rw [activeParts_part, h.refs]
    · intro part hpart
      obtain ⟨found, -, rfl⟩ := List.mem_map.mp hpart
      rfl

/-! ## What the reader accepts -/

theorem scanFrames_ok {plan : JournalReadPlan}
    (h : scanFrames crc32c file plan segmentId journalHeaderLen [] maxJournalParts = .ok scan) :
    ∃ found, visitFrames crc32c .default maxJournalParts
      ((file.take plan.scanLen).drop journalHeaderLen).length journalHeaderLen 0
        ((file.take plan.scanLen).drop journalHeaderLen) = .ok (found, plan.scanLen) := by
  rw [scanFrames] at h
  cases hvisit : visitJournalFrames crc32c file plan journalHeaderLen
      (maxJournalParts - ([] : List ActivePart).length) maxJournalParts with
  | error problem =>
    rw [hvisit] at h
    cases h
  | ok found => exact ⟨found, visitJournalFrames_ok hvisit⟩

theorem scanFrames_of_scan {plan : JournalReadPlan} (hplan : readJournalPlan crc32c file = .ok plan)
    (hid : plan.segmentId = some segmentId) (hscan : scanJournal crc32c (some file) = .ok scan) :
    scanFrames crc32c file plan segmentId journalHeaderLen [] maxJournalParts = .ok scan := by
  rw [scanJournal, scanJournalFrom, scanJournalReaderBoundedFrom, hplan] at hscan
  dsimp only at hscan
  rw [hid] at hscan
  dsimp only at hscan
  rwa [ite_self] at hscan

theorem clean_of_whole {header : JournalHeader} (hmax : file.length ≤ maxJournalLen)
    (hdecode : JournalHeader.decode crc32c (slice file 0 journalHeaderLen) = .ok header)
    (hbody : header.bodyLen = file.length - journalHeaderLen) (hne : header.bodyLen ≠ 0)
    (hstate : header.state = .active segmentId.value) {found : List (PartRef × Catalog)}
    (hvisit : visitFrames crc32c .default maxJournalParts
      (file.drop journalHeaderLen).length journalHeaderLen 0 (file.drop journalHeaderLen) =
        .ok (found, file.length)) :
    ∃ journal : Journal, ∃ parts, journal.Clean crc32c parts ∧ journal.file = file ∧
      journal.config = .default ∧ journal.segmentId = some segmentId := by
  have hmaxLen : maxJournalLen = 1073741824 := rfl
  have hdrop : (file.drop journalHeaderLen).length = file.length - journalHeaderLen :=
    List.length_drop
  have hvisit' : scanRest crc32c .default maxJournalParts journalHeaderLen 0
      (file.drop journalHeaderLen) =
        .ok (found, journalHeaderLen + (file.drop journalHeaderLen).length) := by
    rw [show journalHeaderLen + (file.drop journalHeaderLen).length = file.length by omega]
    exact hvisit
  obtain ⟨parts, hframes, -, hadmits⟩ := scanRest_full (by omega) (Nat.zero_le _) hvisit'
  have htotal := congrArg List.length hframes
  have hslice : (slice file 0 journalHeaderLen).length = journalHeaderLen := length_slice (by omega)
  obtain ⟨hencode, -⟩ := JournalHeader.encode_of_decode hslice hdecode
  have hheader : header = headerOf (some segmentId) parts := by
    cases header
    exact congrArg₂ JournalHeader.mk hstate (by
      show _ = (frames parts).length
      dsimp only at hbody
      omega)
  have himage : file = image (some segmentId) parts := by
    rw [image, ← hheader, hencode, ← hframes, slice, List.drop_zero, List.take_append_drop]
  refine ⟨{ file := file, len := file.length, config := .default
            parts := (locate journalHeaderLen parts).map Prod.fst
            segmentId := some segmentId, poisoned := false }, parts, ?_, rfl, rfl, rfl⟩
  have hparts : parts ≠ [] := by
    intro hnil
    rw [hnil] at htotal
    have hzero : (frames ([] : List (ValidPart crc32c))).length = 0 := rfl
    omega
  refine ⟨himage, ?_, rfl, ⟨(fun hnone => by cases hnone), fun hnil => absurd hnil hparts⟩, rfl,
    hadmits, hmax, rfl⟩
  show file.length = _
  omega

theorem clean_of_scan (hscan : scanJournal crc32c (some file) = .ok scan)
    (hreset : scan.committedReset = false) (hactive : scan.active ≠ []) :
    ∃ journal : Journal, ∃ parts, journal.Clean crc32c parts ∧ journal.file = file ∧
      journal.config = .default := by
  cases hplan : readJournalPlan crc32c file with
  | error problem =>
    rw [scanJournal_of_error hplan] at hscan
    cases hscan
  | ok plan =>
    rcases readJournalPlan_ok hplan with ⟨hnone, -⟩ | ⟨hcommitted, hsome, -⟩ |
      ⟨header, segmentId, hdecode, hbody, hne, hstate, rfl⟩
    · rw [scanJournal_of_none hplan hnone] at hscan
      cases hscan
      exact absurd rfl hactive
    · obtain ⟨segmentId, hid⟩ := Option.ne_none_iff_exists'.mp hsome
      obtain ⟨hnil, -⟩ := scanJournal_of_reset hplan hid hcommitted hscan
      exact absurd hnil hactive
    · obtain ⟨found, hvisit⟩ := scanFrames_ok (scanFrames_of_scan hplan rfl hscan)
      have hwhole : (wholePlan (some segmentId) file.length).scanLen = file.length := rfl
      rw [hwhole, List.take_length] at hvisit
      obtain ⟨journal, parts, hclean, hfile, hconfig, -⟩ := clean_of_whole
        (readJournalPlan_length hplan) hdecode hbody hne hstate hvisit
      exact ⟨journal, parts, hclean, hfile, hconfig⟩

theorem scanJournal_committed {marker : ResetMarker} (hmax : file.length ≤ maxJournalLen)
    (h : CommittedReset crc32c .default file marker) :
    ∃ scan, scanJournal crc32c (some file) = .ok scan ∧ scan.active = [] ∧
      scan.committedReset = true := by
  obtain ⟨segmentId, hplan⟩ := committedResetPlan_eq h
  obtain ⟨report, hreport, -, hvalid⟩ := h.scan
  have hread := readJournalPlan_of_reset hmax (by have hlong := h.long; omega) hplan
  have hvisit : ∃ found, visitJournalStreamingStrictFrom crc32c (file.take marker.previousLen)
      journalHeaderLen .default maxJournalParts = .ok (found, marker.previousLen) := by
    rw [scanJournalStreamingStrictFrom] at hreport
    cases hfound : visitJournalStreamingStrictFrom crc32c (file.take marker.previousLen)
        journalHeaderLen JournalConfig.default.limits JournalConfig.default.maxParts with
    | error problem =>
      rw [hfound] at hreport
      cases hreport
    | ok result =>
      obtain ⟨found, validLen⟩ := result
      rw [hfound] at hreport
      cases hreport
      have hend : validLen = marker.previousLen := hvalid
      rw [hend] at hfound
      exact ⟨found, hfound⟩
  obtain ⟨found, hfound⟩ := hvisit
  refine ⟨{ active := [], validLen := file.length, committedReset := true }, ?_, rfl, rfl⟩
  rw [scanJournal, scanJournalFrom, scanJournalReaderBoundedFrom, hread]
  dsimp only
  rw [ite_self, scanFrames, if_neg (by simp), visitJournalFrames]
  rw [List.length_nil, Nat.sub_zero, hfound]
  dsimp only
  rw [if_neg (fun hne => hne rfl)]
  rfl

/-- What the writer opens as it is, the reader scans as the same parts; what the reader
scans as live parts, the writer opens as them; and what the writer recovers as a committed
reset, of the files that it opens, is a committed reset for the reader. -/
theorem writer_reader_agree (crc32c : Checksum) (file : Bytes) :
    (∀ journal, Journal.open crc32c .default (some file) = .ok journal →
      FileOp.applyAll file (openOps crc32c .default file) = file →
        ∃ plan scan, readJournalPlan crc32c file = .ok plan ∧
          plan.segmentId = journal.segmentId ∧ scanJournal crc32c (some file) = .ok scan ∧
          scan.committedReset = false ∧ scan.validLen = journal.len ∧
          scan.active.map ActivePart.part = journal.parts ∧
          ∀ part ∈ scan.active, some part.segmentId = journal.segmentId) ∧
    (∀ scan, scanJournal crc32c (some file) = .ok scan → scan.committedReset = false →
      scan.active ≠ [] →
        ∃ journal, Journal.open crc32c .default (some file) = .ok journal ∧
          journal.file = file ∧ journal.parts = scan.active.map ActivePart.part ∧
          ∀ part ∈ scan.active, some part.segmentId = journal.segmentId) ∧
    (file.length ≤ JournalConfig.default.maxJournalLen →
      recoverCommittedReset crc32c .default file = .ok true →
        ∃ scan, scanJournal crc32c (some file) = .ok scan ∧ scan.active = [] ∧
          scan.committedReset = true) := by
  refine ⟨fun journal hopen hsame => ?_, fun scan hscan hreset hactive => ?_,
    fun hmax hrecover => ?_⟩
  · obtain ⟨parts, hclean⟩ := clean_of_open hopen
    obtain ⟨-, -, hfile⟩ := openExisting_ok (open_some hopen)
    rw [hsame] at hfile
    obtain ⟨-, hjournal, -, hconfig, -⟩ := openFile_ok hfile
    have hadmits := hclean.admits
    rw [hconfig] at hadmits
    obtain ⟨scan, hscan⟩ := scanJournal_clean hclean hadmits
    have hplan := readJournalPlan_clean hclean
    rw [hjournal] at hscan hplan
    exact ⟨_, scan, hplan, rfl, hscan⟩
  · obtain ⟨journal, parts, hclean, hfile, hconfig⟩ := clean_of_scan hscan hreset hactive
    have hadmits := hclean.admits
    rw [hconfig] at hadmits
    obtain ⟨same, hsame, -, -, hparts, hids⟩ := scanJournal_clean hclean hadmits
    have hopen := open_clean hclean
    rw [hconfig, hfile] at hopen
    rw [hfile, hscan] at hsame
    cases hsame
    exact ⟨journal, hopen, hfile, hparts.symm, hids⟩
  · obtain ⟨marker, hmarker⟩ := recoverCommittedReset_ok_true.mp hrecover
    exact scanJournal_committed hmax hmarker

/-! ## Readers beside writers -/

/-- The parts that a scan of this file found. -/
def JournalScan.bodies (scan : JournalScan) (file : Bytes) : List Bytes :=
  scan.active.map fun part => slice file part.part.offset (part.part.offset + part.part.len)

/-- At any moment of an append or a reset, and however often writers were stopped before, a scan
that finds live parts finds those whose append returned since a reset was begun, in their
order, and none but whole parts of appends that began since a reset returned. -/
theorem scan_beside_writers {events : List LifeEvent} {event : LifeEvent}
    (h : Life crc32c .default events journal) (hfile : Interrupted crc32c journal file event)
    (hscan : scanJournal crc32c (some file) = .ok scan) (hreset : scan.committedReset = false)
    (hactive : scan.active ≠ []) :
    ((events ++ [event]).foldl LifeEvent.atLeast []).Sublist (scan.bodies file) ∧
      (scan.bodies file).Sublist ((events ++ [event]).foldl LifeEvent.atMost []) := by
  -- Live parts make a clean journal, which the next writer opens as it is.
  obtain ⟨next, parts, hclean, rfl, hconfig⟩ := clean_of_scan hscan hreset hactive
  have hopen := open_clean hclean
  rw [hconfig, ← h.between.config_eq] at hopen
  have hnext := (h.step (.stopped hfile hopen)).between
  have hadmits := hclean.admits
  rw [hconfig] at hadmits
  obtain ⟨same, hsame, -, -, hparts, -⟩ := scanJournal_clean hclean hadmits
  rw [hscan] at hsame
  cases hsame
  have hbodies : scan.bodies next.file = next.bodies := by
    rw [Journal.bodies, ← hparts, List.map_map]
    rfl
  rw [hbodies]
  exact ⟨hnext.low, hnext.high⟩

/-- The first writer was stopped before it wrote a second part, the next one at the last byte
of the header. -/
theorem scan_beside_writers_sample :
    ∃ scan, scanJournal castagnoli (some (sampleTorn 35)) = .ok scan ∧
      [samplePart].Sublist (scan.bodies (sampleTorn 35)) ∧
        (scan.bodies (sampleTorn 35)).Sublist [samplePart, secondPart, secondPart] := by
  have hnew : Life castagnoli .default [] (.fresh castagnoli .default) := .new (open_create rfl)
  have happend : (Journal.fresh castagnoli .default).append castagnoli sampleId samplePart =
      (.ok _, sampleJournal) := rfl
  have hearly : Interrupted castagnoli sampleJournal sampleJournal.file
      (.stoppedAppend secondPart) := .append checkAppend_second (self_mem_stops _ _)
  have hlate : Interrupted castagnoli sampleJournal (sampleTorn 35) (.stoppedAppend secondPart) :=
    .append checkAppend_second (tornHeader_mem_stops rfl (by decide))
  have hlife := (hnew.step (.appended happend)).step (.stopped hearly (open_clean clean_sample))
  have hscan : scanJournal castagnoli (some (sampleTorn 35)) =
      .ok ⟨activeParts sampleId journalHeaderLen [sampleValidPart, secondValidPart],
        secondJournal.len, false⟩ := by
    decide +kernel
  exact ⟨_, hscan, scan_beside_writers hlife hlate hscan rfl (by decide +kernel)⟩

end Kronika.Store
