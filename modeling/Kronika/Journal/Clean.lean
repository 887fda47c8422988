/-
Clean journals, and what opening a file returns.

A clean journal is a header that agrees with the frames behind it.  Opening a file
that holds a header and whole frames returns these frames or fails: it never
returns some of them.
-/
import Kronika.Journal.HeaderCodec
import Kronika.Journal.Frames
import Kronika.Writer.Journal

namespace Kronika.Writer

open Format Library

variable {crc32c : Checksum}

/-! ## The bytes of a journal -/

def stateOf : Option SegmentId → JournalState
  | none => .empty
  | some segmentId => .active segmentId.value

theorem stateOf_inj {a b : Option SegmentId} (h : stateOf a = stateOf b) : a = b := by
  cases a with
  | none =>
    cases b with
    | none => rfl
    | some b => cases h
  | some a =>
    cases b with
    | none => cases h
    | some b => exact congrArg some (SegmentId.ext_value (JournalState.active.inj h))

def headerOf (segmentId : Option SegmentId) (parts : List (ValidPart crc32c)) : JournalHeader :=
  { state := stateOf segmentId, bodyLen := (frames parts).length }

def image (segmentId : Option SegmentId) (parts : List (ValidPart crc32c)) : Bytes :=
  (headerOf segmentId parts).encode crc32c ++ frames parts

theorem length_image (segmentId : Option SegmentId) (parts : List (ValidPart crc32c)) :
    (image segmentId parts).length = journalHeaderLen + (frames parts).length := by
  rw [image, List.length_append, JournalHeader.length_encode]

theorem image_nil : image none ([] : List (ValidPart crc32c)) =
    JournalHeader.empty.encode crc32c := by
  exact List.append_nil _

/-- A journal handle whose file holds exactly these parts. -/
structure Journal.Clean (crc32c : Checksum) (journal : Journal)
    (parts : List (ValidPart crc32c)) : Prop where
  file : journal.file = image journal.segmentId parts
  len : journal.len = journalHeaderLen + (frames parts).length
  refs : journal.parts = (locate journalHeaderLen parts).map Prod.fst
  identity : journal.segmentId = none ↔ parts = []
  config : validateConfig journal.config = .ok ()
  admits : Admits journal.config.limits journal.config.maxParts 0 parts
  bound : journal.len ≤ journal.config.maxJournalLen
  healthy : journal.poisoned = false

theorem validateConfig_ok {config : JournalConfig} (h : validateConfig config = .ok ()) :
    journalHeaderLen ≤ config.maxJournalLen ∧ config.maxJournalLen ≤ maxJournalLen := by
  unfold validateConfig at h
  split at h
  · cases h
  · rename_i hlen
    omega

namespace Journal.Clean

variable {journal : Journal} {parts : List (ValidPart crc32c)}

theorem length_file (h : journal.Clean crc32c parts) : journal.file.length = journal.len := by
  rw [h.file, length_image, h.len]

theorem short (h : journal.Clean crc32c parts) : (frames parts).length < 2 ^ 32 := by
  have hconfig := (validateConfig_ok h.config).2
  have hbound := h.bound
  have hlen := h.len
  have hmax : maxJournalLen = 1073741824 := rfl
  omega

theorem isEmpty_parts (h : journal.Clean crc32c parts) : journal.parts.isEmpty = parts.isEmpty := by
  rw [h.refs]
  cases parts <;> rfl

theorem currentHeader (h : journal.Clean crc32c parts) :
    journal.currentHeader = headerOf journal.segmentId parts := by
  have hbody : journal.len - journalHeaderLen = (frames parts).length := by
    have hlen := h.len
    omega
  rw [Journal.currentHeader, hbody]
  cases journal.segmentId <;> rfl

end Journal.Clean

variable {parts : List (ValidPart crc32c)}

theorem bodies_of_frames {journal : Journal} {header : Bytes}
    (hheader : header.length = journalHeaderLen) (hfile : journal.file = header ++ frames parts)
    (hrefs : journal.parts = (locate journalHeaderLen parts).map Prod.fst) :
    journal.bodies = parts.map ValidPart.bytes := by
  have hfile' : journal.file = header ++ frames parts ++ [] := by rw [hfile, List.append_nil]
  have hslice := slice_locate parts hfile'
  rw [hheader] at hslice
  rw [Journal.bodies, hrefs, List.map_map, ← hslice]
  rfl

theorem Journal.Clean.bodies {journal : Journal}
    (h : journal.Clean crc32c parts) : journal.bodies = parts.map ValidPart.bytes :=
  bodies_of_frames (JournalHeader.length_encode crc32c _) h.file h.refs

/-! ## Opening a file of whole frames -/

section Open

variable {config : JournalConfig} {file : Bytes} {journal : Journal}

theorem openActive_ok {rawId : Int64} {segmentId : SegmentId} {parts : List PartRef}
    (h : openActive crc32c config file rawId = .ok (segmentId, parts)) :
    rawId = segmentId.value ∧ parts ≠ [] ∧
      scanJournalStreamingStrictFrom crc32c file journalHeaderLen config.limits config.maxParts =
        .ok { parts := parts, validLen := file.length } := by
  unfold openActive at h
  cases hnew : SegmentId.new rawId with
  | none =>
    rw [hnew] at h
    cases h
  | some opened =>
    have hvalue : rawId = opened.value := SegmentId.value_of_new hnew
    rw [hnew] at h
    cases hscan : scanJournalStreamingStrictFrom crc32c file journalHeaderLen config.limits
        config.maxParts with
    | error problem =>
      rw [hscan] at h
      cases h
    | ok scan =>
      rw [hscan] at h
      dsimp only at h
      by_cases hvalid : scan.validLen = file.length
      · rw [if_neg (fun hne => hne hvalid)] at h
        by_cases hempty : scan.parts.isEmpty = true
        · rw [if_pos hempty] at h
          cases h
        · rw [if_neg hempty] at h
          cases h
          refine ⟨hvalue, fun hnil => hempty (by rw [hnil]; rfl), ?_⟩
          rw [← hvalid]
      · rw [if_pos hvalid] at h
        cases h

theorem openState_ok {header : JournalHeader} {segmentId : Option SegmentId} {parts : List PartRef}
    (h : openState crc32c config file header = .ok (segmentId, parts)) :
    header.state = stateOf segmentId ∧
      ((segmentId = none ∧ parts = [] ∧ file.length ≤ journalHeaderLen) ∨
        segmentId ≠ none ∧ parts ≠ [] ∧
          scanJournalStreamingStrictFrom crc32c file journalHeaderLen config.limits
            config.maxParts = .ok { parts := parts, validLen := file.length }) := by
  unfold openState at h
  cases hstate : header.state with
  | empty =>
    rw [hstate] at h
    by_cases hlen : file.length - journalHeaderLen = 0
    · rw [if_neg (fun hne => hne hlen)] at h
      cases h
      exact ⟨rfl, .inl ⟨rfl, rfl, by omega⟩⟩
    · rw [if_pos hlen] at h
      cases h
  | active rawId =>
    rw [hstate] at h
    dsimp only at h
    split at h
    · cases h
    · next hactive =>
      cases h
      obtain ⟨hid, hne, hscan⟩ := openActive_ok hactive
      exact ⟨congrArg JournalState.active hid, .inr ⟨Option.some_ne_none _, hne, hscan⟩⟩

theorem openFile_ok (h : openFile crc32c config file = .ok journal) :
    journalHeaderLen ≤ file.length ∧
      journal.file = file ∧ journal.len = file.length ∧ journal.config = config ∧
      journal.poisoned = false ∧
      ∃ header, JournalHeader.decode crc32c (slice file 0 journalHeaderLen) = .ok header ∧
        header.bodyLen = file.length - journalHeaderLen ∧
        openState crc32c config file header = .ok (journal.segmentId, journal.parts) := by
  unfold openFile at h
  by_cases hlen : file.length < journalHeaderLen
  · rw [if_pos hlen] at h
    cases h
  · rw [if_neg hlen] at h
    cases hdecode : JournalHeader.decode crc32c (slice file 0 journalHeaderLen) with
    | error problem =>
      rw [hdecode] at h
      cases h
    | ok header =>
      rw [hdecode] at h
      dsimp only at h
      by_cases hbody : header.bodyLen = file.length - journalHeaderLen
      · rw [if_neg (fun hne => hne hbody)] at h
        split at h
        · cases h
        · next hstate =>
          cases h
          exact ⟨by omega, rfl, rfl, rfl, rfl, header, rfl, hbody, hstate⟩
      · rw [if_pos hbody] at h
        cases h

theorem scan_frames (limits : JournalLimits) (maxParts : Nat) {header : Bytes}
    (hheader : header.length = journalHeaderLen) (rest : Bytes) :
    scanJournalStreamingStrictFrom crc32c (header ++ rest) journalHeaderLen limits maxParts =
      match scanRest crc32c limits maxParts journalHeaderLen 0 rest with
      | .error problem => .error problem
      | .ok (found, validLen) => .ok { parts := found.map Prod.fst, validLen := validLen } := by
  have hlen : ¬journalHeaderLen > (header ++ rest).length := by
    rw [List.length_append]
    omega
  have hdrop : (header ++ rest).drop journalHeaderLen = rest := List.drop_left' hheader
  rw [scanJournalStreamingStrictFrom, visitJournalStreamingStrictFrom, if_neg hlen, hdrop]
  rfl

theorem openFile_frames {header : Bytes} (hheader : header.length = journalHeaderLen)
    (parts : List (ValidPart crc32c))
    (h : openFile crc32c config (header ++ frames parts) = .ok journal) :
    ∃ decoded, JournalHeader.decode crc32c header = .ok decoded ∧
      decoded.bodyLen = (frames parts).length ∧ decoded.state = stateOf journal.segmentId ∧
      (journal.segmentId = none ↔ parts = []) ∧
      journal.parts = (locate journalHeaderLen parts).map Prod.fst ∧
      journal.file = header ++ frames parts ∧ journal.config = config ∧
      journal.len = journalHeaderLen + (frames parts).length ∧ journal.poisoned = false := by
  obtain ⟨-, hfile, hlen, hconfig, hpoison, decoded, hdecode, hbody, hopen⟩ := openFile_ok h
  obtain ⟨hstate, hcase⟩ := openState_ok hopen
  have htotal : (header ++ frames parts).length = journalHeaderLen + (frames parts).length := by
    rw [List.length_append, hheader]
  have hslice : slice (header ++ frames parts) 0 journalHeaderLen = header := by
    rw [slice_append_left (Nat.le_of_eq hheader.symm), slice_full (Nat.le_of_eq hheader)]
  rw [hslice] at hdecode
  rw [htotal] at hbody hlen
  refine ⟨decoded, hdecode, by omega, hstate, ?_, ?_, hfile, hconfig, hlen, hpoison⟩
  · rcases hcase with ⟨hnone, -, hshort⟩ | ⟨hsome, hne, hscan⟩
    · exact ⟨fun _ => frames_eq_nil.mp (by omega), fun _ => hnone⟩
    · refine ⟨fun hnone => absurd hnone hsome, fun hnil => absurd ?_ hne⟩
      rw [hnil, scan_frames config.limits config.maxParts hheader] at hscan
      exact (congrArg ScanReport.parts (Except.ok.inj hscan)).symm
  · rcases hcase with ⟨-, hparts, hshort⟩ | ⟨-, -, hscan⟩
    · rw [hparts, frames_eq_nil.mp (show (frames parts).length = 0 by omega)]
      rfl
    · rw [scan_frames config.limits config.maxParts hheader] at hscan
      cases hrest : scanRest crc32c config.limits config.maxParts journalHeaderLen 0
          (frames parts) with
      | error problem =>
        rw [hrest] at hscan
        cases hscan
      | ok result =>
        obtain ⟨found, validLen⟩ := result
        rw [hrest] at hscan
        have hreport := Except.ok.inj hscan
        have hvalid : validLen = journalHeaderLen + (frames parts).length := by
          rw [← htotal]
          exact congrArg ScanReport.validLen hreport
        rw [hvalid] at hrest
        rw [← scanRest_frames_full parts _ _ hrest]
        exact (congrArg ScanReport.parts hreport).symm

theorem openFile_image {segmentId : Option SegmentId} (hidentity : segmentId = none ↔ parts = [])
    (hshort : (frames parts).length < 2 ^ 64)
    (hadmits : Admits config.limits config.maxParts 0 parts) :
    openFile crc32c config (image segmentId parts) =
      .ok { file := image segmentId parts, len := journalHeaderLen + (frames parts).length
            config := config, parts := (locate journalHeaderLen parts).map Prod.fst
            segmentId := segmentId, poisoned := false } := by
  have hheader := JournalHeader.length_encode crc32c (headerOf segmentId parts)
  have hlen := length_image segmentId parts
  have hslice : slice (image segmentId parts) 0 journalHeaderLen =
      (headerOf segmentId parts).encode crc32c := by
    rw [image, slice_append_left (Nat.le_of_eq hheader.symm), slice_full (Nat.le_of_eq hheader)]
  have hdecode : JournalHeader.decode crc32c ((headerOf segmentId parts).encode crc32c) =
      .ok (headerOf segmentId parts) := JournalHeader.decode_encode hshort
  have hbody : (headerOf segmentId parts).bodyLen =
      (image segmentId parts).length - journalHeaderLen := by
    show (frames parts).length = _
    omega
  have hopen : openState crc32c config (image segmentId parts) (headerOf segmentId parts) =
      .ok (segmentId, (locate journalHeaderLen parts).map Prod.fst) := by
    cases segmentId with
    | none =>
      obtain rfl := hidentity.mp rfl
      rfl
    | some id =>
      have hscan : scanJournalStreamingStrictFrom crc32c (image (some id) parts) journalHeaderLen
          config.limits config.maxParts =
            .ok { parts := (locate journalHeaderLen parts).map Prod.fst
                  validLen := journalHeaderLen + (frames parts).length } := by
        rw [image, scan_frames config.limits config.maxParts hheader,
          scanRest_frames_all parts _ _ hadmits]
      have hne : ¬((locate journalHeaderLen parts).map Prod.fst).isEmpty = true := by
        cases parts with
        | nil => exact absurd (hidentity.mpr rfl) (Option.some_ne_none id)
        | cons part parts => exact Bool.false_ne_true
      have hactive : openActive crc32c config (image (some id) parts) id.value =
          .ok (id, (locate journalHeaderLen parts).map Prod.fst) := by
        unfold openActive
        rw [SegmentId.new_value, hscan]
        dsimp only
        rw [if_neg (fun hne => hne hlen.symm), if_neg hne]
      unfold openState
      dsimp only [headerOf, stateOf]
      rw [hactive]
  rw [openFile, if_neg (by omega), hslice, hdecode]
  dsimp only
  rw [if_neg (fun hne => hne hbody), hopen, hlen]

end Open

/-! ## A new journal -/

section Fresh

variable {config : JournalConfig}

theorem admits_nil (limits : JournalLimits) (maxParts : Nat) :
    Admits limits maxParts 0 ([] : List (ValidPart crc32c)) where
  len _ hpart := absurd hpart List.not_mem_nil
  count := Nat.zero_le _

def Journal.fresh (crc32c : Checksum) (config : JournalConfig) : Journal :=
  { file := JournalHeader.empty.encode crc32c, len := journalHeaderLen, config := config
    parts := [], segmentId := none, poisoned := false }

theorem clean_fresh (hconfig : validateConfig config = .ok ()) :
    (Journal.fresh crc32c config).Clean crc32c [] where
  file := image_nil.symm
  len := rfl
  refs := rfl
  identity := ⟨fun _ => rfl, fun _ => rfl⟩
  config := hconfig
  admits := admits_nil _ _
  bound := (validateConfig_ok hconfig).1
  healthy := rfl

end Fresh

end Kronika.Writer
