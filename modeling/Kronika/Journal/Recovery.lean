/-
When opening a journal finishes a committed reset.

The marker names the header before the reset, and with it the length of the file
before the marker.  A file whose header announces another length is left alone.
-/
import Kronika.Journal.Clean

namespace Kronika.Writer

open Format Library

variable {crc32c : Checksum} {config : JournalConfig} {file : Bytes}

/-- A marker at the end of the file, which names the header at its start. -/
structure MarkedReset (crc32c : Checksum) (file : Bytes) (marker : ResetMarker) : Prop where
  long : journalHeaderLen + resetMarkerLen ≤ file.length
  decoded : ResetMarker.decode crc32c (file.drop (file.length - resetMarkerLen)) = some marker
  previous : marker.previousLen = file.length - resetMarkerLen
  header : (marker.classifyHeaderTransition crc32c (slice file 0 journalHeaderLen)).isSome = true

/-- The checks of a committed reset. -/
structure CommittedReset (crc32c : Checksum) (config : JournalConfig) (file : Bytes)
    (marker : ResetMarker) : Prop extends MarkedReset crc32c file marker where
  bound : marker.previousLen ≤ config.maxJournalLen
  identity : (SegmentId.new marker.previousSegmentId).isSome = true
  scan : ∃ scan, scanJournalStreamingStrictFrom crc32c (file.take marker.previousLen)
    journalHeaderLen config.limits config.maxParts = .ok scan ∧
      scan.parts ≠ [] ∧ scan.validLen = marker.previousLen

theorem recoverCommittedReset_ok_true :
    recoverCommittedReset crc32c config file = .ok true ↔
      ∃ marker, CommittedReset crc32c config file marker := by
  constructor
  · intro h
    unfold recoverCommittedReset at h
    by_cases hlong : file.length < journalHeaderLen + resetMarkerLen
    · rw [if_pos hlong] at h
      cases h
    · rw [if_neg hlong] at h
      dsimp only at h
      split at h
      · cases h
      · next marker hdecode =>
        by_cases hmeta : marker.previousLen ≠ file.length - resetMarkerLen ∨
            config.maxJournalLen < marker.previousLen ∨
            (SegmentId.new marker.previousSegmentId).isNone
        · rw [if_pos hmeta] at h
          cases h
        · rw [if_neg hmeta] at h
          by_cases hexpected : (marker.expectedPreviousHeader crc32c).isNone
          · rw [if_pos hexpected] at h
            cases h
          · rw [if_neg hexpected] at h
            by_cases hheader : (marker.classifyHeaderTransition crc32c
                (slice file 0 journalHeaderLen)).isNone
            · rw [if_pos hheader] at h
              cases h
            · rw [if_neg hheader] at h
              split at h
              · cases h
              · next scan hscan =>
                by_cases hparts : scan.parts.isEmpty ∨ scan.validLen ≠ marker.previousLen
                · rw [if_pos hparts] at h
                  cases h
                · simp only [not_or, not_not, Option.isNone_iff_eq_none] at hmeta hexpected
                  simp only [not_or, not_not, List.isEmpty_iff] at hparts
                  rw [Option.isNone_iff_eq_none] at hheader
                  have hmarked : MarkedReset crc32c file marker :=
                    ⟨by omega, hdecode, hmeta.1, Option.isSome_iff_ne_none.mpr hheader⟩
                  exact ⟨marker, hmarked, by omega, Option.isSome_iff_ne_none.mpr hmeta.2.2, scan,
                    hscan, hparts.1, hparts.2⟩
  · rintro ⟨marker, h⟩
    obtain ⟨scan, hscan, hparts, hvalid⟩ := h.scan
    have hexpected : (marker.expectedPreviousHeader crc32c).isNone = false := by
      cases hnone : marker.expectedPreviousHeader crc32c with
      | some expected => rfl
      | none =>
        have hheader := h.header
        simp [ResetMarker.classifyHeaderTransition, hnone] at hheader
    have hmeta : ¬(marker.previousLen ≠ file.length - resetMarkerLen ∨
        config.maxJournalLen < marker.previousLen ∨
        (SegmentId.new marker.previousSegmentId).isNone = true) := by
      have hbound := h.bound
      have hid := Option.isSome_iff_ne_none.mp h.identity
      simp only [not_or, not_not, Option.isNone_iff_eq_none]
      exact ⟨h.previous, by omega, hid⟩
    have hheader : (marker.classifyHeaderTransition crc32c
        (slice file 0 journalHeaderLen)).isNone = false := by
      rw [Option.isNone_eq_false_iff]
      exact h.header
    have hlong := h.long
    unfold recoverCommittedReset
    rw [if_neg (by omega)]
    dsimp only
    rw [h.decoded]
    dsimp only
    rw [if_neg hmeta, if_neg (by rw [hexpected]; exact Bool.false_ne_true),
      if_neg (by rw [hheader]; exact Bool.false_ne_true), hscan]
    dsimp only
    rw [if_neg]
    rw [List.isEmpty_iff, not_or, not_not]
    exact ⟨hparts, hvalid⟩

theorem MarkedReset.bodyLen {marker : ResetMarker} (h : MarkedReset crc32c file marker)
    (hflags : slice file 12 16 = [1, 1, 0, 0]) (hshort : file.length < 2 ^ 64) :
    leNat (slice file 24 32) + journalHeaderLen + resetMarkerLen = file.length := by
  have hlong := h.long
  have hheader : journalHeaderLen = 36 := rfl
  have hobserved : (slice file 0 journalHeaderLen).length = journalHeaderLen :=
    length_slice (by omega)
  obtain ⟨expected, hexpected, split, hsplit, hsame⟩ :=
    (ResetMarker.classifyHeaderTransition_isSome hobserved).mp h.header
  obtain ⟨rfl, hprevious⟩ := ResetMarker.expectedPreviousHeader_spec hexpected
  have hlen : (JournalHeader.empty.encode crc32c).length =
      ((ResetMarker.previousHeader marker.previousLen marker.previousSegmentId).encode
        crc32c).length := by
    rw [JournalHeader.length_encode, JournalHeader.length_encode]
  have hfield : ∀ start stop, stop ≤ 36 → slice file start stop =
      splice (split - start) (slice (JournalHeader.empty.encode crc32c) start stop)
        (slice ((ResetMarker.previousHeader marker.previousLen
          marker.previousSegmentId).encode crc32c) start stop) := by
    intro start stop hstop
    have hempty := JournalHeader.length_encode crc32c JournalHeader.empty
    rw [← slice_splice hlen (by omega), ← hsame]
    have houter : slice (slice file 0 journalHeaderLen) start stop =
        slice file (0 + start) (0 + stop) := slice_slice (by omega)
    rw [houter, Nat.zero_add, Nat.zero_add]
  -- The state byte of the header is not the empty one, so the rewrite stopped before it.
  have hbefore : split ≤ 12 := by
    by_contra hafter
    have hstate := hfield 12 16 (by omega)
    rw [hflags] at hstate
    obtain ⟨k, hk⟩ : ∃ k, split - 12 = k + 1 := ⟨split - 13, by omega⟩
    rw [hk] at hstate
    cases hstate
  have hbody := hfield 24 32 (by omega)
  rw [show split - 24 = 0 by omega] at hbody
  have hprev := h.previous
  rw [hbody]
  show leNat (leBytes 8 (marker.previousLen - journalHeaderLen)) + _ + _ = _
  rw [leNat_u64 (by omega)]
  omega

theorem openOps_of_no_reset (hne : file ≠ []) (h : ∀ marker, ¬MarkedReset crc32c file marker) :
    openOps crc32c config file = [] := by
  unfold openOps
  cases validateConfig config with
  | error problem => rfl
  | ok _ =>
    by_cases hlen : config.maxJournalLen < file.length
    · rw [if_pos hlen]
    · rw [if_neg hlen]
      cases hrecover : recoverCommittedReset crc32c config file with
      | error problem => rfl
      | ok recovered =>
        cases recovered with
        | true =>
          obtain ⟨marker, hmarker⟩ := recoverCommittedReset_ok_true.mp hrecover
          exact absurd hmarker.toMarkedReset (h marker)
        | false =>
          show (if file.isEmpty then _ else _) = _
          rw [if_neg (by simpa using hne)]

variable {journal : Journal}

theorem openExisting_ok (h : openExisting crc32c config file = .ok journal) :
    validateConfig config = .ok () ∧ file.length ≤ config.maxJournalLen ∧
      openFile crc32c config (FileOp.applyAll file (openOps crc32c config file)) =
        .ok journal := by
  unfold openExisting at h
  cases hconfig : validateConfig config with
  | error problem =>
    rw [hconfig] at h
    cases h
  | ok _ =>
    rw [hconfig] at h
    by_cases hlen : config.maxJournalLen < file.length
    · rw [if_pos hlen] at h
      cases h
    · rw [if_neg hlen] at h
      cases hrecover : recoverCommittedReset crc32c config file with
      | error problem =>
        rw [hrecover] at h
        cases h
      | ok recovered =>
        rw [hrecover] at h
        exact ⟨rfl, by omega, h⟩

theorem openExisting_of_no_reset (hne : file ≠ [])
    (h : ∀ marker, ¬MarkedReset crc32c file marker)
    (hopen : openExisting crc32c config file = .ok journal) :
    openFile crc32c config file = .ok journal := by
  have hfile := (openExisting_ok hopen).2.2
  rwa [openOps_of_no_reset hne h] at hfile

theorem open_some (h : Journal.open crc32c config (some file) = .ok journal) :
    openExisting crc32c config file = .ok journal := by
  unfold Journal.open at h
  cases hconfig : validateConfig config with
  | error problem =>
    rw [hconfig] at h
    cases h
  | ok _ =>
    rw [hconfig] at h
    exact h

/-! ## What a file shows -/

namespace Journal

/-- Opening the file fails, or returns exactly these parts under this identity. -/
def OpensAs (crc32c : Checksum) (config : JournalConfig) (file : Bytes)
    (segmentId : Option SegmentId) (parts : List (ValidPart crc32c)) : Prop :=
  ∀ opened, openExisting crc32c config file = .ok opened →
    opened.segmentId = segmentId ∧ opened.bodies = parts.map ValidPart.bytes

end Journal

/-- A file without a reset, which has these parts if its header records its length. -/
structure Shows (crc32c : Checksum) (file : Bytes) (segmentId : Option SegmentId)
    (parts : List (ValidPart crc32c)) : Prop where
  long : journalHeaderLen ≤ file.length
  no_reset : ∀ marker, ¬MarkedReset crc32c file marker
  body : ∀ header, JournalHeader.decode crc32c (slice file 0 journalHeaderLen) = .ok header →
    header.bodyLen = file.length - journalHeaderLen →
      file.drop journalHeaderLen = frames parts ∧
        (parts ≠ [] → header.state = stateOf segmentId)

section Shows

variable {segmentId : Option SegmentId} {parts : List (ValidPart crc32c)} {header : Bytes}

theorem Shows.ne_nil (h : Shows crc32c file segmentId parts) : file ≠ [] := by
  have hlong := h.long
  have hheader : journalHeaderLen = 36 := rfl
  exact List.ne_nil_of_length_pos (by omega)

theorem Shows.opensAs (h : Shows crc32c file segmentId parts) (config : JournalConfig)
    (hnone : parts = [] → segmentId = none) :
    Journal.OpensAs crc32c config file segmentId parts := by
  intro opened hopened
  have hopen := openExisting_of_no_reset h.ne_nil h.no_reset hopened
  obtain ⟨hlong, -, -, -, -, found, hdecode, hbody, -⟩ := openFile_ok hopen
  obtain ⟨hdrop, hstate⟩ := h.body found hdecode hbody
  have hheader : (slice file 0 journalHeaderLen).length = journalHeaderLen := length_slice hlong
  have hsplit : file = slice file 0 journalHeaderLen ++ frames parts := by
    rw [← hdrop, slice, List.drop_zero, List.take_append_drop]
  rw [hsplit] at hopen
  obtain ⟨decoded, hdecoded, -, hopenState, hidentity, hrefs, hfile, -, -, -⟩ :=
    openFile_frames hheader parts hopen
  have hsame : decoded = found := Except.ok.inj (hdecoded.symm.trans hdecode)
  refine ⟨?_, bodies_of_frames hheader hfile hrefs⟩
  by_cases hparts : parts = []
  · rw [hidentity.mpr hparts, hnone hparts]
  · rw [hsame] at hopenState
    exact stateOf_inj (hopenState.symm.trans (hstate hparts))

theorem slice_header (hheader : header.length = journalHeaderLen) (body : Bytes) {start stop : Nat}
    (hstop : stop ≤ journalHeaderLen) :
    slice (header ++ body) start stop = slice header start stop :=
  slice_append_left (by rwa [hheader])

theorem slice_header_full (hheader : header.length = journalHeaderLen) (body : Bytes) :
    slice (header ++ body) 0 journalHeaderLen = header := by
  rw [slice_header hheader _ (Nat.le_refl _), slice_full (Nat.le_of_eq hheader)]

theorem shows_frames (hheader : header.length = journalHeaderLen) (parts : List (ValidPart crc32c))
    (hreset : ∀ marker, ¬MarkedReset crc32c (header ++ frames parts) marker)
    (hstate : ∀ decoded, JournalHeader.decode crc32c header = .ok decoded → parts ≠ [] →
      decoded.state = stateOf segmentId) :
    Shows crc32c (header ++ frames parts) segmentId parts where
  long := by
    rw [List.length_append]
    omega
  no_reset := hreset
  body decoded hdecode _ := by
    rw [slice_header_full hheader] at hdecode
    exact ⟨List.drop_left' hheader, hstate decoded hdecode⟩

theorem shows_of_bodyLen {body : Bytes} {recorded : JournalHeader}
    (hshort : recorded.bodyLen < 2 ^ 64) (hne : recorded.bodyLen ≠ body.length)
    (hreset : ∀ marker, ¬MarkedReset crc32c (recorded.encode crc32c ++ body) marker) :
    Shows crc32c (recorded.encode crc32c ++ body) segmentId parts where
  long := by
    rw [List.length_append, JournalHeader.length_encode]
    omega
  no_reset := hreset
  body decoded hdecode hbody := by
    have hheader := JournalHeader.length_encode crc32c recorded
    rw [slice_header_full hheader, JournalHeader.decode_encode hshort] at hdecode
    rw [← Except.ok.inj hdecode, List.length_append] at hbody
    omega

theorem not_reset_of_bodyLen {body : Bytes} {recorded : JournalHeader} {id : Int64}
    (hstate : recorded.state = .active id) (hshort : recorded.bodyLen < 2 ^ 64)
    (hfile : journalHeaderLen + body.length < 2 ^ 64)
    (hlen : recorded.bodyLen + resetMarkerLen ≠ body.length) (marker : ResetMarker) :
    ¬MarkedReset crc32c (recorded.encode crc32c ++ body) marker := by
  have hheader := JournalHeader.length_encode crc32c recorded
  intro hreset
  have hflags : slice (recorded.encode crc32c ++ body) 12 16 = [1, 1, 0, 0] := by
    rw [slice_header hheader _ (by decide), JournalHeader.slice_flags, hstate]
    rfl
  have hbody := hreset.bodyLen hflags (by rwa [List.length_append, hheader])
  rw [slice_header hheader _ (by decide), JournalHeader.slice_bodyLen, leNat_u64 hshort,
    List.length_append] at hbody
  omega

end Shows

end Kronika.Writer
