/-
Crash safety of an append.

A stop within an append leaves the old journal with some of the new frame behind
it, or the whole frame under a header that is partly rewritten.  The length that
the header records tells a complete append from every other file.
-/
import Kronika.Format.Crc
import Kronika.Journal.Recovery

namespace Kronika.Writer

open Format Library

variable {crc32c : Checksum} {journal : Journal} {parts : List (ValidPart crc32c)}
variable {part : ValidPart crc32c} {segmentId : SegmentId} {file : Bytes}

/-! ## The files of a stopped append -/

theorem newHeader_eq (h : journal.Clean crc32c parts) :
    journal.newHeader segmentId part.bytes = headerOf (some segmentId) (parts ++ [part]) := by
  have hlen := h.len
  have hframes : (frames (parts ++ [part])).length = (frames parts).length + part.frameLen := by
    rw [frames_append, List.length_append, length_frames_cons]
    rfl
  have hframe : part.frameLen = frameHeaderLen + part.bytes.length := rfl
  rw [headerOf, hframes]
  show JournalHeader.mk _ (journal.len + (frameHeaderLen + part.bytes.length) -
    journalHeaderLen) = _
  rw [show journal.len + (frameHeaderLen + part.bytes.length) - journalHeaderLen =
    (frames parts).length + part.frameLen by omega]
  rfl

theorem mem_stops_writeFrame {ops : List FileOp} {after : Bytes}
    (h : after ∈ stops file (writeFrame crc32c file.length part.bytes ++ ops)) :
    (∃ k ≤ part.frameLen, after = file ++ part.frame.take k) ∨
      after ∈ stops (file ++ part.frame) ops := by
  have hheader := FrameHeader.length_encode crc32c { partLen := part.bytes.length }
  have hframe : part.frame = FrameHeader.encode crc32c { partLen := part.bytes.length } ++
      part.bytes := rfl
  have hlen : part.frameLen = frameHeaderLen + part.bytes.length := rfl
  rcases mem_stops_write.mp h with ⟨k, hk, rfl⟩ | h
  · left
    refine ⟨k, by omega, ?_⟩
    rw [writeAt_length, hframe, List.take_append_of_le_length (by omega)]
  · rw [writeAt_length] at h
    have hend : file.length + frameHeaderLen =
        (file ++ FrameHeader.encode crc32c { partLen := part.bytes.length }).length := by
      rw [List.length_append, hheader]
    rw [hend] at h
    rcases mem_stops_write.mp h with ⟨k, hk, rfl⟩ | h
    · left
      refine ⟨frameHeaderLen + k, by omega, ?_⟩
      have htake : part.frame.take (frameHeaderLen + k) =
          FrameHeader.encode crc32c { partLen := part.bytes.length } ++ part.bytes.take k := by
        rw [hframe, ← hheader, List.take_length_add_append]
      rw [writeAt_length, htake, List.append_assoc]
    · right
      rwa [writeAt_length, List.append_assoc] at h

/-- What a stop within an append leaves. -/
inductive Stopped (crc32c : Checksum) (journal : Journal) (parts : List (ValidPart crc32c))
    (segmentId : SegmentId) (part : ValidPart crc32c) : Bytes → Prop
  | tornFirstHeader (k : Nat) (hk : k ≤ journalHeaderLen) (hempty : parts = []) :
      Stopped crc32c journal parts segmentId part
        (splice k ((headerOf (some segmentId) [part]).encode crc32c)
          (JournalHeader.empty.encode crc32c))
  | tornFirstFrame (k : Nat) (hk : k ≤ part.frameLen) (hempty : parts = []) :
      Stopped crc32c journal parts segmentId part
        ((headerOf (some segmentId) [part]).encode crc32c ++ part.frame.take k)
  | tornFrame (k : Nat) (hk : k ≤ part.frameLen) (hne : parts ≠ []) :
      Stopped crc32c journal parts segmentId part
        (image journal.segmentId parts ++ part.frame.take k)
  | tornHeader (k : Nat) (hk : k ≤ journalHeaderLen) (hne : parts ≠ []) :
      Stopped crc32c journal parts segmentId part
        (splice k ((headerOf (some segmentId) (parts ++ [part])).encode crc32c)
          ((headerOf journal.segmentId parts).encode crc32c) ++ frames (parts ++ [part]))

theorem stopped_of_mem_stops (h : journal.Clean crc32c parts)
    (hfile : file ∈ stops journal.file (journal.appendOps crc32c segmentId part.bytes)) :
    Stopped crc32c journal parts segmentId part file := by
  have hlength : journal.len = journal.file.length := h.length_file.symm
  have hnew := JournalHeader.length_encode crc32c (headerOf (some segmentId) (parts ++ [part]))
  rw [Journal.appendOps, h.isEmpty_parts, newHeader_eq h, hlength] at hfile
  by_cases hparts : parts = []
  · subst hparts
    have hsegment := h.identity.mpr rfl
    have hempty : journal.file = JournalHeader.empty.encode crc32c := by
      rw [h.file, hsegment, image_nil]
    rw [hempty] at hfile
    rcases mem_stops_write.mp hfile with ⟨k, hk, rfl⟩ | hfile
    · rw [writeAt_zero_take hk]
      exact .tornFirstHeader k (by rwa [JournalHeader.length_encode] at hk) rfl
    · rcases mem_stops_writeFrame hfile with ⟨k, hk, rfl⟩ | hfile
      · exact .tornFirstFrame k hk rfl
      · have hdone : file = (headerOf (some segmentId) [part]).encode crc32c ++ part.frame := by
          rcases mem_stops_sync.mp hfile with rfl | hnil
          · rfl
          · exact mem_stops_nil.mp hnil
        have htake : part.frame.take part.frameLen = part.frame :=
          List.take_of_length_le (Nat.le_of_eq part.length_frame)
        rw [hdone, ← htake]
        exact .tornFirstFrame part.frameLen (Nat.le_refl _) rfl
  · have hisEmpty : parts.isEmpty = false := by
      rw [List.isEmpty_eq_false_iff]
      exact hparts
    have hfinal : frames (parts ++ [part]) = frames parts ++ part.frame := by
      rw [frames_append]
      exact congrArg (frames parts ++ ·) (List.append_nil _)
    rw [hisEmpty, h.file] at hfile
    rcases mem_stops_writeFrame hfile with ⟨k, hk, rfl⟩ | hfile
    · exact .tornFrame k hk hparts
    · rw [image, List.append_assoc, ← hfinal] at hfile
      have hrewrite : ∀ k ≤ journalHeaderLen,
          splice k ((headerOf (some segmentId) (parts ++ [part])).encode crc32c)
            ((headerOf journal.segmentId parts).encode crc32c ++ frames (parts ++ [part])) =
          splice k ((headerOf (some segmentId) (parts ++ [part])).encode crc32c)
            ((headerOf journal.segmentId parts).encode crc32c) ++ frames (parts ++ [part]) :=
        fun k hk => splice_append _ (by rwa [JournalHeader.length_encode])
      rcases mem_stops_write.mp hfile with ⟨k, hk, rfl⟩ | hfile
      · rw [writeAt_zero_take (by rwa [hnew]), hrewrite k hk]
        exact .tornHeader k hk hparts
      · rw [writeAt_zero, hnew, hrewrite _ (Nat.le_refl _)] at hfile
        rcases mem_stops_sync.mp hfile with rfl | hnil
        · exact .tornHeader _ (Nat.le_refl _) hparts
        · rw [mem_stops_nil.mp hnil]
          exact .tornHeader _ (Nat.le_refl _) hparts

/-! ## What they show -/

section Outcomes

variable {header : Bytes}

theorem slice_torn {old new : JournalHeader} (k : Nat) (hstate : old.state = new.state) :
    slice (splice k (new.encode crc32c) (old.encode crc32c)) 12 24 =
      slice (new.encode crc32c) 12 24 := by
  have hlen : (new.encode crc32c).length = (old.encode crc32c).length := by
    rw [JournalHeader.length_encode, JournalHeader.length_encode]
  have hsame : slice (old.encode crc32c) 12 24 = slice (new.encode crc32c) 12 24 := by
    rw [← slice_append_slice (b := 16) (by omega) (by omega), JournalHeader.slice_flags,
      JournalHeader.slice_identity, hstate, ← JournalHeader.slice_flags crc32c new,
      ← JournalHeader.slice_identity crc32c new, slice_append_slice (by omega) (by omega)]
  rw [slice_splice hlen (by rw [JournalHeader.length_encode]; decide), hsame, splice_self]

theorem state_of_decode {decoded recorded : JournalHeader}
    (hheader : header.length = journalHeaderLen)
    (hdecode : JournalHeader.decode crc32c header = .ok decoded)
    (hsame : slice header 12 24 = slice (recorded.encode crc32c) 12 24) :
    decoded.state = recorded.state := by
  obtain ⟨rfl, -⟩ := JournalHeader.encode_of_decode hheader hdecode
  have hflags : decoded.state.flags = recorded.state.flags := by
    have h := congrArg (fun bytes => slice bytes 0 4) hsame
    rwa [slice_slice (by omega), slice_slice (by omega), JournalHeader.slice_flags,
      JournalHeader.slice_flags] at h
  have hidentity : decoded.state.identity = recorded.state.identity := by
    have h := congrArg (fun bytes => slice bytes 4 12) hsame
    rwa [slice_slice (by omega), slice_slice (by omega), JournalHeader.slice_identity,
      JournalHeader.slice_identity] at h
  cases hd : decoded.state with
  | empty =>
    cases hr : recorded.state with
    | empty => rfl
    | active id =>
      rw [hd, hr] at hflags
      cases hflags
  | active id =>
    cases hr : recorded.state with
    | empty =>
      rw [hd, hr] at hflags
      cases hflags
    | active other =>
      rw [hd, hr] at hidentity
      have hid := congrArg decodeI64 hidentity
      rw [JournalState.identity, JournalState.identity, decodeI64_i64Bytes,
        decodeI64_i64Bytes] at hid
      rw [hid]

/-- The length in a header that is partly rewritten is the old one, or agrees with the
new one in its lowest byte. -/
theorem bodyLen_torn (crc32c : Checksum) (old new : JournalHeader) (k : Nat)
    (hold : old.bodyLen < 2 ^ 64) (hnew : new.bodyLen < 2 ^ 64) :
    leNat (slice (splice k (new.encode crc32c) (old.encode crc32c)) 24 32) = old.bodyLen ∨
      leNat (slice (splice k (new.encode crc32c) (old.encode crc32c)) 24 32) % 256 =
        new.bodyLen % 256 := by
  have hlen : (new.encode crc32c).length = (old.encode crc32c).length := by
    rw [JournalHeader.length_encode, JournalHeader.length_encode]
  rw [slice_splice hlen (by rw [JournalHeader.length_encode]; decide),
    JournalHeader.slice_bodyLen, JournalHeader.slice_bodyLen]
  by_cases hk : k - 24 = 0
  · left
    rw [hk, splice_zero, leNat_u64 hold]
  · right
    by_cases hfull : 8 ≤ k - 24
    · rw [splice_of_length_le (by rwa [length_leBytes]) (by rwa [length_leBytes]), leNat_u64 hnew]
    · have hmod := leNat_splice_mod (k - 24) (leBytes 8 old.bodyLen)
        (show k - 24 ≤ (leBytes 8 new.bodyLen).length by rw [length_leBytes]; omega)
      have hdvd : 256 ∣ 256 ^ (k - 24) := dvd_pow_self 256 hk
      rw [leNat_u64 hnew] at hmod
      have hlow := congrArg (· % 256) hmod
      simpa only [Nat.mod_mod_of_dvd _ hdvd] using hlow

theorem length_splice_headers (crc32c : Checksum) (k : Nat) (new old : JournalHeader) :
    (splice k (new.encode crc32c) (old.encode crc32c)).length = journalHeaderLen := by
  rw [length_splice (by rw [JournalHeader.length_encode, JournalHeader.length_encode]),
    JournalHeader.length_encode]

theorem length_frames_single (part : ValidPart crc32c) :
    (frames [part]).length = part.frameLen := by
  rw [length_frames_cons]
  rfl

theorem length_take_frame {k : Nat} (hk : k ≤ part.frameLen) : (part.frame.take k).length = k := by
  rw [List.length_take, part.length_frame, Nat.min_eq_left hk]

theorem shows_tornFirstHeader (hheader : header.length = journalHeaderLen) :
    Shows crc32c header none ([] : List (ValidPart crc32c)) := by
  have hreset : ∀ marker, ¬MarkedReset crc32c header marker := fun marker h => by
    have hlong := h.long
    have hmarker : resetMarkerLen = 32 := rfl
    omega
  have hnil : header ++ frames ([] : List (ValidPart crc32c)) = header := List.append_nil header
  have hshows : Shows crc32c (header ++ frames ([] : List (ValidPart crc32c))) none [] :=
    shows_frames hheader [] (fun marker => hnil.symm ▸ hreset marker)
      (fun decoded _ hne => absurd rfl hne)
  exact hnil ▸ hshows

theorem shows_announced {recorded : JournalHeader} {body : Bytes} {id : Int64}
    {segmentId : Option SegmentId} (hstate : recorded.state = .active id)
    (hlt : body.length < recorded.bodyLen) (hshort : recorded.bodyLen < 2 ^ 32) :
    Shows crc32c (recorded.encode crc32c ++ body) segmentId parts := by
  have hheader36 : journalHeaderLen = 36 := rfl
  have hreset : ∀ marker, ¬MarkedReset crc32c (recorded.encode crc32c ++ body) marker :=
    not_reset_of_bodyLen hstate (by omega) (by omega) (by omega)
  exact shows_of_bodyLen (by omega) (by omega) hreset

theorem not_reset_frame_start {before : Bytes} (marker : ResetMarker) :
    ¬MarkedReset crc32c (before ++ part.frame.take resetMarkerLen) marker := by
  have hframe := part.lt_frameLen
  have htake : (part.frame.take resetMarkerLen).length = resetMarkerLen :=
    length_take_frame (by omega)
  intro h
  have hmagic := ResetMarker.slice_magic_of_decode h.decoded
  have hdrop : (before ++ part.frame.take resetMarkerLen).drop
      ((before ++ part.frame.take resetMarkerLen).length - resetMarkerLen) =
        part.frame.take resetMarkerLen := by
    rw [List.length_append, htake]
    exact List.drop_left
  rw [hdrop] at hmagic
  have hstart := congrArg (fun bytes => slice bytes 0 4) hmagic
  cases hstart

theorem shows_tail (segmentId : SegmentId) (tail : Bytes)
    (hbound : journalHeaderLen + (frames parts).length + tail.length < 2 ^ 32)
    (hmarker : tail.length = resetMarkerLen → ∀ marker,
      ¬MarkedReset crc32c (image (some segmentId) parts ++ tail) marker) :
    Shows crc32c (image (some segmentId) parts ++ tail) (some segmentId) parts := by
  have hrecorded : (headerOf (some segmentId) parts).bodyLen = (frames parts).length := rfl
  have himage : image (some segmentId) parts ++ tail =
      (headerOf (some segmentId) parts).encode crc32c ++ (frames parts ++ tail) := by
    rw [image, List.append_assoc]
  have hbody : (frames parts ++ tail).length = (frames parts).length + tail.length :=
    List.length_append
  have hreset : ∀ marker, ¬MarkedReset crc32c (image (some segmentId) parts ++ tail) marker := by
    by_cases htail : tail.length = resetMarkerLen
    · exact hmarker htail
    · rw [himage]
      exact not_reset_of_bodyLen rfl (by omega) (by omega) (by omega)
  by_cases hnil : tail = []
  · rw [hnil, List.append_nil] at hreset ⊢
    refine shows_frames (JournalHeader.length_encode crc32c _) parts hreset
      (fun decoded hdecode _ => ?_)
    rw [JournalHeader.decode_encode (by omega)] at hdecode
    rw [← Except.ok.inj hdecode]
    rfl
  · have hpos : 0 < tail.length := List.length_pos_iff.mpr hnil
    rw [himage] at hreset ⊢
    exact shows_of_bodyLen (by omega) (by omega) hreset

theorem shows_tornHeader (segmentId : SegmentId) (k : Nat)
    (hbound : journalHeaderLen + (frames (parts ++ [part])).length < 2 ^ 32) {torn : Bytes}
    (hsplice : torn = splice k ((headerOf (some segmentId) (parts ++ [part])).encode crc32c)
      ((headerOf (some segmentId) parts).encode crc32c)) :
    Shows crc32c (torn ++ frames (parts ++ [part])) (some segmentId) (parts ++ [part]) := by
  have hmarker32 : resetMarkerLen = 32 := rfl
  have hframe := part.lt_frameLen
  have htorn : torn.length = journalHeaderLen := by
    rw [hsplice, length_splice_headers]
  have hall : (frames (parts ++ [part])).length = (frames parts).length + part.frameLen := by
    rw [frames_append, List.length_append, length_frames_single]
  have hsame : slice torn 12 24 =
      slice ((headerOf (some segmentId) (parts ++ [part])).encode crc32c) 12 24 := by
    rw [hsplice]
    exact slice_torn k rfl
  have hreset : ∀ marker, ¬MarkedReset crc32c (torn ++ frames (parts ++ [part])) marker := by
    intro marker h
    have hflags : slice (torn ++ frames (parts ++ [part])) 12 16 = [1, 1, 0, 0] := by
      have hstart := congrArg (fun bytes => slice bytes 0 4) hsame
      rw [slice_slice (by omega)] at hstart
      rw [slice_header htorn _ (by decide)]
      refine hstart.trans ?_
      rfl
    have hbody := h.bodyLen hflags (by rw [List.length_append]; omega)
    rw [slice_header htorn _ (by decide), List.length_append] at hbody
    rcases bodyLen_torn crc32c (headerOf (some segmentId) parts)
      (headerOf (some segmentId) (parts ++ [part])) k
      (show (frames parts).length < 2 ^ 64 by omega)
      (show (frames (parts ++ [part])).length < 2 ^ 64 by omega) with hold | hlow
    · rw [← hsplice] at hold
      have hrecorded : (headerOf (some segmentId) parts).bodyLen = (frames parts).length := rfl
      omega
    · rw [← hsplice] at hlow
      have hrecorded : (headerOf (some segmentId) (parts ++ [part])).bodyLen =
          (frames (parts ++ [part])).length := rfl
      omega
  exact shows_frames htorn _ hreset fun decoded hdecode _ => state_of_decode htorn hdecode hsame

end Outcomes

theorem Stopped.shows (hstopped : Stopped crc32c journal parts segmentId part file)
    (hclean : journal.Clean crc32c parts)
    (hidentity : parts ≠ [] → journal.segmentId = some segmentId)
    (hbound : journal.len + part.frameLen < 2 ^ 32) :
    Shows crc32c file journal.segmentId parts ∨
      Shows crc32c file (some segmentId) (parts ++ [part]) := by
  have hlen := hclean.len
  have hlast := length_frames_single part
  cases hstopped with
  | tornFirstHeader k hk hempty =>
    subst hempty
    rw [hclean.identity.mpr rfl]
    exact .inl (shows_tornFirstHeader
      (length_splice_headers crc32c k (headerOf (some segmentId) [part]) .empty))
  | tornFirstFrame k hk hempty =>
    subst hempty
    by_cases hk' : k = part.frameLen
    · have hwhole : part.frame.take k = frames [part] := by
        rw [List.take_of_length_le (by rw [part.length_frame]; omega)]
        exact (List.append_nil _).symm
      have himage : (headerOf (some segmentId) [part]).encode crc32c ++ part.frame.take k =
          image (some segmentId) [part] ++ [] := by
        rw [hwhole, List.append_nil, image]
      rw [himage]
      exact .inr (shows_tail segmentId [] (by rw [List.length_nil]; omega)
        (fun hzero => absurd hzero (by decide)))
    · have htake := length_take_frame hk
      exact .inl (shows_announced
        (show (headerOf (some segmentId) [part]).state = .active segmentId.value from rfl)
        (show (part.frame.take k).length < (frames [part]).length by omega)
        (show (frames [part]).length < 2 ^ 32 by omega))
  | tornFrame k hk hne =>
    have htake := length_take_frame hk
    rw [hidentity hne]
    refine .inl (shows_tail segmentId (part.frame.take k) (by omega) ?_)
    intro hk32 marker
    rw [htake] at hk32
    rw [hk32]
    exact not_reset_frame_start marker
  | tornHeader k hk hne =>
    have hall : (frames (parts ++ [part])).length = (frames parts).length + part.frameLen := by
      rw [frames_append, List.length_append, hlast]
    rw [hidentity hne]
    exact .inr (shows_tornHeader segmentId k
      (show journalHeaderLen + (frames (parts ++ [part])).length < 2 ^ 32 by omega) rfl)

theorem Journal.Clean.shows (h : journal.Clean crc32c parts) :
    Shows crc32c journal.file journal.segmentId parts := by
  have hmax := (validateConfig_ok h.config).2
  have hmaxLen : maxJournalLen = 1073741824 := rfl
  have hbound := h.bound
  have hlen := h.len
  rw [h.file]
  cases hid : journal.segmentId with
  | none =>
    rw [h.identity.mp hid]
    exact shows_tornFirstHeader (JournalHeader.length_encode crc32c .empty)
  | some segmentId =>
    have hshows : Shows crc32c (image (some segmentId) parts ++ []) (some segmentId) parts :=
      shows_tail segmentId [] (by rw [List.length_nil]; omega)
        (fun hzero => absurd hzero (by decide))
    rwa [List.append_nil] at hshows

/-- The file of a later append that is stopped `k` bytes into the header. -/
def Journal.tornHeader (crc32c : Checksum) (journal : Journal) (segmentId : SegmentId)
    (part : Bytes) (k : Nat) : Bytes :=
  writeAt (FileOp.applyAll journal.file (writeFrame crc32c journal.len part)) 0
    (((journal.newHeader segmentId part).encode crc32c).take k)

theorem tornHeader_mem_stops {bytes : Bytes} {k : Nat} (hparts : journal.parts.isEmpty = false)
    (hk : k ≤ journalHeaderLen) : journal.tornHeader crc32c segmentId bytes k ∈
      stops journal.file (journal.appendOps crc32c segmentId bytes) := by
  rw [Journal.appendOps, hparts, if_neg Bool.false_ne_true]
  refine mem_stops_write.mpr (.inr (mem_stops_write.mpr (.inr (mem_stops_write.mpr (.inl ?_)))))
  exact ⟨k, hk.trans_eq (JournalHeader.length_encode _ _).symm, rfl⟩

/-! ## Crash safety -/

theorem checkAppend_ok {bytes : Bytes} (h : journal.checkAppend crc32c segmentId bytes = .ok ()) :
    journal.poisoned = false ∧ (∀ id, journal.segmentId = some id → id = segmentId) ∧
      bytes.length ≤ journal.config.limits.maxPartLen ∧
      (∃ catalog, validatePart crc32c bytes = .ok catalog) ∧
      journal.parts.length < journal.config.maxParts ∧
      journal.nextLen bytes + resetMarkerLen ≤ journal.config.maxJournalLen := by
  unfold Journal.checkAppend at h
  by_cases hpoison : journal.poisoned = true
  · rw [if_pos hpoison] at h
    cases h
  · rw [if_neg hpoison] at h
    by_cases hidentity : (journal.segmentId.any (· ≠ segmentId)) = true
    · rw [if_pos hidentity] at h
      cases h
    · rw [if_neg hidentity] at h
      by_cases hlen : journal.config.limits.maxPartLen < bytes.length
      · rw [if_pos hlen] at h
        cases h
      · rw [if_neg hlen] at h
        cases hvalid : validatePart crc32c bytes with
        | error problem =>
          rw [hvalid] at h
          cases h
        | ok catalog =>
          rw [hvalid] at h
          by_cases hcount : journal.config.maxParts ≤ journal.parts.length
          · rw [if_pos hcount] at h
            cases h
          · rw [if_neg hcount] at h
            by_cases hfull : journal.config.maxJournalLen < journal.nextLen bytes + resetMarkerLen
            · rw [if_pos hfull] at h
              cases h
            · refine ⟨Bool.not_eq_true _ ▸ hpoison, fun id hid => ?_, by omega, ⟨catalog, rfl⟩,
                by omega, by omega⟩
              rw [hid] at hidentity
              simpa using hidentity

theorem validPart_of_checkAppend {bytes : Bytes} (hclean : journal.Clean crc32c parts)
    (hcheck : journal.checkAppend crc32c segmentId bytes = .ok ()) :
    ∃ part : ValidPart crc32c, part.bytes = bytes := by
  obtain ⟨-, -, -, ⟨catalog, hvalid⟩, -, hroom⟩ := checkAppend_ok hcheck
  have hmax := (validateConfig_ok hclean.config).2
  have hmaxLen : maxJournalLen = 1073741824 := rfl
  have hnext : journal.nextLen bytes = journal.len + (frameHeaderLen + bytes.length) := rfl
  exact ⟨⟨bytes, catalog, hvalid, by omega⟩, rfl⟩

theorem shows_of_mem_stops (hclean : journal.Clean crc32c parts)
    (hcheck : journal.checkAppend crc32c segmentId part.bytes = .ok ())
    (hfile : file ∈ stops journal.file (journal.appendOps crc32c segmentId part.bytes)) :
    Shows crc32c file journal.segmentId parts ∨
      Shows crc32c file (some segmentId) (parts ++ [part]) := by
  obtain ⟨-, hidentity, -, -, -, hroom⟩ := checkAppend_ok hcheck
  have hmax := (validateConfig_ok hclean.config).2
  have hmaxLen : maxJournalLen = 1073741824 := rfl
  have hnext : journal.nextLen part.bytes =
      journal.len + (frameHeaderLen + part.bytes.length) := rfl
  have hframe : part.frameLen = frameHeaderLen + part.bytes.length := rfl
  have hsegment : parts ≠ [] → journal.segmentId = some segmentId := fun hne => by
    cases hid : journal.segmentId with
    | none => exact absurd (hclean.identity.mp hid) hne
    | some id => rw [hidentity id hid]
  exact (stopped_of_mem_stops hclean hfile).shows hclean hsegment (by omega)

/-- However an append is stopped, the next open fails and leaves the file alone, or it
returns the parts before the append, or those with the new part behind them. -/
theorem append_crash_safe (hclean : journal.Clean crc32c parts) {bytes : Bytes}
    (hcheck : journal.checkAppend crc32c segmentId bytes = .ok ()) (config : JournalConfig)
    (hfile : file ∈ stops journal.file (journal.appendOps crc32c segmentId bytes)) :
    openOps crc32c config file = [] ∧
      ∀ opened, Journal.open crc32c config (some file) = .ok opened →
        (opened.segmentId = journal.segmentId ∧ opened.bodies = journal.bodies) ∨
          (opened.segmentId = some segmentId ∧ opened.bodies = journal.bodies ++ [bytes]) := by
  obtain ⟨part, rfl⟩ := validPart_of_checkAppend hclean hcheck
  have hbodies := hclean.bodies
  have hne : parts ++ [part] ≠ [] := by simp
  rcases shows_of_mem_stops hclean hcheck hfile with hold | hnew
  · refine ⟨openOps_of_no_reset hold.ne_nil hold.no_reset, fun opened hopened => .inl ?_⟩
    rw [hbodies]
    exact hold.opensAs config hclean.identity.mpr opened (open_some hopened)
  · refine ⟨openOps_of_no_reset hnew.ne_nil hnew.no_reset, fun opened hopened => .inr ?_⟩
    obtain ⟨hid, hall⟩ := hnew.opensAs config (fun hnil => absurd hnil hne) opened
      (open_some hopened)
    rw [List.map_append] at hall
    rw [hbodies]
    exact ⟨hid, hall⟩

def sampleId : SegmentId := ⟨1, by decide⟩

theorem checkAppend_sample :
    (Journal.fresh castagnoli .default).checkAppend castagnoli sampleId samplePart = .ok () := by
  decide +kernel

def sampleJournal : Journal :=
  (Journal.fresh castagnoli .default).appended castagnoli sampleId samplePart

theorem clean_sample : sampleJournal.Clean castagnoli [sampleValidPart] where
  file := by decide +kernel
  len := by decide +kernel
  refs := by decide +kernel
  identity := by decide
  config := rfl
  admits := ⟨by decide +kernel, by decide +kernel⟩
  bound := by decide +kernel
  healthy := rfl

theorem checkAppend_second :
    sampleJournal.checkAppend castagnoli sampleId secondPart = .ok () := by
  decide +kernel

def secondJournal : Journal := sampleJournal.appended castagnoli sampleId secondPart

def sampleTorn (k : Nat) : Bytes := sampleJournal.tornHeader castagnoli sampleId secondPart k

/-- Stopped at byte 20 the file does not open.  The two headers end in the same byte, so that
it does when all but that byte is written. -/
theorem append_crash_safe_sample :
    (Journal.open castagnoli .default (some (sampleTorn 20))).isOk = false ∧
      (Journal.open castagnoli .default (some (sampleTorn 35))).isOk = true ∧
        openOps castagnoli .default (sampleTorn 35) = [] ∧
          ∀ opened, Journal.open castagnoli .default (some (sampleTorn 35)) = .ok opened →
            (opened.segmentId = sampleJournal.segmentId ∧
                opened.bodies = sampleJournal.bodies) ∨
              (opened.segmentId = some sampleId ∧
                opened.bodies = sampleJournal.bodies ++ [secondPart]) :=
  ⟨by decide +kernel, by decide +kernel, append_crash_safe clean_sample checkAppend_second .default
    (tornHeader_mem_stops rfl (by decide))⟩

end Kronika.Writer
