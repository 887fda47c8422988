/-
Round trips of the journal header and of the reset marker.

A decoded header is the encoding of what it decodes to: the decoder leaves no byte
of the 36 free.  So two headers that decode are equal as soon as their states and
lengths are.
-/
import Kronika.Format.JournalHeader

namespace Kronika.Format

open Library

variable {crc32c : Checksum}

namespace JournalHeader

section Fields

variable (crc32c : Checksum) (header : JournalHeader)

@[simp] theorem length_covered : header.covered.length = 32 := by
  cases hstate : header.state <;>
    simp [covered, hstate, JournalState.flags, JournalState.identity, i64Bytes, journalMagic]

@[simp] theorem length_encode : (header.encode crc32c).length = journalHeaderLen := by
  rw [encode, List.length_append, length_covered]
  rfl

theorem slice_magic : slice (header.encode crc32c) 0 8 = journalMagic := rfl

theorem slice_version : slice (header.encode crc32c) 8 12 = leBytes 4 journalVersion := rfl

theorem slice_covered : slice (header.encode crc32c) 0 32 = header.covered := by
  rw [encode, slice_append_left (by rw [length_covered]), slice_full (by rw [length_covered])]

theorem slice_crc :
    slice (header.encode crc32c) 32 36 = leBytes 4 (crc32c header.covered).toNat := by
  exact slice_append_right 0 4 (length_covered header)

theorem slice_flags : slice (header.encode crc32c) 12 16 = header.state.flags := by
  cases header with
  | mk state bodyLen => cases state <;> rfl

theorem slice_reserved : slice (header.encode crc32c) 14 16 = [0, 0] := by
  cases header with
  | mk state bodyLen => cases state <;> rfl

theorem slice_identity : slice (header.encode crc32c) 16 24 = header.state.identity := by
  cases header with
  | mk state bodyLen => cases state <;> rfl

theorem slice_bodyLen : slice (header.encode crc32c) 24 32 = leBytes 8 header.bodyLen := by
  cases header with
  | mk state bodyLen => cases state <;> rfl

end Fields

theorem decodeState_flags (header : JournalHeader) :
    decodeState ((header.encode crc32c).getD 12 0) ((header.encode crc32c).getD 13 0)
      (decodeI64 header.state.identity) = .ok header.state := by
  cases header with
  | mk state bodyLen =>
    cases state with
    | empty => rfl
    | active segmentId =>
      show (Except.ok (JournalState.active (decodeI64 (i64Bytes segmentId))) :
        Except JournalHeaderError JournalState) = _
      rw [decodeI64_i64Bytes]

theorem decode_encode {header : JournalHeader} (h : header.bodyLen < 2 ^ 64) :
    decode crc32c (header.encode crc32c) = .ok header := by
  have hversion : leNat (leBytes 4 journalVersion) = journalVersion := rfl
  rw [decode]
  simp only [slice_magic, slice_version, slice_crc, slice_covered, slice_reserved, slice_identity,
    slice_bodyLen, hversion, leNat_u32 (UInt32.toNat_lt _), leNat_u64 h,
    decodeState_flags, ne_eq, not_true_eq_false, if_false]

theorem decodeState_spec {state idPresent : UInt8} {identity : Bytes} {decoded : JournalState}
    (hlen : identity.length = 8)
    (h : decodeState state idPresent (decodeI64 identity) = .ok decoded) :
    [state, idPresent, 0, 0] = decoded.flags ∧ identity = decoded.identity := by
  unfold decodeState at h
  split at h
  · rename_i hzero
    obtain ⟨rfl, rfl⟩ := hzero
    split at h
    · cases h
    · rename_i hid
      cases h
      refine ⟨rfl, ?_⟩
      have heq := i64Bytes_decodeI64 hlen
      rw [not_not.mp hid] at heq
      rw [← heq]
      rfl
  · split at h
    · rename_i hone
      obtain ⟨rfl, rfl⟩ := hone
      cases h
      exact ⟨rfl, (i64Bytes_decodeI64 hlen).symm⟩
    · split at h
      · cases h
      · split at h
        · cases h
        · cases h

theorem encode_of_decode {bytes : Bytes} {header : JournalHeader}
    (hlen : bytes.length = journalHeaderLen) (h : decode crc32c bytes = .ok header) :
    header.encode crc32c = bytes ∧ header.bodyLen < 2 ^ 64 := by
  have hlen36 : bytes.length = 36 := hlen
  unfold decode at h
  split at h
  · cases h
  · rename_i hmagic
    split at h
    · cases h
    · rename_i hversion
      split at h
      · cases h
      · rename_i hcrc
        split at h
        · cases h
        · rename_i hreserved
          have hidlen : (slice bytes 16 24).length = 8 := length_slice (by omega)
          split at h
          · cases h
          · rename_i state hstate
            cases h
            obtain ⟨hflags, hidentity⟩ := decodeState_spec hidlen hstate
            have hbody : (slice bytes 24 32).length = 8 := length_slice (by omega)
            have hlt := leNat_lt (slice bytes 24 32)
            rw [hbody] at hlt
            refine ⟨?_, hlt⟩
            have hver : leBytes 4 journalVersion = slice bytes 8 12 := by
              rw [← not_not.mp hversion]
              have hl : (slice bytes 8 12).length = 4 := length_slice (by omega)
              rw [← hl, leBytes_leNat]
            have hpair : slice bytes 12 14 = [bytes.getD 12 0, bytes.getD 13 0] :=
              slice_pair bytes (by omega)
            have hflag : state.flags = slice bytes 12 16 := by
              rw [← hflags, ← slice_append_slice (b := 14) (by omega) (by omega), hpair,
                not_not.mp hreserved]
              rfl
            have hnum : leBytes 8 (leNat (slice bytes 24 32)) = slice bytes 24 32 := by
              rw [← hbody, leBytes_leNat]
            have hcovered : covered { state := state, bodyLen := leNat (slice bytes 24 32) } =
                slice bytes 0 32 := by
              rw [covered, ← not_not.mp hmagic, hver, hflag, ← hidentity, hnum,
                slice_append_slice (by omega) (by omega), slice_append_slice (by omega) (by omega),
                slice_append_slice (by omega) (by omega), slice_append_slice (by omega) (by omega)]
            have hl : (slice bytes 32 36).length = 4 := length_slice (by omega)
            rw [encode, hcovered, ← not_not.mp hcrc, ← hl, leBytes_leNat,
              slice_append_slice (by omega) (by omega), slice_full (by omega)]

end JournalHeader

/-! ## The reset marker -/

namespace ResetMarker

theorem length_covered (marker : ResetMarker) : marker.covered.length = 28 := by
  simp [covered, i64Bytes, resetMarkerMagic]

@[simp] theorem length_encode (crc32c : Checksum) (marker : ResetMarker) :
    (marker.encode crc32c).length = resetMarkerLen := by
  rfl

variable {marker : ResetMarker}

theorem decode_encode (hlen : marker.previousLen < 2 ^ 64)
    (hcrc : marker.previousHeaderCrc < 2 ^ 32) :
    decode crc32c (marker.encode crc32c) = some marker := by
  have hmagic : slice (marker.encode crc32c) 0 8 = resetMarkerMagic := rfl
  have hprevious : slice (marker.encode crc32c) 8 16 = leBytes 8 marker.previousLen := rfl
  have hid : slice (marker.encode crc32c) 16 24 = i64Bytes marker.previousSegmentId := rfl
  have hheader : slice (marker.encode crc32c) 24 28 = leBytes 4 marker.previousHeaderCrc := rfl
  have hcovered : slice (marker.encode crc32c) 0 28 = marker.covered := rfl
  have hsum : slice (marker.encode crc32c) 28 32 = leBytes 4 (crc32c marker.covered).toNat := rfl
  rw [decode]
  simp only [hmagic, hprevious, hid, hheader, hcovered, hsum, leNat_u64 hlen,
    leNat_u32 (UInt32.toNat_lt _), leNat_u32 hcrc, decodeI64_i64Bytes, ne_eq,
    not_true_eq_false, if_false]

theorem slice_magic_of_decode {bytes : Bytes}
    (h : decode crc32c bytes = some marker) : slice bytes 0 8 = resetMarkerMagic := by
  unfold decode at h
  split at h
  · cases h
  · rename_i hmagic
    exact not_not.mp hmagic

theorem expectedPreviousHeader_spec {expected : JournalHeader}
    (h : marker.expectedPreviousHeader crc32c = some expected) :
    expected = previousHeader marker.previousLen marker.previousSegmentId ∧
      journalHeaderLen < marker.previousLen := by
  unfold expectedPreviousHeader new at h
  by_cases hlen : marker.previousLen ≤ journalHeaderLen
  · rw [if_pos hlen] at h
    cases h
  · rw [if_neg hlen] at h
    simp only at h
    split at h
    · cases h
      exact ⟨rfl, by omega⟩
    · cases h

theorem expectedPreviousHeader_new {previousLen : Nat} {segmentId : Int64}
    (h : new crc32c previousLen segmentId = some marker) :
    marker.expectedPreviousHeader crc32c = some (previousHeader previousLen segmentId) ∧
      marker.previousLen = previousLen ∧ marker.previousSegmentId = segmentId := by
  have hcopy := h
  unfold new at h
  split at h
  · cases h
  · cases h
    refine ⟨?_, rfl, rfl⟩
    unfold expectedPreviousHeader
    simp only [hcopy, if_true]

theorem previousHeaderCrc_lt {previousLen : Nat} {segmentId : Int64}
    (h : new crc32c previousLen segmentId = some marker) : marker.previousHeaderCrc < 2 ^ 32 := by
  unfold new at h
  split at h
  · cases h
  · cases h
    exact UInt32.toNat_lt _

theorem isTorn_iff {observed empty previous : Bytes} {split : Nat}
    (hobserved : observed.length = journalHeaderLen) (hempty : empty.length = journalHeaderLen)
    (hprevious : previous.length = journalHeaderLen) (hsplit : split ≤ journalHeaderLen) :
    isTorn observed empty previous split = true ↔ observed = splice split empty previous := by
  have hlen : empty.length = previous.length := hempty.trans hprevious.symm
  have hleft : slice (splice split empty previous) 0 split = slice empty 0 split := by
    rw [slice_splice hlen (by omega), Nat.sub_zero, splice_of_length_le]
    · rw [length_slice (by omega)]; omega
    · rw [length_slice (by omega)]; omega
  have hright : slice (splice split empty previous) split journalHeaderLen =
      slice previous split journalHeaderLen := by
    rw [slice_splice hlen (by omega), Nat.sub_self, splice_zero]
  rw [isTorn, Bool.and_eq_true, beq_iff_eq, beq_iff_eq]
  constructor
  · rintro ⟨hl, hr⟩
    rw [← slice_full (Nat.le_of_eq hobserved),
      ← slice_append_slice (Nat.zero_le split) hsplit, hl, hr, ← hleft, ← hright,
      slice_append_slice (Nat.zero_le split) hsplit, slice_full]
    rw [length_splice hlen, hprevious]
  · rintro rfl
    exact ⟨hleft, hright⟩

/-- A committed reset is observed exactly where the empty header was written over the
previous one up to some byte. -/
theorem classifyHeaderTransition_isSome {observed : Bytes}
    (hobserved : observed.length = journalHeaderLen) :
    (marker.classifyHeaderTransition crc32c observed).isSome = true ↔
      ∃ expected, marker.expectedPreviousHeader crc32c = some expected ∧
        ∃ split ≤ journalHeaderLen, observed =
          splice split (JournalHeader.empty.encode crc32c) (expected.encode crc32c) := by
  unfold classifyHeaderTransition
  cases hexpected : marker.expectedPreviousHeader crc32c with
  | none => simp
  | some expected =>
    have hempty := JournalHeader.length_encode crc32c JournalHeader.empty
    have hprevious := JournalHeader.length_encode crc32c expected
    have hfull : splice journalHeaderLen (JournalHeader.empty.encode crc32c)
        (expected.encode crc32c) = JournalHeader.empty.encode crc32c :=
      splice_of_length_le (Nat.le_of_eq hempty) (Nat.le_of_eq hprevious)
    simp only [Option.some.injEq, exists_eq_left']
    constructor
    · intro h
      by_cases hp : observed = expected.encode crc32c
      · exact ⟨0, Nat.zero_le _, by rw [splice_zero]; exact hp⟩
      · rw [if_neg hp] at h
        by_cases he : observed = JournalHeader.empty.encode crc32c
        · exact ⟨journalHeaderLen, Nat.le_refl _, by rw [hfull]; exact he⟩
        · rw [if_neg he] at h
          split at h
          · rename_i hany
            obtain ⟨split, hmem, htorn⟩ := List.any_eq_true.mp hany
            have hsplit : split ≤ journalHeaderLen := by
              have hlt := (List.mem_range'_1.mp hmem).2
              omega
            exact ⟨split, hsplit, (isTorn_iff hobserved hempty hprevious hsplit).mp htorn⟩
          · cases h
    · rintro ⟨split, hsplit, heq⟩
      by_cases hp : observed = expected.encode crc32c
      · rw [if_pos hp]
        rfl
      · by_cases he : observed = JournalHeader.empty.encode crc32c
        · rw [if_neg hp, if_pos he]
          rfl
        · rw [if_neg hp, if_neg he, if_pos]
          · rfl
          · have hzero : split ≠ 0 := by
              rintro rfl
              exact hp (heq.trans (splice_zero _ _))
            have hlast : split ≠ journalHeaderLen := by
              rintro rfl
              exact he (heq.trans hfull)
            refine List.any_eq_true.mpr ⟨split, List.mem_range'_1.mpr ?_, ?_⟩
            · omega
            · exact (isTorn_iff hobserved hempty hprevious hsplit).mpr heq

end ResetMarker

end Kronika.Format
