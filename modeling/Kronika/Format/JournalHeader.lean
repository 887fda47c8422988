/-
The journal root header and its reset marker.
-/
import Kronika.Format.Part

namespace Kronika.Format

open Library

/-- The bytes of `KRNJNL1` and a zero. -/
def journalMagic : Bytes := [75, 82, 78, 74, 78, 76, 49, 0]

def journalVersion : Nat := 1

def journalHeaderLen : Nat := 36

/-- The bytes of `KRNRST1` and a zero. -/
def resetMarkerMagic : Bytes := [75, 82, 78, 82, 83, 84, 49, 0]

def resetMarkerLen : Nat := 32

/-! ## Segment ids -/

/-- The civil year of a day, as `civil_from_days` computes it. -/
def civilYear (daysSinceEpoch : Int) : Int :=
  let shifted := daysSinceEpoch + 719468
  let era := (if 0 ≤ shifted then shifted else shifted - 146096).tdiv 146097
  let dayOfEra := shifted - era * 146097
  let yearOfEra := (dayOfEra - dayOfEra.tdiv 1460 + dayOfEra.tdiv 36524
    - dayOfEra.tdiv 146096).tdiv 365
  let year := yearOfEra + era * 400
  let dayOfYear := dayOfEra - (365 * yearOfEra + yearOfEra.tdiv 4 - yearOfEra.tdiv 100)
  let monthPrime := (5 * dayOfYear + 2).tdiv 153
  let month := monthPrime + if monthPrime < 10 then 3 else -9
  if month ≤ 2 then year + 1 else year

def microsPerDay : Int := 86400000000

def representable (value : Int64) : Bool :=
  let year := civilYear (value.toInt.ediv microsPerDay)
  0 ≤ year && year ≤ 9999

/-- Unix microseconds of the first window appended to a segment. -/
structure SegmentId where
  value : Int64
  in_range : representable value = true
deriving DecidableEq

def SegmentId.new (value : Int64) : Option SegmentId :=
  if h : representable value = true then some ⟨value, h⟩ else none

theorem SegmentId.ext_value {a b : SegmentId} (h : a.value = b.value) : a = b := by
  cases a
  cases h
  rfl

theorem SegmentId.new_value (id : SegmentId) : SegmentId.new id.value = some id := by
  rw [SegmentId.new, dif_pos id.in_range]

theorem SegmentId.value_of_new {value : Int64} {id : SegmentId}
    (h : SegmentId.new value = some id) : value = id.value := by
  unfold SegmentId.new at h
  split at h
  · rw [← Option.some.inj h]
  · cases h

/-! ## The header -/

inductive JournalState where
  | empty
  | active (segmentId : Int64)
deriving DecidableEq

structure JournalHeader where
  state : JournalState
  bodyLen : Nat
deriving DecidableEq

inductive JournalHeaderError where
  | unsupportedMagic (actual : Bytes)
  | unsupportedVersion (version : Nat)
  | badChecksum (stored computed : Nat)
  | invalidState (state : UInt8)
  | missingIdentity
  | unexpectedIdentity
  | nonZeroReserved
deriving DecidableEq

def i64Bytes (value : Int64) : Bytes := leBytes 8 value.toUInt64.toNat

def decodeI64 (bytes : Bytes) : Int64 := (UInt64.ofNat (leNat bytes)).toInt64

theorem decodeI64_i64Bytes (value : Int64) : decodeI64 (i64Bytes value) = value := by
  rw [decodeI64, i64Bytes, leNat_u64 (UInt64.toNat_lt _), UInt64.ofNat_toNat]
  rfl

theorem i64Bytes_decodeI64 {bytes : Bytes} (h : bytes.length = 8) :
    i64Bytes (decodeI64 bytes) = bytes := by
  have hlt : leNat bytes < UInt64.size := by
    have hlt := leNat_lt bytes
    rwa [h] at hlt
  rw [i64Bytes, decodeI64, UInt64.toUInt64_toInt64, UInt64.toNat_ofNat_of_lt' hlt, ← h,
    leBytes_leNat]

namespace JournalState

def flags : JournalState → Bytes
  | empty => [0, 0, 0, 0]
  | active _ => [1, 1, 0, 0]

def identity : JournalState → Bytes
  | empty => leBytes 8 0
  | active segmentId => i64Bytes segmentId

end JournalState

namespace JournalHeader

def empty : JournalHeader := { state := .empty, bodyLen := 0 }

def covered (header : JournalHeader) : Bytes :=
  journalMagic ++ leBytes 4 journalVersion ++ header.state.flags ++ header.state.identity ++
    leBytes 8 header.bodyLen

def encode (crc32c : Checksum) (header : JournalHeader) : Bytes :=
  header.covered ++ leBytes 4 (crc32c header.covered).toNat

def decodeState (state idPresent : UInt8) (segmentId : Int64) :
    Except JournalHeaderError JournalState :=
  if state = 0 ∧ idPresent = 0 then
    if segmentId ≠ 0 then .error .unexpectedIdentity else .ok .empty
  else if state = 1 ∧ idPresent = 1 then .ok (.active segmentId)
  else if state = 1 ∧ idPresent = 0 then .error .missingIdentity
  else if state = 0 ∧ idPresent = 1 then .error .unexpectedIdentity
  else .error (.invalidState state)

def decode (crc32c : Checksum) (bytes : Bytes) : Except JournalHeaderError JournalHeader :=
  if slice bytes 0 8 ≠ journalMagic then .error (.unsupportedMagic (slice bytes 0 8))
  else if leNat (slice bytes 8 12) ≠ journalVersion then
    .error (.unsupportedVersion (leNat (slice bytes 8 12)))
  else if leNat (slice bytes 32 36) ≠ (crc32c (slice bytes 0 32)).toNat then
    .error (.badChecksum (leNat (slice bytes 32 36)) (crc32c (slice bytes 0 32)).toNat)
  else if slice bytes 14 16 ≠ [0, 0] then .error .nonZeroReserved
  else
    match decodeState (bytes.getD 12 0) (bytes.getD 13 0) (decodeI64 (slice bytes 16 24)) with
    | .error problem => .error problem
    | .ok state => .ok { state := state, bodyLen := leNat (slice bytes 24 32) }

end JournalHeader

/-! ## The reset marker -/

/-- Durable intent to replace one active generation with the empty header. -/
structure ResetMarker where
  previousLen : Nat
  previousSegmentId : Int64
  previousHeaderCrc : Nat
deriving DecidableEq

inductive ResetHeaderTransition where
  | previous
  | empty
  | torn
deriving DecidableEq

namespace ResetMarker

def previousHeader (previousLen : Nat) (previousSegmentId : Int64) : JournalHeader :=
  { state := .active previousSegmentId, bodyLen := previousLen - journalHeaderLen }

def new (crc32c : Checksum) (previousLen : Nat) (previousSegmentId : Int64) :
    Option ResetMarker :=
  if previousLen ≤ journalHeaderLen then none
  else some
    { previousLen := previousLen, previousSegmentId := previousSegmentId
      previousHeaderCrc :=
        (crc32c ((previousHeader previousLen previousSegmentId).encode crc32c)).toNat }

def covered (marker : ResetMarker) : Bytes :=
  resetMarkerMagic ++ leBytes 8 marker.previousLen ++ i64Bytes marker.previousSegmentId ++
    leBytes 4 marker.previousHeaderCrc

def encode (crc32c : Checksum) (marker : ResetMarker) : Bytes :=
  marker.covered ++ leBytes 4 (crc32c marker.covered).toNat

def decode (crc32c : Checksum) (bytes : Bytes) : Option ResetMarker :=
  if slice bytes 0 8 ≠ resetMarkerMagic then none
  else if leNat (slice bytes 28 32) ≠ (crc32c (slice bytes 0 28)).toNat then none
  else some
    { previousLen := leNat (slice bytes 8 16)
      previousSegmentId := decodeI64 (slice bytes 16 24)
      previousHeaderCrc := leNat (slice bytes 24 28) }

/-- The active header that the marker names, when its checksum agrees. -/
def expectedPreviousHeader (crc32c : Checksum) (marker : ResetMarker) : Option JournalHeader :=
  match new crc32c marker.previousLen marker.previousSegmentId with
  | none => none
  | some expected =>
    if expected.previousHeaderCrc = marker.previousHeaderCrc then
      some (previousHeader marker.previousLen marker.previousSegmentId)
    else none

def isTorn (observed empty previous : Bytes) (split : Nat) : Bool :=
  slice observed 0 split == slice empty 0 split &&
    slice observed split journalHeaderLen == slice previous split journalHeaderLen

/-- Which header of a committed reset was observed, if any. -/
def classifyHeaderTransition (crc32c : Checksum) (marker : ResetMarker) (observed : Bytes) :
    Option ResetHeaderTransition :=
  match marker.expectedPreviousHeader crc32c with
  | none => none
  | some expected =>
    let previous := expected.encode crc32c
    let empty := JournalHeader.empty.encode crc32c
    if observed = previous then some .previous
    else if observed = empty then some .empty
    else if (List.range' 1 (journalHeaderLen - 1)).any (isTorn observed empty previous) then
      some .torn
    else none

end ResetMarker

end Kronika.Format
