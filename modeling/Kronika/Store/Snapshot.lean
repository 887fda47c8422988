/-
A captured prefix of one generation of the journal.

A snapshot names the parts it covers, and every read of it looks first whether
the journal still begins with that prefix.
-/
import Kronika.Library.PositionedRead
import Kronika.Store.Journal

namespace Kronika.Store

open Format Library

inductive SnapshotError where
  | absent
  | journalTooLong (len : Nat)
  /-- The journal belongs to another generation. -/
  | stale
  | header (problem : JournalHeaderError)
  | activePartTooLarge (len max : Nat)
  | outOfBounds
  | io
deriving DecidableEq

structure ActiveSnapshot where
  active : List ActivePart
  partCount : Nat
  validLen : Nat
  segmentId : SegmentId
deriving DecidableEq

def validateActiveSnapshot (crc32c : Checksum) (file : Bytes) (expectedSegmentId : SegmentId)
    (validLen : Nat) : Except SnapshotError Unit :=
  if maxJournalLen < file.length then .error (.journalTooLong file.length)
  else if file.length < validLen ∨ file.length < journalHeaderLen then .error .stale
  else if (committedResetPlan crc32c file).isSome then .error .stale
  else
    match JournalHeader.decode crc32c (slice file 0 journalHeaderLen) with
    | .error problem => .error (.header problem)
    | .ok header =>
      match header.state with
      | .empty => .error .stale
      | .active segmentId =>
        if segmentId ≠ expectedSegmentId.value then .error .stale
        else if journalHeaderLen + header.bodyLen < validLen then .error .stale
        else .ok ()

/-- The prefix that a scan with these parts described, if there is an active segment. -/
def openActiveSnapshot (crc32c : Checksum) (disk : Option Bytes) (active : List ActivePart)
    (validLen : Nat) : Except SnapshotError (Option ActiveSnapshot) :=
  match active.head? with
  | none => .ok none
  | some first =>
    match disk with
    | none => .error .absent
    | some file =>
      match validateActiveSnapshot crc32c file first.segmentId validLen with
      | .error problem => .error problem
      | .ok () =>
        .ok (some { active := active, partCount := active.length, validLen := validLen
                    segmentId := first.segmentId })

theorem openActiveSnapshot_ok {crc32c : Checksum} {disk : Option Bytes} {active : List ActivePart}
    {validLen : Nat} {found : Option ActiveSnapshot}
    (h : openActiveSnapshot crc32c disk active validLen = .ok found) :
    found = active.head?.map fun first =>
      { active := active, partCount := active.length, validLen := validLen
        segmentId := first.segmentId } := by
  rw [openActiveSnapshot] at h
  cases hhead : active.head? with
  | none =>
    rw [hhead] at h
    exact (Except.ok.inj h).symm
  | some first =>
    rw [hhead] at h
    cases disk with
    | none => exact absurd h (by simp)
    | some file =>
      dsimp only at h
      cases hvalid : validateActiveSnapshot crc32c file first.segmentId validLen with
      | error problem =>
        rw [hvalid] at h
        exact absurd h (by simp)
      | ok u =>
        rw [hvalid] at h
        exact (Except.ok.inj h).symm

namespace ActiveSnapshot

def parts (snapshot : ActiveSnapshot) : List ActivePart := snapshot.active.take snapshot.partCount

/-- The end of the parts that end at `position` at the latest, and how many they are. -/
def boundaryAt (position : Nat) : Nat → Nat → List ActivePart → Nat × Nat
  | boundary, count, [] => (boundary, count)
  | boundary, count, part :: rest =>
    if position < part.part.offset + part.part.len then (boundary, count)
    else boundaryAt position (part.part.offset + part.part.len) (count + 1) rest

/-- The same generation, cut at an earlier frame. -/
def atPosition (snapshot : ActiveSnapshot) (position : Nat) :
    Except SnapshotError ActiveSnapshot :=
  if snapshot.validLen < position then .error .outOfBounds
  else
    let (boundary, count) := boundaryAt position journalHeaderLen 0 snapshot.parts
    if position ≠ boundary then .error .outOfBounds
    else .ok { snapshot with partCount := count, validLen := position }

/-- A range of one part.  The journal may change at any time: `before`, `during` and `after`
are its bytes at the first check, at the read and at the second check. -/
def readPartRange (crc32c : Checksum) (snapshot : ActiveSnapshot) (before during after : Bytes)
    (partIndex offset len : Nat) : Except SnapshotError Bytes :=
  match snapshot.parts[partIndex]? with
  | none => .error .outOfBounds
  | some part =>
    if part.segmentId ≠ snapshot.segmentId then .error .outOfBounds
    else if maxPartLen < part.part.len then .error (.activePartTooLarge part.part.len maxPartLen)
    else if part.part.len < offset + len then .error .outOfBounds
    else if snapshot.validLen < part.part.offset + offset + len then .error .outOfBounds
    else
      match validateActiveSnapshot crc32c before snapshot.segmentId snapshot.validLen with
      | .error problem => .error problem
      | .ok () =>
        match readExactAt during (part.part.offset + offset) len with
        | none => .error .io
        | some bytes =>
          match validateActiveSnapshot crc32c after snapshot.segmentId snapshot.validLen with
          | .error problem => .error problem
          | .ok () => .ok bytes

end ActiveSnapshot

end Kronika.Store
