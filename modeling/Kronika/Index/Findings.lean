/-
Sparse source locators of one physical section.

A block is checked as a whole before it is encoded and after it was decoded; its
rows have no checks of their own.
-/
import Kronika.Format.JournalHeader
import Kronika.Library.RowCodec

namespace Kronika.Index

open Format Library

inductive IndexError where
  | truncated
  | badMagic
  | badChecksum
  | badLayout
  | tooLarge
deriving DecidableEq

def u32At (bytes : Bytes) (start : Nat) : Except IndexError UInt32 :=
  if start + 4 ≤ bytes.length then .ok (u32Of (slice bytes start (start + 4)))
  else .error .truncated

def maxFindingsPerBlock : Nat := 4096
def pgLogErrorsTypeId : UInt32 := 2001001
def maxLogErrorCategory : UInt8 := 10

def findingsHeaderLen : Nat := 9
def noCategory : UInt8 := 255

inductive FindingKind where
  | knownBad
  | spike
  | event
deriving DecidableEq

namespace FindingKind

def raw : FindingKind → UInt8
  | knownBad => 1
  | spike => 2
  | event => 3

def fromRaw (value : UInt8) : Option FindingKind :=
  if value = 1 then some knownBad
  else if value = 2 then some spike
  else if value = 3 then some event
  else none

end FindingKind

/-- One locator into a physical section. -/
structure Finding where
  kind : FindingKind
  fieldOrdinal : UInt16
  rowOrdinal : UInt32
  timestamp : Int64
  category : Option UInt8
deriving DecidableEq

/-- The order of locators: timestamp, row, field, kind. -/
def Finding.before (a b : Finding) : Bool :=
  a.timestamp < b.timestamp || a.timestamp == b.timestamp &&
    (a.rowOrdinal < b.rowOrdinal || a.rowOrdinal == b.rowOrdinal &&
      (a.fieldOrdinal < b.fieldOrdinal || a.fieldOrdinal == b.fieldOrdinal &&
        decide (a.kind.raw < b.kind.raw)))

structure FindingBlock where
  typeId : UInt32
  totalHits : UInt32
  truncated : Bool
  findings : List Finding
deriving DecidableEq

def findingLen (typeId : UInt32) : Nat := if typeId = pgLogErrorsTypeId then 16 else 15

def categoryAllowed (typeId : UInt32) (finding : Finding) : Bool :=
  if typeId = pgLogErrorsTypeId then finding.category.any (· ≤ maxLogErrorCategory)
  else finding.category.isNone

/-- The loop of `validate`, with the order key of the finding before. -/
def validateFindings (typeId : UInt32) : Option Finding → List Finding → Except IndexError Unit
  | _, [] => .ok ()
  | previous, finding :: findings =>
    if !categoryAllowed typeId finding then .error .badLayout
    else if previous.any fun earlier => !earlier.before finding then .error .badLayout
    else validateFindings typeId (some finding) findings

def validate (block : FindingBlock) : Except IndexError Unit :=
  if block.findings.length > maxFindingsPerBlock then .error .badLayout
  else if block.totalHits.toNat < block.findings.length ∨
      block.truncated ≠ decide (block.totalHits.toNat > block.findings.length) then
    .error .badLayout
  else validateFindings block.typeId none block.findings

def encodeFinding (typeId : UInt32) (finding : Finding) : Bytes :=
  [finding.kind.raw] ++ leBytes 2 finding.fieldOrdinal.toNat ++
    leBytes 4 finding.rowOrdinal.toNat ++ i64Bytes finding.timestamp ++
    if typeId = pgLogErrorsTypeId then [finding.category.getD noCategory] else []

def decodeFinding (typeId : UInt32) (raw : Bytes) : Option Finding :=
  match FindingKind.fromRaw (raw.getD 0 0) with
  | none => none
  | some kind =>
    some { kind := kind, fieldOrdinal := u16Of (slice raw 1 3), rowOrdinal := u32Of (slice raw 3 7)
           timestamp := decodeI64 (slice raw 7 15)
           category :=
             if typeId = pgLogErrorsTypeId then
               if raw.getD 15 0 = noCategory then none else some (raw.getD 15 0)
             else none }

def findingCodec (typeId : UInt32) : RowCodec Finding where
  width := findingLen typeId
  encodeRow := encodeFinding typeId
  decodeRow := decodeFinding typeId
  valid _ := true
  refuses _ _ := false

namespace FindingBlock

def encode (block : FindingBlock) : Except IndexError Bytes :=
  match validate block with
  | .error problem => .error problem
  | .ok () =>
    match (findingCodec block.typeId).encodeRows none block.findings with
    | none => .error .badLayout
    | some rows =>
      .ok (leBytes 4 block.totalHits.toNat ++ leBytes 4 block.findings.length ++
        [block.truncated.toUInt8] ++ rows)

def decode (typeId : UInt32) (bytes : Bytes) : Except IndexError FindingBlock :=
  match u32At bytes 0, u32At bytes 4 with
  | .error problem, _ => .error problem
  | .ok _, .error problem => .error problem
  | .ok totalHits, .ok count =>
    if bytes[8]? ≠ some 0 ∧ bytes[8]? ≠ some 1 then .error .badLayout
    else if bytes.length ≠ findingsHeaderLen + count.toNat * findingLen typeId ∨
        count.toNat > maxFindingsPerBlock then
      .error .badLayout
    else
      match (findingCodec typeId).decodeRows none count.toNat (bytes.drop findingsHeaderLen) with
      | none => .error .badLayout
      | some findings =>
        let block : FindingBlock :=
          { typeId := typeId, totalHits := totalHits, truncated := bytes[8]? == some 1
            findings := findings }
        match validate block with
        | .error problem => .error problem
        | .ok () => .ok block

end FindingBlock

end Kronika.Index
