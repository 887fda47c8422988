/-
The presentation series allowed in an index file.

A rate is the bits of its `f64`; the three comparisons that the codec makes with a
rate are spelled out on the bits, so that two zeros are equal and differ.
-/
import Kronika.Index.Findings

namespace Kronika.Index

open Format Library

/-! ## Rates -/

/-- The bits of an `f64`. -/
abbrev F64 := UInt64

namespace F64

def exponentMask : UInt64 := 0x7FF0000000000000
def signBit : UInt64 := 0x8000000000000000

def isFinite (bits : F64) : Bool := bits &&& exponentMask != exponentMask

/-- Equal to `0.0`: either zero. -/
def isZero (bits : F64) : Bool := bits == 0 || bits == signBit

def isNaN (bits : F64) : Bool := !isFinite bits && bits &&& 0x000FFFFFFFFFFFFF != 0

def ltZero (bits : F64) : Bool := !isNaN bits && !isZero bits && bits &&& signBit != 0
def geZero (bits : F64) : Bool := !isNaN bits && (isZero bits || bits &&& signBit == 0)

end F64

/-! ## Keys -/

inductive SeriesKind where
  | osHealth
  | overallHealth
  | postgresHealth
  | pgTransactionsPerSecond
  | pgActiveBackends
  | findings
  | pgLockWaiting
deriving DecidableEq

namespace SeriesKind

def raw : SeriesKind → UInt32
  | osHealth => 1
  | overallHealth => 2
  | postgresHealth => 3
  | pgTransactionsPerSecond => 4
  | pgActiveBackends => 5
  | findings => 6
  | pgLockWaiting => 7

def fromRaw (value : UInt32) : Except IndexError SeriesKind :=
  if value = 1 then .ok osHealth
  else if value = 2 then .ok overallHealth
  else if value = 3 then .ok postgresHealth
  else if value = 4 then .ok pgTransactionsPerSecond
  else if value = 5 then .ok pgActiveBackends
  else if value = 6 then .ok findings
  else if value = 7 then .ok pgLockWaiting
  else .error .badLayout

end SeriesKind

structure SeriesKey where
  kind : SeriesKind
  typeId : UInt32
deriving DecidableEq

def SeriesKey.before (a b : SeriesKey) : Bool :=
  a.kind.raw < b.kind.raw || a.kind.raw == b.kind.raw && decide (a.typeId < b.typeId)

/-! ## Points -/

structure HealthPoint where
  timestamp : Int64
  value : Option UInt8
deriving DecidableEq

structure TransactionPoint where
  timestamp : Int64
  datid : UInt32
  value : Option F64
deriving DecidableEq

/-- An instantaneous count: `ActiveBackendPoint` and `LockWaitPoint`. -/
structure CountPoint where
  timestamp : Int64
  count : UInt32
deriving DecidableEq

def healthCodec : RowCodec HealthPoint where
  width := 10
  encodeRow point :=
    i64Bytes point.timestamp ++ [point.value.isSome.toUInt8] ++ [point.value.getD 0]
  decodeRow raw :=
    if raw.getD 8 0 = 0 ∧ raw.getD 9 0 = 0 then
      some { timestamp := decodeI64 (slice raw 0 8), value := none }
    else if raw.getD 8 0 = 1 ∧ raw.getD 9 0 ≤ 100 then
      some { timestamp := decodeI64 (slice raw 0 8), value := some (raw.getD 9 0) }
    else none
  valid point := !point.value.any (· > 100)
  refuses earlier point := earlier.timestamp > point.timestamp

def transactionCodec : RowCodec TransactionPoint where
  width := 21
  encodeRow point :=
    i64Bytes point.timestamp ++ leBytes 4 point.datid.toNat ++ [point.value.isSome.toUInt8] ++
      leBytes 8 (point.value.getD 0).toNat
  decodeRow raw :=
    let value := u64Of (slice raw 13 21)
    if raw.getD 12 0 = 0 ∧ F64.isZero value then
      some { timestamp := decodeI64 (slice raw 0 8), datid := u32Of (slice raw 8 12)
             value := none }
    else if raw.getD 12 0 = 1 ∧ F64.isFinite value ∧ F64.geZero value then
      some { timestamp := decodeI64 (slice raw 0 8), datid := u32Of (slice raw 8 12)
             value := some value }
    else none
  valid point := !point.value.any fun value => !F64.isFinite value || F64.ltZero value
  refuses earlier point :=
    earlier.datid > point.datid || earlier.datid == point.datid &&
      decide (earlier.timestamp > point.timestamp)

def countCodec : RowCodec CountPoint where
  width := 12
  encodeRow point := i64Bytes point.timestamp ++ leBytes 4 point.count.toNat
  decodeRow raw :=
    some { timestamp := decodeI64 (slice raw 0 8), count := u32Of (slice raw 8 12) }
  valid _ := true
  refuses earlier point := earlier.timestamp > point.timestamp

/-! ## Counted rows -/

section Rows

variable {α : Type}

def encodePoints (codec : RowCodec α) (points : List α) : Except IndexError Bytes :=
  if 2 ^ 32 ≤ points.length then .error .tooLarge
  else
    match codec.encodeRows none points with
    | none => .error .badLayout
    | some rows => .ok (leBytes 4 points.length ++ rows)

def decodePoints (codec : RowCodec α) (bytes : Bytes) : Except IndexError (List α) :=
  match u32At bytes 0 with
  | .error problem => .error problem
  | .ok count =>
    if bytes.length ≠ 4 + count.toNat * codec.width then .error .badLayout
    else
      match codec.decodeRows none count.toNat (bytes.drop 4) with
      | none => .error .badLayout
      | some points => .ok points

end Rows

def encodeHealth : List HealthPoint → Except IndexError Bytes := encodePoints healthCodec
def decodeHealth : Bytes → Except IndexError (List HealthPoint) := decodePoints healthCodec

def encodeTransactions : List TransactionPoint → Except IndexError Bytes :=
  encodePoints transactionCodec
def decodeTransactions : Bytes → Except IndexError (List TransactionPoint) :=
  decodePoints transactionCodec

def encodeCounts : List CountPoint → Except IndexError Bytes := encodePoints countCodec
def decodeCounts : Bytes → Except IndexError (List CountPoint) := decodePoints countCodec

/-! ## Blocks -/

inductive SeriesBlock where
  | osHealth (points : List HealthPoint)
  | overallHealth (points : List HealthPoint)
  | postgresHealth (points : List HealthPoint)
  | pgTransactions (typeId : UInt32) (points : List TransactionPoint)
  | pgActiveBackends (typeId : UInt32) (points : List CountPoint)
  | findings (block : FindingBlock)
  | pgLockWaiting (typeId : UInt32) (points : List CountPoint)
deriving DecidableEq

def pgDatabaseLayout (typeId : UInt32) : Bool :=
  decide (1005001 ≤ typeId) && decide (typeId ≤ 1005004)

def pgActivityLayout (typeId : UInt32) : Bool :=
  typeId == 1001001 || typeId == 1001002 || typeId == 1001004

def pgLogEventLayouts : List UInt32 :=
  [pgLogErrorsTypeId, 2002001, 2003001, 2004001, 2005002, 2006001]

/-- The layouts that locators are kept for. -/
def findingLayout (typeId : UInt32) : Bool :=
  pgLogEventLayouts.contains typeId ||
    [0, 1102001, 1104001, 1105001, 1106001, 1112002, 1011001, 1011002, 1008001, 1202001,
      1202002, 1202003, 1001001, 1001002, 1001004].contains typeId ||
    decide (1005001 ≤ typeId) && decide (typeId ≤ 1005004)

/-- The keys that `SeriesBlock.decode` admits. -/
def SeriesKey.allowlisted (key : SeriesKey) : Bool :=
  match key.kind with
  | .osHealth | .overallHealth | .postgresHealth => key.typeId == 0
  | .pgTransactionsPerSecond => pgDatabaseLayout key.typeId
  | .pgActiveBackends | .pgLockWaiting => pgActivityLayout key.typeId
  | .findings => key.typeId == 0 || findingLayout key.typeId

namespace SeriesBlock

def key : SeriesBlock → SeriesKey
  | osHealth _ => { kind := .osHealth, typeId := 0 }
  | overallHealth _ => { kind := .overallHealth, typeId := 0 }
  | postgresHealth _ => { kind := .postgresHealth, typeId := 0 }
  | pgTransactions typeId _ => { kind := .pgTransactionsPerSecond, typeId := typeId }
  | pgActiveBackends typeId _ => { kind := .pgActiveBackends, typeId := typeId }
  | findings block => { kind := .findings, typeId := block.typeId }
  | pgLockWaiting typeId _ => { kind := .pgLockWaiting, typeId := typeId }

def encode : SeriesBlock → Except IndexError Bytes
  | osHealth points => encodeHealth points
  | overallHealth points => encodeHealth points
  | postgresHealth points => encodeHealth points
  | pgTransactions _ points => encodeTransactions points
  | pgActiveBackends _ points => encodeCounts points
  | findings block => block.encode
  | pgLockWaiting _ points => encodeCounts points

def decode (key : SeriesKey) (bytes : Bytes) : Except IndexError SeriesBlock :=
  if !key.allowlisted then .error .badLayout
  else
    match key.kind with
    | .osHealth => (decodeHealth bytes).map osHealth
    | .overallHealth => (decodeHealth bytes).map overallHealth
    | .postgresHealth => (decodeHealth bytes).map postgresHealth
    | .pgTransactionsPerSecond => (decodeTransactions bytes).map (pgTransactions key.typeId)
    | .pgActiveBackends => (decodeCounts bytes).map (pgActiveBackends key.typeId)
    | .pgLockWaiting => (decodeCounts bytes).map (pgLockWaiting key.typeId)
    | .findings => (FindingBlock.decode key.typeId bytes).map findings

end SeriesBlock

end Kronika.Index
