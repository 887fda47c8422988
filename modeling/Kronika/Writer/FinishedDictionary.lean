/-
Normalizing the per-window dictionaries into the segment's single pair.

A journaled window dictionary is its decoded rows: `dict.strings` rows and
`dict.blobs` rows, each sorted by raw id.  The Parquet body between `encode` and
`decodeStrings`/`decodeBlobs` belongs to third-party crates and is left out, so
an encoded section and its rows are the same thing here.
-/
import Kronika.Registry.Catalog
import Kronika.Writer.Interner
import Mathlib.Data.List.Sort

namespace Kronika.Writer

open Format
open Registry (maxSectionRows maxSectionBytes)

inductive CodecError where
  | schemaMismatch
  | tooManyRows (rows max : Nat)
  | sectionTooLarge (len max : Nat)
deriving DecidableEq

inductive WriteError where
  | codec (problem : CodecError)
  | dictionaryConflict (strId : UInt64)
  | arithmeticOverflow (what : String)
deriving DecidableEq

/-- A finished row or byte cap is exceeded. -/
def WriteError.IsCap : WriteError → Prop
  | .codec (.tooManyRows _ _) => True
  | .codec (.sectionTooLarge _ _) => True
  | .arithmeticOverflow _ => True
  | _ => False

def checkedAdd (a b : Nat) : Option Nat := if a + b ≤ usizeMax then some (a + b) else none

/-! ## Journaled window dictionaries -/

structure StringRow where
  strId : UInt64
  bytes : Bytes
deriving DecidableEq

structure BlobRow where
  strId : UInt64
  storedBytes : Bytes
  fullLen : Nat
  truncated : Bool
  fullSha256 : Option (Vector UInt8 32)
deriving DecidableEq

/-- The dictionary sections of one journal part; an empty section is not written. -/
structure WindowSections where
  strings : List StringRow
  blobs : List BlobRow
deriving DecidableEq

def checkDictRows (rows : Nat) : Except CodecError Unit :=
  if rows > maxSectionRows then .error (.tooManyRows rows maxSectionRows) else .ok ()

def sortById (entries : List EntrySnapshot) : List EntrySnapshot :=
  entries.insertionSort fun a b => a.strId.raw ≤ b.strId.raw

def stringRow (entry : EntrySnapshot) : StringRow :=
  { strId := entry.strId.raw, bytes := entry.storedBytes }

def blobRow (entry : EntrySnapshot) : BlobRow :=
  { strId := entry.strId.raw, storedBytes := entry.storedBytes, fullLen := entry.fullLen
    truncated := entry.truncated, fullSha256 := entry.fullSha256 }

def encodeStrings (entries : List EntrySnapshot) : Except CodecError (List StringRow) :=
  match checkDictRows entries.length with
  | .error problem => .error problem
  | .ok () => .ok ((sortById entries).map stringRow)

def encodeBlobs (entries : List EntrySnapshot) : Except CodecError (List BlobRow) :=
  match checkDictRows entries.length with
  | .error problem => .error problem
  | .ok () => .ok ((sortById entries).map blobRow)

/-- `dict::encode`: each entry goes to the section its placement names. -/
def encode (window : SegmentDicts) : Except CodecError WindowSections :=
  match encodeStrings
      (window.snapshots.filter fun entry => entry.placement = Placement.strings) with
  | .error problem => .error problem
  | .ok strings =>
    match encodeBlobs (window.snapshots.filter fun entry => entry.placement = Placement.blobs) with
    | .error problem => .error problem
    | .ok blobs => .ok { strings := strings, blobs := blobs }

/-! ## The finished dictionary -/

inductive DictionaryValue where
  | string (bytes : Bytes)
  | blob (bytes : Bytes) (fullLen : Nat) (truncated : Bool) (fullSha256 : Option (Vector UInt8 32))
deriving DecidableEq

/-- Canonical dictionary entries retained for one finished segment. -/
structure FinishedDictionary where
  values : Std.TreeMap StrId DictionaryValue
  stringRows : Nat
  blobRows : Nat
  stringBytes : Nat
  blobBytes : Nat

namespace FinishedDictionary

def default : FinishedDictionary :=
  { values := ∅, stringRows := 0, blobRows := 0, stringBytes := 0, blobBytes := 0 }

/-- The caps on the rows and the bytes of one section, after one more value. -/
def nextCounters (rows storedBytes valueBytes : Nat) : Except WriteError (Nat × Nat) :=
  match checkedAdd rows 1 with
  | none => .error (.arithmeticOverflow "dictionary row count")
  | some nextRows =>
    if nextRows > maxSectionRows then
      .error (.codec (.tooManyRows nextRows maxSectionRows))
    else
      match checkedAdd storedBytes valueBytes with
      | none => .error (.arithmeticOverflow "dictionary stored bytes")
      | some nextBytes =>
        if nextBytes > maxSectionBytes then
          .error (.codec (.sectionTooLarge nextBytes maxSectionBytes))
        else
          .ok (nextRows, nextBytes)

/-- The part of `insertValue` for an id that is not present. -/
def addValue (dictionary : FinishedDictionary) (strId : StrId) (value : DictionaryValue) :
    Except WriteError FinishedDictionary :=
  match value with
  | .string bytes =>
    match nextCounters dictionary.stringRows dictionary.stringBytes bytes.length with
    | .error problem => .error problem
    | .ok (rows, storedBytes) => .ok { dictionary with
        values := dictionary.values.insert strId value
        stringRows := rows, stringBytes := storedBytes }
  | .blob bytes _ _ _ =>
    match nextCounters dictionary.blobRows dictionary.blobBytes bytes.length with
    | .error problem => .error problem
    | .ok (rows, storedBytes) => .ok { dictionary with
        values := dictionary.values.insert strId value
        blobRows := rows, blobBytes := storedBytes }

def insertValue (dictionary : FinishedDictionary) (strId : StrId) (value : DictionaryValue) :
    Except WriteError FinishedDictionary :=
  match dictionary.values[strId]? with
  | some existing =>
    if existing = value then .ok dictionary else .error (.dictionaryConflict strId.raw)
  | none => dictionary.addValue strId value

/-- What is required of a blob representation. -/
def validBlob (hashes : Hashes) (strId : StrId) (bytes : Bytes) (fullLen : Nat)
    (truncated : Bool) (fullSha256 : Option (Vector UInt8 32)) : Bool :=
  if truncated then
    decide (bytes.length < fullLen) && fullSha256.isSome
  else
    bytes.length == fullLen && fullSha256.isNone && StrId.of hashes bytes == some strId

def insertOwnedString (hashes : Hashes) (dictionary : FinishedDictionary) (strId : StrId)
    (bytes : Bytes) : Except WriteError FinishedDictionary :=
  if StrId.of hashes bytes != some strId then .error (.codec .schemaMismatch)
  else dictionary.insertValue strId (.string bytes)

def insertOwnedBlob (hashes : Hashes) (dictionary : FinishedDictionary) (strId : StrId)
    (bytes : Bytes) (fullLen : Nat) (truncated : Bool)
    (fullSha256 : Option (Vector UInt8 32)) : Except WriteError FinishedDictionary :=
  if !validBlob hashes strId bytes fullLen truncated fullSha256 then
    .error (.codec .schemaMismatch)
  else
    dictionary.insertValue strId (.blob bytes fullLen truncated fullSha256)

end FinishedDictionary

/-! ## Decoding the journaled sections -/

/-- The id of a row; rows of one section come in strictly increasing id order. -/
def orderedStrId (raw previous : UInt64) : Except WriteError StrId :=
  match StrId.fromRaw raw with
  | none => .error (.codec .schemaMismatch)
  | some strId => if raw ≤ previous then .error (.codec .schemaMismatch) else .ok strId

/-- `decode_dictionary_body` for a `dict.strings` section. -/
def decodeStrings (hashes : Hashes) (normalized : FinishedDictionary) (previous : UInt64) :
    List StringRow → Except WriteError FinishedDictionary
  | [] => .ok normalized
  | row :: rows =>
    match orderedStrId row.strId previous with
    | .error problem => .error problem
    | .ok strId =>
      match normalized.insertOwnedString hashes strId row.bytes with
      | .error problem => .error problem
      | .ok normalized => decodeStrings hashes normalized row.strId rows

/-- `decode_dictionary_body` for a `dict.blobs` section. -/
def decodeBlobs (hashes : Hashes) (normalized : FinishedDictionary) (previous : UInt64) :
    List BlobRow → Except WriteError FinishedDictionary
  | [] => .ok normalized
  | row :: rows =>
    match orderedStrId row.strId previous with
    | .error problem => .error problem
    | .ok strId =>
      match normalized.insertOwnedBlob hashes strId row.storedBytes row.fullLen row.truncated
          row.fullSha256 with
      | .error problem => .error problem
      | .ok normalized => decodeBlobs hashes normalized row.strId rows

def decodeAll {α : Type} (decode : FinishedDictionary → α → Except WriteError FinishedDictionary)
    (normalized : FinishedDictionary) : List α → Except WriteError FinishedDictionary
  | [] => .ok normalized
  | body :: bodies =>
    match decode normalized body with
    | .error problem => .error problem
    | .ok normalized => decodeAll decode normalized bodies

/-- The strings of all windows first, then the blobs. -/
def normalizeDictionary (hashes : Hashes) (windows : List WindowSections) :
    Except WriteError FinishedDictionary :=
  match decodeAll (fun normalized rows => decodeStrings hashes normalized 0 rows)
      FinishedDictionary.default (windows.map WindowSections.strings) with
  | .error problem => .error problem
  | .ok normalized =>
    decodeAll (fun normalized rows => decodeBlobs hashes normalized 0 rows) normalized
      (windows.map WindowSections.blobs)

end Kronika.Writer
