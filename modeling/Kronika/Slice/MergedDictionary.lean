/-
Merging the referenced dictionary values of several finished segments.

A finished segment stores one pair of dictionary sections.  Slicing reads, from
each segment in turn, the values that the retained rows refer to, and inserts them
into one finished dictionary.  The reader keeps its values in a hash map, whose
order is unspecified: each segment comes with some order of the entries.
-/
import Kronika.Writer.FinishedDictionary

namespace Kronika

open Format Writer

/-! ## The sections of a finished segment -/

namespace Writer

def DictionaryValue.placement : DictionaryValue → Placement
  | string _ => .strings
  | blob _ _ _ _ => .blobs

def finishedSnapshot (strId : StrId) (value : DictionaryValue) : EntrySnapshot :=
  match value with
  | .string bytes =>
    { strId := strId, storedBytes := bytes, fullLen := bytes.length, truncated := false
      fullSha256 := none, placement := .strings, hot := .none, blobRequired := false }
  | .blob bytes fullLen truncated fullSha256 =>
    { strId := strId, storedBytes := bytes, fullLen := fullLen, truncated := truncated
      fullSha256 := fullSha256, placement := .blobs, hot := .none, blobRequired := true }

/-- The rows of `encode_final_entries_to`, in the sections' own order. -/
def encodeFinalEntries (entries : List EntrySnapshot) : WindowSections :=
  { strings := (sortById (entries.filter fun entry => entry.placement = Placement.strings)).map
      stringRow
    blobs := (sortById (entries.filter fun entry => entry.placement = Placement.blobs)).map
      blobRow }

def FinishedDictionary.writeSections (dictionary : FinishedDictionary) : WindowSections :=
  encodeFinalEntries (dictionary.values.toList.map fun entry => finishedSnapshot entry.1 entry.2)

end Writer

/-! ## The dictionary of a reader -/

namespace Reader

/-- The owned value of a reader has the fields of a finished one. -/
abbrev OwnedDictionaryValue := DictionaryValue

structure Dictionary where
  byId : Std.TreeMap StrId OwnedDictionaryValue

namespace Dictionary

def default : Dictionary := { byId := ∅ }

def insert (dictionary : Dictionary) (id : StrId) (value : OwnedDictionaryValue) :
    Except CodecError Dictionary :=
  match dictionary.byId[id]? with
  | none => .ok { byId := dictionary.byId.insert id value }
  | some existing => if existing = value then .ok dictionary else .error .schemaMismatch

/-- `decode_selected` of one section, whose rows are raw ids and values. -/
def decodeSelected (wanted : List UInt64) (dictionary : Dictionary) :
    List (UInt64 × OwnedDictionaryValue) → Except CodecError Dictionary
  | [] => .ok dictionary
  | (raw, value) :: rows =>
    if raw ∈ wanted then
      match StrId.fromRaw raw with
      | none => .error .schemaMismatch
      | some id =>
        match dictionary.insert id value with
        | .error problem => .error problem
        | .ok dictionary => decodeSelected wanted dictionary rows
    else
      decodeSelected wanted dictionary rows

end Dictionary

def stringValue (row : StringRow) : UInt64 × OwnedDictionaryValue :=
  (row.strId, .string row.bytes)

def blobValue (row : BlobRow) : UInt64 × OwnedDictionaryValue :=
  (row.strId, .blob row.storedBytes row.fullLen row.truncated row.fullSha256)

/-- `dictionary_for` on a finished segment. -/
def dictionaryFor (sections : WindowSections) (ids : List UInt64) :
    Except CodecError Dictionary :=
  if ids.isEmpty then .ok Dictionary.default
  else
    match Dictionary.decodeSelected ids Dictionary.default (sections.strings.map stringValue) with
    | .error problem => .error problem
    | .ok dictionary =>
      Dictionary.decodeSelected ids dictionary (sections.blobs.map blobValue)

/-- An order in which a hash map gives up its entries. -/
structure EntryOrder where
  intoEntries : Dictionary → List (StrId × OwnedDictionaryValue)
  perm : ∀ dictionary, (intoEntries dictionary).Perm dictionary.byId.toList

end Reader

/-! ## The merge -/

namespace Slice

open Reader

inductive SliceError where
  | codec (problem : CodecError)
  | write (problem : WriteError)
  | unresolvedDictionary (strId : UInt64)
deriving DecidableEq

/-- The finished sections of a segment, and the ids that its retained rows refer to. -/
structure Referenced where
  sections : WindowSections
  dictionaryIds : List UInt64
  order : EntryOrder

def insertOwned (hashes : Hashes) (dictionary : FinishedDictionary) (strId : StrId) :
    OwnedDictionaryValue → Except WriteError FinishedDictionary
  | .string bytes => dictionary.insertOwnedString hashes strId bytes
  | .blob storedBytes fullLen truncated fullSha256 =>
    dictionary.insertOwnedBlob hashes strId storedBytes fullLen truncated fullSha256

/-- The entries of one segment, with the ids that are still to come. -/
def mergeEntries (hashes : Hashes) (dictionary : FinishedDictionary) (dictionaryIds : List UInt64) :
    List (StrId × OwnedDictionaryValue) → Except SliceError FinishedDictionary
  | [] =>
    match dictionaryIds with
    | [] => .ok dictionary
    | raw :: _ => .error (.unresolvedDictionary raw)
  | (strId, value) :: entries =>
    if strId.raw ∈ dictionaryIds then
      match insertOwned hashes dictionary strId value with
      | .error problem => .error (.write problem)
      | .ok dictionary =>
        mergeEntries hashes dictionary (dictionaryIds.filter fun raw => raw ≠ strId.raw) entries
    else
      mergeEntries hashes dictionary dictionaryIds entries

def mergeReferenced (hashes : Hashes) (dictionary : FinishedDictionary)
    (segment : Referenced) : Except SliceError FinishedDictionary :=
  if segment.dictionaryIds.isEmpty then .ok dictionary
  else
    match dictionaryFor segment.sections segment.dictionaryIds with
    | .error problem => .error (.codec problem)
    | .ok owned =>
      mergeEntries hashes dictionary segment.dictionaryIds (segment.order.intoEntries owned)

/-- The dictionary part of `stage_selected_rows`. -/
def mergeDictionaries (hashes : Hashes) (dictionary : FinishedDictionary) :
    List Referenced → Except SliceError FinishedDictionary
  | [] => .ok dictionary
  | segment :: segments =>
    match mergeReferenced hashes dictionary segment with
    | .error problem => .error problem
    | .ok dictionary => mergeDictionaries hashes dictionary segments

end Slice
end Kronika
