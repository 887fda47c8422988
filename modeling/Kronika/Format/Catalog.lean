/-
The end catalog of a container, and the canonical layout of its sections.

Integers are little-endian.  The checksum is `crc32c` of the `crc` crate, a
function of the bytes, and a parameter of everything that uses it.
-/
import Kronika.Format.StrId
import Kronika.Library.LittleEndian

namespace Kronika.Format

open Library

abbrev Checksum := Bytes → UInt32

/-- The bytes of `ZMS1`. -/
def magic : Bytes := [90, 77, 83, 49]

def entryLen : Nat := 32
def metaLen : Nat := 32
def tailIndexLen : Nat := 8
def metaCrcOffset : Nat := 24

def dictStringsTypeId : Nat := 3001001
def dictBlobsTypeId : Nat := 3002001

def maxJournalLen : Nat := 1024 * 1024 * 1024
def maxJournalParts : Nat := 1000000
def maxPhysicalSectionBytes : Nat := maxJournalLen

def u32At (bytes : Bytes) (offset : Nat) : Nat := leNat (slice bytes offset (offset + 4))
def u64At (bytes : Bytes) (offset : Nat) : Nat := leNat (slice bytes offset (offset + 8))
def i64At (bytes : Bytes) (offset : Nat) : Int64 :=
  (UInt64.ofNat (leNat (slice bytes offset (offset + 8)))).toInt64

/-- One row of the catalog: a section body and its checksum. -/
structure Entry where
  typeId : Nat
  flags : Nat
  offset : Nat
  len : Nat
  rows : Nat
  crc32c : Nat
deriving DecidableEq

structure Catalog where
  entries : List Entry
  minTs : Int64
  maxTs : Int64
  formatVersion : Nat
  windowCount : Nat
deriving DecidableEq

inductive DecodeError where
  | badTailMagic (actual : Bytes)
  | badCatalogLen (actual : Nat)
  | entryCountMismatch (stored derived : Nat)
  | badCrc (stored computed : Nat)
deriving DecidableEq

/-! ## The tail index -/

structure TailIndex where
  catalogLen : Nat
deriving DecidableEq

def TailIndex.encode (tail : TailIndex) : Bytes := leBytes 4 tail.catalogLen ++ magic

def TailIndex.decode (bytes : Bytes) : Except DecodeError TailIndex :=
  if slice bytes 4 8 ≠ magic then .error (.badTailMagic (slice bytes 4 8))
  else .ok { catalogLen := u32At bytes 0 }

/-! ## The catalog block -/

def decodeEntry (bytes : Bytes) : Entry :=
  { typeId := u32At bytes 0, flags := u32At bytes 4, offset := u64At bytes 8
    len := u64At bytes 16, rows := u32At bytes 24, crc32c := u32At bytes 28 }

/-- The entries of the first `count` rows. -/
def decodeEntries : Nat → Bytes → List Entry
  | 0, _ => []
  | count + 1, bytes =>
    decodeEntry (bytes.take entryLen) :: decodeEntries count (bytes.drop entryLen)

/-- The checksum with the four bytes at `zeroAt` read as zero. -/
def crc32cWithZeroedField (crc32c : Checksum) (bytes : Bytes) (zeroAt : Nat) : UInt32 :=
  crc32c (bytes.take zeroAt ++ [0, 0, 0, 0] ++ bytes.drop (zeroAt + 4))

def Catalog.decode (crc32c : Checksum) (bytes : Bytes) : Except DecodeError Catalog :=
  if bytes.length < metaLen ∨ (bytes.length - metaLen) % entryLen ≠ 0 then
    .error (.badCatalogLen bytes.length)
  else if 2 ^ 32 ≤ (bytes.length - metaLen) / entryLen then .error (.badCatalogLen bytes.length)
  else
    let derived := (bytes.length - metaLen) / entryLen
    let meta' := bytes.drop (bytes.length - metaLen)
    if u32At meta' 16 ≠ derived then .error (.entryCountMismatch (u32At meta' 16) derived)
    else
      let computed := crc32cWithZeroedField crc32c bytes (bytes.length - metaLen + metaCrcOffset)
      if u32At meta' metaCrcOffset ≠ computed.toNat then
        .error (.badCrc (u32At meta' metaCrcOffset) computed.toNat)
      else
        .ok { entries := decodeEntries derived bytes, minTs := i64At meta' 0
              maxTs := i64At meta' 8, formatVersion := u32At meta' 20
              windowCount := u32At meta' 28 }

/-! ## The canonical layout -/

inductive SectionOrder where
  | data (typeId : Nat)
  | strings
  | blobs
deriving DecidableEq

namespace SectionOrder

def ofTypeId (typeId : Nat) : SectionOrder :=
  if typeId = dictStringsTypeId then strings
  else if typeId = dictBlobsTypeId then blobs
  else data typeId

/-- Data sections in the order of their types, then strings, then blobs. -/
def before : SectionOrder → SectionOrder → Bool
  | data a, data b => a < b
  | data _, _ => true
  | strings, blobs => true
  | _, _ => false

end SectionOrder

structure CatalogLayoutError where
  typeId : Option Nat
  reason : String
deriving DecidableEq

namespace CatalogLayoutError

def entry (typeId : Nat) (reason : String) : CatalogLayoutError :=
  { typeId := some typeId, reason := reason }

def container (reason : String) : CatalogLayoutError := { typeId := none, reason := reason }

end CatalogLayoutError

/-- The checks of one entry that come before the order of the sections. -/
def validateEntry (entry : Entry) (expectedOffset : Nat) : Except CatalogLayoutError Unit :=
  if entry.flags ≠ 0 then .error (.entry entry.typeId "reserved flags are not zero")
  else if entry.rows = 0 then .error (.entry entry.typeId "populated section has zero rows")
  else if entry.len = 0 then .error (.entry entry.typeId "section body is empty")
  else if entry.len > maxPhysicalSectionBytes then
    .error (.entry entry.typeId "body length is above the physical cap")
  else if entry.offset ≠ expectedOffset then
    .error (.entry entry.typeId "body is not contiguous with the preceding section")
  else .ok ()

def validateOrder (entry : Entry) : Option SectionOrder → Except CatalogLayoutError Unit
  | none => .ok ()
  | some previous =>
    if SectionOrder.ofTypeId entry.typeId = previous then
      .error (.entry entry.typeId "section type occurs more than once")
    else if (SectionOrder.ofTypeId entry.typeId).before previous then
      .error (.entry entry.typeId "section is out of canonical order")
    else .ok ()

def validateEntries (catalogAt expectedOffset : Nat) (previous : Option SectionOrder) :
    List Entry → Except CatalogLayoutError Unit
  | [] =>
    if expectedOffset ≠ catalogAt then
      .error (.container "section bodies do not end at the catalog start")
    else .ok ()
  | entry :: entries =>
    match validateEntry entry expectedOffset with
    | .error problem => .error problem
    | .ok () =>
      match validateOrder entry previous with
      | .error problem => .error problem
      | .ok () =>
        if 2 ^ 64 ≤ entry.offset + entry.len then
          .error (.entry entry.typeId "body range overflows the container")
        else
          validateEntries catalogAt (entry.offset + entry.len)
            (some (SectionOrder.ofTypeId entry.typeId)) entries

def validateCatalogLayout (catalog : Catalog) (catalogAt : Nat) :
    Except CatalogLayoutError Unit :=
  validateEntries catalogAt magic.length none catalog.entries

end Kronika.Format
