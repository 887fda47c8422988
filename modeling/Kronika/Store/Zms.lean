/-
Framing and catalog validation of a finished segment.

A reader is the bytes behind it.  The summary of a segment is computed from its
catalog and the length of the catalog, which stand for it here.
-/
import Kronika.Format.Crc
import Kronika.Library.PositionedRead

namespace Kronika.Store

open Format Library

def maxCatalogBytes : Nat := 64 * 1024 * 1024
def crcChunkBytes : Nat := 16 * 1024

def hardMaxMetadataBytes : Nat := 128 * 1024 * 1024

def entryAllocation : Nat := 32

inductive ZmsError where
  | io
  | metadataLimit (limit : Nat)
  | tooSmall
  | badMagic
  | tailIndex (problem : DecodeError)
  | unsupportedFormat (version : Nat)
  | badCatalogLength
  | catalog (problem : DecodeError)
  | sectionLayout (problem : CatalogLayoutError)
  | sectionChecksum (typeId : Nat)
deriving DecidableEq

inductive FinishedValidation where
  | catalog
  | complete
deriving DecidableEq

structure EncodedCatalog where
  bytes : Bytes
  bodyEnd : Nat
deriving DecidableEq

abbrev MetadataBudget := Nat × Nat

def checkBudget (catalogLen : Nat) : Option MetadataBudget → Except ZmsError Unit
  | none => .ok ()
  | some (retained, limit) =>
    if retained + catalogLen > limit then .error (.metadataLimit limit) else .ok ()

def readEncodedCatalog (reader : Bytes) (metadataBudget : Option MetadataBudget) :
    Except ZmsError EncodedCatalog :=
  if reader.length < tailIndexLen then .error .tooSmall
  else
    let tailAt := reader.length - tailIndexLen
    match readExactAt reader tailAt tailIndexLen with
    | none => .error .io
    | some tailBytes =>
      match TailIndex.decode tailBytes with
      | .error problem => .error (.tailIndex problem)
      | .ok tail =>
        if tail.catalogLen > maxCatalogBytes then .error .badCatalogLength
        else if tailAt < tail.catalogLen ∨ tailAt - tail.catalogLen < magic.length then
          .error .badCatalogLength
        else
          match checkBudget tail.catalogLen metadataBudget with
          | .error problem => .error problem
          | .ok () =>
            match readExactAt reader (tailAt - tail.catalogLen) tail.catalogLen with
            | none => .error .io
            | some bytes => .ok { bytes := bytes, bodyEnd := tailAt - tail.catalogLen }

def verifyMagic (reader : Bytes) : Except ZmsError Unit :=
  match readExactAt reader 0 magic.length with
  | none => .error .io
  | some found => if found = magic then .ok () else .error .badMagic

def checkFormat (catalog : Catalog) (bodyEnd : Nat) : Except ZmsError Unit :=
  if catalog.formatVersion ≠ formatVersion then .error (.unsupportedFormat catalog.formatVersion)
  else
    match validateCatalogLayout catalog bodyEnd with
    | .error problem => .error (.sectionLayout problem)
    | .ok () => .ok ()

def validateSectionChecksums (crc32c : Checksum) (reader : Bytes) :
    List Entry → Except ZmsError Unit
  | [] => .ok ()
  | entry :: entries =>
    match readChunks crcChunkBytes (by decide) reader entry.offset entry.len with
    | none => .error .io
    | some body =>
      if (crc32c body).toNat ≠ entry.crc32c then .error (.sectionChecksum entry.typeId)
      else validateSectionChecksums crc32c reader entries

/-- The catalog and its encoded length, of which the summary is made. -/
def readZmsSummary (crc32c : Checksum) (reader : Bytes) (retainedMetadata metadataLimit : Nat)
    (validation : FinishedValidation) : Except ZmsError (Catalog × Nat) :=
  match readEncodedCatalog reader (some (retainedMetadata, metadataLimit)) with
  | .error problem => .error problem
  | .ok encoded =>
    match verifyMagic reader with
    | .error problem => .error problem
    | .ok () =>
      match Catalog.decode crc32c encoded.bytes with
      | .error problem => .error (.catalog problem)
      | .ok catalog =>
        if retainedMetadata + encoded.bytes.length + catalog.entries.length * entryAllocation >
            metadataLimit then
          .error (.metadataLimit metadataLimit)
        else
          match checkFormat catalog encoded.bodyEnd with
          | .error problem => .error problem
          | .ok () =>
            match validation with
            | .catalog => .ok (catalog, encoded.bytes.length)
            | .complete =>
              match validateSectionChecksums crc32c reader catalog.entries with
              | .error problem => .error problem
              | .ok () => .ok (catalog, encoded.bytes.length)

def readCatalog (crc32c : Checksum) (reader : Bytes) : Except ZmsError Catalog :=
  match readEncodedCatalog reader none with
  | .error problem => .error problem
  | .ok encoded =>
    match Catalog.decode crc32c encoded.bytes with
    | .error problem => .error (.catalog problem)
    | .ok catalog =>
      match verifyMagic reader with
      | .error problem => .error problem
      | .ok () =>
        match checkFormat catalog encoded.bodyEnd with
        | .error problem => .error problem
        | .ok () => .ok catalog

end Kronika.Store
