/-
Journal frames: the header of a frame and the part behind it.
-/
import Kronika.Format.Catalog

namespace Kronika.Format

open Library

/-- The bytes of `ZMSP`. -/
def frameMagic : Bytes := [90, 77, 83, 80]

def frameHeaderLen : Nat := 16

def maxPartLen : Nat := 64 * 1024 * 1024

/-! ## Frame headers -/

structure FrameHeader where
  partLen : Nat
deriving DecidableEq

inductive FrameError where
  | badMagic (actual : Bytes)
  | badCrc (stored computed : Nat)
deriving DecidableEq

namespace FrameHeader

def encode (crc32c : Checksum) (header : FrameHeader) : Bytes :=
  let prelude := frameMagic ++ leBytes 8 header.partLen
  prelude ++ leBytes 4 (crc32c prelude).toNat

def decode (crc32c : Checksum) (bytes : Bytes) : Except FrameError FrameHeader :=
  if slice bytes 0 4 ≠ frameMagic then .error (.badMagic (slice bytes 0 4))
  else if leNat (slice bytes 12 16) ≠ (crc32c (slice bytes 0 12)).toNat then
    .error (.badCrc (leNat (slice bytes 12 16)) (crc32c (slice bytes 0 12)).toNat)
  else .ok { partLen := leNat (slice bytes 4 12) }

end FrameHeader

/-- A part in the journal: the header of its frame, then its body. -/
def frame (crc32c : Checksum) (part : Bytes) : Bytes :=
  FrameHeader.encode crc32c { partLen := part.length } ++ part

/-! ## Parts -/

inductive PartError where
  | tooShort (actual : Nat)
  | badMagic (actual : Bytes)
  | tail (problem : DecodeError)
  | badCatalogLen (catalogLen : Nat)
  | catalog (problem : DecodeError)
  | layout (problem : CatalogLayoutError)
  | sectionCrc (typeId stored computed : Nat)
deriving DecidableEq

/-- The smallest part: the magic, an empty catalog and the tail index. -/
def minPartLen : Nat := magic.length + metaLen + tailIndexLen

/-- The catalog of a part, with its sections in bounds. -/
def decodeAndBound (crc32c : Checksum) (bytes : Bytes) : Except PartError Catalog :=
  if bytes.length < minPartLen then .error (.tooShort bytes.length)
  else if slice bytes 0 4 ≠ magic then .error (.badMagic (slice bytes 0 4))
  else
    let bodyEnd := bytes.length - tailIndexLen
    match TailIndex.decode (bytes.drop bodyEnd) with
    | .error problem => .error (.tail problem)
    | .ok tail =>
      if bodyEnd < tail.catalogLen ∨ bodyEnd - tail.catalogLen < magic.length then
        .error (.badCatalogLen tail.catalogLen)
      else
        let catalogStart := bodyEnd - tail.catalogLen
        match Catalog.decode crc32c (slice bytes catalogStart bodyEnd) with
        | .error problem => .error (.catalog problem)
        | .ok catalog =>
          match validateCatalogLayout catalog catalogStart with
          | .error problem => .error (.layout problem)
          | .ok () => .ok catalog

/-- The first section whose body does not match its checksum. -/
def validateSections (crc32c : Checksum) (bytes : Bytes) : List Entry → Except PartError Unit
  | [] => .ok ()
  | entry :: entries =>
    let computed := (crc32c (slice bytes entry.offset (entry.offset + entry.len))).toNat
    if computed ≠ entry.crc32c then .error (.sectionCrc entry.typeId entry.crc32c computed)
    else validateSections crc32c bytes entries

def validatePart (crc32c : Checksum) (bytes : Bytes) : Except PartError Catalog :=
  match decodeAndBound crc32c bytes with
  | .error problem => .error problem
  | .ok catalog =>
    match validateSections crc32c bytes catalog.entries with
    | .error problem => .error problem
    | .ok () => .ok catalog

theorem minPartLen_le {crc32c : Checksum} {part : Bytes} {catalog : Catalog}
    (h : validatePart crc32c part = .ok catalog) : minPartLen ≤ part.length := by
  by_contra hlt
  have hshort : decodeAndBound crc32c part = .error (.tooShort part.length) := by
    rw [decodeAndBound, if_pos (by omega)]
  rw [validatePart, hshort] at h
  cases h

@[simp] theorem FrameHeader.length_encode (crc32c : Checksum) (header : FrameHeader) :
    (header.encode crc32c).length = frameHeaderLen := by
  rfl

theorem FrameHeader.decode_encode (crc32c : Checksum) {header : FrameHeader}
    (h : header.partLen < 2 ^ 64) : decode crc32c (header.encode crc32c) = .ok header := by
  have hlen : slice (header.encode crc32c) 4 12 = leBytes 8 header.partLen := rfl
  have hcrc : slice (header.encode crc32c) 12 16 =
      leBytes 4 (crc32c (frameMagic ++ leBytes 8 header.partLen)).toNat := rfl
  rw [decode, hlen, hcrc, if_neg (fun hne => hne rfl), leNat_u32 (UInt32.toNat_lt _),
    if_neg (fun hne => hne rfl), leNat_u64 h]

theorem length_frame (crc32c : Checksum) (part : Bytes) :
    (frame crc32c part).length = frameHeaderLen + part.length := by
  rw [frame, List.length_append, FrameHeader.length_encode]

end Kronika.Format
