/-
The container of an index file.

A header with the checksum, a table of contents, and the blocks behind it in the
order of their keys.  A reader is the bytes behind it.
-/
import Kronika.Index.Series
import Kronika.Library.PositionedRead

namespace Kronika.Index

open Format Library

/-- The bytes of `KRNIDX3` and a zero. -/
def magic : Bytes := [75, 82, 78, 73, 68, 88, 51, 0]

def headerLen : Nat := 16
def entryLen : Nat := 16
def checksumAt : Nat := 12
def maxIndexBytes : Nat := 8 * 1024 * 1024
def maxBlocks : Nat := 39
def checksumChunk : Nat := 16 * 1024

structure TargetedIndex where
  checksum : Option UInt32
  blocks : List SeriesBlock
deriving DecidableEq

structure TocEntry where
  key : SeriesKey
  offset : Nat
  len : Nat
deriving DecidableEq

/-! ## Encoding -/

def TocEntry.encode (entry : TocEntry) : Bytes :=
  leBytes 4 entry.key.kind.raw.toNat ++ leBytes 4 entry.key.typeId.toNat ++
    leBytes 4 entry.offset ++ leBytes 4 entry.len

/-- The table and the bodies of the blocks, `total` bytes having been written. -/
def encodeBlocks (total offset : Nat) :
    Option SeriesKey → List SeriesBlock → Except IndexError (Bytes × Bytes)
  | _, [] => .ok ([], [])
  | previous, block :: blocks =>
    if previous.any fun earlier => !earlier.before block.key then .error .badLayout
    else
      match block.encode with
      | .error problem => .error problem
      | .ok body =>
        if 2 ^ 32 ≤ body.length then .error .tooLarge
        else if 2 ^ 32 ≤ offset + body.length then .error .tooLarge
        else if total + body.length > maxIndexBytes then .error .tooLarge
        else
          match encodeBlocks (total + body.length) (offset + body.length) (some block.key)
            blocks with
          | .error problem => .error problem
          | .ok (table, bodies) =>
            .ok (TocEntry.encode { key := block.key, offset := offset, len := body.length } ++
              table, body ++ bodies)

def checksum (crc32c : Checksum) (head rest : Bytes) : UInt32 := crc32c (head ++ rest)

def encode (crc32c : Checksum) (blocks : List SeriesBlock) : Except IndexError Bytes :=
  if blocks.length > maxBlocks then .error .tooLarge
  else
    match encodeBlocks (headerLen + blocks.length * entryLen) 0 none blocks with
    | .error problem => .error problem
    | .ok (table, bodies) =>
      let head := magic ++ leBytes 4 blocks.length
      .ok (head ++ leBytes 4 (checksum crc32c head (table ++ bodies)).toNat ++ (table ++ bodies))

/-! ## Decoding -/

/-- The table, read from `expectedOffset` on, and the end of the last block. -/
def decodeTable (expectedOffset : Nat) :
    Option SeriesKey → Nat → Bytes → Except IndexError (List TocEntry × Nat)
  | _, 0, _ => .ok ([], expectedOffset)
  | previous, count + 1, raw =>
    match SeriesKind.fromRaw (u32Of (slice raw 0 4)) with
    | .error problem => .error problem
    | .ok kind =>
      let entry : TocEntry :=
        { key := { kind := kind, typeId := u32Of (slice raw 4 8) }
          offset := (u32Of (slice raw 8 12)).toNat, len := (u32Of (slice raw 12 16)).toNat }
      if entry.offset ≠ expectedOffset ∨
          previous.any (fun earlier => !earlier.before entry.key) = true then
        .error .badLayout
      else if 2 ^ 32 ≤ expectedOffset + entry.len then .error .badLayout
      else
        match decodeTable (expectedOffset + entry.len) (some entry.key) count
          (raw.drop entryLen) with
        | .error problem => .error problem
        | .ok (table, stop) => .ok (entry :: table, stop)

structure Metadata where
  expectedChecksum : UInt32
  table : List TocEntry
  bodyAt : Nat
deriving DecidableEq

def metadata (reader : Bytes) : Except IndexError Metadata :=
  if reader.length > maxIndexBytes then .error .tooLarge
  else if reader.length < headerLen then .error .truncated
  else if slice reader 0 8 ≠ magic then .error .badMagic
  else
    let count := (u32Of (slice reader 8 12)).toNat
    if count > maxBlocks then .error .tooLarge
    else if headerLen + count * entryLen > reader.length then .error .truncated
    else
      let bodyAt := headerLen + count * entryLen
      match decodeTable 0 none count (slice reader headerLen bodyAt) with
      | .error problem => .error problem
      | .ok (table, stop) =>
        if bodyAt + stop ≠ reader.length then .error .badLayout
        else
          .ok { expectedChecksum := u32Of (slice reader checksumAt headerLen), table := table
                bodyAt := bodyAt }

def validateChecksum (crc32c : Checksum) (reader : Bytes) (expected : UInt32) :
    Except IndexError Unit :=
  match readExactAt reader 0 checksumAt,
    readChunks checksumChunk (by decide) reader headerLen (reader.length - headerLen) with
  | some head, some rest =>
    if checksum crc32c head rest = expected then .ok () else .error .badChecksum
  | _, _ => .error .truncated

def readBlock (reader : Bytes) (bodyAt : Nat) (entry : TocEntry) : Except IndexError SeriesBlock :=
  match readExactAt reader (bodyAt + entry.offset) entry.len with
  | none => .error .truncated
  | some block => SeriesBlock.decode entry.key block

def readBlocks (reader : Bytes) (bodyAt : Nat) :
    List TocEntry → Except IndexError (List SeriesBlock)
  | [] => .ok []
  | entry :: table =>
    match readBlock reader bodyAt entry with
    | .error problem => .error problem
    | .ok block =>
      match readBlocks reader bodyAt table with
      | .error problem => .error problem
      | .ok blocks => .ok (block :: blocks)

/-- The metadata of a file whose checksum matches. -/
def checkedMetadata (crc32c : Checksum) (reader : Bytes) : Except IndexError Metadata :=
  match metadata reader with
  | .error problem => .error problem
  | .ok found =>
    match validateChecksum crc32c reader found.expectedChecksum with
    | .error problem => .error problem
    | .ok () => .ok found

def decode (crc32c : Checksum) (reader : Bytes) : Except IndexError (List SeriesBlock) :=
  match checkedMetadata crc32c reader with
  | .error problem => .error problem
  | .ok found => readBlocks reader found.bodyAt found.table

def decodeTarget (crc32c : Checksum) (reader : Bytes) (keys : List SeriesKey) :
    Except IndexError TargetedIndex :=
  match checkedMetadata crc32c reader with
  | .error problem => .error problem
  | .ok found =>
    match readBlocks reader found.bodyAt
      (found.table.filter fun entry => keys.contains entry.key) with
    | .error problem => .error problem
    | .ok blocks => .ok { checksum := some found.expectedChecksum, blocks := blocks }

end Kronika.Index
