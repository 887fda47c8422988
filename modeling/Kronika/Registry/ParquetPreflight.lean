/-
What the metadata of a section's Parquet file has to satisfy before it is decoded.

One pass over the footer collects the byte range of every column chunk and the work
that it declares, and a second pass reads the page headers of every range.  The
parser of page headers is a parameter; `w` is the width of a machine word.
-/
import Kronika.Library.Checked
import Kronika.Registry.Finalize

namespace Kronika.Preflight

open Format (Bytes)
open Library

/-! ## Metadata -/

structure Encoding where
  value : Int32
deriving DecidableEq

namespace Encoding

def plain : Encoding := ⟨0⟩
def plainDictionary : Encoding := ⟨2⟩
def rle : Encoding := ⟨3⟩
def bitPacked : Encoding := ⟨4⟩
def rleDictionary : Encoding := ⟨8⟩

end Encoding

/-- A page type is a number; a file may have one that the format does not name. -/
structure PageType where
  value : Int32
deriving DecidableEq

namespace PageType

def dataPage : PageType := ⟨0⟩
def indexPage : PageType := ⟨1⟩
def dictionaryPage : PageType := ⟨2⟩
def dataPageV2 : PageType := ⟨3⟩

end PageType

structure DataPageHeader where
  numValues : Int32
  encoding : Encoding
  definitionLevelEncoding : Encoding
  repetitionLevelEncoding : Encoding

structure DataPageHeaderV2 where
  numValues : Int32
  numNulls : Int32
  numRows : Int32
  encoding : Encoding
  definitionLevelsByteLength : Int32
  repetitionLevelsByteLength : Int32

structure DictionaryPageHeader where
  numValues : Int32
  encoding : Encoding

structure PageHeader where
  type : PageType
  uncompressedPageSize : Int32
  compressedPageSize : Int32
  dataPageHeader : Option DataPageHeader
  indexPageHeader : Option Unit
  dictionaryPageHeader : Option DictionaryPageHeader
  dataPageHeaderV2 : Option DataPageHeaderV2

structure ColumnMetaData where
  numValues : Int64
  totalUncompressedSize : Int64
  totalCompressedSize : Int64
  dataPageOffset : Int64
  dictionaryPageOffset : Option Int64

structure ColumnChunk where
  filePath : Option String
  metaData : Option ColumnMetaData
  cryptoMetadata : Option Unit
  encryptedColumnMetadata : Option Bytes

structure RowGroup where
  columns : List ColumnChunk
  numRows : Int64

/-- Of the schema only the names are kept, of the encryption only that there is one. -/
structure FileMetaData where
  schema : List String
  numRows : Int64
  rowGroups : List RowGroup
  encryptionAlgorithm : Option Unit
  footerSigningKeyMetadata : Option Bytes

structure ParquetDecodeProfile where
  rows : Nat
  decodedBytes : Nat
deriving DecidableEq

/-- The errors of `CodecError` that the checks of this file raise. -/
inductive CodecError where
  | invalidRowCount (raw : Int64)
  | tooManyRows (rows max : Nat)
  | tooManyRowGroups (groups max : Nat)
  | invalidPageLayout
  | sectionTooLarge (len max : Nat)
  | dictionaryEncodingUnsupported
  | decodedSectionTooLarge (len max : Nat)
  | unsupportedPageEncoding (encoding : Int32)
deriving DecidableEq

def magicLen : Nat := 4

def maxRowGroups : Nat :=
  (Registry.maxSectionRows + Registry.sectionWriteBatchRows - 1) / Registry.sectionWriteBatchRows

/-! ## Checked numbers -/

def rowCountFits (rows : Nat) : Bool := rows < 2 ^ 32

def okOr {α : Type} (problem : CodecError) : Option α → Except CodecError α
  | none => .error problem
  | some value => .ok value

section Word

variable (w : Nat)

def wordMax : Nat := 2 ^ w - 1

def checkedRows (raw : Int64) : Except CodecError Nat :=
  if raw.toInt < 0 ∨ wordMax w < raw.toInt.toNat then .error (.invalidRowCount raw)
  else .ok raw.toInt.toNat

def checkedNonnegative (raw : Int) : Except CodecError Nat :=
  if raw < 0 ∨ wordMax w < raw.toNat then .error .invalidPageLayout else .ok raw.toNat

def pageValueLimit : Nat :=
  min (Registry.maxSectionRows + Registry.maxListI32ValuesPerSection) (wordMax w)

def addPageValues (total : Nat) (raw : Int32) : Except CodecError Nat := do
  let values ← checkedNonnegative w raw.toInt
  okOr .invalidPageLayout ((checkedAdd w total values).filter (· ≤ pageValueLimit w))

def addWork (total add max : Nat) : Except CodecError Nat :=
  match checkedAdd w total add with
  | none => .error (.decodedSectionTooLarge (wordMax w) max)
  | some next =>
    if max < next then .error (.decodedSectionTooLarge next max) else .ok next

/-! ## The footer -/

/-- The range of a chunk that has bytes, and what the footer says about them. -/
structure ChunkRange where
  start : Nat
  stop : Nat
  dataStart : Nat
  declared : Nat
  values : Nat
  hasDictionary : Bool
deriving DecidableEq

/-- A chunk starts at its dictionary page, or at its first data page. -/
def chunkStart (column : ColumnMetaData) (dataStart : Nat) : Except CodecError Nat :=
  match column.dictionaryPageOffset with
  | none => .ok dataStart
  | some raw => do
    let dictionaryStart ← checkedNonnegative w raw.toInt
    if dataStart < dictionaryStart then .error .invalidPageLayout else .ok dictionaryStart

/-- The range of a chunk; a chunk without bytes has none. -/
def chunkRange (metadataStart start dataStart compressed declared values : Nat)
    (hasDictionary : Bool) : Except CodecError (Option ChunkRange) :=
  if compressed = 0 then
    if declared ≠ 0 ∨ values ≠ 0 ∨ hasDictionary = true ∨ start ≠ dataStart ∨
        start < magicLen ∨ metadataStart < start then .error .invalidPageLayout
    else .ok none
  else
    match checkedAdd w start compressed with
    | none => .error .invalidPageLayout
    | some stop =>
      if magicLen ≤ start ∧ start ≤ dataStart ∧ dataStart ≤ stop ∧ stop ≤ metadataStart then
        .ok (some { start := start, stop := stop, dataStart := dataStart, declared := declared
                    values := values, hasDictionary := hasDictionary })
      else .error .invalidPageLayout

/-- The metadata of a chunk that is in this file and not encrypted. -/
def chunkMetaData (chunk : ColumnChunk) : Except CodecError ColumnMetaData :=
  if chunk.filePath.isSome ∨ chunk.cryptoMetadata.isSome ∨
      chunk.encryptedColumnMetadata.isSome then .error .invalidPageLayout
  else okOr .invalidPageLayout chunk.metaData

/-- What the pass over the footer has added up. -/
structure Footer where
  rows : Nat
  work : Nat
  ranges : List ChunkRange

section Limits

variable (metadataStart maxDecodedBytes : Nat) (allowDictionary : Bool)

def admitChunk (footer : Footer) (chunk : ColumnChunk) : Except CodecError Footer := do
  let column ← chunkMetaData chunk
  let declared ← checkedNonnegative w column.totalUncompressedSize.toInt
  let work ← addWork w footer.work declared maxDecodedBytes
  let values ← checkedNonnegative w column.numValues.toInt
  if pageValueLimit w < values then .error .invalidPageLayout
  else
    let compressed ← checkedNonnegative w column.totalCompressedSize.toInt
    let dataStart ← checkedNonnegative w column.dataPageOffset.toInt
    let hasDictionary := column.dictionaryPageOffset.isSome
    if (hasDictionary && !allowDictionary) = true then .error .dictionaryEncodingUnsupported
    else
      let start ← chunkStart w column dataStart
      let range ← chunkRange w metadataStart start dataStart compressed declared values
        hasDictionary
      .ok { footer with work := work, ranges := footer.ranges ++ range.toList }

def admitGroup (footer : Footer) (group : RowGroup) : Except CodecError Footer := do
  let groupRows ← checkedRows w group.numRows
  if rowCountFits groupRows = false then
    .error (.tooManyRows groupRows Registry.maxSectionRows)
  else
    let rows ← okOr .invalidPageLayout (checkedAdd w footer.rows groupRows)
    if group.columns.isEmpty = true then .error .invalidPageLayout
    else
      group.columns.foldlM (admitChunk w metadataStart maxDecodedBytes allowDictionary)
        { footer with rows := rows }

end Limits

/-! ## Page headers -/

def validateDataEncoding (encoding : Encoding) (allowDictionary : Bool) :
    Except CodecError Unit :=
  if encoding = .plain ∨ encoding = .rle ∨ (allowDictionary = true ∧
      (encoding = .plainDictionary ∨ encoding = .rleDictionary)) then .ok ()
  else .error (.unsupportedPageEncoding encoding.value)

def validateLevelEncoding (encoding : Encoding) : Except CodecError Unit :=
  if encoding = .rle ∨ encoding = .bitPacked then .ok ()
  else .error (.unsupportedPageEncoding encoding.value)

/-- The values of the data pages so far, and whether a dictionary page was seen. -/
structure Seen where
  dataValues : Nat
  dictionary : Bool
deriving DecidableEq

def validateDataPage (header : PageHeader) (seen : Seen) (allowDictionary : Bool) :
    Except CodecError Seen := do
  let page ← okOr .invalidPageLayout (header.dataPageHeader.filter fun _ =>
    header.dataPageHeaderV2.isNone && header.dictionaryPageHeader.isNone &&
      header.indexPageHeader.isNone)
  validateDataEncoding page.encoding allowDictionary
  validateLevelEncoding page.definitionLevelEncoding
  validateLevelEncoding page.repetitionLevelEncoding
  let dataValues ← addPageValues w seen.dataValues page.numValues
  .ok { seen with dataValues := dataValues }

def validateDataPageV2 (header : PageHeader) (uncompressed compressed : Nat) (seen : Seen)
    (allowDictionary : Bool) : Except CodecError Seen := do
  let page ← okOr .invalidPageLayout (header.dataPageHeaderV2.filter fun _ =>
    header.dataPageHeader.isNone && header.dictionaryPageHeader.isNone &&
      header.indexPageHeader.isNone)
  validateDataEncoding page.encoding allowDictionary
  let values ← checkedNonnegative w page.numValues.toInt
  let nulls ← checkedNonnegative w page.numNulls.toInt
  let rows ← checkedNonnegative w page.numRows.toInt
  let definition ← checkedNonnegative w page.definitionLevelsByteLength.toInt
  let repetition ← checkedNonnegative w page.repetitionLevelsByteLength.toInt
  if values < nulls ∨ rowCountFits rows = false then .error .invalidPageLayout
  else
    let _levels ← okOr .invalidPageLayout ((checkedAdd w definition repetition).filter fun len =>
      len ≤ uncompressed && len ≤ compressed)
    let dataValues ← addPageValues w seen.dataValues page.numValues
    .ok { seen with dataValues := dataValues }

def validateDictionaryPage (header : PageHeader) (seen : Seen) : Except CodecError Seen := do
  let page ← okOr .invalidPageLayout (header.dictionaryPageHeader.filter fun _ =>
    header.dataPageHeader.isNone && header.dataPageHeaderV2.isNone &&
      header.indexPageHeader.isNone)
  if page.encoding ≠ .plain ∧ page.encoding ≠ .plainDictionary then
    .error (.unsupportedPageEncoding page.encoding.value)
  else
    let values ← checkedNonnegative w page.numValues.toInt
    if seen.dictionary = true ∨ pageValueLimit w < values then .error .invalidPageLayout
    else .ok { seen with dictionary := true }

def validatePageHeader (header : PageHeader) (uncompressed compressed : Nat) (seen : Seen)
    (allowDictionary : Bool) : Except CodecError Seen :=
  if header.type = .dataPage then validateDataPage w header seen allowDictionary
  else if header.type = .dataPageV2 then
    validateDataPageV2 w header uncompressed compressed seen allowDictionary
  else if header.type = .dictionaryPage then validateDictionaryPage w header seen
  else if header.type = .indexPage then
    if header.indexPageHeader.isNone ∨ header.dataPageHeader.isSome ∨
        header.dataPageHeaderV2.isSome ∨ header.dictionaryPageHeader.isSome then
      .error .invalidPageLayout
    else .ok seen
  else .error .invalidPageLayout

/-! ## The pages of a chunk -/

/-- A parser of page headers: the header, the bytes that it leaves, and its nesting. -/
abbrev PageHeaderReader := Bytes → Option (PageHeader × Nat × Nat)

structure Walk where
  offset : Nat
  columnWork : Nat
  seen : Seen
  sawData : Bool
  pageWork : Nat
  pageCount : Nat
deriving DecidableEq

/-- Whether a page may stand where it does, and whether data pages were seen then. -/
def placePage (range : ChunkRange) (walk : Walk) (type : PageType) : Except CodecError Bool :=
  if type = .dictionaryPage then
    if (range.hasDictionary && !walk.seen.dictionary) = true ∧ walk.offset = range.start then
      .ok walk.sawData
    else .error .invalidPageLayout
  else if type = .dataPage ∨ type = .dataPageV2 then
    if walk.sawData = true then .ok true
    else if walk.offset ≠ range.dataStart then .error .invalidPageLayout
    else .ok true
  else if walk.offset < range.dataStart then .error .invalidPageLayout
  else .ok walk.sawData

section Pages

variable (readPageHeader : PageHeaderReader) (body : Bytes) (maxDecodedBytes : Nat)
  (allowDictionary : Bool)

/-- The header at an offset, and its length. -/
def pageHeaderAt (offset stop : Nat) : Except CodecError (PageHeader × Nat) :=
  match readPageHeader (slice body offset stop) with
  | none => .error .invalidPageLayout
  | some (header, remaining, nesting) => do
    let headerLen ← okOr .invalidPageLayout
      ((checkedSub (slice body offset stop).length remaining).filter fun len =>
        len != 0 && nesting == 0)
    .ok (header, headerLen)

def admitPage (range : ChunkRange) (walk : Walk) : Except CodecError Walk := do
  let pageCount ← okOr .invalidPageLayout ((checkedAdd w walk.pageCount 1).filter rowCountFits)
  let (header, headerLen) ← pageHeaderAt readPageHeader body walk.offset range.stop
  let compressed ← checkedNonnegative w header.compressedPageSize.toInt
  let uncompressed ← checkedNonnegative w header.uncompressedPageSize.toInt
  let sawData ← placePage range walk header.type
  let tooLarge := .decodedSectionTooLarge (wordMax w) maxDecodedBytes
  let decoded ← okOr tooLarge (checkedAdd w headerLen uncompressed)
  let columnWork ← okOr tooLarge (checkedAdd w walk.columnWork decoded)
  let pageWork ← addWork w walk.pageWork decoded maxDecodedBytes
  let seen ← validatePageHeader w header uncompressed compressed walk.seen allowDictionary
  let offset ← okOr .invalidPageLayout
    (((checkedAdd w walk.offset headerLen).bind (checkedAdd w · compressed)).filter
      (· ≤ range.stop))
  .ok { offset := offset, columnWork := columnWork, seen := seen, sawData := sawData
        pageWork := pageWork, pageCount := pageCount }

/-- The pages from the offset of the walk to the end of the range; `none` is a walk that
has not ended after so many pages. -/
def walkPages (range : ChunkRange) : Nat → Walk → Option (Except CodecError Walk)
  | fuel, walk =>
    if walk.offset < range.stop then
      match fuel with
      | 0 => none
      | fuel + 1 =>
        match admitPage w readPageHeader body maxDecodedBytes allowDictionary range walk with
        | .error problem => some (.error problem)
        | .ok next => walkPages range fuel next
    else some (.ok walk)

/-- What all chunks so far have had of pages. -/
structure PageTotals where
  work : Nat
  count : Nat
deriving DecidableEq

def startOf (range : ChunkRange) (totals : PageTotals) : Walk where
  offset := range.start
  columnWork := 0
  seen := { dataValues := 0, dictionary := false }
  sawData := false
  pageWork := totals.work
  pageCount := totals.count

def Agrees (range : ChunkRange) (walk : Walk) : Prop :=
  walk.offset = range.stop ∧ walk.columnWork = range.declared ∧
    walk.seen.dataValues = range.values ∧ walk.seen.dictionary = range.hasDictionary ∧
      (range.values = 0 ∨ walk.sawData = true)

instance decidableAgrees (range : ChunkRange) (walk : Walk) : Decidable (Agrees range walk) :=
  inferInstanceAs (Decidable (_ ∧ _ ∧ _ ∧ _ ∧ (_ ∨ _)))

def walkChunk (totals : PageTotals) (range : ChunkRange) :
    Option (Except CodecError PageTotals) :=
  match walkPages w readPageHeader body maxDecodedBytes allowDictionary range
      (range.stop - range.start) (startOf range totals) with
  | none => none
  | some (.error problem) => some (.error problem)
  | some (.ok walk) =>
    if Agrees range walk then some (.ok { work := walk.pageWork, count := walk.pageCount })
    else some (.error .invalidPageLayout)

def walkChunks (totals : PageTotals) : List ChunkRange → Option (Except CodecError PageTotals)
  | [] => some (.ok totals)
  | range :: ranges =>
    match walkChunk w readPageHeader body maxDecodedBytes allowDictionary totals range with
    | none => none
    | some (.error problem) => some (.error problem)
    | some (.ok totals) => walkChunks totals ranges

end Pages

/-! ## The whole file -/

/-- The checks of the footer: the rows of the file, the work that it declares, and its
ranges in the order of their starts. -/
def admitFooter (metadata : FileMetaData) (metadataStart maxDecodedBytes : Nat)
    (allowDictionary : Bool) : Except CodecError Footer := do
  let rows ← checkedRows w metadata.numRows
  if rowCountFits rows = false then .error (.tooManyRows rows Registry.maxSectionRows)
  else if maxRowGroups < metadata.rowGroups.length then
    .error (.tooManyRowGroups metadata.rowGroups.length maxRowGroups)
  else if metadata.schema.isEmpty ∨ metadata.encryptionAlgorithm.isSome ∨
      metadata.footerSigningKeyMetadata.isSome then .error .invalidPageLayout
  else
    let footer ← metadata.rowGroups.foldlM
      (admitGroup w metadataStart maxDecodedBytes allowDictionary)
      { rows := 0, work := 0, ranges := [] }
    if footer.rows ≠ rows then .error .invalidPageLayout
    else
      -- Two ranges with one start overlap, so their order does not matter.
      let ranges := footer.ranges.mergeSort fun a b => a.start ≤ b.start
      if ranges.IsChain fun a b => a.stop ≤ b.start then .ok { footer with ranges := ranges }
      else .error .invalidPageLayout

def validateFileMetadata (readPageHeader : PageHeaderReader) (body : Bytes)
    (metadata : FileMetaData) (metadataStart maxDecodedBytes : Nat) (allowDictionary : Bool) :
    Option (Except CodecError ParquetDecodeProfile) :=
  match admitFooter w metadata metadataStart maxDecodedBytes allowDictionary with
  | .error problem => some (.error problem)
  | .ok footer =>
    match walkChunks w readPageHeader body maxDecodedBytes allowDictionary
        { work := 0, count := 0 } footer.ranges with
    | none => none
    | some (.error problem) => some (.error problem)
    | some (.ok totals) =>
      if totals.work ≠ footer.work then some (.error .invalidPageLayout)
      else some (.ok { rows := footer.rows, decodedBytes := totals.work })

end Word

end Kronika.Preflight
