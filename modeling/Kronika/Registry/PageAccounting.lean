/-
What an admitted file has accounted for.

Every page that is read moves the walk to its end and adds what it decodes to to the
work, so that a walk which ends at the end of its chunk has tiled the chunk.  The footer
is summed up chunk by chunk, and the two sums are compared at the end.
-/
import Kronika.Library.Folds
import Kronika.Library.Ranges
import Kronika.Registry.ParquetPreflight
import Mathlib.Tactic.Choose

namespace Kronika.Preflight

open Format (Bytes)
open Library Ranges

/-! ## Fallible steps -/

section Steps

variable {α β : Type} {problem : CodecError}

theorem okOr_eq_ok {x : Option α} {a : α} : okOr problem x = .ok a ↔ x = some a := by
  cases x with
  | none =>
    constructor
    · intro h
      cases h
    · intro h
      cases h
  | some b =>
    constructor
    · intro h
      rw [Except.ok.inj h]
    · intro h
      rw [Option.some.inj h]
      rfl

end Steps

variable {w : Nat}

theorem checkedAdd_some {a b c : Nat} (h : checkedAdd w a b = some c) : c = a + b := by
  rw [checkedAdd] at h
  by_cases hlt : a + b < 2 ^ w
  · rw [if_pos hlt] at h
    exact (Option.some.inj h).symm
  · rw [if_neg hlt] at h
    cases h

theorem checkedSub_some {a b c : Nat} (h : checkedSub a b = some c) : c + b = a := by
  rw [checkedSub] at h
  by_cases hle : b ≤ a
  · rw [if_pos hle] at h
    have hc := Option.some.inj h
    omega
  · rw [if_neg hle] at h
    cases h

theorem checkedRows_ok {raw : Int64} {n : Nat} (h : checkedRows w raw = .ok n) : raw.toInt = n := by
  rw [checkedRows, ite_error_eq_ok] at h
  have hn := Except.ok.inj h.2
  omega

theorem checkedNonnegative_ok {raw : Int} {n : Nat} (h : checkedNonnegative w raw = .ok n) :
    raw = n := by
  rw [checkedNonnegative, ite_error_eq_ok] at h
  have hn := Except.ok.inj h.2
  omega

theorem addPageValues_ok {total n : Nat} {raw : Int32}
    (h : addPageValues w total raw = .ok n) : 0 ≤ raw.toInt ∧ (n : Int) = total + raw.toInt := by
  rw [addPageValues, bind_eq_ok] at h
  obtain ⟨values, hvalues, h⟩ := h
  have hraw := checkedNonnegative_ok hvalues
  have hsum := checkedAdd_some (Option.eq_some_of_filter_eq_some (okOr_eq_ok.mp h))
  omega

theorem addWork_ok {total add max n : Nat} (h : addWork w total add max = .ok n) :
    n = total + add ∧ n ≤ max := by
  rw [addWork] at h
  split at h
  · cases h
  · next hsum =>
    rw [ite_error_eq_ok] at h
    have hnext := Except.ok.inj h.2
    have hadd := checkedAdd_some hsum
    omega

/-! ## One page -/

/-- A page of a chunk: its header, and how long the header is. -/
structure Page where
  header : PageHeader
  headerLen : Nat

namespace Page

def size (page : Page) : Nat := page.headerLen + page.header.compressedPageSize.toInt.toNat

def decoded (page : Page) : Nat := page.headerLen + page.header.uncompressedPageSize.toInt.toNat

/-- The values of a data page; other pages have none. -/
def dataValues (page : Page) : Int :=
  if page.header.type = .dataPage then
    page.header.dataPageHeader.elim 0 (·.numValues.toInt)
  else if page.header.type = .dataPageV2 then
    page.header.dataPageHeaderV2.elim 0 (·.numValues.toInt)
  else 0

end Page

/-- The header of the page is what is read at the offset, with sizes that are none below
zero. -/
structure PageAt (readPageHeader : PageHeaderReader) (body : Bytes) (stop offset : Nat)
    (page : Page) : Prop where
  read : ∃ remaining, readPageHeader (slice body offset stop) = some (page.header, remaining, 0) ∧
    page.headerLen + remaining = (slice body offset stop).length
  headerLen_pos : 0 < page.headerLen
  compressed : 0 ≤ page.header.compressedPageSize.toInt
  uncompressed : 0 ≤ page.header.uncompressedPageSize.toInt
  dataValues : 0 ≤ page.dataValues

section Page

variable {header : PageHeader} {headerLen uncompressed compressed : Nat} {seen next : Seen}
  {allowDictionary : Bool}

theorem validateDataPage_ok (h : validateDataPage w header seen allowDictionary = .ok next) :
    ∃ page, header.dataPageHeader = some page ∧ 0 ≤ page.numValues.toInt ∧
      (next.dataValues : Int) = seen.dataValues + page.numValues.toInt := by
  simp only [validateDataPage, bind_eq_ok, okOr_eq_ok] at h
  obtain ⟨page, hpage, -, -, -, -, -, -, dataValues, hvalues, h⟩ := h
  have hadd := addPageValues_ok hvalues
  rw [← Except.ok.inj h]
  exact ⟨page, Option.eq_some_of_filter_eq_some hpage, hadd⟩

theorem validateDataPageV2_ok
    (h : validateDataPageV2 w header uncompressed compressed seen allowDictionary = .ok next) :
    ∃ page, header.dataPageHeaderV2 = some page ∧ 0 ≤ page.numValues.toInt ∧
      (next.dataValues : Int) = seen.dataValues + page.numValues.toInt := by
  simp only [validateDataPageV2, bind_eq_ok, okOr_eq_ok, ite_error_eq_ok] at h
  obtain ⟨page, hpage, -, -, -, -, -, -, -, -, -, -, -, -, -, -, -, dataValues, hvalues, h⟩ := h
  have hadd := addPageValues_ok hvalues
  rw [← Except.ok.inj h]
  exact ⟨page, Option.eq_some_of_filter_eq_some hpage, hadd⟩

theorem validateDictionaryPage_ok (h : validateDictionaryPage w header seen = .ok next) :
    next.dataValues = seen.dataValues := by
  simp only [validateDictionaryPage, bind_eq_ok, ite_error_eq_ok] at h
  obtain ⟨page, -, -, values, -, -, h⟩ := h
  rw [← Except.ok.inj h]

theorem validatePageHeader_ok
    (h : validatePageHeader w header uncompressed compressed seen allowDictionary = .ok next) :
    0 ≤ Page.dataValues ⟨header, headerLen⟩ ∧
      (next.dataValues : Int) = seen.dataValues + Page.dataValues ⟨header, headerLen⟩ := by
  rw [validatePageHeader] at h
  rw [Page.dataValues]
  by_cases hdata : header.type = .dataPage
  · rw [if_pos hdata] at h ⊢
    obtain ⟨page, hpage, hvalues⟩ := validateDataPage_ok h
    rw [hpage]
    exact hvalues
  · rw [if_neg hdata] at h ⊢
    by_cases hdata2 : header.type = .dataPageV2
    · rw [if_pos hdata2] at h ⊢
      obtain ⟨page, hpage, hvalues⟩ := validateDataPageV2_ok h
      rw [hpage]
      exact hvalues
    · rw [if_neg hdata2] at h ⊢
      have hsame : next.dataValues = seen.dataValues := by
        by_cases hdictionary : header.type = .dictionaryPage
        · rw [if_pos hdictionary] at h
          exact validateDictionaryPage_ok h
        · rw [if_neg hdictionary] at h
          by_cases hindex : header.type = .indexPage
          · rw [if_pos hindex, ite_error_eq_ok] at h
            rw [Except.ok.inj h.2]
          · rw [if_neg hindex] at h
            cases h
      rw [hsame]
      exact ⟨Int.le_refl 0, rfl⟩

end Page

/-! ## The walk over a chunk -/

section Walk

variable {readPageHeader : PageHeaderReader} {body : Bytes} {maxDecodedBytes : Nat}
  {allowDictionary : Bool} {range : ChunkRange} {walk next last : Walk}

theorem pageHeaderAt_ok {offset stop headerLen : Nat} {header : PageHeader}
    (h : pageHeaderAt readPageHeader body offset stop = .ok (header, headerLen)) :
    0 < headerLen ∧ ∃ remaining,
      readPageHeader (slice body offset stop) = some (header, remaining, 0) ∧
        headerLen + remaining = (slice body offset stop).length := by
  rw [pageHeaderAt] at h
  cases hread : readPageHeader (slice body offset stop) with
  | none =>
    rw [hread] at h
    cases h
  | some read =>
    obtain ⟨found, remaining, nesting⟩ := read
    rw [hread] at h
    rw [bind_eq_ok] at h
    obtain ⟨len, hlen, h⟩ := h
    rw [okOr_eq_ok] at hlen
    obtain ⟨hsub, hfilter⟩ := Option.filter_eq_some_iff.mp hlen
    simp only [Bool.and_eq_true, bne_iff_ne, beq_iff_eq] at hfilter
    cases h
    refine ⟨Nat.pos_of_ne_zero hfilter.1, remaining, ?_, checkedSub_some hsub⟩
    rw [hfilter.2]

theorem admitPage_ok
    (h : admitPage w readPageHeader body maxDecodedBytes allowDictionary range walk = .ok next) :
    ∃ page, PageAt readPageHeader body range.stop walk.offset page ∧
      next.offset = walk.offset + page.size ∧ next.offset ≤ range.stop ∧
      next.columnWork = walk.columnWork + page.decoded ∧
      next.pageWork = walk.pageWork + page.decoded ∧ next.pageWork ≤ maxDecodedBytes ∧
      (next.seen.dataValues : Int) = walk.seen.dataValues + page.dataValues := by
  simp only [admitPage, bind_eq_ok, okOr_eq_ok] at h
  obtain ⟨pageCount, -, ⟨header, headerLen⟩, hheader, compressed, hcompressed, uncompressed,
    huncompressed, sawData, -, decoded, hdecoded, columnWork, hcolumn, pageWork, hpage, seen, hseen,
    offset, hoffset, h⟩ := h
  obtain ⟨hpos, hread⟩ := pageHeaderAt_ok hheader
  have hc : header.compressedPageSize.toInt = compressed := checkedNonnegative_ok hcompressed
  have hu : header.uncompressedPageSize.toInt = uncompressed := checkedNonnegative_ok huncompressed
  have hd := checkedAdd_some hdecoded
  have hcol := checkedAdd_some hcolumn
  obtain ⟨hwork, hmax⟩ := addWork_ok hpage
  obtain ⟨hvalues, hadded⟩ : 0 ≤ Page.dataValues ⟨header, headerLen⟩ ∧
      (seen.dataValues : Int) = walk.seen.dataValues + Page.dataValues ⟨header, headerLen⟩ :=
    validatePageHeader_ok hseen
  obtain ⟨hend, hstop⟩ := Option.filter_eq_some_iff.mp hoffset
  obtain ⟨start, hstart, hend⟩ := Option.bind_eq_some_iff.mp hend
  have hstart := checkedAdd_some hstart
  have hend := checkedAdd_some hend
  have hsize : Page.size ⟨header, headerLen⟩ = headerLen + compressed := by
    rw [Page.size, hc, Int.toNat_natCast]
  have hwhole : Page.decoded ⟨header, headerLen⟩ = headerLen + uncompressed := by
    rw [Page.decoded, hu, Int.toNat_natCast]
  cases h
  refine ⟨⟨header, headerLen⟩, ⟨hread, hpos, ?_, ?_, hvalues⟩, ?_, of_decide_eq_true hstop, ?_, ?_,
    hmax, hadded⟩
  · show 0 ≤ header.compressedPageSize.toInt
    omega
  · show 0 ≤ header.uncompressedPageSize.toInt
    omega
  · show offset = walk.offset + _
    omega
  · show columnWork = walk.columnWork + _
    omega
  · show pageWork = walk.pageWork + _
    omega

theorem PageAt.size_pos {stop offset : Nat} {page : Page}
    (h : PageAt readPageHeader body stop offset page) : 0 < page.size := by
  have hpos := h.headerLen_pos
  rw [Page.size]
  omega

theorem walkPages_ends (fuel : Nat) (walk : Walk) (h : range.stop - walk.offset ≤ fuel) :
    walkPages w readPageHeader body maxDecodedBytes allowDictionary range fuel walk ≠ none := by
  induction fuel generalizing walk with
  | zero =>
    rw [walkPages, if_neg (by omega)]
    exact Option.some_ne_none _
  | succ fuel ih =>
    rw [walkPages]
    by_cases hinside : walk.offset < range.stop
    · rw [if_pos hinside]
      cases hpage : admitPage w readPageHeader body maxDecodedBytes allowDictionary range walk with
      | error problem => exact Option.some_ne_none _
      | ok next =>
        obtain ⟨page, hat, hoffset, -⟩ := admitPage_ok hpage
        have hpos := hat.size_pos
        apply ih
        omega
    · rw [if_neg hinside]
      exact Option.some_ne_none _

/-- The pages that a walk has read, and what they add up to. -/
structure Reads (readPageHeader : PageHeaderReader) (body : Bytes) (range : ChunkRange)
    (walk last : Walk) (pages : List Page) : Prop where
  tiled : Consecutive Page.size (PageAt readPageHeader body range.stop) last.offset walk.offset
    pages
  columnWork : last.columnWork = walk.columnWork + (pages.map Page.decoded).sum
  pageWork : last.pageWork = walk.pageWork + (pages.map Page.decoded).sum
  dataValues : (last.seen.dataValues : Int) =
    walk.seen.dataValues + (pages.map Page.dataValues).sum

theorem Reads.nil (walk : Walk) : Reads readPageHeader body range walk walk [] where
  tiled := rfl
  columnWork := rfl
  pageWork := rfl
  dataValues := (Int.add_zero _).symm

theorem walkPages_ok {fuel : Nat}
    (h : walkPages w readPageHeader body maxDecodedBytes allowDictionary range fuel walk =
      some (.ok last)) (hmax : walk.pageWork ≤ maxDecodedBytes) :
    last.pageWork ≤ maxDecodedBytes ∧ ∃ pages, Reads readPageHeader body range walk last pages := by
  induction fuel generalizing walk with
  | zero =>
    rw [walkPages] at h
    by_cases hinside : walk.offset < range.stop
    · rw [if_pos hinside] at h
      cases h
    · rw [if_neg hinside] at h
      cases h
      exact ⟨hmax, [], .nil _⟩
  | succ fuel ih =>
    rw [walkPages] at h
    by_cases hinside : walk.offset < range.stop
    · rw [if_pos hinside] at h
      split at h
      · cases h
      · next hpage =>
        obtain ⟨page, hat, hoffset, -, hcolumn, hwork, hbound, hvalues⟩ := admitPage_ok hpage
        obtain ⟨hlast, pages, hpages⟩ := ih h hbound
        have htiled := hpages.tiled
        rw [hoffset] at htiled
        refine ⟨hlast, page :: pages, ⟨hat, htiled⟩, ?_, ?_, ?_⟩
        · rw [hpages.columnWork, hcolumn, List.map_cons, List.sum_cons, Nat.add_assoc]
        · rw [hpages.pageWork, hwork, List.map_cons, List.sum_cons, Nat.add_assoc]
        · rw [hpages.dataValues, hvalues, List.map_cons, List.sum_cons, Int.add_assoc]
    · rw [if_neg hinside] at h
      cases h
      exact ⟨hmax, [], .nil _⟩

/-! ## All chunks -/

/-- Consecutive pages that fill a range, and add up to what the footer says of it. -/
structure Fills (readPageHeader : PageHeaderReader) (body : Bytes) (range : ChunkRange)
    (pages : List Page) : Prop where
  tiled : Consecutive Page.size (PageAt readPageHeader body range.stop) range.stop range.start pages
  declared : (pages.map Page.decoded).sum = range.declared
  values : (pages.map Page.dataValues).sum = range.values

variable {totals after : PageTotals} {ranges : List ChunkRange}

theorem walkChunk_ends (totals : PageTotals) (range : ChunkRange) :
    walkChunk w readPageHeader body maxDecodedBytes allowDictionary totals range ≠ none := by
  rw [walkChunk]
  cases hwalk : walkPages w readPageHeader body maxDecodedBytes allowDictionary range
      (range.stop - range.start) (startOf range totals) with
  | none => exact absurd hwalk (walkPages_ends _ _ (Nat.le_refl _))
  | some outcome =>
    cases outcome with
    | error problem => exact Option.some_ne_none _
    | ok walk =>
      dsimp only
      by_cases hagrees : Agrees range walk
      · rw [if_pos hagrees]
        exact Option.some_ne_none _
      · rw [if_neg hagrees]
        exact Option.some_ne_none _

theorem walkChunk_ok
    (h : walkChunk w readPageHeader body maxDecodedBytes allowDictionary totals range =
      some (.ok after)) (hmax : totals.work ≤ maxDecodedBytes) :
    after.work = totals.work + range.declared ∧ after.work ≤ maxDecodedBytes ∧
      ∃ pages, Fills readPageHeader body range pages := by
  rw [walkChunk] at h
  cases hwalk : walkPages w readPageHeader body maxDecodedBytes allowDictionary range
      (range.stop - range.start) (startOf range totals) with
  | none =>
    rw [hwalk] at h
    cases h
  | some outcome =>
    rw [hwalk] at h
    cases outcome with
    | error problem => cases h
    | ok walk =>
      dsimp only at h
      by_cases hagrees : Agrees range walk
      · rw [if_pos hagrees] at h
        cases h
        obtain ⟨hbound, pages, hpages⟩ := walkPages_ok hwalk hmax
        obtain ⟨hstop, hdeclared, hvalues, -, -⟩ := hagrees
        have htiled := hpages.tiled
        have hcolumn := hpages.columnWork
        have hcount := hpages.dataValues
        have hzero : (startOf range totals).columnWork = 0 := rfl
        have hnone : (startOf range totals).seen.dataValues = 0 := rfl
        have hbefore : (startOf range totals).pageWork = totals.work := rfl
        rw [hstop] at htiled
        rw [hdeclared, hzero, Nat.zero_add] at hcolumn
        rw [hvalues, hnone, Int.natCast_zero, Int.zero_add] at hcount
        refine ⟨?_, hbound, pages, htiled, hcolumn.symm, hcount.symm⟩
        show walk.pageWork = totals.work + range.declared
        rw [hpages.pageWork, hbefore, hcolumn]
      · rw [if_neg hagrees] at h
        cases h

theorem walkChunks_ends (totals : PageTotals) (ranges : List ChunkRange) :
    walkChunks w readPageHeader body maxDecodedBytes allowDictionary totals ranges ≠ none := by
  induction ranges generalizing totals with
  | nil => exact Option.some_ne_none _
  | cons range ranges ih =>
    rw [walkChunks]
    cases hchunk : walkChunk w readPageHeader body maxDecodedBytes allowDictionary totals range with
    | none => exact absurd hchunk (walkChunk_ends totals range)
    | some outcome =>
      cases outcome with
      | error problem => exact Option.some_ne_none _
      | ok after => exact ih after

theorem walkChunks_ok
    (h : walkChunks w readPageHeader body maxDecodedBytes allowDictionary totals ranges =
      some (.ok after)) (hmax : totals.work ≤ maxDecodedBytes) :
    after.work = totals.work + (ranges.map ChunkRange.declared).sum ∧
      after.work ≤ maxDecodedBytes ∧
      ∀ range ∈ ranges, ∃ pages, Fills readPageHeader body range pages := by
  induction ranges generalizing totals with
  | nil =>
    cases h
    refine ⟨rfl, hmax, ?_⟩
    intro range hrange
    cases hrange
  | cons range ranges ih =>
    rw [walkChunks] at h
    cases hchunk : walkChunk w readPageHeader body maxDecodedBytes allowDictionary totals range with
    | none =>
      rw [hchunk] at h
      cases h
    | some outcome =>
      rw [hchunk] at h
      cases outcome with
      | error problem => cases h
      | ok middle =>
        obtain ⟨hwork, hbound, hpages⟩ := walkChunk_ok hchunk hmax
        obtain ⟨hrest, hlast, hothers⟩ := ih h hbound
        refine ⟨?_, hlast, ?_⟩
        · rw [hrest, hwork, List.map_cons, List.sum_cons, Nat.add_assoc]
        · intro other hother
          rcases List.mem_cons.mp hother with rfl | hlater
          · exact hpages
          · exact hothers other hlater

end Walk

/-! ## The footer -/

namespace ColumnMetaData

variable (column : ColumnMetaData)

/-- A chunk starts at its dictionary page, if the footer names one. -/
def start : Nat := (column.dictionaryPageOffset.getD column.dataPageOffset).toInt.toNat

def stop : Nat := column.start + column.totalCompressedSize.toInt.toNat

def declared : Nat := column.totalUncompressedSize.toInt.toNat

def NonEmpty : Prop := column.totalCompressedSize ≠ 0

instance decidableNonEmpty : Decidable column.NonEmpty := inferInstanceAs (Decidable (_ ≠ _))

/-- The range that the footer announces. -/
def range : ChunkRange where
  start := column.start
  stop := column.stop
  dataStart := column.dataPageOffset.toInt.toNat
  declared := column.declared
  values := column.numValues.toInt.toNat
  hasDictionary := column.dictionaryPageOffset.isSome

end ColumnMetaData

/-- The bounds of a chunk, and that one without bytes declares nothing. -/
structure Placed (metadataStart : Nat) (column : ColumnMetaData) : Prop where
  start_ge : magicLen ≤ column.start
  stop_le : column.stop ≤ metadataStart
  compressed : 0 ≤ column.totalCompressedSize.toInt
  uncompressed : 0 ≤ column.totalUncompressedSize.toInt
  values : 0 ≤ column.numValues.toInt
  empty : ¬ column.NonEmpty → column.totalUncompressedSize.toInt = 0 ∧ column.numValues.toInt = 0

section Footer

variable {metadataStart maxDecodedBytes : Nat} {allowDictionary : Bool} {footer after : Footer}
  {column : ColumnMetaData}

theorem chunkMetaData_ok {chunk : ColumnChunk} (h : chunkMetaData chunk = .ok column) :
    chunk.metaData = some column := by
  rw [chunkMetaData, ite_error_eq_ok] at h
  exact okOr_eq_ok.mp h.2

theorem chunkStart_ok {dataStart start : Nat} (hdata : column.dataPageOffset.toInt = dataStart)
    (h : chunkStart w column dataStart = .ok start) : column.start = start := by
  rw [chunkStart] at h
  rw [ColumnMetaData.start]
  cases hdictionary : column.dictionaryPageOffset with
  | none =>
    rw [hdictionary] at h
    rw [Option.getD_none, hdata]
    exact Except.ok.inj h
  | some raw =>
    rw [hdictionary] at h
    rw [bind_eq_ok] at h
    obtain ⟨found, hfound, h⟩ := h
    rw [ite_error_eq_ok] at h
    rw [Option.getD_some, checkedNonnegative_ok hfound]
    exact Except.ok.inj h.2

theorem chunkRange_ok {start dataStart compressed declared values : Nat} {hasDictionary : Bool}
    {found : Option ChunkRange}
    (h : chunkRange w metadataStart start dataStart compressed declared values hasDictionary =
      .ok found) :
    magicLen ≤ start ∧ start + compressed ≤ metadataStart ∧
      (compressed = 0 ∧ declared = 0 ∧ values = 0 ∧ found = none ∨
        compressed ≠ 0 ∧ found = some ⟨start, start + compressed, dataStart, declared, values,
          hasDictionary⟩) := by
  rw [chunkRange] at h
  by_cases hempty : compressed = 0
  · rw [if_pos hempty, ite_error_eq_ok] at h
    obtain ⟨hchecks, h⟩ := h
    have hnone := Except.ok.inj h
    have hdeclared : declared = 0 := by
      by_contra hne
      exact hchecks (.inl hne)
    have hvalues : values = 0 := by
      by_contra hne
      exact hchecks (.inr (.inl hne))
    refine ⟨by omega, by omega, .inl ⟨hempty, hdeclared, hvalues, hnone.symm⟩⟩
  · rw [if_neg hempty] at h
    split at h
    · cases h
    · next stop hstop =>
      by_cases hinside : magicLen ≤ start ∧ start ≤ dataStart ∧ dataStart ≤ stop ∧
          stop ≤ metadataStart
      · rw [if_pos hinside] at h
        have hfound := Except.ok.inj h
        rw [checkedAdd_some hstop] at hfound hinside
        exact ⟨hinside.1, hinside.2.2.2, .inr ⟨hempty, hfound.symm⟩⟩
      · rw [if_neg hinside] at h
        cases h

/-- What the pass has added for these chunks. -/
structure Adds (metadataStart : Nat) (columns : List ColumnMetaData) (footer after : Footer) :
    Prop where
  work : after.work = footer.work + (columns.map ColumnMetaData.declared).sum
  ranges : after.ranges = footer.ranges ++
    (columns.filter (·.NonEmpty)).map ColumnMetaData.range
  placed : ∀ column ∈ columns, Placed metadataStart column

theorem admitChunk_ok {chunk : ColumnChunk}
    (h : admitChunk w metadataStart maxDecodedBytes allowDictionary footer chunk = .ok after) :
    ∃ column, chunk.metaData = some column ∧ Adds metadataStart [column] footer after ∧
      after.rows = footer.rows ∧ after.work ≤ maxDecodedBytes := by
  simp only [admitChunk, bind_eq_ok, ite_error_eq_ok] at h
  obtain ⟨column, hcolumn, declared, hdeclared, work, hwork, values, hvalues, -, compressed,
    hcompressed, dataStart, hdata, -, start, hstart, found, hfound, h⟩ := h
  have hraw := checkedNonnegative_ok hdeclared
  have hcount := checkedNonnegative_ok hvalues
  have hsize := checkedNonnegative_ok hcompressed
  have hoffset := checkedNonnegative_ok hdata
  have hbegin := chunkStart_ok hoffset hstart
  obtain ⟨hadded, hmax⟩ := addWork_ok hwork
  obtain ⟨hlow, hhigh, hcases⟩ := chunkRange_ok hfound
  have hstop : column.stop = start + compressed := by
    rw [ColumnMetaData.stop, hbegin, hsize, Int.toNat_natCast]
  have hsum : column.declared = declared := by
    rw [ColumnMetaData.declared, hraw, Int.toNat_natCast]
  have hnonempty : column.NonEmpty ↔ compressed ≠ 0 := by
    rw [ColumnMetaData.NonEmpty, Ne, ← Int64.toInt_inj, hsize]
    show ¬ (compressed : Int) = 0 ↔ _
    omega
  cases h
  refine ⟨column, chunkMetaData_ok hcolumn, ⟨?_, ?_, ?_⟩, rfl, hmax⟩
  · rw [List.map_singleton, hsum]
    exact hadded
  · show footer.ranges ++ found.toList = _
    rcases hcases with ⟨hempty, -, -, rfl⟩ | ⟨hne, rfl⟩
    · rw [List.filter_cons_of_neg (by simp [hnonempty, hempty])]
      rfl
    · rw [List.filter_cons_of_pos (by simp [hnonempty, hne])]
      have hrange : column.range = ⟨start, start + compressed, dataStart, declared, values,
          column.dictionaryPageOffset.isSome⟩ := by
        rw [ColumnMetaData.range, hbegin, hstop, hoffset, hsum, hcount, Int.toNat_natCast,
          Int.toNat_natCast]
      rw [List.filter_nil, List.map_singleton, hrange]
      rfl
  · intro other hother
    rw [List.mem_singleton.mp hother]
    refine ⟨by omega, by omega, by omega, by omega, by omega, ?_⟩
    intro hempty
    rcases hcases with ⟨-, hzero, hnone, -⟩ | ⟨hne, -⟩
    · omega
    · exact absurd (hnonempty.mpr hne) hempty

theorem Adds.append {columns more : List ColumnMetaData} {middle : Footer}
    (h : Adds metadataStart columns footer middle) (hmore : Adds metadataStart more middle after) :
    Adds metadataStart (columns ++ more) footer after where
  work := by
    rw [hmore.work, h.work, List.map_append, List.sum_append, Nat.add_assoc]
  ranges := by
    rw [hmore.ranges, h.ranges, List.filter_append, List.map_append, List.append_assoc]
  placed column hcolumn := by
    rcases List.mem_append.mp hcolumn with hin | hin
    · exact h.placed column hin
    · exact hmore.placed column hin

theorem Adds.refl (metadataStart : Nat) (footer : Footer) :
    Adds metadataStart [] footer footer where
  work := rfl
  ranges := (List.append_nil _).symm
  placed column hcolumn := by cases hcolumn

theorem admitChunks_ok {chunks : List ColumnChunk}
    (h : chunks.foldlM (admitChunk w metadataStart maxDecodedBytes allowDictionary) footer =
      .ok after) (hmax : footer.work ≤ maxDecodedBytes) :
    ∃ columns, chunks.map ColumnChunk.metaData = columns.map some ∧
      Adds metadataStart columns footer after ∧ after.rows = footer.rows ∧
      after.work ≤ maxDecodedBytes := by
  induction chunks generalizing footer with
  | nil =>
    cases h
    exact ⟨[], rfl, .refl _ _, rfl, hmax⟩
  | cons chunk chunks ih =>
    rw [List.foldlM_cons, bind_eq_ok] at h
    obtain ⟨middle, hchunk, h⟩ := h
    obtain ⟨column, hcolumn, hadds, hrows, hbound⟩ := admitChunk_ok hchunk
    obtain ⟨columns, hcolumns, hmore, hsame, hlast⟩ := ih h hbound
    refine ⟨column :: columns, ?_, hadds.append hmore, hsame.trans hrows, hlast⟩
    rw [List.map_cons, List.map_cons, hcolumn, hcolumns]

def chunks (metadata : FileMetaData) : List ColumnChunk := metadata.rowGroups.flatMap (·.columns)

theorem admitGroups_ok {groups : List RowGroup}
    (h : groups.foldlM (admitGroup w metadataStart maxDecodedBytes allowDictionary) footer =
      .ok after) (hmax : footer.work ≤ maxDecodedBytes) :
    ∃ columns, (groups.flatMap (·.columns)).map ColumnChunk.metaData = columns.map some ∧
      Adds metadataStart columns footer after ∧
      (∀ group ∈ groups, 0 ≤ group.numRows.toInt) ∧
      (after.rows : Int) = footer.rows + (groups.map (·.numRows.toInt)).sum ∧
      after.work ≤ maxDecodedBytes := by
  induction groups generalizing footer with
  | nil =>
    cases h
    refine ⟨[], rfl, .refl _ _, ?_, (Int.add_zero _).symm, hmax⟩
    intro group hgroup
    cases hgroup
  | cons group groups ih =>
    rw [List.foldlM_cons, bind_eq_ok] at h
    obtain ⟨middle, hgroup, h⟩ := h
    simp only [admitGroup, bind_eq_ok, ite_error_eq_ok, okOr_eq_ok] at hgroup
    obtain ⟨groupRows, hgroupRows, -, rows, hrows, -, hchunks⟩ := hgroup
    have hraw := checkedRows_ok hgroupRows
    have hadd := checkedAdd_some hrows
    obtain ⟨columns, hcolumns, hadds, hsame, hbound⟩ := admitChunks_ok hchunks hmax
    obtain ⟨others, hothers, hmore, hnonneg, hsum, hlast⟩ := ih h hbound
    have hfirst : Adds metadataStart columns footer middle :=
      ⟨hadds.work, hadds.ranges, hadds.placed⟩
    refine ⟨columns ++ others, ?_, hfirst.append hmore, ?_, ?_, hlast⟩
    · rw [List.flatMap_cons, List.map_append, List.map_append, hcolumns, hothers]
    · intro other hother
      rcases List.mem_cons.mp hother with rfl | hlater
      · omega
      · exact hnonneg other hlater
    · rw [List.map_cons, List.sum_cons, hsum, hsame]
      show ((rows : Nat) : Int) + _ = _
      omega

end Footer

/-! ## The file -/

variable {readPageHeader : PageHeaderReader} {body : Bytes} {metadata : FileMetaData}
  {metadataStart maxDecodedBytes : Nat} {allowDictionary : Bool}

/-- A chunk inside the bounds of the file, which its pages fill, and whose sizes and values
are theirs. -/
structure Accounts (readPageHeader : PageHeaderReader) (body : Bytes) (metadataStart : Nat)
    (column : ColumnMetaData) (pages : List Page) : Prop extends Placed metadataStart column where
  tiled : Consecutive Page.size (PageAt readPageHeader body column.stop) column.stop column.start
    pages
  sizes : column.totalUncompressedSize.toInt = (pages.map Page.decoded).sum
  counts : column.numValues.toInt = (pages.map Page.dataValues).sum

theorem admitFooter_ok {footer : Footer}
    (h : admitFooter w metadata metadataStart maxDecodedBytes allowDictionary = .ok footer) :
    ∃ columns : List ColumnMetaData, (chunks metadata).map ColumnChunk.metaData = columns.map some ∧
      (∀ column ∈ columns, Placed metadataStart column) ∧
      footer.work = (columns.map ColumnMetaData.declared).sum ∧ footer.work ≤ maxDecodedBytes ∧
      footer.ranges.Perm ((columns.filter (·.NonEmpty)).map ColumnMetaData.range) ∧
      (footer.ranges.IsChain fun a b => a.stop ≤ b.start) ∧
      (∀ group ∈ metadata.rowGroups, 0 ≤ group.numRows.toInt) ∧
      (metadata.rowGroups.map (·.numRows.toInt)).sum = metadata.numRows.toInt ∧
      metadata.numRows.toInt = footer.rows := by
  simp only [admitFooter, bind_eq_ok, ite_error_eq_ok] at h
  obtain ⟨rows, hrows, -, -, -, found, hgroups, hsame, h⟩ := h
  obtain ⟨columns, hcolumns, hadds, hnonneg, hsum, hmax⟩ := admitGroups_ok hgroups (Nat.zero_le _)
  have hraw := checkedRows_ok hrows
  rw [not_not] at hsame
  by_cases hchain : (found.ranges.mergeSort fun a b => a.start ≤ b.start).IsChain
      fun a b => a.stop ≤ b.start
  · rw [if_pos hchain] at h
    have hwork := hadds.work
    have hranges := hadds.ranges
    rw [Nat.zero_add] at hwork
    rw [List.nil_append] at hranges
    cases h
    refine ⟨columns, hcolumns, hadds.placed, hwork, hmax, ?_, hchain, hnonneg, ?_, ?_⟩
    · rw [← hranges]
      exact List.mergeSort_perm _ _
    · rw [hraw, ← hsame, hsum]
      exact (Int.zero_add _).symm
    · show metadata.numRows.toInt = (found.rows : Int)
      rw [hraw, hsame]
  · rw [if_neg hchain] at h
    cases h

theorem validateFileMetadata_ends :
    ∃ outcome, validateFileMetadata w readPageHeader body metadata metadataStart maxDecodedBytes
      allowDictionary = some outcome := by
  rw [validateFileMetadata]
  cases hfooter : admitFooter w metadata metadataStart maxDecodedBytes allowDictionary with
  | error problem => exact ⟨_, rfl⟩
  | ok footer =>
    dsimp only
    cases hwalk : walkChunks w readPageHeader body maxDecodedBytes allowDictionary
        { work := 0, count := 0 } footer.ranges with
    | none => exact absurd hwalk (walkChunks_ends _ _)
    | some outcome =>
      cases outcome with
      | error problem => exact ⟨_, rfl⟩
      | ok totals =>
        dsimp only
        by_cases hwork : totals.work ≠ footer.work
        · rw [if_pos hwork]
          exact ⟨_, rfl⟩
        · rw [if_neg hwork]
          exact ⟨_, rfl⟩

theorem validateFileMetadata_ok {profile : ParquetDecodeProfile}
    (h : validateFileMetadata w readPageHeader body metadata metadataStart maxDecodedBytes
      allowDictionary = some (.ok profile)) :
    ∃ footer, admitFooter w metadata metadataStart maxDecodedBytes allowDictionary = .ok footer ∧
      (∀ range ∈ footer.ranges, ∃ pages, Fills readPageHeader body range pages) ∧
      profile = { rows := footer.rows, decodedBytes := footer.work } := by
  rw [validateFileMetadata] at h
  cases hfooter : admitFooter w metadata metadataStart maxDecodedBytes allowDictionary with
  | error problem =>
    rw [hfooter] at h
    cases h
  | ok footer =>
    rw [hfooter] at h
    dsimp only at h
    cases hwalk : walkChunks w readPageHeader body maxDecodedBytes allowDictionary
        { work := 0, count := 0 } footer.ranges with
    | none =>
      rw [hwalk] at h
      cases h
    | some outcome =>
      rw [hwalk] at h
      cases outcome with
      | error problem => cases h
      | ok totals =>
        dsimp only at h
        by_cases hwork : totals.work ≠ footer.work
        · rw [if_pos hwork] at h
          cases h
        · rw [if_neg hwork] at h
          rw [not_not] at hwork
          cases h
          obtain ⟨-, -, hpages⟩ := walkChunks_ok hwalk (Nat.zero_le _)
          refine ⟨footer, rfl, hpages, ?_⟩
          rw [hwork]

theorem Placed.accounts {column : ColumnMetaData} {pages : List Page}
    (h : Placed metadataStart column) (hfills : Fills readPageHeader body column.range pages) :
    Accounts readPageHeader body metadataStart column pages := by
  have hdeclared : (pages.map Page.decoded).sum = column.totalUncompressedSize.toInt.toNat :=
    hfills.declared
  have hvalues : (pages.map Page.dataValues).sum = (column.numValues.toInt.toNat : Int) :=
    hfills.values
  have huncompressed := h.uncompressed
  have hcount := h.values
  exact ⟨h, hfills.tiled, by omega, by omega⟩

theorem Placed.accounts_nil {column : ColumnMetaData} (h : Placed metadataStart column)
    (hempty : ¬ column.NonEmpty) : Accounts readPageHeader body metadataStart column [] := by
  have hzero : column.totalCompressedSize = 0 := not_not.mp hempty
  refine ⟨h, ?_, (h.empty hempty).1, (h.empty hempty).2⟩
  show column.start = column.start + column.totalCompressedSize.toInt.toNat
  rw [hzero]
  rfl

theorem sum_decoded {columns : List ColumnMetaData} {pages : ColumnMetaData → List Page}
    (h : ∀ column ∈ columns, Accounts readPageHeader body metadataStart column (pages column)) :
    ((columns.flatMap pages).map Page.decoded).sum =
      (columns.map ColumnMetaData.declared).sum := by
  induction columns with
  | nil => rfl
  | cons column columns ih =>
    have hrest := ih fun other hother => h other (List.mem_cons_of_mem _ hother)
    have hsizes := (h column List.mem_cons_self).sizes
    have hdeclared : column.declared = column.totalUncompressedSize.toInt.toNat := rfl
    rw [List.flatMap_cons, List.map_append, List.sum_append, List.map_cons, List.sum_cons]
    omega

theorem sum_declared {columns : List ColumnMetaData}
    (h : ∀ column ∈ columns, 0 ≤ column.totalUncompressedSize.toInt) :
    ((columns.map ColumnMetaData.declared).sum : Int) =
      (columns.map (·.totalUncompressedSize.toInt)).sum := by
  induction columns with
  | nil => rfl
  | cons column columns ih =>
    have hfirst := h column List.mem_cons_self
    have hrest := ih fun other hother => h other (List.mem_cons_of_mem _ hother)
    have hdeclared : column.declared = column.totalUncompressedSize.toInt.toNat := rfl
    rw [List.map_cons, List.sum_cons, List.map_cons, List.sum_cons]
    omega

/-- The accounting of admitted files is exact, and admission ends for every file. -/
theorem admission_exact (w : Nat) (readPageHeader : PageHeaderReader) (body : Bytes)
    (metadata : FileMetaData) (metadataStart maxDecodedBytes : Nat) (allowDictionary : Bool) :
    ∃ outcome, validateFileMetadata w readPageHeader body metadata metadataStart maxDecodedBytes
        allowDictionary = some outcome ∧
      ∀ profile, outcome = .ok profile →
        ∃ columns : List ColumnMetaData,
          (chunks metadata).map ColumnChunk.metaData = columns.map some ∧
          (columns.filter (·.NonEmpty)).Pairwise
            (Apart ColumnMetaData.start ColumnMetaData.stop) ∧
          (∃ pages : ColumnMetaData → List Page,
            (∀ column ∈ columns,
              Accounts readPageHeader body metadataStart column (pages column)) ∧
            profile.decodedBytes = ((columns.flatMap pages).map Page.decoded).sum) ∧
          (profile.decodedBytes : Int) = (columns.map (·.totalUncompressedSize.toInt)).sum ∧
          profile.decodedBytes ≤ maxDecodedBytes ∧
          (∀ group ∈ metadata.rowGroups, 0 ≤ group.numRows.toInt) ∧
          (metadata.rowGroups.map (·.numRows.toInt)).sum = metadata.numRows.toInt ∧
          metadata.numRows.toInt = profile.rows := by
  obtain ⟨outcome, houtcome⟩ : ∃ outcome, validateFileMetadata w readPageHeader body metadata
      metadataStart maxDecodedBytes allowDictionary = some outcome := validateFileMetadata_ends
  refine ⟨outcome, houtcome, ?_⟩
  intro profile hprofile
  rw [hprofile] at houtcome
  obtain ⟨footer, hfooter, hfills, rfl⟩ := validateFileMetadata_ok houtcome
  obtain ⟨columns, hcolumns, hplaced, hwork, hmax, hperm, hchain, hnonneg, hsum, hrows⟩ :=
    admitFooter_ok hfooter
  have hranges : ∀ range ∈ footer.ranges, range.start ≤ range.stop := by
    intro range hrange
    obtain ⟨column, -, rfl⟩ := List.mem_map.mp (hperm.mem_iff.mp hrange)
    exact Nat.le_add_right _ _
  have happart : ((columns.filter (·.NonEmpty)).map ColumnMetaData.range).Pairwise
      (Apart ChunkRange.start ChunkRange.stop) :=
    apart_of_perm (pairwise_of_isChain hchain hranges) hperm.symm
  rw [List.pairwise_map] at happart
  have haccounts : ∀ column, ∃ pages, column ∈ columns →
      Accounts readPageHeader body metadataStart column pages := by
    intro column
    by_cases hempty : column.NonEmpty
    · by_cases hmem : column ∈ columns
      · have hrange : column.range ∈ footer.ranges :=
          hperm.mem_iff.mpr (List.mem_map_of_mem (List.mem_filter.mpr
            ⟨hmem, decide_eq_true hempty⟩))
        obtain ⟨pages, hpages⟩ := hfills _ hrange
        exact ⟨pages, fun _ => (hplaced column hmem).accounts hpages⟩
      · exact ⟨[], fun hin => absurd hin hmem⟩
    · exact ⟨[], fun hin => (hplaced column hin).accounts_nil hempty⟩
  choose pages hpages using haccounts
  have hdecoded := sum_decoded hpages
  have hdeclared := sum_declared fun column hcolumn => (hplaced column hcolumn).uncompressed
  refine ⟨columns, hcolumns, happart, ⟨pages, hpages, ?_⟩, ?_, hmax, hnonneg,
    hsum, hrows⟩
  · show footer.work = _
    rw [hdecoded, hwork]
  · show (footer.work : Int) = _
    rw [← hdeclared, hwork]

end Kronika.Preflight
