/-
The plan of a finished segment.

`planSegment` reads the catalog of every part of the journal, collects the sections
by type, and folds the bounds of the parts.  A part without timestamps has the empty
interval, which the fold ignores; only a segment without any timestamp falls back to
zero.
-/
import Kronika.Journal.Reopen
import Kronika.Library.PositionedRead
import Kronika.Writer.WindowBounds

namespace Kronika.Writer

open Format Library
open Registry (maxSectionRows)

structure SectionDescriptor where
  part : JournalPartRef
  entry : Entry
deriving DecidableEq

structure SegmentPlan where
  byType : Std.TreeMap Nat (List SectionDescriptor)
  minTs : Int64
  maxTs : Int64
  windowCount : Nat

inductive PlanError where
  | journal (problem : PartRefError)
  | io
  | part (problem : PartError)
  | unsupportedFormat (version : Nat)
  | arithmeticOverflow (what : String)
  | tooManySections (sections max : Nat)
deriving DecidableEq

/-! ## Reading catalogs -/

/-- A range of the bytes of one part. -/
def Journal.readPartRange (journal : Journal) (generation : Nat) (part : JournalPartRef)
    (offset len : Nat) : Except PlanError Bytes :=
  match journal.checkPartRef generation part with
  | .error problem => .error (.journal problem)
  | .ok () =>
    if usizeMax < offset + len ∨ part.raw.len < offset + len ∨
        usizeMax < part.raw.offset + offset then
      .error (.journal (.stalePartRef offset len))
    else
      match readExactAt journal.file (part.raw.offset + offset) len with
      | none => .error .io
      | some body => .ok body

section Plan

variable (crc32c : Checksum) (journal : Journal) (generation : Nat)

def readPartCatalog (part : JournalPartRef) : Except PlanError Catalog :=
  if part.raw.len < minPartLen then .error (.part (.tooShort part.raw.len))
  else
    match journal.readPartRange generation part 0 magic.length with
    | .error problem => .error problem
    | .ok front =>
      if front ≠ magic then .error (.part (.badMagic front))
      else
        let tailAt := part.raw.len - tailIndexLen
        match journal.readPartRange generation part tailAt tailIndexLen with
        | .error problem => .error problem
        | .ok last =>
          match TailIndex.decode last with
          | .error problem => .error (.part (.tail problem))
          | .ok tail =>
            if tailAt < tail.catalogLen ∨ tailAt - tail.catalogLen < magic.length then
              .error (.part (.badCatalogLen tail.catalogLen))
            else
              let catalogAt := tailAt - tail.catalogLen
              match journal.readPartRange generation part catalogAt tail.catalogLen with
              | .error problem => .error problem
              | .ok bytes =>
                match Catalog.decode crc32c bytes with
                | .error problem => .error (.part (.catalog problem))
                | .ok catalog =>
                  match validateCatalogLayout catalog catalogAt with
                  | .error problem => .error (.part (.layout problem))
                  | .ok () => .ok catalog

/-- What the loop over the parts has collected. -/
structure PlanState where
  byType : Std.TreeMap Nat (List SectionDescriptor)
  sectionCount : Nat
  minTs : Int64
  maxTs : Int64

def planEntries (part : JournalPartRef) : List Entry → PlanState → Except PlanError PlanState
  | [], state => .ok state
  | entry :: entries, state =>
    match checkedAdd state.sectionCount 1 with
    | none => .error (.arithmeticOverflow "section descriptor count")
    | some sectionCount =>
      if maxSectionRows < sectionCount then
        .error (.tooManySections sectionCount maxSectionRows)
      else
        planEntries part entries
          { state with
            sectionCount := sectionCount
            byType := state.byType.insert entry.typeId
              (state.byType[entry.typeId]?.getD [] ++ [{ part := part, entry := entry }]) }

def planParts : List JournalPartRef → PlanState → Except PlanError PlanState
  | [], state => .ok state
  | part :: parts, state =>
    match readPartCatalog crc32c journal generation part with
    | .error problem => .error problem
    | .ok catalog =>
      if catalog.formatVersion ≠ formatVersion then
        .error (.unsupportedFormat catalog.formatVersion)
      else
        match planEntries part catalog.entries
            { state with
              minTs := min state.minTs catalog.minTs
              maxTs := max state.maxTs catalog.maxTs } with
        | .error problem => .error problem
        | .ok next => planParts parts next

def planSegment : Except PlanError SegmentPlan :=
  if 2 ^ 32 ≤ journal.parts.length then .error (.arithmeticOverflow "window count")
  else
    match planParts crc32c journal generation (journal.partRefs generation)
        { byType := ∅, sectionCount := 0, minTs := Int64.maxValue, maxTs := Int64.minValue } with
    | .error problem => .error problem
    | .ok state =>
      if state.minTs > state.maxTs then
        .ok { byType := state.byType, minTs := 0, maxTs := 0, windowCount := journal.parts.length }
      else
        .ok { byType := state.byType, minTs := state.minTs, maxTs := state.maxTs
              windowCount := journal.parts.length }

end Plan

/-! ## The catalogs of a clean journal -/

variable {crc32c : Checksum} {journal : Journal} {parts : List (ValidPart crc32c)}
variable {generation : Nat}

theorem Journal.Clean.readPartRange (h : journal.Clean crc32c parts) {raw : PartRef}
    (hraw : raw ∈ journal.parts) {offset len : Nat} (hend : offset + len ≤ raw.len) :
    journal.readPartRange generation ⟨raw, generation⟩ offset len =
      .ok (slice (journal.readPart raw) offset (offset + len)) := by
  obtain ⟨hstart, hstop⟩ := h.tiles.bounds hraw
  have hlen := h.length_file
  have hshort := h.short
  have hwhole := h.len
  have hmax : usizeMax = 2 ^ 64 - 1 := rfl
  have hheader : journalHeaderLen = 36 := rfl
  rw [Journal.readPartRange, h.checkPartRef hraw]
  dsimp only
  rw [if_neg (by omega), readExactAt, if_pos (by omega), Journal.readPart,
    slice_slice (by omega), Nat.add_assoc]

theorem readPartCatalog_clean (h : journal.Clean crc32c parts) {raw : PartRef}
    (hraw : raw ∈ journal.parts) :
    readPartCatalog crc32c journal generation ⟨raw, generation⟩ =
      match decodeAndBound crc32c (journal.readPart raw) with
      | .error problem => .error (.part problem)
      | .ok catalog => .ok catalog := by
  obtain ⟨_, hstop⟩ := h.tiles.bounds hraw
  have hmin : minPartLen = 44 := rfl
  have htailLen : tailIndexLen = 8 := rfl
  have hmagicLen : magic.length = 4 := rfl
  have hlen : (journal.readPart raw).length = raw.len := by
    rw [Journal.readPart, length_slice (by rw [h.length_file]; omega)]
    omega
  rw [readPartCatalog, decodeAndBound, hlen]
  by_cases hshort : raw.len < minPartLen
  · rw [if_pos hshort, if_pos hshort]
  · rw [if_neg hshort, if_neg hshort, h.readPartRange hraw (by omega)]
    dsimp only
    rw [hmagicLen]
    by_cases hmagic : slice (journal.readPart raw) 0 4 ≠ magic
    · rw [if_pos hmagic, if_pos hmagic]
    · have hlast : slice (journal.readPart raw) (raw.len - tailIndexLen)
          (raw.len - tailIndexLen + tailIndexLen) =
            (journal.readPart raw).drop (raw.len - tailIndexLen) := by
        rw [Nat.sub_add_cancel (by omega), slice, ← hlen, List.take_length]
      rw [if_neg hmagic, if_neg hmagic, h.readPartRange hraw (by omega), hlast]
      dsimp only
      cases TailIndex.decode ((journal.readPart raw).drop (raw.len - tailIndexLen)) with
      | error problem => rfl
      | ok tail =>
        dsimp only
        by_cases hroom : raw.len - tailIndexLen < tail.catalogLen ∨
            raw.len - tailIndexLen - tail.catalogLen < 4
        · rw [if_pos hroom, if_pos hroom]
        · have hend : raw.len - tailIndexLen - tail.catalogLen + tail.catalogLen =
              raw.len - tailIndexLen := by omega
          rw [if_neg hroom, if_neg hroom, h.readPartRange hraw (by omega), hend]
          dsimp only
          cases Catalog.decode crc32c (slice (journal.readPart raw)
              (raw.len - tailIndexLen - tail.catalogLen) (raw.len - tailIndexLen)) with
          | error problem => rfl
          | ok catalog =>
            dsimp only
            cases validateCatalogLayout catalog (raw.len - tailIndexLen - tail.catalogLen) with
            | error problem => rfl
            | ok done => rfl

theorem readPartCatalogs_clean (h : journal.Clean crc32c parts) :
    (journal.partRefs generation).map (readPartCatalog crc32c journal generation) =
      parts.map fun part => .ok part.catalog := by
  have hread : ∀ raw ∈ journal.parts, readPartCatalog crc32c journal generation ⟨raw, generation⟩ =
      match decodeAndBound crc32c (journal.readPart raw) with
      | .error problem => .error (.part problem)
      | .ok catalog => .ok catalog := fun raw hraw => readPartCatalog_clean h hraw
  have hbodies := congrArg (List.map fun bytes =>
    (match decodeAndBound crc32c bytes with
      | .error problem => .error (PlanError.part problem)
      | .ok catalog => .ok catalog : Except PlanError Catalog)) h.bodies
  rw [Journal.bodies, List.map_map, List.map_map] at hbodies
  rw [Journal.partRefs, List.map_map]
  refine (List.map_congr_left hread).trans (hbodies.trans (List.map_congr_left fun part _ => ?_))
  rw [Function.comp_apply, (validatePart_ok.mp part.valid).1]

/-! ## The fold over the parts -/

theorem planEntries_bounds {part : JournalPartRef} {entries : List Entry} {state next : PlanState}
    (h : planEntries part entries state = .ok next) :
    next.minTs = state.minTs ∧ next.maxTs = state.maxTs := by
  induction entries generalizing state with
  | nil =>
    obtain rfl := Except.ok.inj h
    exact ⟨rfl, rfl⟩
  | cons entry entries ih =>
    rw [planEntries] at h
    split at h
    · cases h
    · next sectionCount _ =>
      by_cases hmany : maxSectionRows < sectionCount
      · rw [if_pos hmany] at h
        cases h
      · rw [if_neg hmany] at h
        obtain ⟨hmin, hmax⟩ := ih h
        exact ⟨hmin, hmax⟩

theorem planParts_bounds {refs : List JournalPartRef} {catalogs : List Catalog}
    {state final : PlanState}
    (hread : refs.map (readPartCatalog crc32c journal generation) = catalogs.map .ok)
    (h : planParts crc32c journal generation refs state = .ok final) :
    final.minTs = catalogs.foldl (fun lo catalog => min lo catalog.minTs) state.minTs ∧
      final.maxTs = catalogs.foldl (fun hi catalog => max hi catalog.maxTs) state.maxTs := by
  induction refs generalizing catalogs state with
  | nil =>
    obtain rfl := List.map_eq_nil_iff.mp hread.symm
    obtain rfl := Except.ok.inj h
    exact ⟨rfl, rfl⟩
  | cons ref refs ih =>
    cases catalogs with
    | nil => cases hread
    | cons catalog catalogs =>
      obtain ⟨hfirst, hrest⟩ := List.cons.inj hread
      rw [planParts, hfirst] at h
      dsimp only at h
      by_cases hversion : catalog.formatVersion ≠ formatVersion
      · rw [if_pos hversion] at h
        cases h
      · rw [if_neg hversion] at h
        cases hentries : planEntries ref catalog.entries
            { state with
              minTs := min state.minTs catalog.minTs
              maxTs := max state.maxTs catalog.maxTs } with
        | error problem =>
          rw [hentries] at h
          cases h
        | ok next =>
          obtain ⟨hmin, hmax⟩ := planEntries_bounds hentries
          rw [hentries] at h
          obtain ⟨hlo, hhi⟩ := ih hrest h
          rw [hlo, hhi, hmin, hmax]
          exact ⟨rfl, rfl⟩

/-! ## The bounds of a segment -/

variable {Row : Type} {codec : TimedCodec Row}

/-- The bounds of some timestamps are their extremes, and `emptyLo` and `emptyHi` when
there is none. -/
structure BoundsOf (emptyLo emptyHi lo hi : Int64) (timestamps : List Int64) : Prop where
  none : timestamps = [] → lo = emptyLo ∧ hi = emptyHi
  some : timestamps ≠ [] → Extremes lo hi timestamps

theorem boundsOf_hull {lo hi : Int64} {timestamps : List Int64} (h : Hull lo hi timestamps) :
    BoundsOf Int64.maxValue Int64.minValue lo hi timestamps where
  none hnil := by
    rw [hnil] at h
    exact h.unique (.of_nil Int64.le_maxValue Int64.minValue_le)
  some hne := h.extremes hne

theorem length_le_frames {part : ValidPart crc32c} (h : part ∈ parts) :
    part.bytes.length ≤ (frames parts).length := by
  induction parts with
  | nil => exact absurd h List.not_mem_nil
  | cons first parts ih =>
    have hlen : first.frameLen = frameHeaderLen + first.bytes.length := rfl
    rw [length_frames_cons]
    rcases List.mem_cons.mp h with rfl | hrest
    · omega
    · have hle := ih hrest
      omega

theorem Journal.Clean.length_parts (h : journal.Clean crc32c parts) :
    journal.parts.length = parts.length := by
  have hbodies := congrArg List.length h.bodies
  rwa [Journal.bodies, List.length_map, List.length_map] at hbodies

theorem forall₂_hull {windows : List (FlushedWindow codec)}
    (hshort : ∀ part ∈ parts, part.bytes.length < 2 ^ 32)
    (hflushed : List.Forall₂ (fun part window => window.FlushedAs crc32c part.bytes)
      parts windows) :
    List.Forall₂ (fun part window => Hull part.catalog.minTs part.catalog.maxTs window.timestamps)
      parts windows := by
  induction hflushed with
  | nil => exact .nil
  | @cons part window parts windows hfirst hrest ih =>
    exact .cons (FlushedWindow.hull hfirst part.valid (hshort part List.mem_cons_self)).2
      (ih fun later hlater => hshort later (List.mem_cons_of_mem part hlater))

/-- The bounds of every part and of the plan of a journal of flushed windows are exact. -/
theorem segment_bounds_exact {windows : List (FlushedWindow codec)} {plan : SegmentPlan}
    (hclean : journal.Clean crc32c parts)
    (hflushed : List.Forall₂ (fun part window => window.FlushedAs crc32c part.bytes)
      parts windows)
    (hplan : planSegment crc32c journal generation = .ok plan) :
    plan.windowCount = parts.length ∧
      BoundsOf 0 0 plan.minTs plan.maxTs (windows.flatMap FlushedWindow.timestamps) ∧
      List.Forall₂ (fun part window => BoundsOf Int64.maxValue Int64.minValue
        part.catalog.minTs part.catalog.maxTs window.timestamps) parts windows := by
  have hhulls := forall₂_hull
    (fun part hpart => Nat.lt_of_le_of_lt (length_le_frames hpart) hclean.short) hflushed
  rw [planSegment] at hplan
  by_cases hmany : 2 ^ 32 ≤ journal.parts.length
  · rw [if_pos hmany] at hplan
    cases hplan
  · rw [if_neg hmany] at hplan
    split at hplan
    · cases hplan
    · next final hfold =>
      have hread : (journal.partRefs generation).map (readPartCatalog crc32c journal generation) =
          (parts.map ValidPart.catalog).map .ok := by
        rw [readPartCatalogs_clean hclean, List.map_map]
        rfl
      obtain ⟨hlo, hhi⟩ := planParts_bounds hread hfold
      have hhull : Hull final.minTs final.maxTs
          ([] ++ windows.flatMap FlushedWindow.timestamps) := by
        rw [hlo, hhi, List.foldl_map, List.foldl_map]
        exact hull_foldl (.of_nil Int64.le_maxValue Int64.minValue_le) hhulls
      have hbounds := boundsOf_hull hhull
      refine ⟨?_, ?_, hhulls.imp fun part window h => boundsOf_hull h⟩
      · split at hplan
        · rw [← Except.ok.inj hplan]
          exact hclean.length_parts
        · rw [← Except.ok.inj hplan]
          exact hclean.length_parts
      · by_cases hempty : windows.flatMap FlushedWindow.timestamps = []
        · -- The sentinels are left, which are out of order.
          obtain ⟨hmin, hmax⟩ := hbounds.none hempty
          rw [hmin, hmax] at hplan
          rw [← Except.ok.inj hplan]
          exact ⟨fun _ => ⟨rfl, rfl⟩, fun hne => absurd hempty hne⟩
        · have hextremes := hbounds.some hempty
          rw [if_neg (Std.not_lt.mpr hextremes.le)] at hplan
          rw [← Except.ok.inj hplan]
          exact ⟨fun hnil => absurd hnil hempty, fun _ => hextremes⟩

/-! ## A concrete run -/

def clockBody (rows : List Int64) : Bytes := rows.map fun row => UInt8.ofNat row.toNatClampNeg

def clockRows (body : Bytes) : List Int64 := body.map fun byte => Int64.ofNat byte.toNat

def encodeClockRows (rows : List Int64) : Except CodecError Bytes :=
  if clockRows (clockBody rows) = rows then .ok (clockBody rows) else .error .schemaMismatch

theorem perm_of_encodeClockRows {typeId : Nat} {rows : List Int64} {body : Bytes}
    (h : (fun _ rows => encodeClockRows rows) typeId rows = .ok body) :
    (clockRows body).Perm rows := by
  dsimp only at h
  rw [encodeClockRows] at h
  by_cases hrows : clockRows (clockBody rows) = rows
  · rw [if_pos hrows] at h
    rw [← Except.ok.inj h, hrows]
  · rw [if_neg hrows] at h
    cases h

theorem clock_typeId_lt (_ : Int64) : 1001001 < 2 ^ 32 := by decide

theorem clock_typeId_ne (_ : Int64) :
    1001001 ≠ dictStringsTypeId ∧ 1001001 ≠ dictBlobsTypeId := by decide

/-- Rows of a timestamp of one byte. -/
def clockCodec : TimedCodec Int64 where
  typeId _ := 1001001
  ids _ := []
  tsRange _ rows := tsRangeOf (some id) rows
  encode _ rows := encodeClockRows rows
  decode _ body := clockRows body
  encodeStrings := sampleCodec.encodeStrings
  decodeStrings := sampleCodec.decodeStrings
  encodeBlobs := sampleCodec.encodeBlobs
  decodeBlobs := sampleCodec.decodeBlobs
  typeId_lt := clock_typeId_lt
  typeId_ne := clock_typeId_ne
  decode_encode := @perm_of_encodeClockRows
  decodeStrings_encode := sampleCodec.decodeStrings_encode
  decodeBlobs_encode := sampleCodec.decodeBlobs_encode
  tsColumn _ := some id
  tsRange_eq _ _ := rfl

def clockPart (input : SectionInput) (minTs maxTs : Int64) : Bytes :=
  buildPart castagnoli [input] { minTs := minTs, maxTs := maxTs }

/-- Two sections of rows, and between them a part that has only a dictionary. -/
def clockParts : List (ValidPart castagnoli) :=
  [.ofBytes (clockPart { typeId := 1001001, rows := 2, body := [9, 5] } 5 9) (by decide +kernel),
    .ofBytes (clockPart { typeId := dictStringsTypeId, rows := 1
                          body := leBytes 8 198643258655125820 ++ planBytes }
      Int64.maxValue Int64.minValue) (by decide +kernel),
    .ofBytes (clockPart { typeId := 1001001, rows := 2, body := [7, 2] } 2 7) (by decide +kernel)]

def clockWindows : List (FlushedWindow clockCodec) :=
  [{ buffers := ⟨[(1001001, [9, 5])], List.forall_mem_singleton.mpr ⟨by decide, fun _ _ => rfl⟩⟩
     window := .new .default },
    { buffers := ⟨[], List.forall_mem_nil _⟩
      window := ((SegmentDicts.new .default).intern knownHashes planBytes).2 },
    { buffers := ⟨[(1001001, [7, 2])], List.forall_mem_singleton.mpr ⟨by decide, fun _ _ => rfl⟩⟩
      window := .new .default }]

def clockJournal : Journal :=
  clockParts.foldl (fun journal part => journal.appended castagnoli sampleId part.bytes)
    (.fresh castagnoli .default)

theorem clean_clock : clockJournal.Clean castagnoli clockParts where
  file := by decide +kernel
  len := by decide +kernel
  refs := by decide +kernel
  identity := by decide
  config := rfl
  admits := ⟨by decide +kernel, by decide +kernel⟩
  bound := by decide +kernel
  healthy := rfl

theorem flushedAs_clock : List.Forall₂
    (fun part window => window.FlushedAs castagnoli part.bytes) clockParts clockWindows :=
  .cons ⟨[], rfl, by decide +kernel⟩ (.cons ⟨_, rfl, by decide +kernel⟩
    (.cons ⟨[], rfl, by decide +kernel⟩ .nil))

theorem exists_of_isOk {ε α : Type} {result : Except ε α} (h : result.isOk = true) :
    ∃ value, result = .ok value := by
  cases result with
  | error problem => cases h
  | ok value => exact ⟨value, rfl⟩

theorem planned_clock : ∃ plan, planSegment castagnoli clockJournal 0 = .ok plan :=
  exists_of_isOk (by decide +kernel)

/-- The last part has the earliest row, the first one the latest. -/
theorem segment_bounds_exact_sample :
    ∃ plan, planSegment castagnoli clockJournal 0 = .ok plan ∧ plan.windowCount = 3 ∧
      BoundsOf 0 0 plan.minTs plan.maxTs [9, 5, 7, 2] ∧
      List.Forall₂ (fun part window => BoundsOf Int64.maxValue Int64.minValue
        part.catalog.minTs part.catalog.maxTs window.timestamps) clockParts clockWindows := by
  obtain ⟨plan, hplan⟩ := planned_clock
  exact ⟨plan, hplan, segment_bounds_exact clean_clock flushedAs_clock hplan⟩

end Kronika.Writer
