/-
The validation of a part never leaves its bytes.

The checked functions follow `validate_part` and what it calls with the operations
that can stop the program: slices, sums, differences, array conversions, and casts
to a `usize` of `w` bits.  They are the plain functions on every byte string, so no
damaged part stops the reader.  An accepted part is covered by its sections from the
opening magic to the catalog.
-/
import Kronika.Format.PartEncoding
import Kronika.Library.Checked

namespace Kronika.Format

open Library

/-! ## The checked validation -/

section Checked

variable (w : Nat) (crc32c : Checksum)

/-- The `width` bytes at `offset`, as an array. -/
def checkedField (bytes : Bytes) (offset width : Nat) : Option Bytes := do
  let stop ← checkedAdd w offset width
  let field ← checkedSlice bytes offset stop
  checkedArray width field

def checkedU32At (bytes : Bytes) (offset : Nat) : Option Nat := do
  let field ← checkedField w bytes offset 4
  return leNat field

def checkedU64At (bytes : Bytes) (offset : Nat) : Option Nat := do
  let field ← checkedField w bytes offset 8
  return leNat field

def checkedI64At (bytes : Bytes) (offset : Nat) : Option Int64 := do
  let field ← checkedField w bytes offset 8
  return (UInt64.ofNat (leNat field)).toInt64

def checkedDecodeEntry (bytes : Bytes) : Option Entry := do
  let typeId ← checkedU32At w bytes 0
  let flags ← checkedU32At w bytes 4
  let offset ← checkedU64At w bytes 8
  let len ← checkedU64At w bytes 16
  let rows ← checkedU32At w bytes 24
  let crc32c ← checkedU32At w bytes 28
  return { typeId := typeId, flags := flags, offset := offset, len := len, rows := rows
           crc32c := crc32c }

def checkedZeroedField (bytes : Bytes) (zeroAt : Nat) : Option UInt32 := do
  let front ← checkedSlice bytes 0 zeroAt
  let after ← checkedAdd w zeroAt 4
  let back ← checkedSlice bytes after bytes.length
  return crc32c (front ++ [0, 0, 0, 0] ++ back)

def checkedCatalogDecode (bytes : Bytes) : Option (Except DecodeError Catalog) :=
  if bytes.length < metaLen then return .error (.badCatalogLen bytes.length)
  else do
    let body ← checkedSub bytes.length metaLen
    if body % entryLen ≠ 0 then return .error (.badCatalogLen bytes.length)
    else if 2 ^ 32 ≤ body / entryLen then return .error (.badCatalogLen bytes.length)
    else
      let meta' ← checkedSlice bytes body bytes.length
      let storedCount ← checkedU32At w meta' 16
      if storedCount ≠ body / entryLen then
        return .error (.entryCountMismatch storedCount (body / entryLen))
      else
        let storedCrc ← checkedU32At w meta' metaCrcOffset
        let crcAt ← checkedAdd w body metaCrcOffset
        let computed ← checkedZeroedField w crc32c bytes crcAt
        if storedCrc ≠ computed.toNat then return .error (.badCrc storedCrc computed.toNat)
        else
          let rows ← checkedSlice bytes 0 body
          let minTs ← checkedI64At w meta' 0
          let maxTs ← checkedI64At w meta' 8
          let formatVersion ← checkedU32At w meta' 20
          let windowCount ← checkedU32At w meta' 28
          let entries ← (chunksExact entryLen rows).mapM (checkedDecodeEntry w)
          return .ok { entries := entries, minTs := minTs, maxTs := maxTs
                       formatVersion := formatVersion, windowCount := windowCount }

def checkedDecodeAndBound (bytes : Bytes) : Option (Except PartError Catalog) :=
  if bytes.length < minPartLen then return .error (.tooShort bytes.length)
  else do
    let front ← checkedSlice bytes 0 4
    if front ≠ magic then
      let actual ← checkedArray 4 front
      return .error (.badMagic actual)
    else
      let bodyEnd ← checkedSub bytes.length tailIndexLen
      let last ← checkedSlice bytes bodyEnd bytes.length
      let tailBytes ← checkedArray tailIndexLen last
      match TailIndex.decode tailBytes with
      | .error problem => return .error (.tail problem)
      | .ok tail =>
        -- The one difference the code itself tests before it is used.
        match checkedSub bodyEnd (wordCast w tail.catalogLen) with
        | none => return .error (.badCatalogLen tail.catalogLen)
        | some catalogStart =>
          if catalogStart < magic.length then return .error (.badCatalogLen tail.catalogLen)
          else
            let block ← checkedSlice bytes catalogStart bodyEnd
            let decoded ← checkedCatalogDecode w crc32c block
            match decoded with
            | .error problem => return .error (.catalog problem)
            | .ok catalog =>
              match validateCatalogLayout catalog (wordCast 64 catalogStart) with
              | .error problem => return .error (.layout problem)
              | .ok () => return .ok catalog

def checkedSections (bytes : Bytes) : List Entry → Option (Except PartError Unit)
  | [] => return .ok ()
  | entry :: entries => do
    let stop ← checkedAdd 64 entry.offset entry.len
    let body ← checkedSlice bytes (wordCast w entry.offset) (wordCast w stop)
    if (crc32c body).toNat ≠ entry.crc32c then
      return .error (.sectionCrc entry.typeId entry.crc32c (crc32c body).toNat)
    else checkedSections bytes entries

def checkedValidatePart (bytes : Bytes) : Option (Except PartError Catalog) := do
  let bounded ← checkedDecodeAndBound w crc32c bytes
  match bounded with
  | .error problem => return .error problem
  | .ok catalog =>
    let checked ← checkedSections w crc32c bytes catalog.entries
    match checked with
    | .error problem => return .error problem
    | .ok () => return .ok catalog

end Checked

/-! ## The checked functions are the plain ones -/

variable {w : Nat} {crc32c : Checksum} {bytes : Bytes}

theorem lt_word {n : Nat} (hw : 32 ≤ w) (h : n < 2 ^ 32) : n < 2 ^ w :=
  Nat.lt_of_lt_of_le h (Nat.pow_le_pow_right (by decide) hw)

theorem checkedField_eq {offset width : Nat} (h : offset + width ≤ bytes.length)
    (hword : bytes.length < 2 ^ w) :
    checkedField w bytes offset width = some (slice bytes offset (offset + width)) := by
  have hlen : (slice bytes offset (offset + width)).length = width := by
    rw [length_slice h]
    omega
  simp only [checkedField, Option.bind_eq_bind]
  rw [checkedAdd_eq (by omega), Option.bind_some, checkedSlice_eq (by omega) h, Option.bind_some,
    checkedArray_eq hlen]

variable {offset : Nat}

theorem checkedU32At_eq (h : offset + 4 ≤ bytes.length)
    (hword : bytes.length < 2 ^ w) : checkedU32At w bytes offset = some (u32At bytes offset) := by
  rw [checkedU32At, checkedField_eq h hword]
  rfl

theorem checkedU64At_eq (h : offset + 8 ≤ bytes.length)
    (hword : bytes.length < 2 ^ w) : checkedU64At w bytes offset = some (u64At bytes offset) := by
  rw [checkedU64At, checkedField_eq h hword]
  rfl

theorem checkedI64At_eq (h : offset + 8 ≤ bytes.length)
    (hword : bytes.length < 2 ^ w) : checkedI64At w bytes offset = some (i64At bytes offset) := by
  rw [checkedI64At, checkedField_eq h hword]
  rfl

theorem checkedDecodeEntry_eq (hlen : bytes.length = entryLen) (hword : bytes.length < 2 ^ w) :
    checkedDecodeEntry w bytes = some (decodeEntry bytes) := by
  have hentryLen : entryLen = 32 := rfl
  rw [checkedDecodeEntry, checkedU32At_eq (by omega) hword, checkedU32At_eq (by omega) hword,
    checkedU64At_eq (by omega) hword, checkedU64At_eq (by omega) hword,
    checkedU32At_eq (by omega) hword, checkedU32At_eq (by omega) hword]
  rfl

theorem map_decodeEntry_chunks (count : Nat) (bytes : Bytes) :
    (chunks entryLen count bytes).map decodeEntry = decodeEntries count bytes := by
  induction count generalizing bytes with
  | zero => rfl
  | succ count ih => rw [chunks, List.map_cons, ih, decodeEntries]

theorem checkedEntries_eq {rows : Bytes} (hw : 32 ≤ w) :
    (chunksExact entryLen rows).mapM (checkedDecodeEntry w) =
      some (decodeEntries (rows.length / entryLen) rows) := by
  rw [← map_decodeEntry_chunks, ← chunksExact]
  have hlen : ∀ piece ∈ chunksExact entryLen rows, piece.length = entryLen :=
    fun piece hpiece => length_of_mem_chunksExact hpiece
  generalize chunksExact entryLen rows = pieces at hlen ⊢
  induction pieces with
  | nil => rfl
  | cons piece pieces ih =>
    have hpiece := hlen piece List.mem_cons_self
    have hword : piece.length < 2 ^ w := lt_word hw (by rw [hpiece]; decide)
    rw [List.mapM_cons, checkedDecodeEntry_eq hpiece hword,
      ih fun later hlater => hlen later (List.mem_cons_of_mem piece hlater)]
    rfl

theorem checkedZeroedField_eq {zeroAt : Nat} (h : zeroAt + 4 ≤ bytes.length)
    (hword : bytes.length < 2 ^ w) :
    checkedZeroedField w crc32c bytes zeroAt =
      some (crc32cWithZeroedField crc32c bytes zeroAt) := by
  simp only [checkedZeroedField, Option.bind_eq_bind]
  rw [checkedSlice_take (by omega), Option.bind_some, checkedAdd_eq (by omega), Option.bind_some,
    checkedSlice_drop h]
  rfl

theorem checkedCatalogDecode_eq (hw : 32 ≤ w) (hword : bytes.length < 2 ^ w) :
    checkedCatalogDecode w crc32c bytes = some (Catalog.decode crc32c bytes) := by
  have hmetaLen : metaLen = 32 := rfl
  have hcrcOffset : metaCrcOffset = 24 := rfl
  rw [checkedCatalogDecode, Catalog.decode]
  by_cases hshort : bytes.length < metaLen
  · rw [if_pos hshort, if_pos (Or.inl hshort)]
    rfl
  · rw [if_neg hshort, checkedSub_eq (by omega)]
    simp only [Option.bind_eq_bind, Option.bind_some]
    by_cases hshape : (bytes.length - metaLen) % entryLen ≠ 0
    · rw [if_pos hshape, if_pos (Or.inr hshape)]
      rfl
    · rw [if_neg hshape, if_neg (not_or.mpr ⟨hshort, hshape⟩)]
      by_cases hmany : 2 ^ 32 ≤ (bytes.length - metaLen) / entryLen
      · rw [if_pos hmany, if_pos hmany]
        rfl
      · have hmeta : (bytes.drop (bytes.length - metaLen)).length = metaLen := by
          rw [List.length_drop]
          omega
        have hmetaWord : (bytes.drop (bytes.length - metaLen)).length < 2 ^ w := by omega
        rw [if_neg hmany, checkedSlice_drop (by omega), Option.bind_some,
          checkedU32At_eq (by omega) hmetaWord, Option.bind_some]
        split
        · rfl
        · rw [checkedU32At_eq (by omega) hmetaWord, Option.bind_some, checkedAdd_eq (by omega),
            Option.bind_some, checkedZeroedField_eq (by omega) hword, Option.bind_some]
          split
          · rfl
          · have hcount : (bytes.take (bytes.length - metaLen)).length =
                bytes.length - metaLen := by
              rw [List.length_take]
              omega
            rw [checkedSlice_take (by omega), Option.bind_some,
              checkedI64At_eq (by omega) hmetaWord, checkedI64At_eq (by omega) hmetaWord,
              checkedU32At_eq (by omega) hmetaWord, checkedU32At_eq (by omega) hmetaWord,
              checkedEntries_eq hw, hcount, ← map_decodeEntry_chunks, ← map_decodeEntry_chunks,
              chunks_take bytes (Nat.div_mul_le_self _ _)]
            rfl

theorem checkedDecodeAndBound_eq (hw : 32 ≤ w) (hw' : w ≤ 64) (hword : bytes.length < 2 ^ w) :
    checkedDecodeAndBound w crc32c bytes = some (decodeAndBound crc32c bytes) := by
  have hmin : minPartLen = 44 := rfl
  have htailLen : tailIndexLen = 8 := rfl
  rw [checkedDecodeAndBound, decodeAndBound]
  by_cases hshort : bytes.length < minPartLen
  · rw [if_pos hshort, if_pos hshort]
    rfl
  · rw [if_neg hshort, if_neg hshort, checkedSlice_eq (by omega) (by omega)]
    simp only [Option.bind_eq_bind, Option.bind_some]
    by_cases hmagic : slice bytes 0 4 ≠ magic
    · have hfour : (slice bytes 0 4).length = 4 := length_slice (by omega)
      rw [if_pos hmagic, if_pos hmagic, checkedArray_eq hfour]
      rfl
    · have htailBytes : (bytes.drop (bytes.length - tailIndexLen)).length = tailIndexLen := by
        rw [List.length_drop]
        omega
      rw [if_neg hmagic, if_neg hmagic, checkedSub_eq (by omega), Option.bind_some,
        checkedSlice_drop (by omega), Option.bind_some, checkedArray_eq htailBytes,
        Option.bind_some]
      cases htail : TailIndex.decode (bytes.drop (bytes.length - tailIndexLen)) with
      | error problem => rfl
      | ok tail =>
        obtain ⟨_, hsmall⟩ := TailIndex.encode_of_decode htailBytes htail
        dsimp only
        rw [wordCast_eq (lt_word hw hsmall)]
        by_cases hroom : bytes.length - tailIndexLen < tail.catalogLen
        · rw [checkedSub_eq_none hroom, if_pos (Or.inl hroom)]
          rfl
        · rw [checkedSub_eq (Nat.not_lt.mp hroom)]
          dsimp only
          by_cases hstart : bytes.length - tailIndexLen - tail.catalogLen < magic.length
          · rw [if_pos hstart, if_pos (Or.inr hstart)]
            rfl
          · have hblock : (slice bytes (bytes.length - tailIndexLen - tail.catalogLen)
                (bytes.length - tailIndexLen)).length < 2 ^ w := by
              rw [length_slice (by omega)]
              omega
            have hcast : bytes.length - tailIndexLen - tail.catalogLen < 2 ^ 64 :=
              Nat.lt_of_lt_of_le (by omega) (Nat.pow_le_pow_right (by decide) hw')
            rw [if_neg hstart, if_neg (not_or.mpr ⟨hroom, hstart⟩),
              checkedSlice_eq (by omega) (by omega), Option.bind_some,
              checkedCatalogDecode_eq hw hblock, Option.bind_some, wordCast_eq hcast]
            cases Catalog.decode crc32c (slice bytes
              (bytes.length - tailIndexLen - tail.catalogLen) (bytes.length - tailIndexLen)) with
            | error problem => rfl
            | ok catalog =>
              dsimp only
              cases validateCatalogLayout catalog
                (bytes.length - tailIndexLen - tail.catalogLen) with
              | error problem => rfl
              | ok done => rfl

variable {catalogAt offset : Nat} {entries : List Entry}

/-- The sums and casts of the section loop are exact, because the layout check has
bounded every section by the start of the catalog. -/
theorem checkedSections_eq (hlaid : Laid catalogAt offset entries) (hend : catalogAt ≤ bytes.length)
    (hw' : w ≤ 64) (hword : bytes.length < 2 ^ w) :
    checkedSections w crc32c bytes entries = some (validateSections crc32c bytes entries) := by
  induction entries generalizing offset with
  | nil => rfl
  | cons entry entries ih =>
    obtain ⟨_, hmem⟩ := hlaid.mem
    obtain ⟨_, hstop⟩ := hmem entry List.mem_cons_self
    have hsum : entry.offset + entry.len < 2 ^ 64 :=
      Nat.lt_of_lt_of_le (by omega) (Nat.pow_le_pow_right (by decide) hw')
    rw [checkedSections, checkedAdd_eq hsum]
    simp only [Option.bind_eq_bind, Option.bind_some]
    rw [wordCast_eq (by omega), wordCast_eq (by omega),
      checkedSlice_eq (by omega) (by omega), Option.bind_some, validateSections]
    split
    · rfl
    · exact ih hlaid.2.2.2.2.2.2

/-! ## An accepted part -/

def catalogStart (bytes : Bytes) : Nat :=
  bytes.length - tailIndexLen - u32At (bytes.drop (bytes.length - tailIndexLen)) 0

/-- The sections lie one behind the other and cover the bytes from the opening magic
to the catalog, which ends at the tail index. -/
structure Covered (bytes : Bytes) (catalog : Catalog) : Prop where
  ordered : catalog.entries.Pairwise fun a b => a.offset + a.len ≤ b.offset
  nonempty : ∀ entry ∈ catalog.entries, 0 < entry.len
  first : ∀ entry ∈ catalog.entries.head?, entry.offset = 4
  start : 4 ≤ catalogStart bytes
  cover : ∀ i, 4 ≤ i ∧ i < catalogStart bytes ↔
    ∃ entry ∈ catalog.entries, entry.offset ≤ i ∧ i < entry.offset + entry.len
  length : catalogStart bytes + 32 * catalog.entries.length + 32 + 8 = bytes.length

theorem Laid.offset_le
    (h : Laid catalogAt offset entries) : ∀ entry ∈ entries, offset ≤ entry.offset := by
  induction entries generalizing offset with
  | nil => exact fun entry hentry => absurd hentry List.not_mem_nil
  | cons entry entries ih =>
    obtain ⟨_, _, _, _, hoffset, _, htail⟩ := h
    refine List.forall_mem_cons.mpr ⟨by omega, fun later hlater => ?_⟩
    have hle := ih htail later hlater
    omega

theorem Laid.pairwise (h : Laid catalogAt offset entries) :
    entries.Pairwise fun a b => a.offset + a.len ≤ b.offset := by
  induction entries generalizing offset with
  | nil => exact List.Pairwise.nil
  | cons entry entries ih =>
    obtain ⟨_, _, _, _, hoffset, _, htail⟩ := h
    refine List.pairwise_cons.mpr ⟨fun later hlater => ?_, ih htail⟩
    rw [hoffset]
    exact htail.offset_le later hlater

theorem Laid.cover (h : Laid catalogAt offset entries) (i : Nat) : offset ≤ i ∧ i < catalogAt ↔
      ∃ entry ∈ entries, entry.offset ≤ i ∧ i < entry.offset + entry.len := by
  induction entries generalizing offset with
  | nil =>
    have hend : offset = catalogAt := h
    constructor
    · rintro ⟨hle, hlt⟩
      omega
    · rintro ⟨entry, hentry, _⟩
      exact absurd hentry List.not_mem_nil
  | cons entry entries ih =>
    obtain ⟨hle, _⟩ := h.2.2.2.2.2.2.mem
    obtain ⟨_, _, _, _, hoffset, _, htail⟩ := h
    rw [List.exists_mem_cons_iff, ← ih htail]
    omega

theorem u32At_encode_tail {tail : TailIndex} (h : tail.catalogLen < 2 ^ 32) :
    u32At tail.encode 0 = tail.catalogLen := by
  have hdecode := TailIndex.decode_encode h
  rw [TailIndex.decode] at hdecode
  split at hdecode
  · cases hdecode
  · exact congrArg TailIndex.catalogLen (Except.ok.inj hdecode)

theorem decodeAndBound_laid {catalog : Catalog} (h : decodeAndBound crc32c bytes = .ok catalog) :
    4 ≤ catalogStart bytes ∧ Laid (catalogStart bytes) 4 catalog.entries ∧
      catalogStart bytes + 32 * catalog.entries.length + 32 + 8 = bytes.length := by
  obtain ⟨body, hbytes, _, hsmall, hlayout⟩ := eq_encode_of_decodeAndBound h
  have hlen := length_container crc32c body catalog
  have htail := drop_container_tail crc32c body catalog
  have hblock := Catalog.length_block crc32c catalog
  rw [← hbytes] at hlen htail
  have hentryLen : entryLen = 32 := rfl
  have hmetaLen : metaLen = 32 := rfl
  have htailLen : tailIndexLen = 8 := rfl
  have hmagicLen : magic.length = 4 := rfl
  have hbodyEnd : bytes.length - tailIndexLen =
      magic.length + body.length + (catalog.block crc32c).length := by omega
  have hstart : catalogStart bytes = magic.length + body.length := by
    rw [catalogStart, hbodyEnd, htail, u32At_encode_tail hsmall]
    dsimp only
    omega
  rw [hstart]
  rw [hentryLen] at hblock
  exact ⟨by omega, (validateEntries_ok.mp hlayout).1, by omega⟩

theorem covered_of_validatePart {catalog : Catalog}
    (h : validatePart crc32c bytes = .ok catalog) : Covered bytes catalog := by
  obtain ⟨hfour, hlaid, hlength⟩ := decodeAndBound_laid (validatePart_ok.mp h).1
  refine ⟨hlaid.pairwise, fun entry hentry => ?_, ?_, hfour, hlaid.cover, hlength⟩
  · exact Nat.pos_of_ne_zero (hlaid.mem.2 entry hentry).1
  · intro entry hentry
    cases hentries : catalog.entries with
    | nil =>
      rw [hentries] at hentry
      cases hentry
    | cons head rest =>
      rw [hentries] at hentry hlaid
      obtain rfl := Option.some.inj hentry
      exact hlaid.2.2.2.2.1

/-- On every byte string that fits in memory the validation returns, without leaving the
bytes or a word, and the sections of an accepted part cover it up to its catalog. -/
theorem part_validation_in_range (crc32c : Checksum) {w : Nat} {bytes : Bytes} (hw : 32 ≤ w)
    (hw' : w ≤ 64) (hword : bytes.length < 2 ^ w) :
    checkedValidatePart w crc32c bytes = some (validatePart crc32c bytes) ∧
      ∀ catalog, validatePart crc32c bytes = .ok catalog → Covered bytes catalog := by
  refine ⟨?_, fun catalog h => covered_of_validatePart h⟩
  rw [checkedValidatePart, checkedDecodeAndBound_eq hw hw' hword, validatePart]
  cases hdecode : decodeAndBound crc32c bytes with
  | error problem => rfl
  | ok catalog =>
    obtain ⟨_, hlaid, hlength⟩ := decodeAndBound_laid hdecode
    simp only [Option.bind_eq_bind, Option.bind_some]
    rw [checkedSections_eq hlaid (by omega) hw' hword]
    cases validateSections crc32c bytes catalog.entries with
    | error problem => rfl
    | ok done => rfl

theorem part_validation_in_range_samplePart :
    checkedValidatePart 64 castagnoli samplePart = some (validatePart castagnoli samplePart) ∧
      ∀ catalog, validatePart castagnoli samplePart = .ok catalog → Covered samplePart catalog :=
  part_validation_in_range castagnoli (by decide) (by decide) (by decide)

end Kronika.Format
