/-
The buffered rows of a collection window, and the journal part they become.

A section body is a Parquet file written and read by third-party crates.
`SectionCodec` is what a part needs of them: each body gives its rows back, in the
order of the section's sort key.
-/
import Kronika.Format.PartEncoding
import Kronika.Writer.FinishedDictionary

namespace Kronika.Writer

open Format Library
open Registry (maxSectionRows sectionWriteBatchRows)

/-- The section types of the registry over one type of rows, with their codecs and
those of the two dictionary sections. -/
structure SectionCodec (Row : Type) where
  typeId : Row → Nat
  /-- The ids of the strings that a row refers to. -/
  ids : Row → List StrId
  tsRange : Nat → List Row → Option (Int64 × Int64)
  encode : Nat → List Row → Except CodecError Bytes
  decode : Nat → Bytes → List Row
  encodeStrings : List StringRow → Except CodecError Bytes
  decodeStrings : Bytes → List StringRow
  encodeBlobs : List BlobRow → Except CodecError Bytes
  decodeBlobs : Bytes → List BlobRow
  typeId_lt : ∀ row, typeId row < 2 ^ 32
  typeId_ne : ∀ row, typeId row ≠ dictStringsTypeId ∧ typeId row ≠ dictBlobsTypeId
  decode_encode : ∀ {id rows body}, encode id rows = .ok body → (decode id body).Perm rows
  decodeStrings_encode : ∀ {rows body}, encodeStrings rows = .ok body → decodeStrings body = rows
  decodeBlobs_encode : ∀ {rows body}, encodeBlobs rows = .ok body → decodeBlobs body = rows

variable {Row : Type}

/-! ## Buffers -/

/-- Rows buffered per section type, in the order of the type ids. -/
structure SectionBuffers (codec : SectionCodec Row) where
  byType : List (Nat × List Row)
  typed : ∀ entry ∈ byType, entry.2.length ≤ sectionWriteBatchRows ∧
    ∀ row ∈ entry.2, codec.typeId row = entry.1

/-- The buffers with one row more, unless its type reached the row cap. -/
def insertRow (typeId : Nat) (row : Row) : List (Nat × List Row) → Option (List (Nat × List Row))
  | [] => some [(typeId, [row])]
  | (other, rows) :: rest =>
    if typeId < other then some ((typeId, [row]) :: (other, rows) :: rest)
    else if typeId = other then
      if sectionWriteBatchRows ≤ rows.length then none
      else some ((other, rows ++ [row]) :: rest)
    else (insertRow typeId row rest).map ((other, rows) :: ·)

variable {row : Row}

theorem insertRow_cons_eq_some {typeId other : Nat} {rows : List Row}
    {rest after : List (Nat × List Row)}
    (h : insertRow typeId row ((other, rows) :: rest) = some after) :
    after = (typeId, [row]) :: (other, rows) :: rest ∨
      (typeId = other ∧ rows.length < sectionWriteBatchRows ∧
        after = (other, rows ++ [row]) :: rest) ∨
      ∃ later, insertRow typeId row rest = some later ∧ after = (other, rows) :: later := by
  rw [insertRow] at h
  by_cases hlt : typeId < other
  · rw [if_pos hlt] at h
    exact Or.inl (Option.some.inj h).symm
  · rw [if_neg hlt] at h
    by_cases heq : typeId = other
    · rw [if_pos heq] at h
      by_cases hfull : sectionWriteBatchRows ≤ rows.length
      · rw [if_pos hfull] at h
        cases h
      · rw [if_neg hfull] at h
        exact Or.inr (Or.inl ⟨heq, by omega, (Option.some.inj h).symm⟩)
    · rw [if_neg heq] at h
      obtain ⟨later, hlater, hafter⟩ := Option.map_eq_some_iff.mp h
      exact Or.inr (Or.inr ⟨later, hlater, hafter.symm⟩)

theorem insertRow_typed {codec : SectionCodec Row} {byType after : List (Nat × List Row)}
    (typed : ∀ entry ∈ byType, entry.2.length ≤ sectionWriteBatchRows ∧
      ∀ row ∈ entry.2, codec.typeId row = entry.1)
    (h : insertRow (codec.typeId row) row byType = some after) :
    ∀ entry ∈ after, entry.2.length ≤ sectionWriteBatchRows ∧
      ∀ row ∈ entry.2, codec.typeId row = entry.1 := by
  have hsingle : (codec.typeId row, [row]).2.length ≤ sectionWriteBatchRows ∧
      ∀ other ∈ (codec.typeId row, [row]).2, codec.typeId other = (codec.typeId row, [row]).1 :=
    ⟨show 1 ≤ 65536 by decide, fun other hother => by rw [List.mem_singleton.mp hother]⟩
  induction byType generalizing after with
  | nil =>
    rw [← Option.some.inj h]
    exact fun entry hentry => List.mem_singleton.mp hentry ▸ hsingle
  | cons entry rest ih =>
    obtain ⟨other, rows⟩ := entry
    obtain ⟨hfirst, hrest⟩ := List.forall_mem_cons.mp typed
    rcases insertRow_cons_eq_some h with rfl | ⟨heq, hroom, rfl⟩ | ⟨later, hlater, rfl⟩
    · exact List.forall_mem_cons.mpr ⟨hsingle, typed⟩
    · refine List.forall_mem_cons.mpr ⟨⟨?_, fun added hadded => ?_⟩, hrest⟩
      · show (rows ++ [row]).length ≤ _
        rw [List.length_append, List.length_singleton]
        omega
      · rcases List.mem_append.mp hadded with hold | hnew
        · exact hfirst.2 added hold
        · rw [List.mem_singleton.mp hnew]
          exact heq
    · exact List.forall_mem_cons.mpr ⟨hfirst, ih hrest hlater⟩

variable {typeId : Nat}

theorem insertRow_perm {byType after : List (Nat × List Row)}
    (h : insertRow typeId row byType = some after) :
    (after.flatMap Prod.snd).Perm (row :: byType.flatMap Prod.snd) := by
  induction byType generalizing after with
  | nil =>
    rw [← Option.some.inj h]
    exact List.Perm.refl _
  | cons entry rest ih =>
    obtain ⟨other, rows⟩ := entry
    rcases insertRow_cons_eq_some h with rfl | ⟨-, -, rfl⟩ | ⟨later, hlater, rfl⟩
    · exact List.Perm.refl _
    · rw [List.flatMap_cons, List.append_assoc]
      exact List.perm_middle
    · exact ((ih hlater).append_left rows).trans List.perm_middle

namespace SectionBuffers

variable {codec : SectionCodec Row}

def new : SectionBuffers codec :=
  { byType := [], typed := fun _ hentry => absurd hentry List.not_mem_nil }

def push (buffers : SectionBuffers codec) (row : Row) : Option (SectionBuffers codec) :=
  match h : insertRow (codec.typeId row) row buffers.byType with
  | none => none
  | some byType => some { byType := byType, typed := insertRow_typed buffers.typed h }

def isEmpty (buffers : SectionBuffers codec) : Bool :=
  buffers.byType.all fun entry => entry.2.isEmpty

def rows (buffers : SectionBuffers codec) : List Row := buffers.byType.flatMap Prod.snd

theorem rows_push {buffers after : SectionBuffers codec}
    (h : buffers.push row = some after) : after.rows.Perm (row :: buffers.rows) := by
  unfold push at h
  split at h
  · cases h
  · rename_i byType hinsert
    rw [← Option.some.inj h]
    exact insertRow_perm hinsert

theorem rows_of_isEmpty {buffers : SectionBuffers codec} (h : buffers.isEmpty = true) :
    buffers.rows = [] := by
  rw [rows, List.flatMap_eq_nil_iff]
  intro entry hentry
  exact List.isEmpty_iff.mp (List.all_eq_true.mp h entry hentry)

end SectionBuffers

/-! ## The part of a window -/

section Encode

variable (codec : SectionCodec Row) (crc32c : Checksum)

/-- One encoded section; there is none for no rows. -/
def encodeSection {R : Type} (encode : List R → Except CodecError Bytes) (typeId : Nat)
    (rows : List R) : Except CodecError (List SectionInput) :=
  if rows.isEmpty then .ok []
  else
    match encode rows with
    | .error problem => .error problem
    | .ok body => .ok [{ typeId := typeId, rows := rows.length, body := body }]

/-- The encoded dictionary sections of a window: strings, then blobs. -/
def dictSections (window : SegmentDicts) : Except CodecError (List SectionInput) :=
  match encode window with
  | .error problem => .error problem
  | .ok sections =>
    match encodeSection codec.encodeStrings dictStringsTypeId sections.strings with
    | .error problem => .error problem
    | .ok strings =>
      match encodeSection codec.encodeBlobs dictBlobsTypeId sections.blobs with
      | .error problem => .error problem
      | .ok blobs => .ok (strings ++ blobs)

def encodeRows : List (Nat × List Row) → Except CodecError (List SectionInput)
  | [] => .ok []
  | (typeId, rows) :: rest =>
    match encodeSection (codec.encode typeId) typeId rows with
    | .error problem => .error problem
    | .ok first =>
      match encodeRows rest with
      | .error problem => .error problem
      | .ok later => .ok (first ++ later)

/-- The bounds of the catalog; a part without timestamps has an empty interval. -/
def partBounds (ranges : List (Int64 × Int64)) : PartMeta :=
  match (ranges.map Prod.fst).min?, (ranges.map Prod.snd).max? with
  | some lo, some hi => { minTs := lo, maxTs := hi }
  | _, _ => { minTs := Int64.maxValue, maxTs := Int64.minValue }

variable {codec}

/-- The part of the buffered rows and the dictionary sections, if there is any. -/
def SectionBuffers.flush (buffers : SectionBuffers codec) (dict : List SectionInput) :
    Except CodecError (Option Bytes) :=
  match encodeRows codec buffers.byType with
  | .error problem => .error problem
  | .ok encoded =>
    if encoded.isEmpty && dict.isEmpty then .ok none
    else
      let populated := buffers.byType.filter fun entry => !entry.2.isEmpty
      .ok (some (buildPart crc32c (encoded ++ dict)
        (partBounds (populated.filterMap fun entry => codec.tsRange entry.1 entry.2))))

end Encode

/-! ## What a part holds -/

section Contents

variable (codec : SectionCodec Row) (crc32c : Checksum)

def partSections (body : Bytes) : List SectionInput :=
  match validatePart crc32c body with
  | .error _ => []
  | .ok catalog => sectionsOf body catalog.entries

def inputRows (input : SectionInput) : List Row :=
  if input.typeId = dictStringsTypeId ∨ input.typeId = dictBlobsTypeId then []
  else codec.decode input.typeId input.body

def inputRecords (input : SectionInput) : List UInt64 :=
  if input.typeId = dictStringsTypeId then (codec.decodeStrings input.body).map StringRow.strId
  else if input.typeId = dictBlobsTypeId then (codec.decodeBlobs input.body).map BlobRow.strId
  else []

def partRows (body : Bytes) : List Row := (partSections crc32c body).flatMap (inputRows codec)

def partRecords (body : Bytes) : List UInt64 :=
  (partSections crc32c body).flatMap (inputRecords codec)

end Contents

variable {codec : SectionCodec Row} {crc32c : Checksum}

variable {sections : List SectionInput} {R : Type}

theorem encodeSection_ok {encode : List R → Except CodecError Bytes} {rows : List R}
    (h : encodeSection encode typeId rows = .ok sections) :
    (rows = [] ∧ sections = []) ∨ ∃ body, rows ≠ [] ∧ encode rows = .ok body ∧
      sections = [{ typeId := typeId, rows := rows.length, body := body }] := by
  unfold encodeSection at h
  by_cases hempty : rows.isEmpty = true
  · rw [if_pos hempty] at h
    exact Or.inl ⟨List.isEmpty_iff.mp hempty, (Except.ok.inj h).symm⟩
  · rw [if_neg hempty] at h
    cases hbody : encode rows with
    | error problem =>
      rw [hbody] at h
      cases h
    | ok body =>
      rw [hbody] at h
      exact Or.inr ⟨body, fun hnil => hempty (List.isEmpty_iff.mpr hnil), rfl,
        (Except.ok.inj h).symm⟩

theorem widths_encodeSection {encode : List R → Except CodecError Bytes} {rows : List R}
    (h : encodeSection encode typeId rows = .ok sections) (htype : typeId < 2 ^ 32)
    (hrows : rows.length < 2 ^ 32) :
    ∀ input ∈ sections, input.typeId < 2 ^ 32 ∧ input.rows < 2 ^ 32 := by
  rcases encodeSection_ok h with ⟨-, rfl⟩ | ⟨body, -, -, rfl⟩
  · exact fun input hinput => absurd hinput List.not_mem_nil
  · exact fun input hinput => List.mem_singleton.mp hinput ▸ ⟨htype, hrows⟩

theorem flatMap_encodeSection {R S : Type} {encode : List R → Except CodecError Bytes}
    {rows : List R}
    (h : encodeSection encode typeId rows = .ok sections) {read : SectionInput → List S}
    {values : List S} (hnil : rows = [] → values = [])
    (hread : ∀ body, encode rows = .ok body →
      read { typeId := typeId, rows := rows.length, body := body } = values) :
    sections.flatMap read = values := by
  rcases encodeSection_ok h with ⟨hempty, rfl⟩ | ⟨body, -, hbody, rfl⟩
  · exact (hnil hempty).symm
  · rw [List.flatMap_singleton]
    exact hread body hbody

theorem encodeRows_ok {byType : List (Nat × List Row)}
    (typed : ∀ entry ∈ byType, entry.2.length ≤ sectionWriteBatchRows ∧
      ∀ row ∈ entry.2, codec.typeId row = entry.1)
    (h : encodeRows codec byType = .ok sections) :
    (sections.flatMap (inputRows codec)).Perm (byType.flatMap Prod.snd) ∧
      ∀ input ∈ sections, input.typeId < 2 ^ 32 ∧ input.rows < 2 ^ 32 := by
  induction byType generalizing sections with
  | nil =>
    rw [← Except.ok.inj h]
    exact ⟨List.Perm.refl _, fun input hinput => absurd hinput List.not_mem_nil⟩
  | cons entry rest ih =>
    obtain ⟨typeId, rows⟩ := entry
    obtain ⟨⟨hcap, htypes⟩, hrest⟩ := List.forall_mem_cons.mp typed
    rw [encodeRows] at h
    cases hfirst : encodeSection (codec.encode typeId) typeId rows with
    | error problem =>
      rw [hfirst] at h
      cases h
    | ok first =>
      cases hlater : encodeRows codec rest with
      | error problem =>
        rw [hfirst, hlater] at h
        cases h
      | ok later =>
        rw [hfirst, hlater] at h
        obtain ⟨hperm, hwidths⟩ := ih hrest hlater
        rw [← Except.ok.inj h, List.flatMap_append]
        rcases encodeSection_ok hfirst with ⟨rfl, rfl⟩ | ⟨body, hne, hbody, rfl⟩
        · exact ⟨hperm, hwidths⟩
        · obtain ⟨row, hrow⟩ := List.exists_mem_of_ne_nil rows hne
          have htype : codec.typeId row = typeId := htypes row hrow
          have hids := htype ▸ codec.typeId_ne row
          have hdata : ¬ (typeId = dictStringsTypeId ∨ typeId = dictBlobsTypeId) :=
            fun hor => hor.elim hids.1 hids.2
          rw [List.flatMap_singleton, inputRows, if_neg hdata]
          refine ⟨(codec.decode_encode hbody).append hperm,
            List.forall_mem_cons.mpr ⟨⟨htype ▸ codec.typeId_lt row, ?_⟩, hwidths⟩⟩
          show rows.length < 2 ^ 32
          have hbatch : sectionWriteBatchRows = 65536 := rfl
          have hrows : rows.length ≤ sectionWriteBatchRows := hcap
          omega

/-! ## The dictionary of a part -/

theorem records_of_sorted {entries : List EntrySnapshot} {rows : List R}
    {row : EntrySnapshot → R} (id : R → UInt64) (hid : ∀ entry, id (row entry) = entry.strId.raw)
    (h : (match checkDictRows entries.length with
      | .error problem => .error problem
      | .ok () => .ok ((sortById entries).map row) : Except CodecError (List R)) = .ok rows) :
    rows.length ≤ maxSectionRows ∧ ∀ entry ∈ entries, entry.strId.raw ∈ rows.map id := by
  unfold checkDictRows at h
  by_cases hmany : entries.length > maxSectionRows
  · rw [if_pos hmany] at h
    cases h
  · rw [if_neg hmany] at h
    have hperm : (sortById entries).Perm entries := List.perm_insertionSort _ entries
    rw [← Except.ok.inj h]
    refine ⟨?_, fun entry hentry => ?_⟩
    · rw [List.length_map, hperm.length_eq]
      omega
    · rw [List.map_map, ← hid entry]
      exact List.mem_map.mpr ⟨entry, hperm.mem_iff.mpr hentry, rfl⟩

theorem dictSections_ok {window : SegmentDicts} {dict : List SectionInput}
    (h : dictSections codec window = .ok dict) :
    dict.flatMap (inputRows codec) = [] ∧
      (∀ input ∈ dict, input.typeId < 2 ^ 32 ∧ input.rows < 2 ^ 32) ∧
      ∀ entry ∈ window.snapshots, entry.strId.raw ∈ dict.flatMap (inputRecords codec) := by
  unfold dictSections encode at h
  cases hstrings : encodeStrings (window.snapshots.filter
      fun entry => entry.placement = Placement.strings) with
  | error problem =>
    rw [hstrings] at h
    cases h
  | ok strings =>
    cases hblobs : encodeBlobs (window.snapshots.filter
        fun entry => entry.placement = Placement.blobs) with
    | error problem =>
      rw [hstrings, hblobs] at h
      cases h
    | ok blobs =>
      rw [hstrings, hblobs] at h
      dsimp only at h
      cases hleft : encodeSection codec.encodeStrings dictStringsTypeId strings with
      | error problem =>
        rw [hleft] at h
        cases h
      | ok left =>
        cases hright : encodeSection codec.encodeBlobs dictBlobsTypeId blobs with
        | error problem =>
          rw [hleft, hright] at h
          cases h
        | ok right =>
          rw [hleft, hright] at h
          obtain ⟨hmanyStrings, hstringIds⟩ :=
            records_of_sorted StringRow.strId (fun _ => rfl) hstrings
          obtain ⟨hmanyBlobs, hblobIds⟩ := records_of_sorted BlobRow.strId (fun _ => rfl) hblobs
          have hcap : maxSectionRows < 2 ^ 32 := by decide
          have hleftRows : left.flatMap (inputRows codec) = [] :=
            flatMap_encodeSection hleft (fun _ => rfl) fun body _ => if_pos (Or.inl rfl)
          have hrightRows : right.flatMap (inputRows codec) = [] :=
            flatMap_encodeSection hright (fun _ => rfl) fun body _ => if_pos (Or.inr rfl)
          have hleftIds : left.flatMap (inputRecords codec) = strings.map StringRow.strId :=
            flatMap_encodeSection hleft (fun hnil => by rw [hnil]; rfl) fun body hbody => by
              rw [← codec.decodeStrings_encode hbody]
              rfl
          have hrightIds : right.flatMap (inputRecords codec) = blobs.map BlobRow.strId :=
            flatMap_encodeSection hright (fun hnil => by rw [hnil]; rfl) fun body hbody => by
              rw [← codec.decodeBlobs_encode hbody]
              rfl
          rw [← Except.ok.inj h, List.flatMap_append, List.flatMap_append, hleftRows, hrightRows,
            hleftIds, hrightIds]
          refine ⟨rfl, fun input hinput => ?_, fun entry hentry => List.mem_append.mpr ?_⟩
          · rcases List.mem_append.mp hinput with hold | hnew
            · exact widths_encodeSection hleft (by decide) (by omega) input hold
            · exact widths_encodeSection hright (by decide) (by omega) input hnew
          · cases hplace : entry.placement with
            | strings =>
              exact Or.inl (hstringIds entry (List.mem_filter.mpr ⟨hentry, decide_eq_true hplace⟩))
            | blobs =>
              exact Or.inr (hblobIds entry (List.mem_filter.mpr ⟨hentry, decide_eq_true hplace⟩))

/-- A flush that writes a part has encoded the rows of the buffers. -/
theorem flush_eq_some {buffers : SectionBuffers codec} {dict : List SectionInput} {body : Bytes}
    (h : buffers.flush crc32c dict = .ok (some body)) :
    ∃ encoded, encodeRows codec buffers.byType = .ok encoded ∧
      body = buildPart crc32c (encoded ++ dict) (partBounds
        ((buffers.byType.filter fun entry => !entry.2.isEmpty).filterMap
          fun entry => codec.tsRange entry.1 entry.2)) := by
  unfold SectionBuffers.flush at h
  cases hrows : encodeRows codec buffers.byType with
  | error problem =>
    rw [hrows] at h
    cases h
  | ok encoded =>
    rw [hrows] at h
    dsimp only at h
    split at h
    · cases h
    · exact ⟨encoded, rfl, (Option.some.inj (Except.ok.inj h)).symm⟩

/-- An accepted part of a window holds the rows of its buffers, and a dictionary record
of every entry of the window. -/
theorem flush_contents {buffers : SectionBuffers codec} {window : SegmentDicts}
    {dict : List SectionInput} {body : Bytes} {catalog : Catalog}
    (hdict : dictSections codec window = .ok dict)
    (hflush : buffers.flush crc32c dict = .ok (some body))
    (hvalid : validatePart crc32c body = .ok catalog) (hshort : body.length < 2 ^ 32) :
    (partRows codec crc32c body).Perm buffers.rows ∧
      ∀ entry ∈ window.snapshots, entry.strId.raw ∈ partRecords codec crc32c body := by
  obtain ⟨hnoRows, hdictWidths, hrecords⟩ := dictSections_ok hdict
  obtain ⟨encoded, hrows, hbody⟩ := flush_eq_some hflush
  obtain ⟨hperm, hwidths⟩ := encodeRows_ok buffers.typed hrows
  have hsections : partSections crc32c body = encoded ++ dict := by
    rw [partSections, hvalid]
    subst hbody
    exact sectionsOf_accepted hvalid (List.forall_mem_append.mpr ⟨hwidths, hdictWidths⟩) hshort
  rw [partRows, partRecords, hsections, List.flatMap_append, List.flatMap_append, hnoRows,
    List.append_nil]
  exact ⟨hperm, fun entry hentry => List.mem_append_right _ (hrecords entry hentry)⟩

/-! ## A codec of concrete runs -/

def encodeSampleRow : List (Option StrId) → Except CodecError Bytes
  | [none] => .ok [0]
  | [some id] => .ok (1 :: leBytes 8 id.raw.toNat)
  | _ => .error .schemaMismatch

def decodeSampleRow : Bytes → List (Option StrId)
  | [] => []
  | first :: rest => [if first = 0 then none else StrId.fromRaw (UInt64.ofNat (leNat rest))]

def encodeSampleString : List StringRow → Except CodecError Bytes
  | [row] => .ok (leBytes 8 row.strId.toNat ++ row.bytes)
  | _ => .error .schemaMismatch

def decodeSampleString (body : Bytes) : List StringRow :=
  [{ strId := UInt64.ofNat (leNat (body.take 8)), bytes := body.drop 8 }]

/-- Sections of one row, and dictionaries of one string. -/
def sampleCodec : SectionCodec (Option StrId) where
  typeId _ := 1001001
  ids row := row.toList
  tsRange _ _ := some (1, 1)
  encode _ rows := encodeSampleRow rows
  decode _ body := decodeSampleRow body
  encodeStrings := encodeSampleString
  decodeStrings := decodeSampleString
  encodeBlobs _ := .error .schemaMismatch
  decodeBlobs _ := []
  typeId_lt _ := by decide
  typeId_ne _ := by decide
  decode_encode := by
    intro typeId rows body h
    match rows, h with
    | [none], h =>
      rw [← Except.ok.inj h]
      exact List.Perm.refl _
    | [some id], h =>
      rw [← Except.ok.inj h, decodeSampleRow, if_neg (by decide), leNat_u64 (UInt64.toNat_lt _),
        UInt64.ofNat_toNat, StrId.fromRaw_eq_some.mpr rfl]
  decodeStrings_encode := by
    intro rows body h
    match rows, h with
    | [row], h =>
      have hlen : (leBytes 8 row.strId.toNat).length = 8 := length_leBytes 8 _
      rw [← Except.ok.inj h, decodeSampleString, List.take_left' hlen, List.drop_left' hlen,
        leNat_u64 (UInt64.toNat_lt _), UInt64.ofNat_toNat]
  decodeBlobs_encode := by
    intro rows body h
    cases h

end Kronika.Writer
