/-
A finished segment is canonical and lossless.

The writer sorts the sections of a plan and moves their bodies from the spool to
the file; the reader insists on the canonical order and geometry.  What the writer
leaves is a container of the planned sections, so every reader of the container
accepts it, and each entry leads back to the bytes of the spool.
-/
import Kronika.Format.PartEncoding
import Kronika.Store.Zms
import Kronika.Writer.Segment

namespace Kronika
variable {entries : List Entry}

namespace Store

open Format Library

variable {crc32c : Checksum} {body : Bytes} {catalog : Catalog}

/-! ## The reader on a container -/

theorem readEncodedCatalog_encode {budget : Option MetadataBudget}
    (h : catalog.Describes body.length)
    (hcap : catalog.entries.length * entryLen + metaLen ≤ maxCatalogBytes)
    (hbudget : checkBudget (catalog.entries.length * entryLen + metaLen) budget = .ok ()) :
    readEncodedCatalog (magic ++ body ++ catalog.encode crc32c) budget =
      .ok { bytes := catalog.block crc32c, bodyEnd := magic.length + body.length } := by
  obtain ⟨_, hsmall, _⟩ := h
  have hblock := Catalog.length_block crc32c catalog
  have hlen := length_container crc32c body catalog
  have hslice := slice_container_block crc32c body catalog
  have hdrop := drop_container_tail crc32c body catalog
  generalize magic ++ body ++ catalog.encode crc32c = bytes at *
  have hend : bytes.length - tailIndexLen =
      magic.length + body.length + (catalog.block crc32c).length := by omega
  have hstart : magic.length + body.length + (catalog.block crc32c).length -
      (catalog.entries.length * entryLen + metaLen) = magic.length + body.length := by omega
  have htail : readExactAt bytes (bytes.length - tailIndexLen) tailIndexLen =
      some (TailIndex.encode
        { catalogLen := catalog.entries.length * entryLen + metaLen }) := by
    rw [readExactAt, if_pos (by omega), ← hdrop, hend, slice, List.take_of_length_le (by omega)]
  have hread : readExactAt bytes (magic.length + body.length)
      (catalog.entries.length * entryLen + metaLen) = some (catalog.block crc32c) := by
    rw [readExactAt, if_pos (by omega), ← hblock, hslice]
  rw [readEncodedCatalog, if_neg (by omega)]
  dsimp only
  rw [htail]
  dsimp only
  rw [TailIndex.decode_encode hsmall]
  dsimp only
  rw [if_neg (by omega), hend, hstart, if_neg (by omega), hbudget]
  rw [hread]

theorem verifyMagic_encode : verifyMagic (magic ++ body ++ catalog.encode crc32c) = .ok () := by
  have hlen := length_container crc32c body catalog
  have hread : readExactAt (magic ++ body ++ catalog.encode crc32c) 0 magic.length =
      some magic := by
    rw [readExactAt, if_pos (by omega), Nat.zero_add, slice_container_magic]
  rw [verifyMagic, hread]
  dsimp only
  rw [if_pos rfl]

theorem checkFormat_of_describes (h : catalog.Describes body.length)
    (hversion : catalog.formatVersion = formatVersion) :
    checkFormat catalog (magic.length + body.length) = .ok () := by
  rw [checkFormat, if_neg (fun hne => hne hversion), h.2.2]

theorem readCatalog_encode (h : catalog.Describes body.length)
    (hcap : catalog.entries.length * entryLen + metaLen ≤ maxCatalogBytes)
    (hversion : catalog.formatVersion = formatVersion) :
    readCatalog crc32c (magic ++ body ++ catalog.encode crc32c) = .ok catalog := by
  rw [readCatalog, readEncodedCatalog_encode h hcap rfl]
  dsimp only
  rw [Catalog.decode_block h.1]
  dsimp only
  rw [verifyMagic_encode]
  rw [checkFormat_of_describes h hversion]

theorem validateSectionChecksums_ok {reader : Bytes} (hlen : ∀ entry ∈ entries, entry.len ≠ 0)
    (hroom : ∀ entry ∈ entries, entry.offset + entry.len ≤ reader.length)
    (h : validateSections crc32c reader entries = .ok ()) :
    validateSectionChecksums crc32c reader entries = .ok () := by
  rw [validateSections_ok] at h
  induction entries with
  | nil => rfl
  | cons entry entries ih =>
    obtain ⟨hsum, hsums⟩ := List.forall_mem_cons.mp h
    obtain ⟨hne, hnes⟩ := List.forall_mem_cons.mp hlen
    obtain ⟨hfits, hfit⟩ := List.forall_mem_cons.mp hroom
    rw [validateSectionChecksums, readChunks_eq _ _ _ _ hne, readExactAt, if_pos hfits]
    dsimp only
    rw [if_neg (fun hbad => hbad hsum)]
    exact ih hnes hfit hsums

theorem readZmsSummary_encode {retained limit : Nat} (h : catalog.Describes body.length)
    (hcap : catalog.entries.length * entryLen + metaLen ≤ maxCatalogBytes)
    (hversion : catalog.formatVersion = formatVersion)
    (hlimit : retained + (catalog.entries.length * entryLen + metaLen) +
      catalog.entries.length * entryAllocation ≤ limit)
    (hsums : validateSectionChecksums crc32c (magic ++ body ++ catalog.encode crc32c)
      catalog.entries = .ok ()) :
    readZmsSummary crc32c (magic ++ body ++ catalog.encode crc32c) retained limit .complete =
      .ok (catalog, catalog.entries.length * entryLen + metaLen) := by
  have hbudget : checkBudget (catalog.entries.length * entryLen + metaLen)
      (some (retained, limit)) = .ok () := by
    rw [checkBudget, if_neg (by omega)]
  rw [readZmsSummary, readEncodedCatalog_encode h hcap hbudget]
  dsimp only
  rw [verifyMagic_encode]
  rw [Catalog.decode_block h.1]
  dsimp only
  rw [Catalog.length_block, if_neg (by omega), checkFormat_of_describes h hversion]
  rw [hsums]

end Store

namespace Writer

open Format Library
open Registry (maxSectionRows maxSectionBytes)

variable {crc32c : Checksum} {spool : Bytes}

/-! ## The writer -/

def FinishedSection.Spooled (crc32c : Checksum) (spool : Bytes) (described : FinishedSection) :
    Prop :=
  described.offset + described.len ≤ spool.length ∧
    crc32c (slice spool described.offset (described.offset + described.len)) = described.crc32c

instance (described : FinishedSection) : Decidable (described.Spooled crc32c spool) :=
  inferInstanceAs (Decidable (_ ∧ _))

def FinishedSection.input (spool : Bytes) (described : FinishedSection) : SectionInput :=
  { typeId := described.typeId, rows := described.rows
    body := slice spool described.offset (described.offset + described.len) }

theorem copySpooledSection_eq (crc32c : Checksum) (spool : Bytes) (described : FinishedSection) :
    if described.Spooled crc32c spool then
      copySpooledSection crc32c spool described = .ok (described.input spool).body
    else ∃ problem, copySpooledSection crc32c spool described = .error problem := by
  rw [copySpooledSection, readChunks_eq _ _ _ _ described.len_ne, readExactAt]
  by_cases hroom : described.offset + described.len ≤ spool.length
  · rw [if_pos hroom]
    dsimp only
    by_cases hcrc : crc32c (slice spool described.offset (described.offset + described.len)) =
        described.crc32c
    · rw [if_pos ⟨hroom, hcrc⟩, if_neg (fun hne => hne hcrc)]
      rfl
    · rw [if_neg (fun h => hcrc h.2), if_pos hcrc]
      exact ⟨_, rfl⟩
  · rw [if_neg (fun h => hroom h.1), if_neg hroom]
    exact ⟨_, rfl⟩

variable {described : FinishedSection}

theorem length_input (h : described.Spooled crc32c spool) :
    (described.input spool).body.length = described.len := by
  rw [FinishedSection.input, length_slice h.1]
  omega

theorem input_sound (h : described.Spooled crc32c spool) : (described.input spool).Sound := by
  have hlen := length_input h
  have hrows := described.rows_le
  have hlenle := described.len_le
  have hmax : maxSectionRows = 2 ^ 32 - 1 := rfl
  have hbytes : maxSectionBytes = maxPhysicalSectionBytes := rfl
  have htype : described.typeId < 2 ^ 32 := by
    have hstrings : dictStringsTypeId = 3001001 := rfl
    have hblobs : dictBlobsTypeId = 3002001 := rfl
    rcases described.known with hdata | heq | heq
    · have hlt := Registry.lt_of_mem_registry _ (Registry.contract_isSome.mp hdata)
      omega
    · omega
    · omega
  refine ⟨htype, show described.rows < 2 ^ 32 by omega, described.rows_ne, fun hnil => ?_, ?_⟩
  · rw [hnil] at hlen
    exact described.len_ne hlen.symm
  · omega

variable {sections : List FinishedSection}

theorem canonicalIds_of_sorted (h : sections.Pairwise fun a b => a.typeId < b.typeId) :
    CanonicalIds (sections.map FinishedSection.typeId) := by
  apply canonicalIds_of_pairwise
  rw [List.map_map, List.pairwise_map]
  refine h.imp fun {a b} hlt => ?_
  have hstrings : dictStringsTypeId = 3001001 := rfl
  have hblobs : dictBlobsTypeId = 3002001 := rfl
  have hkind : ∀ described : FinishedSection,
      described.typeId < dictStringsTypeId ∧
        SectionOrder.ofTypeId described.typeId = .data described.typeId ∨
      described.typeId = dictStringsTypeId ∨ described.typeId = dictBlobsTypeId := by
    intro described
    rcases described.known with hdata | hdict
    · have hlow := Registry.lt_of_mem_registry _ (Registry.contract_isSome.mp hdata)
      exact Or.inl ⟨hlow, ofTypeId_data ⟨by omega, by omega⟩⟩
    · exact Or.inr hdict
  simp only [Function.comp_apply]
  rcases hkind a with ⟨halow, ha⟩ | ha | ha
  · rcases hkind b with ⟨_, hb⟩ | hb | hb
    · rw [ha, hb]
      simpa [SectionOrder.before] using hlt
    · rw [ha, hb]
      rfl
    · rw [ha, hb]
      rfl
  · rcases hkind b with ⟨hblow, _⟩ | hb | hb
    · omega
    · omega
    · rw [ha, hb]
      rfl
  · rcases hkind b with ⟨hblow, _⟩ | hb | hb
    · omega
    · omega
    · omega

theorem pushSectionEntry_ok {offset : Nat}
    (hlast : ∀ entry ∈ entries, entry.typeId < described.typeId)
    (hcount : entries.length + 1 ≤ maxCatalogEntries) (hoffset : offset + described.len < 2 ^ 64) :
    pushSectionEntry entries offset described =
      .ok (entries ++ [{ typeId := described.typeId, flags := 0, offset := offset
                         len := described.len, rows := described.rows
                         crc32c := described.crc32c.toNat }], offset + described.len) := by
  have hmax : maxCatalogEntries < 2 ^ 64 := by decide
  have hnone : (entries.getLast?.any fun entry => decide (entry.typeId ≥ described.typeId)) =
      false := by
    cases hget : entries.getLast? with
    | none => rfl
    | some entry =>
      have hlt := hlast entry (List.mem_of_getLast? hget)
      simpa using hlt
  rw [pushSectionEntry, hnone, if_neg (by decide), checkedCatalogEntries, if_neg (by omega),
    if_neg (by omega)]
  rw [if_neg (by omega)]

theorem writeSections_of_spooled (out : Bytes) {entries : List Entry} {offset : Nat}
    (hspooled : ∀ described ∈ sections, described.Spooled crc32c spool)
    (hsorted : sections.Pairwise fun a b => a.typeId < b.typeId)
    (hlast : ∀ entry ∈ entries, ∀ described ∈ sections, entry.typeId < described.typeId)
    (hcount : entries.length + sections.length ≤ maxCatalogEntries)
    (hoffset : offset + sections.length * maxSectionBytes < 2 ^ 64) :
    writeSections crc32c spool sections out entries offset =
      .ok (out ++ bodies (sections.map (FinishedSection.input spool)),
        entries ++ buildEntries crc32c offset (sections.map (FinishedSection.input spool)),
        offset + (bodies (sections.map (FinishedSection.input spool))).length) := by
  induction sections generalizing out entries offset with
  | nil => simp [writeSections, bodies, buildEntries]
  | cons described sections ih =>
    obtain ⟨hhead, htail⟩ := List.forall_mem_cons.mp hspooled
    obtain ⟨hfirst, hrest⟩ := List.pairwise_cons.mp hsorted
    have hlenle := described.len_le
    have hbody := length_input hhead
    rw [List.length_cons, Nat.add_mul] at hoffset
    rw [List.length_cons] at hcount
    have hcopy := copySpooledSection_eq crc32c spool described
    rw [if_pos hhead] at hcopy
    have hpush := pushSectionEntry_ok
      (fun entry hentry => hlast entry hentry described List.mem_cons_self)
      (show entries.length + 1 ≤ maxCatalogEntries by omega)
      (show offset + described.len < 2 ^ 64 by omega)
    rw [writeSections, hcopy]
    rw [hpush]
    dsimp only
    rw [ih _ htail hrest ?_ ?_ ?_]
    · rw [List.map_cons, bodies_cons, buildEntries, List.append_assoc, List.append_assoc,
        List.length_append, hbody, Nat.add_assoc]
      have hcrc : (crc32c (described.input spool).body).toNat = described.crc32c.toNat :=
        congrArg UInt32.toNat hhead.2
      rw [hcrc]
      rfl
    · intro entry hentry later hlater
      rcases List.mem_append.mp hentry with hold | hnew
      · exact hlast entry hold later (List.mem_cons_of_mem _ hlater)
      · rw [List.mem_singleton.mp hnew]
        exact hfirst later hlater
    · rw [List.length_append, List.length_singleton]
      omega
    · omega

theorem spooled_of_writeSections {out : Bytes} {offset : Nat} {written : Bytes × List Entry × Nat}
    (h : writeSections crc32c spool sections out entries offset = .ok written) :
    ∀ described ∈ sections, described.Spooled crc32c spool := by
  induction sections generalizing out entries offset with
  | nil => exact fun described hmem => absurd hmem List.not_mem_nil
  | cons described sections ih =>
    have hcopy := copySpooledSection_eq crc32c spool described
    rw [writeSections] at h
    by_cases hhead : described.Spooled crc32c spool
    · rw [if_pos hhead] at hcopy
      rw [hcopy] at h
      cases hpush : pushSectionEntry entries offset described with
      | error problem =>
        rw [hpush] at h
        cases h
      | ok pushed =>
        rw [hpush] at h
        exact List.forall_mem_cons.mpr ⟨hhead, ih h⟩
    · rw [if_neg hhead] at hcopy
      obtain ⟨problem, hcopy⟩ := hcopy
      rw [hcopy] at h
      cases h

/-! ## The segment -/

def finishedCatalog (crc32c : Checksum) (spool : Bytes) (plan : FinishedZmsPlan) : Catalog :=
  { entries := buildEntries crc32c magic.length (plan.sections.map (FinishedSection.input spool))
    minTs := plan.minTs, maxTs := plan.maxTs, formatVersion := formatVersion
    windowCount := plan.windowCount.toNat }

theorem length_finishedCatalog (crc32c : Checksum) (spool : Bytes) (plan : FinishedZmsPlan) :
    (finishedCatalog crc32c spool plan).entries.length = plan.sections.length := by
  rw [finishedCatalog, length_buildEntries, List.length_map]

theorem plan_short (plan : FinishedZmsPlan) :
    plan.sections.length * entryLen + metaLen ≤ Store.maxCatalogBytes := by
  have hshort := plan.short
  have hmax : maxCatalogEntries = 2097151 := rfl
  have hentry : entryLen = 32 := rfl
  have hmeta : metaLen = 32 := rfl
  have hcap : Store.maxCatalogBytes = 67108864 := rfl
  rw [hentry]
  omega

variable {plan : FinishedZmsPlan}

theorem plan_encodable (h : ∀ described ∈ plan.sections, described.Spooled crc32c spool) :
    Encodable (plan.sections.map (FinishedSection.input spool)) where
  sound := by
    intro input hinput
    obtain ⟨described, hmem, rfl⟩ := List.mem_map.mp hinput
    exact input_sound (h described hmem)
  order := by
    rw [List.map_map]
    exact canonicalIds_of_sorted plan.sorted
  short := by
    have hcap : Store.maxCatalogBytes < 2 ^ 32 := by decide
    have hshort := plan_short plan
    rw [List.length_map]
    omega

theorem writeFinishedZms_of_spooled
    (h : ∀ described ∈ plan.sections, described.Spooled crc32c spool) :
    ∃ summary, writeFinishedZms crc32c spool plan = .ok (summary,
      magic ++ bodies (plan.sections.map (FinishedSection.input spool)) ++
        (finishedCatalog crc32c spool plan).encode crc32c) := by
  have hshort := plan.short
  have hmax : maxCatalogEntries = 2097151 := rfl
  have hbytes : maxSectionBytes = 1073741824 := rfl
  have hmagic : magic.length = 4 := rfl
  have hbound : plan.sections.length * maxSectionBytes ≤ 2097151 * 1073741824 :=
    Nat.mul_le_mul (by omega) (by omega)
  have hcatalog := plan_short plan
  have hcap : Store.maxCatalogBytes = 67108864 := rfl
  have htail : tailIndexLen = 8 := rfl
  have hentries : (buildEntries crc32c magic.length
      (plan.sections.map (FinishedSection.input spool))).length = plan.sections.length := by
    rw [length_buildEntries, List.length_map]
  have hlen := length_bodies_le (plan_encodable h).sound
  have hsame : maxPhysicalSectionBytes = maxSectionBytes := rfl
  rw [List.length_map, hsame] at hlen
  have hloop := writeSections_of_spooled magic h plan.sorted
    (fun entry hentry => absurd hentry List.not_mem_nil)
    (show [].length + plan.sections.length ≤ maxCatalogEntries by
      rw [List.length_nil]
      omega)
    (show magic.length + plan.sections.length * maxSectionBytes < 2 ^ 64 by omega)
  rw [writeFinishedZms, hloop, List.nil_append]
  dsimp only
  rw [hentries, if_neg (by omega), Catalog.writeEncoded]
  rw [hentries, if_neg (by omega)]
  exact ⟨_, rfl⟩

theorem spooled_of_writeFinishedZms {written : WriteSummary × Bytes}
    (h : writeFinishedZms crc32c spool plan = .ok written) :
    ∀ described ∈ plan.sections, described.Spooled crc32c spool := by
  unfold writeFinishedZms at h
  cases hloop : writeSections crc32c spool plan.sections magic [] magic.length with
  | error problem =>
    rw [hloop] at h
    cases h
  | ok loop => exact spooled_of_writeSections hloop

/-- What a reader finds in a segment: for each entry its type, rows, checksum and the
bytes of its range. -/
def sectionRows (bytes : Bytes) (catalog : Catalog) : List (Nat × Nat × Nat × Bytes) :=
  catalog.entries.map fun entry => (entry.typeId, entry.rows, entry.crc32c,
    slice bytes entry.offset (entry.offset + entry.len))

/-- What was planned: for each section the same, with its body in the spool. -/
def plannedRows (spool : Bytes) (sections : List FinishedSection) :
    List (Nat × Nat × Nat × Bytes) :=
  sections.map fun described => (described.typeId, described.rows, described.crc32c.toNat,
    slice spool described.offset (described.offset + described.len))

theorem sectionRows_eq {bytes : Bytes} {catalog : Catalog}
    (hsums : validateSections crc32c bytes catalog.entries = .ok ()) :
    sectionRows bytes catalog = (sectionsOf bytes catalog.entries).map fun input =>
      (input.typeId, input.rows, (crc32c input.body).toNat, input.body) := by
  rw [validateSections_ok] at hsums
  rw [sectionsOf, List.map_map]
  refine List.map_congr_left fun entry hentry => ?_
  simp only [Function.comp_apply, hsums entry hentry]

theorem plannedRows_eq (h : ∀ described ∈ sections, described.Spooled crc32c spool) :
    plannedRows spool sections = (sections.map (FinishedSection.input spool)).map fun input =>
      (input.typeId, input.rows, (crc32c input.body).toNat, input.body) := by
  rw [List.map_map]
  refine List.map_congr_left fun described hmem => ?_
  simp only [Function.comp_apply, FinishedSection.input, (h described hmem).2]

theorem plan_of_new {minTs maxTs : Int64} {windowCount : UInt32}
    (h : FinishedZmsPlan.new sections minTs maxTs windowCount = .ok plan) :
    plan.sections.Perm sections ∧ plan.minTs = minTs ∧ plan.maxTs = maxTs ∧
      plan.windowCount = windowCount := by
  unfold FinishedZmsPlan.new at h
  split at h
  · cases h
  · split at h
    · cases h
    · split at h
      · cases h
      · rw [← Except.ok.inj h]
        exact ⟨sortByType_perm sections, rfl, rfl, rfl⟩

/-- A plan is written exactly when the spool holds its bodies, and every segment written
for it is accepted by the reader and gives back exactly the planned sections. -/
theorem finishedZms_lossless (crc32c : Checksum) {spool : Bytes}
    {sections : List FinishedSection} {minTs maxTs : Int64} {windowCount : UInt32}
    {plan : FinishedZmsPlan}
    (hplan : FinishedZmsPlan.new sections minTs maxTs windowCount = .ok plan) :
    ((∃ written, writeFinishedZms crc32c spool plan = .ok written) ↔
        ∀ described ∈ sections, described.Spooled crc32c spool) ∧
      ∀ summary bytes, writeFinishedZms crc32c spool plan = .ok (summary, bytes) →
        ∃ catalog, Store.readCatalog crc32c bytes = .ok catalog ∧
          (∃ catalogLen, Store.readZmsSummary crc32c bytes 0 Store.hardMaxMetadataBytes
            .complete = .ok (catalog, catalogLen)) ∧
          (catalog.entries.map Entry.typeId).Nodup ∧
          (sectionRows bytes catalog).Perm (plannedRows spool sections) ∧
          catalog.minTs = minTs ∧ catalog.maxTs = maxTs ∧
          catalog.windowCount = windowCount.toNat := by
  obtain ⟨hperm, hmin, hmax, hwindow⟩ := plan_of_new hplan
  constructor
  · constructor
    · rintro ⟨written, hwritten⟩ described hmem
      exact spooled_of_writeFinishedZms hwritten described (hperm.mem_iff.mpr hmem)
    · intro hspooled
      obtain ⟨summary, hwritten⟩ := writeFinishedZms_of_spooled
        fun described hmem => hspooled described (hperm.mem_iff.mp hmem)
      exact ⟨_, hwritten⟩
  · intro summary bytes hwritten
    have hspooled := spooled_of_writeFinishedZms hwritten
    obtain ⟨summary', heq⟩ := writeFinishedZms_of_spooled hspooled
    rw [hwritten] at heq
    obtain ⟨rfl, rfl⟩ := Prod.mk.inj (Except.ok.inj heq)
    have hone : formatVersion < 2 ^ 32 := by decide
    have hdescribes : (finishedCatalog crc32c spool plan).Describes _ :=
      (plan_encodable hspooled).describes rfl hone (UInt32.toNat_lt _)
    have hshort := plan_short plan
    rw [← length_finishedCatalog crc32c spool plan] at hshort
    have hparts : sectionsOf (magic ++ bodies (plan.sections.map (FinishedSection.input spool)) ++
        (finishedCatalog crc32c spool plan).encode crc32c)
          (finishedCatalog crc32c spool plan).entries =
            plan.sections.map (FinishedSection.input spool) ∧ _ :=
      sectionsOf_buildEntries _ rfl
    obtain ⟨hsections, hsums⟩ := hparts
    refine ⟨finishedCatalog crc32c spool plan, Store.readCatalog_encode hdescribes hshort rfl,
      ⟨_, Store.readZmsSummary_encode hdescribes hshort rfl ?_ ?_⟩, ?_, ?_, hmin, hmax, ?_⟩
    · have hlimit : Store.hardMaxMetadataBytes = 2 * Store.maxCatalogBytes := rfl
      have hentry : entryLen = Store.entryAllocation := rfl
      rw [hentry] at hshort ⊢
      omega
    · have hlayout := hdescribes.2.2
      rw [validateCatalogLayout, validateEntries_ok] at hlayout
      have hmem := hlayout.1.mem.2
      have hlen := length_container crc32c
        (bodies (plan.sections.map (FinishedSection.input spool)))
        (finishedCatalog crc32c spool plan)
      exact Store.validateSectionChecksums_ok (fun entry hentry => (hmem entry hentry).1)
        (fun entry hentry => Nat.le_trans (hmem entry hentry).2 (by omega)) hsums
    · have htypes : (finishedCatalog crc32c spool plan).entries.map Entry.typeId =
          plan.sections.map FinishedSection.typeId := by
        have hmap := congrArg (List.map SectionInput.typeId) hsections
        rw [sectionsOf, List.map_map, List.map_map] at hmap
        exact hmap
      rw [htypes, List.Nodup, List.pairwise_map]
      exact plan.sorted.imp fun hlt => Nat.ne_of_lt hlt
    · rw [sectionRows_eq hsums, hsections, ← plannedRows_eq hspooled]
      exact hperm.map _
    · rw [← hwindow]
      rfl

/-! ## A segment with one data section and its strings, spooled in the other order -/

def sampleSections : List FinishedSection :=
  [{ typeId := 3001001, rows := 1, offset := 0, len := 1, crc32c := castagnoli [7]
     known := by decide, rows_ne := by decide, rows_le := by decide, len_ne := by decide
     len_le := by decide, end_lt := by decide },
   { typeId := 1001001, rows := 2, offset := 1, len := 1, crc32c := castagnoli [9]
     known := by decide, rows_ne := by decide, rows_le := by decide, len_ne := by decide
     len_le := by decide, end_lt := by decide }]

def samplePlan : FinishedZmsPlan :=
  { sections := sampleSections.reverse, minTs := 1, maxTs := 2, windowCount := 1
    ordered := by decide, short := by decide, sorted := by decide }

theorem samplePlan_new : FinishedZmsPlan.new sampleSections 1 2 1 = .ok samplePlan := rfl

theorem finishedZms_lossless_sample : ∃ summary bytes,
    writeFinishedZms castagnoli [7, 9] samplePlan = .ok (summary, bytes) ∧
      ∃ catalog, Store.readCatalog castagnoli bytes = .ok catalog ∧
        (sectionRows bytes catalog).Perm (plannedRows [7, 9] sampleSections) := by
  have hspooled : ∀ described ∈ sampleSections, described.Spooled castagnoli [7, 9] := by
    decide +kernel
  obtain ⟨hwrites, hreads⟩ := finishedZms_lossless castagnoli samplePlan_new
  obtain ⟨⟨summary, bytes⟩, hwritten⟩ := hwrites.mpr hspooled
  obtain ⟨catalog, hread, _, _, hrows, _⟩ := hreads summary bytes hwritten
  exact ⟨summary, bytes, hwritten, catalog, hread, hrows⟩

end Writer
end Kronika
