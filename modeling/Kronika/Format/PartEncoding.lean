/-
Parts are encoded in one way.

`validatePart` accepts what `buildPart` assembles and gives the sections back, and
an accepted part of the current version is what `buildPart` assembles from the
sections its catalog describes.  Both directions go through `Laid`, the geometry
that the layout check fixes, and through the round trips of the blocks.
-/
import Kronika.Format.PartCodec

namespace Kronika.Format

open Library

variable {crc32c : Checksum}

/-! ## The order of the sections -/

namespace SectionOrder

@[simp] theorem data_before_strings (id : Nat) : (data id).before strings = true := rfl
@[simp] theorem data_before_blobs (id : Nat) : (data id).before blobs = true := rfl
@[simp] theorem strings_before_blobs : strings.before blobs = true := rfl

theorem before_irrefl (order : SectionOrder) : order.before order = false := by
  cases order <;> simp [before]

theorem before_asymm {a b : SectionOrder} (h : a.before b = true) : b.before a = false := by
  cases a <;> cases b <;> simp_all [before]
  omega

theorem before_trans {a b c : SectionOrder} (hab : a.before b = true) (hbc : b.before c = true) :
    a.before c = true := by
  cases a <;> cases b <;> cases c <;> simp_all [before]
  omega

theorem before_of_not {a b : SectionOrder} (hne : b ≠ a) (h : b.before a = false) :
    a.before b = true := by
  cases a <;> cases b <;> simp_all [before]
  omega

end SectionOrder

theorem validateOrder_ok {entry : Entry} {previous : Option SectionOrder} :
    validateOrder entry previous = .ok () ↔
      ∀ order ∈ previous, order.before (SectionOrder.ofTypeId entry.typeId) = true := by
  cases previous with
  | none => simp [validateOrder]
  | some order =>
    simp only [Option.mem_some_iff, forall_eq']
    rw [validateOrder]
    by_cases hsame : SectionOrder.ofTypeId entry.typeId = order
    · rw [hsame, SectionOrder.before_irrefl]
      simp
    · rw [if_neg hsame]
      by_cases hbefore : (SectionOrder.ofTypeId entry.typeId).before order = true
      · rw [if_pos hbefore, SectionOrder.before_asymm hbefore]
        simp
      · rw [if_neg hbefore]
        have hnot := Bool.eq_false_iff.mpr hbefore
        simp [SectionOrder.before_of_not hsame hnot]

/-! ## The geometry of the sections -/

/-- The bodies follow one another from `offset` to `catalogAt`, none of them empty. -/
def Laid (catalogAt : Nat) : Nat → List Entry → Prop
  | offset, [] => offset = catalogAt
  | offset, entry :: entries =>
    entry.flags = 0 ∧ entry.rows ≠ 0 ∧ entry.len ≠ 0 ∧ entry.len ≤ maxPhysicalSectionBytes ∧
      entry.offset = offset ∧ offset + entry.len < 2 ^ 64 ∧
      Laid catalogAt (offset + entry.len) entries

variable {entries : List Entry} {catalogAt offset : Nat}

theorem Laid.mem (h : Laid catalogAt offset entries) :
    offset ≤ catalogAt ∧
      ∀ entry ∈ entries, entry.len ≠ 0 ∧ entry.offset + entry.len ≤ catalogAt := by
  induction entries generalizing offset with
  | nil =>
    have heq : offset = catalogAt := h
    exact ⟨by omega, fun entry hentry => absurd hentry List.not_mem_nil⟩
  | cons entry entries ih =>
    obtain ⟨_, _, hlen, _, hoffset, _, htail⟩ := h
    obtain ⟨hle, hrest⟩ := ih htail
    exact ⟨by omega, List.forall_mem_cons.mpr ⟨⟨hlen, by omega⟩, hrest⟩⟩

variable {offset : Nat}

theorem validateEntry_ok {entry : Entry} :
    validateEntry entry offset = .ok () ↔ entry.flags = 0 ∧ entry.rows ≠ 0 ∧ entry.len ≠ 0 ∧
      entry.len ≤ maxPhysicalSectionBytes ∧ entry.offset = offset := by
  unfold validateEntry
  by_cases hflags : entry.flags = 0
  case neg => simp [hflags]
  by_cases hrows : entry.rows = 0
  case pos => simp [hflags, hrows]
  by_cases hlen : entry.len = 0
  case pos => simp [hflags, hrows, hlen]
  by_cases hcap : maxPhysicalSectionBytes < entry.len
  case pos => simp [hflags, hrows, hlen, hcap]
  have hle : entry.len ≤ maxPhysicalSectionBytes := by omega
  by_cases hoffset : entry.offset = offset
  case neg => simp [hflags, hrows, hlen, hcap, hoffset]
  simp [hflags, hrows, hlen, hcap, hle]

def orders (entries : List Entry) : List SectionOrder :=
  entries.map fun entry => SectionOrder.ofTypeId entry.typeId

theorem validateEntries_ok {previous : Option SectionOrder} :
    validateEntries catalogAt offset previous entries = .ok () ↔ Laid catalogAt offset entries ∧
      (previous.toList ++ orders entries).Pairwise (fun a b => a.before b = true) := by
  induction entries generalizing offset previous with
  | nil =>
    have hlast : (previous.toList ++ orders []).Pairwise (fun a b => a.before b = true) := by
      cases previous <;> simp [orders]
    by_cases hend : offset = catalogAt <;> simp [validateEntries, Laid, hlast]
  | cons entry entries ih =>
    rw [validateEntries]
    cases hentry : validateEntry entry offset with
    | error problem =>
      have hno : ¬ Laid catalogAt offset (entry :: entries) := by
        rintro ⟨hflags, hrows, hlen, hcap, hoffset, _⟩
        have hok := validateEntry_ok.mpr ⟨hflags, hrows, hlen, hcap, hoffset⟩
        rw [hentry] at hok
        cases hok
      simp [hno]
    | ok done =>
      obtain ⟨hflags, hrows, hlen, hcap, hoffset⟩ := validateEntry_ok.mp hentry
      cases horder : validateOrder entry previous with
      | error problem =>
        have hno : ¬ (previous.toList ++ orders (entry :: entries)).Pairwise
            (fun a b => a.before b = true) := by
          intro hpair
          have hall := (List.pairwise_append.mp hpair).2.2
          have hok : validateOrder entry previous = .ok () := validateOrder_ok.mpr
            fun order hmem => hall order (by simpa using hmem) _ List.mem_cons_self
          rw [horder] at hok
          cases hok
        simp [hno]
      | ok done =>
        have hbefore := validateOrder_ok.mp horder
        have hpair : (previous.toList ++ orders (entry :: entries)).Pairwise
              (fun a b => a.before b = true) ↔
            ((some (SectionOrder.ofTypeId entry.typeId)).toList ++ orders entries).Pairwise
              (fun a b => a.before b = true) := by
          rw [List.pairwise_append]
          constructor
          · exact fun h => h.2.1
          · intro h
            refine ⟨by cases previous <;> simp, h, fun order hmem later hlater => ?_⟩
            have hfirst := hbefore order (by simpa using hmem)
            rcases List.mem_cons.mp hlater with rfl | hrest
            · exact hfirst
            · exact SectionOrder.before_trans hfirst ((List.pairwise_cons.mp h).1 later hrest)
        rw [hpair]
        by_cases hover : 2 ^ 64 ≤ entry.offset + entry.len
        · rw [if_pos hover]
          have hno : ¬ Laid catalogAt offset (entry :: entries) := by
            rintro ⟨_, _, _, _, _, hlt, _⟩
            omega
          simp [hno]
        · rw [if_neg hover, ih, hoffset]
          have hlaid : Laid catalogAt offset (entry :: entries) ↔
              Laid catalogAt (offset + entry.len) entries := by
            constructor
            · exact fun h => h.2.2.2.2.2.2
            · exact fun h => ⟨hflags, hrows, hlen, hcap, hoffset, by omega, h⟩
          rw [hlaid]

/-! ## The sections a catalog describes -/

def sectionsOf (bytes : Bytes) (entries : List Entry) : List SectionInput :=
  entries.map fun entry =>
    { typeId := entry.typeId, rows := entry.rows
      body := slice bytes entry.offset (entry.offset + entry.len) }

def bodies (inputs : List SectionInput) : Bytes := (inputs.map SectionInput.body).flatten

theorem bodies_cons (input : SectionInput) (inputs : List SectionInput) :
    bodies (input :: inputs) = input.body ++ bodies inputs := by
  rw [bodies, List.map_cons, List.flatten_cons, ← bodies]

variable {bytes : Bytes}

theorem validateSections_ok :
    validateSections crc32c bytes entries = .ok () ↔ ∀ entry ∈ entries,
      (crc32c (slice bytes entry.offset (entry.offset + entry.len))).toNat = entry.crc32c := by
  induction entries with
  | nil => simp [validateSections]
  | cons entry entries ih =>
    rw [validateSections, List.forall_mem_cons]
    by_cases hcrc :
        (crc32c (slice bytes entry.offset (entry.offset + entry.len))).toNat = entry.crc32c
    · rw [if_neg (fun hne => hne hcrc), ih]
      exact ⟨fun h => ⟨hcrc, h⟩, fun h => h.2⟩
    · simp [hcrc]

theorem length_buildEntries (offset : Nat) (inputs : List SectionInput) :
    (buildEntries crc32c offset inputs).length = inputs.length := by
  induction inputs generalizing offset with
  | nil => rfl
  | cons input inputs ih => rw [buildEntries, List.length_cons, List.length_cons, ih]

/-- The assembled sections are found where their entries point, with the checksums
the entries hold. -/
theorem sectionsOf_buildEntries {front rest : Bytes} (inputs : List SectionInput)
    (h : front.length = offset) :
    sectionsOf (front ++ bodies inputs ++ rest) (buildEntries crc32c offset inputs) = inputs ∧
      validateSections crc32c (front ++ bodies inputs ++ rest)
        (buildEntries crc32c offset inputs) = .ok () := by
  rw [validateSections_ok]
  induction inputs generalizing front offset with
  | nil => exact ⟨rfl, fun entry hentry => absurd hentry List.not_mem_nil⟩
  | cons input inputs ih =>
    have hsplit : front ++ bodies (input :: inputs) ++ rest =
        (front ++ input.body) ++ bodies inputs ++ rest := by
      rw [bodies_cons]
      simp only [List.append_assoc]
    have hbody : slice (front ++ bodies (input :: inputs) ++ rest) offset
        (offset + input.body.length) = input.body := by
      have hright : slice (front ++ (input.body ++ (bodies inputs ++ rest))) (offset + 0)
          (offset + input.body.length) = _ := slice_append_right 0 input.body.length h
      rw [slice_append_left (Nat.le_refl _), slice_full (Nat.le_refl _)] at hright
      rw [bodies_cons, List.append_assoc, List.append_assoc]
      exact hright
    have hlen : (front ++ input.body).length = offset + input.body.length := by
      rw [List.length_append, h]
    obtain ⟨hsections, hsums⟩ := ih hlen
    rw [← hsplit] at hsections hsums
    rw [buildEntries]
    refine ⟨?_, List.forall_mem_cons.mpr ⟨?_, hsums⟩⟩
    · rw [sectionsOf, List.map_cons, ← sectionsOf, hsections, hbody]
    · rw [hbody]

theorem buildEntries_sectionsOf
    (hlaid : Laid catalogAt offset entries) (hend : catalogAt ≤ bytes.length)
    (hsums : validateSections crc32c bytes entries = .ok ()) :
    buildEntries crc32c offset (sectionsOf bytes entries) = entries ∧ offset ≤ catalogAt ∧
      bodies (sectionsOf bytes entries) = slice bytes offset catalogAt := by
  rw [validateSections_ok] at hsums
  induction entries generalizing offset with
  | nil =>
    have heq : offset = catalogAt := hlaid
    have hempty : slice bytes offset catalogAt = [] := by
      apply List.eq_nil_of_length_eq_zero
      rw [length_slice hend]
      omega
    rw [hempty]
    exact ⟨rfl, by omega, rfl⟩
  | cons entry entries ih =>
    obtain ⟨hflags, _, _, _, hoffset, _, htail⟩ := hlaid
    obtain ⟨hsum, hrest⟩ := List.forall_mem_cons.mp hsums
    obtain ⟨hentries, hle, hbodies⟩ := ih htail hrest
    have hlen : (slice bytes entry.offset (entry.offset + entry.len)).length = entry.len := by
      rw [length_slice (by omega)]
      omega
    rw [sectionsOf, List.map_cons, ← sectionsOf, buildEntries, bodies_cons]
    rw [hlen, hsum, hentries, hbodies, hoffset, slice_append_slice (by omega) hle]
    refine ⟨?_, by omega, rfl⟩
    rw [← hflags, ← hoffset]

/-! ## What can be encoded -/

/-- A section with a body and rows, in the widths of its fields and under the cap. -/
structure SectionInput.Sound (input : SectionInput) : Prop where
  typeId : input.typeId < 2 ^ 32
  rows : input.rows < 2 ^ 32
  rows_ne : input.rows ≠ 0
  body_ne : input.body ≠ []
  short : input.body.length ≤ maxPhysicalSectionBytes

/-- Strictly increasing data sections, then at most the strings dictionary, then at
most the blobs dictionary. -/
def CanonicalIds (ids : List Nat) : Prop :=
  ∃ data strings blobs : List Nat, ids = data ++ strings ++ blobs ∧ data.Pairwise (· < ·) ∧
    (∀ id ∈ data, id ≠ dictStringsTypeId ∧ id ≠ dictBlobsTypeId) ∧
    (strings = [] ∨ strings = [dictStringsTypeId]) ∧ (blobs = [] ∨ blobs = [dictBlobsTypeId])

structure Encodable (inputs : List SectionInput) : Prop where
  sound : ∀ input ∈ inputs, input.Sound
  order : CanonicalIds (inputs.map SectionInput.typeId)
  /-- The length of the catalog is one that the tail index can hold. -/
  short : inputs.length * entryLen + metaLen < 2 ^ 32

theorem ofTypeId_data {id : Nat} (h : id ≠ dictStringsTypeId ∧ id ≠ dictBlobsTypeId) :
    SectionOrder.ofTypeId id = .data id := by
  rw [SectionOrder.ofTypeId, if_neg h.1, if_neg h.2]

theorem ofTypeId_strings : SectionOrder.ofTypeId dictStringsTypeId = .strings := rfl
theorem ofTypeId_blobs : SectionOrder.ofTypeId dictBlobsTypeId = .blobs := rfl

variable {ids : List Nat}

theorem CanonicalIds.pairwise (h : CanonicalIds ids) :
    (ids.map SectionOrder.ofTypeId).Pairwise (fun a b => a.before b = true) := by
  obtain ⟨data, strings, blobs, rfl, hdata, hplain, hstrings, hblobs⟩ := h
  have hmap : data.map SectionOrder.ofTypeId = data.map SectionOrder.data :=
    List.map_congr_left fun id hid => ofTypeId_data (hplain id hid)
  have hsorted : (data.map SectionOrder.data).Pairwise (fun a b => a.before b = true) := by
    rw [List.pairwise_map]
    exact hdata.imp fun hlt => by simpa [SectionOrder.before] using hlt
  rw [List.map_append, List.map_append, hmap]
  rcases hstrings with rfl | rfl <;> rcases hblobs with rfl | rfl <;>
    simp [List.pairwise_append, hsorted, ofTypeId_strings, ofTypeId_blobs]

/-- Whatever stands after the strings dictionary is the blobs dictionary. -/
theorem eq_blobs_of_pairwise {order : SectionOrder}
    (h : (order :: ids.map SectionOrder.ofTypeId).Pairwise (fun a b => a.before b = true))
    (horder : order = .strings ∨ order = .blobs) :
    ids = [] ∨ order = .strings ∧ ids = [dictBlobsTypeId] := by
  have hid : ∀ id, SectionOrder.ofTypeId id = .blobs → id = dictBlobsTypeId := by
    intro id hid
    unfold SectionOrder.ofTypeId at hid
    split at hid
    · cases hid
    · split at hid
      · rename_i heq
        exact heq
      · cases hid
  have hafter : ∀ next, order.before next = true → order = .strings ∧ next = .blobs := by
    intro next hnext
    rcases horder with rfl | rfl <;> cases next <;> simp_all [SectionOrder.before]
  cases ids with
  | nil => exact Or.inl rfl
  | cons id ids =>
    rw [List.pairwise_cons] at h
    obtain ⟨hfirst, hrest⟩ := h
    obtain ⟨hstrings, hblobs⟩ := hafter _ (hfirst _ List.mem_cons_self)
    right
    refine ⟨hstrings, ?_⟩
    cases ids with
    | nil => rw [hid id hblobs]
    | cons later ids =>
      -- Nothing comes after the blobs dictionary.
      have hno := (List.pairwise_cons.mp hrest).1 _ (List.mem_map_of_mem List.mem_cons_self)
      rw [hblobs] at hno
      cases hno

theorem canonicalIds_of_pairwise
    (h : (ids.map SectionOrder.ofTypeId).Pairwise (fun a b => a.before b = true)) :
    CanonicalIds ids := by
  induction ids with
  | nil => exact ⟨[], [], [], rfl, List.Pairwise.nil, by simp, Or.inl rfl, Or.inl rfl⟩
  | cons id ids ih =>
    obtain ⟨hfirst, hrest⟩ := List.pairwise_cons.mp h
    by_cases hstrings : id = dictStringsTypeId
    · rw [hstrings] at h
      rw [hstrings]
      rcases eq_blobs_of_pairwise h (Or.inl rfl) with rfl | ⟨_, rfl⟩
      · exact ⟨[], [_], [], rfl, List.Pairwise.nil, by simp, Or.inr rfl, Or.inl rfl⟩
      · exact ⟨[], [_], [_], rfl, List.Pairwise.nil, by simp, Or.inr rfl, Or.inr rfl⟩
    by_cases hblobs : id = dictBlobsTypeId
    · rw [hblobs] at h
      rw [hblobs]
      rcases eq_blobs_of_pairwise h (Or.inr rfl) with rfl | ⟨hno, _⟩
      · exact ⟨[], [], [_], rfl, List.Pairwise.nil, by simp, Or.inl rfl, Or.inr rfl⟩
      · cases hno
    · obtain ⟨data, strings, blobs, rfl, hdata, hplain, hs, hb⟩ := ih hrest
      refine ⟨id :: data, strings, blobs, rfl, List.pairwise_cons.mpr ⟨?_, hdata⟩, ?_, hs, hb⟩
      · intro other hother
        have hbefore := hfirst (SectionOrder.ofTypeId other)
          (List.mem_map_of_mem (by simp [hother]))
        rw [ofTypeId_data ⟨hstrings, hblobs⟩, ofTypeId_data (hplain other hother)] at hbefore
        simpa [SectionOrder.before] using hbefore
      · exact List.forall_mem_cons.mpr ⟨⟨hstrings, hblobs⟩, hplain⟩

/-! ## The container -/

/-- The layout of the catalog fits bodies of `len` bytes. -/
def Catalog.Describes (catalog : Catalog) (len : Nat) : Prop :=
  catalog.Fits ∧ catalog.entries.length * entryLen + metaLen < 2 ^ 32 ∧
    validateCatalogLayout catalog (magic.length + len) = .ok ()

variable {catalog : Catalog}

theorem eq_encode_of_decodeAndBound (h : decodeAndBound crc32c bytes = .ok catalog) :
    ∃ body, bytes = magic ++ body ++ catalog.encode crc32c ∧
      catalog.Describes body.length := by
  have hmagic : magic.length = 4 := rfl
  unfold decodeAndBound at h
  split at h
  · cases h
  · rename_i hlong
    split at h
    · cases h
    · rename_i hfront
      dsimp only at h
      cases htail : TailIndex.decode (bytes.drop (bytes.length - tailIndexLen)) with
      | error problem => rw [htail] at h; cases h
      | ok tail =>
        rw [htail] at h
        dsimp only at h
        split at h
        · cases h
        · rename_i hroom
          cases hblock : Catalog.decode crc32c (slice bytes
            (bytes.length - tailIndexLen - tail.catalogLen) (bytes.length - tailIndexLen)) with
          | error problem => rw [hblock] at h; cases h
          | ok decoded =>
            rw [hblock] at h
            dsimp only at h
            cases hlayout : validateCatalogLayout decoded
              (bytes.length - tailIndexLen - tail.catalogLen) with
            | error problem => rw [hlayout] at h; cases h
            | ok done =>
              rw [hlayout] at h
              obtain rfl := Except.ok.inj h
              obtain ⟨heq, hfits⟩ := Catalog.block_of_decode hblock
              obtain ⟨htaileq, hsmall⟩ := TailIndex.encode_of_decode
                (by rw [List.length_drop]; omega) htail
              have hlen := Catalog.length_block crc32c decoded
              rw [heq, length_slice (by omega)] at hlen
              have hcatalogLen : tail.catalogLen =
                  decoded.entries.length * entryLen + metaLen := by omega
              have hbody : (slice bytes 4 (bytes.length - tailIndexLen - tail.catalogLen)).length =
                  bytes.length - tailIndexLen - tail.catalogLen - 4 := length_slice (by omega)
              refine ⟨slice bytes 4 (bytes.length - tailIndexLen - tail.catalogLen), ?_, hfits,
                by omega, ?_⟩
              · have hrest : bytes.drop (bytes.length - tailIndexLen) =
                    slice bytes (bytes.length - tailIndexLen) bytes.length := by
                  rw [slice, List.take_length]
                have hcopy : TailIndex.encode
                    { catalogLen := decoded.entries.length * entryLen + metaLen } =
                      tail.encode := by rw [← hcatalogLen]
                rw [Catalog.encode_eq, heq, hcopy, htaileq, ← not_not.mp hfront, hrest,
                  slice_append_slice (by omega) (by omega),
                  slice_append_slice (by omega) (by omega),
                  slice_append_slice (by omega) (by omega)]
                exact (slice_full (Nat.le_refl _)).symm
              · rw [hbody]
                rw [show magic.length + (bytes.length - tailIndexLen - tail.catalogLen - 4) =
                  bytes.length - tailIndexLen - tail.catalogLen from by omega]
                exact hlayout

section Container

variable (crc32c : Checksum) (body : Bytes) (catalog : Catalog)

theorem length_container : (magic ++ body ++ catalog.encode crc32c).length =
    magic.length + body.length + (catalog.block crc32c).length + tailIndexLen := by
  rw [Catalog.encode_eq, List.length_append, List.length_append, List.length_append,
    TailIndex.length_encode]
  omega

theorem slice_container_magic :
    slice (magic ++ body ++ catalog.encode crc32c) 0 magic.length = magic := by
  rw [List.append_assoc, slice_append_left (Nat.le_refl _)]
  exact slice_full (Nat.le_refl _)

theorem slice_container_block : slice (magic ++ body ++ catalog.encode crc32c)
    (magic.length + body.length)
    (magic.length + body.length + (catalog.block crc32c).length) = catalog.block crc32c := by
  have hright : slice (magic ++ body ++ catalog.encode crc32c)
      (magic.length + body.length + 0)
      (magic.length + body.length + (catalog.block crc32c).length) = _ :=
    slice_append_right 0 (catalog.block crc32c).length List.length_append
  rw [Nat.add_zero] at hright
  rw [hright, Catalog.encode_eq, slice_append_left (Nat.le_refl _)]
  exact slice_full (Nat.le_refl _)

theorem drop_container_tail : (magic ++ body ++ catalog.encode crc32c).drop
    (magic.length + body.length + (catalog.block crc32c).length) =
      TailIndex.encode { catalogLen := catalog.entries.length * entryLen + metaLen } := by
  rw [Catalog.encode_eq, ← List.append_assoc, ← List.length_append, ← List.length_append,
    List.drop_left]

end Container

theorem decodeAndBound_container {body : Bytes} (hfits : catalog.Fits)
    (hsmall : catalog.entries.length * entryLen + metaLen < 2 ^ 32) :
    decodeAndBound crc32c (magic ++ body ++ catalog.encode crc32c) =
      match validateCatalogLayout catalog (magic.length + body.length) with
      | .error problem => .error (.layout problem)
      | .ok () => .ok catalog := by
  have hmagic : magic.length = 4 := rfl
  have hmin : minPartLen = 44 := rfl
  have hmeta : metaLen = 32 := rfl
  have htailLen : tailIndexLen = 8 := rfl
  have hblock := Catalog.length_block crc32c catalog
  have hlen := length_container crc32c body catalog
  have hhead := slice_container_magic crc32c body catalog
  have hslice := slice_container_block crc32c body catalog
  have hdrop := drop_container_tail crc32c body catalog
  have hstart : magic.length + body.length + (catalog.block crc32c).length -
      (catalog.entries.length * entryLen + metaLen) = magic.length + body.length := by omega
  generalize magic ++ body ++ catalog.encode crc32c = bytes at *
  have hend : bytes.length - tailIndexLen =
      magic.length + body.length + (catalog.block crc32c).length := by omega
  rw [decodeAndBound, if_neg (by omega), if_neg (fun hne => hne hhead)]
  dsimp only
  rw [hend, hdrop, TailIndex.decode_encode hsmall]
  dsimp only
  -- The two sides match with different auxiliary functions, which `rfl` unfolds.
  rewrite [hstart, if_neg (by omega), hslice, Catalog.decode_block hfits]
  rfl

theorem decodeAndBound_encode {body : Bytes} (h : catalog.Describes body.length) :
    decodeAndBound crc32c (magic ++ body ++ catalog.encode crc32c) = .ok catalog := by
  obtain ⟨hfits, hsmall, hlayout⟩ := h
  rw [decodeAndBound_container hfits hsmall, hlayout]

theorem validatePart_ok :
    validatePart crc32c bytes = .ok catalog ↔ decodeAndBound crc32c bytes = .ok catalog ∧
      validateSections crc32c bytes catalog.entries = .ok () := by
  rw [validatePart]
  cases hdecode : decodeAndBound crc32c bytes with
  | error problem => simp
  | ok decoded =>
    dsimp only
    cases hsections : validateSections crc32c bytes decoded.entries with
    | error problem =>
      simp only [reduceCtorEq, Except.ok.injEq, false_iff, not_and]
      rintro rfl hvalid
      rw [hsections] at hvalid
      cases hvalid
    | ok done =>
      simp only [Except.ok.injEq]
      constructor
      · rintro rfl
        exact ⟨rfl, hsections⟩
      · exact fun h => h.1

/-! ## Assembled parts -/

/-- The catalog that `buildPart` writes. -/
def builtCatalog (crc32c : Checksum) (inputs : List SectionInput) (bounds : PartMeta) : Catalog :=
  { entries := buildEntries crc32c magic.length inputs, minTs := bounds.minTs
    maxTs := bounds.maxTs, formatVersion := formatVersion, windowCount := 1 }

theorem buildPart_eq (inputs : List SectionInput) (bounds : PartMeta) :
    buildPart crc32c inputs bounds =
      magic ++ bodies inputs ++ (builtCatalog crc32c inputs bounds).encode crc32c := rfl

theorem orders_buildEntries (offset : Nat) (inputs : List SectionInput) :
    orders (buildEntries crc32c offset inputs) =
      (inputs.map SectionInput.typeId).map SectionOrder.ofTypeId := by
  induction inputs generalizing offset with
  | nil => rfl
  | cons input inputs ih =>
    have htail := ih (offset + input.body.length)
    rw [orders] at htail
    rw [buildEntries, orders, List.map_cons, htail, List.map_cons, List.map_cons]

theorem orders_sectionsOf (bytes : Bytes) (entries : List Entry) :
    ((sectionsOf bytes entries).map SectionInput.typeId).map SectionOrder.ofTypeId =
      orders entries := by
  rw [sectionsOf, List.map_map, List.map_map]
  rfl

variable {inputs : List SectionInput}

theorem length_bodies_le (h : ∀ input ∈ inputs, input.Sound) :
    (bodies inputs).length ≤ inputs.length * maxPhysicalSectionBytes := by
  induction inputs with
  | nil => simp [bodies]
  | cons input inputs ih =>
    have hhead := (h input List.mem_cons_self).short
    have htail := ih fun other hother => h other (List.mem_cons_of_mem _ hother)
    rw [bodies_cons, List.length_append, List.length_cons, Nat.add_mul]
    omega

theorem laid_buildEntries
    (h : ∀ input ∈ inputs, input.Sound) (hend : offset + (bodies inputs).length < 2 ^ 64) :
    Laid (offset + (bodies inputs).length) offset (buildEntries crc32c offset inputs) ∧
      ∀ entry ∈ buildEntries crc32c offset inputs, entry.Fits := by
  induction inputs generalizing offset with
  | nil => exact ⟨rfl, fun entry hentry => absurd hentry List.not_mem_nil⟩
  | cons input inputs ih =>
    obtain ⟨htype, hrows, hrows_ne, hbody, hshort⟩ := h input List.mem_cons_self
    rw [bodies_cons, List.length_append] at hend ⊢
    have htail := ih (fun other hother => h other (List.mem_cons_of_mem _ hother))
      (show offset + input.body.length + (bodies inputs).length < 2 ^ 64 by omega)
    refine ⟨⟨rfl, hrows_ne, fun hzero => hbody (List.eq_nil_of_length_eq_zero hzero), hshort, rfl,
      by dsimp only; omega, ?_⟩, List.forall_mem_cons.mpr ⟨⟨htype, by dsimp only; omega,
        by dsimp only; omega, by dsimp only; omega, hrows, UInt32.toNat_lt _⟩, htail.2⟩⟩
    rw [← Nat.add_assoc]
    exact htail.1

theorem Encodable.describes (h : Encodable inputs)
    (hentries : catalog.entries = buildEntries crc32c magic.length inputs)
    (hversion : catalog.formatVersion < 2 ^ 32) (hwindow : catalog.windowCount < 2 ^ 32) :
    catalog.Describes (bodies inputs).length := by
  have hshort := h.short
  have hentryLen : entryLen = 32 := rfl
  have hmagic : magic.length = 4 := rfl
  have hcap : maxPhysicalSectionBytes = 2 ^ 30 := rfl
  have hbodies := length_bodies_le h.sound
  have hlen : catalog.entries.length = inputs.length := by
    rw [hentries, length_buildEntries]
  rw [hentryLen] at hshort
  rw [hcap] at hbodies
  have hlaid : Laid (magic.length + (bodies inputs).length) magic.length
      (buildEntries crc32c magic.length inputs) ∧ _ := laid_buildEntries h.sound (by omega)
  rw [← hentries] at hlaid
  refine ⟨⟨hlaid.2, hversion, hwindow, by omega⟩, by rw [hlen]; exact hshort, ?_⟩
  rw [validateCatalogLayout, validateEntries_ok]
  refine ⟨hlaid.1, ?_⟩
  rw [hentries, orders_buildEntries]
  exact h.order.pairwise

theorem fits_buildEntries
    (h : ∀ input ∈ inputs, input.typeId < 2 ^ 32 ∧ input.rows < 2 ^ 32)
    (hend : offset + (bodies inputs).length < 2 ^ 64) :
    ∀ entry ∈ buildEntries crc32c offset inputs, entry.Fits := by
  induction inputs generalizing offset with
  | nil => exact fun entry hentry => absurd hentry List.not_mem_nil
  | cons input inputs ih =>
    obtain ⟨⟨htype, hrows⟩, hrest⟩ := List.forall_mem_cons.mp h
    rw [bodies_cons, List.length_append] at hend
    refine List.forall_mem_cons.mpr ⟨⟨htype, by dsimp only; omega, by dsimp only; omega,
      by dsimp only; omega, hrows, UInt32.toNat_lt _⟩, ?_⟩
    exact ih hrest (by omega)

theorem catalog_of_accepted {bounds : PartMeta}
    (h : validatePart crc32c (buildPart crc32c inputs bounds) = .ok catalog)
    (hwidths : ∀ input ∈ inputs, input.typeId < 2 ^ 32 ∧ input.rows < 2 ^ 32)
    (hshort : (buildPart crc32c inputs bounds).length < 2 ^ 32) :
    catalog = builtCatalog crc32c inputs bounds := by
  have hentryLen : entryLen = 32 := rfl
  have hone : (1 : Nat) < 2 ^ 32 := by decide
  have hlen := length_container crc32c (bodies inputs) (builtCatalog crc32c inputs bounds)
  have hblock := Catalog.length_block crc32c (builtCatalog crc32c inputs bounds)
  rw [← buildPart_eq] at hlen
  rw [hentryLen] at hblock
  have hfits : (builtCatalog crc32c inputs bounds).Fits :=
    ⟨fits_buildEntries hwidths (by omega), hone, hone, by omega⟩
  have hdecode := (validatePart_ok.mp h).1
  rw [buildPart_eq, decodeAndBound_container hfits (by rw [hentryLen]; omega)] at hdecode
  split at hdecode
  · cases hdecode
  · exact (Except.ok.inj hdecode).symm

theorem sectionsOf_accepted {bounds : PartMeta}
    (h : validatePart crc32c (buildPart crc32c inputs bounds) = .ok catalog)
    (hwidths : ∀ input ∈ inputs, input.typeId < 2 ^ 32 ∧ input.rows < 2 ^ 32)
    (hshort : (buildPart crc32c inputs bounds).length < 2 ^ 32) :
    sectionsOf (buildPart crc32c inputs bounds) catalog.entries = inputs := by
  rw [catalog_of_accepted h hwidths hshort]
  exact (sectionsOf_buildEntries inputs rfl).1

theorem sound_of_laid (hlaid : Laid catalogAt offset entries) (hle : catalogAt ≤ bytes.length)
    (hfits : ∀ entry ∈ entries, entry.Fits) :
    offset ≤ catalogAt ∧ ∀ input ∈ sectionsOf bytes entries, input.Sound := by
  induction entries generalizing offset with
  | nil =>
    have heq : offset = catalogAt := hlaid
    exact ⟨by omega, fun input hinput => absurd hinput List.not_mem_nil⟩
  | cons entry entries ih =>
    obtain ⟨_, hrows, hlen, hcap, hoffset, _, htail⟩ := hlaid
    obtain ⟨hfirst, hrest⟩ := List.forall_mem_cons.mp hfits
    obtain ⟨hstart, hsound⟩ := ih htail hrest
    have hbody : (slice bytes entry.offset (entry.offset + entry.len)).length = entry.len := by
      rw [length_slice (by omega)]
      omega
    have hne : slice bytes entry.offset (entry.offset + entry.len) ≠ [] := by
      intro hnil
      rw [hnil] at hbody
      exact hlen hbody.symm
    exact ⟨by omega, List.forall_mem_cons.mpr
      ⟨⟨hfirst.typeId, hfirst.rows, hrows, hne, by rw [hbody]; exact hcap⟩, hsound⟩⟩

/-- Encoding and validation of a part agree: what is assembled is accepted and gives
its sections back, and what is accepted is what its own sections assemble to. -/
theorem part_encoding_agrees (crc32c : Checksum) :
    (∀ inputs bounds, Encodable inputs → ∃ catalog,
      validatePart crc32c (buildPart crc32c inputs bounds) = .ok catalog ∧
        sectionsOf (buildPart crc32c inputs bounds) catalog.entries = inputs ∧
        catalog.minTs = bounds.minTs ∧ catalog.maxTs = bounds.maxTs) ∧
    ∀ bytes catalog, validatePart crc32c bytes = .ok catalog → catalog.formatVersion = 1 →
      catalog.windowCount = 1 → Encodable (sectionsOf bytes catalog.entries) ∧
        bytes = buildPart crc32c (sectionsOf bytes catalog.entries)
          { minTs := catalog.minTs, maxTs := catalog.maxTs } := by
  constructor
  · intro inputs bounds h
    have hparts : sectionsOf (magic ++ bodies inputs ++
        (builtCatalog crc32c inputs bounds).encode crc32c)
          (buildEntries crc32c magic.length inputs) = inputs ∧ _ :=
      sectionsOf_buildEntries inputs rfl
    refine ⟨builtCatalog crc32c inputs bounds, ?_, hparts.1, rfl, rfl⟩
    rw [validatePart_ok]
    have hone : (1 : Nat) < 2 ^ 32 := by decide
    exact ⟨decodeAndBound_encode (h.describes rfl hone hone), hparts.2⟩
  · intro bytes catalog hvalid hversion hwindow
    obtain ⟨hdecode, hsums⟩ := validatePart_ok.mp hvalid
    obtain ⟨body, hbytes, hfits, hsmall, hlayout⟩ := eq_encode_of_decodeAndBound hdecode
    rw [validateCatalogLayout, validateEntries_ok] at hlayout
    obtain ⟨hlaid, horder⟩ := hlayout
    have hle : magic.length + body.length ≤ bytes.length := by
      rw [hbytes, List.length_append, List.length_append]
      omega
    obtain ⟨hentries, _, hbodies⟩ := buildEntries_sectionsOf hlaid hle hsums
    have hbody : slice bytes magic.length (magic.length + body.length) = body := by
      have hright : slice (magic ++ (body ++ catalog.encode crc32c)) (magic.length + 0)
          (magic.length + body.length) = _ := slice_append_right 0 body.length rfl
      rw [← List.append_assoc, ← hbytes, Nat.add_zero] at hright
      rw [hright, slice_append_left (Nat.le_refl _)]
      exact slice_full (Nat.le_refl _)
    refine ⟨⟨(sound_of_laid hlaid hle hfits.entries).2, ?_, ?_⟩, ?_⟩
    · apply canonicalIds_of_pairwise
      rw [orders_sectionsOf]
      exact horder
    · rw [sectionsOf, List.length_map]
      exact hsmall
    · have hcatalog : builtCatalog crc32c (sectionsOf bytes catalog.entries)
          { minTs := catalog.minTs, maxTs := catalog.maxTs } = catalog := by
        rw [builtCatalog, hentries]
        cases catalog with
        | mk entries minTs maxTs version window =>
          dsimp only at hversion hwindow
          rw [hversion, hwindow]
          rfl
      rw [buildPart_eq, hcatalog, hbodies, hbody]
      exact hbytes

/-- Rows of two types and both dictionaries. -/
def sampleInputs : List SectionInput :=
  [{ typeId := 1001001, rows := 1, body := [7] }, { typeId := 1001002, rows := 3, body := [8, 9] },
    { typeId := dictStringsTypeId, rows := 2, body := [1, 2] },
    { typeId := dictBlobsTypeId, rows := 1, body := [3] }]

theorem encodable_sample : Encodable sampleInputs where
  sound := by
    simp only [sampleInputs, List.forall_mem_cons]
    refine ⟨?_, ?_, ?_, ?_, fun input hinput => absurd hinput List.not_mem_nil⟩ <;>
      exact ⟨by decide, by decide, by decide, by decide, by decide⟩
  order := ⟨[1001001, 1001002], [_], [_], rfl, by decide, by decide, Or.inr rfl, Or.inr rfl⟩
  short := by decide

def builtSample : Bytes := buildPart castagnoli sampleInputs ⟨-5, 1⟩

theorem part_encoding_agrees_sample :
    ∃ catalog, validatePart castagnoli builtSample = .ok catalog ∧
      sectionsOf builtSample catalog.entries = sampleInputs ∧
      catalog.minTs = -5 ∧ catalog.maxTs = 1 ∧
      Encodable (sectionsOf builtSample catalog.entries) ∧
      builtSample = buildPart castagnoli (sectionsOf builtSample catalog.entries)
        { minTs := catalog.minTs, maxTs := catalog.maxTs } := by
  obtain ⟨hbuilt, hback⟩ := part_encoding_agrees castagnoli
  obtain ⟨catalog, hvalid, hsections, hmin, hmax⟩ := hbuilt sampleInputs ⟨-5, 1⟩ encodable_sample
  have hversions : (validatePart castagnoli builtSample).toOption.map
      (fun catalog => (catalog.formatVersion, catalog.windowCount)) = some (1, 1) := by
    decide +kernel
  rw [builtSample, hvalid] at hversions
  obtain ⟨hversion, hwindow⟩ := Prod.mk.inj (Option.some.inj hversions)
  exact ⟨catalog, hvalid, hsections, hmin, hmax, hback _ _ hvalid hversion hwindow⟩

end Kronika.Format
