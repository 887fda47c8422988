/-
Round trips of the fixed-width blocks of a part: entries, catalog and tail index.

Every block is reproduced by encoding what it decodes to, so a decoder that
accepts a block has fixed each of its bytes.
-/
import Kronika.Format.Crc

namespace Kronika.Format

open Library

variable {bytes : Bytes} {offset : Nat}

theorem leBytes_u32At (h : offset + 4 ≤ bytes.length) :
    leBytes 4 (u32At bytes offset) = slice bytes offset (offset + 4) := by
  have hlen : (slice bytes offset (offset + 4)).length = 4 := by
    rw [length_slice h]
    omega
  have heq := leBytes_leNat (slice bytes offset (offset + 4))
  rwa [hlen] at heq

theorem leBytes_u64At (h : offset + 8 ≤ bytes.length) :
    leBytes 8 (u64At bytes offset) = slice bytes offset (offset + 8) := by
  have hlen : (slice bytes offset (offset + 8)).length = 8 := by
    rw [length_slice h]
    omega
  have heq := leBytes_leNat (slice bytes offset (offset + 8))
  rwa [hlen] at heq

theorem i64Bytes_i64At (h : offset + 8 ≤ bytes.length) :
    i64Bytes (i64At bytes offset) = slice bytes offset (offset + 8) := by
  refine i64Bytes_decodeI64 ?_
  rw [length_slice h]
  omega

theorem u32At_lt (bytes : Bytes) (offset : Nat) : u32At bytes offset < 2 ^ 32 := by
  have hlt := leNat_lt (slice bytes offset (offset + 4))
  have hlen : (slice bytes offset (offset + 4)).length ≤ 4 := by
    rw [slice, List.length_drop, List.length_take]
    omega
  exact lt_of_lt_of_le hlt (Nat.pow_le_pow_right (by omega) hlen)

theorem u64At_lt (bytes : Bytes) (offset : Nat) : u64At bytes offset < 2 ^ 64 := by
  have hlt := leNat_lt (slice bytes offset (offset + 8))
  have hlen : (slice bytes offset (offset + 8)).length ≤ 8 := by
    rw [slice, List.length_drop, List.length_take]
    omega
  exact lt_of_lt_of_le hlt (Nat.pow_le_pow_right (by omega) hlen)

/-! ## Entries -/

/-- The fields are numbers of the width they are stored in. -/
structure Entry.Fits (entry : Entry) : Prop where
  typeId : entry.typeId < 2 ^ 32
  flags : entry.flags < 2 ^ 32
  offset : entry.offset < 2 ^ 64
  len : entry.len < 2 ^ 64
  rows : entry.rows < 2 ^ 32
  crc : entry.crc32c < 2 ^ 32

theorem length_encodeEntry (entry : Entry) : (encodeEntry entry).length = entryLen := by
  rfl

theorem decodeEntry_encodeEntry {entry : Entry} (h : entry.Fits) :
    decodeEntry (encodeEntry entry) = entry := by
  have htype : u32At (encodeEntry entry) 0 = leNat (leBytes 4 entry.typeId) := rfl
  have hflags : u32At (encodeEntry entry) 4 = leNat (leBytes 4 entry.flags) := rfl
  have hoffset : u64At (encodeEntry entry) 8 = leNat (leBytes 8 entry.offset) := rfl
  have hlen : u64At (encodeEntry entry) 16 = leNat (leBytes 8 entry.len) := rfl
  have hrows : u32At (encodeEntry entry) 24 = leNat (leBytes 4 entry.rows) := rfl
  have hcrc : u32At (encodeEntry entry) 28 = leNat (leBytes 4 entry.crc32c) := rfl
  rw [decodeEntry, htype, hflags, hoffset, hlen, hrows, hcrc, leNat_u32 h.typeId,
    leNat_u32 h.flags, leNat_u64 h.offset, leNat_u64 h.len, leNat_u32 h.rows, leNat_u32 h.crc]

theorem encodeEntry_decodeEntry (h : bytes.length = entryLen) :
    encodeEntry (decodeEntry bytes) = bytes := by
  have h32 : bytes.length = 32 := h
  simp only [encodeEntry, decodeEntry]
  rw [leBytes_u32At (by omega), leBytes_u32At (by omega), leBytes_u64At (by omega),
    leBytes_u64At (by omega), leBytes_u32At (by omega), leBytes_u32At (by omega),
    slice_append_slice (by omega) (by omega), slice_append_slice (by omega) (by omega),
    slice_append_slice (by omega) (by omega), slice_append_slice (by omega) (by omega),
    slice_append_slice (by omega) (by omega)]
  exact slice_full (by omega)

theorem decodeEntry_fits (bytes : Bytes) : (decodeEntry bytes).Fits where
  typeId := u32At_lt bytes 0
  flags := u32At_lt bytes 4
  offset := u64At_lt bytes 8
  len := u64At_lt bytes 16
  rows := u32At_lt bytes 24
  crc := u32At_lt bytes 28

def encodeEntries (entries : List Entry) : Bytes := (entries.map encodeEntry).flatten

theorem encodeEntries_cons (entry : Entry) (entries : List Entry) :
    encodeEntries (entry :: entries) = encodeEntry entry ++ encodeEntries entries := by
  rw [encodeEntries, List.map_cons, List.flatten_cons, ← encodeEntries]

theorem length_encodeEntries (entries : List Entry) :
    (encodeEntries entries).length = entries.length * entryLen := by
  induction entries with
  | nil => simp [encodeEntries]
  | cons entry entries ih =>
    rw [encodeEntries_cons, List.length_append, length_encodeEntry, List.length_cons, Nat.add_mul]
    omega

theorem decodeEntries_encodeEntries {entries : List Entry} (h : ∀ entry ∈ entries, entry.Fits)
    (rest : Bytes) : decodeEntries entries.length (encodeEntries entries ++ rest) = entries := by
  induction entries with
  | nil => rfl
  | cons entry entries ih =>
    have hlen := length_encodeEntry entry
    have htail := ih fun other hother => h other (List.mem_cons_of_mem _ hother)
    rw [List.length_cons, decodeEntries, encodeEntries_cons, List.append_assoc, ← hlen,
      List.take_left, List.drop_left, decodeEntry_encodeEntry (h entry List.mem_cons_self), htail]

@[simp] theorem length_decodeEntries (count : Nat) (bytes : Bytes) :
    (decodeEntries count bytes).length = count := by
  induction count generalizing bytes with
  | zero => rfl
  | succ count ih => rw [decodeEntries, List.length_cons, ih]

theorem encodeEntries_decodeEntries {count : Nat} (h : count * entryLen ≤ bytes.length) :
    encodeEntries (decodeEntries count bytes) = bytes.take (count * entryLen) := by
  induction count generalizing bytes with
  | zero => simp [decodeEntries, encodeEntries]
  | succ count ih =>
    have hmul : (count + 1) * entryLen = entryLen + count * entryLen := by
      rw [Nat.add_mul]
      omega
    have htake : (bytes.take entryLen).length = entryLen := by
      rw [List.length_take]
      omega
    have hdrop : count * entryLen ≤ (bytes.drop entryLen).length := by
      rw [List.length_drop]
      omega
    rw [decodeEntries, encodeEntries_cons, encodeEntry_decodeEntry htake, ih hdrop, hmul,
      List.take_add]

theorem decodeEntries_fits {count : Nat} : ∀ entry ∈ decodeEntries count bytes, entry.Fits := by
  induction count generalizing bytes with
  | zero =>
    intro entry hentry
    exact absurd hentry List.not_mem_nil
  | succ count ih =>
    intro entry hentry
    rcases List.mem_cons.mp hentry with rfl | hrest
    · exact decodeEntry_fits _
    · exact ih entry hrest

/-! ## The catalog -/

namespace Catalog

/-- The fields are numbers of the width they are stored in, and the length of the
catalog is one that the tail index can hold. -/
structure Fits (catalog : Catalog) : Prop where
  entries : ∀ entry ∈ catalog.entries, entry.Fits
  formatVersion : catalog.formatVersion < 2 ^ 32
  windowCount : catalog.windowCount < 2 ^ 32
  count : catalog.entries.length < 2 ^ 32

def checksum (crc32c : Checksum) (catalog : Catalog) : UInt32 :=
  crc32c (encodeEntries catalog.entries ++ encodeMeta catalog (leBytes 4 0))

def block (crc32c : Checksum) (catalog : Catalog) : Bytes :=
  encodeEntries catalog.entries ++
    encodeMeta catalog (leBytes 4 (catalog.checksum crc32c).toNat)

variable {crc32c : Checksum} {catalog : Catalog}

theorem encode_eq (crc32c : Checksum) (catalog : Catalog) :
    catalog.encode crc32c = catalog.block crc32c ++
      TailIndex.encode { catalogLen := catalog.entries.length * entryLen + metaLen } := rfl

theorem length_encodeMeta {crc : Bytes} (h : crc.length = 4) :
    (encodeMeta catalog crc).length = metaLen := by
  simp only [encodeMeta, List.length_append, h]
  rfl

theorem length_block (crc32c : Checksum) (catalog : Catalog) :
    (catalog.block crc32c).length = catalog.entries.length * entryLen + metaLen := by
  rw [block, List.length_append, length_encodeEntries, length_encodeMeta (length_leBytes 4 _)]

theorem zeroed_block {xs crc : Bytes} {n : Nat} (hxs : xs.length = n) (hcrc : crc.length = 4) :
    crc32cWithZeroedField crc32c (xs ++ encodeMeta catalog crc) (n + metaCrcOffset) =
      crc32c (xs ++ encodeMeta catalog (leBytes 4 0)) := by
  obtain ⟨head, tail, hhead, hsplit⟩ : ∃ head tail : Bytes, head.length = metaCrcOffset ∧
      ∀ field, encodeMeta catalog field = head ++ (field ++ tail) := by
    refine ⟨i64Bytes catalog.minTs ++ i64Bytes catalog.maxTs ++
      leBytes 4 catalog.entries.length ++ leBytes 4 catalog.formatVersion,
      leBytes 4 catalog.windowCount, ?_, fun field => ?_⟩
    · rfl
    · simp only [encodeMeta, List.append_assoc]
  have hat : (xs ++ head).length = n + metaCrcOffset := by rw [List.length_append, hxs, hhead]
  have hzero : leBytes 4 0 = [0, 0, 0, 0] := rfl
  rw [crc32cWithZeroedField, hsplit, hsplit, ← List.append_assoc, ← hat, List.take_left,
    List.drop_append, List.drop_of_length_le (by omega), List.nil_append, Nat.add_sub_cancel_left,
    ← hcrc, List.drop_left, ← List.append_assoc, hcrc, hzero, List.append_assoc]

theorem decode_block (h : catalog.Fits) : decode crc32c (catalog.block crc32c) = .ok catalog := by
  have hlen := length_block crc32c catalog
  have hmeta : (catalog.block crc32c).drop (catalog.entries.length * entryLen) =
      encodeMeta catalog (leBytes 4 (catalog.checksum crc32c).toNat) := by
    rw [block, ← length_encodeEntries, List.drop_left]
  have hcount : u32At (encodeMeta catalog (leBytes 4 (catalog.checksum crc32c).toNat)) 16 =
      leNat (leBytes 4 catalog.entries.length) := rfl
  have hversion : u32At (encodeMeta catalog (leBytes 4 (catalog.checksum crc32c).toNat)) 20 =
      leNat (leBytes 4 catalog.formatVersion) := rfl
  have hcrc : u32At (encodeMeta catalog (leBytes 4 (catalog.checksum crc32c).toNat))
      metaCrcOffset = leNat (leBytes 4 (catalog.checksum crc32c).toNat) := rfl
  have hwindow : u32At (encodeMeta catalog (leBytes 4 (catalog.checksum crc32c).toNat)) 28 =
      leNat (leBytes 4 catalog.windowCount) := rfl
  have hmin : i64At (encodeMeta catalog (leBytes 4 (catalog.checksum crc32c).toNat)) 0 =
      decodeI64 (i64Bytes catalog.minTs) := rfl
  have hmax : i64At (encodeMeta catalog (leBytes 4 (catalog.checksum crc32c).toNat)) 8 =
      decodeI64 (i64Bytes catalog.maxTs) := rfl
  have hsum : crc32cWithZeroedField crc32c (catalog.block crc32c)
      (catalog.entries.length * entryLen + metaCrcOffset) = catalog.checksum crc32c :=
    zeroed_block (length_encodeEntries _) (length_leBytes 4 _)
  have hentries : decodeEntries catalog.entries.length (catalog.block crc32c) =
      catalog.entries := decodeEntries_encodeEntries h.entries _
  have hsmall := h.count
  have hmod : catalog.entries.length * entryLen % entryLen = 0 := Nat.mul_mod_left _ _
  have hdiv : catalog.entries.length * entryLen / entryLen = catalog.entries.length :=
    Nat.mul_div_cancel _ (by decide)
  rw [decode, hlen, Nat.add_sub_cancel, hdiv, if_neg (by omega), if_neg (by omega)]
  dsimp only
  rw [hmeta, hcount, leNat_u32 hsmall, if_neg (fun hne => hne rfl), hcrc, hsum,
    leNat_u32 (UInt32.toNat_lt _), if_neg (fun hne => hne rfl), hentries, hversion, hwindow, hmin,
    hmax, leNat_u32 h.formatVersion, leNat_u32 h.windowCount, decodeI64_i64Bytes,
    decodeI64_i64Bytes]

theorem encodeMeta_of_slices (entries : List Entry)
    (h : bytes.length = metaLen) (hcount : u32At bytes 16 = entries.length) :
    encodeMeta { entries := entries, minTs := i64At bytes 0, maxTs := i64At bytes 8
                 formatVersion := u32At bytes 20, windowCount := u32At bytes 28 }
      (leBytes 4 (u32At bytes metaCrcOffset)) = bytes := by
  have h32 : bytes.length = 32 := h
  have hoffset : metaCrcOffset = 24 := rfl
  simp only [encodeMeta, hoffset, ← hcount]
  rw [i64Bytes_i64At (by omega), i64Bytes_i64At (by omega), leBytes_u32At (by omega),
    leBytes_u32At (by omega), leBytes_u32At (by omega), leBytes_u32At (by omega),
    slice_append_slice (by omega) (by omega), slice_append_slice (by omega) (by omega),
    slice_append_slice (by omega) (by omega), slice_append_slice (by omega) (by omega),
    slice_append_slice (by omega) (by omega)]
  exact slice_full (by omega)

theorem block_of_decode (h : decode crc32c bytes = .ok catalog) :
    catalog.block crc32c = bytes ∧ catalog.Fits := by
  unfold decode at h
  split at h
  · cases h
  · rename_i hshape
    split at h
    · cases h
    · rename_i hsmall
      dsimp only at h
      split at h
      · cases h
      · rename_i hcount
        split at h
        · cases h
        · rename_i hcrc
          have hcatalog := Except.ok.inj h
          have hmul : (bytes.length - metaLen) / entryLen * entryLen = bytes.length - metaLen :=
            Nat.div_mul_cancel (Nat.dvd_of_mod_eq_zero (by omega))
          generalize hderived : (bytes.length - metaLen) / entryLen = derived at *
          have htail : (bytes.drop (bytes.length - metaLen)).length = metaLen := by
            rw [List.length_drop]
            omega
          have hmeta := encodeMeta_of_slices (decodeEntries derived bytes) htail
            (by rw [length_decodeEntries]; exact not_not.mp hcount)
          rw [hcatalog] at hmeta
          have hentries : encodeEntries catalog.entries = bytes.take (bytes.length - metaLen) := by
            rw [← hcatalog, encodeEntries_decodeEntries (by omega), hmul]
          have hlen : (encodeEntries catalog.entries).length = bytes.length - metaLen := by
            rw [hentries, List.length_take]
            omega
          have hwhole : encodeEntries catalog.entries ++ encodeMeta catalog
              (leBytes 4 (u32At (bytes.drop (bytes.length - metaLen)) metaCrcOffset)) = bytes := by
            rw [hmeta, hentries, List.take_append_drop]
          have hsum : u32At (bytes.drop (bytes.length - metaLen)) metaCrcOffset =
              (catalog.checksum crc32c).toNat := by
            have hzeroed : crc32cWithZeroedField crc32c (encodeEntries catalog.entries ++
                encodeMeta catalog (leBytes 4 (u32At (bytes.drop (bytes.length - metaLen))
                  metaCrcOffset))) _ = _ := zeroed_block hlen (length_leBytes 4 _)
            rw [hwhole] at hzeroed
            rw [not_not.mp hcrc, hzeroed]
            rfl
          refine ⟨by rw [block, ← hsum, hwhole], ?_, ?_, ?_, ?_⟩
          · rw [← hcatalog]
            exact decodeEntries_fits
          · rw [← hcatalog]
            exact u32At_lt _ _
          · rw [← hcatalog]
            exact u32At_lt _ _
          · rw [← hcatalog]
            rw [length_decodeEntries]
            omega

end Catalog

/-! ## The tail index -/

namespace TailIndex

theorem length_encode (tail : TailIndex) : tail.encode.length = tailIndexLen := by
  rfl

theorem decode_encode {tail : TailIndex} (h : tail.catalogLen < 2 ^ 32) :
    decode tail.encode = .ok tail := by
  have hlen : u32At tail.encode 0 = leNat (leBytes 4 tail.catalogLen) := rfl
  rw [decode, if_neg (fun hne => hne rfl), hlen, leNat_u32 h]

theorem encode_of_decode {tail : TailIndex} (hlen : bytes.length = tailIndexLen)
    (h : decode bytes = .ok tail) : tail.encode = bytes ∧ tail.catalogLen < 2 ^ 32 := by
  have h8 : bytes.length = 8 := hlen
  unfold decode at h
  split at h
  · cases h
  · rename_i hmagic
    rw [← Except.ok.inj h]
    refine ⟨?_, u32At_lt bytes 0⟩
    rw [encode, leBytes_u32At (by omega), ← not_not.mp hmagic,
      slice_append_slice (by omega) (by omega)]
    exact slice_full (by omega)

end TailIndex

end Kronika.Format
