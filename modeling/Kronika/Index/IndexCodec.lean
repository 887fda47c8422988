/-
Round trips of a whole index file, and its targeted decoder.

`encodeBlocks_of_read` is the step from bytes to value and back: the table is
rebuilt byte for byte, and the bodies are exactly when no transaction block hides a
negative zero.
-/
import Kronika.Format.Crc
import Kronika.Index.File
import Kronika.Index.SeriesCodec

namespace Kronika.Index

open Format Library

/-! ## Table entries -/

theorem SeriesKind.fromRaw_raw (kind : SeriesKind) : fromRaw kind.raw = .ok kind := by
  cases kind <;> rfl

variable {kind : SeriesKind}

theorem SeriesKind.raw_of_fromRaw {value : UInt32}
    (h : fromRaw value = .ok kind) : kind.raw = value := by
  unfold fromRaw at h
  split_ifs at h with h1 h2 h3 h4 h5 h6 h7 <;> cases h <;> symm <;> assumption

/-- The entry that stands at the front of `raw`. -/
def TocEntry.parsed (kind : SeriesKind) (raw : Bytes) : TocEntry :=
  { key := { kind := kind, typeId := u32Of (slice raw 4 8) }
    offset := (u32Of (slice raw 8 12)).toNat, len := (u32Of (slice raw 12 16)).toNat }

variable {raw : Bytes}

theorem TocEntry.encode_parsed
    (hlen : entryLen ≤ raw.length) (h : SeriesKind.fromRaw (u32Of (slice raw 0 4)) = .ok kind) :
    TocEntry.encode (TocEntry.parsed kind raw) = raw.take entryLen := by
  have hlen : 16 ≤ raw.length := hlen
  rw [TocEntry.encode, TocEntry.parsed]
  rw [SeriesKind.raw_of_fromRaw h, leBytes_u32Of (by rw [length_slice (by omega)]),
    leBytes_u32Of (by rw [length_slice (by omega)]),
    leBytes_u32Of (by rw [length_slice (by omega)]),
    leBytes_u32Of (by rw [length_slice (by omega)]), slice_append_slice (by omega) (by omega),
    slice_append_slice (by omega) (by omega), slice_append_slice (by omega) (by omega)]
  rfl

theorem TocEntry.length_encode (entry : TocEntry) : entry.encode.length = entryLen := by
  rfl

variable {entry : TocEntry}

theorem TocEntry.parsed_encode (rest : Bytes) (hoffset : entry.offset < 2 ^ 32)
    (hlen : entry.len < 2 ^ 32) :
    SeriesKind.fromRaw (u32Of (slice (entry.encode ++ rest) 0 4)) = .ok entry.key.kind ∧
      TocEntry.parsed entry.key.kind (entry.encode ++ rest) = entry := by
  have hkind : slice (entry.encode ++ rest) 0 4 = leBytes 4 entry.key.kind.raw.toNat := rfl
  have htype : slice (entry.encode ++ rest) 4 8 = leBytes 4 entry.key.typeId.toNat := rfl
  have hat : slice (entry.encode ++ rest) 8 12 = leBytes 4 entry.offset := rfl
  have hsize : slice (entry.encode ++ rest) 12 16 = leBytes 4 entry.len := rfl
  rw [TocEntry.parsed, hkind, htype, hat, hsize, u32Of_leBytes, u32Of_leBytes,
    u32Of_leBytes_of_lt hoffset, u32Of_leBytes_of_lt hlen]
  exact ⟨SeriesKind.fromRaw_raw _, rfl⟩

variable {previous : Option SeriesKey}

theorem decodeTable_parsed {start count : Nat}
    (hkind : SeriesKind.fromRaw (u32Of (slice raw 0 4)) = .ok kind)
    (hentry : TocEntry.parsed kind raw = entry) :
    decodeTable start previous (count + 1) raw =
      if entry.offset ≠ start ∨ previous.any (fun earlier => !earlier.before entry.key) = true then
        .error .badLayout
      else if 2 ^ 32 ≤ start + entry.len then .error .badLayout
      else
        match decodeTable (start + entry.len) (some entry.key) count (raw.drop entryLen) with
        | .error problem => .error problem
        | .ok (table, stop) => .ok (entry :: table, stop) := by
  rw [decodeTable, hkind, ← hentry]
  rfl

variable {table : List TocEntry}

theorem decodeTable_succ {start count stop : Nat}
    (h : decodeTable start previous (count + 1) raw = .ok (table, stop)) :
    ∃ entry rest, SeriesKind.fromRaw (u32Of (slice raw 0 4)) = .ok entry.key.kind ∧
      TocEntry.parsed entry.key.kind raw = entry ∧ entry.offset = start ∧
      previous.any (fun earlier => !earlier.before entry.key) = false ∧
      start + entry.len < 2 ^ 32 ∧
      decodeTable (start + entry.len) (some entry.key) count (raw.drop entryLen) =
        .ok (rest, stop) ∧
      table = entry :: rest := by
  cases hkind : SeriesKind.fromRaw (u32Of (slice raw 0 4)) with
  | error problem =>
    rw [decodeTable, hkind] at h
    cases h
  | ok kind =>
    have hsame : (TocEntry.parsed kind raw).key.kind = kind := rfl
    rw [decodeTable_parsed hkind rfl] at h
    generalize hentry : TocEntry.parsed kind raw = entry at *
    by_cases hplace : entry.offset ≠ start ∨
        previous.any (fun earlier => !earlier.before entry.key) = true
    case pos =>
      rw [if_pos hplace] at h
      cases h
    by_cases hwide : 2 ^ 32 ≤ start + entry.len
    case pos =>
      rw [if_neg hplace, if_pos hwide] at h
      cases h
    rw [if_neg hplace, if_neg hwide] at h
    obtain ⟨hoffset, horder⟩ := not_or.mp hplace
    cases hrest : decodeTable (start + entry.len) (some entry.key) count (raw.drop entryLen) with
    | error problem =>
      rw [hrest] at h
      cases h
    | ok found =>
      obtain ⟨rest, after⟩ := found
      rw [hrest] at h
      obtain ⟨hcons, hstop⟩ := Prod.mk.inj (Except.ok.inj h)
      refine ⟨entry, rest, by rw [hsame], by rw [hsame, hentry], not_not.mp hoffset,
        Bool.eq_false_iff.mpr horder, not_le.mp hwide, ?_, hcons.symm⟩
      rw [hrest, hstop]

theorem decodeTable_le {start count stop : Nat}
    (h : decodeTable start previous count raw = .ok (table, stop)) : start ≤ stop := by
  induction count generalizing start previous raw table with
  | zero =>
    obtain ⟨_, hstop⟩ := Prod.mk.inj (Except.ok.inj h)
    omega
  | succ count ih =>
    obtain ⟨entry, rest, _, _, _, _, _, hrest, _⟩ := decodeTable_succ h
    have hle := ih hrest
    omega

/-! ## Blocks behind the table -/

section Blocks

variable {crc32c : Checksum} {reader raw : Bytes} {bodyAt start stop count total : Nat}
variable {previous : Option SeriesKey} {table : List TocEntry} {blocks : List SeriesBlock}

def entryBody (reader : Bytes) (bodyAt : Nat) (entry : TocEntry) : Bytes :=
  slice reader (bodyAt + entry.offset) (bodyAt + entry.offset + entry.len)

theorem readBlock_ok {block : SeriesBlock} (h : readBlock reader bodyAt entry = .ok block) :
    bodyAt + entry.offset + entry.len ≤ reader.length ∧
      SeriesBlock.decode entry.key (entryBody reader bodyAt entry) = .ok block := by
  unfold readBlock readExactAt at h
  by_cases hin : bodyAt + entry.offset + entry.len ≤ reader.length
  case neg =>
    rw [if_neg hin] at h
    cases h
  rw [if_pos hin] at h
  exact ⟨hin, h⟩

theorem readBlocks_cons (h : readBlocks reader bodyAt (entry :: table) = .ok blocks) :
    ∃ block rest, readBlock reader bodyAt entry = .ok block ∧
      readBlocks reader bodyAt table = .ok rest ∧ blocks = block :: rest := by
  rw [readBlocks] at h
  cases hblock : readBlock reader bodyAt entry with
  | error problem =>
    rw [hblock] at h
    cases h
  | ok block =>
    rw [hblock] at h
    cases hrest : readBlocks reader bodyAt table with
    | error problem =>
      rw [hrest] at h
      cases h
    | ok rest =>
      rw [hrest] at h
      exact ⟨block, rest, rfl, rfl, (Except.ok.inj h).symm⟩

theorem readBlocks_filter (keys : List SeriesKey)
    (h : readBlocks reader bodyAt table = .ok blocks) :
    readBlocks reader bodyAt (table.filter fun entry => keys.contains entry.key) =
      .ok (blocks.filter fun block => keys.contains block.key) := by
  induction table generalizing blocks with
  | nil =>
    rw [← Except.ok.inj h]
    rfl
  | cons entry table ih =>
    obtain ⟨block, rest, hblock, hrest, rfl⟩ := readBlocks_cons h
    obtain ⟨hkey, _⟩ := SeriesBlock.encode_decode (readBlock_ok hblock).2
    have htail := ih hrest
    by_cases hasked : keys.contains entry.key = true
    · have hkept : (entry :: table).filter (fun entry => keys.contains entry.key) =
          entry :: table.filter fun entry => keys.contains entry.key :=
        List.filter_cons_of_pos hasked
      have hblocks : (block :: rest).filter (fun block => keys.contains block.key) =
          block :: rest.filter fun block => keys.contains block.key :=
        List.filter_cons_of_pos (by rw [hkey]; exact hasked)
      rw [hkept, hblocks, readBlocks, hblock, htail]
    · have hkept : (entry :: table).filter (fun entry => keys.contains entry.key) =
          table.filter fun entry => keys.contains entry.key :=
        List.filter_cons_of_neg hasked
      have hblocks : (block :: rest).filter (fun block => keys.contains block.key) =
          rest.filter fun block => keys.contains block.key :=
        List.filter_cons_of_neg (by rw [hkey]; exact hasked)
      rw [hkept, hblocks, htail]

/-- The blocks that were read are encoded to the same table, and to bodies of the same
length: the same bodies exactly when each of them is canonical. -/
theorem encodeBlocks_of_read (htable : decodeTable start previous count raw = .ok (table, stop))
    (hraw : raw.length = count * entryLen) (hblocks : readBlocks reader bodyAt table = .ok blocks)
    (hfit : total + stop ≤ maxIndexBytes + start) (hend : bodyAt + stop ≤ reader.length) :
    blocks.length = count ∧ ∃ bodies,
      encodeBlocks total start previous blocks = .ok (raw, bodies) ∧
      bodies.length = stop - start ∧
      (bodies = slice reader (bodyAt + start) (bodyAt + stop) ↔
        ∀ entry ∈ table, SeriesBlock.Canonical entry.key.kind (entryBody reader bodyAt entry)) := by
  induction count generalizing start previous raw table blocks total with
  | zero =>
    obtain ⟨htable, hstop⟩ := Prod.mk.inj (Except.ok.inj htable)
    have hnil : raw = [] := List.eq_nil_of_length_eq_zero (by rw [hraw, Nat.zero_mul])
    rw [← htable] at hblocks
    rw [← Except.ok.inj hblocks, ← htable, ← hstop, hnil]
    refine ⟨rfl, [], rfl, by rw [Nat.sub_self]; rfl, ?_⟩
    have hempty : slice reader (bodyAt + start) (bodyAt + start) = [] := by
      exact List.drop_eq_nil_of_le (by rw [List.length_take]; omega)
    rw [hempty]
    exact ⟨fun _ entry hmem => absurd hmem List.not_mem_nil, fun _ => rfl⟩
  | succ count ih =>
    obtain ⟨entry, rest, hkind, hparsed, hoffset, horder, hwide, hrest, rfl⟩ :=
      decodeTable_succ htable
    obtain ⟨block, later, hblock, hlater, rfl⟩ := readBlocks_cons hblocks
    have hle := decodeTable_le hrest
    rw [Nat.add_mul] at hraw
    have hencode := TocEntry.encode_parsed (by omega) hkind
    rw [hparsed] at hencode
    obtain ⟨hin, hdecode⟩ := readBlock_ok hblock
    obtain ⟨hkey, _, body, hbody, hlen, hcanonical⟩ := SeriesBlock.encode_decode hdecode
    have hspan : (entryBody reader bodyAt entry).length = entry.len := by
      rw [entryBody, length_slice hin]
      omega
    have hfits : total + entry.len + stop ≤ maxIndexBytes + (start + entry.len) := by omega
    obtain ⟨hcount, bodies, hbodies, hbodieslen, hiff⟩ :=
      ih hrest (by rw [List.length_drop]; omega) hlater hfits
    rw [hspan] at hlen
    refine ⟨by rw [List.length_cons, hcount], body ++ bodies, ?_, ?_, ?_⟩
    · rw [encodeBlocks, hkey, if_neg (by rw [horder]; decide), hbody]
      dsimp only
      rw [hlen, if_neg (by omega), if_neg (by omega), if_neg (by omega), hbodies]
      dsimp only
      rw [← hoffset, hencode, List.take_append_drop]
    · rw [List.length_append]
      omega
    · have hslices : slice reader (bodyAt + start) (bodyAt + stop) =
          entryBody reader bodyAt entry ++
            slice reader (bodyAt + (start + entry.len)) (bodyAt + stop) := by
        rw [entryBody, hoffset, ← Nat.add_assoc, slice_append_slice (by omega) (by omega)]
      have hsplit : body ++ bodies = slice reader (bodyAt + start) (bodyAt + stop) ↔
          body = entryBody reader bodyAt entry ∧
            bodies = slice reader (bodyAt + (start + entry.len)) (bodyAt + stop) := by
        rw [hslices]
        constructor
        · exact fun heq => List.append_inj heq (by rw [hlen, hspan])
        · rintro ⟨hhead, htail⟩
          rw [hhead, htail]
      rw [hsplit, hcanonical, hiff, List.forall_mem_cons]

theorem read_of_encodeBlocks (bodyAt : Nat) {bodies : Bytes}
    (h : encodeBlocks total start previous blocks = .ok (raw, bodies))
    (hkeys : ∀ block ∈ blocks, block.key.allowlisted = true) (htotal : total ≤ maxIndexBytes) :
    raw.length = blocks.length * entryLen ∧ total + bodies.length ≤ maxIndexBytes ∧
      ∃ table, decodeTable start previous blocks.length raw =
          .ok (table, start + bodies.length) ∧
        ∀ front : Bytes, front.length = bodyAt + start →
          readBlocks (front ++ bodies) bodyAt table = .ok blocks := by
  induction blocks generalizing start previous raw total bodies with
  | nil =>
    obtain ⟨hraw, hbodies⟩ := Prod.mk.inj (Except.ok.inj h)
    rw [← hraw, ← hbodies]
    exact ⟨rfl, htotal, [], rfl, fun _ _ => rfl⟩
  | cons block blocks ih =>
    rw [encodeBlocks] at h
    by_cases horder : (previous.any fun earlier => !earlier.before block.key) = true
    case pos =>
      rw [if_pos horder] at h
      cases h
    rw [if_neg horder] at h
    split at h
    · cases h
    · next body hbody =>
      by_cases hshort : 2 ^ 32 ≤ body.length
      case pos =>
        rw [if_pos hshort] at h
        cases h
      by_cases hwide : 2 ^ 32 ≤ start + body.length
      case pos =>
        rw [if_neg hshort, if_pos hwide] at h
        cases h
      by_cases hlarge : total + body.length > maxIndexBytes
      case pos =>
        rw [if_neg hshort, if_neg hwide, if_pos hlarge] at h
        cases h
      rw [if_neg hshort, if_neg hwide, if_neg hlarge] at h
      cases hrest : encodeBlocks (total + body.length) (start + body.length) (some block.key)
          blocks with
      | error problem =>
        rw [hrest] at h
        cases h
      | ok found =>
        obtain ⟨rest, later⟩ := found
        rw [hrest] at h
        obtain ⟨hraw, hbodies⟩ := Prod.mk.inj (Except.ok.inj h)
        obtain ⟨hlen, hfits, table, htable, hread⟩ := ih hrest
          (fun other hmem => hkeys other (List.mem_cons_of_mem _ hmem)) (not_lt.mp hlarge)
        have hallowed := hkeys block List.mem_cons_self
        generalize hentry : TocEntry.mk block.key start body.length = entry at hraw
        have hkey : entry.key = block.key := by rw [← hentry]
        have hoffset : entry.offset = start := by rw [← hentry]
        have hspan : entry.len = body.length := by rw [← hentry]
        have hsmall : entry.offset < 2 ^ 32 ∧ entry.len < 2 ^ 32 := by omega
        obtain ⟨hkind, hparsed⟩ := TocEntry.parsed_encode rest hsmall.1 hsmall.2
        have hwidth := TocEntry.length_encode entry
        have hdrop : raw.drop entryLen = rest := by
          rw [← hraw]
          exact List.drop_left' hwidth
        refine ⟨?_, ?_, entry :: table, ?_, ?_⟩
        · rw [← hraw, List.length_append, List.length_cons, Nat.add_mul]
          omega
        · rw [← hbodies, List.length_append]
          omega
        · have hplace : ¬ (entry.offset ≠ start ∨
              previous.any (fun earlier => !earlier.before entry.key) = true) := by
            rw [hkey]
            exact not_or.mpr ⟨fun hmoved => hmoved hoffset, horder⟩
          rw [hraw] at hkind hparsed
          rw [List.length_cons, decodeTable_parsed hkind hparsed, if_neg hplace,
            if_neg (by omega), hdrop, hspan, hkey, htable]
          rw [← hbodies, List.length_append, Nat.add_assoc]
        · intro front hfront
          have hwhole : front ++ bodies = (front ++ body) ++ later := by
            rw [← hbodies, List.append_assoc]
          have hbehind : readBlocks (front ++ bodies) bodyAt table = .ok blocks := by
            rw [hwhole]
            exact hread (front ++ body) (by rw [List.length_append]; omega)
          have hslice : slice (front ++ bodies) (bodyAt + start) (bodyAt + start + body.length) =
              body := by
            have hright : slice (front ++ bodies) (bodyAt + start + 0)
                (bodyAt + start + body.length) = slice bodies 0 body.length :=
              slice_append_right 0 body.length hfront
            rw [Nat.add_zero] at hright
            rw [hright, ← hbodies, slice_append_left (Nat.le_refl _)]
            exact slice_full (Nat.le_refl _)
          have hlong : bodyAt + start + body.length ≤ (front ++ bodies).length := by
            rw [List.length_append, ← hbodies, List.length_append]
            omega
          have hfirst : readBlock (front ++ bodies) bodyAt entry = .ok block := by
            rw [readBlock, readExactAt, hoffset, hspan, if_pos hlong, hslice, hkey]
            exact SeriesBlock.decode_encode hbody hallowed
          rw [readBlocks, hfirst, hbehind]

end Blocks

/-! ## Files -/

section Files

variable {crc32c : Checksum} {reader : Bytes} {blocks : List SeriesBlock}

/-- The bytes of the `k`-th table entry of a file. -/
def entryAt (bytes : Bytes) (k : Nat) : Bytes :=
  slice bytes (headerLen + k * entryLen) (headerLen + k * entryLen + entryLen)

def blockCount (bytes : Bytes) : Nat := (u32Of (slice bytes 8 12)).toNat

/-- The body of the `k`-th block, as its table entry places it. -/
def bodyOf (bytes : Bytes) (k : Nat) : Bytes :=
  entryBody bytes (headerLen + blockCount bytes * entryLen)
    (TocEntry.parsed .pgTransactionsPerSecond (entryAt bytes k))

/-- Some row of a transaction block holds the bits of `-0.0` behind a cleared flag. -/
def HidesZero (bytes : Bytes) : Prop :=
  ∃ k < blockCount bytes,
    u32Of (slice (entryAt bytes k) 0 4) = SeriesKind.pgTransactionsPerSecond.raw ∧
      ∃ i < (u32Of (slice (bodyOf bytes k) 0 4)).toNat,
        HidesNegativeZero (transactionCodec.rowAt ((bodyOf bytes k).drop 4) i)

theorem exists_mem_table {start stop count : Nat}
    (h : decodeTable start previous count raw = .ok (table, stop))
    (kind : SeriesKind) (holds : TocEntry → Prop) :
    (∃ entry ∈ table, entry.key.kind = kind ∧ holds entry) ↔
      ∃ k < count,
        u32Of (slice (slice raw (k * entryLen) (k * entryLen + entryLen)) 0 4) = kind.raw ∧
          holds (TocEntry.parsed kind (slice raw (k * entryLen) (k * entryLen + entryLen))) := by
  have hentry : entryLen = 16 := rfl
  induction count generalizing start previous raw table with
  | zero =>
    obtain ⟨htable, _⟩ := Prod.mk.inj (Except.ok.inj h)
    rw [← htable]
    simp
  | succ count ih =>
    obtain ⟨entry, rest, hkind, hparsed, _, _, _, hrest, rfl⟩ := decodeTable_succ h
    have hfirst : ∀ stop ≤ 16, ∀ start, slice (slice raw (0 * entryLen) (0 * entryLen + entryLen))
        start stop = slice raw start stop := by
      intro stop hstop start
      rw [slice_slice (by omega), Nat.zero_mul, Nat.zero_add, Nat.zero_add]
    have hzero : ∀ kind, TocEntry.parsed kind
        (slice raw (0 * entryLen) (0 * entryLen + entryLen)) = TocEntry.parsed kind raw := by
      intro kind
      rw [TocEntry.parsed, hfirst 8 (by omega), hfirst 12 (by omega), hfirst 16 (by omega)]
      rfl
    have hshift : ∀ k, slice (raw.drop entryLen) (k * entryLen) (k * entryLen + entryLen) =
        slice raw ((k + 1) * entryLen) ((k + 1) * entryLen + entryLen) := by
      intro k
      apply List.ext_getElem?
      intro i
      rw [getElem?_slice, getElem?_slice, List.getElem?_drop, Nat.add_mul]
      by_cases hi : i < entryLen
      · rw [if_pos (by omega), if_pos (by omega)]
        congr 1
        omega
      · rw [if_neg (by omega), if_neg (by omega)]
    have htail := ih hrest
    simp only [hshift] at htail
    have hraw := SeriesKind.raw_of_fromRaw hkind
    constructor
    · rintro ⟨found, hmem, hsame, hholds⟩
      rcases List.mem_cons.mp hmem with hhere | hlater
      · refine ⟨0, by omega, ?_, ?_⟩
        · rw [hfirst 4 (by omega), ← hraw, ← hsame, hhere]
        · rw [hzero, ← hsame, hhere, hparsed, ← hhere]
          exact hholds
      · obtain ⟨k, hk, hfound⟩ := htail.mp ⟨found, hlater, hsame, hholds⟩
        exact ⟨k + 1, by omega, hfound⟩
    · rintro ⟨k, hk, hsame, hholds⟩
      cases k with
      | zero =>
        rw [hfirst 4 (by omega), ← hraw] at hsame
        have hkinds : entry.key.kind = kind := by
          have hround := SeriesKind.fromRaw_raw entry.key.kind
          rw [hsame, SeriesKind.fromRaw_raw] at hround
          exact (Except.ok.inj hround).symm
        rw [hzero, ← hkinds, hparsed] at hholds
        exact ⟨entry, List.mem_cons_self, hkinds, hholds⟩
      | succ k =>
        obtain ⟨found, hmem, hfound⟩ := htail.mpr ⟨k, by omega, hsame, hholds⟩
        exact ⟨found, List.mem_cons_of_mem _ hmem, hfound⟩

theorem metadata_ok {found : Metadata} (h : metadata reader = .ok found) :
    reader.length ≤ maxIndexBytes ∧ headerLen ≤ reader.length ∧ slice reader 0 8 = magic ∧
      blockCount reader ≤ maxBlocks ∧
      found.bodyAt = headerLen + blockCount reader * entryLen ∧
      found.expectedChecksum = u32Of (slice reader checksumAt headerLen) ∧
      ∃ stop, decodeTable 0 none (blockCount reader) (slice reader headerLen found.bodyAt) =
          .ok (found.table, stop) ∧
        found.bodyAt + stop = reader.length := by
  unfold metadata at h
  by_cases hlarge : reader.length > maxIndexBytes
  case pos =>
    rw [if_pos hlarge] at h
    cases h
  by_cases hshort : reader.length < headerLen
  case pos =>
    rw [if_neg hlarge, if_pos hshort] at h
    cases h
  by_cases hmagic : slice reader 0 8 ≠ magic
  case pos =>
    rw [if_neg hlarge, if_neg hshort, if_pos hmagic] at h
    cases h
  rw [if_neg hlarge, if_neg hshort, if_neg hmagic, ← blockCount] at h
  by_cases hmany : blockCount reader > maxBlocks
  case pos =>
    rw [if_pos hmany] at h
    cases h
  by_cases hcut : headerLen + blockCount reader * entryLen > reader.length
  case pos =>
    rw [if_neg hmany, if_pos hcut] at h
    cases h
  rw [if_neg hmany, if_neg hcut] at h
  dsimp only at h
  cases htable : decodeTable 0 none (blockCount reader)
      (slice reader headerLen (headerLen + blockCount reader * entryLen)) with
  | error problem =>
    rw [htable] at h
    cases h
  | ok result =>
    obtain ⟨table, stop⟩ := result
    rw [htable] at h
    dsimp only at h
    by_cases hrest : headerLen + blockCount reader * entryLen + stop ≠ reader.length
    case pos =>
      rw [if_pos hrest] at h
      cases h
    rw [if_neg hrest] at h
    rw [← Except.ok.inj h]
    exact ⟨not_lt.mp hlarge, not_lt.mp hshort, not_not.mp hmagic, not_lt.mp hmany, rfl, rfl, stop,
      htable, not_not.mp hrest⟩

theorem validateChecksum_eq (expected : UInt32) (hlen : headerLen ≤ reader.length) :
    validateChecksum crc32c reader expected =
      if checksum crc32c (slice reader 0 checksumAt) (slice reader headerLen reader.length) =
          expected then
        .ok ()
      else .error .badChecksum := by
  have hheader : headerLen = 16 := rfl
  have hat : checksumAt = 12 := rfl
  have hhead : readExactAt reader 0 checksumAt = some (slice reader 0 checksumAt) := by
    rw [readExactAt, if_pos (by omega), Nat.zero_add]
  have hrest : readChunks checksumChunk (by decide) reader headerLen (reader.length - headerLen) =
      some (slice reader headerLen reader.length) := by
    by_cases hnone : reader.length - headerLen = 0
    · rw [hnone, readChunks, if_pos rfl]
      have hempty : slice reader headerLen reader.length = [] := by
        rw [slice, List.take_length]
        exact List.drop_eq_nil_of_le (by omega)
      rw [hempty]
    · rw [readChunks_eq _ _ _ _ hnone, readExactAt, if_pos (by omega), Nat.add_sub_cancel' hlen]
  rw [validateChecksum, hhead, hrest]

theorem checkedMetadata_ok {found : Metadata} (h : checkedMetadata crc32c reader = .ok found) :
    metadata reader = .ok found ∧
      checksum crc32c (slice reader 0 checksumAt) (slice reader headerLen reader.length) =
        found.expectedChecksum := by
  unfold checkedMetadata at h
  cases hmeta : metadata reader with
  | error problem =>
    rw [hmeta] at h
    cases h
  | ok metadata =>
    rw [hmeta] at h
    dsimp only at h
    rw [validateChecksum_eq _ (metadata_ok hmeta).2.1] at h
    by_cases hsum : checksum crc32c (slice reader 0 checksumAt)
        (slice reader headerLen reader.length) = metadata.expectedChecksum
    case neg =>
      rw [if_neg hsum] at h
      cases h
    rw [if_pos hsum] at h
    have hsame : metadata = found := Except.ok.inj h
    rw [← hsame]
    exact ⟨rfl, hsum⟩

theorem decode_ok (h : decode crc32c reader = .ok blocks) :
    ∃ found, checkedMetadata crc32c reader = .ok found ∧
      readBlocks reader found.bodyAt found.table = .ok blocks := by
  unfold decode at h
  cases hfound : checkedMetadata crc32c reader with
  | error problem =>
    rw [hfound] at h
    cases h
  | ok found =>
    rw [hfound] at h
    exact ⟨found, rfl, h⟩

theorem decode_encode {bytes : Bytes} (h : encode crc32c blocks = .ok bytes)
    (hkeys : ∀ block ∈ blocks, block.key.allowlisted = true) :
    decode crc32c bytes = .ok blocks := by
  have hheader : headerLen = 16 := rfl
  have hentry : entryLen = 16 := rfl
  have hmost : maxBlocks = 39 := rfl
  have hcap : maxIndexBytes = 8388608 := rfl
  unfold encode at h
  by_cases hmany : blocks.length > maxBlocks
  case pos =>
    rw [if_pos hmany] at h
    cases h
  rw [if_neg hmany] at h
  cases hblocks : encodeBlocks (headerLen + blocks.length * entryLen) 0 none blocks with
  | error problem =>
    rw [hblocks] at h
    cases h
  | ok result =>
    obtain ⟨raw, bodies⟩ := result
    rw [hblocks] at h
    dsimp only at h
    have hbound : headerLen + blocks.length * entryLen ≤ maxIndexBytes := by
      rw [hentry]
      omega
    have hn : (u32Of (leBytes 4 blocks.length)).toNat = blocks.length :=
      u32Of_leBytes_of_lt (by omega)
    generalize hbodyAt : headerLen + blocks.length * entryLen = bodyAt at *
    obtain ⟨hraw, hfits, table, htable, hread⟩ := read_of_encodeBlocks bodyAt hblocks hkeys hbound
    generalize hhead : magic ++ leBytes 4 blocks.length = head at h
    generalize hsum : checksum crc32c head (raw ++ bodies) = sum at h
    have hbytes : head ++ leBytes 4 sum.toNat ++ (raw ++ bodies) = bytes := Except.ok.inj h
    have hheadlen : head.length = 12 := by
      rw [← hhead]
      rfl
    have hfront : (head ++ leBytes 4 sum.toNat).length = 16 := by
      rw [List.length_append, hheadlen, length_leBytes]
    have hlen : bytes.length = bodyAt + bodies.length := by
      rw [← hbytes, List.length_append, hfront, List.length_append]
      omega
    have hat : checksumAt = 12 := rfl
    have hslice12 : slice bytes 0 checksumAt = head := by
      rw [hat, ← hbytes, List.append_assoc, slice_append_left (Nat.le_of_eq hheadlen.symm)]
      exact slice_full (Nat.le_of_eq hheadlen)
    have hmagic : slice bytes 0 8 = magic := by
      rw [← hbytes, ← hhead]
      rfl
    have hcount : blockCount bytes = blocks.length := by
      have hfield : slice bytes 8 12 = leBytes 4 blocks.length := by
        rw [← hbytes, ← hhead]
        rfl
      rw [blockCount, hfield, hn]
    have hstored : u32Of (slice bytes checksumAt headerLen) = sum := by
      have hfield : slice bytes 12 16 = leBytes 4 sum.toNat := by
        have hright : slice (head ++ (leBytes 4 sum.toNat ++ (raw ++ bodies))) (12 + 0) (12 + 4) =
            slice (leBytes 4 sum.toNat ++ (raw ++ bodies)) 0 4 :=
          slice_append_right 0 4 hheadlen
        rw [← hbytes, List.append_assoc]
        exact hright
      rw [checksumAt, hheader, hfield, u32Of_leBytes]
    have hbehind : slice bytes headerLen bytes.length = raw ++ bodies := by
      rw [slice, List.take_length, ← hbytes]
      exact List.drop_left' hfront
    have htableAt : slice bytes headerLen bodyAt = raw := by
      have hright : slice ((head ++ leBytes 4 sum.toNat) ++ (raw ++ bodies)) (16 + 0)
          (16 + raw.length) = slice (raw ++ bodies) 0 raw.length :=
        slice_append_right 0 raw.length hfront
      rw [← hbytes, ← hbodyAt, ← hraw]
      rw [slice_append_left (Nat.le_refl _), slice_full (Nat.le_refl _)] at hright
      exact hright
    have hmeta : metadata bytes =
        .ok { expectedChecksum := sum, table := table, bodyAt := bodyAt } := by
      rw [metadata, if_neg (by omega), if_neg (by omega), if_neg (fun hne => hne hmagic),
        ← blockCount, hcount, if_neg hmany, hbodyAt, if_neg (by omega)]
      dsimp only
      rw [htableAt, htable, hstored]
      dsimp only
      rw [if_neg (fun hne => hne (by omega))]
    have hchecked : checkedMetadata crc32c bytes =
        .ok { expectedChecksum := sum, table := table, bodyAt := bodyAt } := by
      rw [checkedMetadata, hmeta]
      dsimp only
      rw [validateChecksum_eq _ (by omega), hslice12, hbehind, if_pos hsum]
    have hblocks := hread (head ++ leBytes 4 sum.toNat ++ raw) (by
      rw [List.length_append]
      omega)
    rw [List.append_assoc, hbytes] at hblocks
    rw [decode, hchecked]
    exact hblocks

theorem encode_decode (h : decode crc32c reader = .ok blocks) :
    encode crc32c blocks = .ok reader ↔ ¬ HidesZero reader := by
  have hheader : headerLen = 16 := rfl
  have hat : checksumAt = 12 := rfl
  obtain ⟨found, hchecked, hblocks⟩ := decode_ok h
  obtain ⟨hmeta, hsum⟩ := checkedMetadata_ok hchecked
  obtain ⟨hlarge, hlen, hmagic, hmany, hbodyAt, hstored, stop, htable, hstop⟩ := metadata_ok hmeta
  have hrawlen : (slice reader headerLen found.bodyAt).length = blockCount reader * entryLen := by
    rw [length_slice (by omega)]
    omega
  obtain ⟨hcount, bodies, hbodies, hbodieslen, hiff⟩ :=
    encodeBlocks_of_read htable hrawlen hblocks
      (show found.bodyAt + stop ≤ maxIndexBytes + 0 by omega) (by omega)
  -- The bodies are canonical exactly when no row hides a negative zero.
  have hhides : HidesZero reader ↔ ¬ ∀ entry ∈ found.table,
      SeriesBlock.Canonical entry.key.kind (entryBody reader found.bodyAt entry) := by
    have hentries : ∀ k < blockCount reader, slice (slice reader headerLen found.bodyAt)
        (k * entryLen) (k * entryLen + entryLen) = entryAt reader k := by
      intro k hk
      have hin : (k + 1) * entryLen ≤ blockCount reader * entryLen := Nat.mul_le_mul_right _ hk
      rw [Nat.add_mul] at hin
      rw [entryAt, slice_slice (by omega), Nat.add_assoc]
    have hexists := exists_mem_table htable .pgTransactionsPerSecond fun entry =>
      ∃ i < (u32Of (slice (entryBody reader found.bodyAt entry) 0 4)).toNat,
        HidesNegativeZero (transactionCodec.rowAt ((entryBody reader found.bodyAt entry).drop 4) i)
    have hnot : (¬ ∀ entry ∈ found.table, SeriesBlock.Canonical entry.key.kind
        (entryBody reader found.bodyAt entry)) ↔ ∃ entry ∈ found.table,
          entry.key.kind = .pgTransactionsPerSecond ∧
            ∃ i < (u32Of (slice (entryBody reader found.bodyAt entry) 0 4)).toNat,
              HidesNegativeZero
                (transactionCodec.rowAt ((entryBody reader found.bodyAt entry).drop 4) i) := by
      simp only [SeriesBlock.Canonical, RowsCanonical, not_forall, not_not, exists_prop]
    rw [hnot, hexists, HidesZero]
    unfold bodyOf
    rw [← hbodyAt]
    constructor
    · rintro ⟨k, hk, hfound⟩
      refine ⟨k, hk, ?_⟩
      rw [hentries k hk]
      exact hfound
    · rintro ⟨k, hk, hfound⟩
      refine ⟨k, hk, ?_⟩
      rw [hentries k hk] at hfound
      exact hfound
  have hfront : slice reader 0 8 ++ slice reader 8 12 = slice reader 0 checksumAt := by
    rw [hat, slice_append_slice (by omega) (by omega)]
  have hhead : magic ++ leBytes 4 blocks.length = slice reader 0 checksumAt := by
    rw [← hfront, hmagic, hcount, blockCount, leBytes_u32Of (by rw [length_slice (by omega)])]
  have hrest : slice reader headerLen found.bodyAt ++ slice reader found.bodyAt reader.length =
      slice reader headerLen reader.length := by
    rw [slice_append_slice (by omega) (by omega)]
  have hwhole : slice reader 0 checksumAt ++ slice reader checksumAt headerLen ++
      slice reader headerLen reader.length = reader := by
    rw [slice_append_slice (by omega) (by omega), slice_append_slice (by omega) (by omega)]
    exact slice_full (Nat.le_refl _)
  have hsumBytes : leBytes 4 found.expectedChecksum.toNat = slice reader checksumAt headerLen := by
    rw [hstored]
    exact leBytes_u32Of (by rw [length_slice (by omega), hheader, hat])
  have hencode : encode crc32c blocks = .ok (slice reader 0 checksumAt ++
      leBytes 4 (checksum crc32c (slice reader 0 checksumAt)
        (slice reader headerLen found.bodyAt ++ bodies)).toNat ++
      (slice reader headerLen found.bodyAt ++ bodies)) := by
    rw [encode, if_neg (by omega), hcount, ← hbodyAt, hbodies, ← hcount]
    rw [hhead]
  rw [Nat.add_zero, hstop] at hiff
  rw [hhides, not_not, ← hiff, hencode]
  constructor
  · intro hsame
    have hlast := congrArg (List.drop found.bodyAt) (Except.ok.inj hsame)
    rw [← List.append_assoc, List.drop_left' (by
      rw [List.length_append, List.length_append, length_leBytes, length_slice (by omega)]
      omega)] at hlast
    rw [hlast, slice, List.take_length]
  · intro hsame
    rw [hsame, hrest, hsum, hsumBytes, hwhole]

theorem decodeTarget_decode (keys : List SeriesKey) (h : decode crc32c reader = .ok blocks) :
    decodeTarget crc32c reader keys =
      .ok { checksum := some (u32Of (slice reader checksumAt headerLen))
            blocks := blocks.filter fun block => keys.contains block.key } := by
  obtain ⟨found, hchecked, hblocks⟩ := decode_ok h
  obtain ⟨_, _, _, _, _, hstored, _⟩ := metadata_ok (checkedMetadata_ok hchecked).1
  rw [decodeTarget, hchecked]
  dsimp only
  rw [readBlocks_filter keys hblocks, hstored]

end Files

/-- An encoded index of allowed keys is read back, and a targeted read gives the blocks
of its keys.  A file that was read is the encoding of what was read exactly when no
transaction row holds the bits of `-0.0` behind a cleared presence flag. -/
theorem index_codec (crc32c : Checksum) :
    (∀ blocks bytes, encode crc32c blocks = .ok bytes →
      (∀ block ∈ blocks, block.key.allowlisted = true) → decode crc32c bytes = .ok blocks) ∧
    (∀ bytes blocks, decode crc32c bytes = .ok blocks →
      (encode crc32c blocks = .ok bytes ↔ ¬ HidesZero bytes)) ∧
    ∀ bytes blocks keys, decode crc32c bytes = .ok blocks →
      decodeTarget crc32c bytes keys =
        .ok { checksum := some (u32Of (slice bytes checksumAt headerLen))
              blocks := blocks.filter fun block => keys.contains block.key } :=
  ⟨fun _ _ h hkeys => decode_encode h hkeys, fun _ _ h => encode_decode h,
    fun _ _ keys h => decodeTarget_decode keys h⟩

/-- One transaction point, absent, with the bits of `-0.0` behind its flag. -/
def negativeZeroFile : Bytes :=
  let head := magic ++ leBytes 4 1
  let rest := leBytes 4 4 ++ leBytes 4 1005001 ++ leBytes 4 0 ++ leBytes 4 25 ++
    (leBytes 4 1 ++ leBytes 8 1 ++ leBytes 4 5 ++ [0] ++ [0, 0, 0, 0, 0, 0, 0, 128])
  head ++ leBytes 4 (checksum castagnoli head rest).toNat ++ rest

def absentPoint : List SeriesBlock :=
  [.pgTransactions 1005001 [{ timestamp := 1, datid := 5, value := none }]]

theorem decode_negativeZeroFile : decode castagnoli negativeZeroFile = .ok absentPoint := by
  decide +kernel

theorem negativeZeroFile_not_canonical :
    ∃ blocks, decode castagnoli negativeZeroFile = .ok blocks ∧
      encode castagnoli blocks ≠ .ok negativeZeroFile :=
  ⟨absentPoint, decode_negativeZeroFile, by decide +kernel⟩

/-- What is written of the point is read back, and is not the file that hides the zero. -/
theorem index_codec_sample :
    (∃ bytes, encode castagnoli absentPoint = .ok bytes ∧
        decode castagnoli bytes = .ok absentPoint ∧ ¬ HidesZero bytes) ∧
      (encode castagnoli absentPoint = .ok negativeZeroFile ↔ ¬ HidesZero negativeZeroFile) ∧
      HidesZero negativeZeroFile ∧
      decodeTarget castagnoli negativeZeroFile [] =
        .ok { checksum := some (u32Of (slice negativeZeroFile checksumAt headerLen))
              blocks := absentPoint.filter fun block => [].contains block.key } := by
  obtain ⟨hread, hcanonical, htarget⟩ := index_codec castagnoli
  obtain ⟨bytes, hwritten⟩ : ∃ bytes, encode castagnoli absentPoint = .ok bytes :=
    ⟨_, by rfl⟩
  have hdecoded := hread _ _ hwritten (by decide)
  have hiff := hcanonical _ _ decode_negativeZeroFile
  have hhides : HidesZero negativeZeroFile := not_not.mp fun h =>
    absurd (hiff.mpr h) (by decide +kernel)
  exact ⟨⟨bytes, hwritten, hdecoded, (hcanonical _ _ hdecoded).mp hwritten⟩, hiff, hhides,
    htarget _ _ [] decode_negativeZeroFile⟩

end Kronika.Index
