/-
Round trips of the blocks of an index file.

Every row codec is lawful: health points, counts and locators leave no byte free,
and a transaction point leaves one bit free, the sign of the zero behind a cleared
presence flag.
-/
import Kronika.Index.Series
import Kronika.Library.Folds

namespace Kronika.Index

open Format Library

/-! ## Rows -/

theorem health_lawful : healthCodec.Lawful fun _ => True where
  length_encode row := by
    simp only [healthCodec, i64Bytes, List.length_append, length_leBytes, List.length_singleton]
  encode_decode raw row hlen h := by
    have h10 : raw.length = 10 := hlen
    have hts : i64Bytes (decodeI64 (slice raw 0 8)) = slice raw 0 8 :=
      i64Bytes_decodeI64 (by rw [length_slice (by omega)])
    have hwhole : slice raw 0 8 ++ [raw.getD 8 0] ++ [raw.getD 9 0] = raw := by
      rw [← slice_single raw (by omega), ← slice_single raw (by omega),
        slice_append_slice (by omega) (by omega), slice_append_slice (by omega) (by omega)]
      exact slice_full (by omega)
    simp only [healthCodec] at h ⊢
    split at h
    · rename_i hnone
      rw [← Option.some.inj h]
      refine ⟨rfl, iff_true_intro ?_⟩
      rw [hnone.1, hnone.2] at hwhole
      rw [hts]
      exact hwhole
    · split at h
      · rename_i hsome
        rw [← Option.some.inj h]
        refine ⟨?_, iff_true_intro ?_⟩
        · have hle : ¬ raw.getD 9 0 > 100 := UInt8.not_lt.mpr hsome.2
          simpa using hle
        · rw [hsome.1] at hwhole
          rw [hts]
          exact hwhole
      · cases h

theorem health_round (row : HealthPoint) (h : healthCodec.valid row = true) :
    healthCodec.decodeRow (healthCodec.encodeRow row) = some row := by
  obtain ⟨timestamp, value⟩ := row
  have hts : slice (healthCodec.encodeRow ⟨timestamp, value⟩) 0 8 = i64Bytes timestamp := rfl
  have hflag : (healthCodec.encodeRow ⟨timestamp, value⟩).getD 8 0 = value.isSome.toUInt8 := rfl
  have hvalue : (healthCodec.encodeRow ⟨timestamp, value⟩).getD 9 0 = value.getD 0 := rfl
  generalize healthCodec.encodeRow ⟨timestamp, value⟩ = raw at *
  simp only [healthCodec, hts, hflag, hvalue, decodeI64_i64Bytes]
  cases value with
  | none => rfl
  | some value =>
    have hle : value ≤ 100 := by simpa [healthCodec] using h
    have hset : (some value).isSome.toUInt8 = 1 := rfl
    rw [hset, Option.getD_some, if_neg (fun hnone => absurd hnone.1 (by decide)), if_pos ⟨rfl, hle⟩]

theorem count_lawful : countCodec.Lawful fun _ => True where
  length_encode row := by
    simp only [countCodec, i64Bytes, List.length_append, length_leBytes]
  encode_decode raw row hlen h := by
    have h12 : raw.length = 12 := hlen
    refine ⟨rfl, iff_true_intro ?_⟩
    simp only [countCodec, Option.some.injEq] at h ⊢
    rw [← h]
    rw [i64Bytes_decodeI64 (by rw [length_slice (by omega)]),
      leBytes_u32Of (by rw [length_slice (by omega)]), slice_append_slice (by omega) (by omega)]
    exact slice_full (by omega)

theorem count_round (row : CountPoint) :
    countCodec.decodeRow (countCodec.encodeRow row) = some row := by
  have hts : slice (countCodec.encodeRow row) 0 8 = i64Bytes row.timestamp := rfl
  have hcount : slice (countCodec.encodeRow row) 8 12 = leBytes 4 row.count.toNat := rfl
  generalize countCodec.encodeRow row = raw at *
  simp only [countCodec, hts, hcount, decodeI64_i64Bytes, u32Of_leBytes]

namespace F64

theorem not_ltZero_of_geZero {bits : F64} (h : geZero bits = true) : ltZero bits = false := by
  unfold geZero at h
  unfold ltZero
  cases hnan : isNaN bits
  · cases hzero : isZero bits
    · simp only [hnan, hzero, Bool.not_false, Bool.true_and, Bool.false_or, beq_iff_eq] at h
      simp [h]
    · simp
  · simp

theorem geZero_of_not_ltZero {bits : F64} (hfinite : isFinite bits = true)
    (h : ltZero bits = false) : geZero bits = true := by
  have hnan : isNaN bits = false := by
    unfold isNaN
    rw [hfinite]
    rfl
  unfold ltZero at h
  unfold geZero
  cases hzero : isZero bits
  · simp only [hnan, hzero] at h ⊢
    simpa using h
  · simp [hnan]

end F64

/-- The bits of `-0.0` stand behind a cleared presence flag. -/
def HidesNegativeZero (raw : Bytes) : Prop :=
  raw.getD 12 0 = 0 ∧ u64Of (slice raw 13 21) = F64.signBit

theorem transaction_lawful : transactionCodec.Lawful fun raw => ¬ HidesNegativeZero raw where
  length_encode row := by
    simp only [transactionCodec, i64Bytes, List.length_append, length_leBytes,
      List.length_singleton]
  encode_decode raw row hlen h := by
    have h21 : raw.length = 21 := hlen
    have hts : i64Bytes (decodeI64 (slice raw 0 8)) = slice raw 0 8 :=
      i64Bytes_decodeI64 (by rw [length_slice (by omega)])
    have hdatid : leBytes 4 (u32Of (slice raw 8 12)).toNat = slice raw 8 12 :=
      leBytes_u32Of (by rw [length_slice (by omega)])
    have hrate : leBytes 8 (u64Of (slice raw 13 21)).toNat = slice raw 13 21 :=
      leBytes_u64Of (by rw [length_slice (by omega)])
    have hwhole : slice raw 0 8 ++ slice raw 8 12 ++ [raw.getD 12 0] ++ slice raw 13 21 = raw := by
      rw [← slice_single raw (by omega), slice_append_slice (by omega) (by omega),
        slice_append_slice (by omega) (by omega), slice_append_slice (by omega) (by omega)]
      exact slice_full (by omega)
    unfold HidesNegativeZero
    simp only [transactionCodec] at h ⊢
    split at h
    · rename_i hnone
      rw [← Option.some.inj h]
      refine ⟨rfl, ?_⟩
      rw [hts, hdatid]
      -- Only the bits behind the flag can differ from what is written.
      have hsame : (slice raw 0 8 ++ slice raw 8 12 ++ [(none : Option F64).isSome.toUInt8] ++
          leBytes 8 ((none : Option F64).getD 0).toNat = raw) ↔ u64Of (slice raw 13 21) = 0 := by
        constructor
        · intro heq
          have hzero : slice (slice raw 0 8 ++ slice raw 8 12 ++
              [(none : Option F64).isSome.toUInt8] ++
                leBytes 8 ((none : Option F64).getD 0).toNat) 13 21 = leBytes 8 0 := by
            have hfront : (slice raw 0 8 ++ slice raw 8 12 ++
                [(none : Option F64).isSome.toUInt8]).length = 13 := by
              rw [List.length_append, List.length_append, length_slice (by omega),
                length_slice (by omega)]
              rfl
            have hright : slice (_ ++ leBytes 8 0) (13 + 0) (13 + 8) = slice (leBytes 8 0) 0 8 :=
              slice_append_right 0 8 hfront
            exact hright
          rw [heq] at hzero
          rw [hzero]
          rfl
        · intro hzero
          rw [hzero] at hrate
          rw [hnone.1, ← hrate] at hwhole
          exact hwhole
      rw [hsame, hnone.1]
      have hbits := hnone.2
      simp only [F64.isZero, Bool.or_eq_true, beq_iff_eq] at hbits
      constructor
      · intro hzero hneg
        rw [hzero] at hneg
        exact absurd hneg.2 (by decide)
      · intro hnot
        exact hbits.resolve_right fun hneg => hnot ⟨rfl, hneg⟩
    · split at h
      · rename_i hsome
        obtain ⟨hflag, hfinite, hge⟩ := hsome
        rw [← Option.some.inj h]
        have hlt := F64.not_ltZero_of_geZero hge
        refine ⟨by simp [hfinite, hlt], ?_⟩
        rw [hts, hdatid, Option.getD_some, hrate, hflag]
        rw [hflag] at hwhole
        constructor
        · intro _ hbad
          exact absurd hbad.1 (by decide)
        · exact fun _ => hwhole
      · cases h

theorem transaction_round (row : TransactionPoint) (h : transactionCodec.valid row = true) :
    transactionCodec.decodeRow (transactionCodec.encodeRow row) = some row := by
  obtain ⟨timestamp, datid, value⟩ := row
  have hts : slice (transactionCodec.encodeRow ⟨timestamp, datid, value⟩) 0 8 =
      i64Bytes timestamp := rfl
  have hdatid : slice (transactionCodec.encodeRow ⟨timestamp, datid, value⟩) 8 12 =
      leBytes 4 datid.toNat := rfl
  have hflag : (transactionCodec.encodeRow ⟨timestamp, datid, value⟩).getD 12 0 =
      value.isSome.toUInt8 := rfl
  have hrate : slice (transactionCodec.encodeRow ⟨timestamp, datid, value⟩) 13 21 =
      leBytes 8 (value.getD 0).toNat := rfl
  generalize transactionCodec.encodeRow ⟨timestamp, datid, value⟩ = raw at *
  simp only [transactionCodec, hts, hdatid, hflag, hrate, decodeI64_i64Bytes, u32Of_leBytes,
    u64Of_leBytes]
  cases value with
  | none => rfl
  | some value =>
    simp only [transactionCodec, Option.any_some, Bool.not_or, Bool.not_not,
      Bool.and_eq_true, Bool.not_eq_true'] at h
    have hset : (some value).isSome.toUInt8 = 1 := rfl
    rw [hset, Option.getD_some, if_neg (fun hnone => absurd hnone.1 (by decide)),
      if_pos ⟨rfl, h.1, F64.geZero_of_not_ltZero h.1 h.2⟩]

theorem FindingKind.fromRaw_raw (kind : FindingKind) : fromRaw kind.raw = some kind := by
  cases kind <;> rfl

theorem FindingKind.raw_of_fromRaw {value : UInt8} {kind : FindingKind}
    (h : fromRaw value = some kind) : kind.raw = value := by
  unfold fromRaw at h
  split at h
  · rename_i hvalue
    rw [← Option.some.inj h, hvalue]
    rfl
  · split at h
    · rename_i hvalue
      rw [← Option.some.inj h, hvalue]
      rfl
    · split at h
      · rename_i hvalue
        rw [← Option.some.inj h, hvalue]
        rfl
      · cases h

theorem finding_lawful (typeId : UInt32) : (findingCodec typeId).Lawful fun _ => True where
  length_encode row := by
    simp only [findingCodec, encodeFinding, findingLen]
    split <;> rfl
  encode_decode raw row hlen h := by
    refine ⟨rfl, iff_true_intro ?_⟩
    have hraw : raw.length = findingLen typeId := hlen
    have h15 : 15 ≤ raw.length := by
      rw [hraw, findingLen]
      split <;> decide
    simp only [findingCodec, decodeFinding] at h
    split at h
    · cases h
    · next kind hkind =>
      rw [← Option.some.inj h]
      have hfront : [kind.raw] ++ slice raw 1 3 ++ slice raw 3 7 ++ slice raw 7 15 =
          slice raw 0 15 := by
        rw [FindingKind.raw_of_fromRaw hkind, ← slice_single raw (by omega),
          slice_append_slice (by omega) (by omega), slice_append_slice (by omega) (by omega),
          slice_append_slice (by omega) (by omega)]
      simp only [findingCodec, encodeFinding]
      rw [leBytes_u16Of (by rw [length_slice (by omega)]),
        leBytes_u32Of (by rw [length_slice (by omega)]),
        i64Bytes_decodeI64 (by rw [length_slice (by omega)]), hfront]
      by_cases hlog : typeId = pgLogErrorsTypeId
      · have h16 : raw.length = 16 := by rw [hraw, findingLen, if_pos hlog]
        have hcategory : (if raw.getD 15 0 = noCategory then none
            else some (raw.getD 15 0)).getD noCategory = raw.getD 15 0 := by
          split
          · rename_i hnone
            rw [hnone]
            rfl
          · rfl
        rw [if_pos hlog, if_pos hlog, hcategory, ← slice_single raw (by omega),
          slice_append_slice (by omega) (by omega)]
        exact slice_full (by omega)
      · have h15' : raw.length = 15 := by rw [hraw, findingLen, if_neg hlog]
        rw [if_neg hlog, List.append_nil]
        exact slice_full (by omega)

theorem finding_round (typeId : UInt32) (row : Finding) (h : categoryAllowed typeId row = true) :
    (findingCodec typeId).decodeRow ((findingCodec typeId).encodeRow row) = some row := by
  obtain ⟨kind, fieldOrdinal, rowOrdinal, timestamp, category⟩ := row
  simp only [findingCodec]
  have hkind : (encodeFinding typeId ⟨kind, fieldOrdinal, rowOrdinal, timestamp, category⟩).getD
      0 0 = kind.raw := rfl
  have hfield : slice (encodeFinding typeId ⟨kind, fieldOrdinal, rowOrdinal, timestamp, category⟩)
      1 3 = leBytes 2 fieldOrdinal.toNat := rfl
  have hrow : slice (encodeFinding typeId ⟨kind, fieldOrdinal, rowOrdinal, timestamp, category⟩)
      3 7 = leBytes 4 rowOrdinal.toNat := rfl
  have hts : slice (encodeFinding typeId ⟨kind, fieldOrdinal, rowOrdinal, timestamp, category⟩)
      7 15 = i64Bytes timestamp := rfl
  have hlast : typeId = pgLogErrorsTypeId →
      (encodeFinding typeId ⟨kind, fieldOrdinal, rowOrdinal, timestamp, category⟩).getD 15 0 =
        category.getD noCategory := by
    intro hlog
    simp only [encodeFinding, if_pos hlog]
    rfl
  simp only [decodeFinding, hkind, hfield, hrow, hts, FindingKind.fromRaw_raw, u16Of_leBytes,
    u32Of_leBytes, decodeI64_i64Bytes]
  unfold categoryAllowed at h
  by_cases hlog : typeId = pgLogErrorsTypeId
  · rw [if_pos hlog] at h
    rw [if_pos hlog, hlast hlog]
    cases category with
    | none => cases h
    | some category =>
      have hle : category ≤ maxLogErrorCategory := by simpa using h
      have hother : category ≠ noCategory := by
        intro hsame
        rw [hsame] at hle
        exact absurd hle (by decide)
      rw [Option.getD_some, if_neg hother]
  · rw [if_neg hlog] at h
    have hnone : category = none := Option.isNone_iff_eq_none.mp h
    rw [if_neg hlog, hnone]

/-! ## Blocks -/

variable {bytes : Bytes}

theorem u32At_ok {start : Nat} {value : UInt32}
    (h : u32At bytes start = .ok value) :
    start + 4 ≤ bytes.length ∧ u32Of (slice bytes start (start + 4)) = value := by
  unfold u32At at h
  by_cases hlen : start + 4 ≤ bytes.length
  case neg =>
    rw [if_neg hlen] at h
    cases h
  rw [if_pos hlen] at h
  exact ⟨hlen, Except.ok.inj h⟩

theorem u32Of_leBytes_of_lt {n : Nat} (h : n < 2 ^ 32) : (u32Of (leBytes 4 n)).toNat = n := by
  have hround := leNat_u32 h
  rw [u32Of, hround]
  exact UInt32.toNat_ofNat_of_lt' h

section Points

variable {α : Type} {codec : RowCodec α} {canonical : Bytes → Prop} {points : List α}
variable {bytes : Bytes}

def RowsCanonical (codec : RowCodec α) (canonical : Bytes → Prop) (bytes : Bytes) : Prop :=
  ∀ i < (u32Of (slice bytes 0 4)).toNat, canonical (codec.rowAt (bytes.drop 4) i)

theorem decodePoints_encodePoints (hlaw : codec.Lawful canonical)
    (hround : ∀ row, codec.valid row = true → codec.decodeRow (codec.encodeRow row) = some row)
    (h : encodePoints codec points = .ok bytes) : decodePoints codec bytes = .ok points := by
  unfold encodePoints at h
  by_cases hcount : 2 ^ 32 ≤ points.length
  case pos =>
    rw [if_pos hcount] at h
    cases h
  rw [if_neg hcount] at h
  split at h
  · cases h
  · next rows hrows =>
    have hbytes : leBytes 4 points.length ++ rows = bytes := Except.ok.inj h
    have hlen := hlaw.length_encodeRows hrows
    have hread := hlaw.decodeRows_encodeRows (fun row _ => hround row) hrows
    have hhead : (leBytes 4 points.length).length = 4 := length_leBytes _ _
    have hcounted : (u32Of (leBytes 4 points.length)).toNat = points.length :=
      u32Of_leBytes_of_lt (by omega)
    have hslice : slice (leBytes 4 points.length ++ rows) 0 (0 + 4) = leBytes 4 points.length := by
      rw [slice_append_left (by omega)]
      exact slice_full (by omega)
    have hat : u32At bytes 0 = .ok (u32Of (leBytes 4 points.length)) := by
      rw [u32At, ← hbytes, if_pos (by rw [List.length_append]; omega), hslice]
    have hdrop : bytes.drop 4 = rows := by
      rw [← hbytes]
      exact List.drop_left' hhead
    rw [decodePoints, hat]
    dsimp only
    rw [hcounted, hdrop, hread, if_neg]
    rw [← hbytes, List.length_append, hlen]
    exact fun hne => hne rfl

theorem encodePoints_decodePoints (hlaw : codec.Lawful canonical)
    (h : decodePoints codec bytes = .ok points) :
    ∃ out, encodePoints codec points = .ok out ∧ out.length = bytes.length ∧
      (out = bytes ↔ RowsCanonical codec canonical bytes) := by
  unfold decodePoints at h
  cases hat : u32At bytes 0 with
  | error problem =>
    rw [hat] at h
    cases h
  | ok count =>
    obtain ⟨hshort, hcount⟩ := u32At_ok hat
    rw [hat] at h
    dsimp only at h
    by_cases hlen : bytes.length ≠ 4 + count.toNat * codec.width
    case pos =>
      rw [if_pos hlen] at h
      cases h
    rw [if_neg hlen] at h
    split at h
    · cases h
    · next found hrows =>
      have hfound : found = points := Except.ok.inj h
      rw [hfound] at hrows
      have hdrop : (bytes.drop 4).length = count.toNat * codec.width := by
        rw [List.length_drop]
        omega
      obtain ⟨hnumber, rows, hout, houtlen, hiff⟩ := hlaw.encodeRows_decodeRows hdrop hrows
      have hlt : count.toNat < 2 ^ 32 := count.toNat_lt
      have hfront : leBytes 4 points.length = slice bytes 0 4 := by
        rw [hnumber, ← hcount]
        exact leBytes_u32Of (by rw [length_slice (by omega)])
      have hsplit : slice bytes 0 4 ++ bytes.drop 4 = bytes := by
        rw [slice, List.drop_zero, List.take_append_drop]
      refine ⟨leBytes 4 points.length ++ rows, ?_, ?_, ?_⟩
      · rw [encodePoints, if_neg (by omega), hout]
      · rw [List.length_append, length_leBytes]
        omega
      · have hrest : leBytes 4 points.length ++ rows = bytes ↔ rows = bytes.drop 4 := by
          rw [hfront]
          constructor
          · intro heq
            exact List.append_cancel_left (heq.trans hsplit.symm)
          · intro heq
            rw [heq, hsplit]
        rw [hrest, hiff, RowsCanonical, hcount]

theorem encodePoints_of_decodePoints (hlaw : codec.Lawful fun _ => True)
    (h : decodePoints codec bytes = .ok points) : encodePoints codec points = .ok bytes := by
  obtain ⟨out, hout, _, hiff⟩ := encodePoints_decodePoints hlaw h
  rw [hout, hiff.mpr fun _ _ => trivial]

end Points

namespace FindingBlock

variable {block : FindingBlock} {typeId : UInt32} {bytes : Bytes}

theorem categoryAllowed_of_validate {previous : Option Finding} {findings : List Finding}
    (h : validateFindings typeId previous findings = .ok ()) :
    ∀ finding ∈ findings, categoryAllowed typeId finding = true := by
  induction findings generalizing previous with
  | nil => exact fun _ hmem => absurd hmem List.not_mem_nil
  | cons finding findings ih =>
    rw [validateFindings] at h
    split at h
    · cases h
    · rename_i hallowed
      split at h
      · cases h
      · intro other hmem
        rcases List.mem_cons.mp hmem with hsame | hmem
        · rw [hsame]
          simpa using hallowed
        · exact ih h other hmem

theorem validate_ok (h : validate block = .ok ()) :
    block.findings.length ≤ maxFindingsPerBlock ∧
      ∀ finding ∈ block.findings, categoryAllowed block.typeId finding = true := by
  unfold validate at h
  split at h
  · cases h
  · rename_i hcount
    split at h
    · cases h
    · exact ⟨not_lt.mp hcount, categoryAllowed_of_validate h⟩

theorem decode_encode (h : block.encode = .ok bytes) : decode block.typeId bytes = .ok block := by
  unfold encode at h
  split at h
  · cases h
  · next hvalid =>
    obtain ⟨hmax, hallowed⟩ := validate_ok hvalid
    split at h
    · cases h
    · next rows hrows =>
      have hbytes : leBytes 4 block.totalHits.toNat ++ leBytes 4 block.findings.length ++
          [block.truncated.toUInt8] ++ rows = bytes := Except.ok.inj h
      have hlaw := finding_lawful block.typeId
      have hlen : rows.length = block.findings.length * findingLen block.typeId :=
        hlaw.length_encodeRows hrows
      have hread := hlaw.decodeRows_encodeRows
        (fun row hrow _ => finding_round block.typeId row (hallowed row hrow)) hrows
      have hcap : maxFindingsPerBlock = 4096 := rfl
      have hcounted : (u32Of (leBytes 4 block.findings.length)).toNat = block.findings.length :=
        u32Of_leBytes_of_lt (by omega)
      have htotal : slice bytes 0 4 = leBytes 4 block.totalHits.toNat := by
        rw [← hbytes]
        rfl
      have hcount : slice bytes 4 8 = leBytes 4 block.findings.length := by
        rw [← hbytes]
        rfl
      have hflag : bytes[8]? = some block.truncated.toUInt8 := by
        rw [← hbytes]
        rfl
      have hdrop : bytes.drop 9 = rows := by
        rw [← hbytes]
        rfl
      have hlength : bytes.length = 9 + rows.length := by
        rw [← hbytes, List.length_append]
        rfl
      have hat0 : u32At bytes 0 = .ok block.totalHits := by
        rw [u32At, if_pos (by omega), htotal, u32Of_leBytes]
      have hat4 : u32At bytes 4 = .ok (u32Of (leBytes 4 block.findings.length)) := by
        rw [u32At, if_pos (by omega), hcount]
      have hbit : ¬ (bytes[8]? ≠ some 0 ∧ bytes[8]? ≠ some 1) := by
        rw [hflag]
        cases block.truncated <;> decide
      have hback : (bytes[8]? == some 1) = block.truncated := by
        rw [hflag]
        cases block.truncated <;> rfl
      rw [decode, hat0, hat4]
      dsimp only
      rw [if_neg hbit, hcounted, findingsHeaderLen, hdrop, hread, if_neg (by omega)]
      dsimp only
      rw [hback, hvalid]

theorem encode_decode (h : decode typeId bytes = .ok block) :
    block.typeId = typeId ∧ block.encode = .ok bytes := by
  unfold decode at h
  cases hat0 : u32At bytes 0 with
  | error problem =>
    rw [hat0] at h
    cases h
  | ok totalHits =>
    cases hat4 : u32At bytes 4 with
    | error problem =>
      rw [hat0, hat4] at h
      cases h
    | ok count =>
      obtain ⟨_, htotal⟩ := u32At_ok hat0
      obtain ⟨_, hcount⟩ := u32At_ok hat4
      rw [hat0, hat4] at h
      dsimp only at h
      by_cases hbit : bytes[8]? ≠ some 0 ∧ bytes[8]? ≠ some 1
      case pos =>
        rw [if_pos hbit] at h
        cases h
      rw [if_neg hbit] at h
      by_cases hlen : bytes.length ≠ findingsHeaderLen + count.toNat * findingLen typeId ∨
          count.toNat > maxFindingsPerBlock
      case pos =>
        rw [if_pos hlen] at h
        cases h
      rw [if_neg hlen] at h
      obtain ⟨hlen, _⟩ := not_or.mp hlen
      have hlen : bytes.length = 9 + count.toNat * findingLen typeId := not_not.mp hlen
      split at h
      · cases h
      · next findings hrows =>
        split at h
        · cases h
        · next hvalid =>
          have hblock := Except.ok.inj h
          have hdrop : (bytes.drop findingsHeaderLen).length = count.toNat * findingLen typeId := by
            rw [List.length_drop]
            omega
          obtain ⟨hnumber, rows, hout, _, hiff⟩ :=
            (finding_lawful typeId).encodeRows_decodeRows hdrop hrows
          have hsame : rows = bytes.drop 9 := hiff.mpr fun _ _ => trivial
          have hcounted : leBytes 4 findings.length = slice bytes 4 8 := by
            rw [hnumber, ← hcount]
            exact leBytes_u32Of (by rw [length_slice (by omega)])
          have htotals : leBytes 4 totalHits.toNat = slice bytes 0 4 := by
            rw [← htotal]
            exact leBytes_u32Of (by rw [length_slice (by omega)])
          have hflag : [(bytes[8]? == some 1).toUInt8] = slice bytes 8 9 := by
            rw [slice_single bytes (by omega), List.getD_eq_getElem?_getD]
            by_cases hzero : bytes[8]? = some 0
            · rw [hzero]
              rfl
            · have hone : bytes[8]? = some 1 := not_not.mp fun hne => hbit ⟨hzero, hne⟩
              rw [hone]
              rfl
          have hfront : slice bytes 0 4 ++ slice bytes 4 8 ++ slice bytes 8 9 ++ bytes.drop 9 =
              bytes := by
            rw [slice_append_slice (by omega) (by omega), slice_append_slice (by omega) (by omega),
              slice, List.drop_zero, List.take_append_drop]
          rw [← hblock]
          refine ⟨rfl, ?_⟩
          rw [encode, hvalid]
          rw [hout]
          dsimp only
          rw [hcounted, htotals, hflag, hsame, hfront]

end FindingBlock

namespace SeriesBlock

def Canonical (kind : SeriesKind) (body : Bytes) : Prop :=
  kind = .pgTransactionsPerSecond →
    RowsCanonical transactionCodec (fun raw => ¬ HidesNegativeZero raw) body

theorem decode_encode {block : SeriesBlock} (h : block.encode = .ok bytes)
    (hkey : block.key.allowlisted = true) : decode block.key bytes = .ok block := by
  rw [decode, hkey]
  cases block with
  | osHealth points =>
    exact congrArg (Except.map osHealth)
      (decodePoints_encodePoints health_lawful health_round h)
  | overallHealth points =>
    exact congrArg (Except.map overallHealth)
      (decodePoints_encodePoints health_lawful health_round h)
  | postgresHealth points =>
    exact congrArg (Except.map postgresHealth)
      (decodePoints_encodePoints health_lawful health_round h)
  | pgTransactions typeId points =>
    exact congrArg (Except.map (pgTransactions typeId))
      (decodePoints_encodePoints transaction_lawful transaction_round h)
  | pgActiveBackends typeId points =>
    exact congrArg (Except.map (pgActiveBackends typeId))
      (decodePoints_encodePoints count_lawful (fun row _ => count_round row) h)
  | findings block => exact congrArg (Except.map findings) (FindingBlock.decode_encode h)
  | pgLockWaiting typeId points =>
    exact congrArg (Except.map (pgLockWaiting typeId))
      (decodePoints_encodePoints count_lawful (fun row _ => count_round row) h)

/-- A block that was read stands under the key it was asked for, and is encoded to the
bytes it was read from exactly when these hide no negative zero. -/
theorem encode_decode {key : SeriesKey} {block : SeriesBlock}
    (h : decode key bytes = .ok block) :
    block.key = key ∧ key.allowlisted = true ∧ ∃ out, block.encode = .ok out ∧
      out.length = bytes.length ∧ (out = bytes ↔ Canonical key.kind bytes) := by
  obtain ⟨kind, typeId⟩ := key
  unfold decode at h
  by_cases hkey : (!(⟨kind, typeId⟩ : SeriesKey).allowlisted) = true
  case pos =>
    rw [if_pos hkey] at h
    cases h
  rw [if_neg hkey] at h
  have hkey : (⟨kind, typeId⟩ : SeriesKey).allowlisted = true := by simpa using hkey
  -- A block without transaction rows is always canonical.
  have hplain : kind ≠ .pgTransactionsPerSecond → (bytes = bytes ↔ Canonical kind bytes) :=
    fun hne => ⟨fun _ hkind => absurd hkind hne, fun _ => rfl⟩
  cases kind with
  | osHealth =>
    obtain ⟨points, hpoints, rfl⟩ := map_eq_ok h
    have hout := encodePoints_of_decodePoints health_lawful hpoints
    have hzero : typeId = 0 := by simpa [SeriesKey.allowlisted] using hkey
    rw [hzero]
    exact ⟨rfl, rfl, bytes, hout, rfl, hplain (by decide)⟩
  | overallHealth =>
    obtain ⟨points, hpoints, rfl⟩ := map_eq_ok h
    have hout := encodePoints_of_decodePoints health_lawful hpoints
    have hzero : typeId = 0 := by simpa [SeriesKey.allowlisted] using hkey
    rw [hzero]
    exact ⟨rfl, rfl, bytes, hout, rfl, hplain (by decide)⟩
  | postgresHealth =>
    obtain ⟨points, hpoints, rfl⟩ := map_eq_ok h
    have hout := encodePoints_of_decodePoints health_lawful hpoints
    have hzero : typeId = 0 := by simpa [SeriesKey.allowlisted] using hkey
    rw [hzero]
    exact ⟨rfl, rfl, bytes, hout, rfl, hplain (by decide)⟩
  | pgTransactionsPerSecond =>
    obtain ⟨points, hpoints, rfl⟩ := map_eq_ok h
    obtain ⟨out, hout, hlen, hiff⟩ := encodePoints_decodePoints transaction_lawful hpoints
    exact ⟨rfl, hkey, out, hout, hlen, hiff.trans ⟨fun hrows _ => hrows, fun hrows => hrows rfl⟩⟩
  | pgActiveBackends =>
    obtain ⟨points, hpoints, rfl⟩ := map_eq_ok h
    have hout := encodePoints_of_decodePoints count_lawful hpoints
    exact ⟨rfl, hkey, bytes, hout, rfl, hplain (by decide)⟩
  | pgLockWaiting =>
    obtain ⟨points, hpoints, rfl⟩ := map_eq_ok h
    have hout := encodePoints_of_decodePoints count_lawful hpoints
    exact ⟨rfl, hkey, bytes, hout, rfl, hplain (by decide)⟩
  | findings =>
    obtain ⟨block, hblock, rfl⟩ := map_eq_ok h
    obtain ⟨htype, hout⟩ := FindingBlock.encode_decode hblock
    refine ⟨?_, hkey, bytes, hout, rfl, hplain (by decide)⟩
    rw [key, htype]

end SeriesBlock

end Kronika.Index
