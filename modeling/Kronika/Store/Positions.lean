/-
Positions of a captured journal: the ends of its parts, and the end of its header.
-/
import Kronika.Store.Scans
import Kronika.Store.Snapshot

namespace Kronika.Store

open Format Writer Library

/-! ## The ends of parts -/

theorem boundaryAt_append {left right : List ActivePart} {pos stop count : Nat}
    (hleft : Tiles pos (left.map (·.part)) stop)
    (hright : ∀ part ∈ right.head?, stop < part.part.offset + part.part.len) :
    ActiveSnapshot.boundaryAt stop pos count (left ++ right) = (stop, count + left.length) := by
  induction left generalizing pos count with
  | nil =>
    have hpos : pos = stop := hleft
    rw [List.nil_append, hpos, List.length_nil, Nat.add_zero]
    cases right with
    | nil => rfl
    | cons part right => rw [ActiveSnapshot.boundaryAt, if_pos (hright part rfl)]
  | cons part left ih =>
    obtain ⟨_, hrest⟩ := hleft
    have hle : part.part.offset + part.part.len ≤ stop := hrest.le
    rw [List.cons_append, ActiveSnapshot.boundaryAt, if_neg (by omega), ih hrest, List.length_cons]
    congr 1
    omega

theorem boundaryAt_hit {parts : List ActivePart} {pos stop position count : Nat}
    (htiles : Tiles pos (parts.map (·.part)) stop)
    (h : (ActiveSnapshot.boundaryAt position pos count parts).1 = position) :
    ∃ left right, parts = left ++ right ∧ Tiles pos (left.map (·.part)) position ∧
      (ActiveSnapshot.boundaryAt position pos count parts).2 = count + left.length := by
  induction parts generalizing pos count with
  | nil => exact ⟨[], [], rfl, h, rfl⟩
  | cons part parts ih =>
    obtain ⟨hoffset, hrest⟩ := htiles
    rw [ActiveSnapshot.boundaryAt] at h ⊢
    by_cases hafter : position < part.part.offset + part.part.len
    · rw [if_pos hafter] at h ⊢
      exact ⟨[], part :: parts, rfl, h, rfl⟩
    · rw [if_neg hafter] at h ⊢
      obtain ⟨left, right, rfl, hleft, hcount⟩ := ih hrest h
      refine ⟨part :: left, right, rfl, ⟨hoffset, hleft⟩, ?_⟩
      rw [hcount, List.length_cons]
      omega

theorem tiles_end {parts : List PartRef} {pos stop stop' : Nat} (h : Tiles pos parts stop)
    (h' : Tiles pos parts stop') : stop = stop' := by
  induction parts generalizing pos with
  | nil => exact h.symm.trans h'
  | cons part parts ih => exact ih h.2 h'.2

/-! ## Captures of a generation -/

variable {crc32c : Checksum} {segmentId : SegmentId} {file : Bytes}
  {parts more : List (ValidPart crc32c)}

def endOf (parts : List (ValidPart crc32c)) : Nat := journalHeaderLen + (frames parts).length

/-- The capture of a generation with these parts. -/
def captured (segmentId : SegmentId) (parts : List (ValidPart crc32c)) : ActiveSnapshot where
  active := activeParts segmentId journalHeaderLen parts
  partCount := parts.length
  validLen := endOf parts
  segmentId := segmentId

/-- A snapshot that shows these parts of a generation, and nothing else of it. -/
structure Captures (snapshot : ActiveSnapshot) (segmentId : SegmentId)
    (parts : List (ValidPart crc32c)) : Prop where
  parts_eq : snapshot.parts = activeParts segmentId journalHeaderLen parts
  validLen_eq : snapshot.validLen = endOf parts
  segmentId_eq : snapshot.segmentId = segmentId

theorem captures_captured (segmentId : SegmentId) (parts : List (ValidPart crc32c)) :
    Captures (captured segmentId parts) segmentId parts where
  parts_eq := by
    rw [ActiveSnapshot.parts, captured, List.take_of_length_le]
    rw [length_activeParts]
  validLen_eq := rfl
  segmentId_eq := rfl

theorem tiles_activeParts (segmentId : SegmentId) (pos : Nat) (parts : List (ValidPart crc32c)) :
    Tiles pos ((activeParts segmentId pos parts).map (·.part)) (pos + (frames parts).length) := by
  have h := tiles_locate pos parts
  rw [activeParts, List.map_map]
  exact h

theorem boundaryAt_le (position pos count : Nat) (parts : List ActivePart) :
    (ActiveSnapshot.boundaryAt position pos count parts).2 ≤ count + parts.length := by
  induction parts generalizing pos count with
  | nil => exact Nat.le_refl _
  | cons part parts ih =>
    rw [ActiveSnapshot.boundaryAt]
    by_cases h : position < part.part.offset + part.part.len
    · rw [if_pos h]
      exact Nat.le_add_right ..
    · rw [if_neg h]
      refine (ih ..).trans ?_
      rw [List.length_cons]
      omega

theorem atPosition_iff {snapshot cut : ActiveSnapshot} {position : Nat} :
    snapshot.atPosition position = .ok cut ↔ position ≤ snapshot.validLen ∧
      (ActiveSnapshot.boundaryAt position journalHeaderLen 0 snapshot.parts).1 = position ∧
      cut = { snapshot with
        partCount := (ActiveSnapshot.boundaryAt position journalHeaderLen 0 snapshot.parts).2
        validLen := position } := by
  rw [ActiveSnapshot.atPosition]
  by_cases hlen : snapshot.validLen < position
  · rw [if_pos hlen]
    constructor
    · intro h
      cases h
    · rintro ⟨hle, _, _⟩
      omega
  · rw [if_neg hlen]
    generalize ActiveSnapshot.boundaryAt position journalHeaderLen 0 snapshot.parts = found
    obtain ⟨boundary, count⟩ := found
    dsimp only
    by_cases hhit : position = boundary
    · rw [if_neg (not_not.mpr hhit)]
      constructor
      · intro h
        exact ⟨by omega, hhit.symm, (Except.ok.inj h).symm⟩
      · rintro ⟨_, _, rfl⟩
        rfl
    · rw [if_pos hhit]
      constructor
      · intro h
        cases h
      · rintro ⟨_, heq, _⟩
        exact absurd heq.symm hhit

variable {snapshot : ActiveSnapshot}

theorem parts_cut {count position : Nat}
    (h : count ≤ snapshot.parts.length) :
    ({ snapshot with partCount := count, validLen := position } : ActiveSnapshot).parts =
      snapshot.parts.take count := by
  rw [ActiveSnapshot.parts, List.length_take] at h
  have hle : count ≤ snapshot.partCount := by omega
  show snapshot.active.take count = (snapshot.active.take snapshot.partCount).take count
  rw [List.take_take, Nat.min_eq_left hle]

theorem Captures.atPosition
    (h : Captures snapshot segmentId (parts ++ more)) :
    ∃ cut, snapshot.atPosition (endOf parts) = .ok cut ∧ Captures cut segmentId parts := by
  have hlen : (frames (parts ++ more)).length = (frames parts).length + (frames more).length := by
    rw [frames_append, List.length_append]
  have hcut : ActiveSnapshot.boundaryAt (endOf parts) journalHeaderLen 0 snapshot.parts =
      (endOf parts, parts.length) := by
    rw [h.parts_eq, activeParts_append, endOf,
      boundaryAt_append (tiles_activeParts segmentId _ parts)]
    · rw [length_activeParts, Nat.zero_add]
    · intro part hhead
      cases more with
      | nil => cases hhead
      | cons next more =>
        cases hhead
        have hheader : frameHeaderLen = 16 := rfl
        show journalHeaderLen + _ < journalHeaderLen + _ + frameHeaderLen + _
        omega
  have hcount : parts.length ≤ snapshot.parts.length := by
    rw [h.parts_eq, length_activeParts, List.length_append]
    omega
  refine ⟨{ snapshot with partCount := parts.length, validLen := endOf parts }, ?_, ?_, rfl,
    h.segmentId_eq⟩
  · rw [atPosition_iff, hcut, h.validLen_eq, endOf, endOf]
    exact ⟨by omega, rfl, rfl⟩
  · rw [parts_cut hcount, h.parts_eq, activeParts_append,
      List.take_append_of_le_length (by rw [length_activeParts]),
      List.take_of_length_le (by rw [length_activeParts])]

theorem Captures.atPosition_ok {snapshot cut : ActiveSnapshot} {position : Nat}
    (h : Captures snapshot segmentId parts) (hcut : snapshot.atPosition position = .ok cut) :
    ∃ left right, parts = left ++ right ∧ position = endOf left ∧ Captures cut segmentId left := by
  obtain ⟨_, hhit, rfl⟩ := atPosition_iff.mp hcut
  have hcount := boundaryAt_le position journalHeaderLen 0 snapshot.parts
  rw [Nat.zero_add] at hcount
  rw [h.parts_eq] at hhit
  obtain ⟨left, right, hsplit, hleft, hlength⟩ :=
    boundaryAt_hit (tiles_activeParts segmentId journalHeaderLen parts) hhit
  rw [Nat.zero_add] at hlength
  have hlen : left.length ≤ parts.length := by
    rw [← length_activeParts segmentId journalHeaderLen parts, hsplit, List.length_append]
    omega
  have hparts : parts = parts.take left.length ++ parts.drop left.length :=
    (List.take_append_drop ..).symm
  have hactive := activeParts_append segmentId journalHeaderLen (parts.take left.length)
    (parts.drop left.length)
  rw [← hparts, hsplit] at hactive
  have hfirst : left = activeParts segmentId journalHeaderLen (parts.take left.length) := by
    have hlengths : left.length =
        (activeParts segmentId journalHeaderLen (parts.take left.length)).length := by
      rw [length_activeParts, List.length_take, Nat.min_eq_left hlen]
    exact (List.append_inj hactive hlengths).1
  have hposition : position = endOf (parts.take left.length) := by
    have htiles := tiles_activeParts segmentId journalHeaderLen (parts.take left.length)
    rw [← hfirst] at htiles
    exact tiles_end hleft htiles
  refine ⟨parts.take left.length, parts.drop left.length, hparts, hposition, ?_, hposition,
    h.segmentId_eq⟩
  rw [parts_cut hcount, ← hfirst, h.parts_eq, hlength, hsplit, List.take_left]

/-! ## Reads of a captured part -/

theorem validateActiveSnapshot_ok {validLen : Nat}
    (h : validateActiveSnapshot crc32c file segmentId validLen = .ok ()) :
    committedResetPlan crc32c file = none ∧ validLen ≤ file.length ∧
      ∃ header, JournalHeader.decode crc32c (slice file 0 journalHeaderLen) = .ok header ∧
        header.state = .active segmentId.value := by
  rw [validateActiveSnapshot] at h
  split at h
  · cases h
  split at h
  · cases h
  next hlen =>
    split at h
    · cases h
    next hreset =>
      cases hdecode : JournalHeader.decode crc32c (slice file 0 journalHeaderLen) with
      | error problem =>
        rw [hdecode] at h
        cases h
      | ok header =>
        rw [hdecode] at h
        dsimp only at h
        refine ⟨Option.not_isSome_iff_eq_none.mp hreset, by omega, header, rfl, ?_⟩
        cases hstate : header.state with
        | empty =>
          rw [hstate] at h
          cases h
        | active value =>
          rw [hstate] at h
          dsimp only at h
          split at h
          · cases h
          · next hsame =>
            rw [not_not] at hsame
            rw [hsame]

theorem readPartRange_ok {before during after bytes : Bytes}
    {i offset len : Nat}
    (h : snapshot.readPartRange crc32c before during after i offset len = .ok bytes) :
    ∃ found, snapshot.parts[i]? = some found ∧ offset + len ≤ found.part.len ∧
      bytes = slice during (found.part.offset + offset) (found.part.offset + offset + len) ∧
      validateActiveSnapshot crc32c before snapshot.segmentId snapshot.validLen = .ok () ∧
      validateActiveSnapshot crc32c after snapshot.segmentId snapshot.validLen = .ok () ∧
      found.part.offset + offset + len ≤ snapshot.validLen ∧
      found.part.offset + offset + len ≤ during.length := by
  rw [ActiveSnapshot.readPartRange] at h
  cases hpart : snapshot.parts[i]? with
  | none =>
    rw [hpart] at h
    cases h
  | some found =>
    rw [hpart] at h
    dsimp only at h
    split at h
    · cases h
    split at h
    · cases h
    split at h
    · cases h
    next hrange =>
      split at h
      · cases h
      cases hbefore : validateActiveSnapshot crc32c before snapshot.segmentId
          snapshot.validLen with
      | error problem =>
        rw [hbefore] at h
        cases h
      | ok u =>
        rw [hbefore] at h
        cases hread : readExactAt during (found.part.offset + offset) len with
        | none =>
          rw [hread] at h
          cases h
        | some read =>
          rw [hread] at h
          cases hafter : validateActiveSnapshot crc32c after snapshot.segmentId
              snapshot.validLen with
          | error problem =>
            rw [hafter] at h
            cases h
          | ok u =>
            rw [hafter] at h
            rw [readExactAt] at hread
            split at hread
            · refine ⟨found, rfl, by omega, ?_, rfl, rfl, by omega, by assumption⟩
              rw [← Except.ok.inj h, ← Option.some.inj hread]
            · cases hread

theorem readPartRange_captured {before during after header rest bytes : Bytes}
    {i offset len : Nat} (hheader : header.length = journalHeaderLen)
    (hduring : during = header ++ frames parts ++ rest)
    {snapshot : ActiveSnapshot} (hcaptures : Captures snapshot segmentId parts)
    (h : snapshot.readPartRange crc32c before during after i offset len = .ok bytes) :
    ∃ part, parts[i]? = some part ∧ bytes = slice part.bytes offset (offset + len) := by
  obtain ⟨found, hfound, hrange, hbytes, -⟩ := readPartRange_ok h
  rw [hcaptures.parts_eq, activeParts, List.getElem?_map] at hfound
  obtain ⟨⟨part, catalog⟩, hlocate, rfl⟩ := Option.map_eq_some_iff.mp hfound
  dsimp only at hrange hbytes
  have hbodies : (locate header.length parts).map
      (fun found => slice during found.1.offset (found.1.offset + found.1.len)) =
        parts.map ValidPart.bytes := slice_locate parts hduring
  have hentry := congrArg (·[i]?) hbodies
  rw [hheader] at hentry
  rw [List.getElem?_map, List.getElem?_map, hlocate] at hentry
  obtain ⟨valid, hget, hvalid⟩ := Option.map_eq_some_iff.mp hentry.symm
  refine ⟨valid, hget, ?_⟩
  have hwithin : part.offset + (offset + len) ≤ part.offset + part.len := by omega
  rw [hbytes, hvalid, slice_slice hwithin, Nat.add_assoc]

end Kronika.Store
