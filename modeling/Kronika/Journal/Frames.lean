/-
What a scan finds in a journal body of whole frames.

`frames parts` is such a body and `locate pos parts` are the parts of one that
starts at `pos`.  A scan steps over each frame that its limits admit, and stops at
the first that they do not.
-/
import Kronika.Format.JournalScan

namespace Kronika.Format

open Library

variable {crc32c : Checksum} {limits : JournalLimits} {maxParts : Nat}

namespace ValidPart

def frame (part : ValidPart crc32c) : Bytes := Format.frame crc32c part.bytes

def frameLen (part : ValidPart crc32c) : Nat := frameHeaderLen + part.bytes.length

theorem length_frame (part : ValidPart crc32c) : part.frame.length = part.frameLen :=
  Format.length_frame crc32c part.bytes

theorem minPartLen_le_length (part : ValidPart crc32c) : minPartLen ≤ part.bytes.length :=
  minPartLen_le part.valid

theorem lt_frameLen (part : ValidPart crc32c) : resetMarkerLen < part.frameLen := by
  have h := part.minPartLen_le_length
  have hmin : minPartLen = 44 := rfl
  have hmarker : resetMarkerLen = 32 := rfl
  simp only [frameLen]
  omega

end ValidPart

def frames (parts : List (ValidPart crc32c)) : Bytes := (parts.map ValidPart.frame).flatten

theorem frames_cons (part : ValidPart crc32c) (parts : List (ValidPart crc32c)) :
    frames (part :: parts) = part.frame ++ frames parts := rfl

theorem frames_append (xs ys : List (ValidPart crc32c)) :
    frames (xs ++ ys) = frames xs ++ frames ys := by
  rw [frames, List.map_append, List.flatten_append, frames, frames]

theorem length_frames_cons (part : ValidPart crc32c) (parts : List (ValidPart crc32c)) :
    (frames (part :: parts)).length = part.frameLen + (frames parts).length := by
  rw [frames_cons, List.length_append, part.length_frame]

theorem frames_eq_nil {parts : List (ValidPart crc32c)} :
    (frames parts).length = 0 ↔ parts = [] := by
  cases parts with
  | nil => exact ⟨fun _ => rfl, fun _ => rfl⟩
  | cons part parts =>
    have h := part.lt_frameLen
    rw [length_frames_cons]
    refine ⟨fun hzero => ?_, fun hnil => absurd hnil (by simp)⟩
    omega

/-- The parts of a body that starts at `pos`, with their catalogs. -/
def locate : Nat → List (ValidPart crc32c) → List (PartRef × Catalog)
  | _, [] => []
  | pos, part :: parts =>
    ({ offset := pos + frameHeaderLen, len := part.bytes.length }, part.catalog) ::
      locate (pos + part.frameLen) parts

theorem locate_append (pos : Nat) (xs ys : List (ValidPart crc32c)) :
    locate pos (xs ++ ys) = locate pos xs ++ locate (pos + (frames xs).length) ys := by
  induction xs generalizing pos with
  | nil => rfl
  | cons part xs ih =>
    rw [List.cons_append, locate, locate, ih, List.cons_append, length_frames_cons, Nat.add_assoc]

theorem length_locate (pos : Nat) (parts : List (ValidPart crc32c)) :
    (locate pos parts).length = parts.length := by
  induction parts generalizing pos with
  | nil => rfl
  | cons part parts ih => rw [locate, List.length_cons, List.length_cons, ih]

/-- Parts behind each other from `pos` to `stop`, each behind a frame header. -/
def Tiles : Nat → List PartRef → Nat → Prop
  | pos, [], stop => pos = stop
  | pos, part :: parts, stop =>
    part.offset = pos + frameHeaderLen ∧ Tiles (part.offset + part.len) parts stop

theorem tiles_locate (pos : Nat) (parts : List (ValidPart crc32c)) :
    Tiles pos ((locate pos parts).map Prod.fst) (pos + (frames parts).length) := by
  induction parts generalizing pos with
  | nil => exact rfl
  | cons part parts ih =>
    refine ⟨rfl, ?_⟩
    have hlen := length_frames_cons part parts
    have hframe : part.frameLen = frameHeaderLen + part.bytes.length := rfl
    have hnext := ih (pos + part.frameLen)
    rw [hlen, ← Nat.add_assoc]
    show Tiles (pos + frameHeaderLen + part.bytes.length) _ _
    rwa [show pos + frameHeaderLen + part.bytes.length = pos + part.frameLen by omega]

variable {pos stop : Nat} {parts : List PartRef}

theorem Tiles.le (h : Tiles pos parts stop) : pos ≤ stop := by
  induction parts generalizing pos with
  | nil => exact Nat.le_of_eq h
  | cons part parts ih =>
    obtain ⟨hoffset, hrest⟩ := h
    have hstop := ih hrest
    omega

theorem Tiles.bounds (h : Tiles pos parts stop) {part : PartRef} (hpart : part ∈ parts) :
    pos + frameHeaderLen ≤ part.offset ∧ part.offset + part.len ≤ stop := by
  induction parts generalizing pos with
  | nil => cases hpart
  | cons first parts ih =>
    obtain ⟨hoffset, hrest⟩ := h
    have hstop := hrest.le
    rcases List.mem_cons.mp hpart with rfl | htail
    · exact ⟨Nat.le_of_eq hoffset.symm, hstop⟩
    · obtain ⟨hstart, hend⟩ := ih hrest htail
      exact ⟨by omega, hend⟩

theorem Tiles.sorted (h : Tiles pos parts stop) : parts.Pairwise (·.offset < ·.offset) := by
  induction parts generalizing pos with
  | nil => exact List.Pairwise.nil
  | cons part parts ih =>
    obtain ⟨-, hrest⟩ := h
    refine List.pairwise_cons.mpr ⟨fun other hother => ?_, ih hrest⟩
    have hstart := (hrest.bounds hother).1
    have hheader : frameHeaderLen = 16 := rfl
    omega

theorem Tiles.split {left right : List PartRef} {part : PartRef}
    (h : Tiles pos (left ++ part :: right) stop) :
    Tiles pos (left ++ [part]) (part.offset + part.len) ∧
      Tiles (part.offset + part.len) right stop := by
  induction left generalizing pos with
  | nil => exact ⟨⟨h.1, rfl⟩, h.2⟩
  | cons first left ih =>
    obtain ⟨hoffset, hrest⟩ := h
    obtain ⟨hleft, hright⟩ := ih hrest
    exact ⟨⟨hoffset, hleft⟩, hright⟩

theorem Tiles.append {left right : List PartRef} {pos mid stop : Nat} (hleft : Tiles pos left mid)
    (hright : Tiles mid right stop) : Tiles pos (left ++ right) stop := by
  induction left generalizing pos with
  | nil =>
    have hpos : pos = mid := hleft
    rw [hpos]
    exact hright
  | cons first left ih => exact ⟨hleft.1, ih hleft.2⟩

theorem slice_locate {before : Bytes} (parts : List (ValidPart crc32c)) {file rest : Bytes}
    (hfile : file = before ++ frames parts ++ rest) :
    (locate before.length parts).map
      (fun found => slice file found.1.offset (found.1.offset + found.1.len)) =
        parts.map ValidPart.bytes := by
  induction parts generalizing before with
  | nil => rfl
  | cons part parts ih =>
    have hnext : (before ++ part.frame).length = before.length + part.frameLen := by
      rw [List.length_append, part.length_frame]
    have hfile' : file = (before ++ part.frame) ++ frames parts ++ rest := by
      rw [hfile, frames_cons]
      simp only [List.append_assoc]
    have hheader : (before ++ FrameHeader.encode crc32c { partLen := part.bytes.length }).length =
        before.length + frameHeaderLen := by
      rw [List.length_append, FrameHeader.length_encode]
    have hsplit : file = (before ++ FrameHeader.encode crc32c { partLen := part.bytes.length }) ++
        (part.bytes ++ (frames parts ++ rest)) := by
      rw [hfile, frames_cons, ValidPart.frame, Format.frame]
      simp only [List.append_assoc]
    have hbody : slice file (before.length + frameHeaderLen)
        (before.length + frameHeaderLen + part.bytes.length) = part.bytes := by
      have h : slice file (before.length + frameHeaderLen + 0)
          (before.length + frameHeaderLen + part.bytes.length) =
            slice (part.bytes ++ (frames parts ++ rest)) 0 part.bytes.length :=
        hsplit ▸ slice_append_right 0 part.bytes.length hheader
      rwa [slice_append_left (Nat.le_refl _), slice_full (Nat.le_refl _)] at h
    rw [locate, List.map_cons, ← hnext, ih hfile']
    exact congrArg (· :: _) hbody

/-! ## One frame -/

theorem streamingFrameAt_frame (part : ValidPart crc32c) (rest : Bytes) :
    streamingFrameAt crc32c limits (part.frame ++ rest) =
      if part.bytes.length ≤ limits.maxPartLen then some (part.bytes.length, part.catalog)
      else none := by
  have hlen : (part.frame ++ rest).length = part.frameLen + rest.length := by
    rw [List.length_append, part.length_frame]
  have hframe : part.frameLen = frameHeaderLen + part.bytes.length := rfl
  have hheader : (part.frame ++ rest).take frameHeaderLen =
      FrameHeader.encode crc32c { partLen := part.bytes.length } := by
    rw [ValidPart.frame, Format.frame, List.append_assoc, List.take_append_of_le_length
      (by rw [FrameHeader.length_encode]), List.take_of_length_le
      (by rw [FrameHeader.length_encode])]
  have hbody : slice (part.frame ++ rest) frameHeaderLen
      (frameHeaderLen + part.bytes.length) = part.bytes := by
    have h : slice (FrameHeader.encode crc32c { partLen := part.bytes.length } ++
        (part.bytes ++ rest)) (frameHeaderLen + 0) (frameHeaderLen + part.bytes.length) =
          slice (part.bytes ++ rest) 0 part.bytes.length :=
      slice_append_right 0 part.bytes.length (FrameHeader.length_encode crc32c _)
    rwa [slice_append_left (Nat.le_refl _), slice_full (Nat.le_refl _)] at h
  have hdecode : FrameHeader.decode crc32c
      (FrameHeader.encode crc32c { partLen := part.bytes.length }) =
        .ok { partLen := part.bytes.length } := FrameHeader.decode_encode crc32c part.short
  rw [streamingFrameAt, if_neg (by omega), hheader, hdecode]
  dsimp only
  by_cases hle : part.bytes.length ≤ limits.maxPartLen
  · rw [if_pos hle, if_neg (by omega), if_neg (by omega), hbody, part.valid]
  · rw [if_neg hle, if_pos (by omega)]

/-! ## The scan -/

/-- The scan of `rest` with the fuel it needs. -/
def scanRest (crc32c : Checksum) (limits : JournalLimits) (maxParts pos count : Nat)
    (rest : Bytes) : Except JournalScanError (List (PartRef × Catalog) × Nat) :=
  visitFrames crc32c limits maxParts rest.length pos count rest

variable {rest : Bytes}

theorem visitFrames_succ {fuel pos count : Nat} (h : rest.length ≤ fuel) :
    visitFrames crc32c limits maxParts (fuel + 1) pos count rest =
      visitFrames crc32c limits maxParts fuel pos count rest := by
  induction fuel generalizing pos count rest with
  | zero =>
    have hnil : rest = [] := List.length_eq_zero_iff.mp (by omega)
    rw [hnil]
    rfl
  | succ fuel ih =>
    rw [visitFrames, visitFrames]
    cases hframe : streamingFrameAt crc32c limits rest with
    | none => rfl
    | some found =>
      obtain ⟨len, catalog⟩ := found
      have hdrop : (rest.drop (frameHeaderLen + len)).length ≤ fuel := by
        have hheader : frameHeaderLen = 16 := rfl
        rw [List.length_drop]
        omega
      simp only [ih hdrop]

theorem visitFrames_eq_scanRest {fuel pos count : Nat} (h : rest.length ≤ fuel) :
    visitFrames crc32c limits maxParts fuel pos count rest =
      scanRest crc32c limits maxParts pos count rest := by
  obtain ⟨extra, rfl⟩ := Nat.exists_eq_add_of_le h
  induction extra with
  | zero => rfl
  | succ extra ih =>
    rw [← Nat.add_assoc, visitFrames_succ (by omega)]
    exact ih (by omega)

theorem scanRest_nil (pos count : Nat) :
    scanRest crc32c limits maxParts pos count [] = .ok ([], pos) := rfl

theorem scanRest_damaged (pos count : Nat) (h : streamingFrameAt crc32c limits rest = none) :
    scanRest crc32c limits maxParts pos count rest = .ok ([], pos) := by
  cases rest with
  | nil => rfl
  | cons b rest =>
    rw [scanRest, List.length_cons, visitFrames, h]
    rfl

theorem scanRest_frame (part : ValidPart crc32c) (rest : Bytes) (pos count : Nat)
    (hlen : part.bytes.length ≤ limits.maxPartLen) :
    scanRest crc32c limits maxParts pos count (part.frame ++ rest) =
      if maxParts ≤ count then .error (.partLimitExceeded maxParts)
      else
        match scanRest crc32c limits maxParts (pos + part.frameLen) (count + 1) rest with
        | .error problem => .error problem
        | .ok (found, validLen) =>
          .ok (({ offset := pos + frameHeaderLen, len := part.bytes.length }, part.catalog) ::
            found, validLen) := by
  have htotal : (part.frame ++ rest).length = part.frameLen + rest.length := by
    rw [List.length_append, part.length_frame]
  have hpos := part.lt_frameLen
  obtain ⟨fuel, hfuel⟩ : ∃ fuel, (part.frame ++ rest).length = fuel + 1 :=
    ⟨part.frameLen + rest.length - 1, by omega⟩
  have hdrop : (part.frame ++ rest).drop (frameHeaderLen + part.bytes.length) = rest :=
    List.drop_left' part.length_frame
  rw [scanRest, hfuel, visitFrames, streamingFrameAt_frame, if_pos hlen]
  simp only [hdrop]
  rewrite [visitFrames_eq_scanRest (by omega)]
  rfl

/-- The limits admit every part of the list, and that many of them. -/
structure Admits (limits : JournalLimits) (maxParts count : Nat)
    (parts : List (ValidPart crc32c)) : Prop where
  len : ∀ part ∈ parts, part.bytes.length ≤ limits.maxPartLen
  count : count + parts.length ≤ maxParts

theorem Admits.tail {part : ValidPart crc32c} {parts : List (ValidPart crc32c)} {count : Nat}
    (h : Admits limits maxParts count (part :: parts)) :
    Admits limits maxParts (count + 1) parts where
  len other hother := h.len other (List.mem_cons_of_mem part hother)
  count := by
    have hcount := h.count
    rw [List.length_cons] at hcount
    omega

theorem Admits.shorter {parts all : List (ValidPart crc32c)} {count : Nat}
    (h : Admits limits maxParts count all) (hle : parts <+: all) :
    Admits limits maxParts count parts where
  len part hpart := h.len part (hle.subset hpart)
  count := Nat.le_trans (Nat.add_le_add_left hle.length_le count) h.count

theorem scanRest_frames (parts : List (ValidPart crc32c)) (rest : Bytes) (pos count : Nat)
    (h : Admits limits maxParts count parts) :
    scanRest crc32c limits maxParts pos count (frames parts ++ rest) =
      match scanRest crc32c limits maxParts (pos + (frames parts).length) (count + parts.length)
          rest with
      | .error problem => .error problem
      | .ok (found, validLen) => .ok (locate pos parts ++ found, validLen) := by
  induction parts generalizing pos count with
  | nil =>
    show scanRest crc32c limits maxParts pos count rest =
      match scanRest crc32c limits maxParts pos count rest with
      | .error problem => .error problem
      | .ok (found, validLen) => .ok (found, validLen)
    cases scanRest crc32c limits maxParts pos count rest <;> rfl
  | cons part parts ih =>
    have hcount := h.count
    have hlen := length_frames_cons part parts
    have hpos : pos + part.frameLen + (frames parts).length =
        pos + (frames (part :: parts)).length := by omega
    have hnext : count + 1 + parts.length = count + (part :: parts).length := by
      rw [List.length_cons]
      omega
    rw [frames_cons, List.append_assoc, scanRest_frame part _ pos count
      (h.len part List.mem_cons_self), if_neg (by omega), ih _ _ h.tail, hpos, hnext,
      ← frames_cons]
    cases scanRest crc32c limits maxParts (pos + (frames (part :: parts)).length)
      (count + (part :: parts).length) rest <;> rfl

theorem scanRest_frames_all (parts : List (ValidPart crc32c)) (pos count : Nat)
    (h : Admits limits maxParts count parts) :
    scanRest crc32c limits maxParts pos count (frames parts) =
      .ok (locate pos parts, pos + (frames parts).length) := by
  have hframes := scanRest_frames parts [] pos count h
  rw [List.append_nil, scanRest_nil] at hframes
  rw [hframes]
  simp only [List.append_nil]

theorem scanRest_frames_full (parts : List (ValidPart crc32c)) (pos count : Nat)
    {found : List (PartRef × Catalog)}
    (h : scanRest crc32c limits maxParts pos count (frames parts) =
      .ok (found, pos + (frames parts).length)) : found = locate pos parts := by
  induction parts generalizing pos count found with
  | nil =>
    cases h
    rfl
  | cons part parts ih =>
    have hpos := part.lt_frameLen
    by_cases hle : part.bytes.length ≤ limits.maxPartLen
    · rw [frames_cons, scanRest_frame part _ pos count hle] at h
      by_cases hcount : maxParts ≤ count
      · rw [if_pos hcount] at h
        cases h
      · rw [if_neg hcount] at h
        cases hrest : scanRest crc32c limits maxParts (pos + part.frameLen) (count + 1)
            (frames parts) with
        | error problem =>
          rw [hrest] at h
          cases h
        | ok result =>
          obtain ⟨others, validLen⟩ := result
          rw [hrest] at h
          have hpair := Except.ok.inj h
          have hvalid : validLen = pos + part.frameLen + (frames parts).length := by
            have hsnd := congrArg Prod.snd hpair
            simp only [List.length_append, part.length_frame] at hsnd
            omega
          rw [hvalid] at hrest
          rw [locate, ← ih _ _ hrest]
          exact (congrArg Prod.fst hpair).symm
    · have hnone : streamingFrameAt crc32c limits (part.frame ++ frames parts) = _ :=
        streamingFrameAt_frame part (frames parts)
      rw [if_neg hle] at hnone
      rw [frames_cons, scanRest_damaged pos count hnone] at h
      have hsnd := congrArg Prod.snd (Except.ok.inj h)
      simp only [List.length_append, part.length_frame] at hsnd
      omega

end Kronika.Format
