/-
Reads through a pinned prefix of the journal.

A scan describes the file it has read up to its end, a snapshot of it can be cut at the end
of each part, and every cut lies in that file.  A read then finds the bytes of the file or
fails, however the writer has gone on, unless it took back what the scan had seen or began
another generation under the same segment.
-/
import Kronika.Store.PinnedGeneration
import Kronika.Store.Positions
import Kronika.Store.Incremental

namespace Kronika.Store

open Format Library Writer

variable {crc32c : Checksum} {segmentId : SegmentId} {file : Bytes}
variable {snapshot pinned : ActiveSnapshot} {position : Nat}

/-! ## The parts of a scan -/

def ActivePart.stop (part : ActivePart) : Nat := part.part.offset + part.part.len

/-- The parts are of one segment, and lie behind each other up to `stop`. -/
structure Lined (segmentId : SegmentId) (active : List ActivePart) (stop : Nat) : Prop where
  segment : ∀ part ∈ active, part.segmentId = segmentId
  tiles : ∃ low, journalHeaderLen ≤ low ∧ Tiles low (active.map (·.part)) stop

variable {stop : Nat}

theorem lined_nil (h : journalHeaderLen ≤ stop) : Lined segmentId [] stop where
  segment _ hpart := nomatch hpart
  tiles := ⟨stop, h, rfl⟩

theorem Lined.long {active : List ActivePart} (h : Lined segmentId active stop) :
    journalHeaderLen ≤ stop := by
  obtain ⟨low, hlow, htiles⟩ := h.tiles
  exact hlow.trans htiles.le

theorem Lined.bounds {active : List ActivePart} (h : Lined segmentId active stop)
    {part : ActivePart} (hpart : part ∈ active) :
    journalHeaderLen + frameHeaderLen ≤ part.part.offset ∧ part.stop ≤ stop := by
  obtain ⟨low, hlow, htiles⟩ := h.tiles
  obtain ⟨hstart, hstop⟩ := htiles.bounds (List.mem_map_of_mem hpart)
  exact ⟨by omega, hstop⟩

theorem Lined.append {active more : List ActivePart} {mid stop : Nat}
    (h : Lined segmentId active mid) (hmore : ∀ part ∈ more, part.segmentId = segmentId)
    (htiles : Tiles mid (more.map (·.part)) stop) : Lined segmentId (active ++ more) stop where
  segment part hpart := (List.mem_append.mp hpart).elim (h.segment part) (hmore part)
  tiles := by
    obtain ⟨low, hlow, hactive⟩ := h.tiles
    rw [List.map_append]
    exact ⟨low, hlow, hactive.append htiles⟩

variable {left right : List ActivePart} {part : ActivePart}

theorem Lined.split (h : Lined segmentId (left ++ part :: right) stop) :
    Lined segmentId (left ++ [part]) part.stop ∧
      Tiles part.stop (right.map (·.part)) stop := by
  obtain ⟨hsegment, low, hlow, htiles⟩ := h
  rw [List.map_append] at htiles
  obtain ⟨hleft, hright⟩ := htiles.split
  refine ⟨⟨fun other hother => hsegment other ?_, low, hlow, ?_⟩, hright⟩
  · rw [← List.singleton_append, ← List.append_assoc]
    exact List.mem_append_left _ hother
  · rw [List.map_append]
    exact hleft

theorem tiles_visitFrames {limits : JournalLimits} {maxParts fuel pos count validLen : Nat}
    {rest : Bytes} {found : List (PartRef × Catalog)}
    (h : visitFrames crc32c limits maxParts fuel pos count rest = .ok (found, validLen)) :
    Tiles pos (found.map Prod.fst) validLen := by
  induction fuel generalizing pos count rest found with
  | zero =>
    cases h
    exact rfl
  | succ fuel ih =>
    rw [visitFrames] at h
    split at h
    · cases h
      exact rfl
    · split at h
      · cases h
        exact rfl
      · next len catalog _ =>
        split at h
        · cases h
        · split at h
          · cases h
          · next later stop hlater =>
            cases h
            have hnext := ih hlater
            rw [← Nat.add_assoc] at hnext
            exact ⟨rfl, hnext⟩

variable {scan : JournalScan}

theorem lined_scanFrames {prev : List ActivePart} {startAt maxParts : Nat}
    (hprev : Lined segmentId prev startAt)
    (hscan : scanFrames crc32c file (wholePlan (some segmentId) file.length) segmentId startAt
      prev maxParts = .ok scan) :
    scan.validLen = file.length ∧ Lined segmentId scan.active file.length := by
  rw [scanFrames] at hscan
  split at hscan
  · cases hscan
  · split at hscan
    · cases hscan
    · next found hvisit =>
      have htiles : Tiles startAt (found.map Prod.fst) file.length :=
        tiles_visitFrames (visitJournalFrames_ok hvisit)
      cases hscan
      refine ⟨rfl, hprev.append (fun part hpart => ?_) ?_⟩
      · obtain ⟨_, _, rfl⟩ := List.mem_map.mp hpart
        rfl
      · rw [List.map_map]
        exact htiles

/-- A scan that goes on from the parts of another one, or from the header, finds the parts
of one segment up to the end of the file. -/
theorem lined_of_scan {startAt : Nat} {prev : List ActivePart}
    (hprev : prev ≠ [] → ∃ other, Lined other prev startAt)
    (hscan : scanJournalFrom crc32c (some file) startAt prev = .ok scan) (hne : scan.active ≠ []) :
    ∃ segmentId, readJournalPlan crc32c file = .ok (wholePlan (some segmentId) file.length) ∧
      scan.validLen = file.length ∧ Lined segmentId scan.active file.length := by
  rw [scanJournalFrom, scanJournalReaderBoundedFrom] at hscan
  cases hplan : readJournalPlan crc32c file with
  | error problem =>
    rw [hplan] at hscan
    cases hscan
  | ok plan =>
    rw [hplan] at hscan
    dsimp only at hscan
    cases hid : plan.segmentId with
    | none =>
      rw [hid] at hscan
      cases hscan
      exact absurd rfl hne
    | some segmentId =>
      rw [hid] at hscan
      dsimp only at hscan
      rcases readJournalPlan_ok hplan with ⟨hnone, -⟩ | ⟨hreset, -⟩ | ⟨_, found, -, -, -, -, rfl⟩
      · rw [hnone] at hid
        cases hid
      · -- the frames of a reset generation are not published
        have hresume : canResume plan segmentId startAt prev = false := by
          rw [canResume, hreset]
          rfl
        rw [hresume, if_neg Bool.false_ne_true, scanFrames] at hscan
        exfalso
        apply hne
        cases hvisit : visitJournalFrames crc32c file plan journalHeaderLen
            (maxJournalParts - ([] : List ActivePart).length) maxJournalParts with
        | error problem =>
          rw [hvisit] at hscan
          cases hscan
        | ok found =>
          rw [hvisit, hreset] at hscan
          cases hscan
          rfl
      · cases hid
        refine ⟨segmentId, rfl, ?_⟩
        by_cases hresume : canResume (wholePlan (some segmentId) file.length) segmentId startAt
            prev = true
        · rw [if_pos hresume] at hscan
          simp only [canResume, Bool.and_eq_true, decide_eq_true_eq] at hresume
          obtain ⟨⟨⟨-, hhead⟩, hlow⟩, -⟩ := hresume
          refine lined_scanFrames ?_ hscan
          cases prev with
          | nil => exact lined_nil hlow
          | cons first prev =>
            obtain ⟨other, hlined⟩ := hprev (List.cons_ne_nil _ _)
            have hsegment : first.segmentId = segmentId := by simpa using hhead
            have hother := hlined.segment first List.mem_cons_self
            rw [← hsegment, hother]
            exact hlined
        · rw [if_neg hresume] at hscan
          exact lined_scanFrames (lined_nil (Nat.le_refl _)) hscan

/-- The scans of a reader, each from the one before it.  The journal is another file each
time, and a full scan is one that goes on from the scan of no journal. -/
inductive Rescanned (crc32c : Checksum) : JournalScan → Prop
  | absent : Rescanned crc32c emptyJournalScan
  | next {disk : Option Bytes} {previous scan : JournalScan} (h : Rescanned crc32c previous)
      (hscan : scanJournalFrom crc32c disk previous.validLen previous.active = .ok scan) :
      Rescanned crc32c scan

theorem Rescanned.lined (h : Rescanned crc32c scan) (hne : scan.active ≠ []) :
    ∃ segmentId, Lined segmentId scan.active scan.validLen := by
  induction h with
  | absent => exact absurd rfl hne
  | @next disk previous scan _ hscan ih =>
    cases disk with
    | none =>
      cases hscan
      exact absurd rfl hne
    | some file =>
      obtain ⟨segmentId, -, hlen, hlined⟩ := lined_of_scan ih hscan hne
      rw [← hlen] at hlined
      exact ⟨segmentId, hlined⟩

/-! ## Positions -/

theorem boundaryAt_mem (position pos count : Nat) (parts : List ActivePart) :
    (ActiveSnapshot.boundaryAt position pos count parts).1 = pos ∨
      ∃ part ∈ parts, (ActiveSnapshot.boundaryAt position pos count parts).1 = part.stop := by
  induction parts generalizing pos count with
  | nil => exact Or.inl rfl
  | cons part parts ih =>
    rw [ActiveSnapshot.boundaryAt]
    by_cases hafter : position < part.part.offset + part.part.len
    · rw [if_pos hafter]
      exact Or.inl rfl
    · rw [if_neg hafter]
      right
      rcases ih (part.part.offset + part.part.len) (count + 1) with hhere | ⟨other, hother, hlater⟩
      · exact ⟨part, List.mem_cons_self, hhere⟩
      · exact ⟨other, List.mem_cons_of_mem _ hother, hlater⟩

theorem boundaryAt_lined (h : Lined segmentId (left ++ part :: right) stop) (pos count : Nat) :
    ActiveSnapshot.boundaryAt part.stop pos count (left ++ part :: right) =
      (part.stop, count + (left ++ [part]).length) := by
  obtain ⟨⟨-, low, -, htiles⟩, hright⟩ := h.split
  have hnext : ∀ other ∈ right.head?, part.stop < other.part.offset + other.part.len := by
    intro other hother
    have hheader : frameHeaderLen = 16 := rfl
    have hbounds := hright.bounds (List.mem_map_of_mem (List.mem_of_mem_head? hother))
    omega
  rw [← List.singleton_append, ← List.append_assoc]
  cases hparts : left ++ [part] with
  | nil => exact absurd hparts (by simp)
  | cons first rest =>
    rw [hparts] at htiles
    -- the first part ends where the next one begins, so that `pos` does not matter
    have hle : first.part.offset + first.part.len ≤ part.stop := htiles.2.le
    rw [List.cons_append, ActiveSnapshot.boundaryAt, if_neg (by omega),
      boundaryAt_append htiles.2 hnext, List.length_cons]
    congr 1
    omega

def ActiveSnapshot.upTo (snapshot : ActiveSnapshot) (position : Nat) : List ActivePart :=
  snapshot.parts.filter fun part => part.part.offset + part.part.len ≤ position

theorem filter_header {parts : List ActivePart} (h : Lined segmentId parts stop) :
    (parts.filter fun part => part.part.offset + part.part.len ≤ journalHeaderLen) = [] := by
  apply List.filter_eq_nil_iff.mpr
  intro part hpart hle
  have hbounds := (h.bounds hpart).1
  have hheader : frameHeaderLen = 16 := rfl
  rw [decide_eq_true_eq] at hle
  omega

theorem filter_split (h : Lined segmentId (left ++ part :: right) stop) :
    ((left ++ part :: right).filter fun other =>
      other.part.offset + other.part.len ≤ part.stop) = left ++ [part] := by
  obtain ⟨hleft, hright⟩ := h.split
  rw [← List.singleton_append, ← List.append_assoc, List.filter_append]
  have hkeep : ((left ++ [part]).filter fun other =>
      other.part.offset + other.part.len ≤ part.stop) = left ++ [part] := by
    apply List.filter_eq_self.mpr
    intro other hother
    exact decide_eq_true (hleft.bounds hother).2
  have hdrop : (right.filter fun other =>
      other.part.offset + other.part.len ≤ part.stop) = [] := by
    apply List.filter_eq_nil_iff.mpr
    intro other hother hle
    have hbounds := hright.bounds (List.mem_map_of_mem hother)
    have hheader : frameHeaderLen = 16 := rfl
    rw [decide_eq_true_eq] at hle
    omega
  rw [hkeep, hdrop, List.append_nil]

theorem atPosition_header (h : Lined segmentId snapshot.parts snapshot.validLen) :
    snapshot.atPosition journalHeaderLen =
      .ok { snapshot with partCount := 0, validLen := journalHeaderLen } := by
  have hzero : ActiveSnapshot.boundaryAt journalHeaderLen journalHeaderLen 0 snapshot.parts =
      (journalHeaderLen, 0) := by
    cases hparts : snapshot.parts with
    | nil => rfl
    | cons part parts =>
      have hbounds := (h.bounds (hparts ▸ List.mem_cons_self : part ∈ snapshot.parts)).1
      have hheader : frameHeaderLen = 16 := rfl
      rw [ActiveSnapshot.boundaryAt, if_pos (by omega)]
  rw [atPosition_iff, hzero]
  exact ⟨h.long, rfl, rfl⟩

theorem atPosition_stop (h : Lined segmentId snapshot.parts snapshot.validLen)
    (hparts : snapshot.parts = left ++ part :: right) :
    snapshot.atPosition part.stop =
      .ok { snapshot with partCount := (left ++ [part]).length, validLen := part.stop } := by
  have hpart : part ∈ snapshot.parts := by
    rw [hparts]
    exact List.mem_append_right _ List.mem_cons_self
  have hstop := (h.bounds hpart).2
  rw [hparts] at h
  rw [atPosition_iff, hparts, boundaryAt_lined h, Nat.zero_add]
  exact ⟨hstop, rfl, rfl⟩

theorem atPosition_accepts (h : Lined segmentId snapshot.parts snapshot.validLen) (position : Nat) :
    (∃ cut, snapshot.atPosition position = .ok cut) ↔
      position = journalHeaderLen ∨
        ∃ part ∈ snapshot.parts, position = part.part.offset + part.part.len := by
  constructor
  · rintro ⟨cut, hcut⟩
    obtain ⟨-, hhit, -⟩ := atPosition_iff.mp hcut
    rcases boundaryAt_mem position journalHeaderLen 0 snapshot.parts with
      hheader | ⟨part, hpart, hend⟩
    · exact Or.inl (hhit.symm.trans hheader)
    · exact Or.inr ⟨part, hpart, hhit.symm.trans hend⟩
  · rintro (rfl | ⟨part, hpart, rfl⟩)
    · exact ⟨_, atPosition_header h⟩
    · obtain ⟨left, right, hparts⟩ := List.append_of_mem hpart
      exact ⟨_, atPosition_stop h hparts⟩

/-- What a cut keeps: the parts up to its position, and the segment. -/
structure CutAt (snapshot : ActiveSnapshot) (position : Nat) (cut : ActiveSnapshot) : Prop where
  parts_eq : cut.parts = snapshot.upTo position
  validLen_eq : cut.validLen = position
  segmentId_eq : cut.segmentId = snapshot.segmentId

theorem Lined.cut {cut : ActiveSnapshot} (h : Lined segmentId snapshot.parts snapshot.validLen)
    (hcut : snapshot.atPosition position = .ok cut) :
    CutAt snapshot position cut ∧ Lined segmentId cut.parts cut.validLen := by
  rcases (atPosition_accepts h position).mp ⟨cut, hcut⟩ with rfl | ⟨part, hpart, rfl⟩
  · rw [atPosition_header h] at hcut
    cases hcut
    exact ⟨⟨(filter_header h).symm, rfl, rfl⟩, lined_nil (Nat.le_refl _)⟩
  · obtain ⟨left, right, hparts⟩ := List.append_of_mem hpart
    have hstop := atPosition_stop h hparts
    rw [ActivePart.stop] at hstop
    rw [hstop] at hcut
    cases hcut
    have hcount : (left ++ [part]).length ≤ snapshot.parts.length := by
      rw [hparts, List.length_append, List.length_append, List.length_cons, List.length_cons,
        List.length_nil]
      omega
    have hcutParts : ({ snapshot with
        partCount := (left ++ [part]).length
        validLen := part.part.offset + part.part.len } : ActiveSnapshot).parts =
          snapshot.parts.take (left ++ [part]).length := parts_cut hcount
    rw [hparts] at h
    have hfirst : (left ++ part :: right).take (left ++ [part]).length = left ++ [part] := by
      have hall : left ++ part :: right = left ++ [part] ++ right := by simp
      rw [hall, List.take_left]
    rw [hparts, hfirst] at hcutParts
    refine ⟨⟨?_, rfl, rfl⟩, ?_⟩
    · rw [hcutParts, ActiveSnapshot.upTo, hparts]
      exact (filter_split h).symm
    · rw [hcutParts]
      exact h.split.1

/-- A snapshot, and what is cut from it. -/
inductive Pins (snapshot : ActiveSnapshot) : ActiveSnapshot → Prop
  | whole : Pins snapshot snapshot
  | cut {pinned cut : ActiveSnapshot} (position : Nat) (h : Pins snapshot pinned)
      (hcut : pinned.atPosition position = .ok cut) : Pins snapshot cut

theorem Pins.lined (h : Pins snapshot pinned)
    (hsnapshot : Lined segmentId snapshot.parts snapshot.validLen) :
    Lined segmentId pinned.parts pinned.validLen ∧ pinned.segmentId = snapshot.segmentId ∧
      pinned.validLen ≤ snapshot.validLen := by
  induction h with
  | whole => exact ⟨hsnapshot, rfl, Nat.le_refl _⟩
  | cut position _ hcut ih =>
    obtain ⟨hlined, hsegment, hle⟩ := ih
    obtain ⟨hcutAt, hcutLined⟩ := hlined.cut hcut
    have hbound := (atPosition_iff.mp hcut).1
    rw [← hcutAt.validLen_eq] at hbound
    exact ⟨hcutLined, hcutAt.segmentId_eq.trans hsegment, hbound.trans hle⟩

/-! ## Reads -/

/-- A file with this plan is read up to its end, and every first part of it is a prefix of
the generation. -/
theorem captured_of_plan
    (hplan : readJournalPlan crc32c file = .ok (wholePlan (some segmentId) file.length))
    (len : Nat) : Captured crc32c segmentId ((file.drop journalHeaderLen).take len) file := by
  rcases readJournalPlan_ok hplan with ⟨hnone, -⟩ | ⟨hreset, -⟩ |
    ⟨header, found, hdecode, hbody, hne, hstate, hwhole⟩
  · cases hnone
  · cases hreset
  · have hsegment : some segmentId = some found := congrArg JournalReadPlan.segmentId hwhole
    cases hsegment
    have hlong : journalHeaderLen ≤ file.length := by omega
    have hslice : (slice file 0 journalHeaderLen).length = journalHeaderLen := length_slice hlong
    refine ⟨⟨List.take_prefix _ _, header, hstate, ?_⟩, ?_, ?_⟩
    · obtain ⟨hencode, -⟩ := JournalHeader.encode_of_decode hslice hdecode
      rw [hencode, slice_slice (by decide)]
    · cases hmarked : committedResetPlan crc32c file with
      | none => rfl
      | some plan =>
        have hread := readJournalPlan_of_reset (readJournalPlan_length hplan) hlong hmarked
        have hcommitted := (committedResetPlan_some hmarked).1
        rw [hplan] at hread
        cases hread
        cases hcommitted
    · intro other hother
      rw [hdecode] at hother
      cases hother
      exact hbody

theorem not_valid_of_gone {validLen : Nat} (h : Gone crc32c segmentId file)
    (hlen : journalHeaderLen < validLen) :
    validateActiveSnapshot crc32c file segmentId validLen ≠ .ok () := by
  intro hvalid
  obtain ⟨hreset, hle, header, hdecode, hstate⟩ := validateActiveSnapshot_ok hvalid
  rcases h with hshort | hmarked | ⟨state, hother, hfile⟩
  · omega
  · rw [hreset] at hmarked
    cases hmarked
  · exact hother ((hfile.state_eq (by omega) hdecode).symm.trans hstate)

theorem slice_of_prefix {file during bytes : Bytes} {start stop len : Nat}
    (hbytes : bytes = (file.drop journalHeaderLen).take len)
    (hbegins : bytes <+: during.drop journalHeaderLen) (hstart : journalHeaderLen ≤ start)
    (hstop : stop ≤ journalHeaderLen + bytes.length) :
    slice during start stop = slice file start stop := by
  have hwithin : ∀ whole : Bytes, bytes <+: whole.drop journalHeaderLen →
      slice whole start stop =
        slice bytes (start - journalHeaderLen) (stop - journalHeaderLen) := by
    rintro whole ⟨rest, hrest⟩
    by_cases hempty : stop ≤ start
    · rw [slice, slice, List.drop_of_length_le, List.drop_of_length_le]
      · rw [List.length_take]
        omega
      · rw [List.length_take]
        omega
    · have hwhole : whole = whole.take journalHeaderLen ++ (bytes ++ rest) := by
        rw [hrest, List.take_append_drop]
      have hlen : (whole.take journalHeaderLen).length = journalHeaderLen := by
        have htotal := congrArg List.length hrest
        rw [List.length_append, List.length_drop] at htotal
        rw [List.length_take]
        omega
      have hshift : slice (whole.take journalHeaderLen ++ (bytes ++ rest))
          (journalHeaderLen + (start - journalHeaderLen))
          (journalHeaderLen + (stop - journalHeaderLen)) =
            slice (bytes ++ rest) (start - journalHeaderLen) (stop - journalHeaderLen) :=
        slice_append_right _ _ hlen
      rw [← hwhole, Nat.add_sub_cancel' hstart, Nat.add_sub_cancel' (by omega)] at hshift
      rw [hshift, slice_append_left (by omega)]
  rw [hwithin during hbegins, hwithin file (hbytes ▸ List.take_prefix _ _)]

/-- The snapshot of a scan of `scanned`, opened when the journal is `opened`. -/
def Opens (crc32c : Checksum) (scanned opened : Bytes) (snapshot : ActiveSnapshot) : Prop :=
  ∃ previous scan, Rescanned crc32c previous ∧
    scanJournalFrom crc32c (some scanned) previous.validLen previous.active = .ok scan ∧
    openActiveSnapshot crc32c (some opened) scan.active scan.validLen = .ok (some snapshot)

variable {scanned opened : Bytes}

theorem Opens.spec (h : Opens crc32c scanned opened snapshot) :
    readJournalPlan crc32c scanned =
        .ok (wholePlan (some snapshot.segmentId) scanned.length) ∧
      snapshot.validLen = scanned.length ∧
      Lined snapshot.segmentId snapshot.parts snapshot.validLen := by
  obtain ⟨previous, scan, hprevious, hscan, hopen⟩ := h
  have hfound := openActiveSnapshot_ok hopen
  cases hactive : scan.active with
  | nil =>
    rw [hactive] at hfound
    cases hfound
  | cons first rest =>
    have hne : scan.active ≠ [] := by
      rw [hactive]
      exact List.cons_ne_nil _ _
    obtain ⟨segmentId, hplan, hlen, hlined⟩ := lined_of_scan hprevious.lined hscan hne
    have hsegment : first.segmentId = segmentId := by
      apply hlined.segment first
      rw [hactive]
      exact List.mem_cons_self
    rw [hactive] at hfound
    cases hfound
    rw [ActiveSnapshot.parts, List.take_of_length_le (Nat.le_refl _), ← hactive]
    dsimp only
    rw [hsegment, hlen]
    exact ⟨hplan, rfl, hlined⟩

section Run

variable {config : JournalConfig} {content : Bytes} {s₀ s₁ s₂ s₃ s₄ : SharedFile}

theorem Opens.holds (h : Opens crc32c s₀.file opened snapshot) (hsteady : Steady crc32c s₀)
    {validLen : Nat} (hlong : journalHeaderLen < validLen) (hle : validLen ≤ snapshot.validLen)
    (hspared : ¬s₀.Shrinks snapshot.segmentId validLen) :
    ∃ bytes, bytes = (s₀.file.drop journalHeaderLen).take (validLen - journalHeaderLen) ∧
      bytes ≠ [] ∧ validLen = journalHeaderLen + bytes.length ∧
      Holds crc32c snapshot.segmentId bytes s₀ := by
  obtain ⟨hplan, hlen, -⟩ := h.spec
  have hbytes : ((s₀.file.drop journalHeaderLen).take (validLen - journalHeaderLen)).length =
      validLen - journalHeaderLen := by
    rw [List.length_take, List.length_drop]
    omega
  have hne : (s₀.file.drop journalHeaderLen).take (validLen - journalHeaderLen) ≠ [] := by
    intro hnil
    rw [hnil, List.length_nil] at hbytes
    omega
  have htotal : validLen = journalHeaderLen +
      ((s₀.file.drop journalHeaderLen).take (validLen - journalHeaderLen)).length := by omega
  refine ⟨_, rfl, hne, htotal, holds_of_captured hsteady (captured_of_plan hplan _) hne ?_⟩
  rw [← htotal]
  exact hspared

theorem readPartRange_nil {before during after : Bytes} {i offset len : Nat}
    (h : pinned.parts = []) :
    pinned.readPartRange crc32c before during after i offset len = .error .outOfBounds := by
  rw [ActiveSnapshot.readPartRange, h]
  rfl

theorem Lined.parts_nil (h : Lined segmentId pinned.parts pinned.validLen)
    (hlen : ¬journalHeaderLen < pinned.validLen) : pinned.parts = [] := by
  cases hparts : pinned.parts with
  | nil => rfl
  | cons part parts =>
    have hbounds := h.bounds (hparts ▸ List.mem_cons_self : part ∈ pinned.parts)
    have hheader : frameHeaderLen = 16 := rfl
    have hstop : part.stop = part.part.offset + part.part.len := rfl
    omega

theorem read_eq_scanned {i offset len : Nat} {bytes read : Bytes}
    (hbytes : bytes = (s₀.file.drop journalHeaderLen).take (pinned.validLen - journalHeaderLen))
    (htotal : pinned.validLen = journalHeaderLen + bytes.length)
    (hlined : Lined segmentId pinned.parts pinned.validLen)
    (hheld : Held crc32c segmentId bytes s₃.file)
    (hread : pinned.readPartRange crc32c s₂.file s₃.file s₄.file i offset len = .ok read) :
    ∃ part, pinned.parts[i]? = some part ∧
      read = slice s₀.file (part.part.offset + offset) (part.part.offset + offset + len) := by
  obtain ⟨part, hpart, -, rfl, -, -, hwithin, hduring⟩ := readPartRange_ok hread
  refine ⟨part, hpart, ?_⟩
  have hstart := (hlined.bounds (List.mem_of_getElem? hpart)).1
  have hheader : frameHeaderLen = 16 := rfl
  have hbegins : bytes <+: s₃.file.drop journalHeaderLen := by
    rcases hheld with hkeeps | ⟨-, hbody⟩ | hshort
    · exact hkeeps.body
    · exact hbody
    · omega
  exact slice_of_prefix hbytes hbegins (by omega) (by omega)

/-- While the writer neither takes back what a snapshot covers nor begins another generation
under its segment, the snapshot is an exact prefix: it is cut at the ends of its parts and only
there, a read finds the bytes of the scan, and behind a reset every read fails. -/
theorem pinned_reads
    (hstart : Relation.ReflTransGen (SharedStep crc32c) (.opening crc32c config content) s₀)
    (hsnapshot : Opens crc32c s₀.file s₁.file snapshot) (hpins : Pins snapshot pinned)
    (hspared : ¬s₀.Shrinks snapshot.segmentId pinned.validLen)
    (hopen : Relation.ReflTransGen
      (SparingStep crc32c snapshot.segmentId pinned.validLen) s₀ s₁)
    (hbefore : Relation.ReflTransGen
      (SparingStep crc32c snapshot.segmentId pinned.validLen) s₁ s₂)
    (hduring : Relation.ReflTransGen
      (SparingStep crc32c snapshot.segmentId pinned.validLen) s₂ s₃)
    (hafter : Relation.ReflTransGen
      (SparingStep crc32c snapshot.segmentId pinned.validLen) s₃ s₄) :
    (∀ position, (∃ cut, pinned.atPosition position = .ok cut) ↔
        position = journalHeaderLen ∨
          ∃ part ∈ pinned.parts, position = part.part.offset + part.part.len) ∧
      (∀ position cut, pinned.atPosition position = .ok cut → CutAt pinned position cut) ∧
      (∀ i offset len read,
        pinned.readPartRange crc32c s₂.file s₃.file s₄.file i offset len = .ok read →
          ∃ part, pinned.parts[i]? = some part ∧
            read =
              slice s₀.file (part.part.offset + offset) (part.part.offset + offset + len)) ∧
      ((Gone crc32c snapshot.segmentId s₂.file ∨ Gone crc32c snapshot.segmentId s₄.file ∨
          ∃ s : SharedFile, s.Replaced snapshot.segmentId ∧
            Relation.ReflTransGen
              (SparingStep crc32c snapshot.segmentId pinned.validLen) s₀ s ∧
            Relation.ReflTransGen
              (SparingStep crc32c snapshot.segmentId pinned.validLen) s s₄) →
        ∀ i offset len, ∃ problem,
          pinned.readPartRange crc32c s₂.file s₃.file s₄.file i offset len = .error problem) := by
  obtain ⟨hlined, hsegment, hle⟩ := hpins.lined hsnapshot.spec.2.2
  refine ⟨atPosition_accepts hlined, fun _ _ hcut => (hlined.cut hcut).1, ?_, ?_⟩
  · intro i offset len read hread
    by_cases hlong : journalHeaderLen < pinned.validLen
    · have hsteady := (steady_opening config content).run hstart
      obtain ⟨bytes, hbytes, hne, htotal, hholds⟩ :=
        hsnapshot.holds hsteady hlong hle hspared
      obtain ⟨hsteady₃, hphase⟩ := phases hsteady (Or.inl hholds) hne htotal
        ((hopen.trans hbefore).trans hduring)
      obtain ⟨_, _, _, _, _, hvalid, -⟩ := readPartRange_ok hread
      rw [hsegment] at hvalid
      rcases hphase with hholds₃ | hover
      · exact read_eq_scanned hbytes htotal hlined (hholds₃.held _ List.mem_cons_self) hread
      · have hgone := (over_of_over hsteady₃ hover hafter).gone _ List.mem_cons_self
        exact absurd hvalid (not_valid_of_gone hgone hlong)
    · rw [readPartRange_nil (hlined.parts_nil hlong)] at hread
      cases hread
  · intro hstale i offset len
    by_cases hlong : journalHeaderLen < pinned.validLen
    · cases hread : pinned.readPartRange crc32c s₂.file s₃.file s₄.file i offset len with
      | error problem => exact ⟨problem, rfl⟩
      | ok read =>
        exfalso
        obtain ⟨_, _, _, _, hvalid, hvalid', -⟩ := readPartRange_ok hread
        rw [hsegment] at hvalid hvalid'
        rcases hstale with hgone | hgone | ⟨s, hreplaced, hto, hfrom⟩
        · exact not_valid_of_gone hgone hlong hvalid
        · exact not_valid_of_gone hgone hlong hvalid'
        · have hsteady := (steady_opening config content).run hstart
          obtain ⟨bytes, -, hne, htotal, hholds⟩ := hsnapshot.holds hsteady hlong hle hspared
          obtain ⟨hsteady', hphase⟩ := phases hsteady (Or.inl hholds) hne htotal hto
          rcases hphase with hheld | hover
          · exact hheld.not_replaced hreplaced
          · have hgone := (over_of_over hsteady' hover hfrom).gone _ List.mem_cons_self
            exact not_valid_of_gone hgone hlong hvalid'
    · exact ⟨_, readPartRange_nil (hlined.parts_nil hlong)⟩

/-! ## What is taken back, and what begins again -/

theorem run_write (crc32c : Checksum) (work : Work) (file : Bytes) {later : List Bytes}
    {next : Bytes} (hnext : next ∈ later) :
    ∃ rest, Relation.ReflTransGen (SharedStep crc32c)
      { work := work, file := file, later := later }
      { work := work, file := next, later := rest } := by
  obtain ⟨skipped, rest, rfl⟩ := List.append_of_mem hnext
  exact ⟨rest, .single .write⟩

theorem run_drain (crc32c : Checksum) (work : Work) (file : Bytes) (later : List Bytes) :
    ∃ final, Relation.ReflTransGen (SharedStep crc32c)
      { work := work, file := file, later := later }
      { work := work, file := final, later := [] } := by
  by_cases hnil : later = []
  · rw [hnil]
    exact ⟨file, .refl⟩
  · refine ⟨later.getLast hnil, ?_⟩
    have hstep : SharedStep crc32c
        { work := work, file := file, later := later.dropLast ++ later.getLast hnil :: [] }
        { work := work, file := later.getLast hnil, later := [] } := .write
    rw [List.dropLast_append_getLast hnil] at hstep
    exact .single hstep

section Append

variable {journal : Journal} {part : Bytes}

theorem run_append (hcheck : journal.checkAppend crc32c segmentId part = .ok ()) :
    Relation.ReflTransGen (SharedStep crc32c) (.idle journal)
      (.idle (journal.appended crc32c segmentId part)) := by
  obtain ⟨final, hdrain⟩ := run_drain crc32c (.appending journal segmentId part)
    journal.file (stops journal.file (journal.appendOps crc32c segmentId part))
  exact ((Relation.ReflTransGen.single (.startAppend segmentId part hcheck)).trans hdrain).tail
    .finishAppend

theorem run_reset {marker : ResetMarker} (hhealthy : journal.poisoned = false)
    (hmarker : journal.resetMarker crc32c = .ok marker) :
    Relation.ReflTransGen (SharedStep crc32c) (.idle journal)
      (.idle (journal.reset crc32c).2) := by
  obtain ⟨final, hdrain⟩ := run_drain crc32c (.resetting journal marker) journal.file
    (stops journal.file (journal.resetOps crc32c marker))
  exact ((Relation.ReflTransGen.single (.startReset marker hhealthy hmarker)).trans hdrain).tail
    .finishReset

theorem run_taken_back {parts : List (ValidPart crc32c)} {part : ValidPart crc32c}
    (hclean : journal.Clean crc32c parts)
    (hcheck : journal.checkAppend crc32c segmentId part.bytes = .ok ()) :
    ∃ s : SharedFile, s.file = (journal.appended crc32c segmentId part.bytes).file ∧
      Relation.ReflTransGen (SharedStep crc32c) (.idle journal) s ∧
      Relation.ReflTransGen (SharedStep crc32c) s (.idle journal) := by
  have hstop := applyAll_mem_stops journal.file (journal.appendOps crc32c segmentId part.bytes)
  have hrolls := rollsBack_of_append hclean hcheck hstop
  obtain ⟨rest, hwrite⟩ := run_write crc32c (.appending journal segmentId part.bytes) journal.file
    hstop
  obtain ⟨final, hdrain⟩ := run_drain crc32c
    (.rollingBack journal segmentId (journal.appended crc32c segmentId part.bytes).file)
    (journal.appended crc32c segmentId part.bytes).file
    (stops (journal.appended crc32c segmentId part.bytes).file
      (rollback crc32c journal.len journal.currentHeader))
  refine ⟨_, rfl,
    (Relation.ReflTransGen.single (.startAppend segmentId part.bytes hcheck)).trans hwrite, ?_⟩
  have hfail : SharedStep crc32c
      { work := .appending journal segmentId part.bytes
        file := (journal.appended crc32c segmentId part.bytes).file, later := rest }
      (.rollingBack crc32c journal segmentId
        (journal.appended crc32c segmentId part.bytes).file) := .failAppend
  have hback := ((Relation.ReflTransGen.single hfail).trans hdrain).tail .finishRollback
  rw [show journal.rolledBack crc32c (journal.appended crc32c segmentId part.bytes).file = journal
    from hrolls.rolledBack] at hback
  exact hback

end Append

def replacingPart (len : Nat) : Bytes :=
  buildPart castagnoli [{ typeId := 1001001, rows := 1, body := List.replicate len 9 }]
    { minTs := 3, maxTs := 3 }

theorem checkAppend_replacing :
    sampleJournal.checkAppend castagnoli sampleId (replacingPart 159) = .ok () := by
  decide +kernel

theorem checkAppend_again : (Journal.fresh castagnoli .default).checkAppend castagnoli sampleId
    (replacingPart 1) = .ok () := by
  decide +kernel

theorem run_sample : Relation.ReflTransGen (SharedStep castagnoli)
    (.opening castagnoli .default sampleJournal.file) (.idle sampleJournal) := by
  obtain ⟨final, hdrain⟩ := run_drain castagnoli
    (.opening .default sampleJournal.file) sampleJournal.file
    (stops sampleJournal.file (openOps castagnoli .default sampleJournal.file))
  have hopen := open_clean clean_sample
  exact hdrain.tail (.finishOpen hopen)

def takenScan : JournalScan where
  active := activeParts sampleId journalHeaderLen [sampleValidPart, secondValidPart]
  validLen := endOf [sampleValidPart, secondValidPart]
  committedReset := false

def sampleScan : JournalScan where
  active := activeParts sampleId journalHeaderLen [sampleValidPart]
  validLen := endOf [sampleValidPart]
  committedReset := false

theorem opens_taken : Opens castagnoli
    secondJournal.file
    secondJournal.file
    (captured sampleId [sampleValidPart, secondValidPart]) :=
  ⟨emptyJournalScan, takenScan, .absent, by decide +kernel, by decide +kernel⟩

theorem opens_sample : Opens castagnoli sampleJournal.file sampleJournal.file
    (captured sampleId [sampleValidPart]) :=
  ⟨emptyJournalScan, sampleScan, .absent, by decide +kernel, by decide +kernel⟩

theorem read_sample : (captured sampleId [sampleValidPart]).readPartRange castagnoli
    sampleJournal.file sampleJournal.file sampleJournal.file 0 0 samplePart.length =
      .ok samplePart := by
  decide +kernel

def secondAppend : SharedFile where
  work := .appending sampleJournal sampleId secondPart
  file := sampleJournal.file
  later := stops sampleJournal.file (sampleJournal.appendOps castagnoli sampleId secondPart)

theorem sparing_secondAppend (validLen : Nat) :
    SparingStep castagnoli sampleId validLen (.idle sampleJournal) secondAppend := by
  refine ⟨.startAppend sampleId secondPart checkAppend_second, ?_, ?_⟩
  · rintro ⟨journal, _, hwork, hid, _⟩
    cases hwork
    cases hid
  · rintro ⟨_, _, hwork, _⟩
    cases hwork

/-- A read of the first part, while the second one is being appended. -/
theorem pinned_reads_sample :
    ∃ part, (captured sampleId [sampleValidPart]).parts[0]? = some part ∧
      samplePart = slice sampleJournal.file (part.part.offset + 0)
        (part.part.offset + 0 + samplePart.length) := by
  have hsnapshot : Opens castagnoli (SharedFile.idle sampleJournal).file
      (SharedFile.idle sampleJournal).file (captured sampleId [sampleValidPart]) := opens_sample
  have hidle : ¬(SharedFile.idle sampleJournal).Shrinks
      (captured sampleId [sampleValidPart]).segmentId
      (captured sampleId [sampleValidPart]).validLen := by
    rintro ⟨_, _, hwork, _⟩
    cases hwork
  have hstep : Relation.ReflTransGen (SparingStep castagnoli
      (captured sampleId [sampleValidPart]).segmentId
      (captured sampleId [sampleValidPart]).validLen) (.idle sampleJournal) secondAppend :=
    .single (sparing_secondAppend _)
  have hread : (captured sampleId [sampleValidPart]).readPartRange castagnoli
      (SharedFile.idle sampleJournal).file (SharedFile.idle sampleJournal).file
      secondAppend.file 0 0 samplePart.length = .ok samplePart := read_sample
  exact (pinned_reads run_sample hsnapshot .whole hidle .refl .refl .refl hstep).2.2.1 0 0 _ _
    hread

/-- A read through the snapshot of a scan finds other bytes than the scan has read. -/
def Misread (crc32c : Checksum) (scanned file : Bytes) : Prop :=
  ∃ snapshot i part read, Opens crc32c scanned scanned snapshot ∧
    snapshot.parts[i]? = some part ∧
    snapshot.readPartRange crc32c file file file i 0 part.part.len = .ok read ∧
    read ≠ slice scanned part.part.offset (part.part.offset + part.part.len)

/-- An append that a scan has seen is taken back, and another part takes its place; or a
reset is followed by a generation under the same segment. -/
theorem pinned_read_differs :
    (∃ s₀ s₁ : SharedFile, Relation.ReflTransGen (SharedStep castagnoli)
        (.opening castagnoli .default sampleJournal.file) s₀ ∧
      Relation.ReflTransGen (SharedStep castagnoli) s₀ s₁ ∧
      Misread castagnoli s₀.file s₁.file) ∧
    (∃ s₀ s s₁ : SharedFile, Relation.ReflTransGen (SharedStep castagnoli)
        (.opening castagnoli .default sampleJournal.file) s₀ ∧
      Relation.ReflTransGen (SharedStep castagnoli) s₀ s ∧ s.Replaced sampleId ∧
      Relation.ReflTransGen (SharedStep castagnoli) s s₁ ∧
      Misread castagnoli s₀.file s₁.file) := by
  constructor
  · have hcheck : sampleJournal.checkAppend castagnoli sampleId secondValidPart.bytes = .ok () :=
      checkAppend_second
    obtain ⟨s₀, hfile, hto, hback⟩ := run_taken_back clean_sample hcheck
    refine ⟨s₀, .idle (sampleJournal.appended castagnoli sampleId (replacingPart 159)),
      run_sample.trans hto, hback.trans (run_append checkAppend_replacing), ?_⟩
    rw [hfile]
    refine ⟨captured sampleId [sampleValidPart, secondValidPart], 1, _, replacingPart 159,
      opens_taken, rfl, ?_, ?_⟩
    · decide +kernel
    · decide +kernel
  · have hmarker : sampleJournal.resetMarker castagnoli = .ok sampleMarker := resetMarker_sample
    have hreset := run_reset rfl hmarker
    rw [reset_eq_fresh clean_sample hmarker] at hreset
    refine ⟨.idle sampleJournal, .idle (Journal.fresh castagnoli .default),
      .idle ((Journal.fresh castagnoli .default).appended castagnoli sampleId (replacingPart 1)),
      run_sample, hreset, ⟨rfl, fun hid => by cases hid⟩, run_append checkAppend_again, ?_⟩
    refine ⟨captured sampleId [sampleValidPart], 0, _, replacingPart 1, opens_sample, rfl, ?_, ?_⟩
    · decide +kernel
    · decide +kernel

end Run

end Kronika.Store
