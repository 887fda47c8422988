/-
What a scan returns, for each kind of file that a writer leaves.

Without a live generation the previous scan does not matter.  A live generation is
read whole, or behind the parts that are known, with the same result.
-/
import Kronika.Journal.Reset
import Kronika.Store.Journal

namespace Kronika.Store

open Format Library Writer

variable {crc32c : Checksum} {file : Bytes} {plan : JournalReadPlan} {segmentId : SegmentId}
variable {parts more : List (ValidPart crc32c)}

/-! ## Plans -/

theorem committedResetPlan_some (h : committedResetPlan crc32c file = some plan) :
    plan.committedReset = true ∧ plan.segmentId ≠ none ∧ plan.validLen = file.length ∧
      ∃ marker, MarkedReset crc32c file marker ∧
        (SegmentId.new marker.previousSegmentId).isSome = true := by
  unfold committedResetPlan at h
  by_cases hlen : file.length < resetMarkerLen
  · rw [if_pos hlen] at h
    cases h
  · rw [if_neg hlen] at h
    by_cases hlong : file.length - resetMarkerLen ≤ journalHeaderLen
    · rw [if_pos hlong] at h
      cases h
    · rw [if_neg hlong] at h
      split at h
      · cases h
      · next marker hdecode =>
        by_cases hmeta : marker.previousLen ≠ file.length - resetMarkerLen ∨
            (marker.expectedPreviousHeader crc32c).isNone ∨
            (marker.classifyHeaderTransition crc32c (slice file 0 journalHeaderLen)).isNone
        · rw [if_pos hmeta] at h
          cases h
        · rw [if_neg hmeta] at h
          simp only [not_or, not_not, Option.isNone_iff_eq_none] at hmeta
          split at h
          · cases h
          · next hid =>
            cases h
            have hheader := Option.isSome_iff_ne_none.mpr hmeta.2.2
            exact ⟨rfl, Option.some_ne_none _, rfl, marker, ⟨by omega, hdecode, hmeta.1, hheader⟩,
              by rw [hid]; rfl⟩

theorem committedResetPlan_of_marked {marker : ResetMarker} (h : MarkedReset crc32c file marker)
    (hidentity : (SegmentId.new marker.previousSegmentId).isSome = true) :
    ∃ segmentId, committedResetPlan crc32c file =
      some { segmentId := some segmentId, scanLen := marker.previousLen
             validLen := file.length, committedReset := true } := by
  have hlong := h.long
  have hprevious := h.previous
  have hobserved : (slice file 0 journalHeaderLen).length = journalHeaderLen :=
    length_slice (by omega)
  obtain ⟨expected, hexpected, -⟩ :=
    (ResetMarker.classifyHeaderTransition_isSome hobserved).mp h.header
  obtain ⟨-, hbefore⟩ := ResetMarker.expectedPreviousHeader_spec hexpected
  have hmeta : ¬(marker.previousLen ≠ file.length - resetMarkerLen ∨
      (marker.expectedPreviousHeader crc32c).isNone = true ∨
      (marker.classifyHeaderTransition crc32c (slice file 0 journalHeaderLen)).isNone = true) := by
    have hheader := Option.isSome_iff_ne_none.mp h.header
    simp only [not_or, not_not, Option.isNone_iff_eq_none]
    exact ⟨hprevious, by rw [hexpected]; exact Option.some_ne_none _, hheader⟩
  obtain ⟨segmentId, hid⟩ := Option.isSome_iff_exists.mp hidentity
  refine ⟨segmentId, ?_⟩
  unfold committedResetPlan
  rw [if_neg (by omega), if_neg (by omega), h.decoded]
  dsimp only
  rw [if_neg hmeta, hid]

theorem committedResetPlan_eq {config : JournalConfig} {marker : ResetMarker}
    (h : CommittedReset crc32c config file marker) :
    ∃ segmentId, committedResetPlan crc32c file =
      some { segmentId := some segmentId, scanLen := marker.previousLen
             validLen := file.length, committedReset := true } :=
  committedResetPlan_of_marked h.toMarkedReset h.identity

theorem readJournalPlan_of_reset (hlen : file.length ≤ maxJournalLen)
    (hlong : journalHeaderLen ≤ file.length)
    (h : committedResetPlan crc32c file = some plan) : readJournalPlan crc32c file = .ok plan := by
  have hheader36 : journalHeaderLen = 36 := rfl
  rw [readJournalPlan, if_neg (by omega), if_neg (by omega), if_neg (by omega), h]

theorem readJournalPlan_length (h : readJournalPlan crc32c file = .ok plan) :
    file.length ≤ maxJournalLen := by
  unfold readJournalPlan at h
  by_cases hmax : maxJournalLen < file.length
  · rw [if_pos hmax] at h
    cases h
  · exact Nat.le_of_not_lt hmax

theorem headerPlan_ok {header : JournalHeader} {actual : Nat}
    (h : headerPlan header actual = .ok plan) :
    header.bodyLen = actual ∧ plan.committedReset = false ∧
      plan.scanLen = journalHeaderLen + actual ∧ plan.validLen = journalHeaderLen + actual ∧
      header.state = stateOf plan.segmentId ∧ (plan.segmentId = none ↔ actual = 0) := by
  unfold headerPlan at h
  by_cases hbody : header.bodyLen = actual
  · rw [if_neg (fun hne => hne hbody)] at h
    cases hstate : header.state with
    | empty =>
      rw [hstate] at h
      by_cases hzero : actual = 0
      · rw [if_pos hzero] at h
        cases h
        exact ⟨hbody, rfl, rfl, rfl, rfl, ⟨fun _ => hzero, fun _ => rfl⟩⟩
      · rw [if_neg hzero] at h
        cases h
    | active value =>
      rw [hstate] at h
      dsimp only at h
      by_cases hzero : actual = 0
      · rw [if_pos hzero] at h
        cases h
      · rw [if_neg hzero] at h
        split at h
        · cases h
        · next hid =>
          cases h
          refine ⟨hbody, rfl, rfl, rfl, ?_, ⟨fun hnone => absurd hnone (Option.some_ne_none _),
            fun hactual => absurd hactual hzero⟩⟩
          exact congrArg JournalState.active (SegmentId.value_of_new hid)
  · rw [if_pos hbody] at h
    cases h

theorem readJournalPlan_ok (h : readJournalPlan crc32c file = .ok plan) :
    (plan.segmentId = none ∧ plan.validLen ≤ journalHeaderLen) ∨
      (plan.committedReset = true ∧ plan.segmentId ≠ none ∧ journalHeaderLen < plan.validLen ∧
        ∃ marker, MarkedReset crc32c file marker) ∨
      ∃ header segmentId,
        JournalHeader.decode crc32c (slice file 0 journalHeaderLen) = .ok header ∧
        header.bodyLen = file.length - journalHeaderLen ∧ header.bodyLen ≠ 0 ∧
        header.state = .active segmentId.value ∧ plan = wholePlan (some segmentId) file.length := by
  have hmarker32 : resetMarkerLen = 32 := rfl
  unfold readJournalPlan at h
  by_cases hmax : maxJournalLen < file.length
  · rw [if_pos hmax] at h
    cases h
  · rw [if_neg hmax] at h
    by_cases hzero : file.length = 0
    · rw [if_pos hzero] at h
      cases h
      exact .inl ⟨rfl, Nat.zero_le _⟩
    · rw [if_neg hzero] at h
      by_cases hlong : file.length < journalHeaderLen
      · rw [if_pos hlong] at h
        cases h
      · rw [if_neg hlong] at h
        cases hreset : committedResetPlan crc32c file with
        | some found =>
          rw [hreset] at h
          cases h
          obtain ⟨hcommitted, hsome, hvalid, marker, hmarker, -⟩ := committedResetPlan_some hreset
          have hlength := hmarker.long
          exact .inr (.inl ⟨hcommitted, hsome, by omega, marker, hmarker⟩)
        | none =>
          rw [hreset] at h
          cases hdecode : JournalHeader.decode crc32c (slice file 0 journalHeaderLen) with
          | error problem =>
            rw [hdecode] at h
            cases h
          | ok header =>
            rw [hdecode] at h
            obtain ⟨hbody, hcommitted, hscan, hvalid, hstate, hactual⟩ := headerPlan_ok h
            cases hid : plan.segmentId with
            | none =>
              have hempty := hactual.mp hid
              exact .inl ⟨rfl, by omega⟩
            | some segmentId =>
              have hne : header.bodyLen ≠ 0 := fun hnil => by
                rw [hactual.mpr (by omega)] at hid
                cases hid
              refine .inr (.inr ⟨header, segmentId, rfl, hbody, hne, ?_, ?_⟩)
              · rw [hstate, hid]
                rfl
              · have htotal : journalHeaderLen + (file.length - journalHeaderLen) =
                    file.length := by omega
                rw [htotal] at hscan hvalid
                cases plan
                cases hid
                cases hscan
                cases hvalid
                cases hcommitted
                rfl

/-- A live generation: a header in front of the frames of its parts. -/
structure Live (crc32c : Checksum) (file : Bytes) (segmentId : SegmentId)
    (parts : List (ValidPart crc32c)) : Prop where
  plan : readJournalPlan crc32c file = .ok (wholePlan (some segmentId) file.length)
  long : journalHeaderLen ≤ file.length
  body : file.drop journalHeaderLen = frames parts
  ne_nil : parts ≠ []

theorem Live.length (h : Live crc32c file segmentId parts) :
    file.length = journalHeaderLen + (frames parts).length := by
  have hlong := h.long
  have hbody := congrArg List.length h.body
  rw [List.length_drop] at hbody
  omega

theorem live_of_shows {identity : Option SegmentId} (h : Shows crc32c file identity parts)
    (hplan : readJournalPlan crc32c file = .ok plan) (hid : plan.segmentId = some segmentId) :
    identity = some segmentId ∧ Live crc32c file segmentId parts := by
  rcases readJournalPlan_ok hplan with ⟨hnone, -⟩ | ⟨-, -, -, marker, hmarker⟩ |
    ⟨header, found, hdecode, hbody, hne, hstate, rfl⟩
  · rw [hnone] at hid
    cases hid
  · exact absurd hmarker (h.no_reset marker)
  · cases hid
    obtain ⟨hframes, hshown⟩ := h.body header hdecode hbody
    have hparts : parts ≠ [] := by
      intro hnil
      have hzero := congrArg List.length hframes
      rw [List.length_drop, hnil] at hzero
      have hnone : (frames ([] : List (ValidPart crc32c))).length = 0 := rfl
      omega
    have hsame : stateOf (some segmentId) = stateOf identity := hstate.symm.trans (hshown hparts)
    exact ⟨(stateOf_inj hsame).symm, hplan, h.long, hframes, hparts⟩

/-! ## Scans -/

def activeParts (segmentId : SegmentId) (pos : Nat) (parts : List (ValidPart crc32c)) :
    List ActivePart :=
  (locate pos parts).map fun (part, catalog) =>
    { segmentId := segmentId, part := part, catalog := catalog }

theorem activeParts_append (segmentId : SegmentId) (pos : Nat)
    (parts more : List (ValidPart crc32c)) :
    activeParts segmentId pos (parts ++ more) =
      activeParts segmentId pos parts ++
        activeParts segmentId (pos + (frames parts).length) more := by
  rw [activeParts, locate_append, List.map_append, activeParts, activeParts]

theorem length_activeParts (segmentId : SegmentId) (pos : Nat) (parts : List (ValidPart crc32c)) :
    (activeParts segmentId pos parts).length = parts.length := by
  rw [activeParts, List.length_map, length_locate]

theorem scanJournalFrom_eq {startAt : Nat} {prevActive : List ActivePart}
    (h : ∀ plan segmentId, readJournalPlan crc32c file = .ok plan →
      plan.segmentId = some segmentId → canResume plan segmentId startAt prevActive = true →
        startAt = journalHeaderLen ∧ prevActive = []) :
    scanJournalFrom crc32c (some file) startAt prevActive = scanJournal crc32c (some file) := by
  rw [scanJournal, scanJournalFrom, scanJournalFrom, scanJournalReaderBoundedFrom,
    scanJournalReaderBoundedFrom]
  cases hplan : readJournalPlan crc32c file with
  | error problem => rfl
  | ok plan =>
    dsimp only
    cases hid : plan.segmentId with
    | none => rfl
    | some segmentId =>
      dsimp only
      rw [ite_self]
      by_cases hresume : canResume plan segmentId startAt prevActive = true
      · obtain ⟨hstart, hprev⟩ := h plan segmentId hplan hid hresume
        rw [if_pos hresume, hstart, hprev]
      · rw [if_neg hresume]

theorem scanJournal_of_error {problem : ScanError}
    (h : readJournalPlan crc32c file = .error problem) :
    scanJournal crc32c (some file) = .error problem := by
  rw [scanJournal, scanJournalFrom, scanJournalReaderBoundedFrom, h]

theorem scanJournal_of_none (h : readJournalPlan crc32c file = .ok plan)
    (hid : plan.segmentId = none) :
    scanJournal crc32c (some file) =
      .ok { active := [], validLen := plan.validLen, committedReset := false } := by
  rw [scanJournal, scanJournalFrom, scanJournalReaderBoundedFrom, h]
  dsimp only
  rw [hid]

theorem scanJournal_of_reset {scan : JournalScan} (h : readJournalPlan crc32c file = .ok plan)
    (hid : plan.segmentId = some segmentId) (hcommitted : plan.committedReset = true)
    (hscan : scanJournal crc32c (some file) = .ok scan) :
    scan.active = [] ∧ scan.validLen = plan.validLen ∧ scan.committedReset = true := by
  rw [scanJournal, scanJournalFrom, scanJournalReaderBoundedFrom, h] at hscan
  dsimp only at hscan
  rw [hid] at hscan
  dsimp only at hscan
  rw [ite_self, scanFrames] at hscan
  cases hvisit : visitJournalFrames crc32c file plan journalHeaderLen
      (maxJournalParts - ([] : List ActivePart).length) maxJournalParts with
  | error problem =>
    rw [hvisit] at hscan
    cases hscan
  | ok found =>
    rw [hvisit, hcommitted] at hscan
    cases hscan
    exact ⟨rfl, rfl, rfl⟩

theorem scanFrames_live (h : Live crc32c file segmentId (parts ++ more))
    (hadmits : Admits .default maxJournalParts 0 (parts ++ more)) :
    scanFrames crc32c file (wholePlan (some segmentId) file.length) segmentId
        (journalHeaderLen + (frames parts).length) (activeParts segmentId journalHeaderLen parts)
        maxJournalParts =
      .ok { active := activeParts segmentId journalHeaderLen (parts ++ more)
            validLen := file.length, committedReset := false } := by
  have hlong := h.long
  have hcount := hadmits.count
  have hlen := length_activeParts segmentId journalHeaderLen parts
  have hbody := h.body
  rw [List.length_append] at hcount
  rw [frames_append] at hbody
  have hdrop : file.drop (journalHeaderLen + (frames parts).length) = frames more := by
    rw [← List.drop_drop, hbody, List.drop_left]
  have htotal := congrArg List.length hbody
  rw [List.length_drop, List.length_append] at htotal
  have hrest : Admits .default (maxJournalParts - parts.length) 0 more := by
    refine ⟨fun part hpart => hadmits.len part (List.mem_append_right _ hpart), ?_⟩
    omega
  have hscan : visitFrames crc32c .default (maxJournalParts - parts.length) (frames more).length
      (journalHeaderLen + (frames parts).length) 0 (frames more) =
        .ok (locate (journalHeaderLen + (frames parts).length) more,
          journalHeaderLen + (frames parts).length + (frames more).length) :=
    scanRest_frames_all more _ 0 hrest
  have hvisit : visitJournalFrames crc32c file (wholePlan (some segmentId) file.length)
      (journalHeaderLen + (frames parts).length) (maxJournalParts - parts.length)
      maxJournalParts = .ok (locate (journalHeaderLen + (frames parts).length) more) := by
    have hwhole : (wholePlan (some segmentId) file.length).scanLen = file.length := rfl
    rw [visitJournalFrames, hwhole, List.take_length, visitJournalStreamingStrictFrom,
      if_neg (by omega), hdrop, hscan]
    dsimp only
    rw [if_neg (by omega)]
  rw [scanFrames, hlen, if_neg (by omega), hvisit, activeParts_append]
  rfl

theorem scanJournal_live (h : Live crc32c file segmentId parts)
    (hadmits : Admits .default maxJournalParts 0 parts) :
    scanJournal crc32c (some file) =
      .ok { active := activeParts segmentId journalHeaderLen parts, validLen := file.length
            committedReset := false } := by
  have hscan := scanFrames_live (show Live crc32c file segmentId ([] ++ parts) from h) hadmits
  rw [scanJournal, scanJournalFrom, scanJournalReaderBoundedFrom, h.plan]
  show (if _ then _ else _) = _
  rw [ite_self]
  exact hscan

theorem scanJournalFrom_live (h : Live crc32c file segmentId (parts ++ more))
    (hne : parts ≠ []) (hadmits : Admits .default maxJournalParts 0 (parts ++ more)) :
    scanJournalFrom crc32c (some file) (journalHeaderLen + (frames parts).length)
        (activeParts segmentId journalHeaderLen parts) = scanJournal crc32c (some file) := by
  have hlong := h.long
  have htotal := congrArg List.length h.body
  rw [frames_append, List.length_append, List.length_drop] at htotal
  have hresume : canResume (wholePlan (some segmentId) file.length) segmentId
      (journalHeaderLen + (frames parts).length)
      (activeParts segmentId journalHeaderLen parts) = true := by
    cases parts with
    | nil => exact absurd rfl hne
    | cons part parts =>
      have hend : journalHeaderLen + (frames (part :: parts)).length ≤ file.length := by omega
      simp [canResume, activeParts, locate, wholePlan, hend]
  rw [scanJournal_live h hadmits, scanJournalFrom, scanJournalReaderBoundedFrom, h.plan]
  show (if _ then _ else _) = _
  rw [if_pos hresume, scanFrames_live h hadmits]

theorem visitFrames_head {limits : JournalLimits} {maxParts fuel pos count validLen : Nat}
    {rest : Bytes} {found : List (PartRef × Catalog)} {first : PartRef × Catalog}
    (h : visitFrames crc32c limits maxParts fuel pos count rest = .ok (found, validLen))
    (hfirst : found.head? = some first) : first.1.offset = pos + frameHeaderLen := by
  cases fuel with
  | zero =>
    cases h
    cases hfirst
  | succ fuel =>
    rw [visitFrames] at h
    split at h
    · cases h
      cases hfirst
    · split at h
      · cases h
        cases hfirst
      · split at h
        · cases h
        · split at h
          · cases h
          · cases h
            cases hfirst
            rfl

theorem visitJournalFrames_ok {startAt remainingParts totalPartLimit : Nat}
    {found : List (PartRef × Catalog)}
    (h : visitJournalFrames crc32c file plan startAt remainingParts totalPartLimit = .ok found) :
    visitFrames crc32c .default remainingParts
      ((file.take plan.scanLen).drop startAt).length startAt 0
        ((file.take plan.scanLen).drop startAt) = .ok (found, plan.scanLen) := by
  unfold visitJournalFrames visitJournalStreamingStrictFrom at h
  by_cases hstart : startAt > (file.take plan.scanLen).length
  · rw [if_pos hstart] at h
    cases h
  · rw [if_neg hstart] at h
    cases hvisit : visitFrames crc32c .default remainingParts
        ((file.take plan.scanLen).drop startAt).length startAt 0
          ((file.take plan.scanLen).drop startAt) with
    | error problem =>
      rw [hvisit] at h
      cases problem <;> cases h
    | ok result =>
      obtain ⟨visited, validLen⟩ := result
      rw [hvisit] at h
      dsimp only at h
      by_cases hvalid : validLen = plan.scanLen
      · rw [if_neg (fun hne => hne hvalid)] at h
        cases h
        rw [hvalid]
      · rw [if_pos hvalid] at h
        cases h

theorem scanJournalFrom_ne (h : Live crc32c file segmentId parts)
    (hadmits : Admits .default maxJournalParts 0 parts) {startAt : Nat}
    (hstart : journalHeaderLen < startAt) (hend : startAt ≤ file.length) :
    scanJournalFrom crc32c (some file) startAt [] ≠ scanJournal crc32c (some file) := by
  have hresume : canResume (wholePlan (some segmentId) file.length) segmentId startAt [] =
      true := by
    simp [canResume, wholePlan, hend, Nat.le_of_lt hstart]
  rw [scanJournal_live h hadmits, scanJournalFrom, scanJournalReaderBoundedFrom, h.plan]
  show (if _ then _ else _) ≠ _
  rw [if_pos hresume, scanFrames]
  intro hsame
  cases hvisit : visitJournalFrames crc32c file (wholePlan (some segmentId) file.length) startAt
      (maxJournalParts - ([] : List ActivePart).length) maxJournalParts with
  | error problem =>
    rw [hvisit] at hsame
    cases hsame
  | ok found =>
    have hframes := visitJournalFrames_ok hvisit
    rw [hvisit] at hsame
    have hactive := congrArg JournalScan.active (Except.ok.inj hsame)
    cases parts with
    | nil => exact h.ne_nil rfl
    | cons part parts =>
      cases found with
      | nil => cases hactive
      | cons first found =>
        have hoffset := visitFrames_head hframes rfl
        have hfirst := congrArg (fun active => active.head?.map (·.part.offset)) hactive
        have hsameOffset : first.1.offset = journalHeaderLen + frameHeaderLen :=
          Option.some.inj hfirst
        omega

end Kronika.Store
