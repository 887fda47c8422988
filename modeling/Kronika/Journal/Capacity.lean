/-
The room that a journal keeps, over every run of its operations.

An append leaves room for the marker of the reset that follows it.  An operation
that fails is rolled back to the journal before it, or leaves a poisoned handle,
which refuses everything else.
-/
import Kronika.Journal.Reopen

namespace Kronika.Writer

open Format Library

variable {crc32c : Checksum} {journal : Journal} {parts : List (ValidPart crc32c)}
variable {segmentId : SegmentId} {config : JournalConfig} {file : Bytes}

/-! ## Rolling back -/

def Journal.rolledBack (crc32c : Checksum) (journal : Journal) (file : Bytes) : Journal :=
  { journal with
    file := FileOp.applyAll file (rollback crc32c journal.len journal.currentHeader) }

theorem rolledBack_of_body (h : journal.Clean crc32c parts) (hlong : journal.len ≤ file.length)
    (hbody : (file.take journal.len).drop journalHeaderLen = frames parts) :
    journal.rolledBack crc32c file = journal := by
  have hheader := JournalHeader.length_encode crc32c (headerOf journal.segmentId parts)
  have hfile : FileOp.applyAll file (rollback crc32c journal.len journal.currentHeader) =
      journal.file := by
    rw [rollback, applyAll_cons, applyAll_cons, FileOp.apply, setLen_of_le hlong, writeHeader,
      FileOp.apply, writeAt_zero, h.currentHeader, splice, List.take_length, hheader, hbody, h.file]
    rfl
  rw [Journal.rolledBack, hfile]

theorem rolledBack_of_append (h : journal.Clean crc32c parts) {bytes : Bytes}
    (hcheck : journal.checkAppend crc32c segmentId bytes = .ok ())
    (hfile : file ∈ stops journal.file (journal.appendOps crc32c segmentId bytes)) :
    journal.rolledBack crc32c file = journal := by
  obtain ⟨part, rfl⟩ := validPart_of_checkAppend h hcheck
  have hlen := h.len
  have hheader := JournalHeader.length_encode crc32c (headerOf (some segmentId) [part])
  cases stopped_of_mem_stops h hfile with
  | tornFirstHeader k hk hempty =>
    subst hempty
    have htorn := length_splice_headers crc32c k (headerOf (some segmentId) [part]) .empty
    have hzero : (frames ([] : List (ValidPart crc32c))).length = 0 := rfl
    refine rolledBack_of_body h (by omega) ?_
    rw [List.drop_of_length_le (by rw [List.length_take]; omega)]
    rfl
  | tornFirstFrame k hk hempty =>
    subst hempty
    have hzero : (frames ([] : List (ValidPart crc32c))).length = 0 := rfl
    refine rolledBack_of_body h (by rw [List.length_append]; omega) ?_
    rw [List.drop_of_length_le (by rw [List.length_take]; omega)]
    rfl
  | tornFrame k hk hne =>
    have himage := length_image journal.segmentId parts
    refine rolledBack_of_body h (by rw [List.length_append]; omega) ?_
    rw [List.take_append_of_le_length (by omega), List.take_of_length_le (by omega)]
    exact List.drop_left' (JournalHeader.length_encode crc32c _)
  | tornHeader k hk hne =>
    have htorn := length_splice_headers crc32c k (headerOf (some segmentId) (parts ++ [part]))
      (headerOf journal.segmentId parts)
    have hall := congrArg List.length (frames_concat parts part)
    rw [List.length_append] at hall
    refine rolledBack_of_body h (by rw [List.length_append]; omega) ?_
    rw [frames_concat, ← List.append_assoc, List.take_append_of_le_length (by
      rw [List.length_append]; omega), List.take_of_length_le (by rw [List.length_append]; omega)]
    exact List.drop_left' htorn

theorem rolledBack_of_marker (h : journal.Clean crc32c parts) {marker : ResetMarker}
    (hfile : file ∈ stops journal.file (journal.markerOps crc32c marker)) :
    journal.rolledBack crc32c file = journal := by
  have himage := h.length_file
  obtain ⟨tail, rfl⟩ : ∃ tail, file = journal.file ++ tail := by
    rw [Journal.markerOps, ← himage] at hfile
    rcases mem_stops_write.mp hfile with ⟨k, -, rfl⟩ | hrest
    · exact ⟨_, writeAt_length _ _⟩
    · rw [writeAt_length] at hrest
      rcases mem_stops_sync.mp hrest with rfl | hnil
      · exact ⟨_, rfl⟩
      · exact ⟨_, mem_stops_nil.mp hnil⟩
  refine rolledBack_of_body h (by rw [List.length_append]; omega) ?_
  rw [List.take_append_of_le_length (by omega), List.take_of_length_le (by omega), h.file]
  exact List.drop_left' (JournalHeader.length_encode crc32c _)

/-! ## Runs -/

/-- The journals that open, append and reset lead to under one configuration, with the
ways these can fail.  The flag says that an append has grown the journal. -/
inductive Reaches (crc32c : Checksum) (config : JournalConfig) : Journal → Bool → Prop
  | opened {journal : Journal} {disk : Option Bytes}
      (hopen : Journal.open crc32c config disk = .ok journal) :
      Reaches crc32c config journal false
  | append {journal : Journal} {grown : Bool} (segmentId : SegmentId) (part : Bytes)
      (h : Reaches crc32c config journal grown) :
      Reaches crc32c config (journal.append crc32c segmentId part).2
        (grown || (journal.append crc32c segmentId part).1.isOk)
  | reset {journal : Journal} {grown : Bool} (h : Reaches crc32c config journal grown) :
      Reaches crc32c config (journal.reset crc32c).2 grown
  | appendRolledBack {journal : Journal} {grown : Bool} {segmentId : SegmentId} {part file : Bytes}
      (h : Reaches crc32c config journal grown)
      (hcheck : journal.checkAppend crc32c segmentId part = .ok ())
      (hfile : file ∈ stops journal.file (journal.appendOps crc32c segmentId part)) :
      Reaches crc32c config (journal.rolledBack crc32c file) grown
  | resetRolledBack {journal : Journal} {grown : Bool} {marker : ResetMarker} {file : Bytes}
      (h : Reaches crc32c config journal grown) (hhealthy : journal.poisoned = false)
      (hmarker : journal.resetMarker crc32c = .ok marker)
      (hfile : file ∈ stops journal.file (journal.markerOps crc32c marker)) :
      Reaches crc32c config (journal.rolledBack crc32c file) grown
  /-- A rollback or the end of a reset failed, and left some file. -/
  | poisoned {journal : Journal} {grown : Bool} (file : Bytes)
      (h : Reaches crc32c config journal grown) :
      Reaches crc32c config { journal with file := file, poisoned := true } grown
  /-- The process was stopped within an append. -/
  | restartedAppend {journal next : Journal} {grown : Bool} {segmentId : SegmentId}
      {part file : Bytes} (h : Reaches crc32c config journal grown)
      (hcheck : journal.checkAppend crc32c segmentId part = .ok ())
      (hfile : file ∈ stops journal.file (journal.appendOps crc32c segmentId part))
      (hopen : Journal.open crc32c config (some file) = .ok next) :
      Reaches crc32c config next grown
  /-- The process was stopped within a reset. -/
  | restartedReset {journal next : Journal} {grown : Bool} {marker : ResetMarker} {file : Bytes}
      (h : Reaches crc32c config journal grown) (hhealthy : journal.poisoned = false)
      (hmarker : journal.resetMarker crc32c = .ok marker)
      (hfile : file ∈ stops journal.file (journal.resetOps crc32c marker))
      (hopen : Journal.open crc32c config (some file) = .ok next) :
      Reaches crc32c config next grown

/-- The invariant: what the handle keeps is that of a clean journal, with room for a
marker once it was grown. -/
structure Kept (crc32c : Checksum) (config : JournalConfig) (journal : Journal) (grown : Bool)
    (parts : List (ValidPart crc32c)) : Prop where
  sameConfig : journal.config = config
  repaired : Journal.Clean crc32c
    { journal with file := image journal.segmentId parts, poisoned := false } parts
  file : journal.poisoned = false → journal.file = image journal.segmentId parts
  room : grown = true → parts ≠ [] → journal.len + resetMarkerLen ≤ config.maxJournalLen

variable {grown : Bool}

theorem Kept.clean (h : Kept crc32c config journal grown parts)
    (hhealthy : journal.poisoned = false) : journal.Clean crc32c parts :=
  ⟨h.file hhealthy, h.repaired.len, h.repaired.refs, h.repaired.identity, h.repaired.config,
    h.repaired.admits, h.repaired.bound, hhealthy⟩

theorem kept_of_clean (h : journal.Clean crc32c parts) (hconfig : journal.config = config)
    (hroom : grown = true → parts ≠ [] → journal.len + resetMarkerLen ≤ config.maxJournalLen) :
    Kept crc32c config journal grown parts where
  sameConfig := hconfig
  repaired := ⟨rfl, h.len, h.refs, h.identity, h.config, h.admits, h.bound, rfl⟩
  file _ := h.file
  room := hroom

theorem open_ok {disk : Option Bytes} (h : Journal.open crc32c config disk = .ok journal) :
    journal.config = config ∧ ∃ parts : List (ValidPart crc32c), journal.Clean crc32c parts := by
  cases disk with
  | none =>
    obtain ⟨hconfig, rfl⟩ := open_none h
    exact ⟨rfl, [], clean_fresh hconfig⟩
  | some file =>
    obtain ⟨-, -, hfile⟩ := openExisting_ok (open_some h)
    obtain ⟨-, -, -, hconfig, -⟩ := openFile_ok hfile
    exact ⟨hconfig, clean_of_open h⟩

theorem Shows.open_len {identity : Option SegmentId} (hshows : Shows crc32c file identity parts)
    (h : Journal.open crc32c config (some file) = .ok journal) :
    journal.len = journalHeaderLen + (frames parts).length := by
  have hfile := openExisting_of_no_reset hshows.ne_nil hshows.no_reset (open_some h)
  obtain ⟨hlong, -, hlen, -, -, header, hdecode, hbody, -⟩ := openFile_ok hfile
  have hframes := congrArg List.length (hshows.body header hdecode hbody).1
  rw [List.length_drop] at hframes
  omega

theorem Kept.append (h : Kept crc32c config journal grown parts)
    (segmentId : SegmentId) (part : Bytes) :
    ∃ parts', Kept crc32c config (journal.append crc32c segmentId part).2
      (grown || (journal.append crc32c segmentId part).1.isOk) parts' := by
  cases hcheck : journal.checkAppend crc32c segmentId part with
  | error problem =>
    rw [Journal.append, hcheck]
    rw [show (Except.error problem : Except JournalError PartRef).isOk = false from rfl,
      Bool.or_false]
    exact ⟨parts, h⟩
  | ok _ =>
    have hclean := h.clean (checkAppend_ok hcheck).1
    obtain ⟨valid, rfl⟩ := validPart_of_checkAppend hclean hcheck
    rw [Journal.append, hcheck]
    refine ⟨parts ++ [valid], kept_of_clean (hclean.appended hcheck) h.sameConfig fun _ _ => ?_⟩
    rw [← h.sameConfig]
    exact room_appended hcheck

theorem Kept.reset (h : Kept crc32c config journal grown parts) :
    ∃ parts', Kept crc32c config (journal.reset crc32c).2 grown parts' := by
  unfold Journal.reset
  by_cases hpoisoned : journal.poisoned = true
  · rw [if_pos hpoisoned]
    exact ⟨parts, h⟩
  · rw [if_neg hpoisoned]
    by_cases hempty : journal.parts.isEmpty = true
    · rw [if_pos hempty]
      exact ⟨parts, h⟩
    · have hclean := h.clean (Bool.not_eq_true _ ▸ hpoisoned)
      rw [if_neg hempty]
      cases hmarker : journal.resetMarker crc32c with
      | error problem =>
        cases problem with
        | poisoned =>
          exact ⟨parts, h.sameConfig, h.repaired, (fun hfalse => by cases hfalse), h.room⟩
        | _ => exact ⟨parts, h⟩
      | ok marker =>
        have hfresh := congrArg Prod.snd (reset_eq_fresh hclean hmarker)
        unfold Journal.reset at hfresh
        rw [if_neg hpoisoned, if_neg hempty, hmarker] at hfresh
        rw [hfresh]
        exact ⟨[], kept_of_clean (clean_fresh hclean.config) h.sameConfig
          fun _ hne => absurd rfl hne⟩

theorem Kept.restartedAppend {part : Bytes} {next : Journal}
    (h : Kept crc32c config journal grown parts)
    (hcheck : journal.checkAppend crc32c segmentId part = .ok ())
    (hfile : file ∈ stops journal.file (journal.appendOps crc32c segmentId part))
    (hopen : Journal.open crc32c config (some file) = .ok next) :
    ∃ parts', Kept crc32c config next grown parts' := by
  have hclean := h.clean (checkAppend_ok hcheck).1
  have hconfig := h.sameConfig
  obtain ⟨-, -, -, -, -, hroom⟩ := checkAppend_ok hcheck
  obtain ⟨valid, rfl⟩ := validPart_of_checkAppend hclean hcheck
  obtain ⟨hnext, later, hlater⟩ := open_ok hopen
  have hlen := hclean.len
  have hnextLen : journal.nextLen valid.bytes =
      journal.len + (frameHeaderLen + valid.bytes.length) := rfl
  have hframe : valid.frameLen = frameHeaderLen + valid.bytes.length := rfl
  have hall := congrArg List.length (frames_concat parts valid)
  rw [List.length_append, valid.length_frame] at hall
  have hbound : next.len ≤ journal.nextLen valid.bytes := by
    rcases shows_of_mem_stops hclean hcheck hfile with hold | hnew
    · have hsame := hold.open_len hopen
      omega
    · have hsame := hnew.open_len hopen
      omega
  refine ⟨later, kept_of_clean hlater hnext fun _ _ => ?_⟩
  rw [← hconfig]
  omega

theorem Kept.restartedReset {marker : ResetMarker} {next : Journal}
    (h : Kept crc32c config journal grown parts) (hhealthy : journal.poisoned = false)
    (hmarker : journal.resetMarker crc32c = .ok marker)
    (hfile : file ∈ stops journal.file (journal.resetOps crc32c marker))
    (hopen : Journal.open crc32c config (some file) = .ok next) :
    ∃ parts', Kept crc32c config next grown parts' := by
  have hclean := h.clean hhealthy
  have hne := ne_nil_of_resetMarker hclean hmarker
  obtain ⟨hnext, later, hlater⟩ := open_ok hopen
  rcases mem_stops_resetOps hclean hfile with hbefore | hafter
  · have hsame := (hbefore.shows hclean hne).open_len hopen
    have hlen := hclean.len
    refine ⟨later, kept_of_clean hlater hnext fun hgrown _ => ?_⟩
    have hroom := h.room hgrown hne
    omega
  · have hfresh := (hafter.rewritten hclean).opens hclean hne hmarker
    rw [h.sameConfig, hopen] at hfresh
    cases hfresh
    exact ⟨[], kept_of_clean (clean_fresh (h.sameConfig ▸ hclean.config)) rfl
      fun _ hnil => absurd rfl hnil⟩

theorem Reaches.kept (h : Reaches crc32c config journal grown) :
    ∃ parts, Kept crc32c config journal grown parts := by
  induction h with
  | opened hopen =>
    obtain ⟨hconfig, parts, hclean⟩ := open_ok hopen
    exact ⟨parts, kept_of_clean hclean hconfig fun hgrown => by cases hgrown⟩
  | append segmentId part _ ih =>
    obtain ⟨parts, hkept⟩ := ih
    exact hkept.append segmentId part
  | reset _ ih =>
    obtain ⟨parts, hkept⟩ := ih
    exact hkept.reset
  | appendRolledBack _ hcheck hfile ih =>
    obtain ⟨parts, hkept⟩ := ih
    rw [rolledBack_of_append (hkept.clean (checkAppend_ok hcheck).1) hcheck hfile]
    exact ⟨parts, hkept⟩
  | resetRolledBack _ hhealthy hmarker hfile ih =>
    obtain ⟨parts, hkept⟩ := ih
    rw [rolledBack_of_marker (hkept.clean hhealthy) hfile]
    exact ⟨parts, hkept⟩
  | poisoned file _ ih =>
    obtain ⟨parts, hkept⟩ := ih
    exact ⟨parts, hkept.sameConfig, hkept.repaired, (fun hfalse => by cases hfalse), hkept.room⟩
  | restartedAppend _ hcheck hfile hopen ih =>
    obtain ⟨parts, hkept⟩ := ih
    exact hkept.restartedAppend hcheck hfile hopen
  | restartedReset _ hhealthy hmarker hfile hopen ih =>
    obtain ⟨parts, hkept⟩ := ih
    exact hkept.restartedReset hhealthy hmarker hfile hopen

theorem resetMarker_full {len max : Nat} (h : journal.resetMarker crc32c = .error (.full len max)) :
    journal.config.maxJournalLen < journal.len + resetMarkerLen := by
  unfold Journal.resetMarker at h
  split at h
  · cases h
  · next segmentId _ =>
    by_cases hfull : journal.config.maxJournalLen < journal.len + resetMarkerLen
    · exact hfull
    · rw [if_neg hfull] at h
      split at h
      · cases h
      · cases h

theorem reset_full {len max : Nat} (h : (journal.reset crc32c).1 = .error (.full len max)) :
    journal.parts ≠ [] ∧ journal.resetMarker crc32c = .error (.full len max) := by
  unfold Journal.reset at h
  by_cases hpoisoned : journal.poisoned = true
  · rw [if_pos hpoisoned] at h
    cases h
  · rw [if_neg hpoisoned] at h
    by_cases hempty : journal.parts.isEmpty = true
    · rw [if_pos hempty] at h
      cases h
    · rw [if_neg hempty] at h
      refine ⟨fun hnil => hempty (List.isEmpty_iff.mpr hnil), ?_⟩
      cases hmarker : journal.resetMarker crc32c with
      | ok marker =>
        rw [hmarker] at h
        cases h
      | error problem =>
        rw [hmarker] at h
        cases problem <;> cases h
        rfl

/-- What every journal keeps: room for the marker of a reset behind what appends have
grown, a bounded number of parts that tile its length, and, where an append fails, itself. -/
theorem journal_capacity {grown : Bool} (h : Reaches crc32c config journal grown) :
    (grown = true → journal.parts ≠ [] →
      journal.len + resetMarkerLen ≤ config.maxJournalLen) ∧
    journal.parts.length ≤ config.maxParts ∧
    journal.parts.Pairwise (·.offset < ·.offset) ∧
    Tiles journalHeaderLen journal.parts journal.len ∧
    (grown = true → ∀ len max, (journal.reset crc32c).1 ≠ .error (.full len max)) ∧
    (∀ segmentId part problem, (journal.append crc32c segmentId part).1 = .error problem →
      (journal.append crc32c segmentId part).2 = journal) ∧
    ∀ segmentId part file, journal.checkAppend crc32c segmentId part = .ok () →
      file ∈ stops journal.file (journal.appendOps crc32c segmentId part) →
        journal.rolledBack crc32c file = journal := by
  obtain ⟨parts, hkept⟩ := h.kept
  have hrepaired := hkept.repaired
  have hrefs : journal.parts = (locate journalHeaderLen parts).map Prod.fst := hrepaired.refs
  have hcount := hrepaired.admits.count
  have hlength : journal.parts.length = parts.length := by
    rw [hrefs, List.length_map, length_locate]
  have htiles : Tiles journalHeaderLen journal.parts journal.len := hrepaired.tiles
  have hroom : grown = true → journal.parts ≠ [] →
      journal.len + resetMarkerLen ≤ config.maxJournalLen := fun hgrown hne =>
    hkept.room hgrown fun hnil => hne (by rw [hrefs, hnil]; rfl)
  refine ⟨hroom, ?_, htiles.sorted, htiles, fun hgrown len max hfull => ?_,
    fun segmentId part problem herror => ?_, fun segmentId part file hcheck hfile => ?_⟩
  · have hparts : 0 + parts.length ≤ journal.config.maxParts := hcount
    rw [hkept.sameConfig] at hparts
    omega
  · obtain ⟨hne, hmarker⟩ := reset_full hfull
    have hlong := resetMarker_full hmarker
    rw [hkept.sameConfig] at hlong
    have hshort := hroom hgrown hne
    omega
  · unfold Journal.append at herror ⊢
    cases hcheck : journal.checkAppend crc32c segmentId part with
    | error _ => rfl
    | ok _ =>
      rw [hcheck] at herror
      cases herror
  · exact rolledBack_of_append (hkept.clean (checkAppend_ok hcheck).1) hcheck hfile

def tightConfig : JournalConfig := { JournalConfig.default with maxJournalLen := 161 }

def tightJournal : Journal :=
  (Journal.fresh castagnoli tightConfig).appended castagnoli sampleId samplePart

theorem reaches_tight : Reaches castagnoli tightConfig tightJournal true := by
  have hstart : Reaches castagnoli tightConfig (Journal.fresh castagnoli tightConfig) false :=
    .opened (open_create rfl)
  have happend := hstart.append sampleId samplePart
  have hcheck : (Journal.fresh castagnoli tightConfig).checkAppend castagnoli sampleId samplePart =
      .ok () := by decide +kernel
  rwa [Journal.append, hcheck] at happend

/-- One part and the room for a marker fill the journal, and the next append is refused. -/
theorem journal_capacity_sample :
    tightJournal.checkAppend castagnoli sampleId samplePart = .error (.full 129 161) ∧
      (tightJournal.append castagnoli sampleId samplePart).2 = tightJournal ∧
        tightJournal.len + resetMarkerLen ≤ tightConfig.maxJournalLen ∧
          Tiles journalHeaderLen tightJournal.parts tightJournal.len := by
  obtain ⟨hroom, -, -, htiles, -, hrefused, -⟩ := journal_capacity reaches_tight
  have hfull : tightJournal.checkAppend castagnoli sampleId samplePart =
      .error (.full 129 161) := by decide +kernel
  refine ⟨hfull, hrefused sampleId samplePart (.full 129 161) ?_, hroom rfl ?_, htiles⟩
  · rw [Journal.append, hfull]
  · exact List.cons_ne_nil _ _

end Kronika.Writer
