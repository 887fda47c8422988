/-
Crash safety of a reset.

Before its marker is whole, a reset leaves the journal as it was, or unreadable.
From then on the header is rewritten over the old one byte by byte, by the reset or
by any number of recoveries, and every open finishes what is left of the work.
-/
import Kronika.Journal.Steps

namespace Kronika.Writer

open Format Library

variable {crc32c : Checksum} {journal : Journal} {parts : List (ValidPart crc32c)}
variable {segmentId : SegmentId} {marker : ResetMarker} {file after : Bytes}

/-! ## The files of a stopped reset -/

def Journal.marked (crc32c : Checksum) (journal : Journal) (marker : ResetMarker) : Bytes :=
  journal.file ++ marker.encode crc32c

def BeforeMarker (crc32c : Checksum) (journal : Journal) (marker : ResetMarker)
    (file : Bytes) : Prop :=
  ∃ k < resetMarkerLen, file = journal.file ++ (marker.encode crc32c).take k

/-- What a stop leaves once the marker is written, in the reset or in a recovery that
an open starts. -/
inductive AfterMarker (crc32c : Checksum) (journal : Journal) (marker : ResetMarker) :
    Bytes → Prop
  | reset {file : Bytes}
      (h : file ∈ stops (journal.marked crc32c marker) (.sync :: finishCommittedReset crc32c)) :
      AfterMarker crc32c journal marker file
  | recovery {file after : Bytes} (config : JournalConfig)
      (h : AfterMarker crc32c journal marker file)
      (hafter : after ∈ stops file (openOps crc32c config file)) :
      AfterMarker crc32c journal marker after

theorem mem_stops_resetOps (h : journal.Clean crc32c parts)
    (hfile : file ∈ stops journal.file (journal.resetOps crc32c marker)) :
    BeforeMarker crc32c journal marker file ∨ AfterMarker crc32c journal marker file := by
  have hlen : journal.len = journal.file.length := h.length_file.symm
  have hmarker := ResetMarker.length_encode crc32c marker
  rw [Journal.resetOps, Journal.markerOps, hlen] at hfile
  rcases mem_stops_write.mp hfile with ⟨k, hk, rfl⟩ | hrest
  · rw [writeAt_length]
    by_cases hwhole : k < resetMarkerLen
    · exact .inl ⟨k, hwhole, rfl⟩
    · right
      rw [List.take_of_length_le (by omega)]
      exact .reset (self_mem_stops _ _)
  · rw [writeAt_length] at hrest
    exact .inr (.reset hrest)

/-- The empty header over the first bytes of the old one, or alone. -/
inductive Rewritten (crc32c : Checksum) (segmentId : Option SegmentId)
    (parts : List (ValidPart crc32c)) (marker : ResetMarker) : Bytes → Prop
  | torn (j : Nat) (hj : j ≤ journalHeaderLen) :
      Rewritten crc32c segmentId parts marker
        (splice j (JournalHeader.empty.encode crc32c) ((headerOf segmentId parts).encode crc32c) ++
          (frames parts ++ marker.encode crc32c))
  | done : Rewritten crc32c segmentId parts marker (JournalHeader.empty.encode crc32c)

theorem Rewritten.ne_nil {segmentId : Option SegmentId}
    (h : Rewritten crc32c segmentId parts marker file) : file ≠ [] := by
  have hpos : 0 < file.length := by
    have hheader : journalHeaderLen = 36 := rfl
    cases h with
    | torn j hj =>
      rw [List.length_append, length_splice_headers]
      omega
    | done =>
      rw [JournalHeader.length_encode]
      omega
  exact List.length_pos_iff.mp hpos

theorem setLen_splice_empty (file : Bytes) :
    setLen (splice journalHeaderLen (JournalHeader.empty.encode crc32c) file) journalHeaderLen =
      JournalHeader.empty.encode crc32c := by
  have hempty := JournalHeader.length_encode crc32c JournalHeader.empty
  rw [splice, List.take_of_length_le (Nat.le_of_eq hempty)]
  rw [setLen_of_le (by rw [List.length_append]; omega), ← hempty, List.take_left]

theorem applyAll_finishCommittedReset (file : Bytes) :
    FileOp.applyAll file (finishCommittedReset crc32c) = JournalHeader.empty.encode crc32c := by
  rw [finishCommittedReset, writeHeader, applyAll_cons, FileOp.apply, writeAt_zero]
  exact setLen_splice_empty file

/-- The step lemma of a rewrite: a further one, stopped anywhere, goes on from the
farthest byte reached. -/
theorem Rewritten.finish {segmentId : Option SegmentId}
    (h : Rewritten crc32c segmentId parts marker file)
    (hafter : after ∈ stops file (finishCommittedReset crc32c)) :
    Rewritten crc32c segmentId parts marker after := by
  have hempty := JournalHeader.length_encode crc32c JournalHeader.empty
  have hold := JournalHeader.length_encode crc32c (headerOf segmentId parts)
  -- A write of `k` bytes of the empty header leaves a rewritten file.
  have hwrite : ∀ k ≤ journalHeaderLen, Rewritten crc32c segmentId parts marker
      (splice k (JournalHeader.empty.encode crc32c) file) := by
    intro k hk
    cases h with
    | torn j hj =>
      rw [splice_append _ (by rwa [length_splice_headers]), splice_splice (by rw [hempty, hold])]
      exact .torn _ (by omega)
    | done =>
      rw [splice_self]
      exact .done
  rcases mem_stops_write.mp hafter with ⟨k, hk, rfl⟩ | hrest
  · rw [writeAt_zero_take (by rwa [hempty])]
    exact hwrite k hk
  · rw [writeAt_zero, hempty] at hrest
    rcases mem_stops_sync.mp hrest with rfl | hrest
    · exact hwrite _ (Nat.le_refl _)
    · rcases mem_stops_setLen.mp hrest with rfl | hrest
      · exact hwrite _ (Nat.le_refl _)
      · rw [setLen_splice_empty] at hrest
        rcases mem_stops_sync.mp hrest with rfl | hnil
        · exact .done
        · rw [mem_stops_nil.mp hnil]
          exact .done

theorem AfterMarker.rewritten (h : journal.Clean crc32c parts)
    (hfile : AfterMarker crc32c journal marker file) :
    Rewritten crc32c journal.segmentId parts marker file := by
  have hmarked : Rewritten crc32c journal.segmentId parts marker
      (journal.marked crc32c marker) := by
    have hzero : Rewritten crc32c journal.segmentId parts marker _ :=
      .torn 0 (Nat.zero_le journalHeaderLen)
    rwa [splice_zero, ← List.append_assoc, ← image, ← h.file] at hzero
  induction hfile with
  | reset hstop =>
    rcases mem_stops_sync.mp hstop with rfl | hfinish
    · exact hmarked
    · exact hmarked.finish hfinish
  | recovery config _ hafter ih =>
    rcases openOps_cases crc32c config _ with hnone | hfinish | ⟨hnil, -⟩
    · rw [hnone, mem_stops_nil] at hafter
      rwa [hafter]
    · rw [hfinish] at hafter
      exact ih.finish hafter
    · exact absurd hnil ih.ne_nil

/-! ## Opening them -/

theorem resetMarker_ok (h : journal.resetMarker crc32c = .ok marker) :
    ∃ segmentId, journal.segmentId = some segmentId ∧
      journal.len + resetMarkerLen ≤ journal.config.maxJournalLen ∧
      ResetMarker.new crc32c journal.len segmentId.value = some marker := by
  unfold Journal.resetMarker at h
  cases hid : journal.segmentId with
  | none =>
    rw [hid] at h
    cases h
  | some segmentId =>
    rw [hid] at h
    dsimp only at h
    by_cases hfull : journal.config.maxJournalLen < journal.len + resetMarkerLen
    · rw [if_pos hfull] at h
      cases h
    · rw [if_neg hfull] at h
      split at h
      · cases h
      · next hnew =>
        cases h
        exact ⟨segmentId, rfl, by omega, hnew⟩

theorem ne_nil_of_resetMarker (h : journal.Clean crc32c parts)
    (hmarker : journal.resetMarker crc32c = .ok marker) : parts ≠ [] := by
  obtain ⟨segmentId, hid, -, -⟩ := resetMarker_ok hmarker
  intro hnil
  rw [h.identity.mpr hnil] at hid
  cases hid

theorem resetMarker_of_clean (h : journal.Clean crc32c parts) (hne : parts ≠ [])
    (hroom : journal.len + resetMarkerLen ≤ journal.config.maxJournalLen) :
    ∃ marker, journal.resetMarker crc32c = .ok marker := by
  have hlen := h.len
  have hpos : 0 < (frames parts).length :=
    Nat.pos_of_ne_zero fun hzero => hne (frames_eq_nil.mp hzero)
  cases hid : journal.segmentId with
  | none => exact absurd (h.identity.mp hid) hne
  | some segmentId =>
    unfold Journal.resetMarker
    rw [hid]
    dsimp only
    rw [if_neg (by omega), ResetMarker.new, if_neg (by omega)]
    exact ⟨_, rfl⟩

theorem BeforeMarker.shows (h : journal.Clean crc32c parts) (hne : parts ≠ [])
    (hfile : BeforeMarker crc32c journal marker file) :
    Shows crc32c file journal.segmentId parts := by
  obtain ⟨k, hk, rfl⟩ := hfile
  have hmax := (validateConfig_ok h.config).2
  have hbound := h.bound
  have hlen := h.len
  have hmaxLen : maxJournalLen = 1073741824 := rfl
  have hmarker32 : resetMarkerLen = 32 := rfl
  have htake : ((marker.encode crc32c).take k).length = k := by
    rw [List.length_take, ResetMarker.length_encode, Nat.min_eq_left (by omega)]
  obtain ⟨segmentId, hid⟩ : ∃ segmentId, journal.segmentId = some segmentId :=
    Option.ne_none_iff_exists'.mp fun hnone => hne (h.identity.mp hnone)
  rw [h.file, hid]
  exact shows_tail segmentId _ (by omega) (fun htail => by omega)

theorem committedReset_of_torn (h : journal.Clean crc32c parts) (hne : parts ≠ [])
    (hmarker : journal.resetMarker crc32c = .ok marker) {j : Nat} (hj : j ≤ journalHeaderLen)
    {torn : Bytes}
    (htorn : torn = splice j (JournalHeader.empty.encode crc32c)
      ((headerOf journal.segmentId parts).encode crc32c)) :
    CommittedReset crc32c journal.config (torn ++ (frames parts ++ marker.encode crc32c))
      marker := by
  obtain ⟨segmentId, hid, hroom, hnew⟩ := resetMarker_ok hmarker
  obtain ⟨hexpected, hprevious, hidentity⟩ := ResetMarker.expectedPreviousHeader_new hnew
  have hlen := h.len
  have hshort := h.short
  have hheader36 : journalHeaderLen = 36 := rfl
  have htornLen : torn.length = journalHeaderLen := by
    rw [htorn, length_splice_headers]
  have hmarkerLen := ResetMarker.length_encode crc32c marker
  have htotal : (torn ++ (frames parts ++ marker.encode crc32c)).length =
      journal.len + resetMarkerLen := by
    rw [List.length_append, List.length_append]
    omega
  have hbefore : (torn ++ frames parts).length = journal.len := by
    rw [List.length_append, htornLen, hlen]
  have hsplit : torn ++ (frames parts ++ marker.encode crc32c) =
      (torn ++ frames parts) ++ marker.encode crc32c := (List.append_assoc _ _ _).symm
  have hold : ResetMarker.previousHeader journal.len segmentId.value =
      headerOf journal.segmentId parts := by
    rw [ResetMarker.previousHeader, hid, hlen, Nat.add_sub_cancel_left]
    rfl
  refine ⟨⟨by omega, ?_, by omega, ?_⟩, by omega, ?_, ?_⟩
  · rw [htotal, Nat.add_sub_cancel, hsplit, ← hbefore, List.drop_left]
    exact ResetMarker.decode_encode (by omega) (ResetMarker.previousHeaderCrc_lt hnew)
  · have hslice : slice (torn ++ (frames parts ++ marker.encode crc32c)) 0 journalHeaderLen =
        torn := by
      rw [slice_append_left (Nat.le_of_eq htornLen.symm), slice_full (Nat.le_of_eq htornLen)]
    rw [hslice, ResetMarker.classifyHeaderTransition_isSome htornLen]
    exact ⟨_, hexpected, j, hj, by rw [htorn, hold]⟩
  · rw [hidentity, SegmentId.new_value]
    rfl
  · have htake : (torn ++ (frames parts ++ marker.encode crc32c)).take marker.previousLen =
        torn ++ frames parts := by
      rw [hprevious, hsplit, ← hbefore, List.take_left]
    refine ⟨{ parts := (locate journalHeaderLen parts).map Prod.fst
              validLen := journalHeaderLen + (frames parts).length }, ?_, ?_, ?_⟩
    · rw [htake, scan_frames _ _ htornLen, scanRest_frames_all parts _ _ h.admits]
    · intro hnil
      have hcount := congrArg List.length hnil
      rw [List.length_map, length_locate] at hcount
      exact hne (List.length_eq_zero_iff.mp hcount)
    · show journalHeaderLen + (frames parts).length = marker.previousLen
      omega

theorem openFile_empty {config : JournalConfig} :
    openFile crc32c config (JournalHeader.empty.encode crc32c) =
      .ok (Journal.fresh crc32c config) := by
  have hopen : openFile crc32c config (image none ([] : List (ValidPart crc32c))) = _ :=
    openFile_image ⟨fun _ => rfl, fun _ => rfl⟩ (Nat.two_pow_pos 64) (admits_nil _ _)
  exact hopen

theorem open_of_checked {config : JournalConfig} (hconfig : validateConfig config = .ok ())
    (hlen : file.length ≤ config.maxJournalLen) {recovered : Bool}
    (hrecover : recoverCommittedReset crc32c config file = .ok recovered) :
    Journal.open crc32c config (some file) =
      openFile crc32c config (FileOp.applyAll file (openOps crc32c config file)) := by
  unfold Journal.open
  rw [hconfig]
  dsimp only
  rw [openExisting, hconfig]
  rw [if_neg (by omega), hrecover]

theorem Rewritten.opens (h : journal.Clean crc32c parts) (hne : parts ≠ [])
    (hmarker : journal.resetMarker crc32c = .ok marker)
    (hfile : Rewritten crc32c journal.segmentId parts marker file) :
    Journal.open crc32c journal.config (some file) =
      .ok (Journal.fresh crc32c journal.config) := by
  obtain ⟨segmentId, hid, hroom, -⟩ := resetMarker_ok hmarker
  have hlen := h.len
  have hmarker32 : resetMarkerLen = 32 := rfl
  cases hfile with
  | torn j hj =>
    have hreset := committedReset_of_torn h hne hmarker hj rfl
    have hrecover := recoverCommittedReset_ok_true.mpr ⟨marker, hreset⟩
    have htotal : (splice j (JournalHeader.empty.encode crc32c)
        ((headerOf journal.segmentId parts).encode crc32c) ++
          (frames parts ++ marker.encode crc32c)).length = journal.len + resetMarkerLen := by
      rw [List.length_append, List.length_append, length_splice_headers, ResetMarker.length_encode]
      omega
    rw [open_of_checked h.config (by omega) hrecover, openOps, h.config]
    rw [if_neg (by omega), hrecover]
    rw [applyAll_finishCommittedReset, openFile_empty]
  | done =>
    have hempty := JournalHeader.length_encode crc32c JournalHeader.empty
    have hrecover : recoverCommittedReset crc32c journal.config
        (JournalHeader.empty.encode crc32c) = .ok false := by
      rw [recoverCommittedReset, if_pos (by omega)]
    have hops : openOps crc32c journal.config (JournalHeader.empty.encode crc32c) = [] := by
      have hdone : Rewritten crc32c journal.segmentId parts marker _ := .done
      refine openOps_of_no_reset hdone.ne_nil ?_
      intro other hother
      have hlong := hother.long
      omega
    rw [open_of_checked h.config (by omega) hrecover, hops, applyAll_nil, openFile_empty]

theorem reset_eq_fresh (h : journal.Clean crc32c parts)
    (hmarker : journal.resetMarker crc32c = .ok marker) :
    journal.reset crc32c = (.ok (), Journal.fresh crc32c journal.config) := by
  have hhealthy := h.healthy
  have hparts : journal.parts.isEmpty = false := by
    rw [h.isEmpty_parts, List.isEmpty_eq_false_iff]
    exact ne_nil_of_resetMarker h hmarker
  have hfile : FileOp.applyAll journal.file (journal.resetOps crc32c marker) =
      JournalHeader.empty.encode crc32c := by
    rw [Journal.resetOps, applyAll_append, applyAll_finishCommittedReset]
  rw [Journal.reset, hhealthy, hparts, hmarker]
  dsimp only
  rw [hfile]
  rfl

/-! ## Crash safety -/

/-- A reset of a journal that an append returned writes its marker.  Stopped after
that, in itself or in a recovery, it is finished by the next open; stopped before, it
leaves all the parts, or a file that does not open. -/
theorem reset_crash_safe {before : Journal} {bytes : Bytes} (hclean : before.Clean crc32c parts)
    (hcheck : before.checkAppend crc32c segmentId bytes = .ok ())
    (hjournal : journal = before.appended crc32c segmentId bytes) :
    ∃ marker, journal.resetMarker crc32c = .ok marker ∧
      (∀ file, AfterMarker crc32c journal marker file →
        Journal.open crc32c journal.config (some file) =
          .ok (Journal.fresh crc32c journal.config)) ∧
      (∀ file, BeforeMarker crc32c journal marker file →
        ∀ opened, Journal.open crc32c journal.config (some file) = .ok opened →
          opened.bodies = journal.bodies ∧ opened.bodies ≠ []) ∧
      ∀ file ∈ stops journal.file (journal.resetOps crc32c marker),
        BeforeMarker crc32c journal marker file ∨ AfterMarker crc32c journal marker file := by
  subst hjournal
  obtain ⟨part, rfl⟩ := validPart_of_checkAppend hclean hcheck
  have hafter := hclean.appended hcheck
  have hne : parts ++ [part] ≠ [] := by simp
  have hbodies := hafter.bodies
  obtain ⟨marker, hmarker⟩ := resetMarker_of_clean hafter hne (room_appended hcheck)
  refine ⟨marker, hmarker, fun file hfile => ?_, fun file hfile opened hopened => ?_,
    fun file hfile => mem_stops_resetOps hafter hfile⟩
  · exact (hfile.rewritten hafter).opens hafter hne hmarker
  · obtain ⟨-, hsame⟩ := (hfile.shows hafter hne).opensAs _ (fun hnil => absurd hnil hne) opened
      (open_some hopened)
    rw [hbodies, hsame]
    exact ⟨rfl, by simp⟩

/-- A reset of a journal with one part, stopped in its marker and behind it. -/
theorem reset_crash_safe_sample :
    ∃ marker, sampleJournal.resetMarker castagnoli = .ok marker ∧
      (∀ file, AfterMarker castagnoli sampleJournal marker file →
        Journal.open castagnoli sampleJournal.config (some file) =
          .ok (Journal.fresh castagnoli sampleJournal.config)) ∧
      (∀ file, BeforeMarker castagnoli sampleJournal marker file →
        ∀ opened, Journal.open castagnoli sampleJournal.config (some file) = .ok opened →
          opened.bodies = sampleJournal.bodies ∧ opened.bodies ≠ []) ∧
      ∀ file ∈ stops sampleJournal.file (sampleJournal.resetOps castagnoli marker),
        BeforeMarker castagnoli sampleJournal marker file ∨
          AfterMarker castagnoli sampleJournal marker file :=
  reset_crash_safe (clean_fresh rfl) checkAppend_sample rfl

end Kronika.Writer
