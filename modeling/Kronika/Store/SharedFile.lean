/-
The journal file that a writer and its readers share.

The writer appends and resets, rolls back what failed, and may be stopped and opened
again at any time.  A reader finds the contents that this work leaves, in their order:
`later` is what the work under way still has to leave.
-/
import Kronika.Journal.Capacity
import Kronika.Store.Scans

namespace Kronika.Store

open Format Library Writer

/-- What the writer is doing.  A rollback undoes an operation on the named segment, and
like an opening it begins with the content that it finds. -/
inductive Work where
  | idle (journal : Journal)
  | appending (journal : Journal) (segmentId : SegmentId) (part : Bytes)
  | resetting (journal : Journal) (marker : ResetMarker)
  | rollingBack (journal : Journal) (segmentId : SegmentId) (before : Bytes)
  | opening (config : JournalConfig) (before : Bytes)

structure SharedFile where
  work : Work
  file : Bytes
  /-- The contents that the work under way still leaves. -/
  later : List Bytes

namespace SharedFile

def idle (journal : Journal) : SharedFile :=
  { work := .idle journal, file := journal.file, later := [] }

def rollingBack (crc32c : Checksum) (journal : Journal) (segmentId : SegmentId)
    (before : Bytes) : SharedFile :=
  { work := .rollingBack journal segmentId before
    file := before
    later := stops before (rollback crc32c journal.len journal.currentHeader) }

def opening (crc32c : Checksum) (config : JournalConfig) (before : Bytes) : SharedFile :=
  { work := .opening config before
    file := before
    later := stops before (openOps crc32c config before) }

end SharedFile

/-- A step of the writer.  The poisoned handle of an operation that could not be undone or
finished leaves the file as it is; only another process goes on from there. -/
inductive SharedStep (crc32c : Checksum) : SharedFile → SharedFile → Prop
  | startAppend {journal : Journal} (segmentId : SegmentId) (part : Bytes)
      (hcheck : journal.checkAppend crc32c segmentId part = .ok ()) :
      SharedStep crc32c (.idle journal)
        { work := .appending journal segmentId part
          file := journal.file
          later := stops journal.file (journal.appendOps crc32c segmentId part) }
  | startReset {journal : Journal} (marker : ResetMarker) (hhealthy : journal.poisoned = false)
      (hmarker : journal.resetMarker crc32c = .ok marker) :
      SharedStep crc32c (.idle journal)
        { work := .resetting journal marker
          file := journal.file
          later := stops journal.file (journal.resetOps crc32c marker) }
  | write {work : Work} {file next : Bytes} {skipped later : List Bytes} :
      SharedStep crc32c { work := work, file := file, later := skipped ++ next :: later }
        { work := work, file := next, later := later }
  | finishAppend {journal : Journal} {segmentId : SegmentId} {part file : Bytes} :
      SharedStep crc32c
        { work := .appending journal segmentId part, file := file, later := [] }
        (.idle (journal.appended crc32c segmentId part))
  | failAppend {journal : Journal} {segmentId : SegmentId} {part file : Bytes}
      {later : List Bytes} :
      SharedStep crc32c
        { work := .appending journal segmentId part, file := file, later := later }
        (.rollingBack crc32c journal segmentId file)
  | finishReset {journal : Journal} {marker : ResetMarker} {file : Bytes} :
      SharedStep crc32c { work := .resetting journal marker, file := file, later := [] }
        (.idle (journal.reset crc32c).2)
  /-- The marker is not written, or not known to be durable. -/
  | failMarker {journal : Journal} {marker : ResetMarker} {file : Bytes} {later : List Bytes}
      (segmentId : SegmentId) (hid : journal.segmentId = some segmentId)
      (hfile : file ∈ stops journal.file (journal.markerOps crc32c marker)) :
      SharedStep crc32c { work := .resetting journal marker, file := file, later := later }
        (.rollingBack crc32c journal segmentId file)
  /-- The reset fails behind its marker. -/
  | failReset {journal : Journal} {marker : ResetMarker} {file : Bytes} {later : List Bytes} :
      SharedStep crc32c { work := .resetting journal marker, file := file, later := later }
        (.idle { journal with file := file, poisoned := true })
  | finishRollback {journal : Journal} {segmentId : SegmentId} {before file : Bytes} :
      SharedStep crc32c
        { work := .rollingBack journal segmentId before, file := file, later := [] }
        (.idle (journal.rolledBack crc32c before))
  | failRollback {journal : Journal} {segmentId : SegmentId} {before file : Bytes}
      {later : List Bytes} :
      SharedStep crc32c
        { work := .rollingBack journal segmentId before, file := file, later := later }
        (.idle { journal with file := file, poisoned := true })
  /-- The process is stopped, and another one opens the journal. -/
  | restart {s : SharedFile} (config : JournalConfig) :
      SharedStep crc32c s (.opening crc32c config s.file)
  | finishOpen {config : JournalConfig} {before file : Bytes} {journal : Journal}
      (hopen : Journal.open crc32c config (some before) = .ok journal) :
      SharedStep crc32c { work := .opening config before, file := file, later := [] }
        (.idle journal)

variable {crc32c : Checksum} {journal : Journal} {parts : List (ValidPart crc32c)}
variable {segmentId : SegmentId} {part : ValidPart crc32c} {marker : ResetMarker}
variable {config : JournalConfig} {file before : Bytes} {later : List Bytes}

/-! ## The identity in the header of a content -/

/-- The header bytes of the state and the segment are those of a header with the state. -/
def Identified (crc32c : Checksum) (state : JournalState) (file : Bytes) : Prop :=
  ∃ header : JournalHeader, header.state = state ∧
    slice file 12 24 = slice (header.encode crc32c) 12 24

theorem identified_encode (header : JournalHeader) (rest : Bytes) :
    Identified crc32c header.state (header.encode crc32c ++ rest) :=
  ⟨header, rfl, slice_header (JournalHeader.length_encode crc32c header) rest (by decide)⟩

theorem identified_torn (k : Nat) {old new : JournalHeader} (hstate : old.state = new.state)
    (rest : Bytes) :
    Identified crc32c new.state
      (splice k (new.encode crc32c) (old.encode crc32c) ++ rest) := by
  refine ⟨new, rfl, ?_⟩
  rw [slice_header (length_splice_headers crc32c k new old) rest (by decide), slice_torn k hstate]

theorem identified_image (segmentId : Option SegmentId) (parts : List (ValidPart crc32c)) :
    Identified crc32c (stateOf segmentId) (image segmentId parts) :=
  identified_encode (headerOf segmentId parts) (frames parts)

theorem Identified.append {state : JournalState} (h : Identified crc32c state file)
    (hlong : journalHeaderLen ≤ file.length) (rest : Bytes) :
    Identified crc32c state (file ++ rest) := by
  obtain ⟨header, hstate, hslice⟩ := h
  have hheader36 : journalHeaderLen = 36 := rfl
  exact ⟨header, hstate, (slice_append_left (by omega)).trans hslice⟩

theorem Identified.state_eq {state : JournalState} {decoded : JournalHeader}
    (h : Identified crc32c state file) (hlong : journalHeaderLen ≤ file.length)
    (hdecode : JournalHeader.decode crc32c (slice file 0 journalHeaderLen) = .ok decoded) :
    decoded.state = state := by
  obtain ⟨header, rfl, hslice⟩ := h
  have hheader36 : journalHeaderLen = 36 := rfl
  refine state_of_decode (length_slice hlong) hdecode ?_
  rw [slice_slice (by omega)]
  exact hslice

theorem Identified.unique {a b : JournalState} (ha : Identified crc32c a file)
    (hb : Identified crc32c b file) : a = b := by
  obtain ⟨first, rfl, hfirst⟩ := ha
  obtain ⟨second, rfl, hsecond⟩ := hb
  have hdecode : JournalHeader.decode crc32c
      (JournalHeader.encode crc32c { first with bodyLen := 0 }) = .ok { first with bodyLen := 0 } :=
    JournalHeader.decode_encode (Nat.two_pow_pos 64)
  have hsame : slice (splice 0 (first.encode crc32c)
      (JournalHeader.encode crc32c { first with bodyLen := 0 })) 12 24 = _ := slice_torn 0 rfl
  have hstate : (JournalHeader.mk first.state 0).state = second.state :=
    state_of_decode (JournalHeader.length_encode crc32c _) hdecode
      (hsame.trans (hfirst.symm.trans hsecond))
  exact hstate

/-! ## The frames that a content keeps -/

/-- The content begins with the frames of the journal, under a header of its segment. -/
structure Backed (crc32c : Checksum) (journal : Journal) (parts : List (ValidPart crc32c))
    (file : Bytes) : Prop where
  long : journal.len ≤ file.length
  body : frames parts <+: file.drop journalHeaderLen
  header : parts ≠ [] → Identified crc32c (stateOf journal.segmentId) file

theorem Backed.identified (h : Backed crc32c journal parts file) (hne : parts ≠ [])
    (hid : journal.segmentId = some segmentId) :
    Identified crc32c (.active segmentId.value) file := by
  have hheader := h.header hne
  rw [hid] at hheader
  exact hheader

theorem Backed.append (h : journal.Clean crc32c parts) (rest : Bytes) :
    Backed crc32c journal parts (journal.file ++ rest) where
  long := by
    rw [List.length_append, h.length_file]
    exact Nat.le_add_right _ _
  body := by
    rw [h.file, image, List.append_assoc, List.drop_left' (JournalHeader.length_encode crc32c _)]
    exact List.prefix_append _ _
  header _ := by
    rw [h.file]
    exact (identified_image _ _).append (by rw [length_image]; exact Nat.le_add_right _ _) rest

theorem segmentId_of_append (h : journal.Clean crc32c parts)
    (hcheck : journal.checkAppend crc32c segmentId part.bytes = .ok ()) (hne : parts ≠ []) :
    journal.segmentId = some segmentId := by
  cases hid : journal.segmentId with
  | none => exact absurd (h.identity.mp hid) hne
  | some id => rw [(checkAppend_ok hcheck).2.1 id hid]

theorem backed_of_append (h : journal.Clean crc32c parts)
    (hcheck : journal.checkAppend crc32c segmentId part.bytes = .ok ())
    (hfile : file ∈ stops journal.file (journal.appendOps crc32c segmentId part.bytes)) :
    Backed crc32c journal parts file := by
  have hlen := h.len
  have hnone : parts = [] → journal.len = journalHeaderLen := by
    rintro rfl
    exact hlen
  have hnil : parts = [] → frames parts = [] := fun hempty =>
    List.length_eq_zero_iff.mp (frames_eq_nil.mpr hempty)
  cases stopped_of_mem_stops h hfile with
  | tornFirstHeader k hk hempty =>
    refine ⟨?_, ?_, fun hne => absurd hempty hne⟩
    · rw [hnone hempty, length_splice_headers]
    · rw [hnil hempty]
      exact List.nil_prefix
  | tornFirstFrame k hk hempty =>
    refine ⟨?_, ?_, fun hne => absurd hempty hne⟩
    · rw [hnone hempty, List.length_append]
      exact Nat.le_add_right _ _
    · rw [hnil hempty]
      exact List.nil_prefix
  | tornFrame k hk hne =>
    rw [← h.file]
    exact .append h _
  | tornHeader k hk hne =>
    have htorn := length_splice_headers crc32c k (headerOf (some segmentId) (parts ++ [part]))
      (headerOf journal.segmentId parts)
    have hsome := segmentId_of_append h hcheck hne
    have hall := congrArg List.length (frames_concat parts part)
    rw [List.length_append] at hall
    refine ⟨by rw [List.length_append]; omega, ?_, fun _ => ?_⟩
    · rw [List.drop_left' htorn, frames_concat]
      exact List.prefix_append _ _
    · have hstate : (headerOf journal.segmentId parts).state =
          (headerOf (some segmentId) (parts ++ [part])).state := by
        rw [hsome]
        rfl
      show Identified crc32c (headerOf journal.segmentId parts).state _
      rw [hstate]
      exact identified_torn k hstate _

theorem backed_of_marker (h : journal.Clean crc32c parts)
    (hfile : file ∈ stops journal.file (journal.markerOps crc32c marker)) :
    Backed crc32c journal parts file := by
  rw [Journal.markerOps, ← h.length_file] at hfile
  rcases mem_stops_write.mp hfile with ⟨k, -, rfl⟩ | hrest
  · rw [writeAt_length]
    exact .append h _
  · rw [writeAt_length] at hrest
    rcases mem_stops_sync.mp hrest with rfl | hnil
    · exact .append h _
    · rw [mem_stops_nil.mp hnil]
      exact .append h _

theorem backed_of_rollback (h : journal.Clean crc32c parts)
    (hbefore : Backed crc32c journal parts before)
    (hfile : file ∈ stops before (rollback crc32c journal.len journal.currentHeader)) :
    Backed crc32c journal parts file ∧ (file = before ∨ file.length = journal.len) := by
  have hlen := h.len
  have hheader36 : journalHeaderLen = 36 := rfl
  have hencode := JournalHeader.length_encode crc32c (headerOf journal.segmentId parts)
  have htake : (before.take journal.len).length = journal.len := by
    rw [List.length_take, Nat.min_eq_left hbefore.long]
  have hbody : (before.take journal.len).drop journalHeaderLen = frames parts := by
    rw [List.drop_take, hlen, Nat.add_sub_cancel_left]
    exact (List.prefix_iff_eq_take.mp hbefore.body).symm
  -- the rewritten header and the old one have the same identity
  have hspliced : ∀ k ≤ journalHeaderLen,
      Backed crc32c journal parts
          (splice k ((headerOf journal.segmentId parts).encode crc32c)
            (before.take journal.len)) ∧
        (splice k ((headerOf journal.segmentId parts).encode crc32c)
          (before.take journal.len)).length = journal.len := by
    intro k hk
    have hlength : (splice k ((headerOf journal.segmentId parts).encode crc32c)
        (before.take journal.len)).length = journal.len := by
      rw [length_splice_of_le (by omega) (by omega), htake]
    refine ⟨⟨hlength.ge, ?_, fun hne => ?_⟩, hlength⟩
    · rw [drop_splice (by omega) hk, hbody]
    · obtain ⟨header, hstate, hslice⟩ := hbefore.header hne
      refine ⟨headerOf journal.segmentId parts, rfl, ?_⟩
      have hold : slice (before.take journal.len) 12 24 =
          slice ((headerOf journal.segmentId parts).encode crc32c) 12 24 := by
        have hinner : slice (before.take journal.len) 12 24 = slice before 12 24 := by
          rw [slice, slice, List.take_take, Nat.min_eq_left (by omega)]
        have hsame : slice (splice 0 ((headerOf journal.segmentId parts).encode crc32c)
            (header.encode crc32c)) 12 24 = _ := slice_torn 0 hstate
        rw [splice_zero] at hsame
        rw [hinner, hslice, hsame]
      have hcut : before.take journal.len = slice (before.take journal.len) 0 journalHeaderLen ++
          (before.take journal.len).drop journalHeaderLen := by
        rw [slice, List.drop_zero, List.take_append_drop]
      have hfirst : (slice (before.take journal.len) 0 journalHeaderLen).length =
          journalHeaderLen := length_slice (by omega)
      rw [hcut, splice_append _ (by omega), slice_append_left (by
        rw [length_splice (by rw [hencode, hfirst])]; omega),
        slice_splice (by rw [hencode, hfirst]) (by omega), slice_slice (by omega)]
      rw [hold, splice_self]
  rw [h.currentHeader] at hfile
  rcases mem_stops_setLen.mp hfile with rfl | hfile
  · exact ⟨hbefore, Or.inl rfl⟩
  · rw [setLen_of_le hbefore.long] at hfile
    rcases mem_stops_write.mp hfile with ⟨k, hk, rfl⟩ | hfile
    · rw [hencode] at hk
      rw [writeAt_zero_take (by rwa [hencode])]
      obtain ⟨hbacked, hlength⟩ := hspliced k hk
      exact ⟨hbacked, Or.inr hlength⟩
    · rw [writeAt_zero, hencode] at hfile
      obtain ⟨hbacked, hlength⟩ := hspliced journalHeaderLen (Nat.le_refl _)
      rcases mem_stops_sync.mp hfile with rfl | hnil
      · exact ⟨hbacked, Or.inr hlength⟩
      · rw [mem_stops_nil.mp hnil]
        exact ⟨hbacked, Or.inr hlength⟩

/-! ## Opening -/

theorem committedResetPlan_splice {k : Nat} (hk : k ≤ journalHeaderLen)
    (h : (committedResetPlan crc32c file).isSome = true) :
    (committedResetPlan crc32c
      (splice k (JournalHeader.empty.encode crc32c) file)).isSome = true := by
  obtain ⟨plan, hplan⟩ := Option.isSome_iff_exists.mp h
  obtain ⟨-, -, -, marker, hmarked, hid⟩ := committedResetPlan_some hplan
  have hlong := hmarked.long
  have hempty := JournalHeader.length_encode crc32c JournalHeader.empty
  have hlength : (splice k (JournalHeader.empty.encode crc32c) file).length = file.length :=
    length_splice_of_le (by omega) (by omega)
  have hobserved : (slice file 0 journalHeaderLen).length = journalHeaderLen :=
    length_slice (by omega)
  have hslice : slice (splice k (JournalHeader.empty.encode crc32c) file) 0 journalHeaderLen =
      splice k (JournalHeader.empty.encode crc32c) (slice file 0 journalHeaderLen) := by
    have hsplit : file = slice file 0 journalHeaderLen ++ file.drop journalHeaderLen := by
      rw [slice, List.drop_zero, List.take_append_drop]
    have htorn : (splice k (JournalHeader.empty.encode crc32c)
        (slice file 0 journalHeaderLen)).length = journalHeaderLen := by
      rw [length_splice_of_le (by omega) (by omega), hobserved]
    conv => lhs; rw [hsplit]
    rw [splice_append _ (by omega), slice_append_left htorn.ge, slice_full htorn.le]
  obtain ⟨expected, hexpected, split, hsplit, hsame⟩ :=
    (ResetMarker.classifyHeaderTransition_isSome hobserved).mp hmarked.header
  have hmarked' : MarkedReset crc32c (splice k (JournalHeader.empty.encode crc32c) file)
      marker := by
    refine ⟨by omega, ?_, by rw [hlength]; exact hmarked.previous, ?_⟩
    · rw [hlength, drop_splice (by omega) (by omega)]
      exact hmarked.decoded
    · rw [hslice]
      refine (ResetMarker.classifyHeaderTransition_isSome
        (by rw [length_splice_of_le (by omega) (by omega), hobserved])).mpr
          ⟨expected, hexpected, max k split, by omega, ?_⟩
      rw [hsame, splice_splice (by rw [hempty, JournalHeader.length_encode])]
  obtain ⟨segmentId, hplan'⟩ := committedResetPlan_of_marked hmarked' hid
  rw [hplan']
  rfl

theorem committedResetPlan_of_openOps
    (h : openOps crc32c config file = finishCommittedReset crc32c) :
    (committedResetPlan crc32c file).isSome = true := by
  have hne : ([] : List FileOp) ≠ finishCommittedReset crc32c := fun hsame => by cases hsame
  have hne' : initializeJournal crc32c ≠ finishCommittedReset crc32c := fun hsame =>
    absurd (congrArg List.length hsame) (by simp [initializeJournal, finishCommittedReset])
  unfold openOps at h
  split at h
  · exact absurd h hne
  · split at h
    · exact absurd h hne
    · split at h
      · exact absurd h hne
      · rename_i hrecover
        obtain ⟨marker, hmarker⟩ := recoverCommittedReset_ok_true.mp hrecover
        obtain ⟨segmentId, hplan⟩ := committedResetPlan_eq hmarker
        rw [hplan]
        rfl
      · split at h
        · exact absurd h hne'
        · exact absurd h hne

theorem mem_stops_openOps (hfile : file ∈ stops before (openOps crc32c config before)) :
    file = before ∨ file.length ≤ journalHeaderLen ∨
      ((committedResetPlan crc32c file).isSome = true ∧
        (committedResetPlan crc32c before).isSome = true ∧
        file.drop journalHeaderLen = before.drop journalHeaderLen) := by
  have hempty := JournalHeader.length_encode crc32c JournalHeader.empty
  rcases openOps_cases crc32c config before with hops | hops | ⟨rfl, hops⟩
  · rw [hops] at hfile
    exact Or.inl (mem_stops_nil.mp hfile)
  · have hmarked := committedResetPlan_of_openOps hops
    have hspliced : ∀ k ≤ journalHeaderLen,
        (committedResetPlan crc32c
            (splice k (JournalHeader.empty.encode crc32c) before)).isSome = true ∧
          (committedResetPlan crc32c before).isSome = true ∧
          (splice k (JournalHeader.empty.encode crc32c) before).drop journalHeaderLen =
            before.drop journalHeaderLen := fun k hk =>
      ⟨committedResetPlan_splice hk hmarked, hmarked, drop_splice (by omega) hk⟩
    rw [hops] at hfile
    rcases mem_stops_write.mp hfile with ⟨k, hk, rfl⟩ | hfile
    · rw [writeAt_zero_take (by rwa [hempty])]
      exact Or.inr (Or.inr (hspliced k hk))
    · rw [writeAt_zero] at hfile
      rcases mem_stops_sync.mp hfile with rfl | hfile
      · exact Or.inr (Or.inr (hspliced _ (Nat.le_refl _)))
      · rcases mem_stops_setLen.mp hfile with rfl | hfile
        · exact Or.inr (Or.inr (hspliced _ (Nat.le_refl _)))
        · have hlen := length_setLen
            (splice journalHeaderLen (JournalHeader.empty.encode crc32c) before) journalHeaderLen
          rcases mem_stops_sync.mp hfile with rfl | hnil
          · exact Or.inr (Or.inl hlen.le)
          · rw [mem_stops_nil.mp hnil]
            exact Or.inr (Or.inl hlen.le)
  · rw [hops] at hfile
    refine Or.inr (Or.inl ?_)
    rcases mem_stops_write.mp hfile with ⟨k, hk, rfl⟩ | hfile
    · have hwritten : writeAt [] 0 ((JournalHeader.empty.encode crc32c).take k) =
          (JournalHeader.empty.encode crc32c).take k := writeAt_length [] _
      rw [hwritten, List.length_take]
      omega
    · have hlen := length_setLen (writeAt [] 0 (JournalHeader.empty.encode crc32c))
        journalHeaderLen
      rcases mem_stops_setLen.mp hfile with rfl | hfile
      · have hwritten : writeAt [] 0 (JournalHeader.empty.encode crc32c) =
            JournalHeader.empty.encode crc32c := writeAt_length [] _
        rw [hwritten, hempty]
      · rcases mem_stops_sync.mp hfile with rfl | hnil
        · exact hlen.le
        · rw [mem_stops_nil.mp hnil]
          exact hlen.le

theorem committedResetPlan_of_openFile (h : openFile crc32c config file = .ok journal)
    (hshort : file.length < 2 ^ 64) : committedResetPlan crc32c file = none := by
  cases hplan : committedResetPlan crc32c file with
  | none => rfl
  | some plan =>
    exfalso
    obtain ⟨-, -, -, marker, hmarked, -⟩ := committedResetPlan_some hplan
    obtain ⟨hlong, -, -, -, -, header, hdecode, hbody, hopen⟩ := openFile_ok h
    have hmarkedLong := hmarked.long
    have hmarker32 : resetMarkerLen = 32 := rfl
    have hslice : (slice file 0 journalHeaderLen).length = journalHeaderLen := length_slice hlong
    obtain ⟨hencode, hbodyLen⟩ := JournalHeader.encode_of_decode hslice hdecode
    have hfield : ∀ start stop, stop ≤ journalHeaderLen →
        slice file start stop = slice (header.encode crc32c) start stop := by
      intro start stop hstop
      rw [hencode, slice_slice (by omega), Nat.zero_add, Nat.zero_add]
    obtain ⟨hstate, ⟨-, -, hends⟩ | ⟨hsome, -, -⟩⟩ := openState_ok hopen
    · omega
    · obtain ⟨segmentId, hid⟩ := Option.ne_none_iff_exists'.mp hsome
      have hflags : slice file 12 16 = [1, 1, 0, 0] := by
        rw [hfield 12 16 (by decide), JournalHeader.slice_flags, hstate, hid]
        rfl
      have hrecorded := hmarked.bodyLen hflags hshort
      rw [hfield 24 32 (by decide), JournalHeader.slice_bodyLen, leNat_u64 hbodyLen] at hrecorded
      omega

theorem open_cases (h : Journal.open crc32c config (some before) = .ok journal) :
    (journal.file = before ∧ committedResetPlan crc32c before = none) ∨
      journal.file.length = journalHeaderLen := by
  obtain ⟨hconfig, hbound, hfile⟩ := openExisting_ok (open_some h)
  have hmax := (validateConfig_ok hconfig).2
  have hmaxLen : maxJournalLen = 1073741824 := rfl
  obtain ⟨-, hsame, -⟩ := openFile_ok hfile
  rcases length_applyAll_openOps config before with hkept | hlen
  · rw [hkept] at hfile hsame
    exact Or.inl ⟨hsame, committedResetPlan_of_openFile hfile (by omega)⟩
  · rw [← hsame] at hlen
    exact Or.inr hlen

/-! ## The invariant of the writer -/

namespace SharedFile

/-- The file has one of the contents, and so it will while the work goes on. -/
def Leaves (s : SharedFile) (contents : List Bytes) : Prop := ∀ file ∈ s.file :: s.later,
  file ∈ contents

theorem leaves_start (work : Work) (file : Bytes) (ops : List FileOp) :
    Leaves { work := work, file := file, later := stops file ops } (stops file ops) := by
  intro other hother
  rcases List.mem_cons.mp hother with rfl | hmem
  · exact self_mem_stops _ _
  · exact hmem

end SharedFile

/-- What a rollback begins with. -/
structure RollsBack (crc32c : Checksum) (journal : Journal) (parts : List (ValidPart crc32c))
    (segmentId : SegmentId) (before : Bytes) : Prop where
  clean : journal.Clean crc32c parts
  rolledBack : journal.rolledBack crc32c before = journal
  backed : Backed crc32c journal parts before
  segment : parts ≠ [] → journal.segmentId = some segmentId
  header : before.length ≤ journalHeaderLen ∨
    Identified crc32c (.active segmentId.value) before

def Steady (crc32c : Checksum) (s : SharedFile) : Prop :=
  match s.work with
  | .idle journal =>
    s = .idle journal ∧
      (journal.poisoned = false → ∃ parts : List (ValidPart crc32c), journal.Clean crc32c parts)
  | .appending journal segmentId bytes =>
    ∃ (parts : List (ValidPart crc32c)) (part : ValidPart crc32c),
      journal.Clean crc32c parts ∧ part.bytes = bytes ∧
      journal.checkAppend crc32c segmentId bytes = .ok () ∧
      s.Leaves (stops journal.file (journal.appendOps crc32c segmentId bytes)) ∧
      (s.file :: s.later).Pairwise fun earlier later => earlier.length ≤ later.length
  | .resetting journal marker =>
    ∃ parts : List (ValidPart crc32c), journal.Clean crc32c parts ∧
      journal.resetMarker crc32c = .ok marker ∧
      s.Leaves (stops journal.file (journal.resetOps crc32c marker))
  | .rollingBack journal segmentId before =>
    ∃ parts : List (ValidPart crc32c), RollsBack crc32c journal parts segmentId before ∧
      s.Leaves (stops before (rollback crc32c journal.len journal.currentHeader))
  | .opening config before => s.Leaves (stops before (openOps crc32c config before))

theorem grows_appendOps (crc32c : Checksum) (journal : Journal) (segmentId : SegmentId)
    (bytes : Bytes) : ∀ op ∈ journal.appendOps crc32c segmentId bytes, op.Grows := by
  intro op hop
  unfold Journal.appendOps writeFrame writeHeader at hop
  split at hop <;> simp at hop <;> rcases hop with rfl | rfl | rfl | rfl <;> trivial

theorem identified_of_append (h : journal.Clean crc32c parts)
    (hcheck : journal.checkAppend crc32c segmentId part.bytes = .ok ())
    (hfile : file ∈ stops journal.file (journal.appendOps crc32c segmentId part.bytes)) :
    file.length ≤ journalHeaderLen ∨ Identified crc32c (.active segmentId.value) file := by
  have hbacked := backed_of_append h hcheck hfile
  cases stopped_of_mem_stops h hfile with
  | tornFirstHeader k hk hempty =>
    left
    rw [length_splice_headers]
  | tornFirstFrame k hk hempty =>
    right
    exact identified_encode (headerOf (some segmentId) [part]) _
  | tornFrame k hk hne => exact Or.inr (hbacked.identified hne (segmentId_of_append h hcheck hne))
  | tornHeader k hk hne => exact Or.inr (hbacked.identified hne (segmentId_of_append h hcheck hne))

theorem rollsBack_of_append (h : journal.Clean crc32c parts)
    (hcheck : journal.checkAppend crc32c segmentId part.bytes = .ok ())
    (hfile : file ∈ stops journal.file (journal.appendOps crc32c segmentId part.bytes)) :
    RollsBack crc32c journal parts segmentId file where
  clean := h
  rolledBack := rolledBack_of_append h hcheck hfile
  backed := backed_of_append h hcheck hfile
  segment := segmentId_of_append h hcheck
  header := identified_of_append h hcheck hfile

theorem rollsBack_of_marker (h : journal.Clean crc32c parts)
    (hid : journal.segmentId = some segmentId)
    (hfile : file ∈ stops journal.file (journal.markerOps crc32c marker)) :
    RollsBack crc32c journal parts segmentId file where
  clean := h
  rolledBack := rolledBack_of_marker h hfile
  backed := backed_of_marker h hfile
  segment _ := hid
  header := by
    have hne : parts ≠ [] := fun hnil => by
      rw [h.identity.mpr hnil] at hid
      cases hid
    exact Or.inr ((backed_of_marker h hfile).identified hne hid)

theorem Steady.step {s s' : SharedFile} (h : Steady crc32c s) (hstep : SharedStep crc32c s s') :
    Steady crc32c s' := by
  cases hstep with
  | @startAppend journal segmentId bytes hcheck =>
    obtain ⟨parts, hclean⟩ := h.2 (checkAppend_ok hcheck).1
    obtain ⟨part, rfl⟩ := validPart_of_checkAppend hclean hcheck
    refine ⟨parts, part, hclean, rfl, hcheck, SharedFile.leaves_start _ _ _, ?_⟩
    have hgrow := grows_appendOps crc32c journal segmentId part.bytes
    exact List.pairwise_cons.mpr ⟨fun later hlater => length_le_of_mem_stops hgrow hlater,
      pairwise_stops hgrow⟩
  | startReset marker hhealthy hmarker =>
    obtain ⟨parts, hclean⟩ := h.2 hhealthy
    exact ⟨parts, hclean, hmarker, SharedFile.leaves_start _ _ _⟩
  | @write work file next skipped later =>
    have hmem : ∀ other ∈ next :: later, other ∈ file :: (skipped ++ next :: later) :=
      fun other hother => List.mem_cons_of_mem _ (List.mem_append_right _ hother)
    cases work with
    | idle journal =>
      have hnone : skipped ++ next :: later = [] := congrArg SharedFile.later h.1
      simp at hnone
    | appending journal segmentId bytes =>
      obtain ⟨parts, part, hclean, hbytes, hcheck, hleaves, hgrow⟩ := h
      refine ⟨parts, part, hclean, hbytes, hcheck, fun other hother => hleaves other
        (hmem other hother), ?_⟩
      exact (List.pairwise_append.mp (List.pairwise_cons.mp hgrow).2).2.1
    | resetting journal marker =>
      obtain ⟨parts, hclean, hmarker, hleaves⟩ := h
      exact ⟨parts, hclean, hmarker, fun other hother => hleaves other (hmem other hother)⟩
    | rollingBack journal segmentId before =>
      obtain ⟨parts, hrolls, hleaves⟩ := h
      exact ⟨parts, hrolls, fun other hother => hleaves other (hmem other hother)⟩
    | opening config before => exact fun other hother => h other (hmem other hother)
  | finishAppend =>
    obtain ⟨parts, part, hclean, rfl, hcheck, -, -⟩ := h
    exact ⟨rfl, fun _ => ⟨parts ++ [part], hclean.appended hcheck⟩⟩
  | failAppend =>
    obtain ⟨parts, part, hclean, rfl, hcheck, hleaves, -⟩ := h
    exact ⟨parts, rollsBack_of_append hclean hcheck (hleaves _ List.mem_cons_self),
      SharedFile.leaves_start _ _ _⟩
  | finishReset =>
    obtain ⟨parts, hclean, hmarker, -⟩ := h
    rw [reset_eq_fresh hclean hmarker]
    exact ⟨rfl, fun _ => ⟨[], clean_fresh hclean.config⟩⟩
  | failMarker segmentId hid hfile =>
    obtain ⟨parts, hclean, -, -⟩ := h
    exact ⟨parts, rollsBack_of_marker hclean hid hfile, SharedFile.leaves_start _ _ _⟩
  | failReset => exact ⟨rfl, fun hhealthy => by cases hhealthy⟩
  | finishRollback =>
    obtain ⟨parts, hrolls, -⟩ := h
    rw [hrolls.rolledBack]
    exact ⟨rfl, fun _ => ⟨parts, hrolls.clean⟩⟩
  | failRollback => exact ⟨rfl, fun hhealthy => by cases hhealthy⟩
  | restart config => exact SharedFile.leaves_start _ _ _
  | finishOpen hopen => exact ⟨rfl, fun _ => clean_of_open hopen⟩

end Kronika.Store
