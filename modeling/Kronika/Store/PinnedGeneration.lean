/-
A prefix of one generation of a journal, while the writer goes on.

The prefix is there, or a committed reset or nothing is (`Held`), until the generation is
over; from then on the file names another generation, or a reset (`Gone`).  The writer
leads from the first phase into the second, and never back, unless it takes back what a
reader has already seen or begins a generation under the same segment.
-/
import Kronika.Store.SharedFile
import Mathlib.Logic.Relation

namespace Kronika.Store

open Format Library Writer

/-- The writer rolls back an operation on the segment, to a journal shorter than this. -/
def SharedFile.Shrinks (segmentId : SegmentId) (validLen : Nat) (s : SharedFile) : Prop :=
  ∃ journal before, s.work = .rollingBack journal segmentId before ∧ journal.len < validLen

def SharedFile.Reuses (segmentId : SegmentId) (s s' : SharedFile) : Prop :=
  ∃ journal part, s.work = .idle journal ∧ journal.segmentId = none ∧
    s'.work = .appending journal segmentId part

/-- A step that neither takes back nor begins again a generation that has been read up to
`validLen`. -/
def SparingStep (crc32c : Checksum) (segmentId : SegmentId) (validLen : Nat)
    (s s' : SharedFile) : Prop :=
  SharedStep crc32c s s' ∧ ¬s.Reuses segmentId s' ∧ ¬s'.Shrinks segmentId validLen

/-- The writer works on another generation, or on none. -/
def SharedFile.Replaced (segmentId : SegmentId) (s : SharedFile) : Prop :=
  match s.work with
  | .idle journal => journal.poisoned = false ∧ journal.segmentId ≠ some segmentId
  | .appending _ other _ => other ≠ segmentId
  | .resetting journal _ => journal.segmentId ≠ some segmentId
  | .rollingBack _ other _ => other ≠ segmentId
  | .opening _ _ => False

variable {crc32c : Checksum} {journal : Journal} {parts : List (ValidPart crc32c)}
variable {segmentId other : SegmentId} {part : ValidPart crc32c} {marker : ResetMarker}
variable {config : JournalConfig} {bytes file next before : Bytes}

/-! ## Contents -/

/-- The file begins with the bytes, under a header of the segment. -/
structure Keeps (crc32c : Checksum) (segmentId : SegmentId) (bytes file : Bytes) : Prop where
  body : bytes <+: file.drop journalHeaderLen
  header : Identified crc32c (.active segmentId.value) file

/-- A reader finds the bytes in the file, or a committed reset, or nothing. -/
def Held (crc32c : Checksum) (segmentId : SegmentId) (bytes file : Bytes) : Prop :=
  Keeps crc32c segmentId bytes file ∨
    ((committedResetPlan crc32c file).isSome = true ∧ bytes <+: file.drop journalHeaderLen) ∨
    file.length ≤ journalHeaderLen

/-- The file has nothing behind its header, or a committed reset, or another generation. -/
def Gone (crc32c : Checksum) (segmentId : SegmentId) (file : Bytes) : Prop :=
  file.length ≤ journalHeaderLen ∨ (committedResetPlan crc32c file).isSome = true ∨
    ∃ state, state ≠ .active segmentId.value ∧ Identified crc32c state file

/-- The journal of the handle is of the generation and has the prefix. -/
structure Carries (segmentId : SegmentId) (bytes : Bytes) (journal : Journal) : Prop where
  segment : journal.segmentId = some segmentId
  body : bytes <+: journal.file.drop journalHeaderLen

theorem value_ne (h : other ≠ segmentId) :
    JournalState.active other.value ≠ .active segmentId.value := by
  intro hsame
  have hid : stateOf (some other) = stateOf (some segmentId) := hsame
  exact h (Option.some.inj (stateOf_inj hid))

theorem gone_of_identified (h : journal.segmentId ≠ some segmentId)
    (hfile : Identified crc32c (stateOf journal.segmentId) file) : Gone crc32c segmentId file :=
  Or.inr (Or.inr ⟨_, fun hsame => h (stateOf_inj (show stateOf journal.segmentId =
    stateOf (some segmentId) from hsame)), hfile⟩)

theorem keeps_of_backed (hbacked : Backed crc32c journal parts file) (hne : parts ≠ [])
    (hid : journal.segmentId = some segmentId) (hbytes : bytes <+: frames parts) :
    Keeps crc32c segmentId bytes file :=
  ⟨hbytes.trans hbacked.body, hbacked.identified hne hid⟩

theorem drop_file (h : journal.Clean crc32c parts) :
    journal.file.drop journalHeaderLen = frames parts := by
  rw [h.file]
  exact List.drop_left' (JournalHeader.length_encode crc32c _)

theorem ne_nil_of_segment (h : journal.Clean crc32c parts)
    (hid : journal.segmentId = some segmentId) : parts ≠ [] := by
  intro hnil
  rw [h.identity.mpr hnil] at hid
  cases hid

theorem Carries.keeps (h : Carries segmentId bytes journal) (hclean : journal.Clean crc32c parts)
    (hbacked : Backed crc32c journal parts file) : Keeps crc32c segmentId bytes file := by
  have hbody := h.body
  rw [drop_file hclean] at hbody
  exact keeps_of_backed hbacked (ne_nil_of_segment hclean h.segment) h.segment hbody

theorem Carries.keeps_file (h : Carries segmentId bytes journal)
    (hclean : journal.Clean crc32c parts) : Keeps crc32c segmentId bytes journal.file := by
  have hbacked := Backed.append hclean []
  rw [List.append_nil] at hbacked
  exact h.keeps hclean hbacked

/-! ### An append -/

theorem body_of_append (h : journal.Clean crc32c parts)
    (hfile : file ∈ stops journal.file (journal.appendOps crc32c other part.bytes)) :
    file.drop journalHeaderLen <+: frames (parts ++ [part]) := by
  rw [frames_concat]
  cases stopped_of_mem_stops h hfile with
  | tornFirstHeader k hk hempty =>
    rw [List.drop_of_length_le (length_splice_headers crc32c k _ _).le]
    exact List.nil_prefix
  | tornFirstFrame k hk hempty =>
    subst hempty
    exact List.take_prefix _ _
  | tornFrame k hk hne =>
    rw [image, List.append_assoc, List.drop_left' (JournalHeader.length_encode crc32c _)]
    exact (List.prefix_append_right_inj _).mpr (List.take_prefix _ _)
  | tornHeader k hk hne =>
    rw [List.drop_left' (length_splice_headers crc32c k _ _), frames_concat]

theorem keeps_of_append (h : journal.Clean crc32c parts)
    (hcheck : journal.checkAppend crc32c segmentId part.bytes = .ok ())
    (hfile : file ∈ stops journal.file (journal.appendOps crc32c segmentId part.bytes))
    (hnext : next ∈ stops journal.file (journal.appendOps crc32c segmentId part.bytes))
    (hlen : file.length ≤ next.length) (hne : bytes ≠ [])
    (hbody : bytes <+: file.drop journalHeaderLen) : Keeps crc32c segmentId bytes next := by
  have hle := hbody.length_le
  have hpos : 0 < bytes.length := List.length_pos_iff.mpr hne
  rw [List.length_drop] at hle
  refine ⟨List.prefix_of_prefix_length_le (hbody.trans (body_of_append h hfile))
    (body_of_append h hnext) (by rw [List.length_drop]; omega), ?_⟩
  rcases identified_of_append h hcheck hnext with hshort | hheader
  · omega
  · exact hheader

theorem gone_of_append (h : journal.Clean crc32c parts)
    (hcheck : journal.checkAppend crc32c other part.bytes = .ok ()) (hother : other ≠ segmentId)
    (hfile : file ∈ stops journal.file (journal.appendOps crc32c other part.bytes)) :
    Gone crc32c segmentId file := by
  rcases identified_of_append h hcheck hfile with hshort | hheader
  · exact Or.inl hshort
  · exact Or.inr (Or.inr ⟨_, value_ne hother, hheader⟩)

/-! ### A reset -/

theorem mem_stops_reset (h : journal.Clean crc32c parts)
    (hmarker : journal.resetMarker crc32c = .ok marker)
    (hfile : file ∈ stops journal.file (journal.resetOps crc32c marker)) :
    Backed crc32c journal parts file ∨ file.length ≤ journalHeaderLen ∨
      ((committedResetPlan crc32c file).isSome = true ∧
        frames parts <+: file.drop journalHeaderLen) := by
  rcases mem_stops_resetOps h hfile with ⟨k, -, rfl⟩ | hafter
  · exact Or.inl (.append h _)
  · cases hafter.rewritten h with
    | torn j hj =>
      obtain ⟨found, hplan⟩ := committedResetPlan_eq
        (committedReset_of_torn h (ne_nil_of_resetMarker h hmarker) hmarker hj rfl)
      refine Or.inr (Or.inr ⟨by rw [hplan]; rfl, ?_⟩)
      rw [List.drop_left' (length_splice_headers crc32c j _ _)]
      exact List.prefix_append _ _
    | done => exact Or.inr (Or.inl (JournalHeader.length_encode crc32c .empty).le)

theorem held_of_reset (h : journal.Clean crc32c parts)
    (hmarker : journal.resetMarker crc32c = .ok marker) (hcarries : Carries segmentId bytes journal)
    (hfile : file ∈ stops journal.file (journal.resetOps crc32c marker)) :
    Held crc32c segmentId bytes file := by
  have hbody := hcarries.body
  rw [drop_file h] at hbody
  rcases mem_stops_reset h hmarker hfile with hbacked | hshort | ⟨hreset, hframes⟩
  · exact Or.inl (hcarries.keeps h hbacked)
  · exact Or.inr (Or.inr hshort)
  · exact Or.inr (Or.inl ⟨hreset, hbody.trans hframes⟩)

theorem gone_of_reset (h : journal.Clean crc32c parts)
    (hmarker : journal.resetMarker crc32c = .ok marker)
    (hother : journal.segmentId ≠ some segmentId)
    (hfile : file ∈ stops journal.file (journal.resetOps crc32c marker)) :
    Gone crc32c segmentId file := by
  rcases mem_stops_reset h hmarker hfile with hbacked | hshort | ⟨hreset, -⟩
  · exact gone_of_identified hother (hbacked.header (ne_nil_of_resetMarker h hmarker))
  · exact Or.inl hshort
  · exact Or.inr (Or.inl hreset)

/-! ### A rollback -/

theorem keeps_of_rollback (h : RollsBack crc32c journal parts segmentId before)
    (hcarries : Carries segmentId bytes journal)
    (hfile : file ∈ stops before (rollback crc32c journal.len journal.currentHeader)) :
    Keeps crc32c segmentId bytes file :=
  hcarries.keeps h.clean (backed_of_rollback h.clean h.backed hfile).1

theorem identified_of_rollback (h : RollsBack crc32c journal parts other before)
    (hfile : file ∈ stops before (rollback crc32c journal.len journal.currentHeader)) :
    file.length ≤ journalHeaderLen ∨ Identified crc32c (.active other.value) file := by
  obtain ⟨hbacked, hsame | hlen⟩ := backed_of_rollback h.clean h.backed hfile
  · rw [hsame]
    exact h.header
  · by_cases hne : parts = []
    · left
      rw [hlen, h.clean.len, hne]
      exact Nat.le_refl _
    · exact Or.inr (hbacked.identified hne (h.segment hne))

theorem gone_of_rollback (h : RollsBack crc32c journal parts other before)
    (hother : other ≠ segmentId)
    (hfile : file ∈ stops before (rollback crc32c journal.len journal.currentHeader)) :
    Gone crc32c segmentId file := by
  rcases identified_of_rollback h hfile with hshort | hheader
  · exact Or.inl hshort
  · exact Or.inr (Or.inr ⟨_, value_ne hother, hheader⟩)

theorem RollsBack.segmentId_ne (h : RollsBack crc32c journal parts other before)
    (hother : other ≠ segmentId) : journal.segmentId ≠ some segmentId := by
  intro hid
  have hsegment := h.segment (ne_nil_of_segment h.clean hid)
  exact hother (Option.some.inj (hsegment.symm.trans hid))

/-! ### An opening -/

theorem held_of_open (hbefore : Held crc32c segmentId bytes before)
    (hfile : file ∈ stops before (openOps crc32c config before)) :
    Held crc32c segmentId bytes file := by
  rcases mem_stops_openOps hfile with rfl | hshort | ⟨hreset, hmarked, hdrop⟩
  · exact hbefore
  · exact Or.inr (Or.inr hshort)
  · refine Or.inr (Or.inl ⟨hreset, ?_⟩)
    rw [hdrop]
    rcases hbefore with hkeeps | ⟨-, hbody⟩ | hshort
    · exact hkeeps.body
    · exact hbody
    · obtain ⟨plan, hplan⟩ := Option.isSome_iff_exists.mp hmarked
      obtain ⟨-, -, -, _, hmarker, -⟩ := committedResetPlan_some hplan
      have hlong := hmarker.long
      have hmarker32 : resetMarkerLen = 32 := rfl
      omega

theorem gone_of_open (hbefore : Gone crc32c segmentId before)
    (hfile : file ∈ stops before (openOps crc32c config before)) : Gone crc32c segmentId file := by
  rcases mem_stops_openOps hfile with rfl | hshort | ⟨hreset, -, -⟩
  · exact hbefore
  · exact Or.inl hshort
  · exact Or.inr (Or.inl hreset)

theorem stateOf_segmentId {state : JournalState} (h : journal.Clean crc32c parts)
    (hfile : Identified crc32c state journal.file) : stateOf journal.segmentId = state := by
  have hshort := h.short
  have hlong : journalHeaderLen ≤ journal.file.length := by
    rw [h.file, length_image]
    exact Nat.le_add_right _ _
  have hdecode : JournalHeader.decode crc32c (slice journal.file 0 journalHeaderLen) =
      .ok (headerOf journal.segmentId parts) := by
    rw [h.file, image, slice_header_full (JournalHeader.length_encode crc32c _)]
    exact JournalHeader.decode_encode (show (frames parts).length < 2 ^ 64 by omega)
  exact hfile.state_eq hlong hdecode

theorem segmentId_eq_none (h : journal.Clean crc32c parts)
    (hlen : journal.file.length = journalHeaderLen) : journal.segmentId = none := by
  rw [h.identity, ← frames_eq_nil]
  have hfile := h.length_file
  have hjournal := h.len
  omega

theorem open_held (hbefore : Held crc32c segmentId bytes before)
    (hopen : Journal.open crc32c config (some before) = .ok journal) :
    Carries segmentId bytes journal ∨
      journal.segmentId = none ∧ journal.file.length = journalHeaderLen := by
  obtain ⟨parts, hclean⟩ := clean_of_open hopen
  rcases open_cases hopen with ⟨hfile, hplan⟩ | hlen
  · rcases hbefore with hkeeps | ⟨hreset, -⟩ | hshort
    · rw [← hfile] at hkeeps
      have hstate : stateOf journal.segmentId = stateOf (some segmentId) :=
        stateOf_segmentId hclean hkeeps.header
      exact Or.inl ⟨stateOf_inj hstate, hkeeps.body⟩
    · rw [hplan] at hreset
      cases hreset
    · have hlen : journal.file.length = journalHeaderLen := by
        have hlong := hclean.len
        rw [← hclean.length_file, hfile] at hlong
        rw [hfile]
        omega
      exact Or.inr ⟨segmentId_eq_none hclean hlen, hlen⟩
  · exact Or.inr ⟨segmentId_eq_none hclean hlen, hlen⟩

theorem open_gone (hbefore : Gone crc32c segmentId before)
    (hopen : Journal.open crc32c config (some before) = .ok journal) :
    journal.segmentId ≠ some segmentId ∧ Gone crc32c segmentId journal.file := by
  obtain ⟨parts, hclean⟩ := clean_of_open hopen
  have hshort : journal.file.length = journalHeaderLen →
      journal.segmentId ≠ some segmentId ∧ Gone crc32c segmentId journal.file := by
    intro hlen
    refine ⟨fun hid => ?_, Or.inl hlen.le⟩
    rw [segmentId_eq_none hclean hlen] at hid
    cases hid
  rcases open_cases hopen with ⟨hfile, hplan⟩ | hlen
  · rcases hbefore with hlen | hreset | ⟨state, hstate, hheader⟩
    · apply hshort
      have hlong := hclean.len
      rw [← hclean.length_file, hfile] at hlong
      rw [hfile]
      omega
    · rw [hplan] at hreset
      cases hreset
    · rw [← hfile] at hheader
      refine ⟨fun hid => hstate ?_, Or.inr (Or.inr ⟨state, hstate, hheader⟩)⟩
      rw [← stateOf_segmentId hclean hheader, hid]
      rfl
  · exact hshort hlen

/-! ## The two phases -/

/-- The generation goes on, and what it leaves has the prefix. -/
structure Holds (crc32c : Checksum) (segmentId : SegmentId) (bytes : Bytes) (s : SharedFile) :
    Prop where
  held : ∀ file ∈ s.file :: s.later, Held crc32c segmentId bytes file
  work : match s.work with
    | .idle journal => journal.poisoned = false → Carries segmentId bytes journal
    | .appending _ other _ =>
      other = segmentId ∧ ∀ file ∈ s.file :: s.later, Keeps crc32c segmentId bytes file
    | .resetting journal _ => Carries segmentId bytes journal
    | .rollingBack journal other _ => other = segmentId ∧ Carries segmentId bytes journal
    | .opening _ before => Held crc32c segmentId bytes before

/-- The generation is over. -/
structure Over (crc32c : Checksum) (segmentId : SegmentId) (s : SharedFile) : Prop where
  gone : ∀ file ∈ s.file :: s.later, Gone crc32c segmentId file
  work : match s.work with
    | .idle journal => journal.poisoned = false → journal.segmentId ≠ some segmentId
    | .appending _ other _ => other ≠ segmentId
    | .resetting journal _ => journal.segmentId ≠ some segmentId
    | .rollingBack _ other _ => other ≠ segmentId
    | .opening _ before => Gone crc32c segmentId before

theorem Holds.not_replaced {s : SharedFile} (h : Holds crc32c segmentId bytes s) :
    ¬s.Replaced segmentId := by
  obtain ⟨-, hwork⟩ := h
  unfold SharedFile.Replaced
  cases hs : s.work with
  | idle journal =>
    rw [hs] at hwork
    exact fun hreplaced => hreplaced.2 (hwork hreplaced.1).segment
  | appending journal other part =>
    rw [hs] at hwork
    exact fun hreplaced => hreplaced hwork.1
  | resetting journal marker =>
    rw [hs] at hwork
    exact fun hreplaced => hreplaced hwork.segment
  | rollingBack journal other before =>
    rw [hs] at hwork
    exact fun hreplaced => hreplaced hwork.1
  | opening config before => exact id

theorem held_idle {journal : Journal} (h : Held crc32c segmentId bytes journal.file)
    (hcarries : journal.poisoned = false → Carries segmentId bytes journal) :
    Holds crc32c segmentId bytes (.idle journal) where
  held file hfile := by
    rw [List.mem_singleton.mp hfile]
    exact h
  work := hcarries

theorem over_idle {journal : Journal} (h : Gone crc32c segmentId journal.file)
    (hid : journal.poisoned = false → journal.segmentId ≠ some segmentId) :
    Over crc32c segmentId (.idle journal) where
  gone file hfile := by
    rw [List.mem_singleton.mp hfile]
    exact h
  work := hid

section Steps

variable {s s' : SharedFile}

theorem Over.step (h : Over crc32c segmentId s) (hsteady : Steady crc32c s)
    (hstep : SharedStep crc32c s s') (hnew : ¬s.Reuses segmentId s') :
    Over crc32c segmentId s' := by
  obtain ⟨hgone, hwork⟩ := h
  cases hstep with
  | @startAppend journal other bytes hcheck =>
    have hhealthy := (checkAppend_ok hcheck).1
    obtain ⟨parts, hclean⟩ := hsteady.2 hhealthy
    obtain ⟨part, rfl⟩ := validPart_of_checkAppend hclean hcheck
    have hother : other ≠ segmentId := by
      rintro rfl
      cases hid : journal.segmentId with
      | none => exact hnew ⟨journal, part.bytes, rfl, hid, rfl⟩
      | some found =>
        have hsame := (checkAppend_ok hcheck).2.1 found hid
        exact hwork hhealthy (hsame ▸ hid)
    exact ⟨fun file hfile => gone_of_append hclean hcheck hother
      (SharedFile.leaves_start (.appending journal other part.bytes) _ _ file hfile), hother⟩
  | @startReset journal marker hhealthy hmarker =>
    obtain ⟨parts, hclean⟩ := hsteady.2 hhealthy
    have hother := hwork hhealthy
    exact ⟨fun file hfile => gone_of_reset hclean hmarker hother
      (SharedFile.leaves_start (.resetting journal marker) _ _ file hfile), hother⟩
  | write =>
    exact ⟨fun other hother => hgone other
      (List.mem_cons_of_mem _ (List.mem_append_right _ hother)), hwork⟩
  | @finishAppend journal other bytes =>
    obtain ⟨parts, part, hclean, rfl, hcheck, -, -⟩ := hsteady
    refine over_idle (gone_of_append hclean hcheck hwork (applyAll_mem_stops _ _)) fun _ hid => ?_
    exact hwork (Option.some.inj hid)
  | @failAppend journal other bytes =>
    obtain ⟨parts, part, hclean, rfl, hcheck, hleaves, -⟩ := hsteady
    have hrolls := rollsBack_of_append hclean hcheck (hleaves _ List.mem_cons_self)
    exact ⟨fun file hfile => gone_of_rollback hrolls hwork
      (SharedFile.leaves_start (.rollingBack journal other _) _ _ file hfile), hwork⟩
  | @finishReset journal marker =>
    obtain ⟨parts, hclean, hmarker, -⟩ := hsteady
    rw [reset_eq_fresh hclean hmarker]
    exact over_idle (Or.inl (JournalHeader.length_encode crc32c .empty).le) fun _ hid => by
      cases hid
  | @failMarker journal marker file later other hid hfile =>
    obtain ⟨parts, hclean, -, -⟩ := hsteady
    have hother : other ≠ segmentId := fun hsame => hwork (hsame ▸ hid)
    have hrolls := rollsBack_of_marker hclean hid hfile
    exact ⟨fun file hfile => gone_of_rollback hrolls hother
      (SharedFile.leaves_start (.rollingBack journal other _) _ _ file hfile), hother⟩
  | failReset => exact over_idle (hgone _ List.mem_cons_self) fun hhealthy => by cases hhealthy
  | finishRollback =>
    obtain ⟨parts, hrolls, -⟩ := hsteady
    have hfile := gone_of_rollback hrolls hwork (applyAll_mem_stops _ _)
    refine over_idle hfile fun _ => ?_
    exact hrolls.segmentId_ne hwork
  | failRollback => exact over_idle (hgone _ List.mem_cons_self) fun hhealthy => by cases hhealthy
  | restart config =>
    have hbefore := hgone _ List.mem_cons_self
    exact ⟨fun file hfile => gone_of_open hbefore
      (SharedFile.leaves_start (.opening config s.file) _ _ file hfile), hbefore⟩
  | finishOpen hopen =>
    obtain ⟨hid, hfile⟩ := open_gone hwork hopen
    exact over_idle hfile fun _ => hid

theorem Holds.step (h : Holds crc32c segmentId bytes s) (hne : bytes ≠ [])
    (hsteady : Steady crc32c s)
    (hstep : SparingStep crc32c segmentId (journalHeaderLen + bytes.length) s s') :
    Holds crc32c segmentId bytes s' ∨ Over crc32c segmentId s' := by
  obtain ⟨hheld, hwork⟩ := h
  obtain ⟨hstep, -, hspared⟩ := hstep
  cases hstep with
  | @startAppend journal other bytes' hcheck =>
    have hhealthy := (checkAppend_ok hcheck).1
    obtain ⟨parts, hclean⟩ := hsteady.2 hhealthy
    obtain ⟨part, rfl⟩ := validPart_of_checkAppend hclean hcheck
    have hcarries := hwork hhealthy
    obtain rfl : segmentId = other := (checkAppend_ok hcheck).2.1 segmentId hcarries.segment
    have hkeeps : ∀ file ∈ stops journal.file (journal.appendOps crc32c segmentId part.bytes),
        Keeps crc32c segmentId bytes file := fun file hfile =>
      keeps_of_append hclean hcheck (self_mem_stops _ _) hfile
        (length_le_of_mem_stops (grows_appendOps _ _ _ _) hfile) hne hcarries.body
    have hleaves := SharedFile.leaves_start (.appending journal segmentId part.bytes) journal.file
      (journal.appendOps crc32c segmentId part.bytes)
    exact Or.inl ⟨fun file hfile => Or.inl (hkeeps file (hleaves file hfile)), rfl,
      fun file hfile => hkeeps file (hleaves file hfile)⟩
  | @startReset journal marker hhealthy hmarker =>
    obtain ⟨parts, hclean⟩ := hsteady.2 hhealthy
    have hcarries := hwork hhealthy
    exact Or.inl ⟨fun file hfile => held_of_reset hclean hmarker hcarries
      (SharedFile.leaves_start (.resetting journal marker) _ _ file hfile), hcarries⟩
  | @write work file next skipped later =>
    have hmem : ∀ other ∈ next :: later, other ∈ file :: (skipped ++ next :: later) :=
      fun other hother => List.mem_cons_of_mem _ (List.mem_append_right _ hother)
    left
    refine ⟨fun other hother => hheld other (hmem other hother), ?_⟩
    cases work with
    | appending journal other part =>
      exact ⟨hwork.1, fun file hfile => hwork.2 file (hmem file hfile)⟩
    | idle journal => exact hwork
    | resetting journal marker => exact hwork
    | rollingBack journal other before => exact hwork
    | opening config before => exact hwork
  | @finishAppend journal other bytes' file =>
    obtain ⟨parts, part, hclean, rfl, hcheck, hleaves, -⟩ := hsteady
    obtain ⟨rfl, hkeeps⟩ := hwork
    have hfile := hkeeps file List.mem_cons_self
    have hstop := hleaves file List.mem_cons_self
    have hlen : file.length ≤ (journal.appended crc32c other part.bytes).file.length := by
      have hbody := (body_of_append hclean hstop).length_le
      rw [appended_file hclean, length_image]
      rw [List.length_drop] at hbody
      omega
    have hafter : Keeps crc32c other bytes (journal.appended crc32c other part.bytes).file :=
      keeps_of_append hclean hcheck hstop (applyAll_mem_stops _ _) hlen hne hfile.body
    exact Or.inl (held_idle (Or.inl hafter) fun _ => ⟨rfl, hafter.body⟩)
  | @failAppend journal other bytes' file later =>
    obtain ⟨parts, part, hclean, rfl, hcheck, hleaves, -⟩ := hsteady
    obtain ⟨rfl, hkeeps⟩ := hwork
    have hrolls := rollsBack_of_append hclean hcheck (hleaves file List.mem_cons_self)
    have hlong : journalHeaderLen + bytes.length ≤ journal.len :=
      Nat.le_of_not_lt fun hlt => hspared ⟨journal, file, rfl, hlt⟩
    -- the journal had the prefix before the append that failed
    have hcarries : Carries other bytes journal := by
      have hpos : 0 < bytes.length := List.length_pos_iff.mpr hne
      have hlen := hclean.len
      have hparts : parts ≠ [] := by
        rintro rfl
        have hzero : (frames ([] : List (ValidPart crc32c))).length = 0 := rfl
        omega
      refine ⟨segmentId_of_append hclean hcheck hparts, ?_⟩
      rw [drop_file hclean]
      exact List.prefix_of_prefix_length_le (hkeeps file List.mem_cons_self).body
        hrolls.backed.body (by omega)
    have hleaves := SharedFile.leaves_start (.rollingBack journal other file) file
      (rollback crc32c journal.len journal.currentHeader)
    exact Or.inl ⟨fun file hfile => Or.inl
      (keeps_of_rollback hrolls hcarries (hleaves file hfile)), rfl, hcarries⟩
  | @finishReset journal marker =>
    obtain ⟨parts, hclean, hmarker, -⟩ := hsteady
    rw [reset_eq_fresh hclean hmarker]
    exact Or.inr (over_idle (Or.inl (JournalHeader.length_encode crc32c .empty).le) fun _ hid => by
      cases hid)
  | @failMarker journal marker file later other hid hfile =>
    obtain ⟨parts, hclean, -, -⟩ := hsteady
    have hcarries : Carries segmentId bytes journal := hwork
    obtain rfl : other = segmentId := Option.some.inj (hid.symm.trans hcarries.segment)
    have hrolls := rollsBack_of_marker hclean hid hfile
    have hleaves := SharedFile.leaves_start (.rollingBack journal other file) file
      (rollback crc32c journal.len journal.currentHeader)
    exact Or.inl ⟨fun file hfile => Or.inl
      (keeps_of_rollback hrolls hcarries (hleaves file hfile)), rfl, hcarries⟩
  | failReset =>
    exact Or.inl (held_idle (hheld _ List.mem_cons_self) fun hhealthy => by cases hhealthy)
  | finishRollback =>
    obtain ⟨parts, hrolls, -⟩ := hsteady
    obtain ⟨rfl, hcarries⟩ := hwork
    rw [hrolls.rolledBack]
    exact Or.inl (held_idle (Or.inl (hcarries.keeps_file hrolls.clean)) fun _ => hcarries)
  | failRollback =>
    exact Or.inl (held_idle (hheld _ List.mem_cons_self) fun hhealthy => by cases hhealthy)
  | restart config =>
    have hbefore := hheld _ List.mem_cons_self
    exact Or.inl ⟨fun file hfile => held_of_open hbefore
      (SharedFile.leaves_start (.opening config s.file) _ _ file hfile), hbefore⟩
  | finishOpen hopen =>
    rcases open_held hwork hopen with hcarries | ⟨hid, hlen⟩
    · obtain ⟨parts, hclean⟩ := clean_of_open hopen
      exact Or.inl (held_idle (Or.inl (hcarries.keeps_file hclean)) fun _ => hcarries)
    · refine Or.inr (over_idle (Or.inl hlen.le) fun _ hsome => ?_)
      rw [hid] at hsome
      cases hsome

/-! ## The capture -/

/-- The facts that a scan of the file has established. -/
structure Captured (crc32c : Checksum) (segmentId : SegmentId) (bytes file : Bytes) : Prop where
  keeps : Keeps crc32c segmentId bytes file
  no_reset : committedResetPlan crc32c file = none
  bodyLen : ∀ header, JournalHeader.decode crc32c (slice file 0 journalHeaderLen) = .ok header →
    header.bodyLen = file.length - journalHeaderLen

theorem Captured.long (h : Captured crc32c segmentId bytes file) (hne : bytes ≠ []) :
    journalHeaderLen + bytes.length ≤ file.length := by
  have hle := h.keeps.body.length_le
  have hpos : 0 < bytes.length := List.length_pos_iff.mpr hne
  rw [List.length_drop] at hle
  omega

theorem Captured.segment_eq (h : Captured crc32c segmentId bytes file)
    (hfile : Identified crc32c (.active other.value) file) : other = segmentId := by
  have hsame : stateOf (some other) = stateOf (some segmentId) := hfile.unique h.keeps.header
  exact Option.some.inj (stateOf_inj hsame)

theorem Captured.carries_of_reset (h : Captured crc32c segmentId bytes file) (hne : bytes ≠ [])
    (hclean : journal.Clean crc32c parts) (hmarker : journal.resetMarker crc32c = .ok marker)
    (hfile : file ∈ stops journal.file (journal.resetOps crc32c marker)) :
    Carries segmentId bytes journal := by
  have hlong := h.long hne
  have hpos : 0 < bytes.length := List.length_pos_iff.mpr hne
  rcases mem_stops_resetOps hclean hfile with ⟨k, hk, rfl⟩ | hafter
  · have hshort := hclean.short
    have hheader := JournalHeader.length_encode crc32c (headerOf journal.segmentId parts)
    have hdecode : JournalHeader.decode crc32c
        (slice (journal.file ++ (marker.encode crc32c).take k) 0 journalHeaderLen) =
          .ok (headerOf journal.segmentId parts) := by
      rw [hclean.file, image, List.append_assoc, slice_header_full hheader]
      exact JournalHeader.decode_encode (show (frames parts).length < 2 ^ 64 by omega)
    have hbody : (frames parts).length =
        (journal.file ++ (marker.encode crc32c).take k).length - journalHeaderLen :=
      h.bodyLen _ hdecode
    have hnone : (marker.encode crc32c).take k = [] := by
      rw [List.length_append, hclean.length_file, hclean.len] at hbody
      exact List.length_eq_zero_iff.mp (by omega)
    rw [hnone, List.append_nil] at h
    exact ⟨stateOf_inj (stateOf_segmentId hclean h.keeps.header), h.keeps.body⟩
  · cases hafter.rewritten hclean with
    | torn j hj =>
      obtain ⟨found, hplan⟩ := committedResetPlan_eq
        (committedReset_of_torn hclean (ne_nil_of_resetMarker hclean hmarker) hmarker hj rfl)
      have hnone := h.no_reset
      rw [hplan] at hnone
      cases hnone
    | done =>
      rw [JournalHeader.length_encode] at hlong
      omega

theorem holds_of_captured (hsteady : Steady crc32c s)
    (h : Captured crc32c segmentId bytes s.file) (hne : bytes ≠ [])
    (hspared : ¬s.Shrinks segmentId (journalHeaderLen + bytes.length)) :
    Holds crc32c segmentId bytes s := by
  have hlong := h.long hne
  have hpos : 0 < bytes.length := List.length_pos_iff.mpr hne
  obtain ⟨work, file, later⟩ := s
  cases work with
  | idle journal =>
    obtain ⟨hidle, hclean⟩ := hsteady
    cases hidle
    refine held_idle (Or.inl h.keeps) fun hhealthy => ?_
    obtain ⟨parts, hclean⟩ := hclean hhealthy
    exact ⟨stateOf_inj (stateOf_segmentId hclean h.keeps.header), h.keeps.body⟩
  | appending journal other part =>
    obtain ⟨parts, part, hclean, rfl, hcheck, hleaves, hgrow⟩ := hsteady
    have hstop := hleaves file List.mem_cons_self
    obtain rfl : other = segmentId := by
      rcases identified_of_append hclean hcheck hstop with hshort | hheader
      · exact absurd (show journalHeaderLen + bytes.length ≤ file.length from hlong) (by omega)
      · exact h.segment_eq hheader
    have hkeeps : ∀ next ∈ file :: later, Keeps crc32c other bytes next := by
      intro next hnext
      have hle : file.length ≤ next.length := by
        rcases List.mem_cons.mp hnext with rfl | hmem
        · exact Nat.le_refl _
        · exact (List.pairwise_cons.mp hgrow).1 next hmem
      exact keeps_of_append hclean hcheck hstop (hleaves next hnext) hle hne h.keeps.body
    exact ⟨fun next hnext => Or.inl (hkeeps next hnext), rfl, hkeeps⟩
  | resetting journal marker =>
    obtain ⟨parts, hclean, hmarker, hleaves⟩ := hsteady
    have hcarries := h.carries_of_reset hne hclean hmarker (hleaves file List.mem_cons_self)
    exact ⟨fun next hnext => held_of_reset hclean hmarker hcarries (hleaves next hnext), hcarries⟩
  | rollingBack journal other before =>
    obtain ⟨parts, hrolls, hleaves⟩ := hsteady
    have hstop := hleaves file List.mem_cons_self
    obtain rfl : other = segmentId := by
      rcases identified_of_rollback hrolls hstop with hshort | hheader
      · exact absurd (show journalHeaderLen + bytes.length ≤ file.length from hlong) (by omega)
      · exact h.segment_eq hheader
    have hroom : journalHeaderLen + bytes.length ≤ journal.len :=
      Nat.le_of_not_lt fun hlt => hspared ⟨journal, before, rfl, hlt⟩
    have hlen := hrolls.clean.len
    have hparts : parts ≠ [] := by
      rintro rfl
      have hzero : (frames ([] : List (ValidPart crc32c))).length = 0 := rfl
      omega
    have hcarries : Carries other bytes journal := by
      refine ⟨hrolls.segment hparts, ?_⟩
      rw [drop_file hrolls.clean]
      exact List.prefix_of_prefix_length_le h.keeps.body
        (backed_of_rollback hrolls.clean hrolls.backed hstop).1.body (by omega)
    exact ⟨fun next hnext => Or.inl (keeps_of_rollback hrolls hcarries (hleaves next hnext)), rfl,
      hcarries⟩
  | opening config before =>
    have hsame : file = before := by
      rcases mem_stops_openOps (hsteady file List.mem_cons_self) with hsame | hshort | ⟨hreset, -⟩
      · exact hsame
      · exact absurd (show journalHeaderLen + bytes.length ≤ file.length from hlong) (by omega)
      · have hnone : committedResetPlan crc32c file = none := h.no_reset
        rw [hnone] at hreset
        cases hreset
    have hbefore : Held crc32c segmentId bytes before := hsame ▸ Or.inl h.keeps
    exact ⟨fun next hnext => held_of_open hbefore (hsteady next hnext), hbefore⟩

/-! ## Runs -/

theorem phases {validLen : Nat} (hsteady : Steady crc32c s)
    (h : Holds crc32c segmentId bytes s ∨ Over crc32c segmentId s) (hne : bytes ≠ [])
    (hlen : validLen = journalHeaderLen + bytes.length)
    (hrun : Relation.ReflTransGen (SparingStep crc32c segmentId validLen) s s') :
    Steady crc32c s' ∧ (Holds crc32c segmentId bytes s' ∨ Over crc32c segmentId s') := by
  subst hlen
  induction hrun with
  | refl => exact ⟨hsteady, h⟩
  | tail _ hstep ih =>
    obtain ⟨hsteady, hphase⟩ := ih
    refine ⟨hsteady.step hstep.1, ?_⟩
    rcases hphase with hholds | hover
    · exact hholds.step hne hsteady hstep
    · exact Or.inr (hover.step hsteady hstep.1 hstep.2.1)

theorem over_of_over {validLen : Nat} (hsteady : Steady crc32c s) (h : Over crc32c segmentId s)
    (hrun : Relation.ReflTransGen (SparingStep crc32c segmentId validLen) s s') :
    Over crc32c segmentId s' := by
  have hboth : Steady crc32c s' ∧ Over crc32c segmentId s' := by
    induction hrun with
    | refl => exact ⟨hsteady, h⟩
    | tail _ hstep ih => exact ⟨ih.1.step hstep.1, ih.2.step ih.1 hstep.1 hstep.2.1⟩
  exact hboth.2

theorem Steady.run (h : Steady crc32c s)
    (hrun : Relation.ReflTransGen (SharedStep crc32c) s s') : Steady crc32c s' := by
  induction hrun with
  | refl => exact h
  | tail _ hstep ih => exact ih.step hstep

theorem steady_opening (config : JournalConfig) (before : Bytes) :
    Steady crc32c (.opening crc32c config before) :=
  SharedFile.leaves_start (.opening config before) _ _

end Steps

end Kronika.Store
