/-
The journal over the lives of many writers.

A writer appends and resets until it is stopped, and the next one opens what was left.
However often that happens, the operations that returned and those that were stopped say
which parts the journal has at least and at most.
-/
import Kronika.Journal.Reopen

namespace Kronika.Writer

open Format Library

/-- An operation that returned, or one that was stopped, with the open behind it. -/
inductive LifeEvent where
  | appended (part : Bytes)
  | stoppedAppend (part : Bytes)
  | reset
  | stoppedReset

def LifeEvent.atLeast (parts : List Bytes) : LifeEvent → List Bytes
  | appended part => parts ++ [part]
  | stoppedAppend _ => parts
  | reset | stoppedReset => []

def LifeEvent.atMost (parts : List Bytes) : LifeEvent → List Bytes
  | appended part | stoppedAppend part => parts ++ [part]
  | reset => []
  | stoppedReset => parts

/-- A file that may be found while an operation on the journal runs.  The opens behind a
stopped reset may have been stopped too. -/
inductive Interrupted (crc32c : Checksum) (journal : Journal) (file : Bytes) : LifeEvent → Prop
  | append {segmentId : SegmentId} {bytes : Bytes}
    (hcheck : journal.checkAppend crc32c segmentId bytes = .ok ())
    (hfile : file ∈ stops journal.file (journal.appendOps crc32c segmentId bytes)) :
    Interrupted crc32c journal file (.stoppedAppend bytes)
  | reset {marker : ResetMarker} (hmarker : journal.resetMarker crc32c = .ok marker)
    (hfile : BeforeMarker crc32c journal marker file ∨ AfterMarker crc32c journal marker file) :
    Interrupted crc32c journal file .stoppedReset

inductive LifeStep (crc32c : Checksum) (journal next : Journal) : LifeEvent → Prop
  | appended {segmentId : SegmentId} {bytes : Bytes} {part : PartRef}
    (h : journal.append crc32c segmentId bytes = (.ok part, next)) :
    LifeStep crc32c journal next (.appended bytes)
  | reset (h : journal.reset crc32c = (.ok (), next)) : LifeStep crc32c journal next .reset
  | stopped {event : LifeEvent} {file : Bytes} (hfile : Interrupted crc32c journal file event)
    (hopen : Journal.open crc32c journal.config (some file) = .ok next) :
    LifeStep crc32c journal next event

/-- What became of a new journal. -/
inductive Life (crc32c : Checksum) (config : JournalConfig) : List LifeEvent → Journal → Prop
  | new {journal : Journal} (hopen : Journal.open crc32c config none = .ok journal) :
    Life crc32c config [] journal
  | step {events : List LifeEvent} {journal next : Journal} {event : LifeEvent}
    (h : Life crc32c config events journal) (hstep : LifeStep crc32c journal next event) :
    Life crc32c config (events ++ [event]) next

variable {crc32c : Checksum} {journal next : Journal} {config : JournalConfig}
variable {low high : List Bytes} {parts : List (ValidPart crc32c)}

/-- A clean journal between two logs. -/
structure Between (crc32c : Checksum) (config : JournalConfig) (low high : List Bytes)
    (journal : Journal) : Prop where
  config_eq : journal.config = config
  clean : ∃ parts : List (ValidPart crc32c), journal.Clean crc32c parts
  low : low.Sublist journal.bodies
  high : journal.bodies.Sublist high

theorem between_opened {file : Bytes}
    (hopen : Journal.open crc32c config (some file) = .ok journal)
    (hlow : low.Sublist journal.bodies) (hhigh : journal.bodies.Sublist high) :
    Between crc32c config low high journal := by
  obtain ⟨-, -, hfile⟩ := openExisting_ok (open_some hopen)
  obtain ⟨-, -, -, hconfig, -⟩ := openFile_ok hfile
  exact ⟨hconfig, clean_of_open hopen, hlow, hhigh⟩

theorem between_fresh (hconfig : validateConfig config = .ok ()) (high : List Bytes) :
    Between crc32c config [] high (.fresh crc32c config) :=
  ⟨rfl, ⟨[], clean_fresh hconfig⟩, List.nil_sublist _, List.nil_sublist _⟩

theorem LifeStep.between {event : LifeEvent} (h : Between crc32c config low high journal)
    (hstep : LifeStep crc32c journal next event) :
    Between crc32c config (event.atLeast low) (event.atMost high) next := by
  obtain ⟨rfl, ⟨parts, hclean⟩, hlow, hhigh⟩ := h
  have hbodies := hclean.bodies
  cases hstep with
  | appended happend =>
    obtain ⟨hcheck, rfl⟩ := append_ok happend
    obtain ⟨part, rfl⟩ := validPart_of_checkAppend hclean hcheck
    have hafter := hclean.appended hcheck
    have hall := hafter.bodies
    rw [List.map_append, ← hbodies] at hall
    exact ⟨rfl, ⟨_, hafter⟩, hall ▸ hlow.append_right _, hall ▸ hhigh.append_right _⟩
  | reset hreset =>
    cases hmarker : journal.resetMarker crc32c with
    | ok marker =>
      rw [reset_eq_fresh hclean hmarker] at hreset
      rw [← (Prod.mk.inj hreset).2]
      exact between_fresh hclean.config []
    | error problem =>
      -- Without a marker only a journal without parts is reset, and stays as it is.
      rw [Journal.reset, hclean.healthy, hclean.isEmpty_parts, hmarker] at hreset
      cases parts with
      | nil =>
        obtain rfl := (Prod.mk.inj hreset).2
        exact ⟨rfl, ⟨[], hclean⟩, List.nil_sublist _, hbodies ▸ List.nil_sublist _⟩
      | cons part parts => cases problem <;> cases (Prod.mk.inj hreset).1
  | stopped hleft hopen =>
    cases hleft with
    | append hcheck hfile =>
      obtain ⟨part, rfl⟩ := validPart_of_checkAppend hclean hcheck
      rcases shows_of_mem_stops hclean hcheck hfile with hold | hnew
      · have hsame := (hold.opensAs _ hclean.identity.mpr next (open_some hopen)).2
        rw [← hbodies] at hsame
        exact between_opened hopen (hsame ▸ hlow)
          (hsame ▸ hhigh.trans (List.sublist_append_left high _))
      · have hall := (hnew.opensAs _ (fun hnil => by simp at hnil) next (open_some hopen)).2
        rw [List.map_append, ← hbodies] at hall
        exact between_opened hopen (hall ▸ hlow.trans (List.sublist_append_left _ _))
          (hall ▸ hhigh.append_right _)
    | reset hmarker hfile =>
      have hne := ne_nil_of_resetMarker hclean hmarker
      rcases hfile with hbefore | hafter
      · have hsame := ((hbefore.shows hclean hne).opensAs _ (fun hnil => absurd hnil hne) next
          (open_some hopen)).2
        exact between_opened hopen (List.nil_sublist _) (hsame.trans hbodies.symm ▸ hhigh)
      · rw [(hafter.rewritten hclean).opens hclean hne hmarker] at hopen
        rw [← Except.ok.inj hopen]
        exact between_fresh hclean.config high

theorem Life.between {events : List LifeEvent} (h : Life crc32c config events journal) :
    Between crc32c config (events.foldl LifeEvent.atLeast []) (events.foldl LifeEvent.atMost [])
      journal := by
  induction h with
  | new hopen =>
    obtain ⟨hconfig, rfl⟩ := open_none hopen
    exact between_fresh hconfig []
  | step _ hstep ih =>
    rw [List.foldl_concat, List.foldl_concat]
    exact hstep.between ih

/-- However often writers are stopped, the journal has the parts whose append returned
since a reset was begun, in their order, and none but parts of appends that began since a
reset returned; and it opens again as it is. -/
theorem journal_outlives_writers {events : List LifeEvent}
    (h : Life crc32c config events journal) :
    (events.foldl LifeEvent.atLeast []).Sublist journal.bodies ∧
      journal.bodies.Sublist (events.foldl LifeEvent.atMost []) ∧
      Journal.open crc32c config (some journal.file) = .ok journal := by
  obtain ⟨rfl, ⟨parts, hclean⟩, hlow, hhigh⟩ := h.between
  exact ⟨hlow, hhigh, open_clean hclean⟩

/-- An append, a reset, the append again, and one that is stopped at the last byte of the
header, which the next writer finds whole. -/
theorem journal_outlives_writers_sample :
    [samplePart].Sublist secondJournal.bodies ∧
      secondJournal.bodies.Sublist [samplePart, secondPart] ∧
        Journal.open castagnoli .default (some secondJournal.file) = .ok secondJournal := by
  have hnew : Life castagnoli .default [] (.fresh castagnoli .default) := .new (open_create rfl)
  have happend : (Journal.fresh castagnoli .default).append castagnoli sampleId samplePart =
      (.ok _, sampleJournal) := rfl
  obtain ⟨marker, hmarker⟩ := resetMarker_of_clean clean_sample (List.cons_ne_nil _ _) (by decide)
  have hreset : sampleJournal.reset castagnoli = (.ok (), .fresh castagnoli .default) :=
    reset_eq_fresh clean_sample hmarker
  have hagain := ((hnew.step (.appended happend)).step (.reset hreset)).step (.appended happend)
  have htorn : Interrupted castagnoli sampleJournal (sampleTorn 35) (.stoppedAppend secondPart) :=
    .append checkAppend_second (tornHeader_mem_stops rfl (by decide))
  have hopen : Journal.open castagnoli sampleJournal.config (some (sampleTorn 35)) =
      .ok secondJournal := by
    have hwhole : sampleTorn 35 = secondJournal.file := by decide +kernel
    have hcheck : sampleJournal.checkAppend castagnoli sampleId secondValidPart.bytes = .ok () :=
      checkAppend_second
    have hclean := clean_sample.appended hcheck
    have hconfig : secondJournal.config = sampleJournal.config := rfl
    rw [hwhole, ← hconfig]
    exact open_clean hclean
  exact journal_outlives_writers (hagain.step (.stopped htorn hopen))

end Kronika.Writer
