/-
Appends and resets with what the storage makes of their writes.

A write that fails is rolled back; a rollback that fails, or a committed reset that
is not finished, poisons the handle and leaves some file.
-/
import Kronika.Journal.Capacity

namespace Kronika.Writer

open Format Library

variable {crc32c : Checksum} {config : JournalConfig} {journal : Journal}
  {parts : List (ValidPart crc32c)} {grown : Bool}

/-- The outcome of the writes of an operation.  A rollback starts from the file that
the first `stop` cuts have passed. -/
inductive WriteIo where
  | done
  | rolledBack (stop : Nat)
  | poisoned (file : Bytes)

/-- The content that the cut number `stop` of `ops` leaves. -/
def cutAt (file : Bytes) (ops : List FileOp) (stop : Nat) : Bytes :=
  (stops file ops).getD stop file

theorem cutAt_mem (file : Bytes) (ops : List FileOp) (stop : Nat) :
    cutAt file ops stop ∈ stops file ops := by
  rw [cutAt, List.getD_eq_getElem?_getD]
  cases h : (stops file ops)[stop]? with
  | none => exact self_mem_stops file ops
  | some after => exact List.mem_of_getElem? h

namespace Journal

variable (crc32c)

/-- `append`; its callers do not tell an `Io` error from a `RollbackFailed` one. -/
def appendIo (io : WriteIo) (journal : Journal) (segmentId : SegmentId) (part : Bytes) :
    Except JournalError PartRef × Journal :=
  match journal.checkAppend crc32c segmentId part with
  | .error problem => (.error problem, journal)
  | .ok () =>
    match io with
    | .done => (.ok (journal.appendedRef part), journal.appended crc32c segmentId part)
    | .rolledBack stop =>
      (.error .io, journal.rolledBack crc32c
        (cutAt journal.file (journal.appendOps crc32c segmentId part) stop))
    | .poisoned file => (.error .io, { journal with file := file, poisoned := true })

/-- `reset`; only the marker can be rolled back. -/
def resetIo (io : WriteIo) (journal : Journal) : Except JournalError Unit × Journal :=
  if journal.poisoned then (.error .poisoned, journal)
  else if journal.parts.isEmpty then (.ok (), journal)
  else
    match journal.resetMarker crc32c with
    | .error .poisoned => (.error .poisoned, { journal with poisoned := true })
    | .error problem => (.error problem, journal)
    | .ok marker =>
      match io with
      | .done => journal.reset crc32c
      | .rolledBack stop =>
        (.error .io, journal.rolledBack crc32c
          (cutAt journal.file (journal.markerOps crc32c marker) stop))
      | .poisoned file => (.error .io, { journal with file := file, poisoned := true })

end Journal

/-! ## What the outcomes keep -/

theorem Kept.poison (h : Kept crc32c config journal grown parts) (file : Bytes) :
    Kept crc32c config { journal with file := file, poisoned := true } grown parts :=
  ⟨h.sameConfig, h.repaired, (fun hfalse => by cases hfalse), h.room⟩

theorem Kept.appendIo (h : Kept crc32c config journal grown parts) (io : WriteIo)
    (segmentId : SegmentId) (part : Bytes) :
    (∃ problem, (journal.appendIo crc32c io segmentId part).1 = .error problem ∧
      Kept crc32c config (journal.appendIo crc32c io segmentId part).2 grown parts ∧
      ((journal.appendIo crc32c io segmentId part).2 = journal ∨
        (journal.appendIo crc32c io segmentId part).2.poisoned = true)) ∨
    ∃ valid : ValidPart crc32c, valid.bytes = part ∧
      journal.checkAppend crc32c segmentId part = .ok () ∧
      journal.appendIo crc32c io segmentId part =
        (.ok (journal.appendedRef part), journal.appended crc32c segmentId part) ∧
      Kept crc32c config (journal.appended crc32c segmentId part) true (parts ++ [valid]) := by
  unfold Journal.appendIo
  cases hcheck : journal.checkAppend crc32c segmentId part with
  | error problem => exact Or.inl ⟨problem, rfl, h, Or.inl rfl⟩
  | ok _ =>
    have hclean := h.clean (checkAppend_ok hcheck).1
    cases io with
    | done =>
      obtain ⟨valid, rfl⟩ := validPart_of_checkAppend hclean hcheck
      refine Or.inr ⟨valid, rfl, rfl, rfl, ?_⟩
      refine kept_of_clean (hclean.appended hcheck) h.sameConfig fun _ _ => ?_
      rw [← h.sameConfig]
      exact room_appended hcheck
    | rolledBack stop =>
      left
      dsimp only
      rw [rolledBack_of_append hclean hcheck (cutAt_mem _ _ _)]
      exact ⟨_, rfl, h, Or.inl rfl⟩
    | poisoned file => exact Or.inl ⟨_, rfl, h.poison file, Or.inr rfl⟩

theorem Kept.resetIo (h : Kept crc32c config journal grown parts) (io : WriteIo) :
    (∃ problem, (journal.resetIo crc32c io).1 = .error problem ∧
      Kept crc32c config (journal.resetIo crc32c io).2 grown parts ∧
      ((journal.resetIo crc32c io).2 = journal ∨ (journal.resetIo crc32c io).2.poisoned = true)) ∨
    ((journal.resetIo crc32c io).1 = .ok () ∧
      Kept crc32c config (journal.resetIo crc32c io).2 grown [] ∧
      (journal.resetIo crc32c io).2.parts = [] ∧
      (journal.resetIo crc32c io).2.poisoned = false) := by
  unfold Journal.resetIo
  by_cases hpoisoned : journal.poisoned = true
  · rw [if_pos hpoisoned]
    exact Or.inl ⟨_, rfl, h, Or.inl rfl⟩
  · have hhealthy : journal.poisoned = false := Bool.not_eq_true _ ▸ hpoisoned
    have hclean := h.clean hhealthy
    rw [if_neg hpoisoned]
    by_cases hempty : journal.parts.isEmpty = true
    · have hnil : journal.parts = [] := List.isEmpty_iff.mp hempty
      have hparts : parts = [] := by
        rw [hclean.isEmpty_parts, List.isEmpty_iff] at hempty
        exact hempty
      rw [if_pos hempty]
      exact Or.inr ⟨rfl, hparts ▸ h, hnil, hhealthy⟩
    · rw [if_neg hempty]
      cases hmarker : journal.resetMarker crc32c with
      | error problem =>
        left
        cases problem with
        | poisoned =>
          exact ⟨_, rfl, ⟨h.sameConfig, h.repaired, (fun hfalse => by cases hfalse), h.room⟩,
            Or.inr rfl⟩
        | _ => exact ⟨_, rfl, h, Or.inl rfl⟩
      | ok marker =>
        cases io with
        | done =>
          rw [reset_eq_fresh hclean hmarker]
          exact Or.inr ⟨rfl, kept_of_clean (clean_fresh hclean.config) h.sameConfig
            fun _ hne => absurd rfl hne, rfl, rfl⟩
        | rolledBack stop =>
          left
          dsimp only
          rw [rolledBack_of_marker hclean (cutAt_mem _ _ _)]
          exact ⟨_, rfl, h, Or.inl rfl⟩
        | poisoned file => exact Or.inl ⟨_, rfl, h.poison file, Or.inr rfl⟩

theorem Kept.bodies (h : Kept crc32c config journal grown parts)
    (hhealthy : journal.poisoned = false) : journal.bodies = parts.map ValidPart.bytes :=
  (h.clean hhealthy).bodies

end Kronika.Writer
