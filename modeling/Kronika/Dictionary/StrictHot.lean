/-
When a strict-hot value is refused for lack of room.

The window exempts strict-hot values from its cap, but a request reaches it flag by
flag, and the first call of a request carries no flag.  So a strict-hot value that is
new to the window is refused like any other, and a value that is not new never is.
-/
import Kronika.Dictionary.Finish

namespace Kronika.Writer

open Format Dictionary

def RefusedFull {α : Type} (result : Except DictError α) : Prop :=
  ∃ storedBytes max, result = .error (.full storedBytes max)

variable {α : Type}

theorem not_refusedFull_ok (a : α) : ¬RefusedFull (.ok a : Except DictError α) := by
  rintro ⟨_, _, h⟩
  cases h

theorem not_refusedFull_conflict (id : StrId) :
    ¬RefusedFull (.error (.placementConflict id) : Except DictError α) := by
  rintro ⟨_, _, h⟩
  cases h

theorem not_refusedFull_collision (raw : UInt64) :
    ¬RefusedFull (.error (.collision raw) : Except DictError α) := by
  rintro ⟨_, _, h⟩
  cases h

section Window

variable {hashes : Hashes} {dicts : SegmentDicts} {id : StrId} {bytes : Bytes}

theorem checkSameValue_cases (hashes : Hashes) (id : StrId) (existing : Stored) (bytes : Bytes) :
    SegmentDicts.checkSameValue hashes id existing bytes = .ok () ∨
      SegmentDicts.checkSameValue hashes id existing bytes = .error (.collision id.raw) :=
  ite_eq_or_eq _ _ _

variable {stored : Stored}

theorem insert_held (req : Requirements) (hid : StrId.of hashes bytes = some id)
    (h : dicts.entries[id]? = some stored) :
    ¬RefusedFull (dicts.insert hashes bytes req).1 ∧
      ∃ later, (dicts.insert hashes bytes req).2.entries[id]? = some later := by
  rw [SegmentDicts.insert_eq hid, SegmentDicts.tryInsert, h]
  dsimp only
  rcases checkSameValue_cases hashes id stored bytes with hsame | hother
  · rw [hsame]
    dsimp only
    split
    · exact ⟨not_refusedFull_conflict id, stored, h⟩
    · refine ⟨not_refusedFull_ok id, { stored with req := stored.req.merge req }, ?_⟩
      rw [Std.TreeMap.getElem?_modify, if_pos Std.ReflCmp.compare_self, h]
      rfl
  · rw [hother]
    exact ⟨not_refusedFull_collision _, stored, h⟩

theorem optional_held (req : Requirements) (hid : StrId.of hashes bytes = some id)
    (h : dicts.entries[id]? = some stored) (flag : Bool) :
    ¬RefusedFull (if flag then dicts.insert hashes bytes req else (.ok id, dicts)).1 ∧
      ∃ later, (if flag then dicts.insert hashes bytes req else (.ok id, dicts)).2.entries[id]? =
        some later := by
  cases flag with
  | false => exact ⟨not_refusedFull_ok id, stored, h⟩
  | true => exact insert_held req hid h

theorem flagCalls_held {req : Requirements}
    (hid : StrId.of hashes bytes = some id) (h : dicts.entries[id]? = some stored) :
    ¬RefusedFull (Interner.flagCalls hashes dicts id bytes req).1 := by
  have hstep : ∀ (flag : Bool) (dicts : SegmentDicts) (req : Requirements) (stored : Stored),
      dicts.entries[id]? = some stored →
      ∀ result after, (if flag then dicts.insert hashes bytes req else (.ok id, dicts)) =
        (result, after) → ¬RefusedFull result ∧ ∃ later, after.entries[id]? = some later := by
    intro flag dicts req stored h result after heq
    have hheld := optional_held req hid h flag
    rw [heq] at hheld
    exact hheld
  rw [Interner.flagCalls]
  split
  · next problem _ heq =>
    obtain ⟨hroom, _⟩ := hstep req.blob dicts { blob := true } stored h _ _ heq
    rintro ⟨storedBytes, max, hfull⟩
    exact hroom ⟨storedBytes, max, by rw [Except.error.inj hfull]⟩
  · next _ window heq =>
    obtain ⟨_, later, hlater⟩ := hstep req.blob dicts { blob := true } stored h _ _ heq
    split
    · next problem _ heq =>
      obtain ⟨hroom, _⟩ := hstep req.hotHard window { hotHard := true } later hlater _ _ heq
      rintro ⟨storedBytes, max, hfull⟩
      exact hroom ⟨storedBytes, max, by rw [Except.error.inj hfull]⟩
    · next _ window' heq =>
      obtain ⟨_, last, hlast⟩ := hstep req.hotHard window { hotHard := true } later hlater _ _ heq
      split
      · obtain ⟨hroom, _⟩ := insert_held { hotSoft := true } hid hlast
        rw [SegmentDicts.internHotBestEffort]
        generalize window'.insert hashes bytes { hotSoft := true } = outcome at hroom ⊢
        obtain ⟨result, after⟩ := outcome
        cases result with
        | error problem =>
          rintro ⟨storedBytes, max, hfull⟩
          exact hroom ⟨storedBytes, max, by rw [Except.error.inj hfull]⟩
        | ok found => exact not_refusedFull_ok _
      · exact not_refusedFull_ok _

theorem windowCalls_full {req : Requirements} (hid : StrId.of hashes bytes = some id) :
    RefusedFull (Interner.windowCalls hashes dicts bytes req).1 ↔
      dicts.entries[id]? = none ∧ ¬dicts.HasRoom bytes := by
  rw [Interner.windowCalls, SegmentDicts.intern]
  cases hentry : dicts.entries[id]? with
  | some stored =>
    obtain ⟨hroom, later, hlater⟩ := insert_held {} hid hentry
    generalize hcall : dicts.insert hashes bytes {} = outcome at hroom hlater ⊢
    obtain ⟨result, after⟩ := outcome
    constructor
    · intro hfull
      cases result with
      | error problem =>
        obtain ⟨storedBytes, max, heq⟩ := hfull
        exact absurd ⟨storedBytes, max, by rw [Except.error.inj heq]⟩ hroom
      | ok found =>
        have hfound : found = id := by
          rw [SegmentDicts.insert_eq hid, SegmentDicts.tryInsert, hentry] at hcall
          dsimp only at hcall
          split at hcall
          · cases (Prod.mk.inj hcall).1
          · split at hcall
            · cases (Prod.mk.inj hcall).1
            · exact (Except.ok.inj (Prod.mk.inj hcall).1).symm
        rw [hfound] at hfull
        exact absurd hfull (flagCalls_held hid hlater)
    · rintro ⟨hnone, _⟩
      cases hnone
  | none =>
    rcases SegmentDicts.insert_absent {} hid hentry with ⟨hconflict, _⟩ | ⟨_, heq⟩ |
      ⟨after, heq, hupdated, hroom⟩
    · cases hconflict
    · rw [heq]
      have hfull : ¬dicts.HasRoom bytes := by
        rw [SegmentDicts.insert_eq hid, SegmentDicts.tryInsert, hentry] at heq
        intro hroom
        have hfits : ¬dicts.limits.maxTotalBytes <
            saturatingAdd dicts.storedBytes (min bytes.length dicts.limits.truncateLimit) :=
          not_lt.mpr hroom
        simp [Requirements.conflicts, hfits] at heq
      exact ⟨fun _ => ⟨rfl, hfull⟩, fun _ => ⟨_, _, rfl⟩⟩
    · rw [heq]
      obtain ⟨stored, hstored⟩ : ∃ stored, after.entries[id]? = some stored := ⟨_, hupdated.entry⟩
      constructor
      · intro hfull
        exact absurd hfull (flagCalls_held hid hstored)
      · rintro ⟨_, hnone⟩
        exact absurd (hroom rfl) hnone

end Window

/-! ## Requests -/

section Requests

variable {hashes : Hashes} {interner : Interner} {id : StrId} {bytes : Bytes}

theorem applyToWindow_full (interner : Interner) (req : Requirements)
    (hid : StrId.of hashes bytes = some id) :
    RefusedFull (interner.applyToWindow hashes id bytes req).1 ↔
      req.conflicts (interner.limits.oversized bytes) = false ∧
        interner.window.entries[id]? = none ∧ ¬interner.window.HasRoom bytes := by
  rw [Interner.applyToWindow]
  by_cases hconflict : req.conflicts (interner.limits.oversized bytes) = true
  · rw [if_pos hconflict]
    constructor
    · intro hfull
      exact absurd hfull (not_refusedFull_conflict id)
    · rintro ⟨hcalm, _⟩
      rw [hconflict] at hcalm
      cases hcalm
  · rw [Bool.eq_false_iff.mpr hconflict, and_iff_right rfl]
    exact windowCalls_full hid

/-- What keeps a strict-hot call from storing a new value without room. -/
def HotFits (hashes : Hashes) (interner : Interner) (bytes : Bytes) : Prop :=
  ∀ id, StrId.of hashes bytes = some id →
    (interner.window.resolve id).isSome ∨ interner.limits.oversized bytes = true ∨
      interner.window.HasRoom bytes ∨
      ∃ flushed, interner.flushed[id]? = some flushed ∧
        (flushed.isSame hashes bytes = false ∨ flushed.blobRequired = true ∨
          flushed.hotHard = true)

theorem requestFlushed_full {flushed : Flushed} (hid : StrId.of hashes bytes = some id)
    (hnone : interner.window.entries[id]? = none) :
    RefusedFull (interner.requestFlushed hashes id flushed bytes { hotHard := true }).1 ↔
      flushed.isSame hashes bytes = true ∧ flushed.blobRequired = false ∧
        flushed.hotHard = false ∧ interner.limits.oversized bytes = false ∧
        ¬interner.window.HasRoom bytes := by
  rw [Interner.requestFlushed]
  cases hsame : flushed.isSame hashes bytes with
  | false =>
    constructor
    · intro hfull
      exact absurd hfull (not_refusedFull_collision _)
    · rintro ⟨h, _⟩
      cases h
  | true =>
    have hlen : flushed.fullLen = bytes.length := by
      rw [Flushed.isSame, Bool.and_eq_true, beq_iff_eq] at hsame
      exact hsame.1
    have hover : decide (flushed.fullLen ≥ interner.limits.blobThreshold) =
        interner.limits.oversized bytes := by
      rw [hlen]
      rfl
    dsimp only
    rw [hover]
    have hmerged :
        (flushed.req.merge { hotHard := true }).conflicts (interner.limits.oversized bytes) =
        (flushed.blobRequired || interner.limits.oversized bytes) := by
      simp [Requirements.conflicts, Requirements.merge, Flushed.req]
    rw [hmerged]
    by_cases hblob : (flushed.blobRequired || interner.limits.oversized bytes) = true
    · rw [if_pos hblob]
      constructor
      · intro hfull
        exact absurd hfull (not_refusedFull_conflict id)
      · rintro ⟨_, hblobFree, _, hsmall, _⟩
        rw [hblobFree, hsmall] at hblob
        cases hblob
    · rw [if_neg hblob]
      obtain ⟨hblobFree, hsmall⟩ := Bool.or_eq_false_iff.mp (Bool.eq_false_iff.mpr hblob)
      have hdurable : ((flushed.req.merge { hotHard := true }).blob != flushed.blobRequired ||
          (flushed.req.merge { hotHard := true }).hotHard != flushed.hotHard) =
          !flushed.hotHard := by
        simp [Requirements.merge, Flushed.req]
      rw [hdurable]
      cases hhard : flushed.hotHard with
      | true =>
        constructor
        · intro hfull
          exact absurd hfull (not_refusedFull_ok _)
        · rintro ⟨_, _, h, _⟩
          cases h
      | false =>
        have happly := applyToWindow_full interner (flushed.req.merge { hotHard := true }) hid
        rw [hmerged, Bool.eq_false_iff.mpr hblob, and_iff_right rfl, and_iff_right hnone] at happly
        generalize interner.applyToWindow hashes id bytes (flushed.req.merge { hotHard := true }) =
          outcome at happly ⊢
        obtain ⟨result, after⟩ := outcome
        rw [hblobFree, hsmall, and_iff_right rfl, and_iff_right rfl, and_iff_right rfl,
          and_iff_right rfl]
        cases result with
        | error problem => exact happly
        | ok answer =>
          have hcalm := happly.not.mp (not_refusedFull_ok _)
          exact ⟨fun hfull => absurd hfull (not_refusedFull_ok _), fun h => absurd h hcalm⟩

theorem request_full (hid : StrId.of hashes bytes = some id) :
    RefusedFull (interner.request hashes bytes { hotHard := true }).1 ↔
      interner.window.entries[id]? = none ∧ interner.limits.oversized bytes = false ∧
        ¬interner.window.HasRoom bytes ∧
        ∀ flushed, interner.flushed[id]? = some flushed →
          flushed.isSame hashes bytes = true ∧ flushed.blobRequired = false ∧
            flushed.hotHard = false := by
  have happly := applyToWindow_full interner { hotHard := true } hid
  rw [Interner.request, hid]
  dsimp only
  rw [Interner.isSome_resolve]
  cases hentry : interner.window.entries[id]? with
  | some stored =>
    rw [if_pos (by simp), happly, hentry]
    constructor
    · rintro ⟨_, hnone, _⟩
      cases hnone
    · rintro ⟨hnone, _⟩
      cases hnone
  | none =>
    rw [if_neg (by simp)]
    cases hflushed : interner.flushed[id]? with
    | none =>
      rw [happly, hentry]
      constructor
      · rintro ⟨hsmall, hnone, hroom⟩
        refine ⟨hnone, hsmall, hroom, fun flushed hsome => ?_⟩
        cases hsome
      · rintro ⟨hnone, hsmall, hroom, _⟩
        exact ⟨hsmall, hnone, hroom⟩
    | some flushed =>
      rw [requestFlushed_full hid hentry]
      constructor
      · rintro ⟨hsame, hblob, hhard, hsmall, hroom⟩
        refine ⟨rfl, hsmall, hroom, fun other hother => ?_⟩
        rw [← Option.some.inj hother]
        exact ⟨hsame, hblob, hhard⟩
      · rintro ⟨_, hsmall, hroom, hall⟩
        obtain ⟨hsame, hblob, hhard⟩ := hall flushed rfl
        exact ⟨hsame, hblob, hhard, hsmall, hroom⟩

end Requests

/-- A strict-hot call is refused for lack of room exactly when it has to store a new value. -/
theorem strict_hot_fits (hashes : Hashes) (interner : Interner) (bytes : Bytes) :
    ¬RefusedFull (interner.internHot hashes bytes).1 ↔ HotFits hashes interner bytes := by
  have hcall : RefusedFull (interner.internHot hashes bytes).1 ↔
      RefusedFull (interner.request hashes bytes { hotHard := true }).1 := by
    rw [Interner.internHot]
    generalize interner.request hashes bytes { hotHard := true } = outcome
    obtain ⟨result, after⟩ := outcome
    cases result with
    | error problem =>
      constructor
      · rintro ⟨storedBytes, max, h⟩
        exact ⟨storedBytes, max, by rw [Except.error.inj h]⟩
      · rintro ⟨storedBytes, max, h⟩
        exact ⟨storedBytes, max, by rw [Except.error.inj h]⟩
    | ok answer =>
      exact ⟨fun h => absurd h (not_refusedFull_ok _), fun h => absurd h (not_refusedFull_ok _)⟩
  rw [hcall]
  cases hid : StrId.of hashes bytes with
  | none =>
    rw [Interner.request, hid]
    refine ⟨fun _ id h => ?_, fun _ => not_refusedFull_collision 0⟩
    rw [hid] at h
    cases h
  | some id =>
    rw [request_full hid]
    constructor
    · intro hfits other hother
      rw [hid] at hother
      rw [← Option.some.inj hother, Interner.isSome_resolve]
      by_contra hcon
      push Not at hcon
      obtain ⟨habsent, hover, hroom, hall⟩ := hcon
      refine hfits ⟨by simpa using habsent, by simpa using hover, hroom, fun flushed hflushed => ?_⟩
      obtain ⟨hsame, hblob, hhard⟩ := hall flushed hflushed
      exact ⟨by simpa using hsame, by simpa using hblob, by simpa using hhard⟩
    · rintro hfits ⟨hnone, hsmall, hroom, hall⟩
      rcases hfits id hid with hheld | hover | hroom' | ⟨flushed, hflushed, hrefused⟩
      · rw [Interner.isSome_resolve, hnone] at hheld
        cases hheld
      · rw [hsmall] at hover
        cases hover
      · exact hroom hroom'
      · obtain ⟨hsame, hblob, hhard⟩ := hall flushed hflushed
        rw [hsame, hblob, hhard] at hrefused
        rcases hrefused with h | h | h
        · cases h
        · cases h
        · cases h

/-- Limits under which one of the known values fits, but not two. -/
def tightLimits : DictLimits := ⟨5, 5, 5, by decide, by decide, by decide⟩

theorem strict_hot_refused :
    ¬∀ (limits : DictLimits) (steps : List SegmentStep) (bytes : Bytes),
      ¬RefusedFull ((Run.finish (SegmentRun.step knownHashes) (SegmentRun.new limits)
        steps).interner.internHot knownHashes bytes).1 := by
  intro h
  exact h tightLimits [.call .intern planBytes] nameBytes ⟨4, 5, rfl⟩

end Kronika.Writer
