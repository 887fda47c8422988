/-
Which ids an interner holds.

An id that was answered is in the window or among the flushed records, and it stays
in one of them: a call adds to the window and never to the records' ids, and a flush
moves the window's ids to the records.  Nothing is assumed of the hashes.
-/
import Kronika.Dictionary.Finish
import Kronika.Dictionary.SegmentInvariant

namespace Kronika
namespace Format
namespace SegmentDicts

variable {hashes : Hashes} {before mid after : SegmentDicts} {id : StrId}

def Holds (dicts : SegmentDicts) (id : StrId) : Prop := dicts.entries[id]? ≠ none

def Grows (before after : SegmentDicts) : Prop := ∀ id, before.Holds id → after.Holds id

theorem Grows.refl (dicts : SegmentDicts) : Grows dicts dicts := fun _ h => h

theorem Grows.trans (h : Grows before mid) (h' : Grows mid after) : Grows before after :=
  fun id hid => h' id (h id hid)

theorem insert_grows (hashes : Hashes) (dicts : SegmentDicts) (bytes : Bytes) (req : Requirements) :
    Grows dicts (dicts.insert hashes bytes req).2 ∧
      ∀ id, (dicts.insert hashes bytes req).1 = .ok id →
        (dicts.insert hashes bytes req).2.Holds id := by
  rcases insert_cases hashes dicts bytes req with ⟨problem, heq⟩ |
    ⟨id, existing, -, hget, -, -, heq⟩ | ⟨id, -, -, -, -, heq⟩
  · rw [heq]
    exact ⟨Grows.refl dicts, fun id hok => by cases hok⟩
  · have hkeep : Grows dicts { dicts with entries := dicts.entries.modify id fun stored =>
        { stored with req := existing.req.merge req } } := by
      intro other hother
      show (dicts.entries.modify id _)[other]? ≠ none
      rw [Std.TreeMap.getElem?_modify]
      split
      · rw [hget]
        exact Option.some_ne_none _
      · exact hother
    rw [heq]
    refine ⟨hkeep, fun other hok => ?_⟩
    rw [← Except.ok.inj hok]
    exact hkeep id (by rw [Holds, hget]; exact Option.some_ne_none _)
  · rw [heq]
    refine ⟨fun other hother => ?_, fun other hok => ?_⟩
    · show (dicts.entries.insert id _)[other]? ≠ none
      rw [Std.TreeMap.getElem?_insert]
      split
      · exact Option.some_ne_none _
      · exact hother
    · rw [← Except.ok.inj hok]
      show (dicts.entries.insert id _)[id]? ≠ none
      rw [Std.TreeMap.getElem?_insert_self]
      exact Option.some_ne_none _

theorem internHotBestEffort_grows (hashes : Hashes) (dicts : SegmentDicts) (bytes : Bytes) :
    Grows dicts (dicts.internHotBestEffort hashes bytes).2 := by
  have hinsert := (insert_grows hashes dicts bytes { hotSoft := true }).1
  unfold internHotBestEffort
  rcases h : dicts.insert hashes bytes { hotSoft := true } with ⟨_ | _, _⟩
  · rw [h] at hinsert
    exact hinsert
  · rw [h] at hinsert
    exact hinsert

end SegmentDicts
end Format

namespace Writer

open Format Interner

variable {hashes : Hashes} {interner after : Interner} {id : StrId}

theorem ite_insert_grows (hashes : Hashes) (window : SegmentDicts) (flag : Bool) (id : StrId)
    (bytes : Bytes) (req : Requirements) :
    window.Grows
      (if flag then window.insert hashes bytes req else (.ok id, window)).2 := by
  cases flag with
  | false => exact SegmentDicts.Grows.refl window
  | true => exact (SegmentDicts.insert_grows hashes window bytes req).1

theorem flagCalls_grows (hashes : Hashes) (window : SegmentDicts) (id : StrId) (bytes : Bytes)
    (req : Requirements) :
    window.Grows (flagCalls hashes window id bytes req).2 ∧
      ∀ answer, (flagCalls hashes window id bytes req).1 = .ok answer → answer.1 = id := by
  have hblob := ite_insert_grows hashes window req.blob id bytes { blob := true }
  unfold flagCalls SegmentDicts.internBlob SegmentDicts.internHot
  rcases hfirst : (if req.blob then window.insert hashes bytes { blob := true }
    else (.ok id, window)) with ⟨_ | _, first⟩
  · rw [hfirst] at hblob
    exact ⟨hblob, fun answer hok => by cases hok⟩
  · rw [hfirst] at hblob
    have hhot := ite_insert_grows hashes first req.hotHard id bytes { hotHard := true }
    dsimp only at hblob ⊢
    rcases hsecond : (if req.hotHard then first.insert hashes bytes { hotHard := true }
      else (.ok id, first)) with ⟨_ | _, second⟩
    · rw [hsecond] at hhot
      exact ⟨hblob.trans hhot, fun answer hok => by cases hok⟩
    · rw [hsecond] at hhot
      have hsoft := SegmentDicts.internHotBestEffort_grows hashes second bytes
      dsimp only at hhot ⊢
      by_cases hflag : req.hotSoft = true
      · rw [if_pos hflag]
        rcases hthird : second.internHotBestEffort hashes bytes with ⟨_ | _, third⟩
        · rw [hthird] at hsoft
          exact ⟨(hblob.trans hhot).trans hsoft, fun answer hok => by cases hok⟩
        · rw [hthird] at hsoft
          refine ⟨(hblob.trans hhot).trans hsoft, fun answer hok => ?_⟩
          rw [← Except.ok.inj hok]
      · rw [if_neg hflag]
        refine ⟨hblob.trans hhot, fun answer hok => ?_⟩
        rw [← Except.ok.inj hok]

theorem windowCalls_grows (hashes : Hashes) (window : SegmentDicts) (bytes : Bytes)
    (req : Requirements) :
    window.Grows (windowCalls hashes window bytes req).2 ∧
      ∀ answer, (windowCalls hashes window bytes req).1 = .ok answer →
        (windowCalls hashes window bytes req).2.Holds answer.1 := by
  obtain ⟨hgrows, hanswer⟩ := SegmentDicts.insert_grows hashes window bytes {}
  unfold windowCalls SegmentDicts.intern
  rcases hinsert : window.insert hashes bytes {} with ⟨_ | id, first⟩
  · rw [hinsert] at hgrows
    exact ⟨hgrows, fun answer hok => by cases hok⟩
  · rw [hinsert] at hgrows hanswer
    obtain ⟨hrest, hsame⟩ := flagCalls_grows hashes first id bytes req
    refine ⟨hgrows.trans hrest, fun answer hok => ?_⟩
    rw [hsame answer hok]
    exact hrest id (hanswer id rfl)

namespace Interner

/-- A call: the window loses no id, and the flushed records are those of the same ids. -/
structure KeepsIds (before after : Interner) : Prop where
  window : before.window.Grows after.window
  flushed : ∀ id : StrId, after.flushed[id]? ≠ none ↔ before.flushed[id]? ≠ none

theorem KeepsIds.refl (interner : Interner) : KeepsIds interner interner :=
  ⟨SegmentDicts.Grows.refl _, fun _ => Iff.rfl⟩

theorem KeepsIds.trans {before mid after : Interner} (h : KeepsIds before mid)
    (h' : KeepsIds mid after) : KeepsIds before after :=
  ⟨h.window.trans h'.window, fun id => (h'.flushed id).trans (h.flushed id)⟩

theorem KeepsIds.present {before after : Interner} (h : KeepsIds before after)
    (hid : before.Present id) : after.Present id :=
  hid.imp (h.window id) (h.flushed id).mpr

theorem recordFlushedBits_keeps (interner : Interner) (id : StrId) (merged : Requirements) :
    KeepsIds interner (interner.recordFlushedBits id merged) := by
  unfold recordFlushedBits
  cases hget : interner.flushed[id]? with
  | none => exact KeepsIds.refl interner
  | some previous =>
    refine ⟨SegmentDicts.Grows.refl _, fun other => ?_⟩
    rw [Std.TreeMap.getElem?_insert]
    split
    · rename_i heq
      rw [Std.LawfulEqOrd.eq_of_compare heq] at hget
      simp [hget]
    · exact Iff.rfl

theorem applyToWindow_keeps (hashes : Hashes) (interner : Interner) (id : StrId) (bytes : Bytes)
    (req : Requirements) :
    KeepsIds interner (interner.applyToWindow hashes id bytes req).2 ∧
      ∀ answer, (interner.applyToWindow hashes id bytes req).1 = .ok answer →
        (interner.applyToWindow hashes id bytes req).2.Present answer.1 := by
  obtain ⟨hgrows, hanswer⟩ := windowCalls_grows hashes interner.window bytes req
  unfold applyToWindow
  by_cases hconflict : req.conflicts (interner.limits.oversized bytes) = true
  · rw [if_pos hconflict]
    exact ⟨KeepsIds.refl interner, fun answer hok => by cases hok⟩
  · rw [if_neg hconflict]
    exact ⟨⟨hgrows, fun _ => Iff.rfl⟩, fun answer hok => Or.inl (hanswer answer hok)⟩

theorem requestFlushed_keeps (hashes : Hashes) (interner : Interner) {flushed : Flushed}
    (hget : interner.flushed[id]? = some flushed) (bytes : Bytes) (req : Requirements) :
    KeepsIds interner (interner.requestFlushed hashes id flushed bytes req).2 ∧
      ∀ answer, (interner.requestFlushed hashes id flushed bytes req).1 = .ok answer →
        (interner.requestFlushed hashes id flushed bytes req).2.Present answer.1 := by
  have hpresent : interner.Present id := Or.inr (by rw [hget]; exact Option.some_ne_none _)
  unfold requestFlushed
  split
  · exact ⟨KeepsIds.refl interner, fun answer hok => by cases hok⟩
  · dsimp only
    split
    · exact ⟨KeepsIds.refl interner, fun answer hok => by cases hok⟩
    · split
      · obtain ⟨hkeeps, hanswer⟩ := applyToWindow_keeps hashes interner id bytes
          (flushed.req.merge req)
        rcases happly : interner.applyToWindow hashes id bytes (flushed.req.merge req) with
          ⟨_ | answer, applied⟩
        · rw [happly] at hkeeps
          exact ⟨hkeeps, fun answer hok => by cases hok⟩
        · rw [happly] at hkeeps hanswer
          have hrecord := recordFlushedBits_keeps applied id (flushed.req.merge req)
          refine ⟨hkeeps.trans hrecord, fun other hok => ?_⟩
          rw [← Except.ok.inj hok]
          exact hrecord.present (hanswer answer rfl)
      · split
        · have hrecord := recordFlushedBits_keeps interner id (flushed.req.merge req)
          refine ⟨hrecord, fun answer hok => ?_⟩
          rw [← Except.ok.inj hok]
          exact hrecord.present hpresent
        · refine ⟨KeepsIds.refl interner, fun answer hok => ?_⟩
          rw [← Except.ok.inj hok]
          exact hpresent

theorem request_keeps (hashes : Hashes) (interner : Interner) (bytes : Bytes) (req : Requirements) :
    KeepsIds interner (interner.request hashes bytes req).2 ∧
      ∀ answer, (interner.request hashes bytes req).1 = .ok answer →
        (interner.request hashes bytes req).2.Present answer.1 := by
  unfold request
  cases StrId.of hashes bytes with
  | none => exact ⟨KeepsIds.refl interner, fun answer hok => by cases hok⟩
  | some id =>
    dsimp only
    split
    · exact applyToWindow_keeps hashes interner id bytes req
    · cases hget : interner.flushed[id]? with
      | some flushed => exact requestFlushed_keeps hashes interner hget bytes req
      | none => exact applyToWindow_keeps hashes interner id bytes req

theorem call_keeps (hashes : Hashes) (interner : Interner) (kind : Kind) (bytes : Bytes) :
    KeepsIds interner (interner.call hashes kind bytes).2 ∧
      ∀ answer, (interner.call hashes kind bytes).1 = .ok answer →
        (interner.call hashes kind bytes).2.Present answer.1 := by
  obtain ⟨hkeeps, hanswer⟩ := request_keeps hashes interner bytes kind.req
  obtain ⟨hwindow, hflushed⟩ := call_stores hashes interner kind bytes
  have hsame : ∀ id, (interner.call hashes kind bytes).2.Present id ↔
      (interner.request hashes bytes kind.req).2.Present id := by
    intro id
    rw [Present, Present, hwindow, hflushed]
  refine ⟨⟨by rw [hwindow]; exact hkeeps.window, by rw [hflushed]; exact hkeeps.flushed⟩,
    fun answer hok => ?_⟩
  rw [call_answer] at hok
  rw [hsame]
  cases hrequest : (interner.request hashes bytes kind.req).1 with
  | error problem =>
    rw [hrequest] at hok
    cases kind <;> cases hok
  | ok found =>
    have hfound := hanswer found hrequest
    rw [hrequest] at hok
    cases kind <;> rw [← Except.ok.inj hok] <;> exact hfound

theorem flushed_afterFlush (hashes : Hashes) (interner : Interner) (id : StrId) :
    (interner.afterFlush hashes).flushed[id]? ≠ none ↔ interner.Present id := by
  rw [getElem?_flushed_afterFlush, Present]
  cases interner.window.entries[id]? with
  | none => simp
  | some stored => simp

end Interner
end Writer
end Kronika
