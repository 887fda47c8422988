/-
The dictionaries and the interner as books.

`SegmentDicts.book` and `Interner.book` read off what is recorded for each id.  A
request acts on both through the one operation `Book.request`, a flush leaves the
book of the interner as it is, and the reported sizes are a sum over the book.
-/
import Kronika.Dictionary.InternerInvariant

namespace Kronika
namespace Dictionary

open Format

namespace Standing

theorem ofRequirements_flushed (oversized : Bool) (req : Requirements) :
    ofRequirements oversized
        { blob := req.blob, hotHard := req.hotHard, hotSoft := !req.hotHard && req.hotSoft } =
      ofRequirements oversized req := by
  obtain ⟨blob, hard, soft⟩ := req
  cases oversized <;> cases blob <;> cases hard <;> cases soft <;> rfl

theorem ofRequirements_of_blob {oversized : Bool} {a b : Requirements} (hblob : a.blob = b.blob)
    (hhard : a.hotHard = b.hotHard) (h : a.blob = true ∨ oversized = true) :
    ofRequirements oversized a = ofRequirements oversized b := by
  obtain ⟨blob, hard, soft⟩ := a
  obtain ⟨blob', hard', soft'⟩ := b
  obtain rfl : blob = blob' := hblob
  obtain rfl : hard = hard' := hhard
  rcases h with h | h
  · obtain rfl : blob = true := h
    rfl
  · subst h
    cases blob <;> cases hard <;> cases soft <;> cases soft' <;> rfl

end Standing

namespace Book

theorem request_eq {limits : DictLimits} {book : Book} {id : StrId} {bytes : Bytes}
    {old : Requirements} (req : Requirements)
    (hstanding : book.standingOf id = Standing.ofRequirements (limits.oversized bytes) old)
    (hcalm : old.conflicts (limits.oversized bytes) = false) :
    book.request limits id bytes.length req =
      if (old.merge req).conflicts (limits.oversized bytes) then
        (.error (.placementConflict id), book)
      else
        (.ok (id, (Standing.ofRequirements (limits.oversized bytes) (old.merge req)).isHot),
          Function.update book id
            (some ⟨bytes.length,
              Standing.ofRequirements (limits.oversized bytes) (old.merge req)⟩)) := by
  have hraise := Standing.raise_ofRequirements req hcalm
  rw [request, hstanding, show decide (limits.blobThreshold ≤ bytes.length) =
    limits.oversized bytes from rfl, hraise]
  split_ifs <;> rfl

theorem request_map {limits : DictLimits} {book : Book} {id : StrId} {len : Nat}
    {req : Requirements} (isHot : StrId → Bool)
    (h : ∀ hot, (book.request limits id len req).1 = .ok (id, hot) → isHot id = hot) :
    ((book.request limits id len req).1.map Prod.fst).map (fun id => (id, isHot id)) =
      (book.request limits id len req).1 := by
  revert h
  unfold request
  split
  · exact fun _ => rfl
  · intro h
    rw [Except.map, Except.map, h _ rfl]

end Book

end Dictionary

namespace Format
namespace SegmentDicts

open Dictionary

variable {hashes : Hashes} {V : Set Bytes} {dicts after : SegmentDicts}
variable {id : StrId} {bytes : Bytes} {req : Requirements}

def book (dicts : SegmentDicts) : Book := fun id =>
  (dicts.entries[id]?).map fun stored =>
    ⟨stored.fullLen, Standing.ofRequirements stored.oversized stored.req⟩

theorem book_standingOf (hsound : Sound hashes V dicts) (hinj : IdInjective hashes V)
    (hV : bytes ∈ V) (hid : StrId.of hashes bytes = some id) :
    dicts.book.standingOf id =
        Standing.ofRequirements (dicts.limits.oversized bytes) (dicts.reqOf id) ∧
      (dicts.reqOf id).conflicts (dicts.limits.oversized bytes) = false := by
  cases h : dicts.entries[id]? with
  | none =>
    rw [reqOf_of_none h]
    simp only [Book.standingOf, book, h]
    exact ⟨rfl, rfl⟩
  | some stored =>
    obtain ⟨v, hv, hentry⟩ := hsound id stored h
    obtain rfl := hinj v hv bytes hV (hentry.id_eq.trans hid.symm)
    rw [reqOf_of_getElem? h]
    simp only [Book.standingOf, book, h]
    refine ⟨?_, hentry.calm⟩
    rw [hentry.stored_eq]
    rfl

theorem Updated.book (hup : Updated hashes dicts after id bytes req) :
    after.book = Function.update dicts.book id (some ⟨bytes.length,
      Standing.ofRequirements (dicts.limits.oversized bytes) ((dicts.reqOf id).merge req)⟩) := by
  funext j
  by_cases hj : j = id
  · rw [hj, Function.update_self, SegmentDicts.book, hup.entry]
    rfl
  · rw [Function.update_of_ne hj, SegmentDicts.book, SegmentDicts.book, hup.others j hj]

theorem insert_book (req : Requirements) (hsound : Sound hashes V dicts)
    (hinj : IdInjective hashes V) (hV : bytes ∈ V) (hid : StrId.of hashes bytes = some id) :
    (∃ stored max, (dicts.insert hashes bytes req).1 = .error (.full stored max)) ∨
      (dicts.insert hashes bytes req).1 =
          (dicts.book.request dicts.limits id bytes.length req).1.map Prod.fst ∧
        (dicts.insert hashes bytes req).2.book =
          (dicts.book.request dicts.limits id bytes.length req).2 ∧
        (dicts.insert hashes bytes req).2.limits = dicts.limits ∧
        Sound hashes V (dicts.insert hashes bytes req).2 ∧
        ∀ hot, (dicts.book.request dicts.limits id bytes.length req).1 = .ok (id, hot) →
          ((dicts.insert hashes bytes req).2.entries[id]?).any Stored.isHot = hot := by
  obtain ⟨hstanding, hcalm⟩ := book_standingOf hsound hinj hV hid
  rw [Book.request_eq req hstanding hcalm]
  rcases insert_spec req hsound hinj.separated hV hid with
    ⟨problem, heq, hwhy⟩ | ⟨after, heq, hup, -⟩
  · rw [heq]
    cases hwhy with
    | collision v hv hne hvid => exact absurd (hinj v hv bytes hV (hvid.trans hid.symm)) hne
    | full stored max h => exact .inl ⟨stored, max, rfl⟩
    | conflict h =>
      right
      rw [if_pos h]
      exact ⟨rfl, rfl, rfl, hsound, fun hot hhot => absurd hhot (by simp)⟩
  · right
    rw [heq, hup.calm, if_neg Bool.false_ne_true]
    refine ⟨rfl, hup.book, hup.limits, hup.sound hsound hV hid, fun hot hhot => ?_⟩
    simp only [Except.ok.injEq, Prod.mk.injEq, true_and] at hhot
    rw [hup.entry, ← hhot, Standing.isHot_ofRequirements hup.calm]
    exact Bool.and_comm _ _

end SegmentDicts
end Format

namespace Writer
namespace Interner

open Format Dictionary

variable {hashes : Hashes} {V : Set Bytes} {interner : Interner}
variable {id : StrId} {bytes : Bytes} {req : Requirements}

/-- What the interner records: the window entry of an id, or else its flushed
record. -/
def book (interner : Interner) : Book := fun id =>
  match interner.window.entries[id]?, interner.flushed[id]? with
  | some stored, _ =>
    some ⟨stored.fullLen, Standing.ofRequirements stored.oversized stored.req⟩
  | none, some flushed =>
    some ⟨flushed.fullLen, Standing.ofRequirements
      (decide (interner.limits.blobThreshold ≤ flushed.fullLen)) flushed.req⟩
  | none, none => none

theorem book_of_window (interner : Interner) {stored : Stored}
    (h : interner.window.entries[id]? = some stored) : interner.book id =
      some ⟨stored.fullLen, Standing.ofRequirements stored.oversized stored.req⟩ := by
  simp only [book, h]

theorem book_of_flushed (interner : Interner) {flushed : Flushed}
    (hnone : interner.window.entries[id]? = none) (h : interner.flushed[id]? = some flushed) :
    interner.book id = some ⟨flushed.fullLen, Standing.ofRequirements
      (decide (interner.limits.blobThreshold ≤ flushed.fullLen)) flushed.req⟩ := by
  simp only [book, hnone, h]

theorem book_of_none (interner : Interner)
    (hnone : interner.window.entries[id]? = none) (h : interner.flushed[id]? = none) :
    interner.book id = none := by
  simp only [book, hnone, h]

theorem book_congr (left right : Interner) {j : StrId} (hlimits : left.limits = right.limits)
    (hwindow : left.window.entries[j]? = right.window.entries[j]?)
    (hflushed : left.flushed[j]? = right.flushed[j]?) : left.book j = right.book j := by
  simp only [book, hwindow, hflushed, hlimits]

theorem book_eq_update {after : Interner} {record : Record} (hself : after.book id = some record)
    (hlimits : after.limits = interner.limits)
    (hwindow : ∀ j, j ≠ id → after.window.entries[j]? = interner.window.entries[j]?)
    (hflushed : ∀ j, j ≠ id → after.flushed[j]? = interner.flushed[j]?) :
    after.book = Function.update interner.book id (some record) := by
  funext j
  by_cases hj : j = id
  · rw [hj, Function.update_self, hself]
  · rw [Function.update_of_ne hj]
    exact book_congr after interner hlimits (hwindow j hj) (hflushed j hj)

theorem book_spec (hsound : Sound hashes V interner) (hinj : IdInjective hashes V)
    (hV : bytes ∈ V) (hid : StrId.of hashes bytes = some id) :
    (interner.reqOf id).conflicts (interner.limits.oversized bytes) = false ∧
      (interner.book id = none ∧ interner.reqOf id = {} ∨
        interner.book id = some ⟨bytes.length,
          Standing.ofRequirements (interner.limits.oversized bytes) (interner.reqOf id)⟩) := by
  cases hw : interner.window.entries[id]? with
  | some stored =>
    obtain ⟨v, hv, hentry⟩ := hsound.window id stored hw
    obtain rfl := hinj v hv bytes hV (hentry.id_eq.trans hid.symm)
    rw [reqOf_of_window _ hw, book_of_window _ hw]
    refine ⟨hentry.calm, .inr ?_⟩
    rw [hentry.stored_eq]
    rfl
  | none =>
    cases hf : interner.flushed[id]? with
    | some flushed =>
      obtain ⟨v, hv, hdesc⟩ := hsound.flushed id flushed hf
      obtain rfl := hinj v hv bytes hV (hdesc.id_eq.trans hid.symm)
      rw [reqOf_of_flushed _ hw hf, book_of_flushed _ hw hf, hdesc.fullLen]
      exact ⟨hdesc.calm, .inr rfl⟩
    | none =>
      have hreq : interner.reqOf id = {} := by simp only [reqOf, hw, hf]
      rw [hreq]
      exact ⟨rfl, .inl ⟨book_of_none _ hw hf, rfl⟩⟩

theorem book_standingOf (hsound : Sound hashes V interner) (hinj : IdInjective hashes V)
    (hV : bytes ∈ V) (hid : StrId.of hashes bytes = some id) :
    interner.book.standingOf id =
      Standing.ofRequirements (interner.limits.oversized bytes) (interner.reqOf id) := by
  rcases (book_spec hsound hinj hV hid).2 with ⟨hnone, hreq⟩ | hsome
  · simp only [Book.standingOf, hnone, hreq]
    rfl
  · simp only [Book.standingOf, hsome]

theorem ofRequirements_kept {old merged : Requirements} {oversized : Bool}
    (hblob : merged.blob = old.blob) (hhard : merged.hotHard = old.hotHard)
    (h : ¬(merged.hotSoft != old.hotSoft && !(merged.blob || oversized)) = true) :
    Standing.ofRequirements oversized old = Standing.ofRequirements oversized merged := by
  by_cases hblobs : merged.blob = true ∨ oversized = true
  · exact (Standing.ofRequirements_of_blob hblob hhard hblobs).symm
  · have hsoft : merged.hotSoft = old.hotSoft := by
      by_contra hne
      refine h ?_
      simp only [Bool.and_eq_true, bne_iff_ne, ne_eq, hne, not_false_eq_true, true_and,
        Bool.not_eq_true', Bool.or_eq_false_iff]
      exact ⟨Bool.eq_false_iff.mpr fun h => hblobs (.inl h),
        Bool.eq_false_iff.mpr fun h => hblobs (.inr h)⟩
    obtain ⟨blob, hard, soft⟩ := old
    obtain ⟨blob', hard', soft'⟩ := merged
    obtain rfl : blob' = blob := hblob
    obtain rfl : hard' = hard := hhard
    obtain rfl : soft' = soft := hsoft
    rfl

/-- The answer and the state of a request, as the book sees them: `same` compares
the answers with the hot flag, which only a best-effort request reports. -/
theorem Requested.book {result : Except DictError (StrId × Bool) × Interner}
    (h : Requested hashes V interner id bytes req result) (hsound : Sound hashes V interner)
    (hinj : IdInjective hashes V) (hV : bytes ∈ V) (hid : StrId.of hashes bytes = some id) :
    (∃ stored max, result.1 = .error (.full stored max)) ∨
      result.1.map Prod.fst =
          (interner.book.request interner.limits id bytes.length req).1.map Prod.fst ∧
        (req = { hotSoft := true } →
          result.1 = (interner.book.request interner.limits id bytes.length req).1) ∧
        result.2.book = (interner.book.request interner.limits id bytes.length req).2 := by
  obtain ⟨hcalm, hrecord⟩ := book_spec hsound hinj hV hid
  rw [Book.request_eq req (book_standingOf hsound hinj hV hid) hcalm]
  cases h with
  | refused problem window hsame hwhy =>
    cases hwhy with
    | collision v hv hne hvid => exact absurd (hinj v hv bytes hV (hvid.trans hid.symm)) hne
    | full stored max => exact .inl ⟨stored, max, rfl⟩
    | conflict h =>
      right
      rw [if_pos h]
      exact ⟨rfl, fun _ => rfl, funext fun j =>
        book_congr { interner with window := window } interner hsame.limits (hsame.entries j) rfl⟩
  | windowed window hot hwhere hvalue hup hhot =>
    right
    have hcalm' : ((interner.window.reqOf id).merge req).conflicts
        (interner.limits.oversized bytes) = false := hup.calm
    rw [reqOf_eq_window hwhere, hcalm']
    refine ⟨rfl, fun hsoft => ?_, ?_⟩
    · rw [Standing.isHot_ofRequirements hcalm', hhot, if_pos (by rw [hsoft])]
      exact congrArg (fun hot => Except.ok (id, hot)) (Bool.and_comm _ _)
    · exact book_eq_update (book_of_window { interner with window := window } hup.entry)
        hup.limits hup.others (fun _ _ => rfl)
  | upgraded flushed window hot hnone hflushed hdesc hdurable hroom hup =>
    right
    have hentry := hup.entry
    have hcalm' : ((interner.window.reqOf id).merge (flushed.req.merge req)).conflicts
        (interner.limits.oversized bytes) = false := hup.calm
    rw [SegmentDicts.reqOf_of_none hnone, Requirements.empty_merge] at hcalm' hentry
    rw [reqOf_of_flushed _ hnone hflushed, hcalm']
    refine ⟨rfl, fun hsoft => ?_, ?_⟩
    · -- A soft mark alone is no durable upgrade.
      rw [hsoft] at hdurable
      simp only [Requirements.merge, Bool.or_false, ne_eq, not_true_eq_false, or_self] at hdurable
    · refine book_eq_update (book_of_window
        (Interner.recordFlushedBits { interner with window := window } id (flushed.req.merge req))
        (by rw [recordFlushedBits_window]; exact hentry)) ?_ ?_ ?_
      · exact (recordFlushedBits_limits _ _ _).trans hup.limits
      · intro j hj
        show (Interner.recordFlushedBits _ _ _).window.entries[j]? = _
        rw [recordFlushedBits_window]
        exact hup.others j hj
      · intro j hj
        show (Interner.recordFlushedBits _ _ _).flushed[j]? = _
        rw [recordFlushedBits_flushed { interner with window := window } hflushed]
        exact TreeMap.getElem?_insert_ne _ _ hj
  | kept flushed hnone hflushed hdesc hblob hhard hcalm' =>
    right
    rw [reqOf_of_flushed _ hnone hflushed, hcalm', if_neg Bool.false_ne_true]
    refine ⟨rfl, fun _ => by rw [Standing.isHot_ofRequirements hcalm'], ?_⟩
    show Interner.book (if _ then _ else _) = _
    split
    · refine book_eq_update ?_ (recordFlushedBits_limits _ _ _) (fun j _ => ?_) (fun j hj => ?_)
      · rw [book_of_flushed _ (recordFlushedBits_window interner id _ ▸ hnone)
          (by rw [recordFlushedBits_flushed _ hflushed]; exact TreeMap.getElem?_insert_self _ _ _),
          recordFlushedBits_limits]
        have hlen : (flushed.withReq (flushed.req.merge req)).fullLen = bytes.length :=
          hdesc.fullLen
        rw [hlen]
        rfl
      · rw [recordFlushedBits_window]
      · rw [recordFlushedBits_flushed _ hflushed]
        exact TreeMap.getElem?_insert_ne _ _ hj
    · rename_i hsoft
      refine book_eq_update ?_ rfl (fun _ _ => rfl) (fun _ _ => rfl)
      rw [book_of_flushed _ hnone hflushed, hdesc.fullLen]
      refine congrArg (fun standing => some (Record.mk bytes.length standing)) ?_
      exact ofRequirements_kept hblob hhard hsoft

end Interner
end Writer

end Kronika
