/-
The interner refines an unflushed dictionary.

One run of intern calls and flushes is taken by an interner and by one
`SegmentDicts` that ignores the flushes.  As long as neither is full and no two
values share an id, both give the same answers and report the same sizes after
every step.  The simulation relation is equality of books.
-/
import Kronika.Dictionary.Sizes

namespace Kronika.Writer

open Format Dictionary

namespace Interner

variable {hashes : Hashes} {V : Set Bytes} {interner : Interner}

theorem afterFlush_book (hsound : Sound hashes V interner) (hinj : IdInjective hashes V) :
    (interner.afterFlush hashes).book = interner.book := by
  obtain ⟨hlimits, hentries⟩ := afterFlush_window hsound
  funext id
  have hentry := hentries id
  cases hpin : interner.hotPinned[id]? with
  | some bytes =>
    obtain ⟨hV, hid, hov, hhard⟩ := hsound.pinned id bytes hpin
    rw [hpin] at hentry
    obtain ⟨hcalm, hnone | hsome⟩ := book_spec hsound hinj hV hid
    · rw [hnone.2] at hhard
      exact absurd hhard (by decide)
    · rw [book_of_window _ hentry, hsome]
      have hblob : (interner.reqOf id).blob = false := by
        simp only [Requirements.conflicts, hhard, Bool.true_and, Bool.or_eq_false_iff] at hcalm
        exact hcalm.1
      have hstanding : Standing.ofRequirements (interner.limits.oversized bytes)
          (interner.reqOf id) = .strictHot := by
        simp only [Standing.ofRequirements, hblob, hhard, Bool.false_eq_true, if_false, if_true]
      rw [hstanding]
      rfl
  | none =>
    rw [hpin] at hentry
    have hflushed := getElem?_flushed_afterFlush hashes interner id
    cases hw : interner.window.entries[id]? with
    | some stored =>
      obtain ⟨bytes, -, hstored⟩ := hsound.window id stored hw
      rw [hw] at hflushed
      rw [book_of_window _ hw, book_of_flushed _ hentry hflushed, hlimits, hstored.stored_eq,
        flushedOf_snapshot]
      exact congrArg (fun standing => some (Record.mk bytes.length standing))
        (Standing.ofRequirements_flushed _ stored.req)
    | none =>
      rw [hw] at hflushed
      cases hf : interner.flushed[id]? with
      | some flushed =>
        rw [hf] at hflushed
        rw [book_of_flushed _ hw hf, book_of_flushed _ hentry hflushed, hlimits]
      | none =>
        rw [hf] at hflushed
        rw [book_of_none _ hw hf, book_of_none _ hentry hflushed]

end Interner

/-! ## Runs -/

inductive Kind where
  | intern
  | internBlob
  | internHot
  | internHotBestEffort
deriving DecidableEq

def Kind.req : Kind → Requirements
  | intern => {}
  | internBlob => { blob := true }
  | internHot => { hotHard := true }
  | internHotBestEffort => { hotSoft := true }

/-- The answer of a call: an id, and for a best-effort call the hot flag. -/
abbrev Answer := Except DictError (StrId × Option Bool)

def Interner.call (hashes : Hashes) (interner : Interner) (kind : Kind) (bytes : Bytes) :
    Answer × Interner :=
  match kind with
  | .intern =>
    ((interner.intern hashes bytes).1.map (·, none), (interner.intern hashes bytes).2)
  | .internBlob =>
    ((interner.internBlob hashes bytes).1.map (·, none), (interner.internBlob hashes bytes).2)
  | .internHot =>
    ((interner.internHot hashes bytes).1.map (·, none), (interner.internHot hashes bytes).2)
  | .internHotBestEffort =>
    ((interner.internHotBestEffort hashes bytes).1.map fun answer => (answer.1, some answer.2),
      (interner.internHotBestEffort hashes bytes).2)

/-- The four calls on an unflushed dictionary. -/
def unflushedCall (hashes : Hashes) (dicts : SegmentDicts) (kind : Kind) (bytes : Bytes) :
    Answer × SegmentDicts :=
  match kind with
  | .intern => ((dicts.intern hashes bytes).1.map (·, none), (dicts.intern hashes bytes).2)
  | .internBlob =>
    ((dicts.internBlob hashes bytes).1.map (·, none), (dicts.internBlob hashes bytes).2)
  | .internHot =>
    ((dicts.internHot hashes bytes).1.map (·, none), (dicts.internHot hashes bytes).2)
  | .internHotBestEffort =>
    ((dicts.internHotBestEffort hashes bytes).1.map fun answer => (answer.1, some answer.2),
      (dicts.internHotBestEffort hashes bytes).2)

/-- One step of a run: a call, or a flush with its write callback. -/
inductive Step where
  | call (kind : Kind) (bytes : Bytes)
  | flush (write : SegmentDicts → Except Unit Unit)

def Step.values : Step → Set Bytes
  | call _ bytes => {bytes}
  | flush _ => ∅

/-- What is seen of a step: the answer of a call, and the sizes afterwards. -/
abbrev Seen := Option Answer × DictStats

def Seen.NotFull : Seen → Prop
  | (some (.error (.full _ _)), _) => False
  | _ => True

instance : DecidablePred Seen.NotFull
  | (some (.error (.full _ _)), _) => .isFalse id
  | (some (.error (.collision _)), _) => .isTrue trivial
  | (some (.error (.placementConflict _)), _) => .isTrue trivial
  | (some (.ok _), _) => .isTrue trivial
  | (none, _) => .isTrue trivial

theorem Seen.NotFull.ne {answer : Answer} {stats : DictStats}
    (h : Seen.NotFull (some answer, stats)) (stored max : Nat) :
    answer ≠ .error (.full stored max) := by
  rintro rfl
  exact h

def Interner.step (hashes : Hashes) (interner : Interner) : Step → Interner × Seen
  | .call kind bytes =>
    ((interner.call hashes kind bytes).2,
      some (interner.call hashes kind bytes).1, (interner.call hashes kind bytes).2.stats)
  | .flush write =>
    ((interner.flushWindow hashes write).2, none, (interner.flushWindow hashes write).2.stats)

/-- The same step on a dictionary that is never flushed. -/
def unflushedStep (hashes : Hashes) (dicts : SegmentDicts) : Step → SegmentDicts × Seen
  | .call kind bytes =>
    ((unflushedCall hashes dicts kind bytes).2,
      some (unflushedCall hashes dicts kind bytes).1,
      (unflushedCall hashes dicts kind bytes).2.stats)
  | .flush _ => (dicts, none, dicts.stats)

/-! ## The simulation -/

structure Agrees (hashes : Hashes) (V : Set Bytes) (interner : Interner)
    (dicts : SegmentDicts) : Prop where
  left : interner.Sound hashes V
  right : dicts.Sound hashes V
  limits : interner.limits = dicts.limits
  book : interner.book = dicts.book

variable {hashes : Hashes} {V : Set Bytes} {interner : Interner} {dicts : SegmentDicts}

theorem Agrees.stats (h : Agrees hashes V interner dicts) : interner.stats = dicts.stats := by
  have hsupport : ∀ id, dicts.book id ≠ none → id ∈ TreeMap.keySet dicts.entries := by
    intro id hid
    refine TreeMap.mem_keySet.mpr fun hnone => hid ?_
    simp only [SegmentDicts.book, hnone, Option.map_none]
  rw [SegmentDicts.stats_eq_book h.right hsupport,
    Interner.stats_eq_book h.left (by rw [h.book]; exact hsupport), h.book, h.limits]

/-- What a call makes of the request behind it: the answer without the hot flag,
except for a best-effort call. -/
def Kind.answer (kind : Kind) (result : Except DictError (StrId × Bool)) : Answer :=
  match kind with
  | .internHotBestEffort => result.map fun answer => (answer.1, some answer.2)
  | _ => result.map fun answer => (answer.1, none)

theorem Kind.answer_congr (kind : Kind) {left right : Except DictError (StrId × Bool)}
    (hid : left.map Prod.fst = right.map Prod.fst)
    (hsoft : kind = .internHotBestEffort → left = right) :
    kind.answer left = kind.answer right := by
  have hmap : left.map (fun answer => (answer.1, (none : Option Bool))) =
      right.map fun answer => (answer.1, none) := by
    cases left <;> cases right <;> simp_all [Except.map]
  cases kind with
  | internHotBestEffort => rw [hsoft rfl]
  | intern => exact hmap
  | internBlob => exact hmap
  | internHot => exact hmap

theorem Interner.call_answer (interner : Interner) (kind : Kind) (bytes : Bytes) :
    (interner.call hashes kind bytes).1 =
      kind.answer (interner.request hashes bytes kind.req).1 := by
  cases kind with
  | intern =>
    simp only [call, Interner.intern, Kind.req]
    cases (interner.request hashes bytes {}).1 <;> rfl
  | internBlob =>
    simp only [call, Interner.internBlob, Kind.req]
    cases (interner.request hashes bytes { blob := true }).1 <;> rfl
  | internHot =>
    simp only [call, Interner.internHot, Kind.req]
    rcases interner.request hashes bytes { hotHard := true } with ⟨_ | _, _⟩ <;> rfl
  | internHotBestEffort => rfl

theorem Interner.call_stores (hashes : Hashes) (interner : Interner) (kind : Kind) (bytes : Bytes) :
    (interner.call hashes kind bytes).2.window =
        (interner.request hashes bytes kind.req).2.window ∧
      (interner.call hashes kind bytes).2.flushed =
        (interner.request hashes bytes kind.req).2.flushed := by
  cases kind with
  | internHot =>
    simp only [call, Interner.internHot, Kind.req]
    rcases interner.request hashes bytes { hotHard := true } with ⟨_ | _, _⟩ <;> exact ⟨rfl, rfl⟩
  | intern => exact ⟨rfl, rfl⟩
  | internBlob => exact ⟨rfl, rfl⟩
  | internHotBestEffort => exact ⟨rfl, rfl⟩

theorem Interner.Sound.call (hsound : interner.Sound hashes V) (hsep : Separated hashes V)
    (kind : Kind) {bytes : Bytes} (hV : bytes ∈ V) :
    (interner.call hashes kind bytes).2.Sound hashes V := by
  have hrequest : (interner.request hashes bytes kind.req).2.Sound hashes V := by
    cases hid : StrId.of hashes bytes with
    | none =>
      simp only [Interner.request, hid]
      exact hsound
    | some id => exact (request_spec kind.req hsound hsep hV hid).sound hsound hV hid
  cases kind with
  | intern => exact hrequest
  | internBlob => exact hrequest
  | internHotBestEffort => exact hrequest
  | internHot =>
    cases hid : StrId.of hashes bytes with
    | none =>
      simp only [Interner.call, Interner.internHot, Interner.request, hid]
      exact hsound
    | some id =>
      have hspec := request_spec { hotHard := true } hsound hsep hV hid
      simp only [Kind.req] at hrequest
      simp only [Interner.call, Interner.internHot]
      rcases hresult : interner.request hashes bytes { hotHard := true } with ⟨_ | answer, after⟩
      · rw [hresult] at hrequest
        exact hrequest
      · rw [hresult] at hrequest hspec
        have hfst : answer.1 = id := hspec.fst
        obtain ⟨fst, hot⟩ := answer
        obtain rfl : fst = id := hfst
        exact hrequest.pin hspec hV hid

/-- What an insertion answers, with the hot flag a best-effort call reports. -/
def unflushedResult (hashes : Hashes) (dicts : SegmentDicts) (bytes : Bytes)
    (req : Requirements) : Except DictError (StrId × Bool) :=
  (dicts.insert hashes bytes req).1.map fun id =>
    (id, ((dicts.insert hashes bytes req).2.entries[id]?).any Stored.isHot)

theorem unflushedCall_eq (dicts : SegmentDicts) (kind : Kind) (bytes : Bytes) :
    unflushedCall hashes dicts kind bytes =
      (kind.answer (unflushedResult hashes dicts bytes kind.req),
        (dicts.insert hashes bytes kind.req).2) := by
  cases kind with
  | intern =>
    simp only [unflushedCall, SegmentDicts.intern, unflushedResult, Kind.req]
    rcases dicts.insert hashes bytes {} with ⟨_ | _, _⟩ <;> rfl
  | internBlob =>
    simp only [unflushedCall, SegmentDicts.internBlob, unflushedResult, Kind.req]
    rcases dicts.insert hashes bytes { blob := true } with ⟨_ | _, _⟩ <;> rfl
  | internHot =>
    simp only [unflushedCall, SegmentDicts.internHot, unflushedResult, Kind.req]
    rcases dicts.insert hashes bytes { hotHard := true } with ⟨_ | _, _⟩ <;> rfl
  | internHotBestEffort =>
    simp only [unflushedCall, SegmentDicts.internHotBestEffort, unflushedResult, Kind.req]
    rcases dicts.insert hashes bytes { hotSoft := true } with ⟨_ | _, _⟩ <;> rfl

theorem Kind.answer_full (kind : Kind) {result : Except DictError (StrId × Bool)}
    {stored max : Nat} (h : result = .error (.full stored max)) :
    kind.answer result = .error (.full stored max) := by
  rw [h]
  cases kind <;> rfl

theorem Agrees.call (h : Agrees hashes V interner dicts) (hinj : IdInjective hashes V)
    (kind : Kind) {bytes : Bytes} (hV : bytes ∈ V)
    (hleft : ∀ stored max, (interner.call hashes kind bytes).1 ≠ .error (.full stored max))
    (hright : ∀ stored max, (unflushedCall hashes dicts kind bytes).1 ≠
      .error (.full stored max)) :
    (interner.call hashes kind bytes).1 = (unflushedCall hashes dicts kind bytes).1 ∧
      Agrees hashes V (interner.call hashes kind bytes).2
        (unflushedCall hashes dicts kind bytes).2 := by
  have hsound := h.left.call hinj.separated kind hV
  obtain ⟨hwindow, hflushed⟩ := Interner.call_stores hashes interner kind bytes
  have hlimits : (interner.call hashes kind bytes).2.limits =
      (interner.request hashes bytes kind.req).2.limits := congrArg SegmentDicts.limits hwindow
  have hbook : (interner.call hashes kind bytes).2.book =
      (interner.request hashes bytes kind.req).2.book := by
    funext id
    rw [Interner.book, Interner.book, Interner.limits, Interner.limits, hwindow, hflushed]
  rw [Interner.call_answer] at hleft ⊢
  rw [unflushedCall_eq] at hright ⊢
  cases hid : StrId.of hashes bytes with
  | none =>
    have hrequest : interner.request hashes bytes kind.req = (.error (.collision 0), interner) := by
      simp only [Interner.request, hid]
    have hinsert : dicts.insert hashes bytes kind.req = (.error (.collision 0), dicts) := by
      simp only [SegmentDicts.insert, hid, idOrCollision]
    simp only [hrequest] at hbook hlimits ⊢
    simp only [unflushedResult, hinsert]
    exact ⟨rfl, ⟨hsound, h.right, hlimits.trans h.limits, hbook.trans h.book⟩⟩
  | some id =>
    have hspec := Interner.request_spec kind.req h.left hinj.separated hV hid
    rcases hspec.book h.left hinj hV hid with ⟨stored, max, hfull⟩ | ⟨hids, hsofts, hstate⟩
    · exact absurd (kind.answer_full hfull) (hleft stored max)
    · rcases SegmentDicts.insert_book kind.req h.right hinj hV hid with
        ⟨stored, max, hfull⟩ | ⟨hids', hstate', hlimits', hsound', hhot⟩
      · refine absurd (kind.answer_full ?_) (hright stored max)
        rw [unflushedResult, hfull]
        rfl
      · rw [h.book, h.limits] at hids hsofts hstate
        refine ⟨kind.answer_congr ?_ ?_, ⟨hsound, hsound', ?_, ?_⟩⟩
        · rw [hids, ← hids', unflushedResult]
          cases (dicts.insert hashes bytes kind.req).1 <;> rfl
        · intro hkind
          rw [hsofts (by rw [hkind]; rfl), unflushedResult, hids']
          exact (Book.request_map _ hhot).symm
        · rw [hlimits, hspec.limits, hlimits']
          exact h.limits
        · rw [hbook, hstate, hstate']


theorem new_agrees (limits : DictLimits) :
    Agrees hashes V (Interner.new limits) (SegmentDicts.new limits) where
  left := Interner.new_sound limits
  right := SegmentDicts.new_sound limits
  limits := rfl
  book := by
    funext id
    simp [Interner.book, SegmentDicts.book, Interner.new, SegmentDicts.new]

theorem Agrees.step (h : Agrees hashes V interner dicts) (hinj : IdInjective hashes V)
    {step : Step} (hV : step.values ⊆ V) (hleft : (interner.step hashes step).2.NotFull)
    (hright : (unflushedStep hashes dicts step).2.NotFull) :
    (interner.step hashes step).2 = (unflushedStep hashes dicts step).2 ∧
      Agrees hashes V (interner.step hashes step).1 (unflushedStep hashes dicts step).1 := by
  cases step with
  | call kind bytes =>
    obtain ⟨hanswer, hafter⟩ := h.call hinj kind (hV rfl)
      (fun stored max => hleft.ne stored max) (fun stored max => hright.ne stored max)
    refine ⟨?_, hafter⟩
    simp only [Interner.step, unflushedStep, hanswer, hafter.stats]
  | flush write =>
    have hafter : Agrees hashes V (interner.flushWindow hashes write).2 dicts := by
      unfold Interner.flushWindow
      cases write interner.window with
      | error problem => exact h
      | ok written =>
        exact ⟨h.left.afterFlush, h.right, (Interner.afterFlush_window h.left).1.trans h.limits,
          (Interner.afterFlush_book h.left hinj).trans h.book⟩
    refine ⟨?_, hafter⟩
    simp only [Interner.step, unflushedStep, hafter.stats]

/-- Every step of a run of calls and flushes is answered by the interner as by one
dictionary that is never flushed, with the same sizes afterwards. -/
theorem interner_refines_unflushed {limits : DictLimits} {steps : List Step}
    (hinj : IdInjective hashes {bytes | ∃ step ∈ steps, bytes ∈ step.values})
    (hleft : ∀ seen ∈ Run.outputs (Interner.step hashes) (Interner.new limits) steps,
      seen.NotFull)
    (hright : ∀ seen ∈ Run.outputs (unflushedStep hashes) (SegmentDicts.new limits) steps,
      seen.NotFull) :
    Run.outputs (Interner.step hashes) (Interner.new limits) steps =
      Run.outputs (unflushedStep hashes) (SegmentDicts.new limits) steps :=
  Run.outputs_eq
    (fun _ _ step hstep h hl hr =>
      h.step hinj (fun _ hbytes => ⟨step, hstep, hbytes⟩) hl hr)
    (new_agrees limits) hleft hright

/-- A run with a flushed value that is asked for again, once softly hot and once as
a blob, and with a pinned one. -/
def upgradeRun : List Step :=
  [.call .intern planBytes, .call .internHot nameBytes, .flush fun _ => .ok (),
    .call .internHotBestEffort planBytes, .call .internBlob planBytes, .flush fun _ => .ok (),
    .call .intern nameBytes]

theorem interner_refines_unflushed_upgradeRun :
    Run.outputs (Interner.step knownHashes) (Interner.new DictLimits.default) upgradeRun =
      Run.outputs (unflushedStep knownHashes) (SegmentDicts.new DictLimits.default)
        upgradeRun := by
  refine interner_refines_unflushed (knownHashes_injective.mono ?_) (by decide +kernel)
    (by decide +kernel)
  rintro bytes ⟨step, hstep, hbytes⟩
  simp only [upgradeRun, List.mem_cons, List.not_mem_nil, or_false] at hstep
  rcases hstep with rfl | rfl | rfl | rfl | rfl | rfl | rfl <;>
    simp_all [Step.values]

end Kronika.Writer
