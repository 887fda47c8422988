/-
What one operation does to an interner.

`Sound` is the invariant of the interner: every window entry and every flushed
record is that of a value of `V`, the pinned values are strict-hot, and the
flushed sizes are the sum over the flushed records.  `Requested` lists everything
a request can do, with its guards, and the lemmas on `afterFlush` say what a flush
leaves behind.
-/
import Kronika.Dictionary.Window

namespace Kronika.Writer

open Format

variable {limits : DictLimits} {flushed : Flushed}

namespace Flushed

/-- `flushed` is the compact record of `bytes`. -/
structure Describes (hashes : Hashes) (limits : DictLimits) (bytes : Bytes) (id : StrId)
    (flushed : Flushed) : Prop where
  id_eq : StrId.of hashes bytes = some id
  fullLen : flushed.fullLen = bytes.length
  check : flushed.check = check16 hashes bytes
  calm : flushed.req.conflicts (limits.oversized bytes) = false

theorem Describes.isSame {hashes : Hashes} {bytes : Bytes} {id : StrId}
    (h : Describes hashes limits bytes id flushed) : flushed.isSame hashes bytes = true := by
  simp only [Flushed.isSame, h.fullLen, h.check, beq_self_eq_true, Bool.and_self]

theorem Describes.eq_of_isSame {hashes : Hashes} {V : Set Bytes}
    {v bytes : Bytes} {id : StrId} (hsep : Separated hashes V)
    (hv : v ∈ V) (hbytes : bytes ∈ V) (h : Describes hashes limits v id flushed)
    (hid : StrId.of hashes bytes = some id) (hsame : flushed.isSame hashes bytes = true) :
    v = bytes := by
  simp only [Flushed.isSame, Bool.and_eq_true, beq_iff_eq] at hsame
  exact hsep v hv bytes hbytes (h.id_eq.trans hid.symm) (h.fullLen ▸ hsame.1)
    (h.check ▸ hsame.2.symm)

end Flushed

namespace Interner

/-- The requirements collected for an id: those of its window entry, or else those
of its flushed record. -/
def reqOf (interner : Interner) (id : StrId) : Requirements :=
  match interner.window.entries[id]?, interner.flushed[id]? with
  | some stored, _ => stored.req
  | none, some flushed => flushed.req
  | none, none => {}

structure Sound (hashes : Hashes) (V : Set Bytes) (interner : Interner) : Prop where
  window : interner.window.Sound hashes V
  flushed : ∀ id (flushed : Flushed), interner.flushed[id]? = some flushed →
    ∃ bytes ∈ V, flushed.Describes hashes interner.limits bytes id
  pinned : ∀ id bytes, interner.hotPinned[id]? = some bytes →
    bytes ∈ V ∧ StrId.of hashes bytes = some id ∧ interner.limits.oversized bytes = false ∧
      (interner.reqOf id).hotHard = true
  stats : interner.flushedStats =
    TreeMap.sumOver (fun _ flushed => statsForFlushed flushed interner.limits) interner.flushed

variable {hashes : Hashes} {V : Set Bytes} {interner : Interner}
variable {id : StrId} {bytes : Bytes} {req : Requirements}

theorem new_sound (limits : DictLimits) : Sound hashes V (Interner.new limits) where
  window := SegmentDicts.new_sound limits
  flushed id flushed h := absurd h (by simp [Interner.new])
  pinned id bytes h := absurd h (by simp [Interner.new])
  stats := (TreeMap.sumOver_empty _).symm

theorem isSome_resolve (dicts : SegmentDicts) (id : StrId) :
    (dicts.resolve id).isSome = (dicts.entries[id]?).isSome := by
  simp only [SegmentDicts.resolve, Option.isSome_map]

@[simp] theorem recordFlushedBits_window (interner : Interner) (id : StrId)
    (merged : Requirements) : (interner.recordFlushedBits id merged).window = interner.window := by
  unfold recordFlushedBits
  split <;> rfl

@[simp] theorem recordFlushedBits_hotPinned (interner : Interner) (id : StrId)
    (merged : Requirements) :
    (interner.recordFlushedBits id merged).hotPinned = interner.hotPinned := by
  unfold recordFlushedBits
  split <;> rfl

@[simp] theorem recordFlushedBits_limits (interner : Interner) (id : StrId)
    (merged : Requirements) : (interner.recordFlushedBits id merged).limits = interner.limits := by
  rw [limits, recordFlushedBits_window, limits]

theorem recordFlushedBits_flushed (interner : Interner) {flushed : Flushed}
    (h : interner.flushed[id]? = some flushed) (merged : Requirements) :
    (interner.recordFlushedBits id merged).flushed =
      interner.flushed.insert id (flushed.withReq merged) := by
  simp only [recordFlushedBits, h]

theorem insert_stats {flushed : Std.TreeMap StrId Flushed} {stats : DictStats}
    (h : stats = TreeMap.sumOver (fun _ flushed => statsForFlushed flushed limits) flushed)
    (id : StrId) (value : Flushed) :
    addStats (match flushed[id]? with
        | some previous => removeStats stats (statsForFlushed previous limits)
        | none => stats) (statsForFlushed value limits) =
      TreeMap.sumOver (fun _ flushed => statsForFlushed flushed limits)
        (flushed.insert id value) := by
  obtain ⟨rest, hold, hnew⟩ :=
    TreeMap.sumOver_split (fun _ flushed => statsForFlushed flushed limits) flushed id
  rw [hnew, h, hold]
  cases flushed[id]? with
  | none =>
    rfl
  | some previous =>
    simp only [TreeMap.contribution_some, Dictionary.Stats.removeStats_add]
    rfl

/-! ## The outcomes of a request -/

/-- Why a request is refused. -/
inductive Refused (hashes : Hashes) (V : Set Bytes) (interner : Interner) (id : StrId)
    (bytes : Bytes) (req : Requirements) : DictError → Prop
  | collision (v : Bytes) (hv : v ∈ V) (hne : v ≠ bytes) (hid : StrId.of hashes v = some id) :
      Refused hashes V interner id bytes req (.collision id.raw)
  | conflict (h : ((interner.reqOf id).merge req).conflicts
      (interner.limits.oversized bytes) = true) :
      Refused hashes V interner id bytes req (.placementConflict id)
  | full (storedBytes max : Nat) : Refused hashes V interner id bytes req (.full storedBytes max)

/-- Everything a request can do. -/
inductive Requested (hashes : Hashes) (V : Set Bytes) (interner : Interner) (id : StrId)
    (bytes : Bytes) (req : Requirements) :
    Except DictError (StrId × Bool) × Interner → Prop
  | refused (problem : DictError) (window : SegmentDicts)
      (hsame : SegmentDicts.Same interner.window window)
      (hwhy : Refused hashes V interner id bytes req problem) :
      Requested hashes V interner id bytes req (.error problem, { interner with window := window })
  | windowed (window : SegmentDicts) (hot : Bool)
      (hwhere : interner.window.entries[id]? ≠ none ∨ interner.flushed[id]? = none)
      (hvalue : ∀ stored, interner.window.entries[id]? = some stored →
        IsEntry hashes interner.limits bytes id stored)
      (hup : SegmentDicts.Updated hashes interner.window window id bytes req)
      (hhot : hot = if req.hotSoft then
          (Stored.ofValue hashes interner.limits bytes
            ((interner.window.reqOf id).merge req)).isHot
        else req.hotHard) :
      Requested hashes V interner id bytes req (.ok (id, hot), { interner with window := window })
  | upgraded (flushed : Flushed) (window : SegmentDicts) (hot : Bool)
      (hnone : interner.window.entries[id]? = none)
      (hflushed : interner.flushed[id]? = some flushed)
      (hdesc : flushed.Describes hashes interner.limits bytes id)
      (hdurable : (flushed.req.merge req).blob ≠ flushed.req.blob ∨
        (flushed.req.merge req).hotHard ≠ flushed.req.hotHard)
      (hroom : interner.window.HasRoom bytes)
      (hup : SegmentDicts.Updated hashes interner.window window id bytes
        (flushed.req.merge req)) :
      Requested hashes V interner id bytes req (.ok (id, hot),
        ({ interner with window := window } : Interner).recordFlushedBits id
          (flushed.req.merge req))
  | kept (flushed : Flushed)
      (hnone : interner.window.entries[id]? = none)
      (hflushed : interner.flushed[id]? = some flushed)
      (hdesc : flushed.Describes hashes interner.limits bytes id)
      (hblob : (flushed.req.merge req).blob = flushed.req.blob)
      (hhard : (flushed.req.merge req).hotHard = flushed.req.hotHard)
      (hcalm : (flushed.req.merge req).conflicts (interner.limits.oversized bytes) = false) :
      Requested hashes V interner id bytes req
        (.ok (id, ((flushed.req.merge req).hotHard || (flushed.req.merge req).hotSoft) &&
            !((flushed.req.merge req).blob || interner.limits.oversized bytes)),
          if (flushed.req.merge req).hotSoft != flushed.req.hotSoft &&
              !((flushed.req.merge req).blob || interner.limits.oversized bytes) then
            interner.recordFlushedBits id (flushed.req.merge req)
          else interner)

theorem reqOf_of_window (interner : Interner) {stored : Stored}
    (h : interner.window.entries[id]? = some stored) : interner.reqOf id = stored.req := by
  simp only [reqOf, h]

theorem reqOf_of_flushed (interner : Interner) {flushed : Flushed}
    (hnone : interner.window.entries[id]? = none)
    (h : interner.flushed[id]? = some flushed) : interner.reqOf id = flushed.req := by
  simp only [reqOf, hnone, h]

theorem reqOf_eq_window (h : interner.window.entries[id]? ≠ none ∨ interner.flushed[id]? = none) :
    interner.reqOf id = interner.window.reqOf id := by
  cases hw : interner.window.entries[id]? with
  | some stored => rw [reqOf_of_window _ hw, SegmentDicts.reqOf_of_getElem? hw]
  | none =>
    rcases h with h | h
    · exact absurd hw h
    · simp only [reqOf, hw, h, SegmentDicts.reqOf]

theorem applyToWindow_of_calm (h : req.conflicts (interner.limits.oversized bytes) = false) :
    interner.applyToWindow hashes id bytes req =
      ((windowCalls hashes interner.window bytes req).1,
        { interner with window := (windowCalls hashes interner.window bytes req).2 }) := by
  simp only [applyToWindow, h, Bool.false_eq_true, if_false]

theorem applyToWindow_spec (hsound : Sound hashes V interner) (hsep : Separated hashes V)
    (hV : bytes ∈ V) (hid : StrId.of hashes bytes = some id)
    (hwhere : interner.window.entries[id]? ≠ none ∨ interner.flushed[id]? = none) :
    Requested hashes V interner id bytes req (interner.applyToWindow hashes id bytes req) := by
  by_cases hc : req.conflicts (interner.limits.oversized bytes) = true
  · simp only [applyToWindow, hc]
    refine .refused _ interner.window (SegmentDicts.Same.refl _) (.conflict ?_)
    by_contra hne
    have hcomm : (interner.reqOf id).merge req = req.merge (interner.reqOf id) := by
      simp only [Requirements.merge, Bool.or_comm]
    rw [hcomm] at hne
    rw [Requirements.conflicts_mono (Bool.eq_false_iff.mpr hne)] at hc
    exact absurd hc (by decide)
  · rw [applyToWindow_of_calm (Bool.eq_false_iff.mpr hc)]
    rcases SegmentDicts.windowCalls_spec hsound.window hsep hV hid (Bool.eq_false_iff.mpr hc) with
      ⟨problem, window, heq, hsame, hwhy⟩ | ⟨window, hot, heq, hup, hroom, hvalue, hhot⟩
    · rw [heq]
      refine .refused problem window hsame ?_
      cases hwhy with
      | collision v hv hne hvid => exact .collision v hv hne hvid
      | full stored max h => exact .full stored max
      | conflict h => exact .conflict (by rw [reqOf_eq_window hwhere]; exact h)
    · rw [heq]
      exact .windowed window hot hwhere hvalue hup hhot

theorem requestFlushed_spec (hsound : Sound hashes V interner)
    (hsep : Separated hashes V) (hV : bytes ∈ V) (hid : StrId.of hashes bytes = some id)
    (hnone : interner.window.entries[id]? = none)
    (hflushed : interner.flushed[id]? = some flushed) :
    Requested hashes V interner id bytes req
      (interner.requestFlushed hashes id flushed bytes req) := by
  obtain ⟨v, hv, hdesc⟩ := hsound.flushed id flushed hflushed
  by_cases hsame : flushed.isSame hashes bytes = true
  · obtain rfl := hdesc.eq_of_isSame hsep hv hV hid hsame
    have hov : decide (flushed.fullLen ≥ interner.limits.blobThreshold) =
        interner.limits.oversized v := by
      rw [hdesc.fullLen]
      rfl
    simp only [requestFlushed, hsame, hov]
    by_cases hc : (flushed.req.merge req).conflicts (interner.limits.oversized v) = true
    · rw [if_pos hc]
      refine .refused _ interner.window (SegmentDicts.Same.refl _) (.conflict ?_)
      rw [reqOf_of_flushed _ hnone hflushed]
      exact hc
    · have hcalm := Bool.eq_false_iff.mpr hc
      rw [if_neg hc]
      by_cases hd : ((flushed.req.merge req).blob != flushed.blobRequired ||
          (flushed.req.merge req).hotHard != flushed.hotHard) = true
      · rw [if_pos hd, applyToWindow_of_calm hcalm]
        rcases SegmentDicts.windowCalls_spec hsound.window hsep hV hid hcalm with
          ⟨problem, window, heq, hsame, hwhy⟩ | ⟨window, hot, heq, hup, hroom, hvalue, hhot⟩
        · simp only [heq]
          refine .refused problem window hsame ?_
          cases hwhy with
          | collision w hw hne hwid => exact .collision w hw hne hwid
          | full stored max h => exact .full stored max
          | conflict h =>
            rw [SegmentDicts.reqOf_of_none hnone] at h
            exact absurd h hc
        · simp only [heq]
          refine .upgraded flushed window hot hnone hflushed hdesc ?_ (hroom hnone) hup
          simp only [Bool.or_eq_true, bne_iff_ne] at hd
          exact hd
      · rw [if_neg hd]
        simp only [Bool.or_eq_true, bne_iff_ne, not_or, not_not] at hd
        exact .kept flushed hnone hflushed hdesc hd.1 hd.2 hcalm
  · simp only [requestFlushed, hsame]
    refine .refused _ interner.window (SegmentDicts.Same.refl _) (.collision v hv ?_ hdesc.id_eq)
    rintro rfl
    exact hsame hdesc.isSame

theorem request_spec (req : Requirements) (hsound : Sound hashes V interner)
    (hsep : Separated hashes V) (hV : bytes ∈ V) (hid : StrId.of hashes bytes = some id) :
    Requested hashes V interner id bytes req (interner.request hashes bytes req) := by
  cases hw : interner.window.entries[id]? with
  | some stored =>
    have hsome : interner.window.entries[id]? ≠ none := by rw [hw]; exact Option.some_ne_none _
    simp only [request, hid, isSome_resolve, hw]
    exact applyToWindow_spec hsound hsep hV hid (.inl hsome)
  | none =>
    cases hf : interner.flushed[id]? with
    | none =>
      simp only [request, hid, isSome_resolve, hw, hf]
      exact applyToWindow_spec hsound hsep hV hid (.inr hf)
    | some flushed =>
      simp only [request, hid, isSome_resolve, hw, hf]
      exact requestFlushed_spec hsound hsep hV hid hw hf

/-! ## Flushing the window -/

theorem foldl_flushEntry_fst (limits : DictLimits) (snaps : List EntrySnapshot)
    (state : Std.TreeMap StrId Flushed × DictStats) :
    (snaps.foldl (flushEntry hashes limits) state).1 =
      TreeMap.insertAll EntrySnapshot.strId (flushedOf hashes) state.1 snaps := by
  induction snaps generalizing state with
  | nil => rfl
  | cons snap snaps ih => rw [List.foldl_cons, ih]; rfl

theorem foldl_flushEntry_snd (limits : DictLimits) (snaps : List EntrySnapshot)
    (state : Std.TreeMap StrId Flushed × DictStats)
    (h : state.2 = TreeMap.sumOver (fun _ flushed => statsForFlushed flushed limits) state.1) :
    (snaps.foldl (flushEntry hashes limits) state).2 =
      TreeMap.sumOver (fun _ flushed => statsForFlushed flushed limits)
        (snaps.foldl (flushEntry hashes limits) state).1 := by
  induction snaps generalizing state with
  | nil => exact h
  | cons snap snaps ih =>
    refine ih _ ?_
    exact insert_stats h snap.strId (flushedOf hashes snap)

theorem repin_spec (vs : List Bytes) (window : SegmentDicts)
    (hids : ∀ v ∈ vs, StrId.of hashes v ≠ none) (hov : ∀ v ∈ vs, window.limits.oversized v = false)
    (hnodup : (vs.map (StrId.of hashes)).Nodup)
    (habsent : ∀ v ∈ vs, ∀ id, StrId.of hashes v = some id → window.entries[id]? = none) :
    (repin hashes window vs).limits = window.limits ∧
      (∀ v ∈ vs, ∀ id, StrId.of hashes v = some id → (repin hashes window vs).entries[id]? =
        some (Stored.ofValue hashes window.limits v { hotHard := true })) ∧
      (∀ id, (∀ v ∈ vs, StrId.of hashes v ≠ some id) →
        (repin hashes window vs).entries[id]? = window.entries[id]?) := by
  induction vs generalizing window with
  | nil => exact ⟨rfl, fun v hv => absurd hv List.not_mem_nil, fun _ _ => rfl⟩
  | cons v vs ih =>
    obtain ⟨id, hid⟩ := Option.ne_none_iff_exists'.mp (hids v List.mem_cons_self)
    have hnone := habsent v List.mem_cons_self id hid
    have hvov := hov v List.mem_cons_self
    rw [List.map_cons, List.nodup_cons] at hnodup
    obtain ⟨after, heq, hup⟩ : ∃ after, window.insert hashes v { hotHard := true } =
        (.ok id, after) ∧ SegmentDicts.Updated hashes window after id v { hotHard := true } := by
      rcases SegmentDicts.insert_absent { hotHard := true } hid hnone with
        ⟨hc, _⟩ | ⟨hhard, _⟩ | ⟨after, heq, hup, _⟩
      · rw [hvov] at hc
        exact absurd hc (by decide)
      · exact absurd hhard (by decide)
      · exact ⟨after, heq, hup⟩
    have hstep : repin hashes window (v :: vs) = repin hashes after vs := by
      rw [repin, List.foldl_cons, SegmentDicts.internHot, heq]
      rfl
    have hother : ∀ w ∈ vs, StrId.of hashes w ≠ some id := fun w hw he =>
      hnodup.1 (hid ▸ he ▸ List.mem_map_of_mem hw)
    obtain ⟨hlimits, hmem, hrest⟩ := ih after
      (fun w hw => hids w (List.mem_cons_of_mem v hw))
      (fun w hw => by rw [hup.limits]; exact hov w (List.mem_cons_of_mem v hw)) hnodup.2
      (fun w hw j hj => by
        rw [hup.others j (fun he => hother w hw (he ▸ hj))]
        exact habsent w (List.mem_cons_of_mem v hw) j hj)
    rw [hstep]
    refine ⟨hlimits.trans hup.limits, ?_, ?_⟩
    · intro w hw j hj
      rcases List.mem_cons.mp hw with rfl | hmem'
      · obtain rfl := Option.some.inj (hid.symm.trans hj)
        rw [hrest id hother, hup.entry, SegmentDicts.reqOf_of_none hnone, Requirements.empty_merge]
      · rw [hmem w hmem' j hj, hup.limits]
    · intro j hj
      rw [hrest j (fun w hw => hj w (List.mem_cons_of_mem v hw)),
        hup.others j (fun he => hj v List.mem_cons_self (he ▸ hid))]

end Interner

end Kronika.Writer
