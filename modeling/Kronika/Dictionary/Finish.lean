/-
When the windows of a segment can be finished.

A segment run interns values and flushes windows, each stored as `encode` writes
it.  The stored rows agree with the flushed records, and the flushed records keep
their placement in every step but one: a blob request for a value that is flushed
as a string.  Without such a step the stored windows normalize; with one they do
not.
-/
import Kronika.Dictionary.Normalize

namespace Kronika.Writer

open Format Dictionary

/-! ## Segment runs -/

/-- The interner of a segment and the dictionary sections its flushes stored. -/
structure SegmentRun where
  interner : Interner
  windows : List WindowSections

/-- A call, or a flush that stores the window. -/
inductive SegmentStep where
  | call (kind : Kind) (bytes : Bytes)
  | flush
deriving DecidableEq

namespace SegmentStep

def values : SegmentStep → Set Bytes
  | call _ bytes => {bytes}
  | flush => ∅

end SegmentStep

namespace SegmentRun

def new (limits : DictLimits) : SegmentRun := { interner := Interner.new limits, windows := [] }

/-- One step.  A window that cannot be encoded is not flushed. -/
def step (hashes : Hashes) (run : SegmentRun) : SegmentStep → SegmentRun
  | .call kind bytes => { run with interner := (run.interner.call hashes kind bytes).2 }
  | .flush =>
    match run.interner.flushWindow hashes encode with
    | (.error _, interner) => { run with interner := interner }
    | (.ok (_, sections), interner) =>
      { interner := interner, windows := run.windows ++ [sections] }

theorem step_flush (run : SegmentRun) (hashes : Hashes) :
    run.step hashes .flush = match encode run.interner.window with
      | .error _ => run
      | .ok sections => { interner := run.interner.afterFlush hashes
                          windows := run.windows ++ [sections] } := by
  simp only [step, Interner.flushWindow]
  cases encode run.interner.window <;> rfl

end SegmentRun

/-! ## Values in the window again -/

namespace Interner

/-- A flushed value is in the window again only pinned or upgraded, with at least
the requirements of its record. -/
def Again (interner : Interner) : Prop :=
  ∀ (id : StrId) (stored : Stored) (flushed : Flushed),
    interner.window.entries[id]? = some stored → interner.flushed[id]? = some flushed →
    (flushed.blobRequired = true ∨ flushed.hotHard = true) ∧
      (flushed.blobRequired = true → stored.req.blob = true) ∧
      (flushed.hotHard = true → stored.req.hotHard = true)

variable {hashes : Hashes} {V : Set Bytes} {interner : Interner}
variable {id : StrId} {bytes : Bytes} {req : Requirements}

theorem new_again (limits : DictLimits) : (Interner.new limits).Again :=
  fun id stored flushed h => absurd h (by simp [Interner.new, SegmentDicts.new])

theorem placement_eq {limits : DictLimits} {flushed : Flushed}
    (h : flushed.Describes hashes limits bytes id) :
    flushed.placement limits =
      if flushed.blobRequired || limits.oversized bytes then .blobs else .strings := by
  have hov : decide (flushed.fullLen ≥ limits.blobThreshold) = limits.oversized bytes := by
    rw [h.fullLen]
    rfl
  rw [Flushed.placement, hov]

theorem Again.placement (h : interner.Again) (hsound : interner.Sound hashes V)
    {stored : Stored} {flushed : Flushed} (hw : interner.window.entries[id]? = some stored)
    (hf : interner.flushed[id]? = some flushed) :
    flushed.placement interner.limits = if stored.isBlob then .blobs else .strings := by
  obtain ⟨v, hv, hentry⟩ := hsound.window id stored hw
  obtain ⟨w, hw', hdesc⟩ := hsound.flushed id flushed hf
  obtain ⟨hor, hblob, hhard⟩ := h id stored flushed hw hf
  have hcalm := hentry.calm
  have hov : stored.oversized = interner.limits.oversized v := by
    rw [hentry.stored_eq]
    rfl
  rw [placement_eq hdesc, Stored.isBlob, hov]
  cases hb : flushed.blobRequired with
  | true => rw [hblob hb]; rfl
  | false =>
    have hstrict := hhard (hor.resolve_left (by rw [hb]; exact Bool.false_ne_true))
    simp only [Requirements.conflicts, hstrict, Bool.true_and, Bool.or_eq_false_iff] at hcalm
    have hcalm' := hdesc.calm
    have hrecord : flushed.req.hotHard = true :=
      hor.resolve_left (by rw [hb]; exact Bool.false_ne_true)
    simp only [Requirements.conflicts, hrecord, Bool.true_and, Bool.or_eq_false_iff] at hcalm'
    rw [hcalm.1, show interner.limits.oversized v = false from hcalm.2, hcalm'.2]

theorem merge_blob_left (a b : Requirements) (h : a.blob = true) : (a.merge b).blob = true := by
  simp only [Requirements.merge, h, Bool.true_or]

variable {a b : Requirements}

theorem merge_blob_of_ne (h : (a.merge b).blob ≠ a.blob) : (a.merge b).blob = true := by
  revert h
  simp only [Requirements.merge]
  cases a.blob <;> cases b.blob <;> simp

theorem merge_hotHard_of_ne (h : (a.merge b).hotHard ≠ a.hotHard) : (a.merge b).hotHard = true := by
  revert h
  simp only [Requirements.merge]
  cases a.hotHard <;> cases b.hotHard <;> simp

variable {result : Except DictError (StrId × Bool) × Interner}

theorem Requested.again
    (h : Requested hashes V interner id bytes req result) (hagain : interner.Again) :
    result.2.Again := by
  intro j stored record hw hf
  cases h with
  | refused problem window hsame hwhy =>
    exact hagain j stored record ((hsame.entries j).symm.trans hw) hf
  | windowed window hot hwhere hvalue hup hhot =>
    by_cases hj : j = id
    · subst hj
      obtain rfl := Option.some.inj (hup.entry.symm.trans hw)
      cases hold : interner.window.entries[j]? with
      | none => exact absurd ((hwhere.resolve_left fun h => h hold).symm.trans hf) (by simp)
      | some old =>
        obtain ⟨hor, hblob, hhard⟩ := hagain j old record hold hf
        have hreq := SegmentDicts.reqOf_of_getElem? hold
        refine ⟨hor, fun hb => ?_, fun hh => ?_⟩
        · exact merge_blob_left _ _ (hreq ▸ hblob hb)
        · exact merge_hotHard_left _ _ (hreq ▸ hhard hh)
    · exact hagain j stored record ((hup.others j hj).symm.trans hw) hf
  | upgraded flushed window hot hnone hflushed hdesc hdurable hroom hup =>
    have hwindow := recordFlushedBits_window { interner with window := window } id
      (flushed.req.merge req)
    have hrecords := recordFlushedBits_flushed { interner with window := window } hflushed
      (flushed.req.merge req)
    simp only [hwindow] at hw
    simp only [hrecords] at hf
    by_cases hj : j = id
    · subst hj
      have hentry := hup.entry
      rw [SegmentDicts.reqOf_of_none hnone] at hentry
      obtain rfl := Option.some.inj (hentry.symm.trans hw)
      obtain rfl := Option.some.inj ((TreeMap.getElem?_insert_self _ _ _).symm.trans hf)
      refine ⟨?_, fun hb => hb, fun hh => hh⟩
      rcases hdurable with hb | hh
      · exact .inl (merge_blob_of_ne hb)
      · exact .inr (merge_hotHard_of_ne hh)
    · rw [TreeMap.getElem?_insert_ne _ _ hj] at hf
      exact hagain j stored record ((hup.others j hj).symm.trans hw) hf
  | kept flushed hnone hflushed hdesc hblob hhard hcalm =>
    have hplain : j ≠ id → interner.window.entries[j]? = some stored →
        interner.flushed[j]? = some record → _ := fun _ hw hf => hagain j stored record hw hf
    by_cases hsoft : ((flushed.req.merge req).hotSoft != flushed.req.hotSoft &&
        !((flushed.req.merge req).blob || interner.limits.oversized bytes)) = true
    · simp only [hsoft, if_true, recordFlushedBits_window,
        recordFlushedBits_flushed interner hflushed] at hw hf
      by_cases hj : j = id
      · subst hj
        exact absurd (hnone.symm.trans hw) (by simp)
      · rw [TreeMap.getElem?_insert_ne _ _ hj] at hf
        exact hplain hj hw hf
    · simp only [hsoft] at hw hf
      exact hagain j stored record hw hf

theorem Sound.again_afterFlush (hsound : interner.Sound hashes V) :
    (interner.afterFlush hashes).Again := by
  obtain ⟨hlimits, hentries⟩ := afterFlush_window hsound
  have hafter := hsound.afterFlush
  intro id stored flushed hw hf
  rw [hentries] at hw
  obtain ⟨bytes, hpin, rfl⟩ := Option.map_eq_some_iff.mp hw
  obtain ⟨-, -, -, hhot⟩ := hsound.pinned id bytes hpin
  have hhard : flushed.hotHard = true := by
    rw [getElem?_flushed_afterFlush] at hf
    cases hold : interner.window.entries[id]? with
    | some old =>
      rw [hold] at hf
      obtain ⟨v, -, hentry⟩ := hsound.window id old hold
      obtain rfl := Option.some.inj hf
      rw [hentry.stored_eq, flushedOf_snapshot]
      rwa [reqOf_of_window _ hold] at hhot
    | none =>
      rw [hold] at hf
      rwa [reqOf_of_flushed _ hold hf] at hhot
  obtain ⟨v, -, hdesc⟩ := hafter.flushed id flushed hf
  have hcalm := hdesc.calm
  simp only [Requirements.conflicts, show flushed.req.hotHard = true from hhard, Bool.true_and,
    Bool.or_eq_false_iff] at hcalm
  refine ⟨.inr hhard, fun hb => ?_, fun _ => rfl⟩
  rw [show flushed.blobRequired = false from hcalm.1] at hb
  exact absurd hb Bool.false_ne_true

/-! ## Keeping placements -/

/-- The value stored under an id, as the flushed record of the id says. -/
def FlushedAs (hashes : Hashes) (V : Set Bytes) (interner : Interner) (id : StrId)
    (value : DictionaryValue) : Prop :=
  ∃ bytes ∈ V, ∃ flushed : Flushed, interner.flushed[id]? = some flushed ∧
    flushed.Describes hashes interner.limits bytes id ∧
    value = .ofValue hashes interner.limits (flushed.placement interner.limits) bytes

theorem functional_flushedAs (hinj : IdInjective hashes V) :
    Functional (FlushedAs hashes V interner) := by
  rintro id left right ⟨v, hv, flushed, hf, hdesc, rfl⟩ ⟨w, hw, flushed', hf', hdesc', rfl⟩
  obtain rfl := Option.some.inj (hf.symm.trans hf')
  rw [hinj v hv w hw (hdesc.id_eq.trans hdesc'.id_eq.symm)]

variable {W : Set Bytes}

theorem FlushedAs.mono {value : DictionaryValue}
    (h : FlushedAs hashes W interner id value) (hWV : W ⊆ V) :
    FlushedAs hashes V interner id value := by
  obtain ⟨bytes, hW, hrest⟩ := h
  exact ⟨bytes, hWV hW, hrest⟩

/-- Every flushed record is still there, of the same value and placed as before. -/
structure KeepsPlacement (hashes : Hashes) (V : Set Bytes) (before after : Interner) : Prop where
  limits : after.limits = before.limits
  records : ∀ (id : StrId) (flushed : Flushed), before.flushed[id]? = some flushed →
    ∃ flushed' : Flushed, after.flushed[id]? = some flushed' ∧
      flushed'.placement before.limits = flushed.placement before.limits ∧
      ∀ bytes ∈ V, flushed.Describes hashes before.limits bytes id →
        flushed'.Describes hashes before.limits bytes id

variable {after : Interner}

theorem KeepsPlacement.of_eq (hlimits : after.limits = interner.limits)
    (hflushed : after.flushed = interner.flushed) : KeepsPlacement hashes V interner after :=
  ⟨hlimits, fun _ flushed hf => ⟨flushed, hflushed ▸ hf, rfl, fun _ _ h => h⟩⟩

theorem KeepsPlacement.flushedAs {before after : Interner}
    (h : KeepsPlacement hashes V before after)
    {value : DictionaryValue} (hvalue : FlushedAs hashes V before id value) :
    FlushedAs hashes V after id value := by
  obtain ⟨bytes, hV, flushed, hf, hdesc, rfl⟩ := hvalue
  obtain ⟨flushed', hf', hplace, hsame⟩ := h.records id flushed hf
  refine ⟨bytes, hV, flushed', hf', ?_, ?_⟩
  · rw [h.limits]
    exact hsame bytes hV hdesc
  · rw [h.limits, hplace]

theorem keepsPlacement_recordFlushedBits {flushed : Flushed}
    (hf : interner.flushed[id]? = some flushed)
    (hdesc : flushed.Describes hashes interner.limits bytes id)
    (hcalm : req.conflicts (interner.limits.oversized bytes) = false)
    (hplace : (req.blob || interner.limits.oversized bytes) =
      (flushed.blobRequired || interner.limits.oversized bytes)) :
    KeepsPlacement hashes V interner (interner.recordFlushedBits id req) := by
  refine ⟨recordFlushedBits_limits _ _ _, fun j record hj => ?_⟩
  rw [recordFlushedBits_flushed _ hf]
  by_cases hji : j = id
  · subst hji
    obtain rfl := Option.some.inj (hf.symm.trans hj)
    have hupdated : ∀ v, flushed.Describes hashes interner.limits v j →
        interner.limits.oversized v = interner.limits.oversized bytes := by
      intro v hv
      rw [DictLimits.oversized, DictLimits.oversized, ← hv.fullLen, ← hdesc.fullLen]
    have hmade : ∀ v, flushed.Describes hashes interner.limits v j →
        (flushed.withReq req).Describes hashes interner.limits v j := fun v hv =>
      ⟨hv.id_eq, hv.fullLen, hv.check, (hupdated v hv).symm ▸ hcalm⟩
    refine ⟨_, TreeMap.getElem?_insert_self _ _ _, ?_, fun v _ => hmade v⟩
    rw [placement_eq (hmade bytes hdesc), placement_eq hdesc]
    show (if (req.blob || _) = true then _ else _) = _
    rw [hplace]
  · exact ⟨record, (TreeMap.getElem?_insert_ne _ _ hji).trans hj, rfl, fun _ _ h => h⟩

theorem Sound.keepsPlacement_afterFlush (hsound : interner.Sound hashes V)
    (hagain : interner.Again) (hinj : IdInjective hashes V) :
    KeepsPlacement hashes V interner (interner.afterFlush hashes) := by
  refine ⟨(afterFlush_window hsound).1, fun id flushed hf => ?_⟩
  rw [getElem?_flushed_afterFlush]
  cases hw : interner.window.entries[id]? with
  | none => exact ⟨flushed, hf, rfl, fun _ _ h => h⟩
  | some stored =>
    obtain ⟨v, hv, hentry⟩ := hsound.window id stored hw
    have hmade : (flushedOf hashes (SegmentDicts.snapshot id stored)).Describes hashes
        interner.limits v id := by
      rw [hentry.stored_eq, flushedOf_snapshot]
      exact ⟨hentry.id_eq, rfl, rfl, hentry.calm⟩
    refine ⟨_, rfl, ?_, fun bytes hbytes hb => ?_⟩
    · rw [hagain.placement hsound hw hf, hentry.stored_eq]
      rfl
    · rwa [hinj v hv bytes hbytes (hentry.id_eq.trans hb.id_eq.symm)] at hmade

theorem Sound.rowsAllowed_afterFlush (hsound : interner.Sound hashes V)
    {sections : WindowSections} (h : encode interner.window = .ok sections) :
    RowsAllowed hashes (FlushedAs hashes V (interner.afterFlush hashes)) sections := by
  refine rowsAllowed_encode hsound.window (fun id stored bytes hget hV hentry => ?_) h
  have hlimits := (afterFlush_window hsound).1
  have hflushed := getElem?_flushed_afterFlush hashes interner id
  rw [hget] at hflushed
  have hmade : (flushedOf hashes (SegmentDicts.snapshot id stored)).Describes hashes
      interner.limits bytes id := by
    rw [hentry.stored_eq, flushedOf_snapshot]
    exact ⟨hentry.id_eq, rfl, rfl, hentry.calm⟩
  refine ⟨bytes, hV, _, hflushed, hlimits ▸ hmade, ?_⟩
  rw [hlimits, hentry.stored_eq]
  rfl

/-! ## The step that does not keep a placement -/

/-- The step asks for a blob of a value that is flushed as a string.  The record is
not strict-hot and the window has room, so nothing refuses the request. -/
def ForcesFlushedString (hashes : Hashes) (interner : Interner) : SegmentStep → Prop
  | .call .internBlob bytes => ∃ (id : StrId) (flushed : Flushed),
      StrId.of hashes bytes = some id ∧ interner.flushed[id]? = some flushed ∧
      flushed.isSame hashes bytes = true ∧
      flushed.placement interner.limits = .strings ∧ flushed.hotHard = false ∧
      interner.window.HasRoom bytes
  | _ => False

variable {kind : Kind}

theorem Kind.blob_eq_false (h : kind ≠ .internBlob) : kind.req.blob = false := by
  cases kind with
  | internBlob => exact absurd rfl h
  | intern => rfl
  | internHot => rfl
  | internHotBestEffort => rfl

theorem merge_blob_of_false (h : b.blob = false) : (a.merge b).blob = a.blob := by
  simp only [Requirements.merge, h, Bool.or_false]

theorem Requested.keepsPlacement (h : Requested hashes V interner id bytes kind.req result)
    (hid : StrId.of hashes bytes = some id)
    (hforce : ¬ForcesFlushedString hashes interner (.call kind bytes)) :
    KeepsPlacement hashes V interner result.2 := by
  cases h with
  | refused problem window hsame hwhy => exact .of_eq hsame.limits rfl
  | windowed window hot hwhere hvalue hup hhot => exact .of_eq hup.limits rfl
  | kept flushed hnone hflushed hdesc hblob hhard hcalm =>
    show KeepsPlacement hashes V interner (if _ then _ else _)
    split
    · exact keepsPlacement_recordFlushedBits hflushed hdesc hcalm
        (congrArg (· || interner.limits.oversized bytes) hblob)
    · exact .of_eq rfl rfl
  | upgraded flushed window hot hnone hflushed hdesc hdurable hroom hup =>
    have hcalm :
        (flushed.req.merge kind.req).conflicts (interner.limits.oversized bytes) = false := by
      have hcalm := hup.calm
      rwa [SegmentDicts.reqOf_of_none hnone] at hcalm
    have hplace : ((flushed.req.merge kind.req).blob || interner.limits.oversized bytes) =
        (flushed.blobRequired || interner.limits.oversized bytes) := by
      by_cases hkind : kind = .internBlob
      · by_cases hblobs : flushed.placement interner.limits = .strings
        · -- A strict-hot record would have refused the blob.
          exfalso
          refine hforce ?_
          rw [hkind]
          refine ⟨id, flushed, hid, hflushed, hdesc.isSame, hblobs, ?_, hroom⟩
          by_contra hhard
          have hhard' : flushed.req.hotHard = true := Bool.not_eq_false _ ▸ hhard
          exact absurd hcalm (by simp [Requirements.conflicts, Requirements.merge, hkind, Kind.req,
            hhard'])
        · rw [placement_eq hdesc] at hblobs
          have hor : (flushed.blobRequired || interner.limits.oversized bytes) = true := by
            by_contra hne
            rw [if_neg hne] at hblobs
            exact hblobs rfl
          rw [hor]
          rcases Bool.or_eq_true_iff.mp hor with hb | hov
          · rw [merge_blob_left _ _ (show flushed.req.blob = true from hb), Bool.true_or]
          · rw [hov, Bool.or_true]
      · rw [merge_blob_of_false (Kind.blob_eq_false hkind)]
        rfl
    have hlimits : Interner.limits { interner with window := window } = interner.limits :=
      hup.limits
    have hrecord : KeepsPlacement hashes V { interner with window := window }
        (Interner.recordFlushedBits { interner with window := window } id
          (flushed.req.merge kind.req)) :=
      keepsPlacement_recordFlushedBits hflushed (hlimits ▸ hdesc) (hlimits ▸ hcalm)
        (hlimits ▸ hplace)
    refine ⟨hrecord.limits.trans hlimits, fun j record hj => ?_⟩
    have hkept := hrecord.records j record hj
    rwa [hlimits] at hkept

/-! ## The values a run keeps -/

theorem Sound.mono (h : interner.Sound hashes W) (hWV : W ⊆ V) : interner.Sound hashes V where
  window id stored hget := by
    obtain ⟨v, hv, hentry⟩ := h.window id stored hget
    exact ⟨v, hWV hv, hentry⟩
  flushed id flushed hget := by
    obtain ⟨v, hv, hdesc⟩ := h.flushed id flushed hget
    exact ⟨v, hWV hv, hdesc⟩
  pinned id v hget := by
    obtain ⟨hv, hrest⟩ := h.pinned id v hget
    exact ⟨hWV hv, hrest⟩
  stats := h.stats

def Present (interner : Interner) (id : StrId) : Prop :=
  interner.window.entries[id]? ≠ none ∨ interner.flushed[id]? ≠ none

/-- The values kept so far: each is present under its id, and no two share one. -/
structure Keeps (hashes : Hashes) (W : Set Bytes) (interner : Interner) : Prop where
  sound : interner.Sound hashes W
  again : interner.Again
  injective : IdInjective hashes W
  present : ∀ v ∈ W, ∀ id, StrId.of hashes v = some id → interner.Present id

/-- A kept value whose id accepts a request for `bytes` is `bytes`. -/
theorem Requested.eq_of_ok {answer : StrId × Bool}
    (h : Requested hashes V interner id bytes req (.ok answer, after))
    (hkeeps : interner.Keeps hashes W) (hsep : Separated hashes V) (hWV : W ⊆ V)
    (hV : bytes ∈ V) {v : Bytes} (hv : v ∈ W) (hvid : StrId.of hashes v = some id)
    (hid : StrId.of hashes bytes = some id) : v = bytes := by
  have hrecord : ∀ flushed : Flushed, interner.flushed[id]? = some flushed →
      flushed.Describes hashes interner.limits bytes id → v = bytes := by
    intro flushed hf hdesc
    obtain ⟨w, hw, hdesc'⟩ := hkeeps.sound.flushed id flushed hf
    obtain rfl := hkeeps.injective w hw v hv (hdesc'.id_eq.trans hvid.symm)
    exact hsep w (hWV hw) bytes hV (hvid.trans hid.symm) (hdesc'.fullLen ▸ hdesc.fullLen)
      (hdesc'.check ▸ hdesc.check)
  cases h with
  | windowed window hot hwhere hvalue hup hhot =>
    cases hw : interner.window.entries[id]? with
    | none =>
      rcases hkeeps.present v hv id hvid with h | h
      · exact absurd hw h
      · exact absurd (hwhere.resolve_left fun hne => hne hw) h
    | some stored =>
      obtain ⟨w, hw', hentry⟩ := hkeeps.sound.window id stored hw
      obtain rfl := hkeeps.injective w hw' v hv (hentry.id_eq.trans hvid.symm)
      exact SegmentDicts.ofValue_inj hsep (hWV hw') hV hentry (hvalue stored hw)
  | upgraded flushed window hot hnone hflushed hdesc hdurable hroom hup =>
    exact hrecord flushed hflushed hdesc
  | kept flushed hnone hflushed hdesc hblob hhard hcalm => exact hrecord flushed hflushed hdesc

theorem present_congr {left right : Interner} (hwindow : left.window = right.window)
    (hflushed : left.flushed = right.flushed) (id : StrId) :
    left.Present id ↔ right.Present id := by
  simp only [Present, hwindow, hflushed]

variable {j : StrId}

theorem present_recordFlushedBits (h : interner.Present j) :
    (interner.recordFlushedBits id req).Present j := by
  refine h.imp (fun hne => by rwa [recordFlushedBits_window]) (fun hne => ?_)
  cases hf : interner.flushed[id]? with
  | none => simpa only [recordFlushedBits, hf] using hne
  | some flushed =>
    rw [recordFlushedBits_flushed _ hf]
    by_cases hj : j = id
    · rw [hj, TreeMap.getElem?_insert_self]
      exact Option.some_ne_none _
    · rwa [TreeMap.getElem?_insert_ne _ _ hj]

theorem present_ite {record : Bool} (h : interner.Present j) :
    Interner.Present (if record then interner.recordFlushedBits id req else interner) j := by
  cases record with
  | false => exact h
  | true => exact present_recordFlushedBits h

theorem present_of_updated {window : SegmentDicts}
    (hup : SegmentDicts.Updated hashes interner.window window id bytes req) :
    (∀ j, interner.Present j → Interner.Present { interner with window := window } j) ∧
      Interner.Present { interner with window := window } id := by
  have hself : window.entries[id]? ≠ none := hup.entry ▸ Option.some_ne_none _
  refine ⟨fun j hj => ?_, .inl hself⟩
  by_cases hji : j = id
  · exact .inl (hji ▸ hself)
  · exact hj.imp (fun hne => (hup.others j hji).symm ▸ hne) (fun hne => hne)

theorem Requested.present (h : Requested hashes V interner id bytes req result) :
    (∀ j, interner.Present j → result.2.Present j) ∧
      (∀ answer, result.1 = .ok answer → result.2.Present id) := by
  cases h with
  | refused problem window hsame hwhy =>
    refine ⟨fun j hj => ?_, fun answer h => absurd h (by simp)⟩
    exact hj.imp (fun hne => (hsame.entries j).symm ▸ hne) (fun hne => hne)
  | windowed window hot hwhere hvalue hup hhot =>
    exact ⟨(present_of_updated hup).1, fun _ _ => (present_of_updated hup).2⟩
  | upgraded flushed window hot hnone hflushed hdesc hdurable hroom hup =>
    obtain ⟨hold, hself⟩ := present_of_updated hup
    exact ⟨fun j hj => present_recordFlushedBits (hold j hj),
      fun _ _ => present_recordFlushedBits hself⟩
  | kept flushed hnone hflushed hdesc hblob hhard hcalm =>
    have hself : interner.Present id := .inr (hflushed ▸ Option.some_ne_none _)
    exact ⟨fun j hj => present_ite hj, fun _ _ => present_ite hself⟩

theorem present_afterFlush (h : interner.Present j) : (interner.afterFlush hashes).Present j := by
  right
  rw [getElem?_flushed_afterFlush]
  cases hw : interner.window.entries[j]? with
  | some stored => exact Option.some_ne_none _
  | none => exact h.resolve_left (fun hne => hne hw)

/-! ## Runs -/

theorem call_of_error {problem : DictError}
    (h : interner.request hashes bytes kind.req = (.error problem, after)) :
    (interner.call hashes kind bytes).2 = after := by
  cases kind with
  | internHot =>
    simp only [Kind.req] at h
    simp only [call, Interner.internHot, h]
  | intern =>
    simp only [Kind.req] at h
    simp only [call, Interner.intern, h]
  | internBlob =>
    simp only [Kind.req] at h
    simp only [call, Interner.internBlob, h]
  | internHotBestEffort =>
    simp only [Kind.req] at h
    simp only [call, Interner.internHotBestEffort, h]

theorem Again.congr {left right : Interner} (h : right.Again) (hwindow : left.window = right.window)
    (hflushed : left.flushed = right.flushed) : left.Again := by
  intro id stored flushed hw hf
  rw [hwindow] at hw
  rw [hflushed] at hf
  exact h id stored flushed hw hf

theorem KeepsPlacement.congr {before left right : Interner}
    (h : KeepsPlacement hashes V before right) (hwindow : left.window = right.window)
    (hflushed : left.flushed = right.flushed) : KeepsPlacement hashes V before left where
  limits := by
    rw [← h.limits, Interner.limits, Interner.limits, hwindow]
  records := by
    rw [hflushed]
    exact h.records

/-- The step lemma for a call: the kept values grow by at most the called one, and
the placements stay unless the call forces a flushed string. -/
theorem Keeps.call (hkeeps : interner.Keeps hashes W) (hsep : Separated hashes V)
    (hWV : W ⊆ V) (kind : Kind) (hV : bytes ∈ V)
    (hforce : ¬ForcesFlushedString hashes interner (.call kind bytes)) :
    ∃ W', W ⊆ W' ∧ W' ⊆ V ∧ (interner.call hashes kind bytes).2.Keeps hashes W' ∧
      KeepsPlacement hashes W' interner (interner.call hashes kind bytes).2 := by
  obtain ⟨hwindow, hflushed⟩ := call_stores hashes interner kind bytes
  cases hid : StrId.of hashes bytes with
  | none =>
    have hrequest : interner.request hashes bytes kind.req = (.error (.collision 0), interner) := by
      simp only [request, hid]
    rw [call_of_error hrequest]
    exact ⟨W, subset_rfl, hWV, hkeeps, .of_eq rfl rfl⟩
  | some id =>
    have hW'V : insert bytes W ⊆ V := Set.insert_subset hV hWV
    have hsep' : Separated hashes (insert bytes W) := fun v hv w hw =>
      hsep v (hW'V hv) w (hW'V hw)
    have hsound' : interner.Sound hashes (insert bytes W) :=
      hkeeps.sound.mono (Set.subset_insert bytes W)
    have hspec := request_spec kind.req hsound' hsep' (Set.mem_insert bytes W) hid
    have hagain := (hspec.again hkeeps.again).congr hwindow hflushed
    have hkept := (hspec.keepsPlacement hid hforce).congr hwindow hflushed
    have hpresent := hspec.present
    rcases hresult : interner.request hashes bytes kind.req with ⟨problem | answer, after⟩
    · -- A refused call keeps no new value.
      refine ⟨W, subset_rfl, hWV, ?_, ⟨hkept.limits, fun j flushed hj => ?_⟩⟩
      · rw [hresult] at hspec hpresent
        rw [call_of_error hresult] at hagain ⊢
        refine ⟨?_, hagain, hkeeps.injective, fun v hv j hj =>
          hpresent.1 j (hkeeps.present v hv j hj)⟩
        cases hspec with
        | refused problem window hsame hwhy => exact hkeeps.sound.of_same hsame
      · obtain ⟨record, hrecord, hplace, hdesc⟩ := hkept.records j flushed hj
        exact ⟨record, hrecord, hplace, fun v hv => hdesc v (Set.mem_insert_of_mem bytes hv)⟩
    · rw [hresult] at hspec hpresent
      refine ⟨insert bytes W, Set.subset_insert bytes W, hW'V, ⟨?_, hagain, ?_, ?_⟩, hkept⟩
      · exact hsound'.call hsep' kind (Set.mem_insert bytes W)
      · have heq : ∀ v ∈ W, StrId.of hashes v = some id → v = bytes := fun v hv hvid =>
          hspec.eq_of_ok hkeeps hsep' (Set.subset_insert bytes W) (Set.mem_insert bytes W) hv
            hvid hid
        rintro v (rfl | hv) w (rfl | hw) hvw
        · rfl
        · exact (heq w hw (hvw.symm.trans hid)).symm
        · exact heq v hv (hvw.trans hid)
        · exact hkeeps.injective v hv w hw hvw
      · rintro v hv j hj
        rw [present_congr hwindow hflushed, hresult]
        rcases hv with rfl | hv
        · obtain rfl := Option.some.inj (hid.symm.trans hj)
          exact hpresent.2 answer rfl
        · exact hpresent.1 j (hkeeps.present v hv j hj)

theorem Keeps.afterFlush (h : interner.Keeps hashes W) :
    (interner.afterFlush hashes).Keeps hashes W where
  sound := h.sound.afterFlush
  again := h.sound.again_afterFlush
  injective := h.injective
  present v hv id hid := present_afterFlush (h.present v hv id hid)

theorem new_keeps (limits : DictLimits) : (Interner.new limits).Keeps hashes ∅ where
  sound := new_sound limits
  again := new_again limits
  injective v hv := absurd hv (Set.notMem_empty v)
  present v hv := absurd hv (Set.notMem_empty v)

end Interner

namespace SegmentRun

variable {hashes : Hashes} {V : Set Bytes} {run : SegmentRun}

/-- The stored windows agree with the flushed records, for some set of kept values. -/
def Consistent (hashes : Hashes) (V : Set Bytes) (run : SegmentRun) : Prop :=
  ∃ W ⊆ V, run.interner.Keeps hashes W ∧
    ∀ window ∈ run.windows, RowsAllowed hashes (Interner.FlushedAs hashes W run.interner) window

theorem new_consistent (limits : DictLimits) : (new limits).Consistent hashes V :=
  ⟨∅, Set.empty_subset V, Interner.new_keeps limits, fun _ h => absurd h List.not_mem_nil⟩

theorem Consistent.step (h : run.Consistent hashes V) (hsep : Separated hashes V)
    {step : SegmentStep} (hV : step.values ⊆ V)
    (hforce : ¬Interner.ForcesFlushedString hashes run.interner step) :
    (run.step hashes step).Consistent hashes V := by
  obtain ⟨W, hWV, hkeeps, hrows⟩ := h
  cases step with
  | call kind bytes =>
    obtain ⟨W', hWW', hW'V, hkeeps', hkept⟩ := hkeeps.call hsep hWV kind (hV rfl) hforce
    refine ⟨W', hW'V, hkeeps', fun window hwindow => (hrows window hwindow).mono ?_⟩
    exact fun id value hvalue => hkept.flushedAs (hvalue.mono hWW')
  | flush =>
    rw [step_flush]
    cases hencode : encode run.interner.window with
    | error problem => exact ⟨W, hWV, hkeeps, hrows⟩
    | ok sections =>
      refine ⟨W, hWV, hkeeps.afterFlush, fun window hwindow => ?_⟩
      rcases List.mem_append.mp hwindow with hold | hnew
      · exact (hrows window hold).mono fun id value hvalue =>
          (hkeeps.sound.keepsPlacement_afterFlush hkeeps.again hkeeps.injective).flushedAs hvalue
      · rw [List.mem_singleton.mp hnew]
        exact hkeeps.sound.rowsAllowed_afterFlush hencode

theorem Consistent.finishable (h : run.Consistent hashes V) :
    Finishable (normalizeDictionary hashes run.windows) := by
  obtain ⟨W, -, hkeeps, hrows⟩ := h
  exact (normalizeDictionary_allowed hrows).finishable
    (Interner.functional_flushedAs hkeeps.injective)

/-- In every run that never forces a value flushed as a string into the blobs, the
stored windows normalize, unless a finished cap is exceeded. -/
theorem finishable_of_no_forced_string {limits : DictLimits} {steps : List SegmentStep}
    (hsep : Separated hashes {bytes | ∃ step ∈ steps, bytes ∈ step.values})
    (hrun : Run.Along
      (fun run step => ¬Interner.ForcesFlushedString hashes run.interner step)
      (SegmentRun.step hashes) (new limits) steps) :
    Finishable (normalizeDictionary hashes
      (Run.finish (SegmentRun.step hashes) (new limits) steps).windows) := by
  have hinv : (Run.finish (SegmentRun.step hashes) (new limits) steps).Consistent hashes
      {bytes | ∃ step ∈ steps, bytes ∈ step.values} := Run.invariant
    (fun run step hstep hinv hforce =>
      Consistent.step hinv hsep (fun bytes hbytes => ⟨step, hstep, hbytes⟩) hforce)
    (new_consistent limits) hrun
  exact hinv.finishable

/-- The run of a value that is stored as a string, pinned, and stored again. -/
def pinnedRun : List SegmentStep :=
  [.call .intern planBytes, .flush, .call .internHot planBytes, .flush, .call .intern nameBytes,
    .flush]

theorem finishable_pinnedRun :
    Finishable (normalizeDictionary knownHashes
      (Run.finish (SegmentRun.step knownHashes) (new DictLimits.default) pinnedRun).windows) := by
  refine finishable_of_no_forced_string ?_ ?_
  · refine (knownHashes_injective.mono ?_).separated
    rintro bytes ⟨step, hstep, hbytes⟩
    simp only [pinnedRun, List.mem_cons, List.not_mem_nil, or_false] at hstep
    rcases hstep with rfl | rfl | rfl | rfl | rfl | rfl <;> simp_all [SegmentStep.values]
  · exact ⟨id, id, id, id, id, id, trivial⟩

/-- The step is no call that answers `Collision`, and no flush that fails. -/
def Accepts (hashes : Hashes) (run : SegmentRun) : SegmentStep → Prop
  | .call kind bytes =>
    ∀ raw, (run.interner.call hashes kind bytes).1 ≠ .error (.collision raw)
  | .flush => (encode run.interner.window).isOk = true

/-- The run of a value that is stored as a string and then as a blob. -/
def forcedRun : List SegmentStep :=
  [.call .intern planBytes, .flush, .call .internBlob planBytes, .flush]

theorem forcedRun_conflicts :
    Run.Along (Accepts knownHashes) (SegmentRun.step knownHashes) (new DictLimits.default)
        forcedRun ∧
      normalizeDictionary knownHashes
          (Run.finish (SegmentRun.step knownHashes) (new DictLimits.default) forcedRun).windows =
        .error (.dictionaryConflict 198643258655125820) := by
  refine ⟨⟨fun raw h => ?_, rfl, fun raw h => ?_, rfl, trivial⟩, rfl⟩
  · cases h
  · cases h

end SegmentRun

end Kronika.Writer
