/-
The interner keeps its invariant.

Every operation of the interner leads from a sound state to a sound one, whatever
it answers, and so does every run of operations.
-/
import Kronika.Dictionary.InternerSpec
import Kronika.Library.Run

namespace Kronika.Writer

open Format

namespace Interner

variable {hashes : Hashes} {V : Set Bytes} {interner : Interner}
variable {id : StrId} {bytes : Bytes} {req : Requirements}

/-! ## Requests -/

theorem reqOf_congr (left right : Interner) {j : StrId}
    (hwindow : left.window.entries[j]? = right.window.entries[j]?)
    (hflushed : left.flushed[j]? = right.flushed[j]?) : left.reqOf j = right.reqOf j := by
  simp only [reqOf, hwindow, hflushed]

theorem Sound.of_same {window : SegmentDicts} (hsound : Sound hashes V interner)
    (hsame : SegmentDicts.Same interner.window window) :
    Sound hashes V { interner with window := window } where
  window := hsame.sound hsound.window
  flushed j flushed hj := by
    rw [Interner.limits, hsame.limits]
    exact hsound.flushed j flushed hj
  pinned j v hj := by
    rw [Interner.limits, hsame.limits,
      reqOf_congr { interner with window := window } interner (hsame.entries j) rfl]
    exact hsound.pinned j v hj
  stats := by
    rw [Interner.limits, hsame.limits]
    exact hsound.stats

theorem Sound.of_updated {window : SegmentDicts} (hsound : Sound hashes V interner)
    (hV : bytes ∈ V) (hid : StrId.of hashes bytes = some id)
    (hup : SegmentDicts.Updated hashes interner.window window id bytes req)
    (hhard : (interner.reqOf id).hotHard = true →
      ((interner.window.reqOf id).merge req).hotHard = true) :
    Sound hashes V { interner with window := window } where
  window := hup.sound hsound.window hV hid
  flushed j flushed hj := by
    rw [Interner.limits, hup.limits]
    exact hsound.flushed j flushed hj
  pinned j v hj := by
    obtain ⟨hv, hvid, hov, hhot⟩ := hsound.pinned j v hj
    rw [Interner.limits, hup.limits]
    refine ⟨hv, hvid, hov, ?_⟩
    by_cases hji : j = id
    · subst hji
      rw [reqOf_of_window { interner with window := window } hup.entry]
      exact hhard hhot
    · rw [reqOf_congr { interner with window := window } interner (hup.others j hji) rfl]
      exact hhot
  stats := by
    rw [Interner.limits, hup.limits]
    exact hsound.stats

theorem Sound.recordFlushedBits {flushed : Flushed} (hsound : Sound hashes V interner)
    (hV : bytes ∈ V) (hget : interner.flushed[id]? = some flushed)
    (hdesc : flushed.Describes hashes interner.limits bytes id)
    (hcalm : req.conflicts (interner.limits.oversized bytes) = false)
    (hhard : flushed.req.hotHard = true → req.hotHard = true) :
    Sound hashes V (interner.recordFlushedBits id req) where
  window := by
    rw [recordFlushedBits_window]
    exact hsound.window
  flushed j record hj := by
    rw [recordFlushedBits_flushed _ hget] at hj
    rw [recordFlushedBits_limits]
    by_cases hji : j = id
    · rw [hji, TreeMap.getElem?_insert_self] at hj
      obtain rfl := Option.some.inj hj
      exact ⟨bytes, hV, ⟨hji ▸ hdesc.id_eq, hdesc.fullLen, hdesc.check, hcalm⟩⟩
    · rw [TreeMap.getElem?_insert_ne _ _ hji] at hj
      exact hsound.flushed j record hj
  pinned j v hj := by
    rw [recordFlushedBits_hotPinned] at hj
    obtain ⟨hv, hvid, hov, hhot⟩ := hsound.pinned j v hj
    refine ⟨hv, hvid, recordFlushedBits_limits interner id req ▸ hov, ?_⟩
    by_cases hji : j = id
    · subst hji
      cases hw : interner.window.entries[j]? with
      | some stored =>
        rw [reqOf_of_window _ hw] at hhot
        rw [reqOf_of_window _ (recordFlushedBits_window interner j req ▸ hw)]
        exact hhot
      | none =>
        rw [reqOf_of_flushed _ hw hget] at hhot
        rw [reqOf_of_flushed _ (recordFlushedBits_window interner j req ▸ hw)
          (by rw [recordFlushedBits_flushed _ hget]; exact TreeMap.getElem?_insert_self _ _ _)]
        exact hhard hhot
    · rw [reqOf_congr _ interner (by rw [recordFlushedBits_window])
        (by rw [recordFlushedBits_flushed _ hget]; exact TreeMap.getElem?_insert_ne _ _ hji)]
      exact hhot
  stats := by
    have hstats := insert_stats hsound.stats id (flushed.withReq req)
    rw [recordFlushedBits_flushed _ hget, recordFlushedBits_limits, ← hstats]
    simp only [Interner.recordFlushedBits, hget]

theorem merge_hotHard_left (a b : Requirements) (h : a.hotHard = true) :
    (a.merge b).hotHard = true := by
  simp only [Requirements.merge, h, Bool.true_or]

theorem Requested.sound {result : Except DictError (StrId × Bool) × Interner}
    (h : Requested hashes V interner id bytes req result) (hsound : Sound hashes V interner)
    (hV : bytes ∈ V) (hid : StrId.of hashes bytes = some id) : Sound hashes V result.2 := by
  cases h with
  | refused problem window hsame hwhy => exact hsound.of_same hsame
  | windowed window hot hwhere hvalue hup hhot =>
    refine hsound.of_updated hV hid hup (fun hhard => ?_)
    rw [reqOf_eq_window hwhere] at hhard
    exact merge_hotHard_left _ _ hhard
  | upgraded flushed window hot hnone hflushed hdesc hdurable hroom hup =>
    have hempty := SegmentDicts.reqOf_of_none hnone
    have hcalm := hup.calm
    rw [hempty] at hcalm
    have hwindow : Sound hashes V { interner with window := window } := by
      refine hsound.of_updated hV hid hup (fun hhard => ?_)
      rw [reqOf_of_flushed _ hnone hflushed] at hhard
      rw [hempty, Requirements.empty_merge]
      exact merge_hotHard_left _ _ hhard
    refine hwindow.recordFlushedBits hV hflushed ?_ ?_ (merge_hotHard_left _ _)
    · rw [Interner.limits, hup.limits]
      exact hdesc
    · rw [Interner.limits, hup.limits]
      exact hcalm
  | kept flushed hnone hflushed hdesc hblob hhard hcalm =>
    show Sound hashes V (if _ then _ else _)
    split
    · exact hsound.recordFlushedBits hV hflushed hdesc hcalm (merge_hotHard_left _ _)
    · exact hsound

theorem Requested.limits {result : Except DictError (StrId × Bool) × Interner}
    (h : Requested hashes V interner id bytes req result) : result.2.limits = interner.limits := by
  cases h with
  | refused problem window hsame hwhy => exact hsame.limits
  | windowed window hot hwhere hvalue hup hhot => exact hup.limits
  | upgraded flushed window hot hnone hflushed hdesc hdurable hroom hup =>
    exact (recordFlushedBits_limits _ _ _).trans hup.limits
  | kept flushed hnone hflushed hdesc hblob hhard hcalm =>
    show Interner.limits (if _ then _ else _) = _
    split
    · exact recordFlushedBits_limits _ _ _
    · rfl

variable {answer : StrId × Bool} {after : Interner}

theorem Requested.fst
    (h : Requested hashes V interner id bytes req (.ok answer, after)) : answer.1 = id := by
  cases h with
  | windowed window hot hwhere hvalue hup hhot => rfl
  | upgraded flushed window hot hnone hflushed hdesc hdurable hroom hup => rfl
  | kept flushed hnone hflushed hdesc hblob hhard hcalm => rfl

theorem Requested.reqOf (h : Requested hashes V interner id bytes req (.ok answer, after)) :
    (after.reqOf id).blob = ((interner.reqOf id).merge req).blob ∧
      (after.reqOf id).hotHard = ((interner.reqOf id).merge req).hotHard ∧
      ((interner.reqOf id).merge req).conflicts (interner.limits.oversized bytes) = false := by
  cases h with
  | windowed window hot hwhere hvalue hup hhot =>
    rw [reqOf_eq_window hwhere, reqOf_of_window { interner with window := window } hup.entry]
    exact ⟨rfl, rfl, hup.calm⟩
  | upgraded flushed window hot hnone hflushed hdesc hdurable hroom hup =>
    have hcalm := hup.calm
    have hentry := hup.entry
    rw [SegmentDicts.reqOf_of_none hnone] at hcalm hentry
    rw [reqOf_of_flushed _ hnone hflushed,
      reqOf_of_window _ (by rw [recordFlushedBits_window]; exact hentry)]
    exact ⟨rfl, rfl, hcalm⟩
  | kept flushed hnone hflushed hdesc hblob hhard hcalm =>
    rw [reqOf_of_flushed _ hnone hflushed]
    split
    · rw [reqOf_of_flushed _ (recordFlushedBits_window interner id _ ▸ hnone)
        (by rw [recordFlushedBits_flushed _ hflushed]; exact TreeMap.getElem?_insert_self _ _ _)]
      exact ⟨rfl, rfl, hcalm⟩
    · rw [reqOf_of_flushed _ hnone hflushed]
      exact ⟨hblob.symm, hhard.symm, hcalm⟩

theorem Sound.pin (hsound : Sound hashes V after)
    (h : Requested hashes V interner id bytes { hotHard := true } (.ok answer, after))
    (hV : bytes ∈ V) (hid : StrId.of hashes bytes = some id) :
    Sound hashes V { after with hotPinned := after.hotPinned.insertIfNew id bytes } where
  window := hsound.window
  flushed := hsound.flushed
  stats := hsound.stats
  pinned j v hj := by
    rw [Std.TreeMap.getElem?_insertIfNew] at hj
    split at hj
    · rename_i hnew
      obtain rfl := Std.LawfulEqCmp.eq_of_compare hnew.1
      obtain rfl := Option.some.inj hj
      obtain ⟨-, hhard, hcalm⟩ := h.reqOf
      have hlimits := h.limits
      have hmerged : ((interner.reqOf id).merge { hotHard := true }).hotHard = true := by
        simp only [Requirements.merge, Bool.or_true]
      refine ⟨hV, hid, ?_, hhard.trans hmerged⟩
      simp only [Requirements.conflicts, hmerged, Bool.true_and, Bool.or_eq_false_iff] at hcalm
      rw [Interner.limits] at hlimits ⊢
      rw [hlimits]
      exact hcalm.2
    · exact hsound.pinned j v hj

/-! ## The state after a flush -/

theorem flushedOf_snapshot (limits : DictLimits) (id : StrId) (bytes : Bytes) (req : Requirements) :
    flushedOf hashes (SegmentDicts.snapshot id (Stored.ofValue hashes limits bytes req)) =
      { fullLen := bytes.length, check := check16 hashes bytes, blobRequired := req.blob
        hotHard := req.hotHard, hotSoft := !req.hotHard && req.hotSoft } := by
  obtain ⟨blob, hard, soft⟩ := req
  by_cases htrunc : bytes.length > limits.truncateLimit <;> cases hard <;> cases soft <;>
    simp [flushedOf, SegmentDicts.snapshot, Stored.ofValue, check16, htrunc]

theorem getElem?_flushed_afterFlush (hashes : Hashes) (interner : Interner) (id : StrId) :
    (interner.afterFlush hashes).flushed[id]? =
      match interner.window.entries[id]? with
      | some stored => some (flushedOf hashes (SegmentDicts.snapshot id stored))
      | none => interner.flushed[id]? := by
  rw [afterFlush, foldl_flushEntry_fst]
  cases hw : interner.window.entries[id]? with
  | some stored =>
    have hmem : SegmentDicts.snapshot id stored ∈ interner.window.snapshots :=
      List.mem_map.mpr ⟨(id, stored), Std.TreeMap.mem_toList_iff_getElem?_eq_some.mpr hw, rfl⟩
    have hkeys : interner.window.snapshots.map EntrySnapshot.strId =
        interner.window.entries.keys := by
      rw [SegmentDicts.snapshots, List.map_map, ← Std.TreeMap.map_fst_toList_eq_keys]
      rfl
    exact TreeMap.getElem?_insertAll_of_mem (by rw [hkeys]; exact TreeMap.nodup_keys _) hmem _
  | none =>
    refine TreeMap.getElem?_insertAll_of_notMem (fun snap hsnap he => ?_) _
    obtain ⟨⟨j, stored⟩, hmem, rfl⟩ := List.mem_map.mp hsnap
    have hget := Std.TreeMap.mem_toList_iff_getElem?_eq_some.mp hmem
    have hji : j = id := he
    rw [hji, hw] at hget
    exact absurd hget (by simp)

theorem afterFlush_window (hsound : Sound hashes V interner) :
    (interner.afterFlush hashes).limits = interner.limits ∧
      ∀ id : StrId, (interner.afterFlush hashes).window.entries[id]? =
        (interner.hotPinned[id]?).map fun bytes =>
          Stored.ofValue hashes interner.limits bytes { hotHard := true } := by
  have hpinned : ∀ entry ∈ interner.hotPinned.toList,
      interner.hotPinned[entry.1]? = some entry.2 := fun entry hentry =>
    Std.TreeMap.mem_toList_iff_getElem?_eq_some.mp hentry
  have hmap : (interner.hotPinned.toList.map Prod.snd).map (StrId.of hashes) =
      interner.hotPinned.keys.map some := by
    rw [← Std.TreeMap.map_fst_toList_eq_keys, List.map_map, List.map_map]
    exact List.map_congr_left fun entry hentry =>
      (hsound.pinned entry.1 entry.2 (hpinned entry hentry)).2.1
  have hof : ∀ v ∈ interner.hotPinned.toList.map Prod.snd,
      ∃ id : StrId, interner.hotPinned[id]? = some v := by
    intro v hv
    obtain ⟨entry, hentry, rfl⟩ := List.mem_map.mp hv
    exact ⟨entry.1, hpinned entry hentry⟩
  obtain ⟨hlimits, hmem, hrest⟩ := repin_spec
    (interner.hotPinned.toList.map Prod.snd) (SegmentDicts.new interner.limits)
    (fun v hv => by
      obtain ⟨id, hid⟩ := hof v hv
      rw [(hsound.pinned id v hid).2.1]
      exact Option.some_ne_none _)
    (fun v hv => by
      obtain ⟨id, hid⟩ := hof v hv
      exact (hsound.pinned id v hid).2.2.1)
    (by
      rw [hmap]
      exact (TreeMap.nodup_keys _).map (fun _ _ h => Option.some.inj h))
    (fun v _ id _ => by simp [SegmentDicts.new])
  refine ⟨hlimits, fun id => ?_⟩
  cases hget : interner.hotPinned[id]? with
  | some bytes =>
    have hin : bytes ∈ interner.hotPinned.toList.map Prod.snd :=
      List.mem_map.mpr ⟨(id, bytes), Std.TreeMap.mem_toList_iff_getElem?_eq_some.mpr hget, rfl⟩
    exact hmem bytes hin id (hsound.pinned id bytes hget).2.1
  | none =>
    refine (hrest id (fun v hv he => ?_)).trans (by simp [SegmentDicts.new])
    obtain ⟨j, hj⟩ := hof v hv
    rw [(hsound.pinned j v hj).2.1] at he
    rw [Option.some.inj he, hget] at hj
    exact absurd hj (by simp)

theorem Sound.afterFlush (hsound : Sound hashes V interner) :
    Sound hashes V (interner.afterFlush hashes) := by
  obtain ⟨hlimits, hentries⟩ := afterFlush_window hsound
  have hwindow_limits : (interner.afterFlush hashes).window.limits = interner.limits := hlimits
  refine ⟨fun id stored hget => ?_, fun id flushed hget => ?_, fun id v hget => ?_, ?_⟩
  · rw [hentries] at hget
    obtain ⟨bytes, hpin, rfl⟩ := Option.map_eq_some_iff.mp hget
    obtain ⟨hV, hid, hov, -⟩ := hsound.pinned id bytes hpin
    rw [hwindow_limits]
    refine ⟨bytes, hV, ⟨hid, rfl, ?_⟩⟩
    rw [hov]
    rfl
  · rw [getElem?_flushed_afterFlush] at hget
    rw [hlimits]
    cases hw : interner.window.entries[id]? with
    | none =>
      rw [hw] at hget
      exact hsound.flushed id flushed hget
    | some stored =>
      rw [hw] at hget
      obtain rfl := Option.some.inj hget
      obtain ⟨bytes, hV, hentry⟩ := hsound.window id stored hw
      refine ⟨bytes, hV, ?_⟩
      rw [hentry.stored_eq, flushedOf_snapshot]
      exact ⟨hentry.id_eq, rfl, rfl, hentry.calm⟩
  · obtain ⟨hV, hid, hov, -⟩ := hsound.pinned id v hget
    rw [hlimits]
    refine ⟨hV, hid, hov, ?_⟩
    have hget' : interner.hotPinned[id]? = some v := hget
    have hentry := hentries id
    rw [hget'] at hentry
    rw [reqOf_of_window _ hentry]
    rfl
  · rw [hlimits]
    exact foldl_flushEntry_snd interner.limits interner.window.snapshots _ hsound.stats

end Interner

end Kronika.Writer
