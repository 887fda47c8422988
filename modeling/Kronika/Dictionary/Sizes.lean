/-
The reported sizes are sums over the book.

`SegmentDicts.stats` counts its entries one by one.  `Interner.stats` adds the
sizes of the flushed records and of the window and takes away what both hold.
Both come to the sum of `Record.stats` over the book, so dictionaries with equal
books report equal sizes, and no counter of the interner is taken below zero.
-/
import Kronika.Dictionary.Books

namespace Kronika
namespace Format

open Dictionary

namespace SegmentDicts

variable {hashes : Hashes} {V : Set Bytes} {dicts : SegmentDicts}

theorem countEntry_eq (stats : DictStats) (stored : Stored) :
    countEntry stats stored = stats + countEntry 0 stored := by
  unfold countEntry
  split
  · ext <;> simp [Stats.add_def, Stats.zero_def, Writer.addStats]
  · by_cases hhot : stored.isHot = true <;>
      ext <;> simp [Stats.add_def, Stats.zero_def, Writer.addStats, hhot]

theorem stats_eq_sumOver (dicts : SegmentDicts) :
    dicts.stats = TreeMap.sumOver (fun _ stored => countEntry 0 stored) dicts.entries := by
  have hfold : ∀ (entries : List (StrId × Stored)) (start : DictStats),
      entries.foldl (fun stats entry => countEntry stats entry.2) start =
        start + (entries.map fun entry => countEntry 0 entry.2).sum := by
    intro entries
    induction entries with
    | nil => exact fun start => (add_zero start).symm
    | cons entry entries ih =>
      intro start
      rw [List.foldl_cons, ih, countEntry_eq, List.map_cons, List.sum_cons, add_assoc]
  rw [stats, Std.TreeMap.foldl_eq_foldl_toList, hfold]
  exact zero_add _

theorem countEntry_ofValue {limits : DictLimits} {bytes : Bytes} {req : Requirements}
    (hcalm : req.conflicts (limits.oversized bytes) = false) :
    countEntry 0 (Stored.ofValue hashes limits bytes req) =
      Record.stats limits
        ⟨bytes.length, Standing.ofRequirements (limits.oversized bytes) req⟩ := by
  have hlen : (if bytes.length > limits.truncateLimit then bytes.take limits.truncateLimit
      else bytes).length = min bytes.length limits.truncateLimit := by
    split
    · rw [List.length_take, Nat.min_comm]
    · exact (Nat.min_eq_left (by omega)).symm
  have hsha : (if bytes.length > limits.truncateLimit then some (hashes.sha256 bytes)
      else none).isSome = decide (limits.truncateLimit < bytes.length) := by
    by_cases h : bytes.length > limits.truncateLimit <;> simp [h]
  have hforced : Standing.ofRequirements (limits.oversized bytes) req = .forcedBlob ↔
      req.blob = true := by
    obtain ⟨blob, hard, soft⟩ := req
    cases limits.oversized bytes <;> cases blob <;> cases hard <;> cases soft <;> decide
  have hhot := Standing.isHot_ofRequirements hcalm
  have hov : Record.oversized limits
      ⟨bytes.length, Standing.ofRequirements (limits.oversized bytes) req⟩ =
        limits.oversized bytes := rfl
  simp only [countEntry, Record.stats, Stored.isHot, Stored.isBlob, Stored.ofValue, hlen, hsha,
    hforced, hov, hhot, Bool.or_eq_true]
  by_cases hblob : req.blob = true ∨ limits.oversized bytes = true
  · simp only [hblob]
    ext <;> simp [Stats.zero_def]
  · have hnot : (req.blob || limits.oversized bytes) = false := by
      simpa only [not_or, Bool.not_eq_true, Bool.or_eq_false_iff] using hblob
    have hcount : (if req.hotHard = true ∨ req.hotSoft = true then 1 else 0) =
        (req.hotHard || req.hotSoft).toNat := by
      cases req.hotHard <;> cases req.hotSoft <;> rfl
    ext <;> simp [hnot, hcount, Stats.zero_def]

theorem stats_eq_book (hsound : Sound hashes V dicts) {ids : Finset StrId}
    (hids : ∀ id, dicts.book id ≠ none → id ∈ ids) :
    dicts.stats = dicts.book.stats dicts.limits ids := by
  have hsupport : ∀ id : StrId, dicts.entries[id]? ≠ none → id ∈ ids := fun id h =>
    hids id (by simpa [book] using h)
  rw [stats_eq_sumOver, TreeMap.sumOver_eq_sum _ hsupport]
  refine Finset.sum_congr rfl fun id _ => ?_
  cases hget : dicts.entries[id]? with
  | none => simp only [book, hget, Option.map_none, TreeMap.contribution_none]
  | some stored =>
    obtain ⟨bytes, -, hentry⟩ := hsound id stored hget
    simp only [book, hget]
    rw [hentry.stored_eq]
    exact countEntry_ofValue hentry.calm

end SegmentDicts
end Format

namespace Writer

open Format Dictionary

theorem statsForFlushed_eq {flushed : Flushed} {limits : DictLimits}
    (hcalm : flushed.req.conflicts (decide (limits.blobThreshold ≤ flushed.fullLen)) = false) :
    statsForFlushed flushed limits = Record.stats limits ⟨flushed.fullLen,
      Standing.ofRequirements (decide (limits.blobThreshold ≤ flushed.fullLen)) flushed.req⟩ := by
  obtain ⟨len, check, blob, hard, soft⟩ := flushed
  revert hcalm
  by_cases hov : limits.blobThreshold ≤ len <;> cases blob <;> cases hard <;> cases soft <;>
    simp [statsForFlushed, Flushed.placement, Flushed.hot, Flushed.req, Record.stats,
      Record.oversized, Standing.ofRequirements, Standing.isHot, hov]

namespace Interner

variable {hashes : Hashes} {V : Set Bytes} {interner : Interner}

theorem removeStats_zero (stats : DictStats) : removeStats stats 0 = stats := by
  ext <;> exact Nat.sub_zero _

/-- What the window and the flushed records add together is what the book adds and
what they count twice. -/
theorem contribution_split (hsound : Sound hashes V interner) (id : StrId) :
    TreeMap.contribution (fun _ flushed => statsForFlushed flushed interner.limits) id
        interner.flushed[id]? +
      TreeMap.contribution (fun _ stored => SegmentDicts.countEntry 0 stored) id
        interner.window.entries[id]? =
    TreeMap.contribution (fun _ => Record.stats interner.limits) id (interner.book id) +
      TreeMap.contribution (fun j _ => TreeMap.contribution
          (fun _ flushed => statsForFlushed flushed interner.limits) j interner.flushed[j]?) id
        interner.window.entries[id]? := by
  cases hw : interner.window.entries[id]? with
  | some stored =>
    obtain ⟨bytes, -, hentry⟩ := hsound.window id stored hw
    rw [book_of_window _ hw, hentry.stored_eq]
    simp only [TreeMap.contribution_some]
    rw [SegmentDicts.countEntry_ofValue hentry.calm, add_comm]
    rfl
  | none =>
    cases hf : interner.flushed[id]? with
    | none => rw [book_of_none _ hw hf]; rfl
    | some flushed =>
      obtain ⟨bytes, -, hdesc⟩ := hsound.flushed id flushed hf
      rw [book_of_flushed _ hw hf]
      simp only [TreeMap.contribution_some, TreeMap.contribution_none]
      rw [statsForFlushed_eq (by rw [hdesc.fullLen]; exact hdesc.calm)]

theorem stats_eq_book (hsound : Sound hashes V interner) {ids : Finset StrId}
    (hids : ∀ id, interner.book id ≠ none → id ∈ ids) :
    interner.stats = interner.book.stats interner.limits ids := by
  have hwindow : ∀ id : StrId, interner.window.entries[id]? ≠ none → id ∈ ids := by
    intro id h
    obtain ⟨stored, hw⟩ := Option.ne_none_iff_exists'.mp h
    exact hids id (by rw [book_of_window _ hw]; exact Option.some_ne_none _)
  have hflushed : ∀ id : StrId, interner.flushed[id]? ≠ none → id ∈ ids := by
    intro id h
    obtain ⟨flushed, hf⟩ := Option.ne_none_iff_exists'.mp h
    cases hw : interner.window.entries[id]? with
    | some stored => exact hids id (by rw [book_of_window _ hw]; exact Option.some_ne_none _)
    | none => exact hids id (by rw [book_of_flushed _ hw hf]; exact Option.some_ne_none _)
  have htwice : (interner.window.snapshots.map fun snap => TreeMap.contribution
      (fun _ flushed => statsForFlushed flushed interner.limits) snap.strId
        interner.flushed[snap.strId]?).sum =
      TreeMap.sumOver (fun j _ => TreeMap.contribution
        (fun _ flushed => statsForFlushed flushed interner.limits) j interner.flushed[j]?)
          interner.window.entries := by
    rw [SegmentDicts.snapshots, List.map_map]
    rfl
  have hstep : interner.uncountFlushed = fun stats snap => removeStats stats
      (TreeMap.contribution (fun _ flushed => statsForFlushed flushed interner.limits)
        snap.strId interner.flushed[snap.strId]?) := by
    funext stats snap
    unfold uncountFlushed
    cases interner.flushed[snap.strId]? with
    | none => exact (removeStats_zero stats).symm
    | some previous => rfl
  have hsum : addStats interner.flushedStats interner.window.stats =
      interner.book.stats interner.limits ids + (interner.window.snapshots.map fun snap =>
        TreeMap.contribution (fun _ flushed => statsForFlushed flushed interner.limits)
          snap.strId interner.flushed[snap.strId]?).sum := by
    rw [htwice, ← Stats.add_def, hsound.stats, SegmentDicts.stats_eq_sumOver,
      TreeMap.sumOver_eq_sum _ hflushed, TreeMap.sumOver_eq_sum _ hwindow,
      TreeMap.sumOver_eq_sum _ hwindow, Book.stats, ← Finset.sum_add_distrib,
      ← Finset.sum_add_distrib]
    exact Finset.sum_congr rfl fun id _ => contribution_split hsound id
  rw [stats, hstep, hsum]
  exact TreeMap.foldl_remove Stats.removeStats_add _ _ _

end Interner
end Writer

end Kronika
