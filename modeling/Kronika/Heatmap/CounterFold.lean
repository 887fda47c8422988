/-
The counter samples of one entity on a heatmap grid.

A sample outside the interval that is known so far extends it by one span, and a sample inside it
adds none.  The samples next to the range add a span at either end, when all rows have been seen.
-/
import Kronika.Heatmap.Buckets
import Kronika.Library.Spans

namespace Kronika.Heatmap

open Library

/-! ## Values -/

/-- The operations on doubles that the fold uses. -/
structure CounterFloats (V : Type) where
  zero : V
  add : V → V → V
  sub : V → V → V
  less : V → V → Bool
  ofElapsed : Nat → V

structure Sample (V : Type) where
  ts : Int64
  value : V

def maxCounterGapUs : Int := 15 * 60 * 1000000

/-! ## Cells -/

/-- A weighted rate of the spans of a column. -/
structure CounterCell (V : Type) where
  delta : V
  elapsedUs : V

def columnOfSpan (previousTs : Option Int64) (timestamp : Int64) (range : TimeRange)
    (columns : Nat) : Nat :=
  let middle := match previousTs with
    | some previous => if previous < timestamp then previous + (timestamp - previous) / 2
      else timestamp
    | none => timestamp
  columnOf (if middle < range.fromTs then range.fromTs else middle) range columns

section Cells

variable {V : Type} (floats : CounterFloats V) (range : TimeRange)

/-- `GridCells::observe_span` of a grid of counters. -/
def observeSpan (cells : List (CounterCell V)) (previous current : Sample V) :
    List (CounterCell V) :=
  let elapsed := current.ts.toInt - previous.ts.toInt
  if 1 ≤ elapsed ∧ elapsed ≤ maxCounterGapUs then
    let delta := floats.sub current.value previous.value
    if floats.less delta floats.zero then cells
    else
      cells.modify (columnOfSpan (some previous.ts) current.ts range cells.length) fun cell =>
        { delta := floats.add cell.delta delta
          elapsedUs := floats.add cell.elapsedUs (floats.ofElapsed elapsed.toNat) }
  else cells

/-! ## Windows -/

/-- The samples that a window has seen: how many, the first, the last, and the greatest value. -/
structure Obs (V : Type) where
  count : Nat
  first : Sample V
  last : Sample V
  maxValue : V

def Obs.default : Obs V where
  count := 0
  first := ⟨0, floats.zero⟩
  last := ⟨0, floats.zero⟩
  maxValue := floats.zero

def Obs.observe (window : Obs V) (sample : Sample V) : Obs V :=
  if window.count = 0 then ⟨1, sample, sample, sample.value⟩
  else
    { count := min (window.count + 1) (2 ^ 32 - 1)
      first := if sample.ts < window.first.ts then sample else window.first
      last := if window.last.ts ≤ sample.ts then sample else window.last
      maxValue := if floats.less window.maxValue sample.value then sample.value
        else window.maxValue }

/-- The span that a sample hands over: from itself to the first sample, or from the last one to
itself. -/
def handed (window : Obs V) (sample : Sample V) : Option (Sample V × Sample V) :=
  if window.count = 0 then none
  else if sample.ts < window.first.ts then some (sample, window.first)
  else if window.last.ts < sample.ts then some (window.last, sample)
  else none

/-! ## The fold of an entity -/

/-- Which side of the range a row falls on. -/
inductive Edge where
  | before
  | after
deriving DecidableEq

def Edge.of (timestamp : Int64) (range : TimeRange) : Option Edge :=
  if timestamp < range.fromTs then some .before
  else if range.toExclusive ≤ timestamp then some .after
  else none

/-- The cells and the window of an entity, and the samples next to the range. -/
structure EntityFold (V : Type) where
  window : Obs V
  cells : List (CounterCell V)
  before : Option (Sample V)
  after : Option (Sample V)

def EntityFold.new (columns : Nat) : EntityFold V where
  window := .default floats
  cells := List.replicate columns ⟨floats.zero, floats.zero⟩
  before := none
  after := none

/-- `advance`: folds a sample of the range into the grid and the window. -/
def EntityFold.advance (fold : EntityFold V) (sample : Sample V) : EntityFold V :=
  { fold with
    cells := match handed fold.window sample with
      | some (previous, current) => observeSpan floats range fold.cells previous current
      | none => fold.cells
    window := fold.window.observe floats sample }

/-- `observe_edge`: keeps the latest sample before the range and the earliest one after it. -/
def EntityFold.observeEdge (fold : EntityFold V) (sample : Sample V) (edge : Edge) :
    EntityFold V :=
  match edge with
  | .before =>
    if fold.before.all (·.ts ≤ sample.ts) then { fold with before := some sample } else fold
  | .after =>
    if fold.after.all (sample.ts < ·.ts) then { fold with after := some sample } else fold

def admitted (timestamp : Int64) : Bool :=
  saturatingAdd range.fromTs.toInt (-maxCounterGapUs) ≤ timestamp.toInt &&
    timestamp.toInt ≤ saturatingAdd range.toExclusive.toInt maxCounterGapUs

/-- A row of the entity, as the scan meets it. -/
def EntityFold.scan (fold : EntityFold V) (sample : Sample V) : EntityFold V :=
  if admitted range sample.ts then
    match Edge.of sample.ts range with
    | some edge => fold.observeEdge sample edge
    | none => fold.advance floats range sample
  else fold

/-- The spans that are handed over at the end, if a row of the range has been seen. -/
def EntityFold.closing (fold : EntityFold V) : List (Sample V × Sample V) :=
  if fold.window.count = 0 then []
  else
    (fold.before.map fun before => (before, fold.window.first)).toList ++
      (fold.after.map fun after => (fold.window.last, after)).toList

/-- `close_edges`. -/
def EntityFold.closeEdges (fold : EntityFold V) : List (CounterCell V) :=
  fold.closing.foldl (fun cells span => observeSpan floats range cells span.1 span.2) fold.cells

def counted (sample : Sample V) : Bool :=
  admitted range sample.ts && (Edge.of sample.ts range).isNone

def EntityFold.handedBy (fold : EntityFold V) (sample : Sample V) :
    Option (Sample V × Sample V) :=
  if counted range sample then handed fold.window sample else none

/-- The spans that the rows hand over, in the order of the calls, and then the closing ones. -/
def EntityFold.spans (fold : EntityFold V) : List (Sample V) → List (Sample V × Sample V)
  | [] => fold.closing
  | sample :: samples =>
    (fold.handedBy range sample).toList ++ (fold.scan floats range sample).spans samples

end Cells

/-! ## What the spans cover -/

section Covered

variable {V : Type} {floats : CounterFloats V} {range : TimeRange} {fold : EntityFold V}
  {spans : List (Sample V × Sample V)} {seen : List (Sample V)} {sample : Sample V}

def times (span : Sample V × Sample V) : Int × Int := (span.1.ts.toInt, span.2.ts.toInt)

/-- The window has the first and the last of the samples seen. -/
structure Extremes (window : Obs V) (seen : List (Sample V)) : Prop where
  first_mem : window.first ∈ seen
  last_mem : window.last ∈ seen
  bounds : ∀ sample ∈ seen,
    window.first.ts.toInt ≤ sample.ts.toInt ∧ sample.ts.toInt ≤ window.last.ts.toInt

variable {window : Obs V}

theorem Extremes.first_le_last (h : Extremes window seen) :
    window.first.ts.toInt ≤ window.last.ts.toInt :=
  (h.bounds window.first h.first_mem).2

/-- The spans tile the interval of the samples of the range that were seen. -/
structure Grown (range : TimeRange) (fold : EntityFold V) (spans : List (Sample V × Sample V))
    (seen : List (Sample V)) : Prop where
  unseen : fold.window.count = 0 → seen = [] ∧ spans = []
  extremes : fold.window.count ≠ 0 → Extremes fold.window seen
  tiles : fold.window.count ≠ 0 →
    Spans.Tiles (spans.map times) fold.window.first.ts.toInt fold.window.last.ts.toInt
  ends : ∀ span ∈ spans, span.1 ∈ seen ∧ span.2 ∈ seen
  inside : ∀ sample ∈ seen,
    range.fromTs.toInt ≤ sample.ts.toInt ∧ sample.ts.toInt < range.toExclusive.toInt
  before_lt : ∀ before, fold.before = some before → before.ts.toInt < range.fromTs.toInt
  after_le : ∀ after, fold.after = some after → range.toExclusive.toInt ≤ after.ts.toInt

variable {timestamp : Int64}

theorem Edge.of_eq_none (h : Edge.of timestamp range = none) :
    range.fromTs.toInt ≤ timestamp.toInt ∧ timestamp.toInt < range.toExclusive.toInt := by
  rw [Edge.of] at h
  split_ifs at h with hbefore hafter
  rw [Int64.lt_iff_toInt_lt] at hbefore
  rw [Int64.le_iff_toInt_le] at hafter
  omega

theorem Edge.of_eq_before (h : Edge.of timestamp range = some .before) :
    timestamp.toInt < range.fromTs.toInt := by
  rw [Edge.of] at h
  split_ifs at h with hbefore hafter
  · exact Int64.lt_iff_toInt_lt.mp hbefore
  · cases h

theorem Edge.of_eq_after (h : Edge.of timestamp range = some .after) :
    range.toExclusive.toInt ≤ timestamp.toInt := by
  rw [Edge.of] at h
  split_ifs at h with hbefore hafter
  · cases h
  · exact Int64.le_iff_toInt_le.mp hafter

theorem extremes_first (h : fold.window.count = 0) :
    Extremes (fold.window.observe floats sample) [sample] := by
  rw [Obs.observe, if_pos h]
  refine ⟨List.mem_singleton_self _, List.mem_singleton_self _, fun other hother => ?_⟩
  rw [List.mem_singleton.mp hother]
  exact ⟨le_refl _, le_refl _⟩

theorem first_observe (h : window.count ≠ 0) :
    (window.observe floats sample).first =
      if sample.ts < window.first.ts then sample else window.first := by
  rw [Obs.observe, if_neg h]

theorem last_observe (h : window.count ≠ 0) :
    (window.observe floats sample).last =
      if window.last.ts ≤ sample.ts then sample else window.last := by
  rw [Obs.observe, if_neg h]

theorem count_observe (window : Obs V) : (window.observe floats sample).count ≠ 0 := by
  rw [Obs.observe]
  by_cases h : window.count = 0
  · rw [if_pos h]
    exact Nat.one_ne_zero
  · rw [if_neg h]
    dsimp only
    omega

theorem Extremes.observe (hcount : window.count ≠ 0) (h : Extremes window seen) :
    Extremes (window.observe floats sample) (seen ++ [sample]) := by
  have hself : sample ∈ seen ++ [sample] := List.mem_append_right _ (List.mem_singleton_self _)
  refine ⟨?_, ?_, fun other hother => ?_⟩
  · rw [first_observe hcount]
    split_ifs
    · exact hself
    · exact List.mem_append_left _ h.first_mem
  · rw [last_observe hcount]
    split_ifs
    · exact hself
    · exact List.mem_append_left _ h.last_mem
  · have hbounds : other = sample ∨
        window.first.ts.toInt ≤ other.ts.toInt ∧ other.ts.toInt ≤ window.last.ts.toInt := by
      rcases List.mem_append.mp hother with hmem | hmem
      · exact Or.inr (h.bounds other hmem)
      · exact Or.inl (List.mem_singleton.mp hmem)
    rw [first_observe hcount, last_observe hcount]
    split_ifs with hfirst hlast hlast
    all_goals rw [Int64.le_iff_toInt_le] at hlast
    all_goals rw [Int64.lt_iff_toInt_lt] at hfirst
    all_goals rcases hbounds with rfl | hbounds
    all_goals omega

theorem handed_ends (h : window.count ≠ 0 → Extremes window seen)
    {span : Sample V × Sample V} (hspan : handed window sample = some span) :
    span.1 ∈ seen ++ [sample] ∧ span.2 ∈ seen ++ [sample] := by
  have hself : sample ∈ seen ++ [sample] := List.mem_append_right _ (List.mem_singleton_self _)
  rw [handed] at hspan
  by_cases hcount : window.count = 0
  · rw [if_pos hcount] at hspan
    cases hspan
  · have hextremes := h hcount
    split_ifs at hspan
    · rw [← Option.some.inj hspan]
      exact ⟨hself, List.mem_append_left _ hextremes.first_mem⟩
    · rw [← Option.some.inj hspan]
      exact ⟨List.mem_append_left _ hextremes.last_mem, hself⟩

theorem tiles_observe (hcount : window.count ≠ 0) (h : Extremes window seen)
    (htiles : Spans.Tiles (spans.map times) window.first.ts.toInt window.last.ts.toInt) :
    Spans.Tiles ((spans ++ (handed window sample).toList).map times)
      (window.observe floats sample).first.ts.toInt
      (window.observe floats sample).last.ts.toInt := by
  have hle := h.first_le_last
  rw [first_observe hcount, last_observe hcount, handed, if_neg hcount, List.map_append]
  by_cases hfirst : sample.ts < window.first.ts
  · -- The sample is before the first one, and so before the last one.
    have hlt := Int64.lt_iff_toInt_lt.mp hfirst
    have hlast : ¬window.last.ts ≤ sample.ts := by
      rw [Int64.le_iff_toInt_le]
      omega
    rw [if_pos hfirst, if_neg hlast, if_pos hfirst]
    exact htiles.extend_left hle hlt
  · rw [if_neg hfirst, if_neg hfirst]
    by_cases hlast : window.last.ts < sample.ts
    · have hlt := Int64.lt_iff_toInt_lt.mp hlast
      have hle' : window.last.ts ≤ sample.ts := Int64.le_of_lt hlast
      rw [if_pos hlast, if_pos hle']
      exact htiles.extend_right hle hlt
    · rw [if_neg hlast, Option.toList_none, List.map_nil, List.append_nil]
      rw [Int64.lt_iff_toInt_lt] at hlast
      split_ifs with hequal
      · rw [Int64.le_iff_toInt_le] at hequal
        have heq : sample.ts.toInt = window.last.ts.toInt := by omega
        rw [heq]
        exact htiles
      · exact htiles

theorem Grown.advance (h : Grown range fold spans seen)
    (hinside : range.fromTs.toInt ≤ sample.ts.toInt ∧ sample.ts.toInt < range.toExclusive.toInt) :
    Grown range (fold.advance floats range sample)
      (spans ++ (handed fold.window sample).toList) (seen ++ [sample]) where
  unseen hzero := absurd hzero (count_observe _)
  extremes _ := by
    show Extremes (fold.window.observe floats sample) _
    by_cases hcount : fold.window.count = 0
    · rw [(h.unseen hcount).1]
      exact extremes_first hcount
    · exact (h.extremes hcount).observe hcount
  tiles _ := by
    show Spans.Tiles _ (fold.window.observe floats sample).first.ts.toInt
      (fold.window.observe floats sample).last.ts.toInt
    by_cases hcount : fold.window.count = 0
    · rw [(h.unseen hcount).2, handed, if_pos hcount, Obs.observe, if_pos hcount]
      exact Spans.tiles_nil _
    · exact tiles_observe hcount (h.extremes hcount) (h.tiles hcount)
  ends span hspan := by
    rcases List.mem_append.mp hspan with hmem | hmem
    · have hends := h.ends span hmem
      exact ⟨List.mem_append_left _ hends.1, List.mem_append_left _ hends.2⟩
    · exact handed_ends h.extremes (Option.mem_toList.mp hmem)
  inside other hother := by
    rcases List.mem_append.mp hother with hmem | hmem
    · exact h.inside other hmem
    · rw [List.mem_singleton.mp hmem]
      exact hinside
  before_lt := h.before_lt
  after_le := h.after_le

theorem Grown.observeEdge (h : Grown range fold spans seen) {edge : Edge}
    (hedge : Edge.of sample.ts range = some edge) :
    Grown range (fold.observeEdge sample edge) spans seen := by
  cases edge with
  | before =>
    rw [EntityFold.observeEdge]
    split_ifs
    · refine ⟨h.unseen, h.extremes, h.tiles, h.ends, h.inside, fun before hbefore => ?_,
        h.after_le⟩
      rw [← Option.some.inj hbefore]
      exact Edge.of_eq_before hedge
    · exact h
  | after =>
    rw [EntityFold.observeEdge]
    split_ifs
    · refine ⟨h.unseen, h.extremes, h.tiles, h.ends, h.inside, h.before_lt,
        fun after hafter => ?_⟩
      rw [← Option.some.inj hafter]
      exact Edge.of_eq_after hedge
    · exact h

theorem Grown.scan (floats : CounterFloats V) (h : Grown range fold spans seen)
    (sample : Sample V) :
    Grown range (fold.scan floats range sample) (spans ++ (fold.handedBy range sample).toList)
      (seen ++ if counted range sample then [sample] else []) := by
  rw [EntityFold.scan, EntityFold.handedBy, counted]
  by_cases hadmitted : admitted range sample.ts = true
  · rw [hadmitted, Bool.true_and]
    cases hedge : Edge.of sample.ts range with
    | none => exact h.advance (Edge.of_eq_none hedge)
    | some edge =>
      rw [Option.isNone_some, if_neg Bool.false_ne_true, if_neg Bool.false_ne_true,
        Option.toList_none, List.append_nil, List.append_nil]
      exact h.observeEdge hedge
  · rw [if_neg hadmitted, (Bool.not_eq_true _).mp hadmitted, Bool.false_and,
      if_neg Bool.false_ne_true, if_neg Bool.false_ne_true, Option.toList_none, List.append_nil,
      List.append_nil]
    exact h

theorem grown_new (columns : Nat) : Grown range (EntityFold.new floats columns) [] [] where
  unseen _ := ⟨rfl, rfl⟩
  extremes hcount := absurd rfl hcount
  tiles hcount := absurd rfl hcount
  ends span hspan := absurd hspan List.not_mem_nil
  inside sample hsample := absurd hsample List.not_mem_nil
  before_lt _ hbefore := absurd hbefore (by simp [EntityFold.new])
  after_le after hafter := absurd hafter (by simp [EntityFold.new])

/-! ## The closing spans -/

def EntityFold.used (fold : EntityFold V) (seen : List (Sample V)) : List (Sample V) :=
  if fold.window.count = 0 then [] else seen ++ (fold.before.toList ++ fold.after.toList)

/-- All spans are apart, and they have the instants between the samples that are used. -/
structure OnceCovered (spans : List (Sample V × Sample V)) (used : List (Sample V)) : Prop where
  apart : (spans.map times).Pairwise Spans.Apart
  ends : ∀ span ∈ spans, span.1 ∈ used ∧ span.2 ∈ used
  covers : ∀ t, (∃ span ∈ spans, span.1.ts.toInt ≤ t ∧ t < span.2.ts.toInt) ↔
    (∃ sample ∈ used, sample.ts.toInt ≤ t) ∧ ∃ sample ∈ used, t < sample.ts.toInt

theorem onceCovered_nil : OnceCovered ([] : List (Sample V × Sample V)) [] where
  apart := List.Pairwise.nil
  ends span hspan := absurd hspan List.not_mem_nil
  covers t := by simp

/-- Spans that tile the interval from one of their samples to another. -/
structure Tiled (spans : List (Sample V × Sample V)) (used : List (Sample V))
    (first last : Sample V) : Prop where
  tiles : Spans.Tiles (spans.map times) first.ts.toInt last.ts.toInt
  ends : ∀ span ∈ spans, span.1 ∈ used ∧ span.2 ∈ used
  first_mem : first ∈ used
  last_mem : last ∈ used
  bounds : ∀ sample ∈ used,
    first.ts.toInt ≤ sample.ts.toInt ∧ sample.ts.toInt ≤ last.ts.toInt

section Tiled

variable {used : List (Sample V)} {first last : Sample V}

theorem Tiled.onceCovered (h : Tiled spans used first last) : OnceCovered spans used where
  apart := h.tiles.apart
  ends := h.ends
  covers t := by
    have hspan : (∃ span ∈ spans, span.1.ts.toInt ≤ t ∧ t < span.2.ts.toInt) ↔
        ∃ span ∈ spans.map times, span.1 ≤ t ∧ t < span.2 := by
      simp only [List.mem_map, exists_exists_and_eq_and, times]
    rw [hspan, h.tiles.mem_iff]
    constructor
    · intro hinside
      exact ⟨⟨first, h.first_mem, hinside.1⟩, ⟨last, h.last_mem, hinside.2⟩⟩
    · intro hbetween
      obtain ⟨⟨low, hlow, hle⟩, ⟨high, hhigh, hlt⟩⟩ := hbetween
      have hlow' := h.bounds low hlow
      have hhigh' := h.bounds high hhigh
      omega

theorem ends_append {span : Sample V × Sample V} (h : ∀ span ∈ spans, span.1 ∈ used ∧ span.2 ∈ used)
    (hspan : span.1 ∈ used ++ [sample] ∧ span.2 ∈ used ++ [sample]) :
    ∀ other ∈ spans ++ [span], other.1 ∈ used ++ [sample] ∧ other.2 ∈ used ++ [sample] := by
  intro other hother
  rcases List.mem_append.mp hother with hmem | hmem
  · exact ⟨List.mem_append_left _ (h other hmem).1, List.mem_append_left _ (h other hmem).2⟩
  · rw [List.mem_singleton.mp hmem]
    exact hspan

theorem Tiled.before (h : Tiled spans used first last) (hlt : sample.ts.toInt < first.ts.toInt) :
    Tiled (spans ++ [(sample, first)]) (used ++ [sample]) sample last where
  tiles := by
    rw [List.map_append]
    exact h.tiles.extend_left (h.bounds first h.first_mem).2 hlt
  ends := ends_append h.ends
    ⟨List.mem_append_right _ (List.mem_singleton_self _), List.mem_append_left _ h.first_mem⟩
  first_mem := List.mem_append_right _ (List.mem_singleton_self _)
  last_mem := List.mem_append_left _ h.last_mem
  bounds other hother := by
    have hle := (h.bounds first h.first_mem).2
    rcases List.mem_append.mp hother with hmem | hmem
    · have hother := h.bounds other hmem
      omega
    · rw [List.mem_singleton.mp hmem]
      omega

theorem Tiled.after (h : Tiled spans used first last) (hlt : last.ts.toInt < sample.ts.toInt) :
    Tiled (spans ++ [(last, sample)]) (used ++ [sample]) first sample where
  tiles := by
    rw [List.map_append]
    exact h.tiles.extend_right (h.bounds first h.first_mem).2 hlt
  ends := ends_append h.ends
    ⟨List.mem_append_left _ h.last_mem, List.mem_append_right _ (List.mem_singleton_self _)⟩
  first_mem := List.mem_append_left _ h.first_mem
  last_mem := List.mem_append_right _ (List.mem_singleton_self _)
  bounds other hother := by
    have hle := (h.bounds first h.first_mem).2
    rcases List.mem_append.mp hother with hmem | hmem
    · have hother := h.bounds other hmem
      omega
    · rw [List.mem_singleton.mp hmem]
      omega

end Tiled

theorem Grown.closing (h : Grown range fold spans seen) :
    OnceCovered (spans ++ fold.closing) (fold.used seen) := by
  rw [EntityFold.closing, EntityFold.used]
  by_cases hcount : fold.window.count = 0
  · rw [if_pos hcount, if_pos hcount, (h.unseen hcount).2]
    exact onceCovered_nil
  rw [if_neg hcount, if_neg hcount, ← List.append_assoc, ← List.append_assoc]
  have hextremes := h.extremes hcount
  have hfirst := h.inside _ hextremes.first_mem
  have hlast := h.inside _ hextremes.last_mem
  have hwindow : Tiled spans seen fold.window.first fold.window.last :=
    ⟨h.tiles hcount, h.ends, hextremes.first_mem, hextremes.last_mem, hextremes.bounds⟩
  have hclosed : ∃ first, Tiled
      (spans ++ (fold.before.map fun before => (before, fold.window.first)).toList)
      (seen ++ fold.before.toList) first fold.window.last := by
    cases hbefore : fold.before with
    | none =>
      refine ⟨fold.window.first, ?_⟩
      rw [Option.map_none, Option.toList_none, Option.toList_none, List.append_nil, List.append_nil]
      exact hwindow
    | some before =>
      have hlt := h.before_lt before hbefore
      exact ⟨before, hwindow.before (by omega)⟩
  obtain ⟨first, htiled⟩ := hclosed
  cases hafter : fold.after with
  | none =>
    rw [Option.map_none, Option.toList_none, Option.toList_none, List.append_nil, List.append_nil]
    exact htiled.onceCovered
  | some after =>
    have hlt : fold.window.last.ts.toInt < after.ts.toInt :=
      lt_of_lt_of_le hlast.2 (h.after_le after hafter)
    exact (htiled.after hlt).onceCovered

theorem Grown.all (floats : CounterFloats V) (h : Grown range fold spans seen)
    (samples : List (Sample V)) :
    OnceCovered (spans ++ fold.spans floats range samples)
      ((samples.foldl (EntityFold.scan floats range) fold).used
        (seen ++ samples.filter (counted range))) := by
  induction samples generalizing fold spans seen with
  | nil =>
    rw [List.filter_nil, List.append_nil]
    exact h.closing
  | cons sample samples ih =>
    have hnext := ih (h.scan floats sample)
    rw [EntityFold.spans, ← List.append_assoc, List.filter_cons]
    by_cases hcounted : counted range sample = true
    · rw [if_pos hcounted] at hnext ⊢
      rw [List.append_assoc, List.append_assoc] at hnext
      rw [List.append_assoc]
      exact hnext
    · rw [if_neg hcounted] at hnext ⊢
      rw [List.append_nil] at hnext
      exact hnext

theorem cells_observeEdge (fold : EntityFold V) (sample : Sample V) (edge : Edge) :
    (fold.observeEdge sample edge).cells = fold.cells := by
  cases edge with
  | before =>
    rw [EntityFold.observeEdge]
    split_ifs
    all_goals rfl
  | after =>
    rw [EntityFold.observeEdge]
    split_ifs
    all_goals rfl

theorem cells_spans (fold : EntityFold V) (samples : List (Sample V)) :
    (samples.foldl (EntityFold.scan floats range) fold).closeEdges floats range =
      (fold.spans floats range samples).foldl
        (fun cells span => observeSpan floats range cells span.1 span.2) fold.cells := by
  induction samples generalizing fold with
  | nil => rfl
  | cons sample samples ih =>
    rw [List.foldl_cons, ih, EntityFold.spans, List.foldl_append]
    congr 1
    rw [EntityFold.scan, EntityFold.handedBy, counted]
    by_cases hadmitted : admitted range sample.ts = true
    · rw [hadmitted]
      cases hedge : Edge.of sample.ts range with
      | none =>
        rw [EntityFold.advance]
        cases handed fold.window sample
        all_goals rfl
      | some edge =>
        show (fold.observeEdge sample edge).cells = _
        rw [cells_observeEdge]
        rfl
    · rw [(Bool.not_eq_true _).mp hadmitted]
      rfl

/-- Whatever the order in which the rows of an entity arrive, the spans that are handed over are
apart and cover the time between the samples that are used, and the cells are the fold of these
spans. -/
theorem spans_onceCovered (floats : CounterFloats V) (range : TimeRange) (columns : Nat)
    (samples : List (Sample V)) :
    OnceCovered ((EntityFold.new floats columns).spans floats range samples)
        ((samples.foldl (EntityFold.scan floats range) (.new floats columns)).used
          (samples.filter (counted range))) ∧
      (samples.foldl (EntityFold.scan floats range) (.new floats columns)).closeEdges floats
          range =
        ((EntityFold.new floats columns).spans floats range samples).foldl
          (fun cells span => observeSpan floats range cells span.1 span.2)
          (EntityFold.new floats columns).cells := by
  constructor
  · exact (grown_new columns).all floats samples
  · exact cells_spans _ samples

end Covered

end Kronika.Heatmap
