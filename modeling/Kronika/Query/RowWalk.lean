/-
Every matching row is on one page.

The scan from the cursor of a finding finds what the first scan found from there on, so
the pages that follow each other are the findings of the first scan.
-/
import Kronika.Query.RowPaging

namespace Kronika.Query

open Library

namespace PreparedRows

variable {prepared : PreparedRows} {plan : Plan} {layoutIndex : Nat} {position : Nat → Nat}
  {rows : List (Nat × Row)}

/-! ## The scan from a finding -/

theorem flatMap_split {α β : Type} {f : α → List β} {as : List α} {before after : List β} {b : β}
    (h : as.flatMap f = before ++ b :: after) :
    ∃ left a right front back, as = left ++ a :: right ∧ f a = front ++ b :: back ∧
      after = back ++ right.flatMap f := by
  induction as generalizing before with
  | nil => cases before <;> cases h
  | cons a as ih =>
    rw [List.flatMap_cons, List.append_eq_append_iff] at h
    rcases h with ⟨front, hbefore, hrest⟩ | ⟨back, ha, hrest⟩
    · obtain ⟨left, a', right, front', back, hsplit, hfound, hafter⟩ := ih hrest
      exact ⟨a :: left, a', right, front', back, by rw [hsplit]; rfl, hfound, hafter⟩
    · cases back with
      | nil =>
        obtain ⟨left, a', right, front', back, hsplit, hfound, hafter⟩ :=
          ih (show as.flatMap f = [] ++ b :: after from hrest.symm)
        exact ⟨a :: left, a', right, front', back, by rw [hsplit]; rfl, hfound, hafter⟩
      | cons b' back =>
        rw [List.cons_append, List.cons.injEq] at hrest
        exact ⟨[], a, as, before, back, rfl, by rw [ha, hrest.1], hrest.2⟩

theorem findings_split {before after : List (RowRecord × Cursor)} {finding : RowRecord × Cursor}
    (h : prepared.findings plan layoutIndex position rows = before ++ finding :: after) :
    ∃ left item right, rows = left ++ item :: right ∧
      finding = (recordOf prepared.segment plan item,
        { prepared.start with layoutIndex := layoutIndex, position := position item.1 }) ∧
      prepared.findings plan layoutIndex position right = after ∧
      prepared.findings plan layoutIndex position (item :: right) = finding :: after := by
  rw [findings, List.map_eq_append_iff] at h
  obtain ⟨_, found, hfilter, _, hfound⟩ := h
  obtain ⟨item, matched, rfl, hitem, hmatched⟩ := List.map_eq_cons_iff.mp hfound
  obtain ⟨_, tail, rfl, _, htail⟩ := List.filter_eq_append_iff.mp hfilter
  obtain ⟨left, right, rfl, _, haccepts, hright⟩ := List.filter_eq_cons_iff.mp htail
  have hafter : prepared.findings plan layoutIndex position right = after := by
    rw [findings, hright, hmatched]
  refine ⟨_ ++ left, item, right, (List.append_assoc ..).symm, hitem.symm, hafter, ?_⟩
  rw [← hafter, ← hitem, findings, List.filter_cons, if_pos haccepts]
  rfl

variable {layout : Plan × Nat}

theorem zipIdx_drop_split {plans : List Plan} {i : Nat} {left right : List (Plan × Nat)}
    (h : plans.zipIdx.drop i = left ++ layout :: right) :
    plans[layout.2]? = some layout.1 ∧ i ≤ layout.2 ∧
      plans.zipIdx.drop layout.2 = layout :: right ∧ ∀ other ∈ right, layout.2 < other.2 := by
  have hdrop : plans.zipIdx.drop (i + left.length) = layout :: right := by
    rw [← List.drop_drop, h, List.drop_left]
  have hget : plans.zipIdx[i + left.length]? = some layout := by
    rw [← List.head?_drop, hdrop, List.head?_cons]
  rw [List.getElem?_zipIdx] at hget
  obtain ⟨plan, hplan, rfl⟩ := Option.map_eq_some_iff.mp hget
  rw [Nat.zero_add] at hdrop ⊢
  refine ⟨hplan, Nat.le_add_right .., hdrop, ?_⟩
  intro other hmem
  obtain ⟨k, hk⟩ := List.getElem?_of_mem hmem
  have hlater : plans.zipIdx[i + left.length + (k + 1)]? = some other := by
    rw [← List.getElem?_drop, hdrop, List.getElem?_cons_succ, hk]
  rw [List.getElem?_zipIdx] at hlater
  obtain ⟨_, _, rfl⟩ := Option.map_eq_some_iff.mp hlater
  omega

theorem zipIdx_take_split {plans : List Plan} {i : Nat} {left right : List (Plan × Nat)}
    (h : (plans.zipIdx.take (i + 1)).reverse = left ++ layout :: right) :
    plans[layout.2]? = some layout.1 ∧ layout.2 ≤ i ∧
      (plans.zipIdx.take (layout.2 + 1)).reverse = layout :: right ∧
        ∀ other ∈ right, other.2 < layout.2 := by
  have htake : plans.zipIdx.take (i + 1) = right.reverse ++ layout :: left.reverse := by
    rw [← List.reverse_reverse (plans.zipIdx.take (i + 1)), h, List.reverse_append,
      List.reverse_cons, List.append_assoc, List.singleton_append]
  have hlen := congrArg List.length htake
  rw [List.length_take, List.length_append, List.length_cons, List.length_reverse] at hlen
  have hfront : plans.zipIdx.take (right.length + 1) = right.reverse ++ [layout] := by
    have htwice := congrArg (List.take (right.length + 1)) htake
    rw [List.take_take, Nat.min_eq_left (by omega), List.take_append, List.length_reverse,
      List.take_of_length_le (l := right.reverse) (by rw [List.length_reverse]; omega),
      Nat.add_sub_cancel_left] at htwice
    exact htwice
  have hget : ∀ (k : Nat) (other : Plan × Nat), (right.reverse ++ [layout])[k]? = some other →
      plans.zipIdx[k]? = some other := by
    intro k other hk
    rw [← hfront, List.getElem?_take] at hk
    split at hk
    · exact hk
    · cases hk
  have hlayout := hget right.length layout (by
    rw [List.getElem?_append_right (by rw [List.length_reverse]), List.length_reverse, Nat.sub_self]
    rfl)
  rw [List.getElem?_zipIdx] at hlayout
  obtain ⟨plan, hplan, rfl⟩ := Option.map_eq_some_iff.mp hlayout
  rw [Nat.zero_add]
  refine ⟨hplan, by omega, ?_, ?_⟩
  · rw [hfront, List.reverse_append, List.reverse_reverse, Nat.zero_add]
    rfl
  · intro other hmem
    obtain ⟨k, hk⟩ := List.getElem?_of_mem (List.mem_reverse.mpr hmem)
    have hlt : k < right.reverse.length := (List.getElem?_eq_some_iff.mp hk).1
    have hother := hget k other (by rw [List.getElem?_append_left hlt, hk])
    rw [List.getElem?_zipIdx] at hother
    obtain ⟨_, _, rfl⟩ := Option.map_eq_some_iff.mp hother
    rw [List.length_reverse] at hlt
    omega

/-- The plans count the rows of their layouts, and the start is at one of them. -/
structure Sound (prepared : PreparedRows) : Prop where
  rows : ∀ plan ∈ prepared.plans, plan.rows = (prepared.segment.rows plan.typeId).length
  tail : ∀ plan ∈ prepared.plans, plan.startRow ≤ plan.rows
  fits : ∀ plan ∈ prepared.plans, plan.rows < 2 ^ 64
  start : ∃ plan, prepared.plans[prepared.start.layoutIndex]? = some plan ∧
    plan.startRow ≤ prepared.start.position ∧ prepared.start.position ≤ plan.rows

def startAt (prepared : PreparedRows) (layoutIndex position : Nat) : PreparedRows :=
  { prepared with
    start := { prepared.start with layoutIndex := layoutIndex, position := position } }

theorem ascFound_start (layoutIndex position : Nat) :
    (prepared.startAt layoutIndex position).ascFound plan layoutIndex =
      prepared.findings plan layoutIndex id
        ((prepared.segment.numbered plan.typeId).drop position) := by
  show prepared.findings plan layoutIndex id ((prepared.segment.numbered plan.typeId).drop
    (if layoutIndex = layoutIndex then position else plan.startRow)) = _
  rw [if_pos rfl]

theorem ascFound_elsewhere (h : layoutIndex ≠ prepared.start.layoutIndex) :
    prepared.ascFound plan layoutIndex = prepared.findings plan layoutIndex id
      ((prepared.segment.numbered plan.typeId).drop plan.startRow) := by
  rw [ascFound, if_neg h]

theorem descFound_start (layoutIndex position : Nat) :
    (prepared.startAt layoutIndex position).descFound plan layoutIndex =
      prepared.findings plan layoutIndex (Reader.saturatingAdd · 1)
        (slice (prepared.segment.numbered plan.typeId) plan.startRow position).reverse := by
  show prepared.findings plan layoutIndex (Reader.saturatingAdd · 1)
    (slice (prepared.segment.numbered plan.typeId) plan.startRow
      (if layoutIndex = layoutIndex then position else plan.rows)).reverse = _
  rw [if_pos rfl]

theorem descFound_elsewhere (h : layoutIndex ≠ prepared.start.layoutIndex) :
    prepared.descFound plan layoutIndex =
      prepared.findings plan layoutIndex (Reader.saturatingAdd · 1)
        (slice (prepared.segment.numbered plan.typeId) plan.startRow plan.rows).reverse := by
  rw [descFound, if_neg h]

theorem foundIn_congr {found found' : Plan → Nat → List (RowRecord × Cursor)}
    {layouts : List (Plan × Nat)}
    (h : ∀ layout ∈ layouts, found layout.1 layout.2 = found' layout.1 layout.2) :
    foundIn found layouts = foundIn found' layouts := by
  apply List.flatMap_congr
  intro layout hmem
  rw [h layout hmem]

theorem applies_of_found {found : Plan → Nat → List (RowRecord × Cursor)}
    {front back : List (RowRecord × Cursor)} {finding : RowRecord × Cursor}
    (h : (if layout.1.applies then found layout.1 layout.2 else []) = front ++ finding :: back) :
    layout.1.applies = true ∧ found layout.1 layout.2 = front ++ finding :: back := by
  by_cases happlies : layout.1.applies = true
  · rw [if_pos happlies] at h
    exact ⟨happlies, h⟩
  · rw [if_neg happlies] at h
    cases front <;> cases h

theorem asc_advance (hsound : prepared.Sound) {before after : List (RowRecord × Cursor)}
    {finding : RowRecord × Cursor}
    (h : foundIn prepared.ascFound (prepared.plans.zipIdx.drop prepared.start.layoutIndex) =
      before ++ finding :: after) :
    ∃ layoutIndex position plan,
      finding.2 = (prepared.startAt layoutIndex position).start ∧
        prepared.plans[layoutIndex]? = some plan ∧ plan.startRow ≤ position ∧
          position ≤ plan.rows ∧
            foundIn (prepared.startAt layoutIndex position).ascFound
              (prepared.plans.zipIdx.drop layoutIndex) = finding :: after := by
  obtain ⟨left, layout, right, front, back, hlayouts, hfound, hafter⟩ := flatMap_split h
  obtain ⟨happlies, hfound⟩ := applies_of_found hfound
  obtain ⟨hplan, hindex, hdrop, hright⟩ := zipIdx_drop_split hlayouts
  obtain ⟨skipped, item, rest, hrows, hfinding, hrest, hitem⟩ := findings_split hfound
  generalize hoffset : (if layout.2 = prepared.start.layoutIndex then prepared.start.position
    else layout.1.startRow) = offset at hrows
  have hfrom : layout.1.startRow ≤ offset := by
    rw [← hoffset]
    by_cases hstart : layout.2 = prepared.start.layoutIndex
    · obtain ⟨plan, hget, hle, _⟩ := hsound.start
      rw [← hstart, hplan] at hget
      rw [if_pos hstart, Option.some.inj hget]
      exact hle
    · rw [if_neg hstart]
  have hget : (prepared.segment.numbered layout.1.typeId)[offset + skipped.length]? =
      some item := by
    rw [← List.getElem?_drop, hrows, List.getElem?_append_right le_rfl, Nat.sub_self]
    rfl
  have hordinal := ordinal_numbered hget
  have hlt := (List.getElem?_eq_some_iff.mp hget).1
  have hmem : layout.1 ∈ prepared.plans := List.mem_of_getElem? hplan
  rw [length_numbered, ← hsound.rows layout.1 hmem] at hlt
  have hnew : (prepared.startAt layout.2 item.1).ascFound layout.1 layout.2 = finding :: back := by
    rw [ascFound_start, hordinal, ← List.drop_drop, hrows, List.drop_left]
    exact hitem
  have hothers : foundIn (prepared.startAt layout.2 item.1).ascFound right =
      foundIn prepared.ascFound right := by
    apply foundIn_congr
    intro other hother
    have hlater := hright other hother
    rw [ascFound_elsewhere (show other.2 ≠ layout.2 by omega), ascFound_elsewhere (by omega)]
    rfl
  refine ⟨layout.2, item.1, layout.1, by rw [hfinding]; rfl, hplan, by omega, by omega, ?_⟩
  rw [hdrop, foundIn, List.flatMap_cons, if_pos happlies, hnew, hafter]
  exact congrArg (finding :: back ++ ·) hothers

theorem desc_advance (hsound : prepared.Sound) {before after : List (RowRecord × Cursor)}
    {finding : RowRecord × Cursor}
    (h : foundIn prepared.descFound
      (prepared.plans.zipIdx.take (prepared.start.layoutIndex + 1)).reverse =
        before ++ finding :: after) :
    ∃ layoutIndex position plan,
      finding.2 = (prepared.startAt layoutIndex position).start ∧
        prepared.plans[layoutIndex]? = some plan ∧ plan.startRow ≤ position ∧
          position ≤ plan.rows ∧
            foundIn (prepared.startAt layoutIndex position).descFound
              (prepared.plans.zipIdx.take (layoutIndex + 1)).reverse = finding :: after := by
  obtain ⟨left, layout, right, front, back, hlayouts, hfound, hafter⟩ := flatMap_split h
  obtain ⟨happlies, hfound⟩ := applies_of_found hfound
  obtain ⟨hplan, hindex, htake, hright⟩ := zipIdx_take_split hlayouts
  obtain ⟨skipped, item, rest, hrows, hfinding, hrest, hitem⟩ := findings_split hfound
  generalize hupper : (if layout.2 = prepared.start.layoutIndex then prepared.start.position
    else layout.1.rows) = upper at hrows
  have hmem : layout.1 ∈ prepared.plans := List.mem_of_getElem? hplan
  have hcount := hsound.rows layout.1 hmem
  rw [← length_numbered] at hcount
  have hto : upper ≤ layout.1.rows := by
    rw [← hupper]
    by_cases hstart : layout.2 = prepared.start.layoutIndex
    · obtain ⟨plan, hget, _, hle⟩ := hsound.start
      rw [← hstart, hplan] at hget
      rw [if_pos hstart, Option.some.inj hget]
      exact hle
    · rw [if_neg hstart]
  have hslice : slice (prepared.segment.numbered layout.1.typeId) layout.1.startRow upper =
      rest.reverse ++ item :: skipped.reverse := by
    rw [← List.reverse_reverse (slice _ _ _), hrows, List.reverse_append, List.reverse_cons,
      List.append_assoc, List.singleton_append]
  have hget : (slice (prepared.segment.numbered layout.1.typeId) layout.1.startRow
      upper)[rest.length]? = some item := by
    rw [hslice, List.getElem?_append_right (by rw [List.length_reverse]), List.length_reverse,
      Nat.sub_self]
    rfl
  rw [getElem?_slice] at hget
  split at hget
  · next hbelow =>
    have hordinal := ordinal_numbered hget
    have hfits := hsound.fits layout.1 hmem
    have hposition : Reader.saturatingAdd item.1 1 = item.1 + 1 := by
      rw [Reader.saturatingAdd]
      omega
    have hfirst : slice (prepared.segment.numbered layout.1.typeId) layout.1.startRow
        (item.1 + 1) = rest.reverse ++ [item] := by
      have hlen : (slice (prepared.segment.numbered layout.1.typeId) layout.1.startRow
          (item.1 + 1)).length = rest.length + 1 := by
        rw [length_slice (by omega)]
        omega
      have hboth : slice (prepared.segment.numbered layout.1.typeId) layout.1.startRow
            (item.1 + 1) ++ slice (prepared.segment.numbered layout.1.typeId) (item.1 + 1) upper =
          slice (prepared.segment.numbered layout.1.typeId) layout.1.startRow upper :=
        slice_append_slice (by omega) (by omega)
      rw [hslice] at hboth
      have htaken := congrArg (List.take (rest.length + 1)) hboth
      rw [← hlen, List.take_left, hlen, List.take_append, List.length_reverse,
        List.take_of_length_le (l := rest.reverse) (by rw [List.length_reverse]; omega),
        Nat.add_sub_cancel_left] at htaken
      exact htaken
    have hnew : (prepared.startAt layout.2 (item.1 + 1)).descFound layout.1 layout.2 =
        finding :: back := by
      rw [descFound_start, hfirst, List.reverse_append, List.reverse_reverse]
      exact hitem
    have hothers : foundIn (prepared.startAt layout.2 (item.1 + 1)).descFound right =
        foundIn prepared.descFound right := by
      apply foundIn_congr
      intro other hother
      have hearlier := hright other hother
      rw [descFound_elsewhere (show other.2 ≠ layout.2 by omega), descFound_elsewhere (by omega)]
      rfl
    refine ⟨layout.2, item.1 + 1, layout.1, ?_, hplan, by omega, by omega, ?_⟩
    · rw [hfinding, hposition]
      rfl
    · rw [htake, foundIn, List.flatMap_cons, if_pos happlies, hnew, hafter]
      exact congrArg (finding :: back ++ ·) hothers
  · cases hget

theorem found_advance (hsound : prepared.Sound) {before after : List (RowRecord × Cursor)}
    {finding : RowRecord × Cursor} (h : prepared.found = before ++ finding :: after) :
    ∃ layoutIndex position plan,
      finding.2 = (prepared.startAt layoutIndex position).start ∧
        prepared.plans[layoutIndex]? = some plan ∧ plan.startRow ≤ position ∧
          position ≤ plan.rows ∧
            (prepared.startAt layoutIndex position).found = finding :: after := by
  have hfound := h
  rw [found] at hfound
  cases horder : prepared.order with
  | asc =>
    rw [horder] at hfound
    obtain ⟨layoutIndex, position, plan, hcursor, hplan, hfrom, hto, hnew⟩ :=
      asc_advance hsound hfound
    refine ⟨layoutIndex, position, plan, hcursor, hplan, hfrom, hto, ?_⟩
    have hsame : (prepared.startAt layoutIndex position).order = .asc := horder
    rw [← hnew, found, hsame]
    rfl
  | desc =>
    rw [horder] at hfound
    obtain ⟨layoutIndex, position, plan, hcursor, hplan, hfrom, hto, hnew⟩ :=
      desc_advance hsound hfound
    refine ⟨layoutIndex, position, plan, hcursor, hplan, hfrom, hto, ?_⟩
    have hsame : (prepared.startAt layoutIndex position).order = .desc := horder
    rw [← hnew, found, hsame]
    rfl

/-! ## The whole list -/

theorem findings_fst : (prepared.findings plan layoutIndex position rows).map (·.1) =
    (rows.filter fun item => plan.accepts item.2 prepared.segment.dictionary).map
      (recordOf prepared.segment plan) := by
  rw [findings, List.map_map]
  rfl

end PreparedRows

def matchingIn (segment : Segment) (plan : Plan) : List RowRecord :=
  (matchingItems segment plan).map (recordOf segment plan)

/-- The matching rows of the layouts that apply, in the order of layouts and ordinals. -/
def matchingRows (segment : Segment) (plans : List Plan) : List RowRecord :=
  (plans.filter (·.applies)).flatMap (matchingIn segment)

def Order.arrange {α : Type} (order : Order) (items : List α) : List α :=
  match order with
  | .asc => items
  | .desc => items.reverse

theorem matchingRows_eq (segment : Segment) (plans : List Plan) (start : Nat) :
    matchingRows segment plans = (plans.zipIdx start).flatMap fun layout =>
      if layout.1.applies then matchingIn segment layout.1 else [] := by
  induction plans generalizing start with
  | nil => rfl
  | cons plan plans ih =>
    rw [List.zipIdx_cons, List.flatMap_cons, ← ih]
    by_cases h : plan.applies = true
    · rw [matchingRows, List.filter_cons, if_pos h, if_pos h]
      rfl
    · rw [matchingRows, List.filter_cons, if_neg h, if_neg h]
      rfl

namespace PreparedRows

variable {prepared : PreparedRows}

theorem map_foundIn (found : Plan → Nat → List (RowRecord × Cursor)) (layouts : List (Plan × Nat)) :
    (foundIn found layouts).map (·.1) = layouts.flatMap fun layout =>
      if layout.1.applies then (found layout.1 layout.2).map (·.1) else [] := by
  rw [foundIn, List.map_flatMap]
  apply List.flatMap_congr
  intro layout _
  by_cases h : layout.1.applies = true
  · rw [if_pos h, if_pos h]
  · rw [if_neg h, if_neg h, List.map_nil]

theorem found_first (hsound : prepared.Sound)
    (hstart : prepared.start = firstCursor prepared.order prepared.segment prepared.plans
      prepared.start.binding) :
    prepared.found.map (·.1) =
      prepared.order.arrange (matchingRows prepared.segment prepared.plans) := by
  have hmem : ∀ layout ∈ prepared.plans.zipIdx, prepared.plans[layout.2]? = some layout.1 := by
    intro layout h
    obtain ⟨k, hk⟩ := List.getElem?_of_mem h
    rw [List.getElem?_zipIdx] at hk
    obtain ⟨plan, hplan, rfl⟩ := Option.map_eq_some_iff.mp hk
    rw [Nat.zero_add]
    exact hplan
  rw [found]
  cases horder : prepared.order with
  | asc =>
    rw [horder] at hstart
    have hindex : prepared.start.layoutIndex = 0 := by rw [hstart]; rfl
    have hposition : prepared.start.position = (prepared.plans[0]?.map (·.startRow)).getD 0 := by
      rw [hstart]
      rfl
    rw [hindex, map_foundIn, matchingRows_eq _ _ 0]
    apply List.flatMap_congr
    intro layout hlayout
    by_cases happlies : layout.1.applies = true
    · rw [if_pos happlies, if_pos happlies, ascFound, findings_fst, matchingIn, matchingItems]
      by_cases hzero : layout.2 = 0
      · have hplan := hmem layout hlayout
        rw [hzero] at hplan
        rw [if_pos (hzero.trans hindex.symm), hposition, hplan]
        rfl
      · rw [if_neg (by rw [hindex]; exact hzero)]
    · rw [if_neg happlies, if_neg happlies]
  | desc =>
    rw [horder] at hstart
    have hindex : prepared.start.layoutIndex = prepared.plans.length - 1 := by rw [hstart]; rfl
    have hposition : prepared.start.position =
        (prepared.plans[prepared.plans.length - 1]?.map (·.rows)).getD 0 := by
      rw [hstart]
      rfl
    rw [List.take_of_length_le (by rw [List.length_zipIdx]; omega), map_foundIn, Order.arrange,
      matchingRows_eq _ _ 0, List.reverse_flatMap]
    apply List.flatMap_congr
    intro layout hlayout
    have hplan := hmem layout (List.mem_reverse.mp hlayout)
    have hrows := hsound.rows layout.1 (List.mem_of_getElem? hplan)
    have hupper : (if layout.2 = prepared.start.layoutIndex then prepared.start.position
        else layout.1.rows) = (prepared.segment.numbered layout.1.typeId).length := by
      rw [length_numbered, ← hrows]
      by_cases hlast : layout.2 = prepared.start.layoutIndex
      · rw [if_pos hlast, hposition, ← hindex, ← hlast, hplan]
        rfl
      · rw [if_neg hlast]
    rw [Function.comp_apply]
    by_cases happlies : layout.1.applies = true
    · rw [if_pos happlies, if_pos happlies, descFound, findings_fst, matchingIn, matchingItems,
        hupper, slice, List.take_length, List.filter_reverse, List.map_reverse]
    · rw [if_neg happlies, if_neg happlies, List.reverse_nil]

end PreparedRows

/-! ## Requests that follow each other -/

section Walk

variable (registry : Registry) (floats : FloatText) (captures : Nat → QueryDataset)
  (request : RowsRequest)

/-- The answer to the request number `c.1`, with the cursor `c.2`; the data may be captured
anew for every request. -/
def answer (c : Nat × Option String) :
    Except QueryError (List RowRecord × Option (Nat × Option String)) := do
  let found ← rowsPage registry floats (captures c.1) { request with cursor := c.2 }
  return (found.1, found.2.map fun text => (c.1 + 1, some text))

/-- The captures show one segment, a finished one or an active one at one position, and the
same tail: the first as it is, the others at the position of a cursor. -/
structure Pinned (captures : Nat → QueryDataset) (data : DataRequest) (segment : Segment)
    (tail : Option DatasetSegment) : Prop where
  id_eq : segment.id = data.segmentId
  first : view (captures 0) data none = .ok (segment, tail)
  later : ∀ (k : Nat) (cursor : Cursor), cursor.segmentId = data.segmentId →
    cursor.activePosition = segment.activePosition.getD 0 →
      view (captures (k + 1)) data (some cursor) = .ok (segment, tail)

/-- The widths of what a segment counts. -/
structure Segment.Fits (segment : Segment) : Prop where
  id_ge : -2 ^ 63 ≤ segment.id
  id_lt : segment.id < 2 ^ 63
  position_lt : segment.activePosition.getD 0 < 2 ^ 64
  layouts_lt : segment.layouts.length < 2 ^ 64
  rows_lt : ∀ typeId, (segment.rows typeId).length < 2 ^ 64

variable {registry floats captures request} {segment : Segment} {tail : Option DatasetSegment}
  {first : PreparedRows}

theorem checkStart_ok {planned : List Plan} {start : Cursor}
    (h : checkStart segment planned request start = .ok first) :
    first = { segment := segment, plans := planned, order := request.order
              pageSize := request.pageSize, start := start } ∧
      ∃ plan, planned[start.layoutIndex]? = some plan ∧ plan.startRow ≤ start.position ∧
        start.position ≤ plan.rows := by
  rw [checkStart] at h
  split at h
  · cases h
  · next plan hplan =>
    split at h
    · cases h
    · next hcheck =>
      rw [not_or, not_or] at hcheck
      exact ⟨(Except.ok.inj h).symm, plan, hplan, Nat.le_of_not_lt hcheck.1,
        Nat.le_of_not_lt hcheck.2.1⟩

/-- What preparing the first page found out, and what the later ones find out again. -/
structure Planned (registry : Registry) (floats : FloatText) (request : RowsRequest)
    (segment : Segment) (tail : Option DatasetSegment) (first : PreparedRows) : Prop where
  segment_eq : first.segment = segment
  order_eq : first.order = request.order
  pageSize_eq : first.pageSize = request.pageSize
  plans_eq : ∃ planned, plans registry floats segment request.data = .ok planned ∧
    applyTail planned tail = .ok first.plans
  start_eq : first.start = firstCursor request.order segment first.plans (binding request)
  start_in : ∃ plan, first.plans[first.start.layoutIndex]? = some plan ∧
    plan.startRow ≤ first.start.position ∧ first.start.position ≤ plan.rows

theorem prepare_first (hcursor : request.cursor = none)
    (hview : view (captures 0) request.data none = .ok (segment, tail))
    (h : prepare registry floats (captures 0) request = .ok first) :
    Planned registry floats request segment tail first := by
  have hparsed : parsedCursor request = .ok none := by
    rw [parsedCursor, hcursor]
  obtain ⟨parsed, hnone, h⟩ := bind_eq_ok.mp h
  cases hparsed.symm.trans hnone
  obtain ⟨found, hfound, h⟩ := bind_eq_ok.mp h
  cases hview.symm.trans hfound
  obtain ⟨planned, hplans, h⟩ := bind_eq_ok.mp h
  obtain ⟨tailed, htail, h⟩ := bind_eq_ok.mp h
  obtain ⟨rfl, hin⟩ := checkStart_ok h
  exact ⟨rfl, rfl, rfl, ⟨planned, hplans, htail⟩, rfl, hin⟩

theorem Planned.sound (h : Planned registry floats request segment tail first)
    (hfits : segment.Fits) : first.Sound := by
  obtain ⟨planned, hplans, htail⟩ := h.plans_eq
  obtain ⟨heq, hle⟩ := applyTail_ok (fun plan hmem => (mem_plans hplans hmem).2) htail
  have hrows : ∀ plan ∈ first.plans, plan.rows = (segment.rows plan.typeId).length := by
    intro plan hmem
    rw [heq] at hmem
    obtain ⟨plan', hmem', rfl⟩ := List.mem_map.mp hmem
    exact (mem_plans hplans hmem').1
  refine ⟨?_, hle, ?_, h.start_in⟩
  · rw [h.segment_eq]
    exact hrows
  · intro plan hmem
    rw [hrows plan hmem]
    exact hfits.rows_lt plan.typeId

theorem prepare_later (hpinned : Pinned captures request.data segment tail) (hfits : segment.Fits)
    (hplanned : Planned registry floats request segment tail first) (k : Nat)
    {layoutIndex position : Nat} {plan : Plan} (hplan : first.plans[layoutIndex]? = some plan)
    (hfrom : plan.startRow ≤ position) (hto : position ≤ plan.rows) :
    prepare registry floats (captures (k + 1))
      { request with cursor := some (first.startAt layoutIndex position).start.encode } =
        .ok (first.startAt layoutIndex position) := by
  have hsound := hplanned.sound hfits
  obtain ⟨planned, hplans, htail⟩ := hplanned.plans_eq
  have hstart : first.start.segmentId = segment.id ∧
      first.start.activePosition = segment.activePosition.getD 0 ∧
        first.start.binding = binding request := by
    rw [hplanned.start_eq]
    exact firstCursor_fields ..
  have hindex : layoutIndex < first.plans.length := (List.getElem?_eq_some_iff.mp hplan).1
  have hlength : first.plans.length ≤ segment.layouts.length := by
    rw [(applyTail_ok (fun plan hmem => (mem_plans hplans hmem).2) htail).1, List.length_map]
    exact length_plans_le hplans
  have hposition := hsound.fits plan (List.mem_of_getElem? hplan)
  have hcursor : (first.startAt layoutIndex position).start.Fits := by
    refine ⟨?_, ?_, ?_, ?_, ?_, ?_⟩
    · exact hstart.1 ▸ hfits.id_ge
    · exact hstart.1 ▸ hfits.id_lt
    · exact hstart.2.1 ▸ hfits.position_lt
    · exact (hindex.trans_le hlength).trans hfits.layouts_lt
    · exact hto.trans_lt hposition
    · exact hstart.2.2 ▸ binding_lt request
  have hparsed : parsedCursor
      { request with cursor := some (first.startAt layoutIndex position).start.encode } =
        .ok (some (first.startAt layoutIndex position).start) := by
    rw [parsedCursor]
    dsimp only
    rw [Cursor.parse_encode hcursor]
    exact if_pos ⟨hstart.1.trans hpinned.id_eq, hstart.2.2⟩
  have hview := hpinned.later k (first.startAt layoutIndex position).start
    (hstart.1.trans hpinned.id_eq) hstart.2.1
  have hchecks : ¬(position < plan.startRow ∨ plan.rows < position ∨
      first.start.activePosition ≠ segment.activePosition.getD 0) := by
    rintro (hlow | hhigh | hother)
    · omega
    · omega
    · exact hother hstart.2.1
  rw [prepare, hparsed]
  show (view (captures (k + 1)) request.data (some (first.startAt layoutIndex position).start) >>=
    fun found => do
      let planned ← plans registry floats found.1 request.data
      let planned ← applyTail planned found.2
      checkStart found.1 planned request (first.startAt layoutIndex position).start) = _
  rw [hview]
  show (plans registry floats segment request.data >>= fun planned => do
    let planned ← applyTail planned tail
    checkStart segment planned request (first.startAt layoutIndex position).start) = _
  rw [hplans]
  show (applyTail planned tail >>= fun planned =>
    checkStart segment planned request (first.startAt layoutIndex position).start) = _
  rw [htail]
  show checkStart segment first.plans request (first.startAt layoutIndex position).start = _
  have hget : first.plans[(first.startAt layoutIndex position).start.layoutIndex]? = some plan :=
    hplan
  rw [checkStart, hget]
  refine (if_neg hchecks).trans ?_
  rw [← hplanned.segment_eq, ← hplanned.order_eq, ← hplanned.pageSize_eq]
  rfl

/-- A request that was prepared in the plans of the first one stands at what its scan finds. -/
def StandsAt (registry : Registry) (floats : FloatText) (captures : Nat → QueryDataset)
    (request : RowsRequest) (first : PreparedRows) (c : Nat × Option String)
    (rest : List RowRecord) : Prop :=
  ∃ layoutIndex position plan, first.plans[layoutIndex]? = some plan ∧
    plan.startRow ≤ position ∧ position ≤ plan.rows ∧
      prepare registry floats (captures c.1) { request with cursor := c.2 } =
        .ok (first.startAt layoutIndex position) ∧
      rest = (first.startAt layoutIndex position).found.map (·.1)

theorem answer_yields {c : Nat × Option String} {layoutIndex position : Nat}
    (h : prepare registry floats (captures c.1) { request with cursor := c.2 } =
      .ok (first.startAt layoutIndex position)) :
    Yields (PreparedRows.Resolvable first.segment first.plans)
      (answer registry floats captures request c)
      (((first.startAt layoutIndex position).found.take first.pageSize).map (·.1),
        ((first.startAt layoutIndex position).found[first.pageSize]?).map fun finding =>
          (c.1 + 1, some finding.2.encode)) := by
  rw [answer, rowsPage, h]
  have hstream := (PreparedRows.stream_yields (first.startAt layoutIndex position)).bind
    (f := fun found => (Except.ok (found.1, found.2.map fun text => (c.1 + 1, some text)) :
      Except QueryError (List RowRecord × Option (Nat × Option String)))) (Yields.ok _ _)
  rw [Option.map_map] at hstream
  exact hstream

theorem serves (hpinned : Pinned captures request.data segment tail) (hfits : segment.Fits)
    (hplanned : Planned registry floats request segment tail first) :
    Serves id request.pageSize (answer registry floats captures request)
      (StandsAt registry floats captures request first) where
  items_eq := by
    rintro c rest page next ⟨layoutIndex, position, _, _, _, _, hprepare, rfl⟩ hanswer
    have hvalue := (answer_yields hprepare).value _ hanswer
    rw [Prod.mk.injEq] at hvalue
    rw [id_eq, hvalue.1, hplanned.pageSize_eq, List.map_take]
  next_eq := by
    rintro c rest page next ⟨layoutIndex, position, _, _, _, _, hprepare, rfl⟩ hanswer
    have hvalue := (answer_yields hprepare).value _ hanswer
    rw [Prod.mk.injEq] at hvalue
    rw [hvalue.2, hplanned.pageSize_eq, Option.map_eq_none_iff, List.getElem?_eq_none_iff,
      List.length_map]
  advance := by
    rintro c rest page next ⟨layoutIndex, position, plan, hplan, hfrom, hto, hprepare, rfl⟩ hanswer
    have hvalue := (answer_yields hprepare).value _ hanswer
    rw [Prod.mk.injEq] at hvalue
    obtain ⟨finding, hfinding, hnext⟩ := Option.map_eq_some_iff.mp hvalue.2.symm
    have hsound := hplanned.sound hfits
    have hthis : (first.startAt layoutIndex position).Sound :=
      ⟨hsound.rows, hsound.tail, hsound.fits, plan, hplan, hfrom, hto⟩
    have hdrop : (first.startAt layoutIndex position).found.drop first.pageSize =
        finding :: (first.startAt layoutIndex position).found.drop (first.pageSize + 1) := by
      obtain ⟨hlt, hget⟩ := List.getElem?_eq_some_iff.mp hfinding
      rw [← hget, ← List.drop_eq_getElem_cons hlt]
    have hsplit : (first.startAt layoutIndex position).found =
        (first.startAt layoutIndex position).found.take first.pageSize ++
          finding :: (first.startAt layoutIndex position).found.drop (first.pageSize + 1) := by
      rw [← hdrop, List.take_append_drop]
    obtain ⟨layoutIndex', position', plan', hcursor, hplan', hfrom', hto', hfound⟩ :=
      PreparedRows.found_advance hthis hsplit
    refine ⟨layoutIndex', position', plan', hplan', hfrom', hto', ?_, ?_⟩
    · rw [← hnext, hcursor]
      exact prepare_later hpinned hfits hplanned c.1 hplan' hfrom' hto'
    · show _ = ((first.startAt layoutIndex position).startAt layoutIndex' position').found.map _
      rw [hfound, ← hplanned.pageSize_eq, ← List.map_drop, hdrop]

theorem standsAt_first (hcursor : request.cursor = none)
    (hpinned : Pinned captures request.data segment tail) (hfits : segment.Fits)
    (hprepare : prepare registry floats (captures 0) request = .ok first) :
    StandsAt registry floats captures request first (0, none)
      (request.order.arrange (matchingRows segment first.plans)) := by
  have hplanned := prepare_first hcursor hpinned.first hprepare
  have hfound := PreparedRows.found_first (hplanned.sound hfits) (by
    rw [hplanned.order_eq, hplanned.segment_eq]
    conv_lhs => rw [hplanned.start_eq]
    rw [show first.start.binding = binding request by
      rw [hplanned.start_eq]
      exact (firstCursor_fields ..).2.2])
  rw [hplanned.order_eq, hplanned.segment_eq] at hfound
  obtain ⟨plan, hplan, hfrom, hto⟩ := hplanned.start_in
  refine ⟨first.start.layoutIndex, first.start.position, plan, hplan, hfrom, hto, ?_, hfound.symm⟩
  rw [← hcursor]
  exact hprepare

theorem exists_follows_first (hsize : 0 < request.pageSize) (hcursor : request.cursor = none)
    (hpinned : Pinned captures request.data segment tail) (hfits : segment.Fits)
    (hprepare : prepare registry floats (captures 0) request = .ok first)
    (hresolvable : PreparedRows.Resolvable segment first.plans) :
    ∃ pages, Follows (answer registry floats captures request) (0, none) pages := by
  have hplanned := prepare_first hcursor hpinned.first hprepare
  refine (serves hpinned hfits hplanned).exists_follows hsize ?_
    (standsAt_first hcursor hpinned hfits hprepare)
  rintro c rest ⟨layoutIndex, position, _, _, _, _, hprepared, _⟩
  rw [← hplanned.segment_eq] at hresolvable
  exact ⟨_, _, (answer_yields hprepared).total hresolvable⟩

/-- The pages of a request are the matching rows in its order: each once, every page but
the last full, the last one with rows.  They come to an end unless a string does not resolve. -/
theorem row_pages (hsize : 0 < request.pageSize) (hcursor : request.cursor = none)
    (hpinned : Pinned captures request.data segment tail) (hfits : segment.Fits)
    (hprepare : prepare registry floats (captures 0) request = .ok first) :
    (∀ pages, Follows (answer registry floats captures request) (0, none) pages →
        Complete id request.pageSize
          (request.order.arrange (matchingRows segment first.plans)) pages) ∧
      (PreparedRows.Resolvable segment first.plans →
        ∃ pages, Follows (answer registry floats captures request) (0, none) pages) := by
  constructor
  · intro pages hfollows
    exact (serves hpinned hfits (prepare_first hcursor hpinned.first hprepare)).complete
      (standsAt_first hcursor hpinned hfits hprepare) hfollows
  · exact exists_follows_first hsize hcursor hpinned hfits hprepare

end Walk

def sampleContract : TypeContract where
  typeId := 7
  semantics := .snapshotFull
  columns := [{ name := "device", ty := .u32, cls := .label }]
  identity := ["device"]

def sampleRegistry : Registry where
  contracts := [sampleContract]
  logicalSectionName _ := some "disk"

def sampleFloats : FloatText where
  single _ := none
  double _ := none

def deviceRow (device : Nat) : Row := { cells := [("device", .u32 device)] }

def diskSegment : Segment where
  id := 5
  kind := .finished
  maxTs := 0
  activePosition := none
  layouts := [(7, [deviceRow 1, deviceRow 2, deviceRow 1])]
  dictionary _ := none

def diskReference : DatasetSegment where
  id := 5
  kind := .finished
  minTs := 0
  maxTs := 0
  activePosition := none
  sections := []

def diskDataset : QueryDataset where
  segment _ := .ok [diskReference]
  atActivePosition _ _ := .error .badCursor
  openSegment _ := .ok diskSegment

def diskRequest : RowsRequest where
  data := { segmentId := 5, sectionName := "disk", typeId := none, fields := [], after := none
            filters := [{ column := "device", value := "1" }] }
  order := .desc
  pageSize := 1
  cursor := none

def diskPlan : Plan where
  typeId := 7
  fields := [{ name := "device", column := some "device" }]
  timestamp := none
  startRow := 0
  filters := [.cell "device" (.u32 1)]
  matchesNone := false
  rows := 3

def diskPrepared : PreparedRows where
  segment := diskSegment
  plans := [diskPlan]
  order := .desc
  pageSize := 1
  start := firstCursor .desc diskSegment [diskPlan] (binding diskRequest)

theorem diskDataset_pinned : Pinned (fun _ => diskDataset) diskRequest.data diskSegment none where
  id_eq := rfl
  first := rfl
  later k cursor _ hposition := by
    have hpin : pin diskDataset diskReference (some cursor) = .ok diskReference := if_pos hposition
    show (pin diskDataset diskReference (some cursor) >>= fun segmentRef => do
      let tail ← activeTail diskDataset segmentRef none
      let segment ← diskDataset.openSegment segmentRef
      return (segment, tail)) = _
    rw [hpin]
    rfl

theorem diskSegment_fits : diskSegment.Fits where
  id_ge := by decide
  id_lt := by decide
  position_lt := by decide
  layouts_lt := by decide
  rows_lt typeId := by
    rw [Segment.rows, diskSegment, List.lookup_cons]
    by_cases h : (typeId == 7) = true
    · rw [h]
      show 3 < 2 ^ 64
      decide
    · rw [Bool.not_eq_true] at h
      rw [h]
      show 0 < 2 ^ 64
      decide

theorem diskPrepared_resolvable : PreparedRows.Resolvable diskSegment diskPrepared.plans := by
  have hids : ∀ item ∈ diskSegment.numbered 7, (item.2.project diskPlan.projection).ids = [] := by
    decide
  intro plan hmem _ item hitem id hid
  rw [List.mem_singleton.mp hmem] at hitem hid
  rw [hids item hitem] at hid
  cases hid

/-- Two of three rows match, and the later one is on the first page. -/
theorem row_pages_sample : ∃ pages,
    Follows (answer sampleRegistry sampleFloats (fun _ => diskDataset) diskRequest) (0, none)
      pages ∧
      Complete id 1
        [{ typeId := 7, ordinal := 2, values := [.cell (.u32 1)] },
          { typeId := 7, ordinal := 0, values := [.cell (.u32 1)] }] pages := by
  have hprepare : prepare sampleRegistry sampleFloats diskDataset diskRequest =
      .ok diskPrepared := rfl
  have hpages := row_pages (by decide) rfl diskDataset_pinned diskSegment_fits hprepare
  obtain ⟨pages, hfollows⟩ := hpages.2 diskPrepared_resolvable
  exact ⟨pages, hfollows, hpages.1 pages hfollows⟩

end Kronika.Query
