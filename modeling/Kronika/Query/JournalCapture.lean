/-
The journal of an active segment as data to query.

What a part holds is a function of the part, since its bytes stay as they are while the
generation lives.  An earlier position shows the parts that end there.
-/
import Kronika.Store.Positions
import Kronika.Query.RowWalk

namespace Kronika.Query

open Format Library Reader Store Writer

/-- The decoded rows of a part, and its dictionary entries. -/
structure PartContent where
  rows : Nat → List Row
  entries : List (Nat × Resolved)

abbrev JournalContent := ActivePart → PartContent

def entryOf (entries : List (Nat × Resolved)) (id : Nat) : Option Resolved :=
  match entries.filter (·.1 = id) with
  | [] => none
  | first :: rest => if rest.all (·.2 = first.2) then some first.2 else none

theorem entryOf_append {entries more : List (Nat × Resolved)} {id : Nat} {found : Resolved}
    (h : entryOf entries id = some found) (hsome : (entryOf (entries ++ more) id).isSome) :
    entryOf (entries ++ more) id = some found := by
  rw [entryOf] at h
  rw [entryOf, List.filter_append] at hsome ⊢
  cases hentries : entries.filter (·.1 = id) with
  | nil =>
    rw [hentries] at h
    cases h
  | cons first rest =>
    rw [hentries] at h hsome
    rw [List.cons_append] at hsome ⊢
    dsimp only at h hsome ⊢
    split at h
    · split at hsome
      · next hall => rw [if_pos hall, h]
      · cases hsome
    · cases h

/-! ## Captures as data -/

variable (content : JournalContent)

def catalogsOf (snapshot : ActiveSnapshot) : List Catalog := snapshot.parts.map (·.catalog)

def segmentOf (snapshot : ActiveSnapshot) : Segment where
  id := snapshot.segmentId.value.toInt
  kind := .active
  maxTs := ((activeBounds snapshot.parts).getD (0, 0)).2.toInt
  activePosition := some snapshot.validLen
  layouts := (sectionsOf (catalogsOf snapshot)).map fun found =>
    (found.typeId, snapshot.parts.flatMap fun part => (content part).rows found.typeId)
  dictionary := entryOf (snapshot.parts.flatMap fun part => (content part).entries)

def referenceOf (snapshot : ActiveSnapshot) : DatasetSegment where
  id := snapshot.segmentId.value.toInt
  kind := .active
  minTs := ((activeBounds snapshot.parts).getD (0, 0)).1.toInt
  maxTs := ((activeBounds snapshot.parts).getD (0, 0)).2.toInt
  activePosition := some snapshot.validLen
  sections := sectionsOf (catalogsOf snapshot)

/-- The capture behind a reference: the snapshot at the reference's position. -/
def cutOf (snapshot : ActiveSnapshot) (segment : DatasetSegment) :
    Except SnapshotError ActiveSnapshot :=
  match segment.activePosition with
  | none => .error .io
  | some position => snapshot.atPosition position

/-- A finished segment beside the journal. -/
structure FinishedSegment where
  reference : DatasetSegment
  segment : Segment
  kind_eq : reference.kind = .finished

/-- A captured journal beside finished segments. -/
def journalDataset (finished : Int → Option FinishedSegment) (snapshot : ActiveSnapshot) :
    QueryDataset where
  segment id :=
    if id = snapshot.segmentId.value.toInt then .ok [referenceOf snapshot]
    else .ok ((finished id).map (·.reference)).toList
  atActivePosition segment position :=
    match cutOf snapshot segment with
    | .error _ => .error (.unreadable "stale capture")
    | .ok own =>
      match own.atPosition position with
      | .error _ => .error (.unreadable "position out of bounds")
      | .ok cut => .ok (referenceOf cut)
  openSegment segment :=
    match segment.kind with
    | .finished =>
      match finished segment.id with
      | none => .error .noSuchSegment
      | some found => .ok found.segment
    | .active =>
      match cutOf snapshot segment with
      | .error _ => .error (.unreadable "stale capture")
      | .ok own => .ok (segmentOf content own)

/-! ## What a capture shows -/

variable {content} {finished : Int → Option FinishedSegment} {crc32c : Checksum}
  {segmentId : SegmentId} {parts more : List (ValidPart crc32c)} {snapshot : ActiveSnapshot}

theorem parts_captured (h : Captures snapshot segmentId parts) :
    snapshot.parts = (captured segmentId parts).parts :=
  h.parts_eq.trans (captures_captured segmentId parts).parts_eq.symm

theorem segmentOf_captures (h : Captures snapshot segmentId parts) :
    segmentOf content snapshot = segmentOf content (captured segmentId parts) := by
  have hlen : snapshot.validLen = (captured segmentId parts).validLen := h.validLen_eq
  have hid : snapshot.segmentId = (captured segmentId parts).segmentId := h.segmentId_eq
  rw [segmentOf, segmentOf, catalogsOf, catalogsOf, parts_captured h, hlen, hid]

theorem referenceOf_captures (h : Captures snapshot segmentId parts) :
    referenceOf snapshot = referenceOf (captured segmentId parts) := by
  have hlen : snapshot.validLen = (captured segmentId parts).validLen := h.validLen_eq
  have hid : snapshot.segmentId = (captured segmentId parts).segmentId := h.segmentId_eq
  rw [referenceOf, referenceOf, catalogsOf, catalogsOf, parts_captured h, hlen, hid]

theorem cutOf_captures (h : Captures snapshot segmentId (parts ++ more)) :
    ∃ cut, cutOf snapshot (referenceOf (captured segmentId parts)) = .ok cut ∧
      Captures cut segmentId parts := h.atPosition

theorem segment_captures (h : Captures snapshot segmentId parts) :
    (journalDataset content finished snapshot).segment segmentId.value.toInt =
      .ok [referenceOf (captured segmentId parts)] := by
  show (if segmentId.value.toInt = snapshot.segmentId.value.toInt then _ else _) = _
  rw [if_pos (by rw [h.segmentId_eq])]
  rw [referenceOf_captures h]

theorem exactSegment_captures (h : Captures snapshot segmentId parts) :
    exactSegment (journalDataset content finished snapshot) segmentId.value.toInt =
      .ok (referenceOf (captured segmentId parts)) := by
  rw [exactSegment, segment_captures h]
  rfl

theorem openSegment_captures (h : Captures snapshot segmentId (parts ++ more)) :
    (journalDataset content finished snapshot).openSegment
      (referenceOf (captured segmentId parts)) =
        .ok (segmentOf content (captured segmentId parts)) := by
  obtain ⟨cut, hcut, hcaptures⟩ := cutOf_captures h
  show (match cutOf _ _ with | .error _ => _ | .ok own => _) = _
  rw [hcut]
  exact congrArg Except.ok (segmentOf_captures hcaptures)

theorem atPosition_captures {later : List (ValidPart crc32c)}
    (h : Captures snapshot segmentId (parts ++ more ++ later)) :
    atPosition (journalDataset content finished snapshot)
        (referenceOf (captured segmentId (parts ++ more))) (endOf parts) =
      .ok (referenceOf (captured segmentId parts)) := by
  obtain ⟨own, hown, howns⟩ := cutOf_captures h
  obtain ⟨cut, hcut, hcuts⟩ := howns.atPosition
  have hat : (journalDataset content finished snapshot).atActivePosition
      (referenceOf (captured segmentId (parts ++ more))) (endOf parts) =
        .ok (referenceOf (captured segmentId parts)) := by
    show (match cutOf _ _ with | .error _ => _ | .ok own => _) = _
    rw [hown]
    show (match own.atPosition (endOf parts) with | .error _ => _ | .ok cut => _) = _
    rw [hcut]
    exact congrArg Except.ok (referenceOf_captures hcuts)
  rw [Query.atPosition, hat]

theorem atPosition_boundary {later : List (ValidPart crc32c)} {position : Nat}
    {found : DatasetSegment} (h : Captures snapshot segmentId (parts ++ later))
    (hfound : atPosition (journalDataset content finished snapshot)
      (referenceOf (captured segmentId parts)) position = .ok found) :
    ∃ left right, parts = left ++ right ∧ position = endOf left ∧
      found = referenceOf (captured segmentId left) := by
  obtain ⟨own, hown, howns⟩ := cutOf_captures h
  have hat : (journalDataset content finished snapshot).atActivePosition
      (referenceOf (captured segmentId parts)) position =
        match own.atPosition position with
        | .error _ => .error (.unreadable "position out of bounds")
        | .ok cut => .ok (referenceOf cut) := by
    show (match cutOf _ _ with | .error _ => _ | .ok own => _) = _
    rw [hown]
  rw [Query.atPosition, hat] at hfound
  cases hcut : own.atPosition position with
  | error problem =>
    rw [hcut] at hfound
    cases hfound
  | ok cut =>
    rw [hcut] at hfound
    obtain ⟨left, right, hsplit, hposition, hcuts⟩ := howns.atPosition_ok hcut
    refine ⟨left, right, hsplit, hposition, ?_⟩
    rw [← Except.ok.inj hfound]
    exact referenceOf_captures hcuts

/-! ## What requests read -/

/-- The capture that a tail starts after: none, or one that ends where some first parts do. -/
inductive TailOf (segmentId : SegmentId) (parts : List (ValidPart crc32c)) :
    Option ActiveCursor → Option DatasetSegment → Prop where
  | whole : TailOf segmentId parts none none
  | after {left right : List (ValidPart crc32c)} (hsplit : parts = left ++ right) :
    TailOf segmentId parts
      (some { segmentId := segmentId.value.toInt, walPosition := endOf left })
      (some (referenceOf (captured segmentId left)))

variable {data : DataRequest} {tail : Option DatasetSegment} {segment : Segment}

theorem activeTail_captures {after : Option ActiveCursor}
    (h : Captures snapshot segmentId (parts ++ more)) (htail : TailOf segmentId parts after tail) :
    activeTail (journalDataset content finished snapshot) (referenceOf (captured segmentId parts))
      after = .ok tail := by
  cases htail with
  | whole => rfl
  | @after left right hsplit =>
    subst hsplit
    have hsame : ¬((referenceOf (captured segmentId (left ++ right))).kind ≠ .active ∨
        (referenceOf (captured segmentId (left ++ right))).id ≠ segmentId.value.toInt) := by
      rintro (hkind | hid)
      · exact hkind rfl
      · exact hid rfl
    rw [activeTail, if_neg hsame, atPosition_captures h]
    rfl

theorem activeTail_ok {after : Option ActiveCursor}
    (h : Captures snapshot segmentId (parts ++ more))
    (htail : activeTail (journalDataset content finished snapshot)
      (referenceOf (captured segmentId parts)) after = .ok tail) :
    TailOf segmentId parts after tail := by
  cases after with
  | none =>
    rw [← Except.ok.inj htail]
    exact .whole
  | some after =>
    rw [activeTail] at htail
    split at htail
    · cases htail
    next hsame =>
      rw [not_or, not_not, not_not] at hsame
      cases hfound : atPosition (journalDataset content finished snapshot)
          (referenceOf (captured segmentId parts)) after.walPosition with
      | error problem =>
        rw [hfound] at htail
        cases htail
      | ok found =>
        rw [hfound] at htail
        obtain ⟨left, right, hsplit, hposition, hleft⟩ := atPosition_boundary h hfound
        have hafter : after =
            { segmentId := segmentId.value.toInt, walPosition := endOf left } := by
          rw [← hposition, show segmentId.value.toInt = after.segmentId from hsame.2]
        rw [hafter, ← Except.ok.inj htail, hleft]
        exact .after hsplit

variable {cursor : Option Cursor}

theorem view_captures (h : Captures snapshot segmentId (parts ++ more))
    (hid : data.segmentId = segmentId.value.toInt)
    (hpin : pin (journalDataset content finished snapshot)
      (referenceOf (captured segmentId (parts ++ more))) cursor =
        .ok (referenceOf (captured segmentId parts)))
    (htail : TailOf segmentId parts data.after tail) :
    view (journalDataset content finished snapshot) data cursor =
      .ok (segmentOf content (captured segmentId parts), tail) := by
  rw [view, hid, exactSegment_captures h]
  show (pin _ _ cursor >>= fun segmentRef => do
    let tail ← activeTail _ segmentRef data.after
    let segment ← (journalDataset content finished snapshot).openSegment segmentRef
    return (segment, tail)) = _
  rw [hpin]
  show (activeTail _ _ data.after >>= fun tail => do
    let segment ← (journalDataset content finished snapshot).openSegment
      (referenceOf (captured segmentId parts))
    return (segment, tail)) = _
  rw [activeTail_captures h htail, openSegment_captures h]
  rfl

theorem view_first (h : Captures snapshot segmentId parts)
    (hid : data.segmentId = segmentId.value.toInt)
    (htail : TailOf segmentId parts data.after tail) :
    view (journalDataset content finished snapshot) data none =
      .ok (segmentOf content (captured segmentId parts), tail) := by
  have hwhole : Captures snapshot segmentId (parts ++ []) := by rwa [List.append_nil]
  refine view_captures hwhole hid ?_ htail
  rw [List.append_nil]
  rfl

theorem view_later {cursor : Cursor} (h : Captures snapshot segmentId (parts ++ more))
    (hid : data.segmentId = segmentId.value.toInt) (hposition : cursor.activePosition = endOf parts)
    (htail : TailOf segmentId parts data.after tail) :
    view (journalDataset content finished snapshot) data (some cursor) =
      .ok (segmentOf content (captured segmentId parts), tail) := by
  have hwhole : Captures snapshot segmentId (parts ++ more ++ []) := by rwa [List.append_nil]
  refine view_captures h hid ?_ htail
  show atPosition _ _ cursor.activePosition = _
  rw [hposition]
  exact atPosition_captures hwhole

/-- A request that sees the active segment sees it at the end of some first parts, all of
them unless a cursor says where, and its tail starts at the end of some first parts of these. -/
theorem view_active (h : Captures snapshot segmentId parts)
    (hid : data.segmentId = segmentId.value.toInt)
    (hview : view (journalDataset content finished snapshot) data cursor = .ok (segment, tail)) :
    ∃ shown rest, parts = shown ++ rest ∧ (cursor = none → rest = []) ∧
      (∀ found ∈ cursor, found.activePosition = endOf shown) ∧
        TailOf segmentId shown data.after tail ∧
          segment = segmentOf content (captured segmentId shown) := by
  rw [view, hid, exactSegment_captures h] at hview
  obtain ⟨current, hcurrent, hview⟩ := bind_eq_ok.mp hview
  rw [← Except.ok.inj hcurrent] at hview
  obtain ⟨segmentRef, hpin, hview⟩ := bind_eq_ok.mp hview
  obtain ⟨found, htail, hview⟩ := bind_eq_ok.mp hview
  obtain ⟨opened, hopen, hview⟩ := bind_eq_ok.mp hview
  have hpair := Prod.mk.inj (Except.ok.inj hview)
  rw [hpair.2] at htail
  rw [hpair.1] at hopen
  have hwhole : Captures snapshot segmentId (parts ++ []) := by rwa [List.append_nil]
  have hshown : ∃ shown rest, parts = shown ++ rest ∧ (cursor = none → rest = []) ∧
      (∀ found ∈ cursor, found.activePosition = endOf shown) ∧
        segmentRef = referenceOf (captured segmentId shown) := by
    cases cursor with
    | none =>
      exact ⟨parts, [], (List.append_nil parts).symm, fun _ => rfl,
        fun _ hmem => absurd hmem (Option.not_mem_none _), (Except.ok.inj hpin).symm⟩
    | some cursor =>
      obtain ⟨shown, rest, hsplit, hposition, hfound⟩ := atPosition_boundary hwhole hpin
      refine ⟨shown, rest, hsplit, fun hnone => absurd hnone (by simp), ?_, hfound⟩
      intro found hmem
      rw [← Option.some.inj hmem]
      exact hposition
  obtain ⟨shown, rest, rfl, hnone, hposition, rfl⟩ := hshown
  refine ⟨shown, rest, rfl, hnone, hposition, activeTail_ok h htail, ?_⟩
  exact (Except.ok.inj ((openSegment_captures h).symm.trans hopen)).symm

theorem view_other (h : Captures snapshot segmentId parts)
    (hid : data.segmentId ≠ segmentId.value.toInt)
    (hview : view (journalDataset content finished snapshot) data cursor = .ok (segment, tail)) :
    data.after = none ∧ ∀ found ∈ cursor, found.activePosition = 0 := by
  obtain ⟨current, hcurrent, hview⟩ := bind_eq_ok.mp hview
  obtain ⟨segmentRef, hpin, hview⟩ := bind_eq_ok.mp hview
  obtain ⟨found, htail, -⟩ := bind_eq_ok.mp hview
  have hsegment : (journalDataset content finished snapshot).segment data.segmentId =
      .ok ((finished data.segmentId).map (·.reference)).toList := by
    show (if data.segmentId = snapshot.segmentId.value.toInt then _ else _) = _
    rw [if_neg (by rw [h.segmentId_eq]; exact hid)]
  have hkind : current.kind = .finished := by
    rw [exactSegment, hsegment] at hcurrent
    cases hfinished : finished data.segmentId with
    | none =>
      rw [hfinished] at hcurrent
      cases hcurrent
    | some found =>
      rw [hfinished] at hcurrent
      rw [← Except.ok.inj hcurrent]
      exact found.kind_eq
  have hpinned : (∀ found ∈ cursor, found.activePosition = 0) ∧ segmentRef = current := by
    cases cursor with
    | none => exact ⟨fun _ hmem => absurd hmem (Option.not_mem_none _), (Except.ok.inj hpin).symm⟩
    | some cursor =>
      rw [pin, hkind] at hpin
      dsimp only at hpin
      split at hpin
      · next hzero =>
        refine ⟨?_, (Except.ok.inj hpin).symm⟩
        intro found hmem
        rw [← Option.some.inj hmem]
        exact hzero
      · cases hpin
  obtain ⟨hzero, rfl⟩ := hpinned
  refine ⟨?_, hzero⟩
  cases hafter : data.after with
  | none => rfl
  | some after =>
    rw [hafter, activeTail, if_pos (.inl (by rw [hkind]; decide))] at htail
    cases htail

/-! ## A journal that grows -/

/-- Snapshots of one generation: the first shows these parts, the others may show more. -/
structure Grows (snapshots : Nat → ActiveSnapshot) (segmentId : SegmentId)
    (parts : List (ValidPart crc32c)) : Prop where
  first : Captures (snapshots 0) segmentId parts
  later : ∀ k, ∃ more, Captures (snapshots (k + 1)) segmentId (parts ++ more)

theorem pinned_journal {snapshots : Nat → ActiveSnapshot} (h : Grows snapshots segmentId parts)
    (hid : data.segmentId = segmentId.value.toInt)
    (htail : TailOf segmentId parts data.after tail) :
    Pinned (fun k => journalDataset content finished (snapshots k)) data
      (segmentOf content (captured segmentId parts)) tail where
  id_eq := hid.symm
  first := view_first h.first hid htail
  later k cursor _ hposition := by
    obtain ⟨more, hmore⟩ := h.later k
    exact view_later hmore hid hposition htail

end Kronika.Query
