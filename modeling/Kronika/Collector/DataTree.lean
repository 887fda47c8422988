/-
The files of the data directory, as the collector scans and removes them.

A finished recording is a ZMS file with an index beside it, and both names tell the
segment id.  The calendar directories are left out, since the day of a file is a
function of its id.
-/
import Mathlib.Algebra.BigOperators.Group.List.Basic
import Mathlib.Data.List.AList
import Mathlib.Data.List.Sort
import Kronika.Format.Dictionary
import Kronika.Format.JournalHeader

namespace Kronika.Collector

open Format

inductive TemporaryKind where
  | zms
  | idx
  | indexProbe
deriving DecidableEq

/-- The name `<id>.zms.<pid>.<seq>.tmp`, and those of the index process. -/
structure TemporaryName where
  id : SegmentId
  kind : TemporaryKind
  pid : Nat
  seq : Nat
deriving DecidableEq

inductive FileName where
  | zms (id : SegmentId)
  | idx (id : SegmentId)
  | temporary (name : TemporaryName)
deriving DecidableEq

/-- The leaf files, in the order of the directory walk, with their sizes. -/
abbrev DataTree := AList fun _ : FileName => Nat

def FileName.zms? : FileName → Option SegmentId
  | .zms id => some id
  | _ => none

def FileName.idx? : FileName → Option SegmentId
  | .idx id => some id
  | _ => none

def FileName.temporary? : FileName → Option TemporaryName
  | .temporary name => some name
  | _ => none

/-! ## The scan -/

structure TemporaryObject where
  name : TemporaryName
  bytes : Nat
deriving DecidableEq

structure SegmentArtifacts where
  id : SegmentId
  zmsBytes : Nat
  idxBytes : Option Nat
deriving DecidableEq

structure LayoutSnapshot where
  segments : List SegmentArtifacts
  orphanIndexes : List SegmentId
  temporaries : List TemporaryObject
deriving DecidableEq

def ById (a b : SegmentId) : Prop := a.value ≤ b.value

def TemporaryKind.rank : TemporaryKind → Nat
  | .zms => 0
  | .idx => 1
  | .indexProbe => 2

def ByIdAndKind (a b : TemporaryObject) : Prop :=
  a.name.id.value < b.name.id.value ∨
    a.name.id.value = b.name.id.value ∧ a.name.kind.rank ≤ b.name.kind.rank

instance decidableById : DecidableRel ById := fun a b =>
  inferInstanceAs (Decidable (a.value ≤ b.value))

instance decidableByIdAndKind : DecidableRel ByIdAndKind := fun _ _ =>
  inferInstanceAs (Decidable (_ ∨ _ ∧ _))

namespace DataTree

def bytes (tree : DataTree) (name : FileName) : Nat := (tree.lookup name).getD 0

def zmsIds (tree : DataTree) : List SegmentId := tree.keys.filterMap FileName.zms?

def idxIds (tree : DataTree) : List SegmentId := tree.keys.filterMap FileName.idx?

def temporaryNames (tree : DataTree) : List TemporaryName :=
  tree.keys.filterMap FileName.temporary?

/-- The strict scan of a tree without foreign entries. -/
def scan (tree : DataTree) : LayoutSnapshot where
  segments := (tree.zmsIds.insertionSort ById).map fun id =>
    { id := id, zmsBytes := tree.bytes (.zms id), idxBytes := tree.lookup (.idx id) }
  orphanIndexes := (tree.idxIds.filter fun id => .zms id ∉ tree).insertionSort ById
  temporaries := (tree.temporaryNames.map fun name =>
    { name := name, bytes := tree.bytes (.temporary name) }).insertionSort ByIdAndKind

end DataTree

/-! ## Removal -/

inductive RemoveError where
  | unexpectedLeafEntry
  | io
deriving DecidableEq

structure SegmentRemoval where
  zmsBytes : Nat
  idxBytes : Option Nat
deriving DecidableEq

def SegmentRemoval.totalBytes (removal : SegmentRemoval) : Nat :=
  match removal.idxBytes with
  | some idx => saturatingAdd removal.zmsBytes idx
  | none => removal.zmsBytes

namespace DataTree

def unlink (tree : DataTree) (names : List FileName) : DataTree :=
  names.foldl (fun left name => left.erase name) tree

/- Each operation may fail at any of its system calls.  `fault` says after how many
unlinks it does: what was unlinked before is gone. -/

def removeTemporary (tree : DataTree) (fault : Option Nat) (temporary : TemporaryObject) :
    DataTree × Except RemoveError Unit :=
  if temporary.name.kind ≠ .zms then (tree, .error .unexpectedLeafEntry)
  else
    match fault with
    | some unlinked => (tree.unlink ([FileName.temporary temporary.name].take unlinked), .error .io)
    | none =>
      if FileName.temporary temporary.name ∈ tree then
        (tree.unlink [.temporary temporary.name], .ok ())
      else (tree, .error .io)

def removeOrphanIndex (tree : DataTree) (fault : Option Nat) (id : SegmentId) :
    DataTree × Except RemoveError Nat :=
  match fault with
  | some unlinked => (tree.unlink ([FileName.idx id].take unlinked), .error .io)
  | none => (tree.unlink [.idx id], .ok (tree.bytes (.idx id)))

def removeFinishedSegment (tree : DataTree) (fault : Option Nat) (id : SegmentId) :
    DataTree × Except RemoveError SegmentRemoval :=
  match fault with
  | some unlinked => (tree.unlink ([FileName.zms id, .idx id].take unlinked), .error .io)
  | none =>
    (tree.unlink [.zms id, .idx id],
      .ok { zmsBytes := tree.bytes (.zms id), idxBytes := tree.lookup (.idx id) })

/-! ## What is left after a removal -/

variable {tree : DataTree}

variable {id : SegmentId}

@[simp] theorem mem_zmsIds : id ∈ tree.zmsIds ↔ .zms id ∈ tree := by
  rw [zmsIds, List.mem_filterMap]
  constructor
  · rintro ⟨name, hname, hid⟩
    cases name with
    | zms other => rwa [← Option.some.inj hid]
    | idx other => cases hid
    | temporary other => cases hid
  · intro h
    exact ⟨.zms id, h, rfl⟩

@[simp] theorem mem_idxIds : id ∈ tree.idxIds ↔ .idx id ∈ tree := by
  rw [idxIds, List.mem_filterMap]
  constructor
  · rintro ⟨name, hname, hid⟩
    cases name with
    | zms other => cases hid
    | idx other => rwa [← Option.some.inj hid]
    | temporary other => cases hid
  · intro h
    exact ⟨.idx id, h, rfl⟩

@[simp] theorem mem_temporaryNames {name : TemporaryName} :
    name ∈ tree.temporaryNames ↔ .temporary name ∈ tree := by
  rw [temporaryNames, List.mem_filterMap]
  constructor
  · rintro ⟨file, hfile, hname⟩
    cases file with
    | zms other => cases hname
    | idx other => cases hname
    | temporary other => rwa [← Option.some.inj hname]
  · intro h
    exact ⟨.temporary name, h, rfl⟩

theorem nodup_zmsIds : tree.zmsIds.Nodup := by
  refine tree.keys_nodup.filterMap fun a b id ha hb => ?_
  cases a <;> cases b <;> simp_all [FileName.zms?]

theorem nodup_idxIds : tree.idxIds.Nodup := by
  refine tree.keys_nodup.filterMap fun a b id ha hb => ?_
  cases a <;> cases b <;> simp_all [FileName.idx?]

theorem nodup_temporaryNames : tree.temporaryNames.Nodup := by
  refine tree.keys_nodup.filterMap fun a b name ha hb => ?_
  cases a <;> cases b <;> simp_all [FileName.temporary?]

theorem bytes_erase_of_ne {name other : FileName} (h : name ≠ other) :
    DataTree.bytes (tree.erase other) name = tree.bytes name := by
  rw [bytes, bytes, AList.lookup_erase_ne h]

theorem filterMap_erase_of_none {α β : Type} [DecidableEq α] {f : α → Option β} {a : α}
    (h : f a = none) (l : List α) : (l.erase a).filterMap f = l.filterMap f := by
  induction l with
  | nil => rfl
  | cons b l ih =>
    by_cases hb : b = a
    · rw [hb, List.erase_cons_head, List.filterMap_cons_none h]
    · rw [List.erase_cons_tail (by simpa using hb), List.filterMap_cons, List.filterMap_cons, ih]

variable {name : FileName}

theorem zmsIds_erase_other (h : name.zms? = none) :
    DataTree.zmsIds (tree.erase name) = tree.zmsIds := by
  rw [zmsIds, zmsIds, AList.keys_erase, filterMap_erase_of_none h]

theorem temporaryNames_erase_other (h : name.temporary? = none) :
    DataTree.temporaryNames (tree.erase name) = tree.temporaryNames := by
  rw [temporaryNames, temporaryNames, AList.keys_erase, filterMap_erase_of_none h]

theorem zmsIds_erase (id : SegmentId) :
    (DataTree.zmsIds (tree.erase (.zms id))).Perm (tree.zmsIds.erase id) := by
  rw [List.perm_ext_iff_of_nodup nodup_zmsIds (nodup_zmsIds.erase id)]
  intro other
  rw [mem_zmsIds, AList.mem_erase, nodup_zmsIds.mem_erase_iff, mem_zmsIds]
  exact and_congr_left fun _ => not_congr ⟨fun h => FileName.zms.inj h, fun h => congrArg _ h⟩

theorem temporaryNames_erase (name : TemporaryName) :
    (DataTree.temporaryNames (tree.erase (.temporary name))).Perm
      (tree.temporaryNames.erase name) := by
  rw [List.perm_ext_iff_of_nodup nodup_temporaryNames (nodup_temporaryNames.erase name)]
  intro other
  rw [mem_temporaryNames, AList.mem_erase, nodup_temporaryNames.mem_erase_iff, mem_temporaryNames]
  exact and_congr_left fun _ =>
    not_congr ⟨fun h => FileName.temporary.inj h, fun h => congrArg _ h⟩

variable {names : List FileName}

theorem lookup_unlink (h : name ∉ names) :
    AList.lookup name (tree.unlink names) = tree.lookup name := by
  induction names generalizing tree with
  | nil => rfl
  | cons other names ih =>
    obtain ⟨hne, hrest⟩ := not_or.mp (mt List.mem_cons.mpr h)
    exact (ih hrest).trans (AList.lookup_erase_ne hne)

theorem bytes_unlink (h : name ∉ names) : (tree.unlink names).bytes name = tree.bytes name := by
  rw [bytes, bytes, lookup_unlink h]

theorem mem_unlink : name ∈ tree.unlink names ↔ name ∈ tree ∧ name ∉ names := by
  induction names generalizing tree with
  | nil => simp [unlink]
  | cons other names ih =>
    have hmem : name ∈ DataTree.unlink (tree.erase other) names ↔
        name ∈ tree.erase other ∧ name ∉ names := ih
    rw [List.mem_cons]
    show name ∈ DataTree.unlink (tree.erase other) names ↔ _
    rw [hmem, AList.mem_erase]
    tauto

theorem unlink_append (first second : List FileName) :
    tree.unlink (first ++ second) = (tree.unlink first).unlink second :=
  List.foldl_append

/-! ## The bytes that are counted -/

def segmentBytes (tree : DataTree) (id : SegmentId) : Nat :=
  tree.bytes (.zms id) + tree.bytes (.idx id)

def temporaryBytes (tree : DataTree) (name : TemporaryName) : Nat := tree.bytes (.temporary name)

def countedBytes (tree : DataTree) : Nat :=
  (tree.zmsIds.map tree.segmentBytes).sum + (tree.temporaryNames.map tree.temporaryBytes).sum

theorem countedBytes_erase_temporary {name : TemporaryName} (h : .temporary name ∈ tree) :
    DataTree.countedBytes (tree.erase (.temporary name)) + tree.bytes (.temporary name) =
      tree.countedBytes := by
  have hsegments : (tree.zmsIds.map (DataTree.segmentBytes (tree.erase (.temporary name)))) =
      tree.zmsIds.map tree.segmentBytes := List.map_congr_left fun id _ => by
    rw [segmentBytes, segmentBytes, bytes_erase_of_ne FileName.noConfusion,
      bytes_erase_of_ne FileName.noConfusion]
  have htemporaries : ((tree.temporaryNames.erase name).map
      (DataTree.temporaryBytes (tree.erase (.temporary name)))) =
        (tree.temporaryNames.erase name).map tree.temporaryBytes :=
    List.map_congr_left fun other hother => by
      have hne := (nodup_temporaryNames.mem_erase_iff.mp hother).1
      rw [temporaryBytes, temporaryBytes,
        bytes_erase_of_ne fun heq => hne (FileName.temporary.inj heq)]
  have hsum := List.sum_map_erase tree.temporaryBytes (mem_temporaryNames.mpr h)
  have hname : tree.temporaryBytes name = tree.bytes (.temporary name) := rfl
  rw [countedBytes, countedBytes, zmsIds_erase_other rfl, hsegments,
    ((temporaryNames_erase name).map _).sum_eq, htemporaries]
  omega

theorem countedBytes_erase_idx (h : .zms id ∉ tree) :
    DataTree.countedBytes (tree.erase (.idx id)) = tree.countedBytes := by
  have hsegments : (tree.zmsIds.map (DataTree.segmentBytes (tree.erase (.idx id)))) =
      tree.zmsIds.map tree.segmentBytes := List.map_congr_left fun other hother => by
    have hne : other ≠ id := fun heq => h (heq ▸ mem_zmsIds.mp hother)
    rw [segmentBytes, segmentBytes, bytes_erase_of_ne FileName.noConfusion,
      bytes_erase_of_ne fun heq => hne (FileName.idx.inj heq)]
  have htemporaries : (tree.temporaryNames.map (DataTree.temporaryBytes (tree.erase (.idx id)))) =
      tree.temporaryNames.map tree.temporaryBytes := List.map_congr_left fun name _ => by
    rw [temporaryBytes, temporaryBytes, bytes_erase_of_ne FileName.noConfusion]
  rw [countedBytes, countedBytes, zmsIds_erase_other rfl, temporaryNames_erase_other rfl,
    hsegments, htemporaries]

theorem countedBytes_erase_zms (h : .zms id ∈ tree) :
    DataTree.countedBytes (tree.erase (.zms id)) + tree.segmentBytes id = tree.countedBytes := by
  have hsegments : ((tree.zmsIds.erase id).map (DataTree.segmentBytes (tree.erase (.zms id)))) =
      (tree.zmsIds.erase id).map tree.segmentBytes := List.map_congr_left fun other hother => by
    have hne := (nodup_zmsIds.mem_erase_iff.mp hother).1
    rw [segmentBytes, segmentBytes, bytes_erase_of_ne fun heq => hne (FileName.zms.inj heq),
      bytes_erase_of_ne FileName.noConfusion]
  have htemporaries : (tree.temporaryNames.map (DataTree.temporaryBytes (tree.erase (.zms id)))) =
      tree.temporaryNames.map tree.temporaryBytes := List.map_congr_left fun name _ => by
    rw [temporaryBytes, temporaryBytes, bytes_erase_of_ne FileName.noConfusion]
  have hsum := List.sum_map_erase tree.segmentBytes (mem_zmsIds.mpr h)
  rw [countedBytes, countedBytes, temporaryNames_erase_other rfl, htemporaries,
    ((zmsIds_erase id).map _).sum_eq, hsegments]
  omega

end DataTree

end Kronika.Collector
