/-
The recordings that many passes leave.

Recordings are published one after another, and any pass may stop at any removal.  As
long as the clock does not step back, what is left is always the newest that there were.
-/
import Kronika.Collector.Rotation

namespace Kronika.Collector

open Format

variable {tree : DataTree} {ids published : List SegmentId}

/-- The recordings of a tree are those with these ids. -/
def DataTree.Records (tree : DataTree) (ids : List SegmentId) : Prop :=
  ∀ id, .zms id ∈ tree ↔ id ∈ ids

/-- Ids in strictly increasing order. -/
def Increasing (ids : List SegmentId) : Prop := ids.Pairwise fun a b => a.value < b.value

theorem Increasing.nodup (h : Increasing ids) : ids.Nodup := by
  unfold Increasing at h
  refine h.imp fun hlt heq => ?_
  rw [heq] at hlt
  exact Std.lt_irrefl hlt

/-! ## A pass -/

/-- A removal unlinks the files of its candidate in their order, as far as it comes. -/
theorem remove_unlinks (fault : Option Nat) (tree : DataTree) (candidate : Candidate) :
    ∃ gone, gone <+: candidate.names ∧ (candidate.remove fault tree).1 = tree.unlink gone := by
  cases candidate with
  | temporary object =>
    show ∃ gone, gone <+: _ ∧ (tree.removeTemporary fault object).1 = tree.unlink gone
    unfold DataTree.removeTemporary
    split
    · exact ⟨[], List.nil_prefix, rfl⟩
    · cases fault with
      | some unlinked => exact ⟨_, List.take_prefix _ _, rfl⟩
      | none =>
        dsimp only
        split
        · exact ⟨_, List.prefix_refl _, rfl⟩
        · exact ⟨[], List.nil_prefix, rfl⟩
  | orphanIndex id =>
    cases fault with
    | some unlinked => exact ⟨_, List.take_prefix _ _, rfl⟩
    | none => exact ⟨_, List.prefix_refl _, rfl⟩
  | segment id =>
    cases fault with
    | some unlinked => exact ⟨_, List.take_prefix _ _, rfl⟩
    | none => exact ⟨_, List.prefix_refl _, rfl⟩

theorem sweep_unlinks {faults : Candidate → Option Nat} {threshold : Nat}
    (candidates : List Candidate) (state : Sweep) :
    ∃ gone, gone <+: candidates.flatMap Candidate.names ∧
      (sweep faults threshold candidates state).1.tree = state.tree.unlink gone := by
  induction candidates generalizing state with
  | nil => exact ⟨[], List.nil_prefix, rfl⟩
  | cons candidate rest ih =>
    rw [sweep]
    by_cases hfits : state.current ≤ threshold
    · rw [if_pos hfits]
      exact ⟨[], List.nil_prefix, rfl⟩
    · rw [if_neg hfits, List.flatMap_cons]
      dsimp only
      cases hremoval : (candidate.remove (faults candidate) state.tree).2 with
      | error problem =>
        obtain ⟨gone, hfront, hgone⟩ := remove_unlinks (faults candidate) state.tree candidate
        exact ⟨gone, hfront.trans (List.prefix_append _ _), hgone⟩
      | ok freed =>
        obtain ⟨others, hothers, hleft⟩ := ih _
        refine ⟨candidate.names ++ others, (List.prefix_append_right_inj _).mpr hothers, ?_⟩
        rw [hleft, DataTree.unlink_append, (Candidate.remove_ok hremoval).1]

theorem enforce_unlinks (around : Surroundings) (rotation : Rotation) (tree : DataTree)
    (journalBytes now : Nat) :
    ∃ gone, gone <+: (deletionCandidates tree.scan).flatMap Candidate.names ∧
      (rotation.enforce around tree journalBytes now).tree = tree.unlink gone := by
  rw [Rotation.enforce]
  split
  · exact ⟨[], List.nil_prefix, rfl⟩
  · split
    · exact ⟨[], List.nil_prefix, rfl⟩
    · split
      · exact ⟨[], List.nil_prefix, rfl⟩
      · dsimp only
        split
        · exact ⟨[], List.nil_prefix, rfl⟩
        · rw [Pass.ofSweep]
          split
          · exact sweep_unlinks _ _
          · exact sweep_unlinks _ _

theorem zms_of_scan (h : Increasing ids) (hrecords : tree.Records ids) :
    ((deletionCandidates tree.scan).flatMap Candidate.names).filterMap FileName.zms? =
      ids.dropLast := by
  have hsorted : tree.zmsIds.insertionSort ById = ids := by
    have hle : ids.Pairwise ById := by
      unfold Increasing at h
      exact h.imp Std.le_of_lt
    refine List.Perm.eq_of_pairwise (fun a b _ _ hab hba => ?_) (List.pairwise_insertionSort _ _)
      hle ((List.perm_insertionSort _ _).trans ?_)
    · exact SegmentId.ext_value (Std.le_antisymm hab hba)
    · rw [List.perm_ext_iff_of_nodup DataTree.nodup_zmsIds h.nodup]
      exact fun id => DataTree.mem_zmsIds.trans (hrecords id)
  rw [deletionCandidates, segments_of_scan, hsorted, List.filterMap_flatMap, List.flatMap_append,
    List.flatMap_append, List.flatMap_map, List.flatMap_map, List.flatMap_map]
  show _ = [] ++ ([] ++ ids.dropLast)
  exact congrArg₂ _ (List.flatMap_eq_nil_iff.mpr fun _ _ => rfl)
    (congrArg₂ _ (List.flatMap_eq_nil_iff.mpr fun _ _ => rfl) (List.flatMap_singleton' _))

theorem enforce_records (around : Surroundings) (rotation : Rotation) (journalBytes now : Nat)
    (h : Increasing ids) (hrecords : tree.Records ids) :
    ∃ gone left, ids = gone ++ left ∧ (left = [] → ids = []) ∧
      (rotation.enforce around tree journalBytes now).tree.Records left := by
  obtain ⟨names, hfront, hnames⟩ := enforce_unlinks around rotation tree journalBytes now
  have holdest := hfront.filterMap FileName.zms?
  rw [zms_of_scan h hrecords] at holdest
  obtain ⟨left, hleft⟩ := holdest.trans (List.dropLast_prefix ids)
  refine ⟨_, left, hleft.symm, ?_, fun id => ?_⟩
  · intro hnil
    have hlength := holdest.length_le
    rw [hnil, List.append_nil] at hleft
    rw [hleft, List.length_dropLast] at hlength
    exact List.length_eq_zero_iff.mp (by omega)
  · have hmem : .zms id ∈ names ↔ id ∈ names.filterMap FileName.zms? := by
      rw [List.mem_filterMap]
      constructor
      · intro hin
        exact ⟨_, hin, rfl⟩
      · rintro ⟨name, hin, hid⟩
        cases name <;> cases hid
        exact hin
    have hnodup := h.nodup
    rw [← hleft] at hnodup
    have hapart : id ∈ left → id ∉ names.filterMap FileName.zms? :=
      fun hin hout => List.disjoint_of_nodup_append hnodup hout hin
    rw [hnames, DataTree.mem_unlink, hrecords id, hmem, ← hleft, List.mem_append]
    tauto

/-! ## Many passes -/

/-- What became of a directory, with the ids of its recordings in the order they had. -/
inductive Recorded : List SegmentId → DataTree → Prop
  | found {ids : List SegmentId} {tree : DataTree} (h : Increasing ids)
    (hrecords : tree.Records ids) : Recorded ids tree
  | publish {published : List SegmentId} {tree next : DataTree} {id : SegmentId}
    (h : Recorded published tree) (hnew : ∀ other ∈ published, other.value < id.value)
    (hnext : ∀ other, .zms other ∈ next ↔ .zms other ∈ tree ∨ other = id) :
    Recorded (published ++ [id]) next
  /-- Temporaries and indexes come and go. -/
  | beside {published : List SegmentId} {tree next : DataTree} (h : Recorded published tree)
    (hnext : ∀ id, .zms id ∈ next ↔ .zms id ∈ tree) : Recorded published next
  | pass {published : List SegmentId} {tree : DataTree} {around : Surroundings}
    {rotation : Rotation} {journalBytes now : Nat} (h : Recorded published tree) :
    Recorded published (rotation.enforce around tree journalBytes now).tree

theorem Recorded.increasing (h : Recorded published tree) : Increasing published := by
  induction h with
  | found h _ => exact h
  | publish _ hnew _ ih =>
    refine List.pairwise_append.mpr ⟨ih, List.pairwise_singleton _ _, fun a ha b hb => ?_⟩
    exact List.mem_singleton.mp hb ▸ hnew a ha
  | beside _ _ ih => exact ih
  | pass _ ih => exact ih

/-- However many passes were made, and whatever failed in them, the recordings that are left
are the newest of all that were published, and the last of them is among them. -/
theorem newest_recordings_left (h : Recorded published tree) :
    ∃ gone left, published = gone ++ left ∧ (left = [] → published = []) ∧
      tree.Records left := by
  induction h with
  | found _ hrecords => exact ⟨[], _, rfl, id, hrecords⟩
  | publish _ _ hnext ih =>
    obtain ⟨gone, left, rfl, -, hleft⟩ := ih
    refine ⟨gone, left ++ [_], List.append_assoc _ _ _, fun hnil => by simp at hnil, ?_⟩
    intro other
    rw [hnext, hleft other, List.mem_append, List.mem_singleton]
  | beside _ hnext ih =>
    obtain ⟨gone, left, hsplit, hlast, hleft⟩ := ih
    exact ⟨gone, left, hsplit, hlast, fun id => (hnext id).trans (hleft id)⟩
  | pass h ih =>
    obtain ⟨gone, left, rfl, hlast, hleft⟩ := ih
    obtain ⟨older, newer, rfl, hnewer, hrecords⟩ := enforce_records _ _ _ _
      (List.pairwise_append.mp h.increasing).2.1 hleft
    exact ⟨gone ++ older, newer, (List.append_assoc _ _ _).symm, fun hnil => hlast (hnewer hnil),
      hrecords⟩

def publishedTree : DataTree :=
  (fixedRotation.enforce quietSurroundings orphanTree 4 0).tree.insert (.zms (storedId 5)) 10

/-- The first pass removes an index, the one after the publication two recordings. -/
theorem newest_recordings_left_orphanTree :
    (∃ gone left, [storedId 1, storedId 2, storedId 3, storedId 5] = gone ++ left ∧
      (left = [] → [storedId 1, storedId 2, storedId 3, storedId 5] = []) ∧
      (fixedRotation.enforce quietSurroundings publishedTree 4 0).tree.Records left) ∧
    (fixedRotation.enforce quietSurroundings publishedTree 4 0).tree.zmsIds =
      [storedId 5, storedId 3] := by
  have hfound : Recorded [storedId 1, storedId 2, storedId 3] orphanTree := by
    refine .found (by unfold Increasing; decide) fun id => ?_
    rw [← DataTree.mem_zmsIds]
    exact (show orphanTree.zmsIds.Perm _ by decide).mem_iff
  have hpublished : Recorded ([storedId 1, storedId 2, storedId 3] ++ [storedId 5])
      publishedTree := .publish (.pass hfound) (by decide) fun other => by
    rw [publishedTree, AList.mem_insert, FileName.zms.injEq, or_comm]
  exact ⟨newest_recordings_left (.pass hpublished), by decide⟩

end Kronika.Collector
