/-
Rotation: which files a pass removes to meet the retention target.

A fixed budget limits the counted bytes of the tree and the journal, and `auto` the
used bytes of the partition.  A pass scans the tree, and removes leftover temporaries,
then indexes without a recording, then the oldest recordings, until the running total
fits.  The bytes of an index without a recording are not counted by the scan, but
its removal is credited to the running total of the pass.
-/
import Kronika.Collector.DataTree
import Kronika.Library.Reclaim

namespace Kronika.Collector

open Format Library

def checkInterval : Nat := 60 * 10 ^ 9

def recountInterval : Nat := 3600 * 10 ^ 9

inductive RetentionConfig where
  | fixed (budget : Nat)
  | auto (percent : Nat)
deriving DecidableEq

structure Rotation where
  config : RetentionConfig
  nonJournalBytes : Nat
  lastRecount : Nat
  lastDegradation : Option Nat
  pendingReclaim : Nat
  lastObservedUsed : Option Nat
deriving DecidableEq

structure FilesystemUsage where
  totalBytes : Nat
  usedBytes : Nat

inductive Candidate where
  | temporary (object : TemporaryObject)
  | orphanIndex (id : SegmentId)
  | segment (id : SegmentId)
deriving DecidableEq

/-! ## Candidates -/

/-- Writer temporaries first, then orphan indexes, then oldest segments.  The newest
segment is kept. -/
def deletionCandidates (snapshot : LayoutSnapshot) : List Candidate :=
  (snapshot.temporaries.filter fun object => object.name.kind = .zms).map .temporary ++
    (snapshot.orphanIndexes.map .orphanIndex ++
      (snapshot.segments.take (snapshot.segments.length - 1)).map fun artifacts =>
        .segment artifacts.id)

def countableBytes (snapshot : LayoutSnapshot) : Nat :=
  (snapshot.segments.map (fun artifacts =>
      saturatingAdd artifacts.zmsBytes (artifacts.idxBytes.getD 0)) ++
    snapshot.temporaries.map TemporaryObject.bytes).foldl saturatingAdd 0

namespace Candidate

def remove (fault : Option Nat) (tree : DataTree) :
    Candidate → DataTree × Except RemoveError Nat
  | .temporary object =>
    let removal := tree.removeTemporary fault object
    (removal.1, removal.2.map fun _ => object.bytes)
  | .orphanIndex id => tree.removeOrphanIndex fault id
  | .segment id =>
    let removal := tree.removeFinishedSegment fault id
    (removal.1, removal.2.map SegmentRemoval.totalBytes)

/-- Orphan indexes have no scanned size to subtract from the tree counter. -/
def countedInTree : Candidate → Bool
  | .orphanIndex _ => false
  | _ => true

end Candidate

/-! ## A pass -/

/-- Discharge pending unlinks by the observed drop in partition usage. -/
def reconcilePendingReclaim (pending : Nat) (lastObservedUsed : Option Nat) (usedNow : Nat) : Nat :=
  pending - lastObservedUsed.elim 0 fun last => last - usedNow

def usedThresholdBytes (total percent : Nat) : Nat := min (total * percent / 100) usizeMax

inductive RotationError where
  | scan
  | usage
deriving DecidableEq

/-- The rotation after its usage was read, with the usage and its limit. -/
structure Usage where
  rotation : Rotation
  current : Nat
  threshold : Nat

namespace Rotation

def usage (rotation : Rotation) (observed : Option FilesystemUsage) (journalBytes : Nat) :
    Except RotationError Usage :=
  match rotation.config with
  | .fixed budget =>
    .ok { rotation := rotation, current := saturatingAdd rotation.nonJournalBytes journalBytes
          threshold := budget }
  | .auto percent =>
    match observed with
    | none => .error .usage
    | some usage =>
      let pending := reconcilePendingReclaim rotation.pendingReclaim rotation.lastObservedUsed
        usage.usedBytes
      .ok { rotation := { rotation with
              pendingReclaim := pending
              lastObservedUsed := some usage.usedBytes }
            current := usage.usedBytes - pending
            threshold := usedThresholdBytes usage.totalBytes percent }

/-- The counters after a candidate is gone. -/
def credit (rotation : Rotation) (candidate : Candidate) (freed : Nat) : Rotation :=
  { rotation with
    nonJournalBytes :=
      if candidate.countedInTree then rotation.nonJournalBytes - freed
      else rotation.nonJournalBytes
    pendingReclaim :=
      match rotation.config with
      | .fixed _ => rotation.pendingReclaim
      | .auto _ => saturatingAdd rotation.pendingReclaim freed }

def logDegradation (rotation : Rotation) (now : Nat) : Rotation :=
  if rotation.lastDegradation.any fun last => now - last < checkInterval then rotation
  else { rotation with lastDegradation := some now }

def recountDue (rotation : Rotation) (now : Nat) : Bool :=
  match rotation.config with
  | .fixed _ => recountInterval ≤ now - rotation.lastRecount
  | .auto _ => false

end Rotation

/-- The loop of a pass between two candidates. -/
structure Sweep where
  rotation : Rotation
  tree : DataTree
  current : Nat
  removed : List Candidate

/-- Removes candidates while the total is above the threshold.  An error stops the loop. -/
def sweep (faults : Candidate → Option Nat) (threshold : Nat) :
    List Candidate → Sweep → Sweep × Option RemoveError
  | [], state => (state, none)
  | candidate :: rest, state =>
    if state.current ≤ threshold then (state, none)
    else
      let removal := candidate.remove (faults candidate) state.tree
      match removal.2 with
      | .error problem => ({ state with tree := removal.1 }, some problem)
      | .ok freed =>
        sweep faults threshold rest
          { rotation := state.rotation.credit candidate freed
            tree := removal.1
            current := state.current - freed
            removed := state.removed ++ [candidate] }

/-- What the file system answers during a pass. -/
structure Surroundings where
  scanFails : Bool
  usageBefore : Option FilesystemUsage
  usageAfter : Option FilesystemUsage
  /-- After how many unlinks the removal of a candidate fails. -/
  faults : Candidate → Option Nat

inductive PassEnd where
  /-- The counter fits, and no recount is due. -/
  | idle
  | failed (problem : RotationError)
  | removalFailed (problem : RemoveError)
  | finished
deriving DecidableEq

structure Pass where
  rotation : Rotation
  tree : DataTree
  removed : List Candidate
  ended : PassEnd

/-- The end of a pass.  A removal that failed does not mean that only protected files
remain. -/
def Pass.ofSweep (threshold now : Nat) (swept : Sweep × Option RemoveError) : Pass :=
  match swept.2 with
  | some problem =>
    { rotation := swept.1.rotation, tree := swept.1.tree, removed := swept.1.removed
      ended := .removalFailed problem }
  | none =>
    { rotation := if swept.1.current > threshold then swept.1.rotation.logDegradation now
        else swept.1.rotation
      tree := swept.1.tree
      removed := swept.1.removed
      ended := .finished }

def Rotation.enforce (around : Surroundings) (rotation : Rotation) (tree : DataTree)
    (journalBytes now : Nat) : Pass :=
  match rotation.usage around.usageBefore journalBytes with
  | .error problem =>
    { rotation := rotation, tree := tree, removed := [], ended := .failed problem }
  | .ok before =>
    if before.current ≤ before.threshold ∧ rotation.recountDue now = false then
      { rotation := before.rotation, tree := tree, removed := [], ended := .idle }
    else if around.scanFails then
      { rotation := before.rotation, tree := tree, removed := [], ended := .failed .scan }
    else
      let snapshot := tree.scan
      let counted := { before.rotation with
        nonJournalBytes := countableBytes snapshot
        lastRecount := now }
      match counted.usage around.usageAfter journalBytes with
      | .error problem =>
        { rotation := counted, tree := tree, removed := [], ended := .failed problem }
      | .ok after =>
        .ofSweep after.threshold now (sweep around.faults after.threshold
          (deletionCandidates snapshot)
          { rotation := after.rotation, tree := tree, current := after.current, removed := [] })

/-! ## What a candidate stands for -/

variable {candidate : Candidate}

namespace Candidate

def names : Candidate → List FileName
  | .temporary object => [.temporary object.name]
  | .orphanIndex id => [.idx id]
  | .segment id => [.zms id, .idx id]

/-- The bytes that its removal from a tree frees. -/
def bytes (tree : DataTree) : Candidate → Nat
  | .temporary object => object.bytes
  | .orphanIndex id => tree.bytes (.idx id)
  | .segment id =>
    SegmentRemoval.totalBytes
      { zmsBytes := tree.bytes (.zms id), idxBytes := tree.lookup (.idx id) }

def countedBytes (tree : DataTree) : Candidate → Nat
  | .temporary object => object.bytes
  | .orphanIndex _ => 0
  | .segment id => tree.segmentBytes id

def orphanBytes (tree : DataTree) : Candidate → Nat
  | .orphanIndex id => tree.bytes (.idx id)
  | _ => 0

def creditedBytes (tree : DataTree) (candidate : Candidate) : Nat :=
  if candidate.countedInTree then candidate.bytes tree else 0

def Stands (tree : DataTree) : Candidate → Prop
  | .temporary object => tree.lookup (.temporary object.name) = some object.bytes
  | .orphanIndex id => .idx id ∈ tree ∧ .zms id ∉ tree
  | .segment id => .zms id ∈ tree

def Apart (a b : Candidate) : Prop := a.names.Disjoint b.names

variable {tree : DataTree}

theorem remove_ok {fault : Option Nat} {freed : Nat}
    (h : (candidate.remove fault tree).2 = .ok freed) :
    (candidate.remove fault tree).1 = tree.unlink candidate.names ∧
      freed = candidate.bytes tree := by
  cases candidate with
  | temporary object =>
    simp only [remove, DataTree.removeTemporary] at h ⊢
    by_cases hkind : object.name.kind ≠ .zms
    · rw [if_pos hkind] at h
      cases h
    · rw [if_neg hkind] at h ⊢
      cases fault with
      | some unlinked => cases h
      | none =>
        by_cases hmem : FileName.temporary object.name ∈ tree
        · rw [if_pos hmem] at h ⊢
          exact ⟨rfl, (Except.ok.inj h).symm⟩
        · rw [if_neg hmem] at h
          cases h
  | orphanIndex id =>
    cases fault with
    | some unlinked => cases h
    | none => exact ⟨rfl, (Except.ok.inj h).symm⟩
  | segment id =>
    cases fault with
    | some unlinked => cases h
    | none => exact ⟨rfl, (Except.ok.inj h).symm⟩

theorem bytes_bounds (tree : DataTree) (candidate : Candidate) :
    candidate.bytes tree = candidate.creditedBytes tree + candidate.orphanBytes tree ∧
      candidate.creditedBytes tree ≤ candidate.countedBytes tree ∧
      (candidate.creditedBytes tree = candidate.countedBytes tree ∨
        usizeMax ≤ candidate.creditedBytes tree) := by
  cases candidate with
  | temporary object => exact ⟨rfl, Nat.le_refl _, Or.inl rfl⟩
  | orphanIndex id => exact ⟨(Nat.zero_add _).symm, Nat.le_refl _, Or.inl rfl⟩
  | segment id =>
    have hcredited : (segment id).creditedBytes tree = (segment id).bytes tree := rfl
    rw [hcredited]
    refine ⟨rfl, ?_⟩
    simp only [bytes, SegmentRemoval.totalBytes, countedBytes, DataTree.segmentBytes]
    cases hidx : AList.lookup (FileName.idx id) tree with
    | none => simp [DataTree.bytes, hidx]
    | some size =>
      simp only [DataTree.bytes, hidx, Option.getD_some, saturatingAdd]
      omega

variable {names : List FileName}

theorem bytes_unlink (h : names.Disjoint candidate.names) :
    candidate.bytes (tree.unlink names) = candidate.bytes tree := by
  cases candidate with
  | temporary object => rfl
  | orphanIndex id => exact DataTree.bytes_unlink fun hmem => h hmem List.mem_cons_self
  | segment id =>
    rw [bytes, bytes, DataTree.bytes_unlink fun hmem => h hmem List.mem_cons_self,
      DataTree.lookup_unlink fun hmem => h hmem (List.mem_cons_of_mem _ List.mem_cons_self)]

theorem countedBytes_unlink (h : names.Disjoint candidate.names) :
    candidate.countedBytes (tree.unlink names) = candidate.countedBytes tree := by
  cases candidate with
  | temporary object => rfl
  | orphanIndex id => rfl
  | segment id =>
    rw [countedBytes, countedBytes, DataTree.segmentBytes, DataTree.segmentBytes,
      DataTree.bytes_unlink fun hmem => h hmem List.mem_cons_self,
      DataTree.bytes_unlink fun hmem => h hmem (List.mem_cons_of_mem _ List.mem_cons_self)]

theorem Stands.unlink (h : candidate.Stands tree) (hapart : names.Disjoint candidate.names) :
    candidate.Stands (tree.unlink names) := by
  cases candidate with
  | temporary object =>
    exact (DataTree.lookup_unlink fun hmem => hapart hmem List.mem_cons_self).trans h
  | orphanIndex id =>
    exact ⟨DataTree.mem_unlink.mpr ⟨h.1, fun hmem => hapart hmem List.mem_cons_self⟩,
      fun hmem => h.2 (DataTree.mem_unlink.mp hmem).1⟩
  | segment id =>
    exact DataTree.mem_unlink.mpr ⟨h, fun hmem => hapart hmem List.mem_cons_self⟩

theorem Stands.countedBytes (h : candidate.Stands tree) :
    (tree.unlink candidate.names).countedBytes + candidate.countedBytes tree =
      tree.countedBytes := by
  cases candidate with
  | temporary object =>
    have hbytes : tree.bytes (.temporary object.name) = object.bytes := by
      rw [DataTree.bytes, h, Option.getD_some]
    have hmem : FileName.temporary object.name ∈ tree := by
      rw [← AList.lookup_isSome, h]
      rfl
    have hcounted := DataTree.countedBytes_erase_temporary hmem
    rw [hbytes] at hcounted
    exact hcounted
  | orphanIndex id => exact DataTree.countedBytes_erase_idx h.2
  | segment id =>
    have hgone : FileName.zms id ∉ AList.erase (.zms id) tree :=
      fun hmem => (AList.mem_erase.mp hmem).1 rfl
    have hidx := DataTree.countedBytes_erase_idx hgone
    have hzms := DataTree.countedBytes_erase_zms h
    show DataTree.countedBytes (AList.erase (.idx id) (AList.erase (.zms id) tree)) + _ = _
    rw [hidx]
    exact hzms

theorem Stands.apart {a b : Candidate} (ha : a.Stands tree)
    (hb : b.Stands tree) (hne : a ≠ b) : a.Apart b := by
  intro name hname hother
  cases a with
  | temporary object =>
    cases b with
    | temporary other =>
      have hsame : object.name = other.name := by
        rw [names, List.mem_singleton] at hname hother
        exact FileName.temporary.inj (hname.symm.trans hother)
      have hbytes : object.bytes = other.bytes := by
        have hlookup : tree.lookup (.temporary object.name) = some object.bytes := ha
        rw [hsame] at hlookup
        exact Option.some.inj (hlookup.symm.trans hb)
      apply hne
      cases object
      cases hsame
      cases hbytes
      rfl
    | orphanIndex other => simp_all [names]
    | segment other => simp_all [names]
  | orphanIndex id =>
    cases b with
    | temporary other => simp_all [names]
    | orphanIndex other => simp_all [names]
    | segment other =>
      -- An orphan has no ZMS, and a segment has one.
      have hsame : id = other := by simp_all [names]
      exact ha.2 (hsame ▸ hb)
  | segment id =>
    cases b with
    | temporary other => simp_all [names]
    | orphanIndex other =>
      have hsame : other = id := by
        simp_all [names]
      exact hb.2 (hsame ▸ ha)
    | segment other =>
      have hsame : id = other := by
        rw [names, List.mem_cons, List.mem_singleton] at hname hother
        rcases hname with rfl | rfl
        · simpa using hother
        · simpa using hother
      exact hne (congrArg _ hsame)

end Candidate

/-! ## The candidates of a scan -/

section Scanned

variable {tree : DataTree}

instance total_byId : Std.Total ById where
  total _ _ := Std.le_total

instance trans_byId : IsTrans SegmentId ById where
  trans _ _ _ := Std.le_trans

theorem stands_of_mem (h : candidate ∈ deletionCandidates tree.scan) : candidate.Stands tree := by
  rcases List.mem_append.mp h with htemporary | hrest
  · obtain ⟨object, hobject, rfl⟩ := List.mem_map.mp htemporary
    have hscanned := (List.mem_insertionSort _).mp (List.mem_filter.mp hobject).1
    obtain ⟨name, hname, rfl⟩ := List.mem_map.mp hscanned
    obtain ⟨size, hsize⟩ := Option.isSome_iff_exists.mp
      (AList.lookup_isSome.mpr (DataTree.mem_temporaryNames.mp hname))
    show tree.lookup (.temporary name) = some (tree.bytes (.temporary name))
    rw [DataTree.bytes, hsize, Option.getD_some]
  · rcases List.mem_append.mp hrest with horphan | hsegment
    · obtain ⟨id, hid, rfl⟩ := List.mem_map.mp horphan
      obtain ⟨hidx, hzms⟩ := List.mem_filter.mp ((List.mem_insertionSort _).mp hid)
      exact ⟨DataTree.mem_idxIds.mp hidx, of_decide_eq_true hzms⟩
    · obtain ⟨artifacts, hartifacts, rfl⟩ := List.mem_map.mp hsegment
      obtain ⟨id, hid, rfl⟩ := List.mem_map.mp (List.mem_of_mem_take hartifacts)
      exact DataTree.mem_zmsIds.mp ((List.mem_insertionSort _).mp hid)

theorem segments_of_scan :
    ((tree.scan.segments.take (tree.scan.segments.length - 1)).map fun artifacts =>
      Candidate.segment artifacts.id) =
        ((tree.zmsIds.insertionSort ById).dropLast).map Candidate.segment := by
  have hids : tree.scan.segments.map SegmentArtifacts.id = tree.zmsIds.insertionSort ById := by
    rw [DataTree.scan, List.map_map]
    exact List.map_id _
  rw [← List.dropLast_eq_take, ← hids, ← List.map_dropLast, List.map_map]
  rfl

theorem nodup_candidates : (deletionCandidates tree.scan).Nodup := by
  have htemporaries : tree.scan.temporaries.Nodup := by
    refine (List.perm_insertionSort _ _).nodup_iff.mpr ?_
    refine DataTree.nodup_temporaryNames.map fun a b h => ?_
    exact congrArg TemporaryObject.name h
  have horphans : tree.scan.orphanIndexes.Nodup :=
    (List.perm_insertionSort _ _).nodup_iff.mpr (DataTree.nodup_idxIds.filter _)
  have hsegments : (tree.zmsIds.insertionSort ById).dropLast.Nodup :=
    ((List.perm_insertionSort _ _).nodup_iff.mpr DataTree.nodup_zmsIds).sublist
      (List.dropLast_sublist _)
  rw [deletionCandidates, segments_of_scan]
  refine List.nodup_append'.mpr ⟨?_, List.nodup_append'.mpr ⟨?_, ?_, ?_⟩, ?_⟩
  · exact (htemporaries.filter _).map fun a b h => Candidate.temporary.inj h
  · exact horphans.map fun a b h => Candidate.orphanIndex.inj h
  · exact hsegments.map fun a b h => Candidate.segment.inj h
  · intro candidate ha hb
    obtain ⟨id, _, rfl⟩ := List.mem_map.mp ha
    obtain ⟨other, _, hother⟩ := List.mem_map.mp hb
    cases hother
  · intro candidate ha hb
    obtain ⟨object, _, rfl⟩ := List.mem_map.mp ha
    rcases List.mem_append.mp hb with hb | hb
    · obtain ⟨other, _, hother⟩ := List.mem_map.mp hb
      cases hother
    · obtain ⟨other, _, hother⟩ := List.mem_map.mp hb
      cases hother

theorem apart_candidates : (deletionCandidates tree.scan).Pairwise Candidate.Apart :=
  nodup_candidates.imp_of_mem fun ha hb hne => (stands_of_mem ha).apart (stands_of_mem hb) hne

theorem foldl_saturatingAdd {α : Type} {f g : α → Nat} {l : List α} {total : Nat}
    (hf : ∀ a ∈ l, min (f a) usizeMax = min (g a) usizeMax) (htotal : total ≤ usizeMax) :
    (l.map f).foldl saturatingAdd total = min (total + (l.map g).sum) usizeMax := by
  induction l generalizing total with
  | nil => exact (Nat.min_eq_left htotal).symm
  | cons a l ih =>
    obtain ⟨hfirst, hrest⟩ := List.forall_mem_cons.mp hf
    have hnext : saturatingAdd total (f a) ≤ usizeMax := Nat.min_le_right _ _
    rw [List.map_cons, List.map_cons, List.foldl_cons, List.sum_cons, ih hrest hnext, saturatingAdd]
    omega

theorem countableBytes_scan : countableBytes tree.scan = min tree.countedBytes usizeMax := by
  have hsegments : ∀ artifacts ∈ tree.scan.segments,
      min (saturatingAdd artifacts.zmsBytes (artifacts.idxBytes.getD 0)) usizeMax =
        min (tree.segmentBytes artifacts.id) usizeMax := by
    intro artifacts hartifacts
    obtain ⟨id, _, rfl⟩ := List.mem_map.mp hartifacts
    show min (min (tree.segmentBytes id) usizeMax) usizeMax = min (tree.segmentBytes id) usizeMax
    omega
  have hids : (tree.scan.segments.map fun artifacts => tree.segmentBytes artifacts.id).sum =
      (tree.zmsIds.map tree.segmentBytes).sum := by
    rw [DataTree.scan, List.map_map]
    exact ((List.perm_insertionSort _ _).map _).sum_eq
  have hnames : (tree.scan.temporaries.map TemporaryObject.bytes).sum =
      (tree.temporaryNames.map tree.temporaryBytes).sum := by
    have hperm := (List.perm_insertionSort ByIdAndKind (tree.temporaryNames.map fun name =>
      { name := name, bytes := tree.bytes (.temporary name) })).map TemporaryObject.bytes
    rw [List.map_map] at hperm
    exact hperm.sum_eq
  rw [countableBytes, List.foldl_append, foldl_saturatingAdd hsegments (Nat.zero_le _),
    foldl_saturatingAdd (fun _ _ => rfl) (Nat.min_le_right _ _), DataTree.countedBytes]
  omega

/-! ## Several removals -/

def DataTree.without (tree : DataTree) (removed : List Candidate) : DataTree :=
  tree.unlink (removed.flatMap Candidate.names)

theorem without_append (first second : List Candidate) :
    tree.without (first ++ second) = (tree.without first).without second := by
  rw [DataTree.without, List.flatMap_append, DataTree.unlink_append]
  rfl

theorem without_single (candidate : Candidate) :
    tree.without [candidate] = tree.unlink candidate.names := by
  rw [DataTree.without, List.flatMap_singleton]

theorem disjoint_names {before : List Candidate} (h : ∀ removed ∈ before, removed.Apart candidate) :
    (before.flatMap Candidate.names).Disjoint candidate.names := by
  intro name hname hother
  obtain ⟨removed, hremoved, hmem⟩ := List.mem_flatMap.mp hname
  exact h removed hremoved hmem hother

theorem countedBytes_without {removed : List Candidate}
    (hstands : ∀ candidate ∈ removed, candidate.Stands tree)
    (hapart : removed.Pairwise Candidate.Apart) :
    (tree.without removed).countedBytes + (removed.map (Candidate.countedBytes tree)).sum =
      tree.countedBytes := by
  induction removed using List.reverseRecOn with
  | nil => rfl
  | append_singleton before candidate ih =>
    obtain ⟨hbefore, -, hcross⟩ := List.pairwise_append.mp hapart
    have hdisjoint := disjoint_names fun removed hremoved =>
      hcross removed hremoved candidate List.mem_cons_self
    have hlast : candidate.Stands tree :=
      hstands candidate (List.mem_append_right _ List.mem_cons_self)
    have hstep := (hlast.unlink hdisjoint).countedBytes
    have hsame : candidate.countedBytes (tree.without before) = candidate.countedBytes tree :=
      Candidate.countedBytes_unlink hdisjoint
    have hall := ih (fun removed hremoved => hstands removed (List.mem_append_left _ hremoved))
      hbefore
    rw [without_append, without_single, List.map_append, List.sum_append, List.map_singleton,
      List.sum_singleton]
    rw [← DataTree.without] at hstep
    omega

theorem sum_bytes_bounds (tree : DataTree) (removed : List Candidate) :
    (removed.map (Candidate.bytes tree)).sum =
        (removed.map (Candidate.creditedBytes tree)).sum +
          (removed.map (Candidate.orphanBytes tree)).sum ∧
      (removed.map (Candidate.creditedBytes tree)).sum ≤
        (removed.map (Candidate.countedBytes tree)).sum ∧
      ((removed.map (Candidate.creditedBytes tree)).sum =
          (removed.map (Candidate.countedBytes tree)).sum ∨
        usizeMax ≤ (removed.map (Candidate.creditedBytes tree)).sum) := by
  induction removed with
  | nil => exact ⟨rfl, Nat.le_refl _, Or.inl rfl⟩
  | cons candidate removed ih =>
    have hfirst := candidate.bytes_bounds tree
    simp only [List.map_cons, List.sum_cons]
    omega

/-! ## The loop -/

theorem nonJournalBytes_credit (rotation : Rotation) (candidate : Candidate) :
    (rotation.credit candidate (candidate.bytes tree)).nonJournalBytes =
      rotation.nonJournalBytes - candidate.creditedBytes tree := by
  cases candidate <;> rfl

/-- A loop without an error removes what `reclaimed` takes, with the bytes that each
candidate has in the tree of the scan. -/
theorem sweep_finished {faults : Candidate → Option Nat} {threshold : Nat}
    {candidates before : List Candidate} {state final : Sweep}
    (hapart : (before ++ candidates).Pairwise Candidate.Apart)
    (htree : state.tree = tree.without before)
    (h : sweep faults threshold candidates state = (final, none)) :
    let taken := reclaimed (Candidate.bytes tree) threshold state.current candidates
    final.removed = state.removed ++ taken ∧ final.tree = tree.without (before ++ taken) ∧
      final.rotation.nonJournalBytes =
        remaining (Candidate.creditedBytes tree) state.rotation.nonJournalBytes taken := by
  induction candidates generalizing before state with
  | nil =>
    rw [← (Prod.mk.inj h).1]
    exact ⟨(List.append_nil _).symm, by rw [htree, reclaimed, List.append_nil], rfl⟩
  | cons candidate rest ih =>
    rw [sweep] at h
    rw [reclaimed]
    by_cases hfits : state.current ≤ threshold
    · rw [if_pos hfits] at h ⊢
      rw [← (Prod.mk.inj h).1]
      exact ⟨(List.append_nil _).symm, by rw [htree, List.append_nil], rfl⟩
    · rw [if_neg hfits] at h ⊢
      dsimp only at h
      cases hremoval : (candidate.remove (faults candidate) state.tree).2 with
      | error problem =>
        rw [hremoval] at h
        cases (Prod.mk.inj h).2
      | ok freed =>
        rw [hremoval] at h
        obtain ⟨hgone, hfreed⟩ := Candidate.remove_ok hremoval
        obtain ⟨-, -, hcross⟩ := List.pairwise_append.mp hapart
        have hdisjoint := disjoint_names fun removed hremoved =>
          hcross removed hremoved candidate List.mem_cons_self
        have hbytes : freed = candidate.bytes tree := by
          rw [hfreed, htree]
          exact Candidate.bytes_unlink hdisjoint
        have hnext : (candidate.remove (faults candidate) state.tree).1 =
            tree.without (before ++ [candidate]) := by
          rw [hgone, htree, without_append, without_single]
        have hrest : ((before ++ [candidate]) ++ rest).Pairwise Candidate.Apart := by
          rw [List.append_assoc]
          exact hapart
        obtain ⟨hremoved, hfinal, hcounter⟩ := ih hrest hnext h
        rw [hbytes] at hremoved hfinal hcounter
        refine ⟨?_, ?_, ?_⟩
        · rw [hremoved, List.append_assoc]
          rfl
        · rw [hfinal, List.append_assoc]
          rfl
        · rw [hcounter, remaining_cons, nonJournalBytes_credit]

/-! ## The order of the candidates -/

namespace Candidate

def rank : Candidate → Nat
  | .temporary _ => 0
  | .orphanIndex _ => 1
  | .segment _ => 2

def id : Candidate → SegmentId
  | .temporary object => object.name.id
  | .orphanIndex id => id
  | .segment id => id

/-- Temporaries before orphan indexes before segments, and each of them oldest first. -/
def Precedes (a b : Candidate) : Prop :=
  a.rank < b.rank ∨ a.rank = b.rank ∧ a.id.value ≤ b.id.value

end Candidate

instance total_byIdAndKind : Std.Total ByIdAndKind where
  total a b := by
    rcases Std.lt_trichotomy a.name.id.value b.name.id.value with h | h | h
    · exact Or.inl (Or.inl h)
    · rcases Nat.le_total a.name.kind.rank b.name.kind.rank with hrank | hrank
      · exact Or.inl (Or.inr ⟨h, hrank⟩)
      · exact Or.inr (Or.inr ⟨h.symm, hrank⟩)
    · exact Or.inr (Or.inl h)

instance trans_byIdAndKind : IsTrans TemporaryObject ByIdAndKind where
  trans a b c hab hbc := by
    rcases hab with hab | ⟨hab, hrank⟩
    · rcases hbc with hbc | ⟨hbc, -⟩
      · exact Or.inl (Std.lt_trans hab hbc)
      · exact Or.inl (hbc ▸ hab)
    · rcases hbc with hbc | ⟨hbc, hnext⟩
      · exact Or.inl (hab ▸ hbc)
      · exact Or.inr ⟨hab.trans hbc, Nat.le_trans hrank hnext⟩

theorem ordered_candidates : (deletionCandidates tree.scan).Pairwise Candidate.Precedes := by
  have htemporaries : tree.scan.temporaries.Pairwise ByIdAndKind := List.pairwise_insertionSort _ _
  have horphans : tree.scan.orphanIndexes.Pairwise ById := List.pairwise_insertionSort _ _
  have hsegments : (tree.zmsIds.insertionSort ById).dropLast.Pairwise ById :=
    (List.pairwise_insertionSort _ _).sublist (List.dropLast_sublist _)
  rw [deletionCandidates, segments_of_scan]
  refine List.pairwise_append.mpr ⟨?_, List.pairwise_append.mpr ⟨?_, ?_, ?_⟩, ?_⟩
  · refine List.pairwise_map.mpr ((htemporaries.filter _).imp fun h => Or.inr ⟨rfl, ?_⟩)
    rcases h with h | h
    · exact Std.le_of_lt h
    · exact Std.le_of_eq h.1
  · exact List.pairwise_map.mpr (horphans.imp fun h => Or.inr ⟨rfl, h⟩)
  · exact List.pairwise_map.mpr (hsegments.imp fun h => Or.inr ⟨rfl, h⟩)
  · intro a ha b hb
    obtain ⟨_, _, rfl⟩ := List.mem_map.mp ha
    obtain ⟨_, _, rfl⟩ := List.mem_map.mp hb
    exact Or.inl Nat.one_lt_two
  · intro a ha b hb
    obtain ⟨_, _, rfl⟩ := List.mem_map.mp ha
    rcases List.mem_append.mp hb with hb | hb
    · obtain ⟨_, _, rfl⟩ := List.mem_map.mp hb
      exact Or.inl Nat.zero_lt_one
    · obtain ⟨_, _, rfl⟩ := List.mem_map.mp hb
      exact Or.inl Nat.zero_lt_two

theorem newest_not_mem {id : SegmentId}
    (hnewest : ∀ other, .zms other ∈ tree → other.value ≤ id.value) :
    .segment id ∉ deletionCandidates tree.scan := by
  intro hmem
  have hids : id ∈ (tree.zmsIds.insertionSort ById).dropLast := by
    rw [deletionCandidates, segments_of_scan] at hmem
    rcases List.mem_append.mp hmem with hmem | hmem
    · obtain ⟨_, _, hother⟩ := List.mem_map.mp hmem
      cases hother
    rcases List.mem_append.mp hmem with hmem | hmem
    · obtain ⟨_, _, hother⟩ := List.mem_map.mp hmem
      cases hother
    · obtain ⟨other, hother, hsame⟩ := List.mem_map.mp hmem
      exact Candidate.segment.inj hsame ▸ hother
  have hne : tree.zmsIds.insertionSort ById ≠ [] :=
    List.ne_nil_of_mem (List.mem_of_mem_dropLast hids)
  have hsplit := List.dropLast_append_getLast hne
  have hsorted : (tree.zmsIds.insertionSort ById).Pairwise ById := List.pairwise_insertionSort _ _
  have hnodup : (tree.zmsIds.insertionSort ById).Nodup :=
    (List.perm_insertionSort _ _).nodup_iff.mpr DataTree.nodup_zmsIds
  have hlast := hnewest _ (DataTree.mem_zmsIds.mp
    ((List.mem_insertionSort _).mp (List.getLast_mem hne)))
  rw [← hsplit] at hsorted hnodup
  have hle := (List.pairwise_append.mp hsorted).2.2 id hids _ List.mem_cons_self
  have hsame : id = (tree.zmsIds.insertionSort ById).getLast hne :=
    SegmentId.ext_value (Std.le_antisymm hle hlast)
  exact (List.nodup_append'.mp hnodup).2.2 hids (hsame ▸ List.mem_cons_self)

/-! ## A pass with a fixed budget -/

variable {rotation : Rotation} {budget : Nat}

theorem usage_fixed (h : rotation.config = .fixed budget)
    (observed : Option FilesystemUsage) (journalBytes : Nat) :
    rotation.usage observed journalBytes =
      .ok { rotation := rotation
            current := saturatingAdd rotation.nonJournalBytes journalBytes
            threshold := budget } := by
  rw [Rotation.usage, h]

theorem nonJournalBytes_logDegradation (rotation : Rotation) (now : Nat) :
    (rotation.logDegradation now).nonJournalBytes = rotation.nonJournalBytes := by
  rw [Rotation.logDegradation]
  split <;> rfl

theorem enforce_fixed (around : Surroundings) {rotation : Rotation} {budget : Nat}
    (hconfig : rotation.config = .fixed budget) (journalBytes now : Nat) :
    rotation.enforce around tree journalBytes now =
      if saturatingAdd rotation.nonJournalBytes journalBytes ≤ budget ∧
          rotation.recountDue now = false then
        { rotation := rotation, tree := tree, removed := [], ended := .idle }
      else if around.scanFails then
        { rotation := rotation, tree := tree, removed := [], ended := .failed .scan }
      else
        .ofSweep budget now (sweep around.faults budget (deletionCandidates tree.scan)
          { rotation := { rotation with
              nonJournalBytes := countableBytes tree.scan
              lastRecount := now }
            tree := tree
            current := saturatingAdd (countableBytes tree.scan) journalBytes
            removed := [] }) := by
  have hcounted : ({ rotation with
      nonJournalBytes := countableBytes tree.scan
      lastRecount := now } : Rotation).config = .fixed budget := hconfig
  rw [Rotation.enforce, usage_fixed hconfig]
  dsimp only
  rw [usage_fixed hcounted]

theorem ended_ofSweep {threshold now : Nat} {swept : Sweep × Option RemoveError} :
    (Pass.ofSweep threshold now swept).ended ≠ .idle ∧
      ((Pass.ofSweep threshold now swept).ended = .finished → swept.2 = none) := by
  rw [Pass.ofSweep]
  cases swept.2 with
  | some problem => exact ⟨PassEnd.noConfusion, fun h => PassEnd.noConfusion h⟩
  | none => exact ⟨PassEnd.noConfusion, fun _ => rfl⟩

theorem enforce_idle {around : Surroundings}
    {journalBytes now : Nat} (hconfig : rotation.config = .fixed budget)
    (h : (rotation.enforce around tree journalBytes now).ended = .idle) :
    let pass := rotation.enforce around tree journalBytes now
    pass.removed = [] ∧ pass.tree = tree ∧
      saturatingAdd rotation.nonJournalBytes journalBytes ≤ budget := by
  rw [enforce_fixed around hconfig] at h ⊢
  by_cases hidle : saturatingAdd rotation.nonJournalBytes journalBytes ≤ budget ∧
      rotation.recountDue now = false
  · rw [if_pos hidle]
    exact ⟨rfl, rfl, hidle.1⟩
  · rw [if_neg hidle] at h
    by_cases hscan : around.scanFails = true
    · rw [if_pos hscan] at h
      cases h
    · rw [if_neg hscan] at h
      exact absurd h ended_ofSweep.1

theorem enforce_finished {around : Surroundings}
    {journalBytes now : Nat} (hconfig : rotation.config = .fixed budget)
    (h : (rotation.enforce around tree journalBytes now).ended = .finished) :
    let pass := rotation.enforce around tree journalBytes now
    let taken := reclaimed (Candidate.bytes tree) budget
      (saturatingAdd (countableBytes tree.scan) journalBytes) (deletionCandidates tree.scan)
    pass.removed = taken ∧ pass.tree = tree.without taken ∧
      pass.rotation.nonJournalBytes =
        remaining (Candidate.creditedBytes tree) (countableBytes tree.scan) taken := by
  rw [enforce_fixed around hconfig] at h ⊢
  by_cases hidle : saturatingAdd rotation.nonJournalBytes journalBytes ≤ budget ∧
      rotation.recountDue now = false
  · rw [if_pos hidle] at h
    cases h
  · rw [if_neg hidle] at h ⊢
    by_cases hscan : around.scanFails = true
    · rw [if_pos hscan] at h
      cases h
    · rw [if_neg hscan] at h ⊢
      generalize hswept :
        sweep around.faults budget (deletionCandidates tree.scan) _ = swept at h ⊢
      obtain ⟨final, problem⟩ := swept
      obtain rfl : problem = none := ended_ofSweep.2 h
      have hapart : ([] ++ deletionCandidates tree.scan).Pairwise Candidate.Apart :=
        apart_candidates
      obtain ⟨hremoved, hfinal, hcounter⟩ := sweep_finished hapart rfl hswept
      refine ⟨hremoved, hfinal, ?_⟩
      show (if _ then _ else _ : Rotation).nonJournalBytes = _
      split
      · exact (nonJournalBytes_logDegradation _ _).trans hcounter
      · exact hcounter

/-- What a finished pass with a fixed budget did. -/
structure Reclaimed (tree : DataTree) (budget journalBytes : Nat) (pass : Pass) : Prop where
  removed_isPrefix : pass.removed <+: deletionCandidates tree.scan
  tree_eq : pass.tree = tree.without pass.removed
  /-- Before every removal the counted bytes were above the budget. -/
  needed : ∀ before candidate after, pass.removed = before ++ candidate :: after →
    budget < (tree.without before).countedBytes + journalBytes
  /-- What remains fits, up to the indexes without a recording that were removed, and up to
  what the counter cannot represent. -/
  fits : pass.removed = deletionCandidates tree.scan ∨
    pass.tree.countedBytes + journalBytes ≤
      budget + (pass.removed.map (Candidate.orphanBytes tree)).sum +
        (tree.countedBytes + journalBytes - usizeMax)
  counter_le : pass.rotation.nonJournalBytes ≤ pass.tree.countedBytes
  le_counter : pass.tree.countedBytes ≤
    pass.rotation.nonJournalBytes + (tree.countedBytes - usizeMax)
  newest : ∀ id, .zms id ∈ tree → (∀ other, .zms other ∈ tree → other.value ≤ id.value) →
    AList.lookup (.zms id) pass.tree = tree.lookup (.zms id) ∧
      AList.lookup (.idx id) pass.tree = tree.lookup (.idx id)

theorem newest_kept {removed : List Candidate} {id : SegmentId}
    (hfront : removed <+: deletionCandidates tree.scan) (hzms : .zms id ∈ tree)
    (hnewest : ∀ other, .zms other ∈ tree → other.value ≤ id.value) :
    AList.lookup (.zms id) (tree.without removed) = tree.lookup (.zms id) ∧
      AList.lookup (.idx id) (tree.without removed) = tree.lookup (.idx id) := by
  have hkept : .segment id ∉ removed := fun hmem => newest_not_mem hnewest (hfront.subset hmem)
  refine ⟨DataTree.lookup_unlink ?_, DataTree.lookup_unlink ?_⟩
  · intro hmem
    obtain ⟨candidate, hcandidate, hname⟩ := List.mem_flatMap.mp hmem
    cases candidate with
    | temporary object => simp [Candidate.names] at hname
    | orphanIndex other => simp [Candidate.names] at hname
    | segment other =>
      have hsame : id = other := by simpa [Candidate.names] using hname
      exact hkept (hsame ▸ hcandidate)
  · intro hmem
    obtain ⟨candidate, hcandidate, hname⟩ := List.mem_flatMap.mp hmem
    cases candidate with
    | temporary object => simp [Candidate.names] at hname
    | orphanIndex other =>
      have hsame : id = other := by simpa [Candidate.names] using hname
      exact (stands_of_mem (hfront.subset hcandidate)).2 (hsame ▸ hzms)
    | segment other =>
      have hsame : id = other := by simpa [Candidate.names] using hname
      exact hkept (hsame ▸ hcandidate)

theorem reclaimed_of_taken {budget journalBytes : Nat} {pass : Pass}
    (hremoved : pass.removed = reclaimed (Candidate.bytes tree) budget
      (saturatingAdd (countableBytes tree.scan) journalBytes) (deletionCandidates tree.scan))
    (htree : pass.tree = tree.without pass.removed)
    (hcounter : pass.rotation.nonJournalBytes =
      remaining (Candidate.creditedBytes tree) (countableBytes tree.scan) pass.removed) :
    Reclaimed tree budget journalBytes pass := by
  have hfront : pass.removed <+: deletionCandidates tree.scan := hremoved ▸ reclaimed_isPrefix
  -- The counted bytes after any part of the removed candidates.
  have hcounted : ∀ before, before <+: deletionCandidates tree.scan →
      (tree.without before).countedBytes + (before.map (Candidate.countedBytes tree)).sum =
        tree.countedBytes := fun before hbefore =>
    countedBytes_without (fun candidate hcandidate => stands_of_mem (hbefore.subset hcandidate))
      (apart_candidates.sublist hbefore.sublist)
  refine ⟨hfront, htree, fun before candidate after hsplit => ?_, ?_, ?_, ?_,
    fun id hzms hnewest => htree ▸ newest_kept hfront hzms hnewest⟩
  · have hbefore : before <+: deletionCandidates tree.scan :=
      (hsplit ▸ List.prefix_append before _ : before <+: pass.removed).trans hfront
    have hneeded := reclaimed_needed (hremoved.symm.trans hsplit)
    have hleft := hcounted before hbefore
    have hbytes := sum_bytes_bounds tree before
    rw [remaining, countableBytes_scan, saturatingAdd] at hneeded
    omega
  · rcases @reclaimed_fits _ (Candidate.bytes tree) _ _ _ with hall | hfits
    · exact Or.inl (hremoved.trans hall)
    · rw [← hremoved] at hfits
      have hleft := hcounted pass.removed hfront
      have hbytes := sum_bytes_bounds tree pass.removed
      rw [remaining, countableBytes_scan, saturatingAdd] at hfits
      rw [htree]
      exact Or.inr (by omega)
  · have hleft := hcounted pass.removed hfront
    have hbytes := sum_bytes_bounds tree pass.removed
    rw [hcounter, remaining, countableBytes_scan, htree]
    omega
  · have hleft := hcounted pass.removed hfront
    have hbytes := sum_bytes_bounds tree pass.removed
    rw [hcounter, remaining, countableBytes_scan, htree]
    omega

/-- A pass with a fixed budget removes a prefix of the candidates, and stops when what
remains fits, where the indexes without a recording count as reclaimed. -/
theorem rotation_meets_budget (around : Surroundings) {rotation : Rotation} {budget : Nat}
    (hconfig : rotation.config = .fixed budget) (tree : DataTree) (journalBytes now : Nat) :
    let pass := rotation.enforce around tree journalBytes now
    (deletionCandidates tree.scan).Pairwise Candidate.Precedes ∧
      (pass.ended = .idle → pass.removed = [] ∧ pass.tree = tree ∧
        saturatingAdd rotation.nonJournalBytes journalBytes ≤ budget) ∧
      (pass.ended = .finished → Reclaimed tree budget journalBytes pass) := by
  refine ⟨ordered_candidates, fun hidle => ?_, fun hfinished => ?_⟩
  · exact enforce_idle hconfig hidle
  · obtain ⟨hremoved, htree, hcounter⟩ := enforce_finished hconfig hfinished
    exact reclaimed_of_taken hremoved (hremoved ▸ htree) (hremoved ▸ hcounter)

end Scanned

/-! ## A concrete run -/

theorem representable_zero : representable 0 = true := by decide

def storedId (value : Int64) : SegmentId :=
  (SegmentId.new value).getD ⟨0, representable_zero⟩

def orphanTree : DataTree :=
  [⟨.idx (storedId 4), 6⟩, ⟨.zms (storedId 2), 10⟩, ⟨.zms (storedId 3), 10⟩,
    ⟨.zms (storedId 1), 10⟩].toAList

def fixedRotation : Rotation :=
  { config := .fixed 28, nonJournalBytes := 30, lastRecount := 0, lastDegradation := none
    pendingReclaim := 0, lastObservedUsed := none }

def quietSurroundings : Surroundings :=
  { scanFails := false, usageBefore := none, usageAfter := none, faults := fun _ => none }

/-- The removed index makes the pass stop with the counted bytes above the budget. -/
theorem orphan_stops_early :
    let pass := fixedRotation.enforce quietSurroundings orphanTree 4 0
    pass.ended = .finished ∧ 28 < pass.tree.countedBytes + 4 ∧
      28 < saturatingAdd pass.rotation.nonJournalBytes 4 ∧
      pass.removed ≠ deletionCandidates orphanTree.scan := by
  decide

theorem rotation_meets_budget_orphanTree :
    Reclaimed orphanTree 28 4 (fixedRotation.enforce quietSurroundings orphanTree 4 0) :=
  (rotation_meets_budget quietSurroundings rfl orphanTree 4 0).2.2 (by decide)

end Kronika.Collector
