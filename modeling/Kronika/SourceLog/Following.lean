/-
Following a file that only grows, over whole runs.

A follower reads batches of any size, acknowledges or retries them, and starts again
from the last acknowledged position, while the file grows.  The theorem of this file is
`tail_exactly_once`: the records of the acknowledged batches are the records of the
bytes up to the acknowledged position, framed in one pass.
-/
import Kronika.SourceLog.Batches
import Kronika.Library.Run

namespace Kronika.SourceLog

open Format

inductive TailEvent where
  | readBatch (io : ReadIo) (maxRecords rawLimit : Nat)
  | acknowledge
  | retry
  | grow (added : Bytes)
  | restart

/-- A file, the tail that follows it, and the history that the result is about: the
position that was acknowledged last, the records of the batch handed out last and the
size that it saw, the records of the acknowledged batches and the sizes those saw. -/
structure Follower where
  file : LogFile
  tail : Tail
  committed : Position
  handedOut : List Record
  sizeSeen : Nat
  acknowledged : List Record
  sizes : List Nat

namespace Follower

def start (file : LogFile) : Follower :=
  { file := file
    tail := Tail.new Position.default
    committed := Position.default
    handedOut := []
    sizeSeen := 0
    acknowledged := []
    sizes := [] }

def step (continues : Continues) (trackQuotes : Bool) (follower : Follower) :
    TailEvent → Follower
  | .readBatch io maxRecords rawLimit =>
    let config : BatchConfig :=
      { continues := continues
        maxRecords := maxRecords
        rawLimit := rawLimit
        trackQuotes := trackQuotes }
    match follower.tail.readBatch config io follower.file with
    | (.error _, tail) => { follower with tail := tail }
    | (.ok batch, tail) =>
      { follower with
        tail := tail
        handedOut := batch.records
        sizeSeen := follower.file.bytes.length }
  | .acknowledge =>
    match follower.tail.acknowledge with
    | (none, tail) => { follower with tail := tail }
    | (some position, tail) =>
      { follower with
        tail := tail
        committed := position
        acknowledged := follower.acknowledged ++ follower.handedOut
        sizes := follower.sizes ++ [follower.sizeSeen] }
  | .retry => { follower with tail := follower.tail.retry }
  | .grow added =>
    { follower with file := { follower.file with bytes := follower.file.bytes ++ added } }
  | .restart => { follower with tail := Tail.new follower.committed }

/-- The position is one of the file: of the file itself, or the beginning. -/
def Identified (file : LogFile) (position : Position) : Prop :=
  (position.dev = file.dev ∧ position.inode = file.inode) ∨ position.offset = 0

/-- What has been handed out since the position, and the scan after it. -/
structure HandedOut (continues : Continues) (trackQuotes : Bool) (follower : Follower)
    (high : Nat) (flushes : List Nat) (frames : List OpenRecord) : Prop where
  rested : Rested continues trackQuotes flushes follower.file.bytes
    follower.tail.position.offset high frames follower.tail
  flushed : ∀ frame ∈ frames, frame.endAt ∈ flushes →
    continues frame.lines Text.empty frame.quotesOdd = false
  pendingEnd : follower.tail.pendingEnd =
    if frames = [] then none else some { follower.tail.position with offset := high }
  records : frames ≠ [] →
    follower.handedOut = frames.filterMap OpenRecord.record ∧ flushes ⊆ [follower.sizeSeen]
  identified : frames ≠ [] → follower.tail.position.dev = follower.file.dev ∧
    follower.tail.position.inode = follower.file.inode
  within : ∀ flush ∈ flushes, follower.tail.position.offset < flush ∧ flush ≤ high

/-- The invariant of a follower. -/
structure Inv (continues : Continues) (trackQuotes : Bool) (follower : Follower) : Prop where
  identified : Identified follower.file follower.tail.position
  committed : follower.committed.offset = follower.tail.position.offset ∧
    Identified follower.file follower.committed
  acknowledged : ∃ flushes frames, Framed continues trackQuotes flushes follower.file.bytes 0
      follower.tail.position.offset frames ∧
    follower.acknowledged = frames.filterMap OpenRecord.record ∧
    flushes ⊆ follower.sizes ∧
    (∀ flush ∈ flushes, flush ≤ follower.tail.position.offset) ∧
    ∀ frame ∈ frames, frame.endAt ∈ flushes →
      continues frame.lines Text.empty frame.quotesOdd = false
  handedOut : ∃ high flushes frames, HandedOut continues trackQuotes follower high flushes frames

variable {continues : Continues} {trackQuotes : Bool} {follower : Follower}

theorem HandedOut.fresh {high : Nat} (hhigh : high = follower.tail.position.offset)
    (hle : high ≤ follower.file.bytes.length) (hpending : follower.tail.pendingEnd = none)
    (hrest : ∃ seen, seen <+: follower.file.bytes.drop high ∧
      AtRest continues trackQuotes high seen follower.tail) :
    HandedOut continues trackQuotes follower high [] [] where
  rested := ⟨hhigh ▸ .refl hle, hrest⟩
  flushed := fun _ h => absurd h List.not_mem_nil
  pendingEnd := hpending
  records := fun h => absurd rfl h
  identified := fun h => absurd rfl h
  within := fun _ h => absurd h List.not_mem_nil

theorem inv_start (file : LogFile) : Inv continues trackQuotes (start file) where
  identified := Or.inr rfl
  committed := ⟨rfl, Or.inr rfl⟩
  acknowledged := ⟨[], [], .refl (Nat.zero_le _), rfl, List.nil_subset _,
    fun _ h => absurd h List.not_mem_nil, fun _ h => absurd h List.not_mem_nil⟩
  handedOut := ⟨0, [], [], .fresh rfl (Nat.zero_le _) rfl
    ⟨[], List.nil_prefix, atRest_nil rfl rfl rfl rfl⟩⟩

theorem Inv.withTail (h : Inv continues trackQuotes follower) {tail : Tail}
    (hidentified : Identified follower.file tail.position)
    (hoffset : tail.position.offset = follower.tail.position.offset) {high : Nat}
    {flushes : List Nat} {frames : List OpenRecord} {handedOut : List Record} {sizeSeen : Nat}
    (hhanded : HandedOut continues trackQuotes
      { follower with tail := tail, handedOut := handedOut, sizeSeen := sizeSeen } high flushes
      frames) :
    Inv continues trackQuotes
      { follower with tail := tail, handedOut := handedOut, sizeSeen := sizeSeen } where
  identified := hidentified
  committed := ⟨h.committed.1.trans hoffset.symm, h.committed.2⟩
  acknowledged := by
    rw [hoffset]
    exact h.acknowledged
  handedOut := ⟨high, flushes, frames, hhanded⟩

theorem Inv.offset_le (h : Inv continues trackQuotes follower) :
    follower.tail.position.offset ≤ follower.file.bytes.length := by
  obtain ⟨_, _, hframed, -⟩ := h.acknowledged
  exact hframed.high_le

theorem Inv.rescan (h : Inv continues trackQuotes follower) {tail : Tail}
    (hidentified : Identified follower.file tail.position)
    (hoffset : tail.position.offset = follower.tail.position.offset)
    (hfresh : tail = Tail.new tail.position) :
    Inv continues trackQuotes { follower with tail := tail } := by
  refine h.withTail hidentified hoffset (.fresh rfl (hoffset ▸ h.offset_le) ?_
    ⟨[], List.nil_prefix, atRest_nil ?_ ?_ ?_ ?_⟩) <;> dsimp only <;> rw [hfresh] <;> rfl

theorem Inv.acknowledge (h : Inv continues trackQuotes follower) :
    Inv continues trackQuotes (follower.step continues trackQuotes .acknowledge) := by
  obtain ⟨high, flushes', frames', hhanded⟩ := h.handedOut
  obtain ⟨flushes, frames, hframed, hrecords, hsizes, hle, hrule⟩ := h.acknowledged
  unfold step Tail.acknowledge
  rw [hhanded.pendingEnd]
  by_cases hnil : frames' = []
  · rw [if_pos hnil]
    exact h
  · rw [if_neg hnil]
    obtain ⟨hhandedOut, hsize⟩ := hhanded.records hnil
    obtain ⟨seen, hseen, hrest⟩ := hhanded.rested.atRest
    have hold : ∀ offset, offset ≤ follower.tail.position.offset →
        (offset ∈ flushes ↔ offset ∈ flushes ++ flushes') := by
      intro offset hoffset
      rw [List.mem_append]
      refine ⟨Or.inl, fun hmem => hmem.resolve_right fun hnew => ?_⟩
      have hlow := (hhanded.within offset hnew).1
      omega
    have hnew : ∀ offset, follower.tail.position.offset < offset →
        (offset ∈ flushes' ↔ offset ∈ flushes ++ flushes') := by
      intro offset hoffset
      rw [List.mem_append]
      refine ⟨Or.inr, fun hmem => hmem.resolve_left fun hold => ?_⟩
      have hhigh := hle offset hold
      omega
    have hjoined := (hframed.congr fun offset _ hoffset => hold offset hoffset).trans
      (hhanded.rested.framed.congr fun offset hoffset _ => hnew offset hoffset)
    have hlow : follower.tail.position.offset ≤ high := hhanded.rested.framed.low_le_high
    have hidentified := hhanded.identified hnil
    refine ⟨Or.inl hidentified, ⟨rfl, Or.inl hidentified⟩,
      ⟨flushes ++ flushes', frames ++ frames', hjoined, ?_, ?_, fun flush hflush => ?_,
        fun frame hframe hat => ?_⟩,
      high, [], [], .fresh rfl hhanded.rested.framed.high_le rfl ⟨seen, hseen, hrest.staging _ _⟩⟩
    · show follower.acknowledged ++ follower.handedOut = _
      rw [hrecords, hhandedOut, List.filterMap_append]
    · intro flush hflush
      rcases List.mem_append.mp hflush with hfirst | hsecond
      · exact List.mem_append_left _ (hsizes hfirst)
      · exact List.mem_append_right _ (hsize hsecond)
    · rcases List.mem_append.mp hflush with hfirst | hsecond
      · exact (hle flush hfirst).trans hlow
      · exact (hhanded.within flush hsecond).2
    · rcases List.mem_append.mp hframe with hfirst | hsecond
      · have hend := (hframed.bounds frame hfirst).2
        exact hrule frame hfirst ((hold _ hend).mpr hat)
      · have hend := (hhanded.rested.framed.bounds frame hsecond).1
        exact hhanded.flushed frame hsecond ((hnew _ hend).mpr hat)

theorem Inv.grow (h : Inv continues trackQuotes follower) (added : Bytes) :
    Inv continues trackQuotes (follower.step continues trackQuotes (.grow added)) := by
  obtain ⟨high, flushes', frames', hhanded⟩ := h.handedOut
  obtain ⟨flushes, frames, hframed, hrest⟩ := h.acknowledged
  obtain ⟨seen, hseen, hatRest⟩ := hhanded.rested.atRest
  refine ⟨h.identified, h.committed, ⟨flushes, frames, hframed.grow added, hrest⟩, high, flushes',
    frames', ⟨hhanded.rested.framed.grow added, seen, ?_, hatRest⟩, hhanded.flushed,
    hhanded.pendingEnd, hhanded.records, hhanded.identified, hhanded.within⟩
  show seen <+: (follower.file.bytes ++ added).drop high
  rw [List.drop_append_of_le_length hhanded.rested.framed.high_le]
  exact hseen.trans (List.prefix_append _ _)

theorem readBatch_cases (config : BatchConfig) (io : ReadIo) (file : LogFile) (tail : Tail) :
    (∃ problem, tail.readBatch config io file = (.error problem, tail)) ∨
    (tail.pendingEnd = none ∧
      ((∃ problem, tail.readBatch config io file = (.error problem, tail.follow file)) ∨
      tail.readBatch config io file = (.error .io, (tail.follow file).resetVolatile) ∨
      ∃ batch after, (tail.follow file).scan config file.bytes io.reads = some (batch, after) ∧
        tail.readBatch config io file = (.ok batch, after))) := by
  unfold Tail.readBatch
  split
  · exact Or.inl ⟨_, rfl⟩
  · split
    · exact Or.inl ⟨_, rfl⟩
    · split
      · exact Or.inl ⟨_, rfl⟩
      · rename_i hpending
        have hnone : tail.pendingEnd = none := by simpa using hpending
        split
        · exact Or.inl ⟨_, rfl⟩
        · refine Or.inr ⟨hnone, ?_⟩
          split
          · exact Or.inl ⟨_, rfl⟩
          · cases hscan : (tail.follow file).scan config file.bytes io.reads with
            | none => exact Or.inr (Or.inl rfl)
            | some result => exact Or.inr (Or.inr ⟨result.1, result.2, rfl, rfl⟩)

theorem Inv.follow (h : Inv continues trackQuotes follower)
    (hpending : follower.tail.pendingEnd = none) :
    (follower.tail.follow follower.file).position.dev = follower.file.dev ∧
      (follower.tail.follow follower.file).position.inode = follower.file.inode ∧
      (follower.tail.follow follower.file).position.offset = follower.tail.position.offset ∧
      (follower.tail.follow follower.file).pendingEnd = none ∧
      ∃ seen, seen <+: follower.file.bytes.drop follower.tail.position.offset ∧
        AtRest continues trackQuotes follower.tail.position.offset seen
          (follower.tail.follow follower.file) := by
  obtain ⟨high, flushes, frames, hhanded⟩ := h.handedOut
  have hnil : frames = [] := by
    by_contra hne
    have hsome := hhanded.pendingEnd
    rw [if_neg hne, hpending] at hsome
    cases hsome
  have hhigh : high = follower.tail.position.offset := by
    rw [hhanded.rested.framed.high_eq, hnil]
    rfl
  obtain ⟨seen, hseen, hatRest⟩ := hhanded.rested.atRest
  rw [hhigh] at hseen hatRest
  have hsize : follower.tail.scanOffset ≤ follower.file.bytes.length := by
    have hle := hseen.length_le
    have hoffset := h.offset_le
    rw [List.length_drop] at hle
    rw [hatRest.scanOffset]
    omega
  unfold Tail.follow
  split
  · rename_i hother
    have hzero : follower.tail.position.offset = 0 := by
      rcases h.identified with ⟨hdev, hinode⟩ | hzero
      · rcases hother with hne | hne | hlt
        · exact absurd hdev.symm hne
        · exact absurd hinode.symm hne
        · omega
      · exact hzero
    rw [hzero]
    exact ⟨rfl, rfl, rfl, rfl, [], List.nil_prefix, atRest_nil rfl rfl rfl rfl⟩
  · rename_i hsame
    simp only [not_or, not_not] at hsame
    exact ⟨hsame.1.symm, hsame.2.1.symm, rfl, hpending, seen, hseen, hatRest⟩

theorem Inv.readBatch (h : Inv continues trackQuotes follower) (io : ReadIo)
    (maxRecords rawLimit : Nat) :
    Inv continues trackQuotes
      (follower.step continues trackQuotes (.readBatch io maxRecords rawLimit)) := by
  unfold step
  dsimp only
  rcases readBatch_cases
    { continues := continues
      maxRecords := maxRecords
      rawLimit := rawLimit
      trackQuotes := trackQuotes } io follower.file follower.tail with
    ⟨problem, hread⟩ | ⟨hpending, hcases⟩
  · rw [hread]
    exact h
  · obtain ⟨hdev, hinode, hoffset, hfollow, seen, hseen, hrest⟩ := h.follow hpending
    rcases hcases with ⟨problem, hread⟩ | hread | ⟨batch, after, hscan, hread⟩
    · rw [hread]
      exact h.withTail (Or.inl ⟨hdev, hinode⟩) hoffset
        (.fresh hoffset.symm h.offset_le hfollow ⟨seen, hseen, hrest⟩)
    · rw [hread]
      exact h.rescan (Or.inl ⟨hdev, hinode⟩) hoffset rfl
    · rw [hread]
      rw [← hoffset] at hrest hseen
      obtain ⟨high, flushes, frames, hbatched⟩ := scan_spec hrest (hoffset ▸ h.offset_le) hseen
        hfollow hscan
      have hposition := hbatched.position
      have hhanded : HandedOut continues trackQuotes
          { follower with
            tail := after
            handedOut := batch.records
            sizeSeen := follower.file.bytes.length } high flushes frames := by
        refine ⟨?_, hbatched.flushed, ?_, fun _ => ⟨hbatched.records, hbatched.atEnd⟩, ?_, ?_⟩
        · show Rested _ _ _ _ after.position.offset _ _ after
          rw [hposition]
          exact hbatched.rested
        · show after.pendingEnd = _
          rw [hbatched.pendingEnd, hposition]
        · intro _
          show after.position.dev = _ ∧ after.position.inode = _
          rw [hposition]
          exact ⟨hdev, hinode⟩
        · show ∀ flush ∈ flushes, after.position.offset < flush ∧ flush ≤ high
          rw [hposition]
          exact hbatched.within
      refine h.withTail (Or.inl ?_) ?_ hhanded
      · rw [hposition]
        exact ⟨hdev, hinode⟩
      · rw [hposition]
        exact hoffset

/-- Only an acknowledgement moves the position: a read binds it to the file at most, and a
restart takes the committed one. -/
theorem Inv.position_step (h : Inv continues trackQuotes follower) {event : TailEvent}
    (hevent : event ≠ .acknowledge) :
    (follower.step continues trackQuotes event).committed = follower.committed ∧
      (follower.step continues trackQuotes event).tail.position.offset =
        follower.tail.position.offset ∧
      (follower.tail.position.dev = follower.file.dev →
        follower.tail.position.inode = follower.file.inode → event ≠ .restart →
        (follower.step continues trackQuotes event).tail.position = follower.tail.position) := by
  cases event with
  | acknowledge => exact absurd rfl hevent
  | retry => exact ⟨rfl, rfl, fun _ _ _ => rfl⟩
  | grow added => exact ⟨rfl, rfl, fun _ _ _ => rfl⟩
  | restart => exact ⟨rfl, h.committed.1, fun _ _ hne => absurd rfl hne⟩
  | readBatch io maxRecords rawLimit =>
    have hbound : ∀ tail : Tail, follower.tail.pendingEnd = none →
        tail.position = (follower.tail.follow follower.file).position →
        tail.position.offset = follower.tail.position.offset ∧
          (follower.tail.position.dev = follower.file.dev →
            follower.tail.position.inode = follower.file.inode →
            tail.position = follower.tail.position) := by
      intro tail hpending hposition
      obtain ⟨hdev, hinode, hoffset, -, -⟩ := h.follow hpending
      refine ⟨hposition ▸ hoffset, fun hsame hsame' => ?_⟩
      rw [hposition]
      generalize (follower.tail.follow follower.file).position = followed at *
      cases followed with
      | mk dev inode offset =>
        dsimp only at hdev hinode hoffset
        rw [hdev, hinode, hoffset, ← hsame, ← hsame']
    unfold step
    dsimp only
    rcases readBatch_cases
      { continues := continues
        maxRecords := maxRecords
        rawLimit := rawLimit
        trackQuotes := trackQuotes } io follower.file follower.tail with
      ⟨problem, hread⟩ | ⟨hpending, hcases⟩
    · rw [hread]
      exact ⟨rfl, rfl, fun _ _ _ => rfl⟩
    · rcases hcases with ⟨problem, hread⟩ | hread | ⟨batch, after, hscan, hread⟩
      · rw [hread]
        obtain ⟨hoffset, hsame⟩ := hbound _ hpending rfl
        exact ⟨rfl, hoffset, fun hdev hinode _ => hsame hdev hinode⟩
      · rw [hread]
        obtain ⟨hoffset, hsame⟩ := hbound (follower.tail.follow follower.file).resetVolatile
          hpending rfl
        exact ⟨rfl, hoffset, fun hdev hinode _ => hsame hdev hinode⟩
      · rw [hread]
        obtain ⟨-, -, hoffset', hfollow, seen, hseen, hrest⟩ := h.follow hpending
        rw [← hoffset'] at hrest hseen
        obtain ⟨_, _, _, hbatched⟩ := scan_spec hrest (hoffset' ▸ h.offset_le) hseen hfollow hscan
        obtain ⟨hoffset, hsame⟩ := hbound after hpending hbatched.position
        exact ⟨rfl, hoffset, fun hdev hinode _ => hsame hdev hinode⟩

theorem Inv.step (h : Inv continues trackQuotes follower) (event : TailEvent) :
    Inv continues trackQuotes (follower.step continues trackQuotes event) := by
  cases event with
  | readBatch io maxRecords rawLimit => exact h.readBatch io maxRecords rawLimit
  | acknowledge => exact h.acknowledge
  | retry => exact h.rescan h.identified rfl rfl
  | grow added => exact h.grow added
  | restart => exact h.rescan h.committed.2 h.committed.1 rfl

theorem inv_run (file : LogFile) (events : List TailEvent) :
    Inv continues trackQuotes
      (Run.finish (Follower.step continues trackQuotes) (start file) events) :=
  Run.invariant (fun _ event _ h (_ : True) => h.step event) (inv_start file)
    (Run.Along.of_forall fun _ _ _ => trivial)

end Follower

/-- Over every run, the acknowledged records are those of the bytes up to the position,
framed in one pass with some of the acknowledged reads' ends of file as flushes; the
position is where a frame of the whole file ends, and only acknowledging moves it. -/
theorem tail_exactly_once (continues : Continues) (trackQuotes : Bool) (file : LogFile)
    (events : List TailEvent) {follower : Follower}
    (hrun : follower =
      Run.finish (Follower.step continues trackQuotes) (Follower.start file) events) :
    (∃ flushes, (∀ flush ∈ flushes, flush ∈ follower.sizes) ∧
      (∀ frame ∈ onePass continues trackQuotes flushes
          (follower.file.bytes.take follower.tail.position.offset),
        frame.endAt ∈ flushes → continues frame.lines Text.empty frame.quotesOdd = false) ∧
      follower.acknowledged = (onePass continues trackQuotes flushes
        (follower.file.bytes.take follower.tail.position.offset)).filterMap OpenRecord.record ∧
      (∃ later, onePass continues trackQuotes flushes follower.file.bytes =
        onePass continues trackQuotes flushes
          (follower.file.bytes.take follower.tail.position.offset) ++ later) ∧
      follower.tail.position.offset = ((onePass continues trackQuotes flushes
        (follower.file.bytes.take follower.tail.position.offset)).getLast?.map
          OpenRecord.endAt).getD 0) ∧
    follower.committed.offset = follower.tail.position.offset ∧
    ∀ event, event ≠ .acknowledge →
      (follower.step continues trackQuotes event).committed = follower.committed ∧
        (follower.step continues trackQuotes event).tail.position.offset =
          follower.tail.position.offset ∧
        (follower.tail.position.dev = follower.file.dev →
          follower.tail.position.inode = follower.file.inode → event ≠ .restart →
          (follower.step continues trackQuotes event).tail.position =
            follower.tail.position) := by
  have hinv : Follower.Inv continues trackQuotes follower := by
    rw [hrun]
    exact Follower.inv_run file events
  obtain ⟨flushes, frames, hframed, hrecords, hsizes, -, hrule⟩ := hinv.acknowledged
  obtain ⟨hcut, hlater⟩ := hframed.onePass
  refine ⟨⟨flushes, fun flush hflush => hsizes hflush, ?_⟩, hinv.committed.1,
    fun event hevent => hinv.position_step hevent⟩
  rw [hcut]
  exact ⟨hrule, hrecords, hlater, hframed.high_eq⟩

/-! ## A concrete run -/

def tabbed : Continues := fun _ line _ => line.bytes.head? == some 9

def wholeReads : ReadIo := { opened := true, seeked := true, reads := [64, 64, 64, 64] }

/-- `a`, continued by `b`, and `c`. -/
def tabbedLog : LogFile := { dev := 1, inode := 2, bytes := [97, 10, 9, 98, 10, 99, 10] }

/-- A batch of one record, a batch that is retried, a restart, and a line that arrives
after the record before it was flushed. -/
def tabbedRun : List TailEvent :=
  [.readBatch wholeReads 1 5, .readBatch wholeReads 1 5, .acknowledge, .readBatch wholeReads 8 64,
    .retry, .readBatch wholeReads 8 64, .acknowledge, .grow [9, 100, 10, 101, 10], .restart,
    .readBatch wholeReads 8 64, .acknowledge]

theorem tail_exactly_once_tabbedRun :
    (∃ flushes,
      (Run.finish (Follower.step tabbed false) (Follower.start tabbedLog)
        tabbedRun).acknowledged =
        (onePass tabbed false flushes [97, 10, 9, 98, 10, 99, 10, 9, 100, 10, 101, 10]).filterMap
          OpenRecord.record) ∧
    ((Run.finish (Follower.step tabbed false) (Follower.start tabbedLog)
        tabbedRun).acknowledged.map fun record => record.lines.map Text.bytes) =
      [[[97], [9, 98]], [[99]], [[9, 100]], [[101]]] := by
  refine ⟨?_, by decide +kernel⟩
  obtain ⟨⟨flushes, -, -, hrecords, -, -⟩, -⟩ :=
    tail_exactly_once tabbed false tabbedLog tabbedRun rfl
  refine ⟨flushes, hrecords.trans ?_⟩
  have htake : (Run.finish (Follower.step tabbed false) (Follower.start tabbedLog)
      tabbedRun).file.bytes.take (Run.finish (Follower.step tabbed false)
        (Follower.start tabbedLog) tabbedRun).tail.position.offset =
      [97, 10, 9, 98, 10, 99, 10, 9, 100, 10, 101, 10] := by decide +kernel
  rw [htake]

end Kronika.SourceLog
