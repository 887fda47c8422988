/-
Counter findings and the boundaries of segments.

A section is ordered by the entities of its rows and then by time.  One segment holds, for every
entity, the rows of the prior segments and then those of the target.  A counter is found in the
target where it is found at the same row of the whole.  Two counters see a boundary: the host CPUs,
whose rows are gathered by timestamp, at a timestamp that a prior segment has sampled, and the
selected groups, where a segment does not know the identity that the whole knows.
-/
import Kronika.Index.DetectBlocks
import Kronika.Index.DetectCpu
import Kronika.Library.Reordering

namespace Kronika.Index

open Library FindingBuilder

variable {target whole : Segment} {x : Finding} {requested : List SeriesKey}
  {priors : List Segment} {typeId ordinal place : Nat} {β : Type}

/-! ## Samples read off the rows of a section -/

def sampled (read : Row → Option β) (items : List (Nat × Row)) : List (Nat × β) :=
  items.filterMap fun item => (read item.2).map fun sample => (item.1, sample)

theorem mem_sampled {read : Row → Option β} {items : List (Nat × Row)} {item : Nat × β} :
    item ∈ sampled read items ↔ ∃ row, (item.1, row) ∈ items ∧ read row = some item.2 := by
  rw [sampled, List.mem_filterMap]
  constructor
  · intro h
    obtain ⟨found, hfound, hsome⟩ := h
    obtain ⟨sample, hsample, rfl⟩ := Option.map_eq_some_iff.mp hsome
    exact ⟨found.2, hfound, hsample⟩
  · intro h
    obtain ⟨row, hrow, hread⟩ := h
    refine ⟨(item.1, row), hrow, ?_⟩
    rw [hread]
    rfl

theorem map_sampled (read : Row → Option β) (items : List (Nat × Row)) :
    (sampled read items).map Prod.snd = (items.map Prod.snd).filterMap read :=
  map_snd_filterMap read items

theorem sublist_sampled (read : Row → Option β) (items : List (Nat × Row)) :
    ((sampled read items).map Prod.fst).Sublist (items.map Prod.fst) := by
  induction items with
  | nil => exact List.Sublist.refl _
  | cons item items ih =>
    unfold sampled
    cases hread : read item.2 with
    | none =>
      rw [List.filterMap_cons_none (by rw [hread]; rfl)]
      exact ih.cons item.1
    | some sample =>
      rw [List.filterMap_cons_some (b := (item.1, sample)) (by rw [hread]; rfl)]
      exact ih.cons_cons item.1

/-- The samples of the same rows under other ordinals. -/
theorem sampled_same {read : Row → Option β} {items others : List (Nat × Row)}
    (h : items.map Prod.snd = others.map Prod.snd) {n : Nat} {item : Nat × β}
    (hitem : (sampled read items)[n]? = some item) :
    ∃ (k : Nat) (row : Row) (place : Nat), items[k]? = some (item.1, row) ∧
      others[k]? = some (place, row) ∧ (sampled read others)[n]? = some (place, item.2) := by
  induction items generalizing others n with
  | nil => cases hitem
  | cons first items ih =>
    obtain ⟨other, rest, rfl, hsame, hrest⟩ := List.map_eq_cons_iff.mp h.symm
    cases hread : read first.2 with
    | none =>
      have hnone : read other.2 = none := by rw [hsame, hread]
      rw [sampled, List.filterMap_cons_none (by rw [hread]; rfl)] at hitem
      obtain ⟨k, row, place, hk, hplace, hn⟩ := ih hrest.symm hitem
      refine ⟨k + 1, row, place, hk, hplace, ?_⟩
      rw [sampled, List.filterMap_cons_none (by rw [hnone]; rfl)]
      exact hn
    | some sample =>
      have hsome : read other.2 = some sample := by rw [hsame, hread]
      rw [sampled, List.filterMap_cons_some (b := (first.1, sample)) (by rw [hread]; rfl)] at hitem
      rw [sampled, List.filterMap_cons_some (b := (other.1, sample)) (by rw [hsome]; rfl)]
      cases n with
      | zero =>
        cases hitem
        exact ⟨0, first.2, other.1, rfl, congrArg some (Prod.ext rfl hsame), rfl⟩
      | succ n =>
        obtain ⟨k, row, place, hk, hplace, hn⟩ := ih hrest.symm hitem
        exact ⟨k + 1, row, place, hk, hplace, hn⟩

theorem map_numbered_fst (base : Nat) (rows : List Row) :
    (numbered base rows).map Prod.fst = List.range' base rows.length := by
  induction rows generalizing base with
  | nil => rfl
  | cons row rows ih => rw [numbered, List.map_cons, ih, List.length_cons, List.range'_succ]

theorem nodup_ordinals (segment : Segment) (typeId : Nat) :
    ((everyRow segment typeId).map Prod.fst).Nodup := by
  rw [everyRow, map_numbered_fst]
  exact List.nodup_range'

theorem nodup_sampled (read : Row → Option β) (segment : Segment) (typeId : Nat) :
    ((sampled read (everyRow segment typeId)).map Prod.fst).Nodup :=
  (nodup_ordinals segment typeId).sublist (sublist_sampled read _)

theorem row_unique {segment : Segment} {row row' : Row}
    (hrow : (ordinal, row) ∈ everyRow segment typeId)
    (hrow' : (ordinal, row') ∈ everyRow segment typeId) : row = row' :=
  congrArg Prod.snd (List.inj_on_of_nodup_map (nodup_ordinals segment typeId) hrow hrow' rfl)

theorem place_unique {items : List (Nat × β)} (hnodup : (items.map Prod.fst).Nodup) {n m : Nat}
    {a b : Nat × β} (ha : items[n]? = some a) (hb : items[m]? = some b) (hab : a.1 = b.1) :
    n = m := by
  have hlt : n < (items.map Prod.fst).length := by
    rw [List.length_map]
    exact (List.getElem?_eq_some_iff.mp ha).1
  refine (List.getElem?_inj hlt hnodup).mp ?_
  rw [List.getElem?_map, List.getElem?_map, ha, hb, Option.map_some, Option.map_some, hab]

/-! ## Rows that are cut -/

/-- The columns that tell the entities of a layout apart.  A section is ordered by them first. -/
def identityColumns (typeId : Nat) : List String :=
  if typeId = osCpu then ["cpu_id"]
  else if typeId ∈ databaseLayouts then ["datid"]
  else if typeId = osCgroupMemoryV3 then ["cgroup_path", "cgroup_identity"]
  else if typeId ∈ cgroupMemoryLayouts then ["cgroup_path"]
  else []

abbrev EntityKey := List (Option Query.Cell)

def entityOf (typeId : Nat) (row : Row) : EntityKey := (identityColumns typeId).map row.get

def ofEntity (typeId : Nat) (key : EntityKey) (rows : List Row) : List Row :=
  rows.filter fun row => entityOf typeId row = key

def entityRows (segment : Segment) (typeId : Nat) (key : EntityKey) : List (Nat × Row) :=
  (everyRow segment typeId).filter fun item => entityOf typeId item.2 = key

def rowsOf (segments : List Segment) (typeId : Nat) : List Row :=
  segments.flatMap fun segment => segment.rows typeId

variable {key : EntityKey}

theorem map_entityRows (segment : Segment) :
    (entityRows segment typeId key).map Prod.snd = ofEntity typeId key (segment.rows typeId) := by
  rw [entityRows, ofEntity, ← map_everyRow segment typeId, List.filter_map]
  rfl

theorem ofEntity_append (left right : List Row) :
    ofEntity typeId key (left ++ right) = ofEntity typeId key left ++ ofEntity typeId key right :=
  List.filter_append _ _

theorem filterMap_filter_of {α : Type} {f : α → Option β} {p : α → Bool}
    (h : ∀ a b, f a = some b → p a = true) (items : List α) :
    (items.filter p).filterMap f = items.filterMap f := by
  rw [List.filterMap_filter]
  refine List.filterMap_congr fun a _ => ?_
  cases ha : f a with
  | none => exact ite_self _
  | some b => rw [if_pos (h a b ha)]

theorem filterMap_ofEntity {read : Row → Option β}
    (hread : ∀ row sample, read row = some sample → entityOf typeId row = key) (rows : List Row) :
    (ofEntity typeId key rows).filterMap read = rows.filterMap read :=
  filterMap_filter_of (fun row sample h => decide_eq_true (hread row sample h)) rows

theorem sampled_entityRows {read : Row → Option β}
    (hread : ∀ row sample, read row = some sample → entityOf typeId row = key)
    (segment : Segment) :
    sampled read (entityRows segment typeId key) = sampled read (everyRow segment typeId) := by
  refine filterMap_filter_of (fun item found h => ?_) _
  obtain ⟨sample, hsample, -⟩ := Option.map_eq_some_iff.mp h
  exact decide_eq_true (hread item.2 sample hsample)

def timestamps (rows : List Row) : List Int := rows.filterMap (Query.rowTimestamp · "ts")

def TimeOrdered (rows : List Row) : Prop := (timestamps rows).Pairwise (· ≤ ·)

instance decidableTimeOrdered (rows : List Row) : Decidable (TimeOrdered rows) :=
  inferInstanceAs (Decidable (List.Pairwise _ _))

theorem rowTimestamp_of_get {row : Row} {timestamp : Int}
    (h : row.get "ts" = some (.ts timestamp)) : Query.rowTimestamp row "ts" = some timestamp := by
  rw [Query.rowTimestamp, h]

def counterLayouts : List Nat := counterPasses.map Pass.typeId

/-- Nothing in the later segment is earlier than anything in the earlier one. -/
def UpTo (typeId : Nat) (earlier later : Segment) : Prop :=
  ∀ s ∈ timestamps (earlier.rows typeId), ∀ t ∈ timestamps (later.rows typeId), s ≤ t

/-- The whole holds the rows of the prior segments and of the target, those of an entity in the
order of time. -/
structure Cut (priors : List Segment) (target whole : Segment) : Prop where
  rows : ∀ typeId ∈ counterLayouts, ∀ key, ofEntity typeId key (whole.rows typeId) =
    ofEntity typeId key (rowsOf (priors ++ [target]) typeId)
  ordered : ∀ typeId ∈ counterLayouts, ∀ key, TimeOrdered (ofEntity typeId key (whole.rows typeId))
  apart : ∀ typeId ∈ counterLayouts, (priors ++ [target]).Pairwise (UpTo typeId)
  fit : RowsFit target ∧ RowsFit whole

theorem Cut.split (hcut : Cut priors target whole) (htype : typeId ∈ counterLayouts)
    (key : EntityKey) : ∃ front back, entityRows whole typeId key = front ++ back ∧
      front.map Prod.snd = ofEntity typeId key (rowsOf priors typeId) ∧
      back.map Prod.snd = (entityRows target typeId key).map Prod.snd := by
  have hrows : (entityRows whole typeId key).map Prod.snd =
      ofEntity typeId key (rowsOf priors typeId) ++
        (entityRows target typeId key).map Prod.snd := by
    rw [map_entityRows, map_entityRows, hcut.rows typeId htype, rowsOf, List.flatMap_append,
      List.flatMap_singleton, ofEntity_append]
    rfl
  exact List.map_eq_append_iff.mp hrows

/-- A row of the target and its place in the whole, behind the rows that its entity has in the
prior segments. -/
def SameRow (priors : List Segment) (target whole : Segment) (typeId ordinal place : Nat) : Prop :=
  ∃ key k row, (entityRows target typeId key)[k]? = some (ordinal, row) ∧
    (entityRows whole typeId key)[(ofEntity typeId key (rowsOf priors typeId)).length + k]? =
      some (place, row)

theorem mem_of_entityRows {segment : Segment} {k : Nat} {item : Nat × Row}
    (h : (entityRows segment typeId key)[k]? = some item) :
    item ∈ everyRow segment typeId ∧ entityOf typeId item.2 = key := by
  obtain ⟨hmem, hkey⟩ := List.mem_filter.mp (List.mem_of_getElem? h)
  exact ⟨hmem, of_decide_eq_true hkey⟩

theorem SameRow.rows (h : SameRow priors target whole typeId ordinal place) :
    ∃ row, (ordinal, row) ∈ everyRow target typeId ∧ (place, row) ∈ everyRow whole typeId := by
  obtain ⟨key, k, row, hordinal, hplace⟩ := h
  exact ⟨row, (mem_of_entityRows hordinal).1, (mem_of_entityRows hplace).1⟩

theorem SameRow.unique {other : Nat} (h : SameRow priors target whole typeId ordinal place)
    (h' : SameRow priors target whole typeId ordinal other) : place = other := by
  obtain ⟨key, k, row, hordinal, hplace⟩ := h
  obtain ⟨key', k', row', hordinal', hplace'⟩ := h'
  obtain ⟨hmem, hkey⟩ := mem_of_entityRows hordinal
  obtain ⟨hmem', hkey'⟩ := mem_of_entityRows hordinal'
  have hrow : row = row' := row_unique hmem hmem'
  subst hrow
  have hkeys : key = key' := hkey.symm.trans hkey'
  subst hkeys
  have hnodup : ((entityRows target typeId key).map Prod.fst).Nodup :=
    (nodup_ordinals target typeId).sublist (List.filter_sublist.map _)
  rw [place_unique hnodup hordinal hordinal' rfl, hplace'] at hplace
  exact (congrArg Prod.fst (Option.some.inj hplace)).symm

theorem Cut.exists_place (hcut : Cut priors target whole) (htype : typeId ∈ counterLayouts)
    {row : Row} (hrow : (ordinal, row) ∈ everyRow target typeId) :
    ∃ place, SameRow priors target whole typeId ordinal place := by
  obtain ⟨front, back, hwhole, hfront, hback⟩ := hcut.split htype (entityOf typeId row)
  have hown : (ordinal, row) ∈ entityRows target typeId (entityOf typeId row) :=
    List.mem_filter.mpr ⟨hrow, decide_eq_true rfl⟩
  obtain ⟨k, hk⟩ := List.getElem?_of_mem hown
  have hsame : (back.map Prod.snd)[k]? = some row := by
    rw [hback, List.getElem?_map]
    exact congrArg (Option.map Prod.snd) hk
  rw [List.getElem?_map, Option.map_eq_some_iff] at hsame
  obtain ⟨⟨place, row'⟩, hplace, rfl⟩ := hsame
  refine ⟨place, entityOf typeId row', k, row', hk, ?_⟩
  rw [hwhole, ← hfront, List.length_map, List.getElem?_append_right (Nat.le_add_right _ k),
    Nat.add_sub_cancel_left]
  exact hplace

theorem Cut.lt (hcut : Cut priors target whole)
    (h : SameRow priors target whole typeId ordinal place) : ordinal < 2 ^ 32 ∧ place < 2 ^ 32 := by
  obtain ⟨row, hordinal, hplace⟩ := h.rows
  exact ⟨lt_of_mem_everyRow hcut.fit.1 hordinal, lt_of_mem_everyRow hcut.fit.2 hplace⟩

/-! ## Samples of the whole -/

def samplesOf (line : Segment → List (Nat × β)) (segments : List Segment) : List β :=
  segments.flatMap fun segment => (line segment).map Prod.snd

/-- The samples of the whole are those of the prior segments and then those of the target. -/
structure Carried (line : Segment → List (Nat × β)) (typeId : Nat) (priors : List Segment)
    (target whole : Segment) : Prop where
  samples : (line whole).map Prod.snd = samplesOf line priors ++ (line target).map Prod.snd
  place : ∀ n item, (line target)[n]? = some item → ∃ place,
    SameRow priors target whole typeId item.1 place ∧
      (line whole)[(samplesOf line priors).length + n]? = some (place, item.2)
  back : ∀ ordinal, ∀ item ∈ line whole, SameRow priors target whole typeId ordinal item.1 →
    (ordinal, item.2) ∈ line target
  nodup : ((line whole).map Prod.fst).Nodup
  lt : ∀ item ∈ line whole, item.1 < 2 ^ 32

variable {line : Segment → List (Nat × β)}

/-- The same finding at another row. -/
def Finding.at (x : Finding) (place : Nat) : Finding := { x with rowOrdinal := UInt32.ofNat place }

theorem toNat_ordinal {ordinal other : Nat} (hlt : ordinal < 2 ^ 32) (hother : other < 2 ^ 32)
    (h : UInt32.ofNat ordinal = UInt32.ofNat other) : ordinal = other := by
  have hnat := congrArg UInt32.toNat h
  rw [UInt32.toNat_ofNat', UInt32.toNat_ofNat', Nat.mod_eq_of_lt hlt, Nat.mod_eq_of_lt hother]
    at hnat
  exact hnat

variable {field : UInt16} {timestamp : Int}

theorem knownBad_at :
    (knownBad field ordinal timestamp).at place = knownBad field place timestamp := rfl

theorem eq_knownBad_of_at (h : x.at place = knownBad field ordinal timestamp) :
    x = knownBad field x.rowOrdinal.toNat timestamp := by
  obtain ⟨kind, fieldOrdinal, rowOrdinal, stored, category⟩ := x
  rw [Finding.at, knownBad, Finding.mk.injEq] at h
  obtain ⟨rfl, rfl, -, rfl, rfl⟩ := h
  rw [knownBad, UInt32.ofNat_toNat]

/-- What holds of the samples up to one of the target holds of the samples of the whole up to the
one of the same row. -/
theorem Carried.found_iff (h : Carried line typeId priors target whole)
    (hcut : Cut priors target whole) (Grown : List β → Nat → Prop) (time : β → Int)
    (field : UInt16) (x : Finding) :
    (∃ n item, (line target)[n]? = some item ∧
      Grown (samplesOf line priors ++ (line target).map Prod.snd)
        ((samplesOf line priors).length + n) ∧ x = knownBad field item.1 (time item.2)) ↔
    ∃ place, SameRow priors target whole typeId x.rowOrdinal.toNat place ∧
      ∃ m item, (line whole)[m]? = some item ∧ Grown ((line whole).map Prod.snd) m ∧
        x.at place = knownBad field item.1 (time item.2) := by
  rw [← h.samples]
  constructor
  · intro hfound
    obtain ⟨n, item, hitem, hgrown, hx⟩ := hfound
    obtain ⟨place, hplace, hmem⟩ := h.place n item hitem
    have hordinal : x.rowOrdinal.toNat = item.1 := by
      rw [hx]
      show (UInt32.ofNat item.1).toNat = item.1
      rw [UInt32.toNat_ofNat', Nat.mod_eq_of_lt (hcut.lt hplace).1]
    refine ⟨place, ?_, _, _, hmem, hgrown, ?_⟩
    · rw [hordinal]
      exact hplace
    · rw [hx, knownBad_at]
  · intro hfound
    obtain ⟨place, hplace, m, item, hm, hgrown, hx⟩ := hfound
    have hmem := List.mem_of_getElem? hm
    have heq : place = item.1 := toNat_ordinal (hcut.lt hplace).2 (h.lt item hmem)
      (congrArg Finding.rowOrdinal hx)
    rw [heq] at hplace
    obtain ⟨n, hn⟩ := List.getElem?_of_mem (h.back _ item hmem hplace)
    obtain ⟨other, hother, hwhole⟩ := h.place n _ hn
    rw [← hplace.unique hother] at hwhole
    refine ⟨n, _, hn, ?_, eq_knownBad_of_at hx⟩
    rw [place_unique h.nodup hwhole hm rfl]
    exact hgrown

theorem carried_sampled (hcut : Cut priors target whole) (htype : typeId ∈ counterLayouts)
    (read : Row → Option β)
    (hread : ∀ row sample, read row = some sample → entityOf typeId row = key) :
    Carried (fun segment => sampled read (everyRow segment typeId)) typeId priors target whole := by
  obtain ⟨front, back, hwhole, hfront, hback⟩ := hcut.split htype key
  have hline : sampled read (everyRow whole typeId) = sampled read front ++ sampled read back := by
    rw [← sampled_entityRows hread, hwhole]
    exact List.filterMap_append
  have hearlier : (sampled read front).map Prod.snd =
      samplesOf (fun segment => sampled read (everyRow segment typeId)) priors := by
    rw [map_sampled, hfront, filterMap_ofEntity hread, rowsOf, List.filterMap_flatMap]
    refine List.flatMap_congr fun segment _ => ?_
    rw [map_sampled, map_everyRow]
  constructor
  · rw [hline, List.map_append, hearlier, map_sampled read back, hback, ← map_sampled,
      sampled_entityRows hread]
  · intro n item hitem
    rw [← sampled_entityRows hread] at hitem
    obtain ⟨k, row, place, hk, hplace, hn⟩ := sampled_same hback.symm hitem
    refine ⟨place, ⟨key, k, row, hk, ?_⟩, ?_⟩
    · rw [hwhole, ← hfront, List.length_map, List.getElem?_append_right (Nat.le_add_right _ k),
        Nat.add_sub_cancel_left]
      exact hplace
    · rw [hline, ← hearlier, List.length_map, List.getElem?_append_right (Nat.le_add_right _ n),
        Nat.add_sub_cancel_left]
      exact hn
  · intro ordinal item hitem hsame
    obtain ⟨row, hrow, hsample⟩ := mem_sampled.mp hitem
    obtain ⟨row', hordinal, hplace⟩ := hsame.rows
    rw [row_unique hplace hrow] at hordinal
    exact mem_sampled.mpr ⟨row, hordinal, hsample⟩
  · exact nodup_sampled read whole typeId
  · intro item hitem
    obtain ⟨row, hrow, -⟩ := mem_sampled.mp hitem
    exact lt_of_mem_everyRow hcut.fit.2 hrow

/-! ## The counters that are compared with the sample just before -/

def Found (requested : List SeriesKey) (priors : List Segment) (target : Segment) (typeId : Nat)
    (field : UInt16) (x : Finding) : Prop :=
  x ∈ counterFindings requested priors target typeId ∧ x.fieldOrdinal = field

def Asked (requested : List SeriesKey) (typeId : Nat) : Prop :=
  (FindingBuilder.new requested).requested.contains typeId = true

/-- A counter as the samples of its entities, with the ordinals of their rows. -/
structure CounterLine where
  typeId : Nat
  field : UInt16
  line : Segment → Nat → List (Nat × Sample)

def Counter.toLine (counter : Counter) : CounterLine where
  typeId := counter.typeId
  field := counter.field
  line := counter.line

/-- The kills in the selected groups, with the identities that each segment knows. -/
def selectedCounter : CounterLine where
  typeId := osCgroupMemoryV3
  field := cgroupOomKillField osCgroupMemoryV3
  line segment := onlyZero (selectedLine segment)

def counterLines : List CounterLine := rowCounters.map Counter.toLine ++ [selectedCounter]

/-- It is found in the whole at the same row. -/
def FoundInWhole (requested : List SeriesKey) (priors : List Segment) (target whole : Segment)
    (typeId : Nat) (field : UInt16) (x : Finding) : Prop :=
  ∃ place, SameRow priors target whole typeId x.rowOrdinal.toNat place ∧
    Found requested [] whole typeId field (x.at place)

namespace CounterLine

variable {counter : CounterLine}

def samples (counter : CounterLine) (segments : List Segment) (entity : Nat) : List Sample :=
  samplesOf (counter.line · entity) segments

def finding (counter : CounterLine) (item : Nat × Sample) : Finding :=
  knownBad counter.field item.1 item.2.timestamp

theorem found_iff (hcounter : counter ∈ counterLines) (hasked : Asked requested counter.typeId)
    (hfit : RowsFit target) :
    Found requested priors target counter.typeId counter.field x ↔
      ∃ entity n item, (counter.line target entity)[n]? = some item ∧
        GrownAt Sample.grown (counter.samples priors entity ++
          (counter.line target entity).map Prod.snd)
          ((counter.samples priors entity).length + n) ∧ x = counter.finding item := by
  rcases List.mem_append.mp hcounter with hrow | hselected
  · obtain ⟨source, hsource, rfl⟩ := List.mem_map.mp hrow
    exact rowCounter_found hsource hasked hfit
  · rw [List.mem_singleton.mp hselected] at hasked ⊢
    have hzero : (∃ entity n, FoundIn Sample.grown selectedFinding
        (selectedCounter.samples priors entity) (onlyZero (selectedLine target) entity) n x) ↔
        ∃ n, FoundIn Sample.grown selectedFinding (selectedSamples priors) (selectedLine target)
          n x := exists_onlyZero
    exact (selected_found hasked hfit).trans hzero.symm

theorem found_whole (hcounter : counter ∈ counterLines) (hasked : Asked requested counter.typeId)
    (hfit : RowsFit whole) :
    Found requested [] whole counter.typeId counter.field x ↔
      ∃ entity n item, (counter.line whole entity)[n]? = some item ∧
        GrownAt Sample.grown ((counter.line whole entity).map Prod.snd) n ∧
        x = counter.finding item := by
  rw [found_iff hcounter hasked hfit]
  refine exists_congr fun entity => exists_congr fun n => exists_congr fun item => ?_
  show _ ∧ GrownAt Sample.grown ([] ++ _) (0 + n) ∧ _ ↔ _
  rw [List.nil_append, Nat.zero_add]

/-- A counter is found in the target where it is found at the same row of the whole. -/
theorem found_cut (hcounter : counter ∈ counterLines) (hasked : Asked requested counter.typeId)
    (hcut : Cut priors target whole)
    (hcarried : ∀ entity, Carried (counter.line · entity) counter.typeId priors target whole) :
    Found requested priors target counter.typeId counter.field x ↔
      FoundInWhole requested priors target whole counter.typeId counter.field x := by
  rw [found_iff hcounter hasked hcut.fit.1, FoundInWhole]
  simp only [found_whole hcounter hasked hcut.fit.2]
  constructor
  · intro h
    obtain ⟨entity, hfound⟩ := h
    obtain ⟨place, hplace, hwhole⟩ :=
      ((hcarried entity).found_iff hcut (GrownAt Sample.grown) Sample.timestamp _ _).mp hfound
    exact ⟨place, hplace, entity, hwhole⟩
  · intro h
    obtain ⟨place, hplace, entity, hwhole⟩ := h
    exact ⟨entity, ((hcarried entity).found_iff hcut (GrownAt Sample.grown) Sample.timestamp
      _ _).mpr ⟨place, hplace, hwhole⟩⟩

end CounterLine

/-! ### What a cut leaves of the samples -/

theorem mem_counterLayouts {counter : Counter} (h : counter ∈ rowCounters) :
    counter.typeId ∈ counterLayouts := by
  obtain ⟨pass, hpass, view, hread⟩ := exists_readBy h
  rw [← hread.typeId]
  exact List.mem_map_of_mem hpass

/-- The samples of an entity are read off rows with the same identity. -/
def Counter.Keyed (counter : Counter) (key : Nat → EntityKey) : Prop :=
  ∀ row entity sample, counter.read row = some (entity, sample) →
    entityOf counter.typeId row = key entity

theorem keyed_of_database {counter : Counter} (htype : counter.typeId ∈ databaseLayouts)
    (hread : ∀ row entity sample, counter.read row = some (entity, sample) →
      ∃ found, databaseSample row = some (entity, found)) :
    counter.Keyed fun datid => [some (.u32 datid)] := by
  intro row datid sample h
  obtain ⟨found, hfound⟩ := hread row datid sample h
  have hne : counter.typeId ≠ osCpu := by
    intro heq
    rw [heq] at htype
    exact absurd htype (by decide)
  rw [entityOf, identityColumns, if_neg hne, if_pos htype, List.map_singleton,
    (databaseSample_eq_some hfound).2.1]

theorem fst_of_map {σ τ : Type} {found : Option (Nat × σ)} {place : Nat × σ → τ} {entity : Nat}
    {sample : τ} (h : (found.map fun item => (item.1, place item)) = some (entity, sample)) :
    ∃ rest, found = some (entity, rest) := by
  obtain ⟨⟨first, rest⟩, hfound, hpair⟩ := Option.map_eq_some_iff.mp h
  cases hpair
  exact ⟨rest, hfound⟩

theorem keyed_of_cgroup (htype : identityColumns typeId = ["cgroup_path"]) :
    (Counter.cgroupOom typeId).Keyed fun path => [some (.strId path)] := by
  intro row path sample h
  obtain ⟨found, hfound⟩ := fst_of_map h
  show (identityColumns typeId).map row.get = _
  rw [htype, List.map_singleton, (cgroupSample_eq_some hfound).2.1]

theorem keyed_of_sessions {field : UInt16} {pick : Int × Int → Int}
    (htype : typeId ∈ databaseLayouts) :
    (Counter.sessions field pick typeId).Keyed fun datid => [some (.u32 datid)] := by
  refine keyed_of_database htype fun row datid sample h => ?_
  obtain ⟨⟨entity, rest⟩, hfound, hsome⟩ := Option.bind_eq_some_iff.mp h
  obtain ⟨ended, -, hpair⟩ := Option.map_eq_some_iff.mp hsome
  cases hpair
  exact ⟨rest, hfound⟩

theorem exists_keyed {counter : Counter} (h : counter ∈ rowCounters) :
    ∃ key, counter.Keyed key := by
  rw [rowCounters, List.mem_append, List.mem_append, List.mem_append, List.mem_append,
    List.mem_append] at h
  rcases h with ((((h | h) | h) | h) | h) | h
  · refine ⟨fun _ => [], fun row entity sample _ => ?_⟩
    rcases List.mem_cons.mp h with rfl | h
    · rfl
    · rw [List.mem_singleton.mp h]
      rfl
  · obtain ⟨layout, hlayout, rfl⟩ := List.mem_map.mp h
    exact ⟨_, keyed_of_database hlayout fun _ _ _ => fst_of_map⟩
  · obtain ⟨layout, hlayout, rfl⟩ := List.mem_map.mp h
    exact ⟨_, keyed_of_database (List.mem_filter.mp hlayout).1 fun _ _ _ => fst_of_map⟩
  · obtain ⟨layout, hlayout, rfl⟩ := List.mem_map.mp h
    exact ⟨_, keyed_of_sessions (List.mem_filter.mp hlayout).1⟩
  · obtain ⟨layout, hlayout, rfl⟩ := List.mem_map.mp h
    exact ⟨_, keyed_of_sessions (List.mem_filter.mp hlayout).1⟩
  · rcases List.mem_cons.mp h with rfl | h
    · exact ⟨_, keyed_of_cgroup (by decide)⟩
    · rw [List.mem_singleton.mp h]
      exact ⟨_, keyed_of_cgroup (by decide)⟩

theorem toLine_carried {counter : Counter} (h : counter ∈ rowCounters)
    (hcut : Cut priors target whole) (entity : Nat) :
    Carried (counter.toLine.line · entity) counter.typeId priors target whole := by
  obtain ⟨key, hkeyed⟩ := exists_keyed h
  have hread : ∀ row sample, counter.rule.sampleOf entity row = some sample →
      entityOf counter.typeId row = key entity :=
    fun row sample hsample => hkeyed row entity sample (Adjacent.sampleOf_eq_some.mp hsample)
  exact carried_sampled hcut (mem_counterLayouts h) _ hread

/-! ### The selected groups -/

/-- The sample of a row of the selected groups. -/
def selectedRead (identities : List (Int × Option Nat)) (row : Row) : Option Sample :=
  match row.get "ts" with
  | some (.ts timestamp) =>
    some (selectedSample identities (timestamp, optionalI64 (row.get "oom_kill")))
  | _ => none

variable {segment : Segment}

theorem selectedLine_perm (segment : Segment) : (selectedLine segment).Perm
    (sampled (selectedRead (cgroupIdentities segment)) (everyRow segment osCgroupMemoryV3)) := by
  rw [selectedLine, selectedOomSamples]
  refine ((List.perm_insertionSort _ _).map _).trans (List.Perm.of_eq ?_)
  rw [List.map_filterMap]
  refine List.filterMap_congr fun item _ => ?_
  unfold selectedRead
  cases item.2.get "ts" with
  | none => rfl
  | some cell => cases cell <;> rfl

theorem selectedLine_rows (segment : Segment) : ((selectedLine segment).map Prod.snd).Perm
    ((segment.rows osCgroupMemoryV3).filterMap (selectedRead (cgroupIdentities segment))) := by
  rw [← map_everyRow segment osCgroupMemoryV3, ← map_sampled]
  exact (selectedLine_perm segment).map _

theorem map_selectedRead (identities : List (Int × Option Nat)) (rows : List Row) :
    (rows.filterMap (selectedRead identities)).map Sample.timestamp = timestamps rows := by
  rw [List.map_filterMap]
  refine List.filterMap_congr fun row _ => ?_
  unfold selectedRead Query.rowTimestamp
  cases row.get "ts" with
  | none => rfl
  | some cell => cases cell <;> rfl

theorem selectedLine_sorted (segment : Segment) :
    ((selectedLine segment).map Prod.snd).Pairwise fun a b => a.timestamp ≤ b.timestamp := by
  have htotal : Std.Total fun a b : Int × Nat × Option Int =>
      a.1 < b.1 ∨ a.1 = b.1 ∧ a.2.1 ≤ b.2.1 := ⟨fun a b => by omega⟩
  have htrans : IsTrans (Int × Nat × Option Int) fun a b =>
      a.1 < b.1 ∨ a.1 = b.1 ∧ a.2.1 ≤ b.2.1 := ⟨fun a b c hab hbc => by omega⟩
  rw [selectedLine, selectedOomSamples, List.map_map, List.pairwise_map]
  refine (List.pairwise_insertionSort _ _).imp ?_
  intro a b hab
  show a.1 ≤ b.1
  omega

/-- Every segment knows the identity of its samples as the whole does. -/
def SameIdentities (priors : List Segment) (target whole : Segment) : Prop :=
  ∀ segment ∈ priors ++ [target], ∀ timestamp ∈ timestamps (segment.rows osCgroupMemoryV3),
    identityAt (cgroupIdentities segment) timestamp = identityAt (cgroupIdentities whole) timestamp

theorem selectedRead_same (h : SameIdentities priors target whole) {segment : Segment}
    (hsegment : segment ∈ priors ++ [target]) {row : Row}
    (hrow : row ∈ segment.rows osCgroupMemoryV3) :
    selectedRead (cgroupIdentities segment) row = selectedRead (cgroupIdentities whole) row := by
  unfold selectedRead
  split
  · next timestamp hts =>
    have hsampled : timestamp ∈ timestamps (segment.rows osCgroupMemoryV3) :=
      List.mem_filterMap.mpr ⟨row, hrow, rowTimestamp_of_get hts⟩
    rw [selectedSample, selectedSample, h segment hsegment timestamp hsampled]
  · rfl

theorem rising_of_nodup {samples : List Sample}
    (h : samples.Pairwise fun a b => a.timestamp ≤ b.timestamp)
    (hnodup : (samples.map Sample.timestamp).Nodup) :
    samples.Pairwise fun a b => a.timestamp < b.timestamp := by
  refine (h.and (List.pairwise_map.mp hnodup)).imp ?_
  intro a b hab
  exact lt_of_le_of_ne hab.1 hab.2

theorem samplesOf_sorted (hcut : Cut priors target whole) :
    (samplesOf selectedLine (priors ++ [target])).Pairwise
      fun a b => a.timestamp ≤ b.timestamp := by
  refine List.pairwise_flatMap.mpr ⟨fun segment _ => selectedLine_sorted segment, ?_⟩
  have hsampled : ∀ (segment : Segment) (sample : Sample),
      sample ∈ (selectedLine segment).map Prod.snd →
        sample.timestamp ∈ timestamps (segment.rows osCgroupMemoryV3) := by
    intro segment sample hsample
    rw [← map_selectedRead (cgroupIdentities segment)]
    exact List.mem_map_of_mem ((selectedLine_rows segment).mem_iff.mp hsample)
  refine (hcut.apart osCgroupMemoryV3 (by decide)).imp ?_
  intro earlier later hapart a ha b hb
  exact hapart _ (hsampled earlier a ha) _ (hsampled later b hb)

theorem samplesOf_perm (hcut : Cut priors target whole)
    (hsame : SameIdentities priors target whole) :
    ((selectedLine whole).map Prod.snd).Perm (samplesOf selectedLine (priors ++ [target])) := by
  have hrows : (whole.rows osCgroupMemoryV3).Perm (rowsOf (priors ++ [target]) osCgroupMemoryV3) :=
    perm_of_filter_eq (hcut.rows osCgroupMemoryV3 (by decide))
  have hread : (rowsOf (priors ++ [target]) osCgroupMemoryV3).filterMap
        (selectedRead (cgroupIdentities whole)) =
      (priors ++ [target]).flatMap fun segment =>
        (segment.rows osCgroupMemoryV3).filterMap (selectedRead (cgroupIdentities segment)) := by
    rw [rowsOf, List.filterMap_flatMap]
    refine List.flatMap_congr fun segment hsegment => List.filterMap_congr fun row hrow => ?_
    exact (selectedRead_same hsame hsegment hrow).symm
  refine (selectedLine_rows whole).trans ((hrows.filterMap _).trans ?_)
  rw [hread]
  exact List.Perm.flatMap_left _ fun segment _ => (selectedLine_rows segment).symm

theorem selected_carried (hcut : Cut priors target whole)
    (hsame : SameIdentities priors target whole)
    (hnodup : (timestamps (whole.rows osCgroupMemoryV3)).Nodup) :
    Carried selectedLine osCgroupMemoryV3 priors target whole := by
  have htimes : (((selectedLine whole).map Prod.snd).map Sample.timestamp).Nodup := by
    rw [((selectedLine_rows whole).map Sample.timestamp).nodup_iff, map_selectedRead]
    exact hnodup
  have htarget : ∀ {ordinal : Nat} {row : Row}, (ordinal, row) ∈ everyRow target osCgroupMemoryV3 →
      selectedRead (cgroupIdentities target) row = selectedRead (cgroupIdentities whole) row := by
    intro ordinal row hrow
    refine selectedRead_same hsame (List.mem_append_right _ (List.mem_singleton_self target)) ?_
    rw [← map_everyRow target osCgroupMemoryV3]
    exact List.mem_map_of_mem hrow
  have hperm := samplesOf_perm hcut hsame
  have hsamples : (selectedLine whole).map Prod.snd =
      samplesOf selectedLine priors ++ (selectedLine target).map Prod.snd := by
    have hall :
        (selectedLine whole).map Prod.snd = samplesOf selectedLine (priors ++ [target]) := by
      refine List.Perm.eq_of_pairwise (fun a b _ _ hab hba => absurd hba (lt_asymm hab))
        (rising_of_nodup (selectedLine_sorted whole) htimes)
        (rising_of_nodup (samplesOf_sorted hcut) ?_) hperm
      exact (hperm.map Sample.timestamp).nodup_iff.mp htimes
    rw [hall, samplesOf, List.flatMap_append, List.flatMap_singleton]
    rfl
  constructor
  · exact hsamples
  · intro n item hitem
    obtain ⟨row, hrow, hread⟩ :=
      mem_sampled.mp ((selectedLine_perm target).mem_iff.mp (List.mem_of_getElem? hitem))
    obtain ⟨place, hplace⟩ := hcut.exists_place (by decide) hrow
    refine ⟨place, hplace, ?_⟩
    obtain ⟨row', hrow', hwhole⟩ := hplace.rows
    rw [← row_unique hrow hrow'] at hwhole
    have hmem : (place, item.2) ∈ selectedLine whole := by
      refine (selectedLine_perm whole).mem_iff.mpr (mem_sampled.mpr ⟨row, hwhole, ?_⟩)
      rw [← htarget hrow, hread]
    have hat : ((selectedLine whole).map Prod.snd)[(samplesOf selectedLine priors).length + n]? =
        some item.2 := by
      rw [hsamples, List.getElem?_append_right (Nat.le_add_right _ n), Nat.add_sub_cancel_left,
        List.getElem?_map, hitem]
      rfl
    rw [List.getElem?_map, Option.map_eq_some_iff] at hat
    obtain ⟨found, hfound, hsample⟩ := hat
    rw [List.map_map] at htimes
    have hitems : found = (place, item.2) := by
      refine List.inj_on_of_nodup_map htimes (List.mem_of_getElem? hfound) hmem ?_
      exact congrArg Sample.timestamp hsample
    rw [hfound, hitems]
  · intro ordinal item hitem hrows
    obtain ⟨row, hrow, hread⟩ := mem_sampled.mp ((selectedLine_perm whole).mem_iff.mp hitem)
    obtain ⟨row', hordinal, hplace⟩ := hrows.rows
    rw [row_unique hplace hrow] at hordinal
    refine (selectedLine_perm target).mem_iff.mpr (mem_sampled.mpr ⟨row, hordinal, ?_⟩)
    rw [htarget hordinal, hread]
  · rw [((selectedLine_perm whole).map Prod.fst).nodup_iff]
    exact nodup_sampled _ whole osCgroupMemoryV3
  · intro item hitem
    obtain ⟨row, hrow, -⟩ := mem_sampled.mp ((selectedLine_perm whole).mem_iff.mp hitem)
    exact lt_of_mem_everyRow hcut.fit.2 hrow

theorem carried_onlyZero (h : Carried line typeId priors target whole) (entity : Nat) :
    Carried (fun segment => onlyZero (line segment) entity) typeId priors target whole := by
  by_cases hentity : entity = 0
  · simp only [onlyZero, if_pos hentity]
    exact h
  · simp only [onlyZero, if_neg hentity]
    constructor
    · exact ((List.append_nil _).trans (List.flatMap_eq_nil_iff.mpr fun _ _ => rfl)).symm
    · intro n item hitem
      cases hitem
    · intro ordinal item hitem
      cases hitem
    · exact List.nodup_nil
    · exact List.forall_mem_nil _

/-! ## The host CPUs -/

theorem cpuSample_entity {row : Row} {raw : CpuRaw} (h : cpuSample row = some raw) :
    entityOf osCpu row = [some (.i32 (-1))] := by
  unfold cpuSample at h
  split at h
  · next hboth =>
    show [row.get "cpu_id"] = _
    rw [hboth.2]
  · cases h

theorem cpuSample_timestamp {row : Row} {raw : CpuRaw} (h : cpuSample row = some raw) :
    Query.rowTimestamp row "ts" = some raw.timestamp := by
  unfold cpuSample at h
  split at h
  · exact rowTimestamp_of_get (cpuRaw_timestamp h)
  · cases h

theorem cpu_carried (hcut : Cut priors target whole) :
    Carried cpuLine osCpu priors target whole :=
  carried_sampled hcut (by decide) cpuSample fun _ _ => cpuSample_entity

theorem cpuLine_ordered (hcut : Cut priors target whole) :
    ((cpuLine whole).map Prod.snd).Pairwise fun a b => a.timestamp ≤ b.timestamp := by
  rw [map_cpuLine, ← filterMap_ofEntity fun _ _ => cpuSample_entity]
  have hordered := hcut.ordered osCpu (by decide) [some (.i32 (-1))]
  refine List.pairwise_filterMap.mpr ((List.pairwise_filterMap.mp hordered).imp ?_)
  intro a b hab raw hraw other hother
  exact hab _ (cpuSample_timestamp hraw) _ (cpuSample_timestamp hother)

theorem cpu_found_iff (hasked : Asked requested osCpu) (hfit : RowsFit target)
    (hordered : (cpuSamples priors ++ (cpuLine target).map Prod.snd).Pairwise
      fun a b => a.timestamp ≤ b.timestamp) :
    Found requested priors target osCpu cpuIdleField x ↔
      ∃ n item, (cpuLine target)[n]? = some item ∧
        CpuGrownAt (cpuSamples priors ++ (cpuLine target).map Prod.snd)
          ((cpuSamples priors).length + n) ∧
        (∀ before ∈ cpuSamples priors, before.timestamp ≠ item.2.timestamp) ∧
        x = cpuFinding item.1 item.2 :=
  (cpu_found_items hasked).trans (foundIn_items_iff (cpuItems_latestOf hfit) hordered)

theorem cpu_found_whole (hasked : Asked requested osCpu) (hcut : Cut priors target whole) :
    Found requested [] whole osCpu cpuIdleField x ↔
      ∃ n item, (cpuLine whole)[n]? = some item ∧ CpuGrownAt ((cpuLine whole).map Prod.snd) n ∧
        x = cpuFinding item.1 item.2 := by
  have hempty : (cpuSamples [] ++ (cpuLine whole).map Prod.snd).Pairwise
      fun a b => a.timestamp ≤ b.timestamp := cpuLine_ordered hcut
  rw [cpu_found_iff hasked hcut.fit.2 hempty]
  refine exists_congr fun n => exists_congr fun item => ?_
  show _ ∧ CpuGrownAt ([] ++ _) (0 + n) ∧ _ ↔ _
  rw [Nat.zero_add]
  refine and_congr_right fun _ => and_congr_right fun _ => ?_
  exact and_iff_right (List.forall_mem_nil _)

theorem lt_of_mem_cpuLine {segment : Segment} (hfit : RowsFit segment) {item : Nat × CpuRaw}
    (hitem : item ∈ cpuLine segment) : item.1 < 2 ^ 32 := by
  obtain ⟨row, hrow, -⟩ := mem_sampled.mp hitem
  exact lt_of_mem_everyRow hfit hrow

/-- A prior segment has sampled the timestamp of a finding. -/
def SampledBefore (priors : List Segment) (target : Segment) (x : Finding) : Prop :=
  ∃ item ∈ cpuLine target, x = cpuFinding item.1 item.2 ∧
    ∃ before ∈ cpuSamples priors, before.timestamp = item.2.timestamp

/-- The host CPUs are found in the target where they are found at the same row of the whole, unless
a prior segment has sampled the timestamp too. -/
theorem cpu_found_cut (hasked : Asked requested osCpu) (hcut : Cut priors target whole) :
    Found requested priors target osCpu cpuIdleField x ↔
      FoundInWhole requested priors target whole osCpu cpuIdleField x ∧
        ¬ SampledBefore priors target x := by
  have hcarried := cpu_carried hcut
  have hfound := hcarried.found_iff hcut CpuGrownAt CpuRaw.timestamp cpuIdleField x
  have hordered := cpuLine_ordered hcut
  rw [hcarried.samples] at hordered
  rw [cpu_found_iff hasked hcut.fit.1 hordered, FoundInWhole]
  simp only [cpu_found_whole hasked hcut]
  constructor
  · intro h
    obtain ⟨n, item, hitem, hgrown, hnew, hx⟩ := h
    refine ⟨hfound.mp ⟨n, item, hitem, hgrown, hx⟩, fun hsampled => ?_⟩
    obtain ⟨item', hmem', hx', before, hbefore, htime⟩ := hsampled
    have hmem := List.mem_of_getElem? hitem
    have hordinal : item.1 = item'.1 := by
      refine toNat_ordinal (lt_of_mem_cpuLine hcut.fit.1 hmem) (lt_of_mem_cpuLine hcut.fit.1 hmem')
        (congrArg Finding.rowOrdinal (hx.symm.trans hx'))
    rw [← List.inj_on_of_nodup_map (nodup_sampled cpuSample target osCpu) hmem hmem' hordinal]
      at htime
    exact hnew before hbefore htime
  · intro h
    obtain ⟨n, item, hitem, hgrown, hx⟩ := hfound.mpr h.1
    refine ⟨n, item, hitem, hgrown, fun before hbefore htime => h.2 ?_, hx⟩
    exact ⟨item, List.mem_of_getElem? hitem, hx, before, hbefore, htime⟩

/-! ## Every counter -/

/-- A block keeps the first of what is found for its layout.  What is found for the counters is what
has grown since the sample just before; behind prior segments it is what is found among the rows of
the target in the whole. -/
theorem counterFindings_cut (hcut : Cut priors target whole) :
    (∀ typeId ∈ counterLayouts,
      BlockOf (counterFindings requested priors target typeId)
        (counterBlock requested priors target typeId) ∧
      BlockOf (counterFindings requested [] whole typeId)
        (counterBlock requested [] whole typeId)) ∧
    (∀ counter ∈ counterLines, Asked requested counter.typeId →
      (∀ x, Found requested priors target counter.typeId counter.field x ↔
        ∃ entity n item, (counter.line target entity)[n]? = some item ∧
          GrownAt Sample.grown (counter.samples priors entity ++
            (counter.line target entity).map Prod.snd)
            ((counter.samples priors entity).length + n) ∧ x = counter.finding item) ∧
      (∀ x, Found requested [] whole counter.typeId counter.field x ↔
        ∃ entity n item, (counter.line whole entity)[n]? = some item ∧
          GrownAt Sample.grown ((counter.line whole entity).map Prod.snd) n ∧
          x = counter.finding item) ∧
      ((counter.typeId = osCgroupMemoryV3 → SameIdentities priors target whole ∧
          (timestamps (whole.rows osCgroupMemoryV3)).Nodup) →
        ∀ x, Found requested priors target counter.typeId counter.field x ↔
          FoundInWhole requested priors target whole counter.typeId counter.field x)) ∧
    (Asked requested osCpu →
      (∀ x, Found requested [] whole osCpu cpuIdleField x ↔
        ∃ n item, (cpuLine whole)[n]? = some item ∧
          CpuGrownAt ((cpuLine whole).map Prod.snd) n ∧ x = cpuFinding item.1 item.2) ∧
      ∀ x, Found requested priors target osCpu cpuIdleField x ↔
        FoundInWhole requested priors target whole osCpu cpuIdleField x ∧
          ¬ SampledBefore priors target x) := by
  refine ⟨fun typeId _ => ⟨counterBlock_blockOf requested priors target typeId,
    counterBlock_blockOf requested [] whole typeId⟩,
    fun counter hcounter hasked => ⟨fun x => ?_, fun x => ?_, fun hgroups x => ?_⟩,
    fun hasked => ⟨fun x => cpu_found_whole hasked hcut, fun x => cpu_found_cut hasked hcut⟩⟩
  · exact CounterLine.found_iff hcounter hasked hcut.fit.1
  · exact CounterLine.found_whole hcounter hasked hcut.fit.2
  · refine CounterLine.found_cut hcounter hasked hcut ?_
    rcases List.mem_append.mp hcounter with hrow | hselected
    · obtain ⟨source, hsource, rfl⟩ := List.mem_map.mp hrow
      exact toLine_carried hsource hcut
    · rw [List.mem_singleton.mp hselected] at hgroups ⊢
      obtain ⟨hsame, hnodup⟩ := hgroups rfl
      exact carried_onlyZero (selected_carried hcut hsame hnodup)

/-! ## Boundaries that are seen -/

/-- The rows of a layout on both sides of a boundary and in the whole. -/
def CutRows (typeId : Nat) (early late whole : List Row) : Prop :=
  (∀ row ∈ whole ++ (early ++ late), ofEntity typeId (entityOf typeId row) whole =
    ofEntity typeId (entityOf typeId row) (early ++ late)) ∧
  (∀ row ∈ whole, TimeOrdered (ofEntity typeId (entityOf typeId row) whole)) ∧
  ∀ s ∈ timestamps early, ∀ t ∈ timestamps late, s ≤ t

instance decidableCutRows (typeId : Nat) (early late whole : List Row) :
    Decidable (CutRows typeId early late whole) := inferInstanceAs (Decidable (_ ∧ _ ∧ _))

theorem ofEntity_eq_nil {rows : List Row} (h : ∀ row ∈ rows, entityOf typeId row ≠ key) :
    ofEntity typeId key rows = [] :=
  List.filter_eq_nil_iff.mpr fun row hrow heq => h row hrow (of_decide_eq_true heq)

theorem CutRows.entities {early late whole : List Row} (h : CutRows typeId early late whole)
    (key : EntityKey) : ofEntity typeId key whole = ofEntity typeId key (early ++ late) ∧
      TimeOrdered (ofEntity typeId key whole) := by
  obtain ⟨hrows, hordered, -⟩ := h
  constructor
  · by_cases hkey : ∃ row ∈ whole ++ (early ++ late), entityOf typeId row = key
    · obtain ⟨row, hrow, rfl⟩ := hkey
      exact hrows row hrow
    · have hnone : ∀ row ∈ whole ++ (early ++ late), entityOf typeId row ≠ key :=
        fun row hrow heq => hkey ⟨row, hrow, heq⟩
      obtain ⟨hwhole, hsides⟩ := List.forall_mem_append.mp hnone
      rw [ofEntity_eq_nil hwhole, ofEntity_eq_nil hsides]
  · by_cases hkey : ∃ row ∈ whole, entityOf typeId row = key
    · obtain ⟨row, hrow, rfl⟩ := hkey
      exact hordered row hrow
    · rw [ofEntity_eq_nil fun row hrow heq => hkey ⟨row, hrow, heq⟩]
      exact List.Pairwise.nil

theorem cut_of_rows {early late : Segment}
    (h : ∀ typeId ∈ counterLayouts, CutRows typeId (Query.Segment.rows early typeId)
      (Query.Segment.rows late typeId) (Query.Segment.rows whole typeId))
    (hfit : RowsFit late ∧ RowsFit whole) : Cut [early] late whole where
  rows typeId htype key := by
    rw [((h typeId htype).entities key).1]
    show _ = ofEntity typeId key ([early, late].flatMap fun segment => segment.rows typeId)
    rw [List.flatMap_cons, List.flatMap_singleton]
  ordered typeId htype key := ((h typeId htype).entities key).2
  apart typeId htype := List.pairwise_pair.mpr (h typeId htype).2.2
  fit := hfit

/-- A segment of host CPUs, databases, selected groups and their contexts. -/
def hostSegment (cpu databases memory contexts : List Row) : Segment where
  id := 0
  kind := .finished
  maxTs := 0
  activePosition := none
  layouts := [(osCpu, cpu), (1005001, databases), (osCgroupMemoryV3, memory),
    (osCgroupContext, contexts)]
  dictionary _ := some (.str [])

def hostRow (cpu timestamp user idle : Int) : Row where
  cells := [("ts", .ts timestamp), ("scope", .u32 0), ("cpu_id", .i32 cpu), ("user", .i64 user),
    ("nice", .i64 0), ("system", .i64 0), ("idle", .i64 idle), ("iowait", .i64 0), ("irq", .i64 0),
    ("softirq", .i64 0), ("steal", .i64 0)]

def databaseRow (datid : Nat) (timestamp deadlocks : Int) : Row where
  cells := [("ts", .ts timestamp), ("datid", .u32 datid), ("deadlocks", .i64 deadlocks)]

def memoryRow (timestamp kills : Int) : Row where
  cells := [("ts", .ts timestamp), ("cgroup_path", .strId 3), ("cgroup_identity", .strId 7),
    ("oom_kill", .i64 kills)]

def contextRow (timestamp : Int) : Row where
  cells := [("ts", .ts timestamp), ("memory_identity", .strId 7)]

theorem hostSegment_fit {cpu databases memory contexts : List Row}
    (h : cpu.length + databases.length + memory.length + contexts.length < 2 ^ 32) :
    RowsFit (hostSegment cpu databases memory contexts) := by
  intro typeId
  show (((hostSegment cpu databases memory contexts).layouts.lookup typeId).getD []).length < _
  cases hlookup : (hostSegment cpu databases memory contexts).layouts.lookup typeId with
  | none => exact Nat.two_pow_pos 32
  | some rows =>
    have hmem : (typeId, rows) ∈ (hostSegment cpu databases memory contexts).layouts := by
      obtain ⟨front, back, hsplit, -⟩ := List.lookup_eq_some_iff.mp hlookup
      rw [hsplit]
      exact List.mem_append_right _ List.mem_cons_self
    show rows.length < 2 ^ 32
    simp only [hostSegment, List.mem_cons, Prod.mk.injEq, List.not_mem_nil, or_false] at hmem
    rcases hmem with ⟨-, rfl⟩ | ⟨-, rfl⟩ | ⟨-, rfl⟩ | ⟨-, rfl⟩
    all_goals omega

def hostKeys : List SeriesKey :=
  [⟨.findings, 1102001⟩, ⟨.findings, 1005001⟩, ⟨.findings, 1202003⟩]

def earlyHost : Segment :=
  hostSegment [hostRow (-1) 1 0 0, hostRow (-1) 2 80 20, hostRow 0 1 0 0, hostRow 0 2 80 20]
    [databaseRow 1 1 0, databaseRow 2 1 5] [memoryRow 1 0] [contextRow 1]

/-- It samples a timestamp of the earlier segment again, and has no context of its own. -/
def lateHost : Segment :=
  hostSegment [hostRow (-1) 2 90 10, hostRow (-1) 3 180 12, hostRow 0 3 180 12] []
    [memoryRow 2 1] []

def wholeHost : Segment :=
  hostSegment [hostRow (-1) 1 0 0, hostRow (-1) 2 80 20, hostRow (-1) 2 90 10,
      hostRow (-1) 3 180 12, hostRow 0 1 0 0, hostRow 0 2 80 20, hostRow 0 3 180 12]
    [databaseRow 1 1 0, databaseRow 2 1 5] [memoryRow 1 0, memoryRow 2 1] [contextRow 1]

theorem cut_wholeHost : Cut [earlyHost] lateHost wholeHost :=
  cut_of_rows (by decide +kernel) ⟨hostSegment_fit (by decide), hostSegment_fit (by decide)⟩

/-- A timestamp that is cut in two, and a group whose context is in an earlier segment. -/
theorem counterFindings_boundary_seen : ∃ requested priors target whole, Cut priors target whole ∧
    (∃ x place, SameRow priors target whole osCpu x.rowOrdinal.toNat place ∧
      x.at place ∈ (counterBlock requested [] whole osCpu).findings ∧
      x ∉ (counterBlock requested priors target osCpu).findings) ∧
    ∃ x place, SameRow priors target whole osCgroupMemoryV3 x.rowOrdinal.toNat place ∧
      x.at place ∈ (counterBlock requested [] whole osCgroupMemoryV3).findings ∧
      x ∉ (counterBlock requested priors target osCgroupMemoryV3).findings := by
  refine ⟨hostKeys, [earlyHost], lateHost, wholeHost, cut_wholeHost,
    ⟨knownBad cpuIdleField 0 2, 2, ?_, by decide +kernel, by decide +kernel⟩,
    ⟨knownBad selectedCounter.field 0 2, 1, ?_, by decide +kernel, by decide +kernel⟩⟩
  · exact ⟨[some (.i32 (-1))], 0, hostRow (-1) 2 90 10, by decide +kernel, by decide +kernel⟩
  · exact ⟨[some (.strId 3), some (.strId 7)], 0, memoryRow 2 1, by decide +kernel,
      by decide +kernel⟩

/-- Only the second database has a new deadlock. -/
def lateKnown : Segment :=
  hostSegment [hostRow (-1) 3 180 40, hostRow 0 3 180 40] [databaseRow 1 2 0, databaseRow 2 2 6]
    [memoryRow 2 1] [contextRow 2]

def wholeKnown : Segment :=
  hostSegment [hostRow (-1) 1 0 0, hostRow (-1) 2 80 20, hostRow (-1) 3 180 40, hostRow 0 1 0 0,
      hostRow 0 2 80 20, hostRow 0 3 180 40]
    [databaseRow 1 1 0, databaseRow 1 2 0, databaseRow 2 1 5, databaseRow 2 2 6]
    [memoryRow 1 0, memoryRow 2 1] [contextRow 1, contextRow 2]

theorem counterFindings_cut_known :
    knownBad cpuIdleField 0 3 ∈ (counterBlock hostKeys [earlyHost] lateKnown osCpu).findings ∧
      Found hostKeys [earlyHost] lateKnown 1005001 databaseDeadlocksField
        (knownBad databaseDeadlocksField 1 2) ∧
      Found hostKeys [earlyHost] lateKnown osCgroupMemoryV3 selectedCounter.field
        (knownBad selectedCounter.field 0 2) := by
  have hcut : Cut [earlyHost] lateKnown wholeKnown :=
    cut_of_rows (by decide +kernel) ⟨hostSegment_fit (by decide), hostSegment_fit (by decide)⟩
  have hsame : SameIdentities [earlyHost] lateKnown wholeKnown ∧
      (timestamps (wholeKnown.rows osCgroupMemoryV3)).Nodup := by
    unfold SameIdentities
    decide +kernel
  have hasked :
      Asked hostKeys osCpu ∧ Asked hostKeys 1005001 ∧ Asked hostKeys osCgroupMemoryV3 := by
    unfold Asked
    decide
  obtain ⟨hblocks, hlines, hcpu⟩ :=
    @counterFindings_cut lateKnown wholeKnown hostKeys [earlyHost] hcut
  have hselected := hlines selectedCounter (List.mem_append_right _ (List.mem_singleton_self _))
    hasked.2.2
  have hdatabase := hlines (Counter.deadlocks 1005001).toLine (List.mem_append_left _
    (List.mem_map_of_mem (by simp [rowCounters, databaseLayouts]))) hasked.2.1
  refine ⟨((hblocks osCpu (by decide)).1.mem_iff _).mpr ⟨?_, by decide +kernel⟩,
    (hdatabase.2.2 (fun h => absurd h (by decide)) _).mpr ?_,
    (hselected.2.2 (fun _ => hsame) _).mpr ?_⟩
  · refine (((hcpu hasked.1).2 _).mpr ⟨⟨2, ?_, by decide +kernel, rfl⟩, ?_⟩).1
    · exact ⟨[some (.i32 (-1))], 0, hostRow (-1) 3 180 40, by decide +kernel, by decide +kernel⟩
    · unfold SampledBefore
      decide +kernel
  · exact ⟨3, ⟨[some (.u32 2)], 0, databaseRow 2 2 6, by decide +kernel, by decide +kernel⟩,
      by decide +kernel, rfl⟩
  · exact ⟨1, ⟨[some (.strId 3), some (.strId 7)], 0, memoryRow 2 1, by decide +kernel,
      by decide +kernel⟩, by decide +kernel, rfl⟩

end Kronika.Index
