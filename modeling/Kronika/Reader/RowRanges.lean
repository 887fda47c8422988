/-
Ranges of rows of a segment, finished or active.

An active segment has a section of a type in any of its journal parts.  A range of
rows is visited part by part: parts before the offset are skipped by the row counts
of their catalogs, and the part that holds the offset is entered behind it.  The
range is the range of the rows of all parts one behind the other, which is what a
finished segment with these rows has.

What opens a body and what visits the rows of one body are parameters.  A body
visitor that `Visits` a body runs over a range of its rows with local numbers; the
decode loop over the batches of a body is one.
-/
import Kronika.Library.Visiting
import Kronika.Reader.Segments

namespace Kronika.Reader

open Format Store Library

/-! ## Reading a range -/

def entryOf (catalog : Catalog) (typeId : Nat) : Option Entry :=
  catalog.entries.find? fun entry => entry.typeId = typeId

/-- What is asked of one body. -/
structure BodyVisit where
  expectedRows : Nat
  offset : Nat
  limit : Nat
  base : Nat

/-- Visits the rows of one body: the body, its expected rows, the offset, the limit,
and the visitor with its state. -/
abbrev BodyVisitor (Body T ε : Type) :=
  (σ : Type) → Body → Nat → Nat → Nat → Visitor σ T → σ → Except ε Nat × σ

inductive RowSource where
  | finished (catalog : Catalog)
  | active (snapshot : ActiveSnapshot)

section Visit

variable {Body T ε : Type} (visitBody : BodyVisitor Body T ε)
variable (finishedBody : Entry → Except ε Body) (activeBody : Nat → Entry → Except ε Body)

/-- One body, with the numbers of its rows behind those of the earlier bodies. -/
def decodeRows {σ : Type} (body : Body) (request : BodyVisit) (visitor : Visitor σ T) (s : σ) :
    Except ε Nat × σ :=
  visitBody σ body request.expectedRows request.offset request.limit
    (visitor.renumber (saturatingAdd request.base)) s

/-- The loop over the parts of an active segment. -/
def visitParts {σ : Type} (typeId limit : Nat) (visitor : Visitor σ T) :
    Nat → List ActivePart → (visited globalBase remainingOffset : Nat) → σ → Except ε Nat × σ
  | _, [], visited, _, _, s => (.ok visited, s)
  | partIndex, part :: parts, visited, globalBase, remainingOffset, s =>
    match entryOf part.catalog typeId with
    | none => visitParts typeId limit visitor (partIndex + 1) parts visited globalBase
        remainingOffset s
    | some entry =>
      if limit ≤ visited then (.ok visited, s)
      else if entry.rows ≤ remainingOffset then
        visitParts typeId limit visitor (partIndex + 1) parts visited
          (saturatingAdd globalBase entry.rows) (remainingOffset - entry.rows) s
      else
        match activeBody partIndex entry with
        | .error problem => (.error problem, s)
        | .ok body =>
          let request : BodyVisit :=
            { expectedRows := entry.rows, offset := remainingOffset
              limit := limit - visited, base := globalBase }
          match decodeRows visitBody body request visitor.watched (s, true) with
          | (.error problem, after) => (.error problem, after.1)
          | (.ok count, after) =>
            if after.2 then
              visitParts typeId limit visitor (partIndex + 1) parts
                (saturatingAdd visited count) (saturatingAdd globalBase entry.rows) 0 after.1
            else (.ok (saturatingAdd visited count), after.1)

/-- The rows of the type from `offset` on, at most `limit` of them. -/
def visitRows {σ : Type} (source : RowSource) (typeId offset limit : Nat)
    (visitor : Visitor σ T) (s : σ) : Except ε Nat × σ :=
  match source with
  | .finished catalog =>
    match entryOf catalog typeId with
    | none => (.ok 0, s)
    | some entry =>
      if offset < entry.rows then
        match finishedBody entry with
        | .error problem => (.error problem, s)
        | .ok body =>
          let request : BodyVisit :=
            { expectedRows := entry.rows, offset := offset, limit := limit, base := 0 }
          match decodeRows visitBody body request visitor s with
          | (.error problem, after) => (.error problem, after)
          | (.ok count, after) => (.ok (saturatingAdd 0 count), after)
      else (.ok 0, s)
  | .active snapshot =>
    visitParts visitBody activeBody typeId limit visitor 0 snapshot.parts 0 0 offset s

end Visit

/-! ## The rows of a body -/

section Bodies

variable {Body T ε : Type}

/-- Every range of the body is visited with the numbers of its rows, up to the first
call that says no. -/
def Visits (visitBody : BodyVisitor Body T ε) (body : Body) (rows : List T) : Prop :=
  ∀ (σ : Type) (offset limit : Nat) (visitor : Visitor σ T) (s : σ), offset < rows.length →
    visitBody σ body rows.length offset limit visitor s =
      (.ok (feed visitor s (rowRange offset limit rows)).count,
        (feed visitor s (rowRange offset limit rows)).state)

/-- The rows of one batch. -/
def visitBatch {σ : Type} (offset : Nat) (visitor : Visitor σ T) : Nat → List T → σ → Fed σ
  | visited, [], s => { state := s, count := visited, goOn := true }
  | visited, row :: rows, s =>
    if (visitor s (saturatingAdd offset visited) row).2 then
      visitBatch offset visitor (saturatingAdd visited 1) rows
        (visitor s (saturatingAdd offset visited) row).1
    else
      { state := (visitor s (saturatingAdd offset visited) row).1
        count := saturatingAdd visited 1, goOn := false }

/-- The batches of a reader, each of which may fail to decode. -/
def visitBatches {σ : Type} (offset : Nat) (visitor : Visitor σ T) :
    Nat → List (Except ε (List T)) → σ → Except ε Nat × σ
  | visited, [], s => (.ok visited, s)
  | _, .error problem :: _, s => (.error problem, s)
  | visited, .ok rows :: batches, s =>
    if (visitBatch offset visitor visited rows s).goOn then
      visitBatches offset visitor (visitBatch offset visitor visited rows s).count batches
        (visitBatch offset visitor visited rows s).state
    else
      (.ok (visitBatch offset visitor visited rows s).count,
        (visitBatch offset visitor visited rows s).state)

/-- The decode of one body, over what reads the batches of a range of its rows. -/
def visitBatchesOf (sectionReader : Body → Nat → Nat → Nat → Except ε (List (Except ε (List T)))) :
    BodyVisitor Body T ε :=
  fun _ body expectedRows offset limit visitor s =>
    if limit = 0 then (.ok 0, s)
    else
      match sectionReader body expectedRows offset limit with
      | .error problem => (.error problem, s)
      | .ok batches => visitBatches offset visitor 0 batches s

variable {σ : Type} {visitor : Visitor σ T} {s : σ} {offset : Nat}

theorem saturatingAdd_eq {a b : Nat} (h : a + b < 2 ^ 64) : saturatingAdd a b = a + b := by
  rw [saturatingAdd]
  omega

theorem visitBatch_eq {visited : Nat} {rows : List T}
    (h : offset + visited + rows.length < 2 ^ 64) :
    visitBatch offset visitor visited rows s =
      { feed visitor s (numbered (offset + visited) rows) with
        count := visited + (feed visitor s (numbered (offset + visited) rows)).count } := by
  induction rows generalizing visited s with
  | nil => rfl
  | cons row rows ih =>
    rw [List.length_cons] at h
    rw [visitBatch, numbered, saturatingAdd_eq (by omega), saturatingAdd_eq (by omega)]
    cases hrow : (visitor s (offset + visited) row).2 with
    | false =>
      rw [if_neg Bool.false_ne_true, feed_cons_of_stop hrow]
    | true =>
      rw [if_pos rfl, feed_cons_of_goOn hrow, ih (by omega)]
      simp only [Nat.add_assoc, Nat.add_comm 1]

theorem visitBatches_eq {visited : Nat} {batches : List (List T)}
    (h : offset + visited + batches.flatten.length < 2 ^ 64) :
    visitBatches offset visitor visited (batches.map Except.ok) s =
      ((.ok (visited + (feed visitor s (numbered (offset + visited) batches.flatten)).count) :
          Except ε Nat),
        (feed visitor s (numbered (offset + visited) batches.flatten)).state) := by
  induction batches generalizing visited s with
  | nil => rfl
  | cons rows batches ih =>
    rw [List.flatten_cons, List.length_append] at h
    rw [List.map_cons, visitBatches, visitBatch_eq (by omega), List.flatten_cons, numbered_append,
      feed_append]
    dsimp only
    cases hgo : (feed visitor s (numbered (offset + visited) rows)).goOn with
    | false => rw [if_neg Bool.false_ne_true, if_neg Bool.false_ne_true]
    | true =>
      have hcount := count_feed_of_goOn hgo
      rw [length_numbered] at hcount
      rw [if_pos rfl, if_pos rfl, hcount, ih (by omega)]
      simp only [Nat.add_assoc]

theorem visitBatchesOf_visits
    {sectionReader : Body → Nat → Nat → Nat → Except ε (List (Except ε (List T)))} {body : Body}
    {rows : List T} (hrows : rows.length < 2 ^ 64)
    (hreader : ∀ offset limit, ∃ batches : List (List T),
      sectionReader body rows.length offset limit = .ok (batches.map Except.ok) ∧
        batches.flatten = (rows.drop offset).take limit) :
    Visits (visitBatchesOf sectionReader) body rows := by
  intro σ offset limit visitor s hoffset
  rw [visitBatchesOf, rowRange_eq]
  by_cases hlimit : limit = 0
  · rw [hlimit]
    rfl
  · obtain ⟨batches, hread, hflatten⟩ := hreader offset limit
    have hlen : offset + 0 + batches.flatten.length < 2 ^ 64 := by
      rw [hflatten, List.length_take, List.length_drop]
      omega
    rw [if_neg hlimit, hread]
    dsimp only
    rw [visitBatches_eq hlen, hflatten, Nat.zero_add, Nat.add_zero]

end Bodies

/-! ## The parts of an active segment -/

section Parts

variable {Body T ε : Type} {visitBody : BodyVisitor Body T ε}
variable {activeBody : Nat → Entry → Except ε Body} {typeId : Nat}

/-- The parts from one on carry the rows: each section of the type is opened to a body
that is visited by its rows, as many as the catalog says. -/
inductive Carries (visitBody : BodyVisitor Body T ε) (activeBody : Nat → Entry → Except ε Body)
    (typeId : Nat) : Nat → List ActivePart → List T → Prop
  | nil (partIndex : Nat) : Carries visitBody activeBody typeId partIndex [] []
  | without {partIndex : Nat} {part : ActivePart} {parts : List ActivePart} {rows : List T}
      (hentry : entryOf part.catalog typeId = none)
      (hrest : Carries visitBody activeBody typeId (partIndex + 1) parts rows) :
      Carries visitBody activeBody typeId partIndex (part :: parts) rows
  | carried {partIndex : Nat} {part : ActivePart} {parts : List ActivePart} {rows later : List T}
      {entry : Entry} {body : Body} (hentry : entryOf part.catalog typeId = some entry)
      (hbody : activeBody partIndex entry = .ok body) (hvisits : Visits visitBody body rows)
      (hrows : entry.rows = rows.length)
      (hrest : Carries visitBody activeBody typeId (partIndex + 1) parts later) :
      Carries visitBody activeBody typeId partIndex (part :: parts) (rows ++ later)

theorem decodeRows_eq {body : Body} {rows : List T} {request : BodyVisit} {σ : Type}
    {visitor : Visitor σ T} {s : σ} (hvisits : Visits visitBody body rows)
    (hrows : request.expectedRows = rows.length) (hoffset : request.offset < rows.length)
    (hfits : request.base + rows.length ≤ 2 ^ 64) :
    decodeRows visitBody body request visitor s =
      (.ok (feed visitor s (((numbered request.base rows).drop request.offset).take
          request.limit)).count,
        (feed visitor s (((numbered request.base rows).drop request.offset).take
          request.limit)).state) := by
  have hnumbers : (rowRange request.offset request.limit rows).map
        (fun item => (saturatingAdd request.base item.1, item.2)) =
      ((numbered request.base rows).drop request.offset).take request.limit := by
    rw [rowRange_eq, drop_numbered, take_numbered]
    refine map_numbered fun i hi => ?_
    rw [List.length_take, List.length_drop] at hi
    rw [saturatingAdd_eq (by omega), Nat.add_assoc]
  rw [decodeRows, hrows, hvisits _ _ _ _ _ hoffset, feed_renumber, hnumbers]

theorem visitParts_eq {partIndex : Nat} {parts : List ActivePart} {rows : List T}
    (h : Carries visitBody activeBody typeId partIndex parts rows) {σ : Type}
    {visitor : Visitor σ T} {s : σ} {limit visited globalBase remainingOffset : Nat}
    (hvisited : visited ≤ limit) (hlimit : limit < 2 ^ 64)
    (hfits : globalBase + rows.length < 2 ^ 64) :
    visitParts visitBody activeBody typeId limit visitor partIndex parts visited globalBase
        remainingOffset s =
      (.ok (visited + (feed visitor s (((numbered globalBase rows).drop remainingOffset).take
          (limit - visited))).count),
        (feed visitor s (((numbered globalBase rows).drop remainingOffset).take
          (limit - visited))).state) := by
  induction h generalizing s visited globalBase remainingOffset with
  | nil partIndex => simp [visitParts, numbered]
  | without hentry hrest ih =>
    rw [visitParts, hentry]
    exact ih hvisited hfits
  | @carried partIndex part parts rows later entry body hentry hbody hvisits hrows hrest ih =>
    rw [List.length_append] at hfits
    rw [visitParts, hentry]
    dsimp only
    by_cases hfull : limit ≤ visited
    · have hzero : limit - visited = 0 := by omega
      rw [if_pos hfull, hzero]
      rfl
    · rw [if_neg hfull, numbered_append]
      have hlen : (numbered globalBase rows).length = rows.length := length_numbered
      by_cases hskip : entry.rows ≤ remainingOffset
      · -- The offset lies behind this part.
        have hnone : (numbered globalBase rows).drop remainingOffset = [] :=
          List.drop_eq_nil_of_le (by omega)
        rw [if_pos hskip, hrows, saturatingAdd_eq (by omega), ih hvisited (by omega),
          List.drop_append, hnone, List.nil_append, hlen]
      · rw [if_neg hskip, hbody, List.drop_append_of_le_length (by omega), List.take_append]
        dsimp only
        have hrequest :
            ({ expectedRows := entry.rows, offset := remainingOffset
               limit := limit - visited, base := globalBase } : BodyVisit).expectedRows =
            rows.length := hrows
        rw [decodeRows_eq hvisits hrequest (by dsimp only; omega) (by dsimp only; omega),
          feed_watched, feed_append]
        dsimp only
        generalize hfirst : ((numbered globalBase rows).drop remainingOffset).take
          (limit - visited) = first
        have hfirstLen : first.length = min (limit - visited) (rows.length - remainingOffset) := by
          rw [← hfirst, List.length_take, List.length_drop, hlen]
        have hcount : (feed visitor s first).count ≤ first.length := count_feed_le
        rw [saturatingAdd_eq (by omega)]
        cases hgo : (feed visitor s first).goOn with
        | false => rw [if_neg Bool.false_ne_true, if_neg Bool.false_ne_true]
        | true =>
          have hall := count_feed_of_goOn hgo
          have hleft : limit - (visited + (feed visitor s first).count) =
              limit - visited - ((numbered globalBase rows).drop remainingOffset).length := by
            rw [List.length_drop]
            omega
          rw [if_pos rfl, if_pos rfl, hrows, saturatingAdd_eq (by omega), ih (by omega) (by omega),
            List.drop_zero, hleft]
          simp only [Nat.add_assoc]

end Parts

/-! ## Pages -/

section Pages

variable {Body T ε : Type} {visitBody : BodyVisitor Body T ε}
variable {finishedBody : Entry → Except ε Body} {activeBody : Nat → Entry → Except ε Body}
variable {typeId : Nat} {rows : List T}

/-- A finished segment that has these rows of the type. -/
inductive CarriesFinished (visitBody : BodyVisitor Body T ε)
    (finishedBody : Entry → Except ε Body) (typeId : Nat) (catalog : Catalog) : List T → Prop
  | without (hentry : entryOf catalog typeId = none) :
      CarriesFinished visitBody finishedBody typeId catalog []
  | carried {rows : List T} {entry : Entry} {body : Body}
      (hentry : entryOf catalog typeId = some entry) (hbody : finishedBody entry = .ok body)
      (hvisits : Visits visitBody body rows) (hrows : entry.rows = rows.length) :
      CarriesFinished visitBody finishedBody typeId catalog rows

theorem visitRows_active {snapshot : ActiveSnapshot}
    (h : Carries visitBody activeBody typeId 0 snapshot.parts rows) (hfits : rows.length < 2 ^ 64)
    {σ : Type} (offset : Nat) {limit : Nat} (visitor : Visitor σ T) (s : σ)
    (hlimit : limit < 2 ^ 64) :
    visitRows visitBody finishedBody activeBody (.active snapshot) typeId offset limit visitor s =
      (.ok (feed visitor s (rowRange offset limit rows)).count,
        (feed visitor s (rowRange offset limit rows)).state) := by
  rw [visitRows, visitParts_eq h (Nat.zero_le limit) hlimit (by omega), Nat.zero_add]
  rfl

theorem visitRows_finished {catalog : Catalog}
    (h : CarriesFinished visitBody finishedBody typeId catalog rows) (hfits : rows.length < 2 ^ 64)
    {σ : Type} (offset limit : Nat) (visitor : Visitor σ T) (s : σ) :
    visitRows visitBody finishedBody activeBody (.finished catalog) typeId offset limit visitor s =
      (.ok (feed visitor s (rowRange offset limit rows)).count,
        (feed visitor s (rowRange offset limit rows)).state) := by
  cases h with
  | without hentry =>
    rw [visitRows, hentry, rowRange_eq, List.drop_nil, List.take_nil]
    rfl
  | @carried rows entry body hentry hbody hvisits hrows =>
    rw [visitRows, hentry]
    dsimp only
    by_cases hoffset : offset < entry.rows
    · have hrequest : ({ expectedRows := entry.rows, offset := offset, limit := limit
                         base := 0 } : BodyVisit).expectedRows = rows.length := hrows
      have hcount : (feed visitor s (rowRange offset limit rows)).count ≤ rows.length := by
        refine Nat.le_trans count_feed_le ?_
        rw [rowRange_eq, length_numbered, List.length_take, List.length_drop]
        omega
      rw [if_pos hoffset, hbody]
      dsimp only
      rw [decodeRows_eq hvisits hrequest (by dsimp only; omega) (by dsimp only; omega)]
      dsimp only
      rw [← rowRange, saturatingAdd_eq (by omega), Nat.zero_add]
    · rw [if_neg hoffset, rowRange_eq, List.drop_eq_nil_of_le (by omega), List.take_nil]
      rfl

/-- A page to read: its size, and when its reader goes on. -/
structure PageRequest (T : Type) where
  limit : Nat
  goOn : Nat → T → Bool

/-- Pages that follow one another, each from where the rows visited so far end, with the
rows recorded. -/
def readPages (visit : Nat → Nat → Visitor (List (Nat × T)) T → List (Nat × T) →
      Except ε Nat × List (Nat × T)) :
    Nat → List (Nat × T) → List (PageRequest T) → Except ε Nat × List (Nat × T)
  | offset, log, [] => (.ok offset, log)
  | offset, log, request :: requests =>
    match visit offset request.limit (Visitor.record request.goOn) log with
    | (.error problem, log) => (.error problem, log)
    | (.ok count, log) => readPages visit (offset + count) log requests

theorem readPages_eq {visit : Nat → Nat → Visitor (List (Nat × T)) T → List (Nat × T) →
      Except ε Nat × List (Nat × T)} {requests : List (PageRequest T)} {offset : Nat}
    (hvisit : ∀ offset, ∀ request ∈ requests, ∀ log,
      visit offset request.limit (Visitor.record request.goOn) log =
        (.ok (feed (Visitor.record request.goOn) log (rowRange offset request.limit rows)).count,
          (feed (Visitor.record request.goOn) log (rowRange offset request.limit rows)).state))
    (hoffset : offset ≤ rows.length) :
    ∃ read, offset ≤ read ∧ read ≤ rows.length ∧
      readPages visit offset ((numbered 0 rows).take offset) requests =
        (.ok read, (numbered 0 rows).take read) ∧
      ((∀ request ∈ requests, ∀ number row, request.goOn number row = true) →
        read = min rows.length (offset + (requests.map PageRequest.limit).sum)) := by
  induction requests generalizing offset with
  | nil => exact ⟨offset, Nat.le_refl _, hoffset, rfl, fun _ => by simp [hoffset]⟩
  | cons request requests ih =>
    rw [readPages, hvisit offset request List.mem_cons_self]
    rw [feed_record]
    generalize hcount : (feed (Visitor.record request.goOn) ((numbered 0 rows).take offset)
      (rowRange offset request.limit rows)).count = count
    have hlen : (rowRange offset request.limit rows).length =
        min request.limit (rows.length - offset) := by
      rw [rowRange_eq, length_numbered, List.length_take, List.length_drop]
    have hle : count ≤ min request.limit (rows.length - offset) := by
      rw [← hcount, ← hlen]
      exact count_feed_le
    have hlog : (numbered 0 rows).take offset ++ (rowRange offset request.limit rows).take count =
        (numbered 0 rows).take (offset + count) := by
      rw [rowRange, List.take_take, Nat.min_eq_left (by omega), List.take_add]
    obtain ⟨read, hread, hend, heq, hall⟩ :=
      @ih (offset + count)
        (fun offset later hlater => hvisit offset later (List.mem_cons_of_mem _ hlater)) (by omega)
    rw [hlog]
    refine ⟨read, by omega, hend, heq, fun hgo => ?_⟩
    have hpage : count = min request.limit (rows.length - offset) := by
      rw [← hcount, ← hlen]
      exact count_feed_of_goOn (feed_record_goOn (hgo request List.mem_cons_self))
    have hrest := hall fun later hlater => hgo later (List.mem_cons_of_mem _ hlater)
    rw [List.map_cons, List.sum_cons]
    omega

/-- A range of an active segment is the range of the rows of all its parts, one behind
the other, each row with its number there, up to the first call that says no.  So pages
that follow one another record every row once, and a finished segment with these rows
is read alike. -/
theorem visit_rows_slices {snapshot : ActiveSnapshot}
    (h : Carries visitBody activeBody typeId 0 snapshot.parts rows)
    (hfits : rows.length < 2 ^ 64) :
    (∀ (σ : Type) (offset limit : Nat) (visitor : Visitor σ T) (s : σ), limit < 2 ^ 64 →
      visitRows visitBody finishedBody activeBody (.active snapshot) typeId offset limit visitor s =
        (.ok (feed visitor s (rowRange offset limit rows)).count,
          (feed visitor s (rowRange offset limit rows)).state)) ∧
    (∀ requests : List (PageRequest T), (∀ request ∈ requests, request.limit < 2 ^ 64) →
      ∃ read ≤ rows.length,
        readPages (visitRows visitBody finishedBody activeBody (.active snapshot) typeId) 0 []
          requests = (.ok read, (numbered 0 rows).take read) ∧
        ((∀ request ∈ requests, ∀ number row, request.goOn number row = true) →
          read = min rows.length (requests.map PageRequest.limit).sum)) ∧
    (∀ catalog, CarriesFinished visitBody finishedBody typeId catalog rows →
      ∀ (σ : Type) (offset limit : Nat) (visitor : Visitor σ T) (s : σ), limit < 2 ^ 64 →
      visitRows visitBody finishedBody activeBody (.active snapshot) typeId offset limit visitor s =
        visitRows visitBody finishedBody activeBody (.finished catalog) typeId offset limit
          visitor s) := by
  refine ⟨fun σ offset limit visitor s => visitRows_active h hfits offset visitor s, ?_, ?_⟩
  · intro requests hlimits
    have hvisit : ∀ offset, ∀ request ∈ requests, ∀ log,
        visitRows visitBody finishedBody activeBody (.active snapshot) typeId offset request.limit
            (Visitor.record request.goOn) log =
          (.ok (feed (Visitor.record request.goOn) log (rowRange offset request.limit rows)).count,
            (feed (Visitor.record request.goOn) log (rowRange offset request.limit rows)).state) :=
      fun offset request hrequest log => visitRows_active h hfits offset
        (Visitor.record request.goOn) log (hlimits request hrequest)
    obtain ⟨read, _, hread, heq, hall⟩ := readPages_eq hvisit (Nat.zero_le _)
    rw [Nat.zero_add] at hall
    exact ⟨read, hread, heq, hall⟩
  · intro catalog hfinished σ offset limit visitor s hlimit
    rw [visitRows_active h hfits offset visitor s hlimit,
      visitRows_finished hfinished hfits offset limit visitor s]

end Pages

/-! ## Three parts, one of them without the type -/

section Sample

def oneBatch (body : List Nat) (_ offset limit : Nat) :
    Except Unit (List (Except Unit (List Nat))) :=
  .ok ([(body.drop offset).take limit].map Except.ok)

theorem representable_one : representable 1 = true := by decide

def samplePartOf (entries : List Entry) : ActivePart :=
  { segmentId := ⟨1, representable_one⟩, part := { offset := 0, len := 0 }
    catalog := { entries := entries, minTs := 0, maxTs := 0, formatVersion := 1
                 windowCount := 1 } }

def sampleEntry (typeId rows : Nat) : Entry :=
  { typeId := typeId, flags := 0, offset := 4, len := 1, rows := rows, crc32c := 0 }

def threeParts : ActiveSnapshot :=
  { active := [samplePartOf [sampleEntry 7 2], samplePartOf [sampleEntry 8 5],
      samplePartOf [sampleEntry 7 1]]
    partCount := 3, validLen := 0, segmentId := ⟨1, representable_one⟩ }

def threeBodies (partIndex : Nat) (_ : Entry) : Except Unit (List Nat) :=
  .ok (if partIndex = 0 then [10, 11] else [12])

theorem oneBatch_visits (rows : List Nat) (h : rows.length < 2 ^ 64) :
    Visits (visitBatchesOf oneBatch) rows rows :=
  visitBatchesOf_visits h fun offset limit =>
    ⟨[(rows.drop offset).take limit], rfl, List.append_nil _⟩

theorem threeParts_carries :
    Carries (visitBatchesOf oneBatch) threeBodies 7 0 threeParts.parts [10, 11, 12] := by
  have hlast : Carries (visitBatchesOf oneBatch) threeBodies 7 2
      [samplePartOf [sampleEntry 7 1]] ([12] ++ []) :=
    .carried rfl rfl (oneBatch_visits [12] (by decide)) rfl (.nil 3)
  have hfirst : Carries (visitBatchesOf oneBatch) threeBodies 7 0 threeParts.parts
      ([10, 11] ++ [12]) :=
    .carried rfl rfl (oneBatch_visits [10, 11] (by decide)) rfl (.without rfl hlast)
  exact hfirst

theorem visit_rows_slices_threeParts :
    visitRows (visitBatchesOf oneBatch) (fun _ => .error ()) threeBodies (.active threeParts) 7 1 5
      (Visitor.record fun _ _ => true) [] = (.ok 2, [(1, 11), (2, 12)]) :=
  (visit_rows_slices threeParts_carries (by decide)).1 _ 1 5 _ [] (by decide)

end Sample

end Kronika.Reader
