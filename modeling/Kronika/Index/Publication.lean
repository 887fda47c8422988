/-
Indexes beside finished segments.

The first request for a segment builds its full index, publishes it, and answers with a part of it.
Later requests read their blocks from the published file and build nothing.
-/
import Kronika.Index.Build
import Kronika.Index.IndexCodec

namespace Kronika.Index

open Format Library Reader Readings

variable {κ : Type} {crc32c : Checksum}

/-! ## Requests -/

structure ResourceIndex where
  index : TargetedIndex
  persisted : Bool
deriving DecidableEq

inductive LoadError where
  | io (problem : String)
  | bad (problem : IndexError)
  | layout (problem : String)
  | reader (problem : String)
  | build (problem : BuildError)
deriving DecidableEq

def TargetedIndex.containsTargets (selected : TargetedIndex) (keys : List SeriesKey) : Bool :=
  (keys.filter fun key => !(key.kind == .postgresHealth || key.kind == .osHealth)).all fun key =>
    selected.blocks.any fun block => block.key == key

def targeted (blocks : List SeriesBlock) (keys : List SeriesKey) (checksum : Option UInt32) :
    TargetedIndex where
  checksum := checksum
  blocks := blocks.filter fun block => keys.contains block.key

def encodedChecksum (bytes : Bytes) : Except LoadError UInt32 :=
  if bytes.length < headerLen then .error (.bad .truncated)
  else .ok (u32Of (slice bytes checksumAt headerLen))

/-- The lock of the publishers, and how making and publishing the file goes under it. -/
inductive Lock where
  | owner (temporary published : Except LoadError Unit)
  | contended
  | failed (problem : LoadError)

/-- What one try of a request meets. -/
structure Try where
  idx : Except LoadError (Option Bytes)
  lock : Lock

structure Answer where
  result : Except LoadError ResourceIndex
  /-- The bytes that the request has published. -/
  published : Option Bytes
  /-- The segment was opened and its index was built. -/
  built : Bool

/-- The blocks of a published file, if it has all that is asked for. -/
def reusable (crc32c : Checksum) (stored : Option Bytes) (keys : List SeriesKey) :
    Option TargetedIndex :=
  stored.bind fun bytes =>
    match decodeTarget crc32c bytes keys with
    | .ok selected => if selected.containsTargets keys then some selected else none
    | .error _ => none

/-- The bytes of a build, and the part of it that is asked for. -/
def encodeBuilt (crc32c : Checksum) (keys : List SeriesKey)
    (built : Except LoadError (List SeriesBlock)) : Except LoadError (Bytes × TargetedIndex) := do
  let blocks ← built
  let bytes ← (encode crc32c blocks).mapError .bad
  let checksum ← encodedChecksum bytes
  .ok (bytes, targeted blocks keys (some checksum))

/-- The branch of a finished segment; a request has two tries.  `built` is what opening the segment
and building its index gives. -/
def resourceSelected (crc32c : Checksum) (keys : List SeriesKey)
    (built : Except LoadError (List SeriesBlock)) : List Try → Answer
  | [] =>
    -- The publisher still holds the lock.
    { result := (encodeBuilt crc32c keys built).map fun encoded =>
        { index := encoded.2, persisted := false }
      published := none, built := true }
  | attempt :: attempts =>
    match attempt.idx with
    | .error problem => { result := .error problem, published := none, built := false }
    | .ok stored =>
      match reusable crc32c stored keys with
      | some selected =>
        { result := .ok { index := selected, persisted := true }, published := none
          built := false }
      | none =>
        match attempt.lock with
        | .contended => resourceSelected crc32c keys built attempts
        | .failed problem => { result := .error problem, published := none, built := false }
        | .owner (.error problem) _ =>
          { result := .error problem, published := none, built := false }
        | .owner (.ok ()) published =>
          match encodeBuilt crc32c keys built, published with
          | .error problem, _ => { result := .error problem, published := none, built := true }
          | .ok _, .error problem =>
            { result := .error problem, published := none, built := true }
          | .ok (bytes, selected), .ok () =>
            { result := .ok { index := selected, persisted := true }, published := some bytes
              built := true }

/-! ## Runs of requests -/

structure Request where
  keys : List SeriesKey
  locks : Lock × Lock
  built : Except LoadError (List SeriesBlock)

def Request.answer (crc32c : Checksum) (stored : Option Bytes) (request : Request) : Answer :=
  resourceSelected crc32c request.keys request.built
    [{ idx := .ok stored, lock := request.locks.1 }, { idx := .ok stored, lock := request.locks.2 }]

/-- The answers to requests, one after the other, and the file behind them. -/
def runRequests (crc32c : Checksum) : Option Bytes → List Request → List Answer × Option Bytes
  | stored, [] => ([], stored)
  | stored, request :: requests =>
    let answer := request.answer crc32c stored
    let rest := runRequests crc32c (answer.published.or stored) requests
    (answer :: rest.1, rest.2)

/-! ## What is published -/

theorem encodedChecksum_of_decode {bytes : Bytes} {blocks : List SeriesBlock}
    (h : decode crc32c bytes = .ok blocks) :
    encodedChecksum bytes = .ok (u32Of (slice bytes checksumAt headerLen)) := by
  obtain ⟨found, hchecked, -⟩ := decode_ok h
  obtain ⟨-, hlength, -⟩ := metadata_ok (checkedMetadata_ok hchecked).1
  exact if_neg (Nat.not_lt.mpr hlength)

theorem containsTargets_targeted {readings : Readings κ} {blocks : List SeriesBlock}
    (hbuild : readings.build = .ok blocks) {asked : List SeriesKey}
    (hasked : ∀ key ∈ asked, key ∈ keys readings.typeIds) (checksum : Option UInt32) :
    (targeted blocks asked checksum).containsTargets asked = true := by
  refine List.all_eq_true.mpr fun key hkey => ?_
  obtain ⟨hmem, hkind⟩ := List.mem_filter.mp hkey
  have hrequired : ¬ Optional key := by
    intro h
    rw [Bool.not_eq_true', Bool.or_eq_false_iff, beq_eq_false_iff_ne, beq_eq_false_iff_ne] at hkind
    rcases h with hos | hpostgres
    · exact hkind.2 hos
    · exact hkind.1 hpostgres
  obtain ⟨block, hblock, hown⟩ := build_required hbuild (hasked key hmem) hrequired
  refine List.any_eq_true.mpr ⟨block, List.mem_filter.mpr ⟨hblock, ?_⟩, beq_iff_eq.mpr hown⟩
  rw [hown]
  exact List.contains_iff_mem.mpr hmem

/-- A published build, with the checksum that was given out for it. -/
structure Published (crc32c : Checksum) (readings : Readings κ) (blocks : List SeriesBlock)
    (bytes : Bytes) : Prop where
  build : readings.build = .ok blocks
  encode : encode crc32c blocks = .ok bytes

namespace Published

variable {readings : Readings κ} {blocks : List SeriesBlock} {bytes : Bytes}
  {asked : List SeriesKey}

def checksumOf (bytes : Bytes) : UInt32 := u32Of (slice bytes checksumAt headerLen)

theorem decoded (h : Published crc32c readings blocks bytes) : decode crc32c bytes = .ok blocks :=
  decode_encode h.encode (build_allowlisted h.build)

theorem encodedChecksum (h : Published crc32c readings blocks bytes) :
    Index.encodedChecksum bytes = .ok (checksumOf bytes) :=
  encodedChecksum_of_decode h.decoded

theorem decodeTarget (h : Published crc32c readings blocks bytes) (asked : List SeriesKey) :
    Index.decodeTarget crc32c bytes asked = .ok (targeted blocks asked (some (checksumOf bytes))) :=
  decodeTarget_decode asked h.decoded

theorem reusable (h : Published crc32c readings blocks bytes)
    (hasked : ∀ key ∈ asked, key ∈ keys readings.typeIds) :
    Index.reusable crc32c (some bytes) asked =
      some (targeted blocks asked (some (checksumOf bytes))) := by
  rw [Index.reusable, Option.bind_some, h.decodeTarget asked]
  exact if_pos (containsTargets_targeted h.build hasked _)

theorem encodeBuilt (h : Published crc32c readings blocks bytes) (asked : List SeriesKey) :
    Index.encodeBuilt crc32c asked (.ok blocks) =
      .ok (bytes, targeted blocks asked (some (checksumOf bytes))) := by
  have hencoded : (Index.encode crc32c blocks).mapError LoadError.bad = .ok bytes := by
    rw [h.encode]
    rfl
  show ((Index.encode crc32c blocks).mapError LoadError.bad >>= fun bytes =>
    Index.encodedChecksum bytes >>= fun checksum => _) = _
  rw [hencoded]
  show (Index.encodedChecksum bytes >>= fun checksum => _) = _
  rw [h.encodedChecksum]
  rfl

theorem resourceSelected (h : Published crc32c readings blocks bytes)
    (hasked : ∀ key ∈ asked, key ∈ keys readings.typeIds)
    (built : Except LoadError (List SeriesBlock)) (lock : Lock) (more : List Try) :
    Index.resourceSelected crc32c asked built ({ idx := .ok (some bytes), lock := lock } :: more) =
      { result := .ok
          { index := targeted blocks asked (some (checksumOf bytes)), persisted := true }
        published := none, built := false } := by
  rw [Index.resourceSelected]
  dsimp only
  rw [h.reusable hasked]

theorem resourceSelected_owner (h : Published crc32c readings blocks bytes) {stored : Option Bytes}
    (hstored : Index.reusable crc32c stored asked = none) (more : List Try) :
    Index.resourceSelected crc32c asked (.ok blocks)
        ({ idx := .ok stored, lock := .owner (.ok ()) (.ok ()) } :: more) =
      { result := .ok
          { index := targeted blocks asked (some (checksumOf bytes)), persisted := true }
        published := some bytes, built := true } := by
  rw [Index.resourceSelected]
  dsimp only
  rw [hstored]
  rw [h.encodeBuilt asked]

theorem runRequests (h : Published crc32c readings blocks bytes) (requests : List Request)
    (hasked : ∀ request ∈ requests, ∀ key ∈ request.keys, key ∈ keys readings.typeIds) :
    Index.runRequests crc32c (some bytes) requests =
      (requests.map fun request =>
        { result := .ok
            { index := targeted blocks request.keys (some (checksumOf bytes)), persisted := true }
          published := none, built := false }, some bytes) := by
  induction requests with
  | nil => rfl
  | cons request requests ih =>
    have hanswer := h.resourceSelected (hasked request List.mem_cons_self) request.built
      request.locks.1 [{ idx := .ok (some bytes), lock := request.locks.2 }]
    have hrest := ih fun other hother => hasked other (List.mem_cons_of_mem request hother)
    rw [Index.runRequests, Request.answer, hanswer]
    rw [Option.none_or, hrest, List.map_cons]

end Published

/-- A full index that is published answers every later request for the sections of its segment as
the build would have, with the checksum that was given out, and nothing is built again. -/
theorem published_index_reused {readings : Readings κ} {blocks : List SeriesBlock} {bytes : Bytes}
    (hbuild : readings.build = .ok blocks) (hencode : encode crc32c blocks = .ok bytes)
    (logicalSectionName : UInt32 → Option String) :
    ∃ checksum, encodedChecksum bytes = .ok checksum ∧
      (∀ asked, (∀ key ∈ asked,
          SelectedKey logicalSectionName (sectionsOf readings.catalogs) key) →
        decodeTarget crc32c bytes asked = .ok (targeted blocks asked (some checksum)) ∧
        (targeted blocks asked (some checksum)).containsTargets asked = true) ∧
      ∀ (first : Request) (requests : List Request) (stored : Option Bytes),
        (∀ request ∈ requests, ∀ key ∈ request.keys,
          SelectedKey logicalSectionName (sectionsOf readings.catalogs) key) →
        first.built = .ok blocks → first.locks.1 = .owner (.ok ()) (.ok ()) →
        reusable crc32c stored first.keys = none →
        runRequests crc32c stored (first :: requests) =
          ({ result := .ok
              { index := targeted blocks first.keys (some checksum), persisted := true }
             published := some bytes, built := true } ::
            requests.map fun request =>
              { result := .ok
                  { index := targeted blocks request.keys (some checksum), persisted := true }
                published := none, built := false }, some bytes) := by
  have hpublished : Published crc32c readings blocks bytes := ⟨hbuild, hencode⟩
  refine ⟨Published.checksumOf bytes, hpublished.encodedChecksum, fun asked hasked => ?_, ?_⟩
  · have hkeys : ∀ key ∈ asked, key ∈ keys readings.typeIds := fun key hkey =>
      (hasked key hkey).mem_keys
    exact ⟨hpublished.decodeTarget asked, containsTargets_targeted hbuild hkeys _⟩
  · intro first requests stored hasked hbuilt hlock hstored
    have hanswer := hpublished.resourceSelected_owner hstored
      [{ idx := .ok stored, lock := first.locks.2 }]
    have hrest := hpublished.runRequests requests fun request hrequest key hkey =>
      (hasked request hrequest key hkey).mem_keys
    rw [runRequests, Request.answer, hbuilt, hlock, hanswer]
    rw [Option.some_or, hrest]

/-- A segment of two sections, with an unknown health. -/
def databaseReadings : Readings Unit where
  minTs := 5
  catalogs := [{
    entries := [1005001, 1008001].map fun typeId =>
      { typeId := typeId, flags := 0, offset := 0, len := 1, rows := 1, crc32c := 0 }
    minTs := 5
    maxTs := 5
    formatVersion := 1
    windowCount := 1 }]
  metadataProjection := .ok none
  recordedCapacity _ := .ok ()
  noCapacity := ()
  penaltyAt _ _ _ := none
  osPoints _ := .ok [{ timestamp := 5, value := some 90 }]
  postgresSeed := none
  activeBackendSamples _ := .ok []
  transactionPoints _ := .ok [{ timestamp := 5, datid := 1, value := none }]
  findings _ _ _ := .ok fun typeId =>
    if typeId = 1008001 then
      [{ kind := .knownBad, category := none, fieldOrdinal := 4, rowOrdinal := 0, timestamp := 5 }]
    else []

def databaseBlocks : List SeriesBlock := databaseReadings.build.toOption.getD []
def databaseFile : Bytes := (encode castagnoli databaseBlocks).toOption.getD []

/-- The first request publishes, and the second, which could not even build, reads. -/
theorem published_index_reused_database :
    (runRequests castagnoli none
      [{ keys := findingKeysForSections (sectionsOf databaseReadings.catalogs)
         locks := (.owner (.ok ()) (.ok ()), .contended), built := .ok databaseBlocks },
       { keys := seriesKeysForSections (fun _ => some "pg_stat_database")
           (sectionsOf databaseReadings.catalogs) "pg_stat_database"
         locks := (.contended, .contended), built := .error (.reader "gone") }]).1.map
      Answer.built = [true, false] := by
  have hbuild : databaseReadings.build = .ok databaseBlocks := by decide +kernel
  have hencode : encode castagnoli databaseBlocks = .ok databaseFile := by decide +kernel
  obtain ⟨checksum, -, -, hruns⟩ := published_index_reused hbuild hencode
    fun _ => some "pg_stat_database"
  rw [hruns _ _ none _ rfl rfl rfl]
  · rfl
  · intro request hrequest key hkey
    rw [List.mem_singleton.mp hrequest] at hkey
    exact Or.inr (Or.inl ⟨"pg_stat_database", hkey⟩)

end Kronika.Index
