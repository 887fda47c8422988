/-
What a scan of the finished segments returns, with and without an earlier scan.

`verdict` is what the bytes of a file say of it, without any budget.  A scan that
completes lists the files by their verdicts, except that an earlier unit of a file
takes the place of its verdict.  After an earlier scan that validated completely both
are the same; after one that read only catalogs, the files whose sections are damaged
stay listed.
-/
import Kronika.Store.FinishedScan

namespace Kronika.Store

open Format Library
open Reader (FileIdentity)

section Verdicts

variable (crc32c : Checksum)

/-- The validation of the bytes of a file. -/
def validateZms (validation : FinishedValidation) (bytes : Bytes) :
    Except ZmsError (Catalog × Nat) :=
  match readEncodedCatalog bytes none with
  | .error problem => .error problem
  | .ok encoded =>
    match verifyMagic bytes with
    | .error problem => .error problem
    | .ok () =>
      match Catalog.decode crc32c encoded.bytes with
      | .error problem => .error (.catalog problem)
      | .ok catalog =>
        match checkFormat catalog encoded.bodyEnd with
        | .error problem => .error problem
        | .ok () =>
          match validation with
          | .catalog => .ok (catalog, encoded.bytes.length)
          | .complete =>
            match validateSectionChecksums crc32c bytes catalog.entries with
            | .error problem => .error problem
            | .ok () => .ok (catalog, encoded.bytes.length)

theorem readEncodedCatalog_budget (bytes : Bytes) (retained limit : Nat) :
    readEncodedCatalog bytes (some (retained, limit)) = .error (.metadataLimit limit) ∨
      readEncodedCatalog bytes (some (retained, limit)) = readEncodedCatalog bytes none := by
  rw [readEncodedCatalog, readEncodedCatalog]
  by_cases hsmall : bytes.length < tailIndexLen
  · rw [if_pos hsmall, if_pos hsmall]
    exact Or.inr rfl
  · rw [if_neg hsmall, if_neg hsmall]
    dsimp only
    cases readExactAt bytes (bytes.length - tailIndexLen) tailIndexLen with
    | none => exact Or.inr rfl
    | some tailBytes =>
      dsimp only
      cases TailIndex.decode tailBytes with
      | error problem => exact Or.inr rfl
      | ok tail =>
        dsimp only
        by_cases hlong : tail.catalogLen > maxCatalogBytes
        · rw [if_pos hlong, if_pos hlong]
          exact Or.inr rfl
        · rw [if_neg hlong, if_neg hlong]
          by_cases hroom : bytes.length - tailIndexLen < tail.catalogLen ∨
              bytes.length - tailIndexLen - tail.catalogLen < magic.length
          · rw [if_pos hroom, if_pos hroom]
            exact Or.inr rfl
          · rw [if_neg hroom, if_neg hroom, checkBudget, checkBudget]
            by_cases hbudget : retained + tail.catalogLen > limit
            · rw [if_pos hbudget]
              exact Or.inl rfl
            · rw [if_neg hbudget]
              exact Or.inr rfl

theorem readZmsSummary_budget (bytes : Bytes) (retained limit : Nat)
    (validation : FinishedValidation) :
    readZmsSummary crc32c bytes retained limit validation = .error (.metadataLimit limit) ∨
      readZmsSummary crc32c bytes retained limit validation =
        validateZms crc32c validation bytes := by
  rw [readZmsSummary, validateZms]
  rcases readEncodedCatalog_budget bytes retained limit with hlimit | hsame
  · rw [hlimit]
    exact Or.inl rfl
  · rw [hsame]
    cases readEncodedCatalog bytes none with
    | error problem => exact Or.inr rfl
    | ok encoded =>
      dsimp only
      cases verifyMagic bytes with
      | error problem => exact Or.inr rfl
      | ok done =>
        cases Catalog.decode crc32c encoded.bytes with
        | error problem => exact Or.inr rfl
        | ok catalog =>
          dsimp only
          by_cases hbudget : retained + encoded.bytes.length +
              catalog.entries.length * entryAllocation > limit
          · rw [if_pos hbudget]
            exact Or.inl rfl
          · rw [if_neg hbudget]
            exact Or.inr rfl

theorem validateZms_complete (bytes : Bytes) :
    validateZms crc32c .complete bytes =
      match validateZms crc32c .catalog bytes with
      | .error problem => .error problem
      | .ok summary =>
        match validateSectionChecksums crc32c bytes summary.1.entries with
        | .error problem => .error problem
        | .ok () => .ok summary := by
  rw [validateZms, validateZms]
  cases readEncodedCatalog bytes none with
  | error problem => rfl
  | ok encoded =>
    dsimp only
    cases verifyMagic bytes with
    | error problem => rfl
    | ok done =>
      cases Catalog.decode crc32c encoded.bytes with
      | error problem => rfl
      | ok catalog =>
        dsimp only
        cases checkFormat catalog encoded.bodyEnd with
        | error problem => rfl
        | ok done => rfl

/-- What is valid completely has a valid catalog and the same summary, and no section of it
is damaged. -/
theorem validateZms_complete_ok {bytes : Bytes} {summary : Catalog × Nat} :
    validateZms crc32c .complete bytes = .ok summary ↔
      validateZms crc32c .catalog bytes = .ok summary ∧
        validateSectionChecksums crc32c bytes summary.1.entries = .ok () := by
  rw [validateZms_complete]
  cases hcatalog : validateZms crc32c .catalog bytes with
  | error problem => simp
  | ok found =>
    dsimp only
    cases hsections : validateSectionChecksums crc32c bytes found.1.entries with
    | error problem =>
      constructor
      · intro h
        cases h
      · rintro ⟨hfound, hintact⟩
        rw [← Except.ok.inj hfound, hsections] at hintact
        cases hintact
    | ok done =>
      refine ⟨fun h => ?_, fun h => h.1⟩
      rw [← Except.ok.inj h]
      exact ⟨rfl, hsections⟩

variable (contents : Contents)

/-- What the contents of a file say of it. -/
def verdict (validation : FinishedValidation) (artifact : ZmsArtifact) :
    Except StoreWarning ScannedUnit :=
  match contents artifact.id artifact.zmsIdentity with
  | .error failure => .error (invalidZmsWarning artifact .io (some failure))
  | .ok bytes =>
    match validateZms crc32c validation bytes with
    | .error problem => .error (zmsWarning artifact problem)
    | .ok summary =>
      .ok { id := artifact.id, identity := artifact.zmsIdentity, summary := summary }

/-- What a scan says of a file: an earlier unit of it, or its verdict. -/
def outcome (previous : List ScannedUnit) (validation : FinishedValidation)
    (artifact : ZmsArtifact) : Except StoreWarning ScannedUnit :=
  match previous.find? (ScannedUnit.isOf artifact) with
  | some unit => .ok unit
  | none => verdict crc32c contents validation artifact

end Verdicts

def listing {ε α : Type} : Except ε α → Option α
  | .error _ => none
  | .ok value => some value

def refusal {ε α : Type} : Except ε α → Option ε
  | .error problem => some problem
  | .ok _ => none

theorem listing_eq_some {ε α : Type} {result : Except ε α} {value : α} :
    listing result = some value ↔ result = .ok value := by
  cases result with
  | error problem => simp [listing]
  | ok found => simp [listing]

/-! ## The loop -/

variable {previous : List ScannedUnit}

section Loop

variable {limits : ScanLimits} {around : Circumstances} {crc32c : Checksum} {contents : Contents}
variable {validation : FinishedValidation}

variable {progress next : ScanProgress}

theorem pushWarning_ok {warning : StoreWarning}
    (h : pushWarning limits around progress warning = .ok next) :
    next.finished = progress.finished ∧ next.warnings = progress.warnings ++ [warning] := by
  rw [pushWarning] at h
  by_cases hfull : progress.warnings.length = progress.warningCapacity
  · rw [if_pos hfull] at h
    split at h
    · cases h
    · next done _ =>
      split at h
      · cases h
      · next capacity _ =>
        split at h
        · cases h
        · rw [← Except.ok.inj h]
          exact ⟨rfl, rfl⟩
  · rw [if_neg hfull] at h
    rw [← Except.ok.inj h]
    exact ⟨rfl, rfl⟩

theorem pushWarnings_ok {warnings : List StoreWarning}
    (h : pushWarnings limits around warnings progress = .ok next) :
    next.finished = progress.finished ∧ next.warnings = progress.warnings ++ warnings := by
  induction warnings generalizing progress with
  | nil =>
    rw [← Except.ok.inj h]
    exact ⟨rfl, (List.append_nil _).symm⟩
  | cons warning warnings ih =>
    rw [pushWarnings] at h
    split at h
    · cases h
    · next hfirst =>
      obtain ⟨hunits, hwarnings⟩ := pushWarning_ok hfirst
      obtain ⟨hrestUnits, hrestWarnings⟩ := ih h
      rw [hrestUnits, hrestWarnings, hunits, hwarnings, List.append_assoc]
      exact ⟨rfl, rfl⟩

theorem scanSegment_ok {artifact : ZmsArtifact}
    (h : scanSegment limits around crc32c contents validation artifact progress = .ok next) :
    let found := verdict crc32c contents validation artifact
    next.finished = progress.finished ++ (listing found).toList ∧
      next.warnings = progress.warnings ++ (refusal found).toList := by
  rw [scanSegment] at h
  cases hrace : around.races artifact.id with
  | some problem =>
    rw [hrace] at h
    cases h
  | none =>
    rw [hrace] at h
    rw [verdict]
    cases hcontents : contents artifact.id artifact.zmsIdentity with
    | error failure =>
      rw [hcontents] at h
      obtain ⟨hunits, hwarnings⟩ := pushWarning_ok h
      exact ⟨hunits.trans (List.append_nil _).symm, hwarnings⟩
    | ok bytes =>
      rw [hcontents] at h
      dsimp only at h ⊢
      split at h
      · cases h
      · next retained _ =>
        rcases readZmsSummary_budget crc32c bytes retained limits.maxMetadataBytes validation with
          hlimit | hsame
        · rw [hlimit] at h
          cases h
        · rw [hsame] at h
          cases hvalid : validateZms crc32c validation bytes with
          | error problem =>
            rw [hvalid] at h
            cases problem with
            | metadataLimit limit => cases h
            | _ =>
              obtain ⟨hunits, hwarnings⟩ := pushWarning_ok h
              exact ⟨hunits.trans (List.append_nil _).symm, hwarnings⟩
          | ok summary =>
            rw [hvalid] at h
            cases hroom : limits.ensureRetained progress.retained limits.summaryBytes
                progress.warningCapacity with
            | error problem =>
              rw [hroom] at h
              cases h
            | ok done =>
              rw [hroom] at h
              rw [← Except.ok.inj h]
              exact ⟨rfl, (List.append_nil _).symm⟩

theorem ScannedUnit.key_of_isOf {artifact : ZmsArtifact} (unit : ScannedUnit)
    (h : unit.isOf artifact = true) : unit.id.value = artifact.id.value := by
  rw [(of_decide_eq_true h).1]

theorem scanSegments_ok {artifacts : List ZmsArtifact}
    (hartifacts : artifacts.Pairwise fun a b => a.id.value < b.id.value)
    (hprevious : previous.Pairwise fun a b => a.id.value < b.id.value)
    (h : scanSegments limits around crc32c contents validation artifacts previous progress =
      .ok next) :
    next.finished = progress.finished ++ artifacts.filterMap (fun artifact =>
        listing (outcome crc32c contents previous validation artifact)) ∧
      next.warnings = progress.warnings ++ artifacts.filterMap (fun artifact =>
        refusal (outcome crc32c contents previous validation artifact)) := by
  induction artifacts generalizing previous progress with
  | nil =>
    rw [← Except.ok.inj h]
    exact ⟨(List.append_nil _).symm, (List.append_nil _).symm⟩
  | cons artifact rest ih =>
    obtain ⟨hfirst, hrest⟩ := List.pairwise_cons.mp hartifacts
    rw [scanSegments] at h
    rw [head?_advance hprevious fun unit => unit.key_of_isOf] at h
    -- A later file finds the same with and without the passed units.
    have hlater : ∀ other ∈ rest, outcome crc32c contents
        (advance (fun unit => unit.id.value) previous artifact.id.value) validation other =
          outcome crc32c contents previous validation other := fun other hother => by
      rw [outcome, outcome, find?_advance (hfirst other hother) fun unit => unit.key_of_isOf]
    have hunits := List.filterMap_congr fun other hother =>
      congrArg listing (hlater other hother)
    have hwarnings := List.filterMap_congr fun other hother =>
      congrArg refusal (hlater other hother)
    cases hfound : previous.find? (ScannedUnit.isOf artifact) with
    | some unit =>
      rw [hfound] at h
      obtain ⟨hnextUnits, hnextWarnings⟩ := ih hrest (advance_sorted hprevious) h
      have houtcome : outcome crc32c contents previous validation artifact = .ok unit := by
        rw [outcome, hfound]
      rw [hnextUnits, hnextWarnings, hunits, hwarnings, List.filterMap_cons, List.filterMap_cons,
        houtcome, List.append_assoc]
      exact ⟨rfl, rfl⟩
    | none =>
      rw [hfound] at h
      cases hsegment : scanSegment limits around crc32c contents validation artifact progress with
      | error problem =>
        rw [hsegment] at h
        cases h
      | ok scanned =>
        rw [hsegment] at h
        obtain ⟨hscannedUnits, hscannedWarnings⟩ := scanSegment_ok hsegment
        obtain ⟨hnextUnits, hnextWarnings⟩ := ih hrest (advance_sorted hprevious) h
        have houtcome : outcome crc32c contents previous validation artifact =
            verdict crc32c contents validation artifact := by
          rw [outcome, hfound]
        rw [hnextUnits, hnextWarnings, hunits, hwarnings, hscannedUnits, hscannedWarnings,
          List.filterMap_cons, List.filterMap_cons, houtcome, List.append_assoc, List.append_assoc]
        cases verdict crc32c contents validation artifact with
        | error problem => exact ⟨rfl, rfl⟩
        | ok unit => exact ⟨rfl, rfl⟩

/-- What a scan that completes returns. -/
structure Returns (limits : ScanLimits) (crc32c : Checksum) (contents : Contents)
    (layout : Layout) (journal : JournalScan) (journalMetadata : Nat)
    (previous : List ScannedUnit) (initial : List StoreWarning)
    (validation : FinishedValidation) (scan : StoreScan) : Prop where
  finished : scan.finished = layout.segments.filterMap fun artifact =>
    listing (outcome crc32c contents previous validation artifact)
  warnings : scan.warnings = initial ++ layout.foreign.map ForeignEntry.warning ++
    layout.segments.filterMap fun artifact =>
      refusal (outcome crc32c contents previous validation artifact)
  journal_eq : scan.journal = journal
  metadata : limits.accountedBytes 0 journalMetadata 0 layout.segments.length
    scan.finished.length = some scan.metadataBytes

theorem returns_of_ok {layout : Except ScanFailure Layout} {journal : JournalScan}
    {journalMetadata : Nat} {initial : List StoreWarning}
    {scan : StoreScan} (hprevious : previous.Pairwise fun a b => a.id.value < b.id.value)
    (h : completeScanCachedWithWarnings limits around crc32c contents layout journal
      journalMetadata previous initial validation = .ok scan) :
    ∃ current, layout = .ok current ∧ Returns limits crc32c contents current journal
      journalMetadata previous initial validation scan := by
  unfold completeScanCachedWithWarnings at h
  cases layout with
  | error problem => cases h
  | ok current =>
    dsimp only at h
    refine ⟨current, rfl, ?_⟩
    split at h
    · cases h
    · next retained _ =>
      by_cases hlimit : retained > limits.maxMetadataBytes
      · rw [if_pos hlimit] at h
        cases h
      · rw [if_neg hlimit] at h
        cases hpushed : pushWarnings limits around
            (initial ++ current.foreign.map ForeignEntry.warning)
            { finished := [], warnings := [], warningCapacity := 0, retained := retained } with
        | error problem =>
          rw [hpushed] at h
          cases h
        | ok pushed =>
          obtain ⟨hpushedUnits, hpushedWarnings⟩ := pushWarnings_ok hpushed
          rw [hpushed] at h
          dsimp only at h
          cases hscanned : scanSegments limits around crc32c contents validation
              current.segments previous pushed with
          | error problem =>
            rw [hscanned] at h
            cases h
          | ok scanned =>
            obtain ⟨hunits, hwarnings⟩ := scanSegments_ok current.sorted hprevious hscanned
            rw [hscanned] at h
            dsimp only at h
            split at h
            · cases h
            · next metadataBytes hbytes =>
              split at h
              · cases h
              · rw [← Except.ok.inj h]
                refine ⟨?_, ?_, rfl, hbytes⟩
                · rw [hunits, hpushedUnits]
                  exact List.nil_append _
                · rw [hwarnings, hpushedWarnings]
                  rfl

end Loop

/-! ## Earlier scans -/

def ScannedUnit.artifact (unit : ScannedUnit) : ZmsArtifact :=
  { id := unit.id, zmsIdentity := unit.identity }

theorem ScannedUnit.isOf_iff {artifact : ZmsArtifact} {unit : ScannedUnit} :
    unit.isOf artifact = true ↔ unit.artifact = artifact := by
  rw [isOf, decide_eq_true_iff, ScannedUnit.artifact, ZmsArtifact.mk.injEq]

section Earlier

variable (limits : ScanLimits) (crc32c : Checksum) (contents : Contents)

/-- The finished segments of some earlier scan of the store, with the level on which every
one of them was validated. -/
inductive Scanned : FinishedValidation → List ScannedUnit → Prop where
  | scan {around layout journal result}
      (h : scan limits around crc32c contents layout journal = .ok result) :
      Scanned .complete result.finished
  | scanCatalogs {around layout journal result}
      (h : scanCatalogs limits around crc32c contents layout journal = .ok result) :
      Scanned .catalog result.finished
  | completeScan {around layout journal journalMetadata result}
      (h : completeScan limits around crc32c contents layout journal journalMetadata =
        .ok result) :
      Scanned .complete result.finished
  | completeScanCached {validation previous around layout journal journalMetadata result}
      (hprevious : Scanned validation previous)
      (h : completeScanCached limits around crc32c contents layout journal journalMetadata
        previous = .ok result) :
      Scanned validation result.finished

/-- Sorted units, each with the summary that its file has. -/
structure Validated (validation : FinishedValidation) (units : List ScannedUnit) : Prop where
  sorted : units.Pairwise fun a b => a.id.value < b.id.value
  verdicts : ∀ unit ∈ units, verdict crc32c contents validation unit.artifact = .ok unit

variable {limits crc32c contents} {validation : FinishedValidation}

theorem validated_nil : Validated crc32c contents validation [] where
  sorted := .nil
  verdicts _ hunit := absurd hunit List.not_mem_nil

theorem verdict_ok {artifact : ZmsArtifact} {unit : ScannedUnit} :
    verdict crc32c contents validation artifact = .ok unit ↔
      unit.artifact = artifact ∧ ∃ bytes, contents artifact.id artifact.zmsIdentity = .ok bytes ∧
        validateZms crc32c validation bytes = .ok unit.summary := by
  rw [verdict]
  cases hcontents : contents artifact.id artifact.zmsIdentity with
  | error failure => simp
  | ok bytes =>
    dsimp only
    cases hvalid : validateZms crc32c validation bytes with
    | error problem => simp [hvalid]
    | ok summary =>
      constructor
      · intro h
        rw [← Except.ok.inj h]
        exact ⟨rfl, bytes, rfl, hvalid⟩
      · rintro ⟨rfl, found, hfound, hsummary⟩
        rw [← Except.ok.inj hfound, hvalid] at hsummary
        rw [Except.ok.inj hsummary]
        rfl

theorem verdict_catalog {artifact : ZmsArtifact} {unit : ScannedUnit}
    (h : verdict crc32c contents .complete artifact = .ok unit) :
    verdict crc32c contents validation artifact = .ok unit := by
  cases validation with
  | complete => exact h
  | catalog =>
    obtain ⟨hartifact, bytes, hbytes, hvalid⟩ := verdict_ok.mp h
    exact verdict_ok.mpr ⟨hartifact, bytes, hbytes, (validateZms_complete_ok crc32c).mp hvalid |>.1⟩

theorem Validated.outcome_ok {read : FinishedValidation}
    {artifact : ZmsArtifact} {unit : ScannedUnit}
    (hprevious : Validated crc32c contents validation previous)
    (hread : read = .complete ∨ read = validation)
    (h : outcome crc32c contents previous read artifact = .ok unit) :
    unit.artifact = artifact ∧ verdict crc32c contents validation artifact = .ok unit := by
  rw [outcome] at h
  cases hfound : previous.find? (ScannedUnit.isOf artifact) with
  | some found =>
    rw [hfound] at h
    obtain rfl := Except.ok.inj h
    have hsame := ScannedUnit.isOf_iff.mp (List.find?_some hfound)
    exact ⟨hsame, hsame ▸ hprevious.verdicts found (List.mem_of_find?_eq_some hfound)⟩
  | none =>
    rw [hfound] at h
    refine ⟨(verdict_ok.mp h).1, ?_⟩
    rcases hread with rfl | rfl
    · exact verdict_catalog h
    · exact h

theorem Validated.returns {layout : Layout} {journal : JournalScan} {journalMetadata : Nat}
    {initial : List StoreWarning} {read : FinishedValidation}
    {scan : StoreScan} (hprevious : Validated crc32c contents validation previous)
    (hread : read = .complete ∨ read = validation)
    (h : Returns limits crc32c contents layout journal journalMetadata previous initial read
      scan) : Validated crc32c contents validation scan.finished := by
  rw [h.finished]
  constructor
  · refine layout.sorted.filterMap _ fun a b hlt found hfound other hother => ?_
    have hfirst := (hprevious.outcome_ok hread (listing_eq_some.mp hfound)).1
    have hsecond := (hprevious.outcome_ok hread (listing_eq_some.mp hother)).1
    rw [← hfirst, ← hsecond] at hlt
    exact hlt
  · intro unit hunit
    obtain ⟨artifact, _, hfound⟩ := List.mem_filterMap.mp hunit
    obtain ⟨hsame, hverdict⟩ := hprevious.outcome_ok hread (listing_eq_some.mp hfound)
    rw [hsame]
    exact hverdict

theorem validated_of_journal {around : Circumstances} {layout : Except ScanFailure Layout}
    {journal : JournalOutcome} {result : StoreScan}
    (h : completeJournalScan limits around crc32c contents layout journal validation =
      .ok result) : Validated crc32c contents validation result.finished := by
  cases journal with
  | ok journal metadataBytes =>
    obtain ⟨current, rfl, hreturns⟩ := returns_of_ok .nil h
    exact validated_nil.returns (Or.inr rfl) hreturns
  | degraded warning metadataBytes =>
    obtain ⟨current, rfl, hreturns⟩ := returns_of_ok .nil h
    exact validated_nil.returns (Or.inr rfl) hreturns
  | failed problem => cases h

theorem Scanned.validated {units : List ScannedUnit}
    (h : Scanned limits crc32c contents validation units) :
    Validated crc32c contents validation units := by
  induction h with
  | scan h => exact validated_of_journal h
  | scanCatalogs h => exact validated_of_journal h
  | completeScan h =>
    obtain ⟨current, rfl, hreturns⟩ := returns_of_ok .nil h
    exact validated_nil.returns (Or.inl rfl) hreturns
  | completeScanCached _ h ih =>
    obtain ⟨current, rfl, hreturns⟩ := returns_of_ok ih.sorted h
    exact ih.returns (Or.inl rfl) hreturns

/-! ## The cached scan -/

theorem Validated.outcome_complete (artifact : ZmsArtifact)
    (hprevious : Validated crc32c contents .complete previous) :
    outcome crc32c contents previous .complete artifact =
      verdict crc32c contents .complete artifact := by
  rw [outcome]
  cases hfound : previous.find? (ScannedUnit.isOf artifact) with
  | none => rfl
  | some unit =>
    have hsame := ScannedUnit.isOf_iff.mp (List.find?_some hfound)
    rw [← hsame, hprevious.verdicts unit (List.mem_of_find?_eq_some hfound)]

def Damaged (crc32c : Checksum) (contents : Contents) (unit : ScannedUnit) : Prop :=
  ∃ bytes, contents unit.id unit.identity = .ok bytes ∧
    validateSectionChecksums crc32c bytes unit.summary.1.entries ≠ .ok ()

/-- After a validation of the catalogs only, the earlier units also stand for files with
damaged sections. -/
theorem Validated.outcome_catalog (artifact : ZmsArtifact)
    (hprevious : Validated crc32c contents .catalog previous) :
    outcome crc32c contents previous .complete artifact =
        verdict crc32c contents .complete artifact ∨
      ∃ unit ∈ previous, unit.artifact = artifact ∧ Damaged crc32c contents unit ∧
        outcome crc32c contents previous .complete artifact = .ok unit ∧
        (verdict crc32c contents .complete artifact).isOk = false := by
  rw [outcome]
  cases hfound : previous.find? (ScannedUnit.isOf artifact) with
  | none => exact Or.inl rfl
  | some unit =>
    have hsame := ScannedUnit.isOf_iff.mp (List.find?_some hfound)
    have hmem := List.mem_of_find?_eq_some hfound
    obtain ⟨-, bytes, hbytes, hvalid⟩ := verdict_ok.mp (hprevious.verdicts unit hmem)
    cases hverdict : verdict crc32c contents .complete artifact with
    | ok other =>
      have hcatalog := @verdict_catalog _ _ .catalog _ _ hverdict
      rw [← hsame, hprevious.verdicts unit hmem] at hcatalog
      exact Or.inl hcatalog
    | error warning =>
      refine Or.inr ⟨unit, hmem, hsame, ⟨bytes, hbytes, fun hintact => ?_⟩, rfl, rfl⟩
      have hcomplete := verdict_ok.mpr ⟨hsame, bytes, hsame ▸ hbytes,
        (validateZms_complete_ok crc32c).mpr ⟨hvalid, hintact⟩⟩
      rw [hverdict] at hcomplete
      cases hcomplete

/-- The same scan, but for damaged files that the earlier one listed. -/
structure SameButDamaged (crc32c : Checksum) (contents : Contents) (previous : List ScannedUnit)
    (cached uncached : StoreScan) : Prop where
  finished : uncached.finished = cached.finished.filter fun unit =>
    (verdict crc32c contents .complete unit.artifact).isOk
  /-- The warnings about listed files are missing. -/
  warnings : cached.warnings = uncached.warnings.filter fun warning =>
    cached.finished.all fun unit => warning.affected ≠ .segment unit.id
  journal_eq : cached.journal = uncached.journal
  damaged : ∀ unit ∈ cached.finished, unit ∉ uncached.finished →
    unit ∈ previous ∧ Damaged crc32c contents unit

section Returned

variable {layout : Layout} {journal : JournalScan} {journalMetadata : Nat}
variable {previous : List ScannedUnit} {cached uncached : StoreScan}

theorem cached_eq (hprevious : Validated crc32c contents .complete previous)
    (hcached : Returns limits crc32c contents layout journal journalMetadata previous []
      .complete cached)
    (huncached : Returns limits crc32c contents layout journal journalMetadata [] []
      .complete uncached) : cached = uncached := by
  have houtcome : ∀ artifact ∈ layout.segments,
      outcome crc32c contents previous .complete artifact =
        outcome crc32c contents [] .complete artifact :=
    fun artifact _ => hprevious.outcome_complete artifact
  have hfinished : cached.finished = uncached.finished := by
    rw [hcached.finished, huncached.finished]
    exact List.filterMap_congr fun artifact hmem => congrArg listing (houtcome artifact hmem)
  have hwarnings : cached.warnings = uncached.warnings := by
    rw [hcached.warnings, huncached.warnings, List.filterMap_congr fun artifact hmem =>
      congrArg refusal (houtcome artifact hmem)]
  have hjournal := hcached.journal_eq.trans huncached.journal_eq.symm
  have hmetadata := hcached.metadata
  rw [hfinished, huncached.metadata] at hmetadata
  cases cached
  cases hfinished
  cases hwarnings
  cases hjournal
  cases hmetadata
  rfl

/-- The listed units have the addresses of their files. -/
theorem mem_finished (hprevious : Validated crc32c contents .catalog previous)
    (hcached : Returns limits crc32c contents layout journal journalMetadata previous []
      .complete cached) {unit : ScannedUnit} :
    unit ∈ cached.finished ↔ unit.artifact ∈ layout.segments ∧
      outcome crc32c contents previous .complete unit.artifact = .ok unit := by
  rw [hcached.finished, List.mem_filterMap]
  constructor
  · rintro ⟨artifact, hmem, hfound⟩
    have hok := listing_eq_some.mp hfound
    obtain ⟨hsame, -⟩ := hprevious.outcome_ok (Or.inl rfl) hok
    rw [hsame]
    exact ⟨hmem, hok⟩
  · rintro ⟨hmem, hok⟩
    exact ⟨_, hmem, listing_eq_some.mpr hok⟩

theorem affected_of_verdict {artifact : ZmsArtifact} {warning : StoreWarning}
    (h : verdict crc32c contents validation artifact = .error warning) :
    warning.affected = .segment artifact.id := by
  rw [verdict] at h
  cases hcontents : contents artifact.id artifact.zmsIdentity with
  | error failure =>
    rw [hcontents] at h
    rw [← Except.error.inj h]
    rfl
  | ok bytes =>
    rw [hcontents] at h
    dsimp only at h
    cases hvalid : validateZms crc32c validation bytes with
    | ok summary =>
      rw [hvalid] at h
      cases h
    | error problem =>
      rw [hvalid] at h
      rw [← Except.error.inj h]
      rfl

theorem Layout.eq_of_id {a b : ZmsArtifact} (ha : a ∈ layout.segments) (hb : b ∈ layout.segments)
    (hid : a.id = b.id) : a = b := by
  have hnodup : (layout.segments.map ZmsArtifact.id).Nodup := by
    refine List.pairwise_map.mpr (layout.sorted.imp fun {first second} hlt heq => ?_)
    rw [heq] at hlt
    exact Std.lt_irrefl hlt
  exact List.inj_on_of_nodup_map hnodup ha hb hid

theorem cached_warnings (hprevious : Validated crc32c contents .catalog previous)
    (hcached : Returns limits crc32c contents layout journal journalMetadata previous []
      .complete cached)
    (huncached : Returns limits crc32c contents layout journal journalMetadata [] []
      .complete uncached) :
    cached.warnings = uncached.warnings.filter fun warning =>
      cached.finished.all fun unit => warning.affected ≠ .segment unit.id := by
  have hforeign : ∀ warning ∈ [] ++ layout.foreign.map ForeignEntry.warning,
      (cached.finished.all fun unit => warning.affected ≠ .segment unit.id) = true := by
    intro warning hwarning
    obtain ⟨foreign, _, rfl⟩ := List.mem_map.mp hwarning
    exact List.all_eq_true.mpr fun unit _ => rfl
  rw [hcached.warnings, huncached.warnings, List.filter_append, List.filter_eq_self.mpr hforeign,
    List.filter_filterMap]
  refine congrArg _ (List.filterMap_congr fun artifact hmem => ?_)
  have hfresh : outcome crc32c contents [] .complete artifact =
      verdict crc32c contents .complete artifact := rfl
  rw [hfresh]
  rcases hprevious.outcome_catalog artifact with hsame | ⟨unit, _, hunit, _, hok, hrefused⟩
  · rw [hsame]
    cases hverdict : verdict crc32c contents .complete artifact with
    | ok unit => rfl
    | error warning =>
      -- No unit of an excluded file is listed.
      have hall : (cached.finished.all fun unit => warning.affected ≠ .segment unit.id) = true := by
        refine List.all_eq_true.mpr fun unit hunit => decide_eq_true fun heq => ?_
        obtain ⟨hsegment, hok⟩ := (mem_finished hprevious hcached).mp hunit
        rw [affected_of_verdict hverdict] at heq
        have hartifact : artifact = unit.artifact :=
          layout.eq_of_id hmem hsegment (StoreObject.segment.inj heq)
        rw [← hartifact, hsame, hverdict] at hok
        cases hok
      rw [refusal, Option.filter_some, if_pos hall]
  · rw [hok]
    cases hverdict : verdict crc32c contents .complete artifact with
    | ok other =>
      rw [hverdict] at hrefused
      cases hrefused
    | error warning =>
      have hlisted : unit ∈ cached.finished :=
        (mem_finished hprevious hcached).mpr ⟨hunit ▸ hmem, hunit ▸ hok⟩
      have hnot :
          ¬(cached.finished.all fun unit => warning.affected ≠ .segment unit.id) = true := by
        intro hall
        have hne := of_decide_eq_true (List.all_eq_true.mp hall unit hlisted)
        exact hne ((affected_of_verdict hverdict).trans (by rw [← hunit]; rfl))
      rw [refusal, refusal, Option.filter_some, if_neg hnot]

theorem cached_finished (hprevious : Validated crc32c contents .catalog previous)
    (hcached : Returns limits crc32c contents layout journal journalMetadata previous []
      .complete cached)
    (huncached : Returns limits crc32c contents layout journal journalMetadata [] []
      .complete uncached) :
    uncached.finished = cached.finished.filter fun unit =>
      (verdict crc32c contents .complete unit.artifact).isOk := by
  rw [hcached.finished, huncached.finished, List.filter_filterMap]
  refine List.filterMap_congr fun artifact _ => ?_
  have hfresh : outcome crc32c contents [] .complete artifact =
      verdict crc32c contents .complete artifact := rfl
  rw [hfresh]
  rcases hprevious.outcome_catalog artifact with hsame | ⟨unit, _, hunit, _, hok, hrefused⟩
  · rw [hsame]
    cases hverdict : verdict crc32c contents .complete artifact with
    | error warning => rfl
    | ok unit =>
      have hisOk : (verdict crc32c contents .complete unit.artifact).isOk = true := by
        rw [(verdict_ok.mp hverdict).1, hverdict]
        rfl
      rw [listing, Option.filter_some, if_pos hisOk]
  · rw [hok, listing, Option.filter_some, if_neg (by rw [hunit, hrefused]; decide)]
    cases hverdict : verdict crc32c contents .complete artifact with
    | error warning => rfl
    | ok other =>
      rw [hverdict] at hrefused
      cases hrefused

theorem cached_damaged (hprevious : Validated crc32c contents .catalog previous)
    (hcached : Returns limits crc32c contents layout journal journalMetadata previous []
      .complete cached)
    (huncached : Returns limits crc32c contents layout journal journalMetadata [] []
      .complete uncached) {unit : ScannedUnit} (hunit : unit ∈ cached.finished)
    (hmissing : unit ∉ uncached.finished) : unit ∈ previous ∧ Damaged crc32c contents unit := by
  obtain ⟨hmem, hok⟩ := (mem_finished hprevious hcached).mp hunit
  rcases hprevious.outcome_catalog unit.artifact with
    hsame | ⟨other, hother, _, hdamaged, hfound, _⟩
  · have hverdict := hsame.symm.trans hok
    rw [cached_finished hprevious hcached huncached, List.mem_filter, hverdict] at hmissing
    exact absurd ⟨hunit, rfl⟩ hmissing
  · obtain rfl := Except.ok.inj (hfound.symm.trans hok)
    exact ⟨hother, hdamaged⟩

end Returned

/-- A cached scan is the uncached one when the earlier scan validated completely.  When it
validated only catalogs, the damaged files that it listed stay listed. -/
theorem cached_scan_agrees {layout : Except ScanFailure Layout} {journal : JournalScan}
    {journalMetadata : Nat} {previous : List ScannedUnit} {around fresh : Circumstances}
    {cached uncached : StoreScan}
    (hcached : completeScanCached limits around crc32c contents layout journal journalMetadata
      previous = .ok cached)
    (huncached : completeScan limits fresh crc32c contents layout journal journalMetadata =
      .ok uncached) :
    (Scanned limits crc32c contents .complete previous → cached = uncached) ∧
      (Scanned limits crc32c contents .catalog previous →
        SameButDamaged crc32c contents previous cached uncached) := by
  obtain ⟨current, rfl, hfresh⟩ := returns_of_ok .nil huncached
  constructor
  · intro hscanned
    obtain ⟨same, hsame, hreturns⟩ := returns_of_ok hscanned.validated.sorted hcached
    obtain rfl := Except.ok.inj hsame
    exact cached_eq hscanned.validated hreturns hfresh
  · intro hscanned
    have hvalidated := hscanned.validated
    obtain ⟨same, hsame, hreturns⟩ := returns_of_ok hvalidated.sorted hcached
    obtain rfl := Except.ok.inj hsame
    exact
      { finished := cached_finished hvalidated hreturns hfresh
        warnings := cached_warnings hvalidated hreturns hfresh
        journal_eq := hreturns.journal_eq.trans hfresh.journal_eq.symm
        damaged := fun unit hunit hmissing =>
          cached_damaged hvalidated hreturns hfresh hunit hmissing }

end Earlier

/-! ## Concrete runs -/

theorem representable_two : representable 2 = true := by decide

def twoIdentity : FileIdentity :=
  { device := 1, inode := 2, len := 77, mtimeSeconds := 0, mtimeNanoseconds := 0
    ctimeSeconds := 0, ctimeNanoseconds := 0 }

/-- A layout with one segment. -/
def oneSegment : Layout where
  segments := [{ id := ⟨2, representable_two⟩, zmsIdentity := twoIdentity }]
  sorted := List.pairwise_singleton _ _
  foreign := []
  metadataBytes := 0

def roomyLimits : ScanLimits :=
  { unitBytes := 100, collectionBytes := 40, summaryBytes := 200, warningBytes := 100
    maxMetadataBytes := 100000 }

def quiet : Circumstances := { reserve := fun len => some (len + 1), races := fun _ => none }

def intactContents : Contents := fun _ _ => .ok samplePart

def damagedContents : Contents := fun _ _ => .ok (samplePart.set 4 8)

def listedScan : StoreScan :=
  { finished := [{ id := ⟨2, representable_two⟩, identity := twoIdentity
                   summary := (sampleCatalog, 64) }]
    journal := emptyJournalScan, warnings := [], metadataBytes := 340 }

/-- The scan that excludes it. -/
def excludedScan : StoreScan :=
  { finished := [], journal := emptyJournalScan
    warnings := [zmsWarning { id := ⟨2, representable_two⟩, zmsIdentity := twoIdentity }
      (.sectionChecksum 1001001)]
    metadataBytes := 140 }

theorem intact_scan : scan roomyLimits quiet castagnoli intactContents (.ok oneSegment)
    (.ok emptyJournalScan 0) = .ok listedScan := by decide +kernel

theorem intact_cached : completeScanCached roomyLimits quiet castagnoli intactContents
    (.ok oneSegment) emptyJournalScan 0 listedScan.finished = .ok listedScan := by decide +kernel

theorem intact_uncached : completeScan roomyLimits quiet castagnoli intactContents
    (.ok oneSegment) emptyJournalScan 0 = .ok listedScan := by decide +kernel

theorem damaged_catalogs : scanCatalogs roomyLimits quiet castagnoli damagedContents
    (.ok oneSegment) (.ok emptyJournalScan 0) = .ok listedScan := by decide +kernel

theorem damaged_cached : completeScanCached roomyLimits quiet castagnoli damagedContents
    (.ok oneSegment) emptyJournalScan 0 listedScan.finished = .ok listedScan := by decide +kernel

theorem damaged_uncached : completeScan roomyLimits quiet castagnoli damagedContents
    (.ok oneSegment) emptyJournalScan 0 = .ok excludedScan := by decide +kernel

/-- A scan that reuses a scan of the catalogs lists a damaged segment. -/
theorem cached_scan_keeps_damaged :
    ∃ earlier cached uncached,
      scanCatalogs roomyLimits quiet castagnoli damagedContents (.ok oneSegment)
        (.ok emptyJournalScan 0) = .ok earlier ∧
      completeScanCached roomyLimits quiet castagnoli damagedContents (.ok oneSegment)
        emptyJournalScan 0 earlier.finished = .ok cached ∧
      completeScan roomyLimits quiet castagnoli damagedContents (.ok oneSegment)
        emptyJournalScan 0 = .ok uncached ∧
      cached.finished ≠ uncached.finished ∧ cached.warnings ≠ uncached.warnings :=
  ⟨listedScan, listedScan, excludedScan, damaged_catalogs, damaged_cached, damaged_uncached,
    by decide, by decide⟩

theorem cached_scan_agrees_oneSegment :
    (∃ cached uncached, completeScanCached roomyLimits quiet castagnoli intactContents
        (.ok oneSegment) emptyJournalScan 0 listedScan.finished = .ok cached ∧
      completeScan roomyLimits quiet castagnoli intactContents (.ok oneSegment)
        emptyJournalScan 0 = .ok uncached ∧ cached = uncached) ∧
      SameButDamaged castagnoli damagedContents listedScan.finished listedScan excludedScan :=
  ⟨⟨_, _, intact_cached, intact_uncached,
      (cached_scan_agrees intact_cached intact_uncached).1 (.scan intact_scan)⟩,
    (cached_scan_agrees damaged_cached damaged_uncached).2 (.scanCatalogs damaged_catalogs)⟩

end Kronika.Store
