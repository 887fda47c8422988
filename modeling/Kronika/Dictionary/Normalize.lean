/-
Normalizing consistent windows succeeds.

A relation `P` between ids and finished values names what may be stored under an
id.  When it allows one value for each id, inserting values that it allows never
conflicts, and so decoding windows whose rows it allows fails at a cap or not at
all.  `rowsAllowed_encode` says which rows a flushed window has.
-/
import Kronika.Dictionary.Refinement
import Kronika.Writer.FinishedDictionary

namespace Kronika.Writer

open Format Dictionary

/-- The finished value of `bytes` under a placement. -/
def DictionaryValue.ofValue (hashes : Hashes) (limits : DictLimits) (placement : Placement)
    (bytes : Bytes) : DictionaryValue :=
  match placement with
  | .strings => .string bytes
  | .blobs =>
    .blob (Stored.ofValue hashes limits bytes {}).bytes bytes.length
      (Stored.ofValue hashes limits bytes {}).fullSha256.isSome
      (Stored.ofValue hashes limits bytes {}).fullSha256

def Functional (P : StrId → DictionaryValue → Prop) : Prop :=
  ∀ id left right, P id left → P id right → left = right

def Finishable (result : Except WriteError FinishedDictionary) : Prop :=
  ∀ problem, result = .error problem → problem.IsCap

namespace FinishedDictionary

variable {hashes : Hashes} {P : StrId → DictionaryValue → Prop}
variable {dictionary : FinishedDictionary} {id : StrId} {value : DictionaryValue}

def Allowed (P : StrId → DictionaryValue → Prop) (dictionary : FinishedDictionary) : Prop :=
  ∀ id value, dictionary.values[id]? = some value → P id value

theorem default_allowed : Allowed P default := fun id value h => absurd h (by simp [default])

theorem nextCounters_cap {rows storedBytes valueBytes : Nat} {problem : WriteError}
    (h : nextCounters rows storedBytes valueBytes = .error problem) : problem.IsCap := by
  unfold nextCounters at h
  split at h
  · cases h
    trivial
  · split at h
    · cases h
      trivial
    · split at h
      · cases h
        trivial
      · split at h
        · cases h
          trivial
        · cases h

theorem addValue_spec (dictionary : FinishedDictionary) (id : StrId) (value : DictionaryValue) :
    (∃ problem, dictionary.addValue id value = .error problem ∧ problem.IsCap) ∨
      ∃ after, dictionary.addValue id value = .ok after ∧
        after.values = dictionary.values.insert id value := by
  cases value with
  | string bytes =>
    unfold addValue
    cases h : nextCounters dictionary.stringRows dictionary.stringBytes bytes.length with
    | error problem => exact .inl ⟨problem, by simp only [h], nextCounters_cap h⟩
    | ok counters => exact .inr ⟨_, by simp only [h]; rfl, rfl⟩
  | blob bytes fullLen truncated sha =>
    unfold addValue
    cases h : nextCounters dictionary.blobRows dictionary.blobBytes bytes.length with
    | error problem => exact .inl ⟨problem, by simp only [h], nextCounters_cap h⟩
    | ok counters => exact .inr ⟨_, by simp only [h]; rfl, rfl⟩

theorem insertValue_spec (dictionary : FinishedDictionary) (id : StrId) (value : DictionaryValue) :
    (∃ existing, dictionary.values[id]? = some existing ∧ existing ≠ value ∧
        dictionary.insertValue id value = .error (.dictionaryConflict id.raw)) ∨
      (∃ problem, dictionary.insertValue id value = .error problem ∧ problem.IsCap) ∨
      ∃ after, dictionary.insertValue id value = .ok after ∧ after.values[id]? = some value ∧
        (∀ existing, dictionary.values[id]? = some existing → existing = value) ∧
        ∀ j, j ≠ id → after.values[j]? = dictionary.values[j]? := by
  unfold insertValue
  cases hget : dictionary.values[id]? with
  | some existing =>
    by_cases hsame : existing = value
    · right
      right
      refine ⟨dictionary, by simp only [if_pos hsame], hsame ▸ hget, ?_, fun _ _ => rfl⟩
      intro other hother
      rw [← Option.some.inj hother]
      exact hsame
    · exact .inl ⟨existing, rfl, hsame, by simp only [if_neg hsame]⟩
  | none =>
    right
    rcases addValue_spec dictionary id value with hcap | ⟨after, heq, hvalues⟩
    · exact .inl hcap
    · refine .inr ⟨after, heq, ?_, fun _ h => absurd h (by simp), fun j hj => ?_⟩
      · rw [hvalues, Std.TreeMap.getElem?_insert, if_pos Std.ReflCmp.compare_self]
      · rw [hvalues, Std.TreeMap.getElem?_insert,
          if_neg (fun he => hj (Std.LawfulEqCmp.eq_of_compare he).symm)]

theorem insertValue_allowed (hdict : Allowed P dictionary) (hvalue : P id value) :
    (∃ problem, dictionary.insertValue id value = .error problem ∧
        (Functional P → problem.IsCap)) ∨
      ∃ after, dictionary.insertValue id value = .ok after ∧ Allowed P after := by
  rcases insertValue_spec dictionary id value with
    ⟨existing, hget, hne, heq⟩ | ⟨problem, heq, hcap⟩ | ⟨after, heq, hself, -, hother⟩
  · refine .inl ⟨_, heq, fun hP => ?_⟩
    exact absurd (hP id existing value (hdict id existing hget) hvalue) hne
  · exact .inl ⟨problem, heq, fun _ => hcap⟩
  · refine .inr ⟨after, heq, fun j other hj => ?_⟩
    by_cases hji : j = id
    · rw [hji, hself] at hj
      rw [hji, ← Option.some.inj hj]
      exact hvalue
    · rw [hother j hji] at hj
      exact hdict j other hj

end FinishedDictionary

/-! ## Rows -/

/-- The rows of a window are in id order, well formed, and allowed by `P`. -/
structure RowsAllowed (hashes : Hashes) (P : StrId → DictionaryValue → Prop)
    (window : WindowSections) : Prop where
  strings_sorted : window.strings.Pairwise fun a b => a.strId < b.strId
  blobs_sorted : window.blobs.Pairwise fun a b => a.strId < b.strId
  strings : ∀ row ∈ window.strings, ∃ id : StrId, row.strId = id.raw ∧
    StrId.of hashes row.bytes = some id ∧ P id (.string row.bytes)
  blobs : ∀ row ∈ window.blobs, ∃ id : StrId, row.strId = id.raw ∧
    FinishedDictionary.validBlob hashes id row.storedBytes row.fullLen row.truncated
      row.fullSha256 = true ∧
    P id (.blob row.storedBytes row.fullLen row.truncated row.fullSha256)

theorem RowsAllowed.mono {hashes : Hashes} {P Q : StrId → DictionaryValue → Prop}
    {window : WindowSections} (h : RowsAllowed hashes P window)
    (hPQ : ∀ id value, P id value → Q id value) : RowsAllowed hashes Q window where
  strings_sorted := h.strings_sorted
  blobs_sorted := h.blobs_sorted
  strings row hrow := by
    obtain ⟨id, hid, hof, hP⟩ := h.strings row hrow
    exact ⟨id, hid, hof, hPQ _ _ hP⟩
  blobs row hrow := by
    obtain ⟨id, hid, hvalid, hP⟩ := h.blobs row hrow
    exact ⟨id, hid, hvalid, hPQ _ _ hP⟩

section Decode

variable {hashes : Hashes} {P : StrId → DictionaryValue → Prop}

theorem orderedStrId_ok {id : StrId} {previous : UInt64} (h : previous < id.raw) :
    orderedStrId id.raw previous = .ok id := by
  rw [orderedStrId, StrId.fromRaw_eq_some.mpr rfl]
  simp only [UInt64.not_le.mpr h, if_false]

/-- The result is a dictionary with allowed values only, or an error that is a cap
when `P` allows one value for each id. -/
def AllowedResult (P : StrId → DictionaryValue → Prop)
    (result : Except WriteError FinishedDictionary) : Prop :=
  (∃ problem, result = .error problem ∧ (Functional P → problem.IsCap)) ∨
    ∃ dictionary, result = .ok dictionary ∧ dictionary.Allowed P

theorem AllowedResult.allowed {dictionary : FinishedDictionary}
    (h : AllowedResult P (.ok dictionary)) : dictionary.Allowed P := by
  rcases h with ⟨problem, heq, -⟩ | ⟨other, heq, hallowed⟩
  · cases heq
  · cases heq
    exact hallowed

theorem AllowedResult.finishable {result : Except WriteError FinishedDictionary}
    (h : AllowedResult P result) (hP : Functional P) : Finishable result := by
  intro problem hproblem
  rcases h with ⟨other, heq, hcap⟩ | ⟨dictionary, heq, -⟩
  · rw [heq] at hproblem
    cases hproblem
    exact hcap hP
  · rw [heq] at hproblem
    cases hproblem

theorem decodeStrings_allowed (rows : List StringRow)
    (normalized : FinishedDictionary) (previous : UInt64) (hdict : normalized.Allowed P)
    (hsorted : rows.Pairwise fun a b => a.strId < b.strId)
    (hprevious : ∀ row ∈ rows, previous < row.strId)
    (hrows : ∀ row ∈ rows, ∃ id : StrId, row.strId = id.raw ∧
      StrId.of hashes row.bytes = some id ∧ P id (.string row.bytes)) :
    AllowedResult P (decodeStrings hashes normalized previous rows) := by
  induction rows generalizing normalized previous with
  | nil => exact .inr ⟨normalized, rfl, hdict⟩
  | cons row rows ih =>
    obtain ⟨id, hid, hof, hvalue⟩ := hrows row List.mem_cons_self
    have hlt := hprevious row List.mem_cons_self
    have hne : (some id != some id) = false := bne_self_eq_false _
    rw [List.pairwise_cons] at hsorted
    rw [hid] at hlt
    rw [decodeStrings, hid, orderedStrId_ok hlt]
    simp only [FinishedDictionary.insertOwnedString, hof, hne, Bool.false_eq_true, if_false]
    rcases FinishedDictionary.insertValue_allowed hdict hvalue with
      ⟨problem, heq, hcap⟩ | ⟨after, heq, hafter⟩
    · exact .inl ⟨problem, by simp only [heq], hcap⟩
    · simp only [heq]
      exact ih after id.raw hafter hsorted.2 (fun next hnext => hid ▸ hsorted.1 next hnext)
        (fun next hnext => hrows next (List.mem_cons_of_mem row hnext))

theorem decodeBlobs_allowed (rows : List BlobRow)
    (normalized : FinishedDictionary) (previous : UInt64) (hdict : normalized.Allowed P)
    (hsorted : rows.Pairwise fun a b => a.strId < b.strId)
    (hprevious : ∀ row ∈ rows, previous < row.strId)
    (hrows : ∀ row ∈ rows, ∃ id : StrId, row.strId = id.raw ∧
      FinishedDictionary.validBlob hashes id row.storedBytes row.fullLen row.truncated
        row.fullSha256 = true ∧
      P id (.blob row.storedBytes row.fullLen row.truncated row.fullSha256)) :
    AllowedResult P (decodeBlobs hashes normalized previous rows) := by
  induction rows generalizing normalized previous with
  | nil => exact .inr ⟨normalized, rfl, hdict⟩
  | cons row rows ih =>
    obtain ⟨id, hid, hvalid, hvalue⟩ := hrows row List.mem_cons_self
    have hlt := hprevious row List.mem_cons_self
    rw [List.pairwise_cons] at hsorted
    rw [hid] at hlt
    rw [decodeBlobs, hid, orderedStrId_ok hlt]
    simp only [FinishedDictionary.insertOwnedBlob, hvalid, Bool.not_true, Bool.false_eq_true,
      if_false]
    rcases FinishedDictionary.insertValue_allowed hdict hvalue with
      ⟨problem, heq, hcap⟩ | ⟨after, heq, hafter⟩
    · exact .inl ⟨problem, by simp only [heq], hcap⟩
    · simp only [heq]
      exact ih after id.raw hafter hsorted.2 (fun next hnext => hid ▸ hsorted.1 next hnext)
        (fun next hnext => hrows next (List.mem_cons_of_mem row hnext))

theorem decodeAll_allowed {α : Type}
    {decode : FinishedDictionary → α → Except WriteError FinishedDictionary}
    (bodies : List α) (normalized : FinishedDictionary) (hdict : normalized.Allowed P)
    (hdecode : ∀ normalized : FinishedDictionary, normalized.Allowed P → ∀ body ∈ bodies,
      AllowedResult P (decode normalized body)) :
    AllowedResult P (decodeAll decode normalized bodies) := by
  induction bodies generalizing normalized with
  | nil => exact .inr ⟨normalized, rfl, hdict⟩
  | cons body bodies ih =>
    rw [decodeAll]
    rcases hdecode normalized hdict body List.mem_cons_self with
      ⟨problem, heq, hcap⟩ | ⟨after, heq, hafter⟩
    · exact .inl ⟨problem, by simp only [heq], hcap⟩
    · simp only [heq]
      exact ih after hafter fun next hnext other hother =>
        hdecode next hnext other (List.mem_cons_of_mem body hother)

theorem zero_lt_raw (id : StrId) : 0 < id.raw := by
  rcases UInt64.lt_or_eq_of_le (UInt64.zero_le (a := id.raw)) with h | h
  · exact h
  · exact absurd h.symm id.nonzero

theorem normalizeDictionary_allowed {windows : List WindowSections}
    (hwindows : ∀ window ∈ windows, RowsAllowed hashes P window) :
    AllowedResult P (normalizeDictionary hashes windows) := by
  have hstrings : AllowedResult P
      (decodeAll (fun normalized rows => decodeStrings hashes normalized 0 rows)
        FinishedDictionary.default (windows.map WindowSections.strings)) := by
    refine decodeAll_allowed _ _ FinishedDictionary.default_allowed
      (fun normalized hnormalized body hbody => ?_)
    obtain ⟨window, hwindow, rfl⟩ := List.mem_map.mp hbody
    have hrows := hwindows window hwindow
    refine decodeStrings_allowed _ _ _ hnormalized hrows.strings_sorted (fun row hrow => ?_)
      hrows.strings
    obtain ⟨id, hid, -⟩ := hrows.strings row hrow
    exact hid ▸ zero_lt_raw id
  unfold normalizeDictionary
  rcases hstrings with ⟨problem, heq, hcap⟩ | ⟨normalized, heq, hnormalized⟩
  · exact .inl ⟨problem, by simp only [heq], hcap⟩
  · simp only [heq]
    refine decodeAll_allowed _ _ hnormalized (fun normalized hnormalized body hbody => ?_)
    obtain ⟨window, hwindow, rfl⟩ := List.mem_map.mp hbody
    have hrows := hwindows window hwindow
    refine decodeBlobs_allowed _ _ _ hnormalized hrows.blobs_sorted (fun row hrow => ?_)
      hrows.blobs
    obtain ⟨id, hid, -⟩ := hrows.blobs row hrow
    exact hid ▸ zero_lt_raw id

end Decode

/-! ## The rows of a flushed window -/

section Encode

variable {hashes : Hashes} {V : Set Bytes} {window : SegmentDicts}

theorem snapshots_sorted (window : SegmentDicts) :
    window.snapshots.Pairwise fun a b => a.strId.raw < b.strId.raw := by
  rw [SegmentDicts.snapshots, List.pairwise_map]
  exact window.entries.ordered_keys_toList.imp fun {a b} h =>
    show a.1.raw < b.1.raw from Std.compare_eq_lt.mp (show compare a.1.raw b.1.raw = .lt from h)

theorem sortById_filter (window : SegmentDicts) (p : EntrySnapshot → Bool) :
    sortById (window.snapshots.filter p) = window.snapshots.filter p :=
  List.Pairwise.insertionSort_eq
    (((snapshots_sorted window).filter p).imp fun h => UInt64.le_of_lt h)

theorem mem_snapshots {snap : EntrySnapshot} :
    snap ∈ window.snapshots ↔ ∃ (id : StrId) (stored : Stored),
      window.entries[id]? = some stored ∧ snap = SegmentDicts.snapshot id stored := by
  rw [SegmentDicts.snapshots, List.mem_map]
  constructor
  · rintro ⟨⟨id, stored⟩, hmem, rfl⟩
    exact ⟨id, stored, Std.TreeMap.mem_toList_iff_getElem?_eq_some.mp hmem, rfl⟩
  · rintro ⟨id, stored, hget, rfl⟩
    exact ⟨(id, stored), Std.TreeMap.mem_toList_iff_getElem?_eq_some.mpr hget, rfl⟩

theorem encode_ok {sections : WindowSections} (h : encode window = .ok sections) :
    sections.strings = (window.snapshots.filter
        fun entry => entry.placement = Placement.strings).map stringRow ∧
      sections.blobs = (window.snapshots.filter
        fun entry => entry.placement = Placement.blobs).map blobRow := by
  simp only [encode, encodeStrings, encodeBlobs, sortById_filter] at h
  split at h
  · cases h
  · rename_i strings hstrings
    split at h
    · cases h
    · rename_i blobs hblobs
      split at hstrings
      · cases hstrings
      · split at hblobs
        · cases hblobs
        · cases hstrings
          cases hblobs
          cases h
          exact ⟨rfl, rfl⟩

/-- What an entry is finished as: its placement decides between the two forms. -/
def finishedValue (hashes : Hashes) (limits : DictLimits) (bytes : Bytes) (stored : Stored) :
    DictionaryValue :=
  .ofValue hashes limits (if stored.isBlob then .blobs else .strings) bytes

theorem validBlob_ofValue {limits : DictLimits} {bytes : Bytes} {id : StrId}
    (hid : StrId.of hashes bytes = some id) :
    FinishedDictionary.validBlob hashes id (Stored.ofValue hashes limits bytes {}).bytes
      bytes.length (Stored.ofValue hashes limits bytes {}).fullSha256.isSome
      (Stored.ofValue hashes limits bytes {}).fullSha256 = true := by
  by_cases h : bytes.length > limits.truncateLimit
  · simp only [FinishedDictionary.validBlob, Stored.ofValue, h, if_true, Option.isSome_some,
      List.length_take, Bool.and_true, decide_eq_true_eq]
    omega
  · simp [FinishedDictionary.validBlob, Stored.ofValue, h, hid]

theorem rowsAllowed_encode {P : StrId → DictionaryValue → Prop} {sections : WindowSections}
    (hsound : window.Sound hashes V)
    (hP : ∀ id stored bytes, window.entries[id]? = some stored → bytes ∈ V →
      IsEntry hashes window.limits bytes id stored →
      P id (finishedValue hashes window.limits bytes stored))
    (h : encode window = .ok sections) : RowsAllowed hashes P sections := by
  obtain ⟨hstrings, hblobs⟩ := encode_ok h
  refine ⟨?_, ?_, fun row hrow => ?_, fun row hrow => ?_⟩
  · rw [hstrings, List.pairwise_map]
    exact (snapshots_sorted window).filter _
  · rw [hblobs, List.pairwise_map]
    exact (snapshots_sorted window).filter _
  · rw [hstrings] at hrow
    obtain ⟨snap, hmem, rfl⟩ := List.mem_map.mp hrow
    obtain ⟨hsnap, hplace⟩ := List.mem_filter.mp hmem
    obtain ⟨id, stored, hget, rfl⟩ := mem_snapshots.mp hsnap
    obtain ⟨bytes, hV, hentry⟩ := hsound id stored hget
    have hallowed := hP id stored bytes hget hV hentry
    have hblob : stored.isBlob = false := by
      by_contra hne
      simp [SegmentDicts.snapshot, hne] at hplace
    -- A string is below the blob threshold, so it is kept whole.
    have hshort : ¬bytes.length > window.limits.truncateLimit := by
      have hov : stored.oversized = false := by
        simp only [Stored.isBlob, Bool.or_eq_false_iff] at hblob
        exact hblob.2
      rw [hentry.stored_eq] at hov
      have hlt : ¬window.limits.blobThreshold ≤ bytes.length := of_decide_eq_false hov
      have hle := window.limits.threshold_le
      omega
    have hbytes : stored.bytes = bytes := by
      rw [hentry.stored_eq]
      simp only [Stored.ofValue, hshort, if_false]
    simp only [finishedValue, hblob] at hallowed
    refine ⟨id, rfl, ?_, ?_⟩
    · show StrId.of hashes stored.bytes = some id
      rw [hbytes]
      exact hentry.id_eq
    · show P id (.string stored.bytes)
      rw [hbytes]
      exact hallowed
  · rw [hblobs] at hrow
    obtain ⟨snap, hmem, rfl⟩ := List.mem_map.mp hrow
    obtain ⟨hsnap, hplace⟩ := List.mem_filter.mp hmem
    obtain ⟨id, stored, hget, rfl⟩ := mem_snapshots.mp hsnap
    obtain ⟨bytes, hV, hentry⟩ := hsound id stored hget
    have hallowed := hP id stored bytes hget hV hentry
    have hblob : stored.isBlob = true := by
      by_contra hne
      simp [SegmentDicts.snapshot, hne] at hplace
    simp only [finishedValue, hblob] at hallowed
    have hrow : blobRow (SegmentDicts.snapshot id stored) =
        { strId := id.raw, storedBytes := (Stored.ofValue hashes window.limits bytes {}).bytes
          fullLen := bytes.length
          truncated := (Stored.ofValue hashes window.limits bytes {}).fullSha256.isSome
          fullSha256 := (Stored.ofValue hashes window.limits bytes {}).fullSha256 } := by
      rw [hentry.stored_eq]
      rfl
    rw [hrow]
    exact ⟨id, rfl, validBlob_ofValue hentry.id_eq, hallowed⟩

end Encode

end Kronika.Writer
