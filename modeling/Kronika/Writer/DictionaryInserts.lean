/-
The insertions of a finished dictionary, each with the dictionary that it leaves behind.

Three calls lead to `insert_value`: one borrows a resolved entry, two take the bytes over.
The borrowing one looks the id up by itself before it copies anything.
-/
import Kronika.Library.Run
import Kronika.Writer.FinishedDictionary

namespace Kronika.Writer
namespace DictionaryCalls

open Format
open Registry (maxSectionRows maxSectionBytes)

abbrev Outcome := Except WriteError Unit × FinishedDictionary

def insertValue (dictionary : FinishedDictionary) (strId : StrId) (value : DictionaryValue) :
    Outcome :=
  match dictionary.values[strId]? with
  | some existing =>
    if existing = value then (.ok (), dictionary)
    else (.error (.dictionaryConflict strId.raw), dictionary)
  | none =>
    match value with
    | .string bytes =>
      match FinishedDictionary.nextCounters dictionary.stringRows dictionary.stringBytes
          bytes.length with
      | .error problem => (.error problem, dictionary)
      | .ok counters =>
        (.ok (), { dictionary with
          stringRows := counters.1, stringBytes := counters.2
          values := dictionary.values.insert strId value })
    | .blob bytes _ _ _ =>
      match FinishedDictionary.nextCounters dictionary.blobRows dictionary.blobBytes
          bytes.length with
      | .error problem => (.error problem, dictionary)
      | .ok counters =>
        (.ok (), { dictionary with
          blobRows := counters.1, blobBytes := counters.2
          values := dictionary.values.insert strId value })

def insertOwnedString (hashes : Hashes) (dictionary : FinishedDictionary) (strId : StrId)
    (bytes : Bytes) : Outcome :=
  if StrId.of hashes bytes ≠ some strId then (.error (.codec .schemaMismatch), dictionary)
  else insertValue dictionary strId (.string bytes)

def insertOwnedBlob (hashes : Hashes) (dictionary : FinishedDictionary) (strId : StrId)
    (bytes : Bytes) (fullLen : Nat) (truncated : Bool)
    (fullSha256 : Option (Vector UInt8 32)) : Outcome :=
  if FinishedDictionary.validBlob hashes strId bytes fullLen truncated fullSha256 = false then
    (.error (.codec .schemaMismatch), dictionary)
  else insertValue dictionary strId (.blob bytes fullLen truncated fullSha256)

/-- The lookup of `insert` before it copies the bytes. -/
def insertBorrowed (dictionary : FinishedDictionary) (strId : StrId) (value : DictionaryValue) :
    Outcome :=
  match dictionary.values[strId]? with
  | some existing =>
    if existing = value then (.ok (), dictionary)
    else (.error (.dictionaryConflict strId.raw), dictionary)
  | none => insertValue dictionary strId value

def insert (hashes : Hashes) (dictionary : FinishedDictionary) (strId : StrId) :
    Resolved → Outcome
  | .str bytes =>
    if StrId.of hashes bytes ≠ some strId then (.error (.codec .schemaMismatch), dictionary)
    else insertBorrowed dictionary strId (.string bytes)
  | .blob blob =>
    if blob.strId ≠ strId then (.error (.codec .schemaMismatch), dictionary)
    else if FinishedDictionary.validBlob hashes strId blob.storedBytes blob.fullLen blob.truncated
        blob.fullSha256 = false then
      (.error (.codec .schemaMismatch), dictionary)
    else insertBorrowed dictionary strId
      (.blob blob.storedBytes blob.fullLen blob.truncated blob.fullSha256)

/-! ## Calls -/

/-- One insertion, by any of the three. -/
inductive Call where
  | insert (strId : StrId) (resolved : Resolved)
  | ownedString (strId : StrId) (bytes : Bytes)
  | ownedBlob (strId : StrId) (bytes : Bytes) (fullLen : Nat) (truncated : Bool)
    (fullSha256 : Option (Vector UInt8 32))

namespace Call

def apply (hashes : Hashes) (dictionary : FinishedDictionary) : Call → Outcome
  | insert strId resolved => DictionaryCalls.insert hashes dictionary strId resolved
  | ownedString strId bytes => insertOwnedString hashes dictionary strId bytes
  | ownedBlob strId bytes fullLen truncated fullSha256 =>
    insertOwnedBlob hashes dictionary strId bytes fullLen truncated fullSha256

def strId : Call → StrId
  | insert strId _ | ownedString strId _ | ownedBlob strId _ _ _ _ => strId

def value : Call → DictionaryValue
  | insert _ (.str bytes) | ownedString _ bytes => .string bytes
  | insert _ (.blob blob) => .blob blob.storedBytes blob.fullLen blob.truncated blob.fullSha256
  | ownedBlob _ bytes fullLen truncated fullSha256 => .blob bytes fullLen truncated fullSha256

def namesItself : Call → Bool
  | insert strId (.blob blob) => blob.strId = strId
  | _ => true

end Call

/-- What is required of a record before it is compared with the stored one. -/
def valid (hashes : Hashes) (strId : StrId) : DictionaryValue → Bool
  | .string bytes => StrId.of hashes bytes = some strId
  | .blob bytes fullLen truncated fullSha256 =>
    FinishedDictionary.validBlob hashes strId bytes fullLen truncated fullSha256

/-- What every call comes to: its checks, then `insert_value`. -/
def insertRecord (hashes : Hashes) (dictionary : FinishedDictionary) (call : Call) : Outcome :=
  if call.namesItself && valid hashes call.strId call.value then
    insertValue dictionary call.strId call.value
  else (.error (.codec .schemaMismatch), dictionary)

theorem insertBorrowed_eq (dictionary : FinishedDictionary) (strId : StrId)
    (value : DictionaryValue) :
    insertBorrowed dictionary strId value = insertValue dictionary strId value := by
  rw [insertBorrowed]
  cases hfound : dictionary.values[strId]? with
  | none => rfl
  | some existing =>
    unfold insertValue
    rw [hfound]

theorem insertOwnedString_eq (hashes : Hashes) (dictionary : FinishedDictionary) (strId : StrId)
    (bytes : Bytes) : insertOwnedString hashes dictionary strId bytes =
      insertRecord hashes dictionary (.ownedString strId bytes) := by
  rw [insertOwnedString, insertRecord]
  by_cases hhash : StrId.of hashes bytes = some strId
  · simp [Call.namesItself, Call.strId, Call.value, valid, hhash]
  · simp [Call.strId, Call.value, valid, hhash]

theorem apply_eq (hashes : Hashes) (dictionary : FinishedDictionary) (call : Call) :
    call.apply hashes dictionary = insertRecord hashes dictionary call := by
  cases call with
  | ownedString strId bytes => exact insertOwnedString_eq hashes dictionary strId bytes
  | ownedBlob strId bytes fullLen truncated fullSha256 =>
    rw [Call.apply, insertOwnedBlob, insertRecord]
    cases hvalid : FinishedDictionary.validBlob hashes strId bytes fullLen truncated fullSha256 with
    | false => simp [Call.value, Call.strId, valid, hvalid]
    | true => simp [Call.namesItself, Call.value, Call.strId, valid, hvalid]
  | insert strId resolved =>
    cases resolved with
    | str bytes =>
      simp only [Call.apply, insert, insertBorrowed_eq]
      exact insertOwnedString_eq hashes dictionary strId bytes
    | blob blob =>
      simp only [Call.apply, insert, insertBorrowed_eq, insertRecord]
      by_cases hsame : blob.strId = strId
      · cases hvalid : FinishedDictionary.validBlob hashes strId blob.storedBytes blob.fullLen
            blob.truncated blob.fullSha256 with
        | false => simp [Call.value, Call.strId, valid, hvalid]
        | true => simp [Call.namesItself, Call.value, Call.strId, valid, hvalid]
      · simp [Call.namesItself, hsame]

/-! ## What an insertion does -/

def rowOf (placement : Placement) : DictionaryValue → Nat
  | .string _ => if placement = .strings then 1 else 0
  | .blob _ _ _ _ => if placement = .blobs then 1 else 0

def bytesOf (placement : Placement) : DictionaryValue → Nat
  | .string bytes => if placement = .strings then bytes.length else 0
  | .blob bytes _ _ _ => if placement = .blobs then bytes.length else 0

/-- The counters are those of the stored records and within the caps, and each record is
one that its checks let in. -/
structure Counted (hashes : Hashes) (dictionary : FinishedDictionary) : Prop where
  stringRows : dictionary.stringRows =
    TreeMap.sumOver (fun _ value => rowOf .strings value) dictionary.values
  blobRows : dictionary.blobRows =
    TreeMap.sumOver (fun _ value => rowOf .blobs value) dictionary.values
  stringBytes : dictionary.stringBytes =
    TreeMap.sumOver (fun _ value => bytesOf .strings value) dictionary.values
  blobBytes : dictionary.blobBytes =
    TreeMap.sumOver (fun _ value => bytesOf .blobs value) dictionary.values
  rows_le : dictionary.stringRows ≤ maxSectionRows ∧ dictionary.blobRows ≤ maxSectionRows
  bytes_le : dictionary.stringBytes ≤ maxSectionBytes ∧ dictionary.blobBytes ≤ maxSectionBytes
  valid : ∀ strId value, dictionary.values[strId]? = some value → valid hashes strId value = true

theorem nextCounters_ok {rows storedBytes valueBytes : Nat} {counters : Nat × Nat}
    (h : FinishedDictionary.nextCounters rows storedBytes valueBytes = .ok counters) :
    counters = (rows + 1, storedBytes + valueBytes) ∧ rows + 1 ≤ maxSectionRows ∧
      storedBytes + valueBytes ≤ maxSectionBytes := by
  rw [FinishedDictionary.nextCounters] at h
  split at h
  · cases h
  · next hrows =>
    split at h
    · cases h
    next hcap =>
      split at h
      · cases h
      · next hbytes =>
        split at h
        · cases h
        next hbytesCap =>
          have hadd : ∀ {a b c : Nat}, checkedAdd a b = some c → c = a + b := by
            intro a b c heq
            rw [checkedAdd] at heq
            split at heq
            · exact (Option.some.inj heq).symm
            · cases heq
          rw [hadd hrows] at hcap h
          rw [hadd hbytes] at hbytesCap h
          exact ⟨(Except.ok.inj h).symm, not_lt.mp hcap, not_lt.mp hbytesCap⟩

/-- An insertion that fails leaves the dictionary as it was, and one that succeeds finds the
record stored, or stores it under an id that was free. -/
theorem insertValue_cases (dictionary : FinishedDictionary) (strId : StrId)
    (value : DictionaryValue) :
    (∃ problem, insertValue dictionary strId value = (.error problem, dictionary)) ∨
      dictionary.values[strId]? = some value ∧
        insertValue dictionary strId value = (.ok (), dictionary) ∨
      dictionary.values[strId]? = none ∧ ∃ after,
        insertValue dictionary strId value = (.ok (), after) ∧
        after.values = dictionary.values.insert strId value ∧
        after.stringRows = dictionary.stringRows + rowOf .strings value ∧
        after.blobRows = dictionary.blobRows + rowOf .blobs value ∧
        after.stringBytes = dictionary.stringBytes + bytesOf .strings value ∧
        after.blobBytes = dictionary.blobBytes + bytesOf .blobs value ∧
        (after.stringRows ≤ max dictionary.stringRows maxSectionRows ∧
          after.blobRows ≤ max dictionary.blobRows maxSectionRows) ∧
        after.stringBytes ≤ max dictionary.stringBytes maxSectionBytes ∧
        after.blobBytes ≤ max dictionary.blobBytes maxSectionBytes := by
  unfold insertValue
  cases hfound : dictionary.values[strId]? with
  | some existing =>
    dsimp only
    by_cases hsame : existing = value
    · rw [if_pos hsame, hsame]
      exact Or.inr (Or.inl ⟨rfl, rfl⟩)
    · rw [if_neg hsame]
      exact Or.inl ⟨_, rfl⟩
  | none =>
    cases value with
    | string bytes =>
      dsimp only
      cases hcounters : FinishedDictionary.nextCounters dictionary.stringRows
          dictionary.stringBytes bytes.length with
      | error problem => exact Or.inl ⟨problem, rfl⟩
      | ok counters =>
        obtain ⟨rfl, hrows, hbytes⟩ := nextCounters_ok hcounters
        refine Or.inr (Or.inr ⟨rfl, _, rfl, rfl, rfl, rfl, rfl, rfl, ⟨?_, ?_⟩, ?_, ?_⟩)
        · exact le_max_of_le_right hrows
        · exact le_max_left _ _
        · exact le_max_of_le_right hbytes
        · exact le_max_left _ _
    | blob bytes fullLen truncated fullSha256 =>
      dsimp only
      cases hcounters : FinishedDictionary.nextCounters dictionary.blobRows
          dictionary.blobBytes bytes.length with
      | error problem => exact Or.inl ⟨problem, rfl⟩
      | ok counters =>
        obtain ⟨rfl, hrows, hbytes⟩ := nextCounters_ok hcounters
        refine Or.inr (Or.inr ⟨rfl, _, rfl, rfl, rfl, rfl, rfl, rfl, ⟨?_, ?_⟩, ?_, ?_⟩)
        · exact le_max_left _ _
        · exact le_max_of_le_right hrows
        · exact le_max_left _ _
        · exact le_max_of_le_right hbytes

theorem insertValue_eq (dictionary : FinishedDictionary) (strId : StrId) (value : DictionaryValue) :
    insertValue dictionary strId value =
      (((dictionary.insertValue strId value).map fun _ => ()),
        (dictionary.insertValue strId value).toOption.getD dictionary) := by
  unfold insertValue FinishedDictionary.insertValue
  cases dictionary.values[strId]? with
  | some existing =>
    dsimp only
    split <;> rfl
  | none =>
    cases value with
    | string bytes =>
      rw [FinishedDictionary.addValue]
      dsimp only
      cases FinishedDictionary.nextCounters dictionary.stringRows dictionary.stringBytes
        bytes.length <;> rfl
    | blob bytes fullLen truncated fullSha256 =>
      rw [FinishedDictionary.addValue]
      dsimp only
      cases FinishedDictionary.nextCounters dictionary.blobRows dictionary.blobBytes
        bytes.length <;> rfl

section Runs

variable {hashes : Hashes} {dictionary : FinishedDictionary}

theorem default_counted (hashes : Hashes) : Counted hashes FinishedDictionary.default where
  stringRows := (TreeMap.sumOver_empty _).symm
  blobRows := (TreeMap.sumOver_empty _).symm
  stringBytes := (TreeMap.sumOver_empty _).symm
  blobBytes := (TreeMap.sumOver_empty _).symm
  rows_le := by decide
  bytes_le := by decide
  valid strId value h := by
    cases h

theorem Counted.apply (h : Counted hashes dictionary) (call : Call) :
    Counted hashes (call.apply hashes dictionary).2 := by
  rw [apply_eq, insertRecord]
  by_cases hvalid : (call.namesItself && DictionaryCalls.valid hashes call.strId call.value) = true
  · rw [if_pos hvalid]
    rcases insertValue_cases dictionary call.strId call.value with ⟨problem, heq⟩ | ⟨_, heq⟩ |
      ⟨hnone, after, heq, hvalues, hstrings, hblobs, hstringBytes, hblobBytes, hrows, hbytes⟩
    · rw [heq]
      exact h
    · rw [heq]
      exact h
    · rw [heq]
      have hsum : ∀ f : DictionaryValue → Nat,
          TreeMap.sumOver (fun _ value => f value) after.values =
            TreeMap.sumOver (fun _ value => f value) dictionary.values + f call.value := by
        intro f
        rw [hvalues]
        exact TreeMap.sumOver_insert_of_none _ hnone fun _ _ _ _ => rfl
      obtain ⟨hstringCap, hblobCap⟩ := h.rows_le
      obtain ⟨hstringLen, hblobLen⟩ := h.bytes_le
      refine ⟨?_, ?_, ?_, ?_, ?_, ?_, ?_⟩
      · rw [hsum, ← h.stringRows, hstrings]
      · rw [hsum, ← h.blobRows, hblobs]
      · rw [hsum, ← h.stringBytes, hstringBytes]
      · rw [hsum, ← h.blobBytes, hblobBytes]
      · exact ⟨hrows.1.trans (max_le hstringCap le_rfl), hrows.2.trans (max_le hblobCap le_rfl)⟩
      · exact ⟨hbytes.1.trans (max_le hstringLen le_rfl), hbytes.2.trans (max_le hblobLen le_rfl)⟩
      · intro strId value hvalue
        rw [hvalues] at hvalue
        by_cases hsame : strId = call.strId
        · rw [hsame, TreeMap.getElem?_insert_self] at hvalue
          rw [hsame, ← Option.some.inj hvalue]
          exact (Bool.and_eq_true_iff.mp hvalid).2
        · rw [TreeMap.getElem?_insert_ne _ _ hsame] at hvalue
          exact h.valid strId value hvalue
  · rw [if_neg hvalid]
    exact h

def reach (hashes : Hashes) (calls : List Call) : FinishedDictionary :=
  Run.finish (fun dictionary call => (call.apply hashes dictionary).2) .default calls

theorem reach_counted (hashes : Hashes) (calls : List Call) :
    Counted hashes (reach hashes calls) := by
  have hrun : Run.Along (fun _ _ => True) (fun dictionary call =>
      (Call.apply hashes dictionary call).2) FinishedDictionary.default calls :=
    Run.Along.of_forall fun _ _ _ => trivial
  exact Run.invariant (fun _ call _ h _ => h.apply call) (default_counted hashes) hrun

end Runs

/-- In every dictionary that calls lead to, all ways to insert a record come to the same, a
record that is there is accepted and changes nothing, an error changes nothing, and the
counters are those of the records. -/
theorem finished_dictionary_inserts (hashes : Hashes) (calls : List Call) :
    Counted hashes (reach hashes calls) ∧
    (∀ strId bytes, insert hashes (reach hashes calls) strId (.str bytes) =
      insertOwnedString hashes (reach hashes calls) strId bytes) ∧
    (∀ strId blob, insert hashes (reach hashes calls) strId (.blob blob) =
      if blob.strId = strId then
        insertOwnedBlob hashes (reach hashes calls) strId blob.storedBytes blob.fullLen
          blob.truncated blob.fullSha256
      else (.error (.codec .schemaMismatch), reach hashes calls)) ∧
    ∀ call : Call,
      (call.namesItself = true → (reach hashes calls).values[call.strId]? = some call.value →
        call.apply hashes (reach hashes calls) = (.ok (), reach hashes calls)) ∧
      (∀ problem, (call.apply hashes (reach hashes calls)).1 = .error problem →
        (call.apply hashes (reach hashes calls)).2 = reach hashes calls) ∧
      ((call.apply hashes (reach hashes calls)).1 = .ok () →
        (call.apply hashes (reach hashes calls)).2.values[call.strId]? = some call.value) := by
  have hcounted := reach_counted hashes calls
  generalize reach hashes calls = dictionary at *
  refine ⟨hcounted, fun strId bytes => ?_, fun strId blob => ?_, fun call => ⟨?_, ?_, ?_⟩⟩
  · exact (apply_eq hashes dictionary (.insert strId (.str bytes))).trans
      (apply_eq hashes dictionary (.ownedString strId bytes)).symm
  · have hinsert := apply_eq hashes dictionary (.insert strId (.blob blob))
    have howned := apply_eq hashes dictionary
      (.ownedBlob strId blob.storedBytes blob.fullLen blob.truncated blob.fullSha256)
    simp only [Call.apply] at hinsert howned
    rw [hinsert, howned, insertRecord, insertRecord]
    by_cases hsame : blob.strId = strId
    · simp [Call.namesItself, Call.strId, Call.value, hsame]
    · simp [Call.namesItself, hsame]
  · intro hnames hstored
    rw [apply_eq, insertRecord, hnames, hcounted.valid _ _ hstored, if_pos (by decide)]
    unfold insertValue
    rw [hstored]
    exact if_pos rfl
  · intro problem hproblem
    rw [apply_eq, insertRecord] at hproblem ⊢
    split at hproblem
    next hvalid =>
      rw [if_pos hvalid]
      rcases insertValue_cases dictionary call.strId call.value with ⟨_, heq⟩ | ⟨_, heq⟩ |
        ⟨_, after, heq, _⟩
      · rw [heq]
      · rw [heq]
      · rw [heq] at hproblem
        cases hproblem
    next hvalid => rw [if_neg hvalid]
  · intro hok
    rw [apply_eq, insertRecord] at hok ⊢
    split at hok
    next hvalid =>
      rw [if_pos hvalid]
      rcases insertValue_cases dictionary call.strId call.value with ⟨_, heq⟩ | ⟨hstored, heq⟩ |
        ⟨_, after, heq, hvalues, _⟩
      · rw [heq] at hok
        cases hok
      · rw [heq]
        exact hstored
      · rw [heq, hvalues, TreeMap.getElem?_insert_self]
    next => cases hok

end DictionaryCalls
end Kronika.Writer
