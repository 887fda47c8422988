/-
What a segment dictionary records, without its storage.

For each value the dictionaries keep a standing: where the requests made so far
have put it.  A standing can only be raised, and a request either raises it or is
refused because the value would have to be in `dict.blobs` and in
`dict.hot_strings` at once.  `Book` is a finite partial map from ids to lengths
and standings, and every size the dictionaries report is a sum over it.  The
window of an interner, its flushed records and the dictionaries of a whole
segment are three representations of a book.
-/
import Kronika.Writer.Interner

namespace Kronika.Dictionary

open Format Writer

/-! ## Standings -/

/-- The effective requirement on a value: a soft hot mark on a value in
`dict.blobs` has no effect, and a strict one makes a soft one redundant. -/
inductive Standing where
  | plain
  | softHot
  | strictHot
  | forcedBlob
deriving DecidableEq

namespace Standing

def isHot : Standing → Bool
  | softHot | strictHot => true
  | plain | forcedBlob => false

def requirements : Standing → Requirements
  | plain => {}
  | softHot => { hotSoft := true }
  | strictHot => { hotHard := true }
  | forcedBlob => { blob := true }

def ofRequirements (oversized : Bool) (req : Requirements) : Standing :=
  if req.blob then forcedBlob
  else if req.hotHard then strictHot
  else if req.hotSoft && !oversized then softHot
  else plain

/-- The standing after one more request, or `none` when the request is refused. -/
def raise (oversized : Bool) (standing : Standing) (req : Requirements) : Option Standing :=
  let merged := standing.requirements.merge req
  if merged.conflicts oversized then none else some (ofRequirements oversized merged)

theorem raise_ofRequirements {oversized : Bool} {old : Requirements} (req : Requirements)
    (hold : old.conflicts oversized = false) :
    (ofRequirements oversized old).raise oversized req =
      if (old.merge req).conflicts oversized then none
      else some (ofRequirements oversized (old.merge req)) := by
  obtain ⟨blob, hard, soft⟩ := old
  obtain ⟨blob', hard', soft'⟩ := req
  revert hold
  cases oversized <;> cases blob <;> cases hard <;> cases soft <;> cases blob' <;>
    cases hard' <;> cases soft' <;> decide

theorem isHot_ofRequirements {oversized : Bool} {req : Requirements}
    (hreq : req.conflicts oversized = false) :
    (ofRequirements oversized req).isHot =
      ((req.hotHard || req.hotSoft) && !(req.blob || oversized)) := by
  obtain ⟨blob, hard, soft⟩ := req
  revert hreq
  cases oversized <;> cases blob <;> cases hard <;> cases soft <;> decide

end Standing

/-! ## Sizes -/

namespace Stats

instance : Add DictStats := ⟨addStats⟩
instance : Zero DictStats := ⟨{}⟩

theorem add_def (a b : DictStats) : a + b = addStats a b := rfl
theorem zero_def : (0 : DictStats) = {} := rfl

instance : AddCommMonoid DictStats where
  add_assoc a b c := by ext <;> exact Nat.add_assoc _ _ _
  zero_add a := by ext <;> exact Nat.zero_add _
  add_zero a := by ext <;> rfl
  add_comm a b := by ext <;> exact Nat.add_comm _ _
  nsmul := nsmulRec

theorem removeStats_add (a b : DictStats) : removeStats (a + b) b = a := by
  ext <;> exact Nat.add_sub_cancel _ _

end Stats

/-! ## Books -/

/-- What is recorded for one value: its full length and its standing. -/
structure Record where
  fullLen : Nat
  standing : Standing
deriving DecidableEq

namespace Record

def oversized (limits : DictLimits) (record : Record) : Bool :=
  decide (limits.blobThreshold ≤ record.fullLen)

/-- What one value adds to the sizes of the dictionaries. -/
def stats (limits : DictLimits) (record : Record) : DictStats :=
  let storedLen := min record.fullLen limits.truncateLimit
  if record.standing = .forcedBlob ∨ record.oversized limits then
    { blobCount := 1
      truncatedBlobCount := (decide (limits.truncateLimit < record.fullLen)).toNat
      blobBytes := storedLen }
  else
    { stringCount := 1, hotCount := record.standing.isHot.toNat, stringBytes := storedLen }

end Record

abbrev Book := StrId → Option Record

namespace Book

def standingOf (book : Book) (id : StrId) : Standing :=
  match book id with
  | none => .plain
  | some record => record.standing

/-- One request for a value of length `len`: refused, or recorded.  The flag says
whether the value is hot afterwards. -/
def request (limits : DictLimits) (book : Book) (id : StrId) (len : Nat) (req : Requirements) :
    Except DictError (StrId × Bool) × Book :=
  match (book.standingOf id).raise (decide (limits.blobThreshold ≤ len)) req with
  | none => (.error (.placementConflict id), book)
  | some standing => (.ok (id, standing.isHot), Function.update book id (some ⟨len, standing⟩))

/-- The sizes of the values recorded under the ids in `ids`. -/
def stats (limits : DictLimits) (book : Book) (ids : Finset StrId) : DictStats :=
  ∑ id ∈ ids, TreeMap.contribution (fun _ => Record.stats limits) id (book id)

end Book

end Kronika.Dictionary
