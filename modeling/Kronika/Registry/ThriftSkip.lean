/-
Calls of the Thrift reader, one after another.

Whatever the order in which a parser calls the methods, the depth and the number of
collection items stay within their limits.  Skipping a value is such a parser; it is not
part of the reader, and what it does of a value is given by its equations.
-/
import Kronika.Registry.ThriftInput
import Mathlib.Logic.Relation

namespace Kronika.Preflight
namespace Thrift

open Format (Bytes)

/-- The methods of `TInputProtocol`. -/
inductive Call where
  | messageBegin | messageEnd | structBegin | structEnd | fieldBegin | fieldEnd
  | bool | bytes | i8 | i16 | i32 | i64 | double | string
  | listBegin | listEnd | setBegin | setEnd | mapBegin | mapEnd | byte
deriving DecidableEq

/-- A read whose value is not used. -/
def ignore {α : Type} (read : Read α) : Read Unit := read >>= fun _ => pure ()

variable {α : Type}

theorem snd_ignore (read : Read α) (input : CompactInput) :
    (ignore read input).2 = (read input).2 := by
  unfold ignore
  rw [bind_apply]
  rcases read input with ⟨error | value, after⟩ <;> rfl

namespace Call

def run : Call → Read Unit
  | messageBegin => readMessageBegin
  | messageEnd => readMessageEnd
  | structBegin => readStructBegin
  | structEnd => readStructEnd
  | fieldBegin => ignore readFieldBegin
  | fieldEnd => readFieldEnd
  | bool => ignore readBool
  | bytes => ignore readBytes
  | i8 => ignore readI8
  | i16 => ignore readI16
  | i32 => ignore readI32
  | i64 => ignore readI64
  | double => ignore readDouble
  | string => ignore readString
  | listBegin => ignore readListBegin
  | listEnd => readListEnd
  | setBegin => ignore readSetBegin
  | setEnd => readSetEnd
  | mapBegin => readMapBegin
  | mapEnd => readMapEnd
  | byte => ignore readByte

/-- The calls that mark where a struct begins or a value ends, and have no byte. -/
def marks (call : Call) : Prop :=
  call = structBegin ∨ call = structEnd ∨ call = fieldEnd ∨ call = listEnd

/-- Whether the value of the call was read with the header of its field. -/
def pending (call : Call) (input : CompactInput) : Prop :=
  call = bool ∧ input.pendingBool.isSome = true

end Call

theorem reads_ignore {least : Nat} {read : Read α} (h : Reads least read) :
    Reads least (ignore read) :=
  h.bind fun _ => Reads.pure ()

theorem reads_readBool : Reads 0 readBool := by
  intro input
  unfold readBool
  split
  · exact ⟨fun h => ⟨h.nesting_le, h.items_le⟩, [], rfl, fun _ => Nat.le_refl 0⟩
  · exact reads_readByte_bool.mono (Nat.zero_le 1) input

theorem reads_readString : Reads 1 readString :=
  reads_readBytes.bind fun _ => (Reads.pure _).ite (Reads.throw 0 _)

variable {input after : CompactInput}

namespace Call

/-- Every call that has bytes of its own uses one at least. -/
theorem reads_run (call : Call) (h : ¬ call.marks) (hbool : call ≠ bool) : Reads 1 call.run := by
  unfold marks at h
  cases call with
  | messageBegin | messageEnd | setEnd | mapBegin | mapEnd => exact Reads.throw 1 _
  | structBegin | structEnd | fieldEnd | listEnd => simp at h
  | bool => exact absurd rfl hbool
  | fieldBegin => exact reads_ignore reads_readFieldBegin
  | bytes => exact reads_ignore reads_readBytes
  | i8 => exact reads_ignore (reads_readByte.bind fun _ => Reads.pure _)
  | i16 => exact reads_ignore (reads_readInt 16 _)
  | i32 => exact reads_ignore (reads_readInt 32 _)
  | i64 => exact reads_ignore reads_readZigzag
  | double => exact reads_ignore ((reads_takeBytes _ 8).mono (by decide))
  | string => exact reads_ignore reads_readString
  | listBegin => exact reads_ignore (reads_readCollection.bind fun _ => Reads.pure _)
  | setBegin => exact reads_ignore (Reads.throw 1 _)
  | byte => exact reads_ignore reads_readByte

theorem reads_run_zero (call : Call) : Reads 0 call.run := by
  by_cases h : call.marks
  · rcases h with rfl | rfl | rfl | rfl
    · exact reads_readStructBegin
    · exact reads_readStructEnd
    · exact Reads.pure ()
    · exact reads_leave
  · by_cases hbool : call = bool
    · subst hbool
      exact reads_ignore reads_readBool
    · exact (reads_run call h hbool).mono (Nat.zero_le 1)

/-- A call that succeeds has used some bytes, unless it has none of its own. -/
theorem run_progress {call : Call} (h : call.run input = (.ok (), after)) :
    ∃ used, input.remaining = used ++ after.remaining ∧
      (used ≠ [] ∨ call.marks ∨ call.pending input) := by
  have hzero := (reads_run_zero call input).2
  rw [h] at hzero
  obtain ⟨rest, hrest, -⟩ := hzero
  refine ⟨rest, hrest, ?_⟩
  by_cases hmarks : call.marks
  · exact Or.inr (Or.inl hmarks)
  · by_cases hpending : call.pending input
    · exact Or.inr (Or.inr hpending)
    · left
      have hone : ∃ used, input.remaining = used ++ after.remaining ∧ 1 ≤ used.length := by
        by_cases hbool : call = bool
        · subst hbool
          have hnone : input.pendingBool = none := by
            rw [← Option.not_isSome_iff_eq_none]
            exact fun hsome => hpending ⟨rfl, hsome⟩
          have hread : bool.run input = ignore (readByte >>= booleanOf) input := by
            show ignore readBool input = _
            unfold ignore
            rw [bind_apply, bind_apply]
            unfold readBool
            rw [hnone]
          rw [hread] at h
          obtain ⟨-, used, hused, hleast⟩ := reads_ignore reads_readByte_bool input
          rw [h] at hused hleast
          exact ⟨used, hused, hleast rfl⟩
        · obtain ⟨-, used, hused, hleast⟩ := reads_run call hmarks hbool input
          rw [h] at hused hleast
          exact ⟨used, hused, hleast rfl⟩
      obtain ⟨used, hused, hlength⟩ := hone
      have hsame : used = rest := List.append_cancel_right (hused.symm.trans hrest)
      rw [← hsame]
      exact List.ne_nil_of_length_pos hlength

end Call

/-- One input is what calls, whether they succeed or fail, make of another. -/
def Reached : CompactInput → CompactInput → Prop :=
  Relation.ReflTransGen fun input after => ∃ call : Call, after = (call.run input).2

theorem Reached.within (h : Reached input after) (hwithin : Within input) : Within after := by
  induction h with
  | refl => exact hwithin
  | tail _ hstep ih =>
    obtain ⟨call, rfl⟩ := hstep
    exact (call.reads_run_zero _).1 ih

theorem Reached.isSuffix (h : Reached input after) : after.remaining <:+ input.remaining := by
  induction h with
  | refl => exact List.suffix_refl _
  | tail _ hstep ih =>
    obtain ⟨call, rfl⟩ := hstep
    obtain ⟨-, used, hused, -⟩ := call.reads_run_zero _
    exact List.IsSuffix.trans ⟨used, hused.symm⟩ ih

/-! ## Skipping -/

/-- What skips a value: its outcome, or nothing when it does not return. -/
abbrev Skip : Type := CompactInput → Option (Except ThriftError Unit × CompactInput)

namespace Skip

def read {α : Type} (read : Read α) (next : α → Skip) : Skip := fun input =>
  match read input with
  | (.ok value, after) => next value after
  | (.error error, after) => some (.error error, after)

def seq (first next : Skip) : Skip := fun input =>
  match first input with
  | some (.ok _, after) => next after
  | other => other

def done (read : Read Unit) : Skip := fun input => some (read input)

/-- It returns, and has only called methods of the reader. -/
def Ends (skip : Skip) (input : CompactInput) : Prop :=
  ∃ result after, skip input = some (result, after) ∧ Reached input after

theorem reached_call (call : Call) (input : CompactInput) : Reached input (call.run input).2 :=
  Relation.ReflTransGen.single ⟨call, rfl⟩

theorem reached_ignore {read : Read α} (call : Call) (h : call.run = ignore read)
    (input : CompactInput) : Reached input (read input).2 := by
  rw [← snd_ignore read, ← h]
  exact reached_call call input

theorem ends_done (call : Call) (input : CompactInput) : Ends (done call.run) input :=
  ⟨_, _, rfl, reached_call call input⟩

theorem ends_read {read : Read α} {next : α → Skip} {input : CompactInput}
    (hcall : Reached input (read input).2)
    (hnext : ∀ value after, read input = (.ok value, after) → Ends (next value) after) :
    Ends (Skip.read read next) input := by
  unfold Ends Skip.read
  generalize hread : read input = outcome at hcall hnext
  obtain ⟨error | value, after⟩ := outcome
  · exact ⟨_, _, rfl, hcall⟩
  · obtain ⟨result, last, hresult, hlast⟩ := hnext value after rfl
    exact ⟨result, last, hresult, hcall.trans hlast⟩

theorem ends_seq {first next : Skip} {input : CompactInput} (hfirst : Ends first input)
    (hnext : ∀ after, Reached input after → Ends next after) : Ends (first.seq next) input := by
  obtain ⟨result, after, hresult, hafter⟩ := hfirst
  unfold Ends seq
  rw [hresult]
  cases result with
  | error error => exact ⟨_, _, rfl, hafter⟩
  | ok value =>
    obtain ⟨last, reached, hlast, hreached⟩ := hnext after hafter
    exact ⟨last, reached, hlast, hafter.trans hreached⟩

end Skip

/-- The call that reads a value without parts. -/
def scalarCall : TType → Option Call
  | .bool => some .bool
  | .i08 => some .i8
  | .i16 => some .i16
  | .i32 => some .i32
  | .i64 => some .i64
  | .double => some .double
  | .string => some .string
  | _ => none

/-- The loop over the fields of a struct, as far as so many rounds end it. -/
def skipFields (skip : TType → Skip) : Nat → Skip
  | 0 => fun _ => none
  | rounds + 1 =>
    Skip.read readFieldBegin fun field =>
      if field.fieldType = .stop then Skip.done (pure ())
      else (skip field.fieldType).seq (skipFields skip rounds)

/-- The loop over the elements of a list or a set. -/
def skipElements (skip : TType → Skip) (type : TType) : Nat → Skip
  | 0 => Skip.done (pure ())
  | size + 1 => (skip type).seq (skipElements skip type size)

def skipStruct (skip : TType → Skip) (rounds : Nat) : Skip :=
  Skip.read readStructBegin fun _ => (skipFields skip rounds).seq (Skip.done readStructEnd)

def skipList (skip : TType → Skip) : Skip :=
  Skip.read readListBegin fun list =>
    (skipElements skip list.elementType list.size).seq (Skip.done readListEnd)

def skipSet (skip : TType → Skip) : Skip :=
  Skip.read readSetBegin fun set =>
    (skipElements skip set.elementType set.size).seq (Skip.done readSetEnd)

/-- What is documented of `skip_till_depth`, which is not part of the reader: it skips a
value recursively, up to so many levels, by the methods of the reader.  It returns what
its loop over the fields of a struct ends with, after however many rounds. -/
structure SkipsTillDepth (limit unknown : TType → ThriftError) (skip : Nat → TType → Skip) :
    Prop where
  exhausted (type : TType) (input : CompactInput) :
    skip 0 type input = some (.error (limit type), input)
  scalar (depth : Nat) (type : TType) (call : Call) (h : scalarCall type = some call) :
    skip (depth + 1) type = Skip.done call.run
  struct (depth rounds : Nat) (input : CompactInput)
    (outcome : Except ThriftError Unit × CompactInput)
    (h : skipStruct (skip depth) rounds input = some outcome) :
    skip (depth + 1) .struct input = some outcome
  list (depth : Nat) : skip (depth + 1) .list = skipList (skip depth)
  set (depth : Nat) : skip (depth + 1) .set = skipSet (skip depth)
  map (depth : Nat) (input : CompactInput) (error : ThriftError) (after : CompactInput)
    (h : readMapBegin input = (.error error, after)) :
    skip (depth + 1) .map input = some (.error error, after)
  stop (depth : Nat) (input : CompactInput) :
    skip (depth + 1) .stop input = some (.error (unknown .stop), input)

variable {skip : TType → Skip}

namespace Skip

theorem ends_fields (hskip : ∀ type input, Ends (skip type) input)
    {rounds : Nat} {input : CompactInput} (hrounds : input.remaining.length < rounds) :
    Ends (skipFields skip rounds) input := by
  -- a header of a field has a byte, so that each round leaves fewer
  induction rounds generalizing input with
  | zero => exact absurd hrounds (Nat.not_lt_zero _)
  | succ rounds ih =>
    refine ends_read (reached_ignore .fieldBegin rfl input) fun field after hread => ?_
    obtain ⟨-, used, hused, hleast⟩ := reads_readFieldBegin input
    rw [hread] at hused hleast
    have hone := hleast rfl
    split_ifs
    · exact ends_done .fieldEnd after
    · refine ends_seq (hskip _ after) fun next hnext => ih ?_
      have hle := hnext.isSuffix.length_le
      have hlength := congrArg List.length hused
      rw [List.length_append] at hlength
      dsimp only at hlength
      omega

theorem ends_elements (hskip : ∀ type input, Ends (skip type) input)
    (type : TType) (size : Nat) (input : CompactInput) :
    Ends (skipElements skip type size) input := by
  induction size generalizing input with
  | zero => exact ends_done .fieldEnd input
  | succ size ih => exact ends_seq (hskip type input) fun after _ => ih after

theorem ends_struct (hskip : ∀ type input, Ends (skip type) input)
    {rounds : Nat} {input : CompactInput} (hrounds : input.remaining.length < rounds) :
    Ends (skipStruct skip rounds) input := by
  have hbegin := reached_call .structBegin input
  refine ends_read hbegin fun _ after hread => ?_
  have hafter : after = (Call.structBegin.run input).2 := (congrArg Prod.snd hread).symm
  rw [← hafter] at hbegin
  exact ends_seq (ends_fields hskip (Nat.lt_of_le_of_lt hbegin.isSuffix.length_le hrounds))
    fun last _ => ends_done .structEnd last

theorem ends_list (hskip : ∀ type input, Ends (skip type) input)
    (input : CompactInput) : Ends (skipList skip) input := by
  refine ends_read (reached_ignore .listBegin rfl input) fun list after _ => ?_
  exact ends_seq (ends_elements hskip _ _ after) fun last _ => ends_done .listEnd last

theorem ends_set (skip : TType → Skip) (input : CompactInput) : Ends (skipSet skip) input := by
  refine ends_read (reached_ignore .setBegin rfl input) fun set after hread => ?_
  cases congrArg Prod.fst hread

end Skip

theorem SkipsTillDepth.ends {limit unknown : TType → ThriftError} {skip : Nat → TType → Skip}
    (h : SkipsTillDepth limit unknown skip) (depth : Nat) (type : TType) (input : CompactInput) :
    Skip.Ends (skip depth type) input := by
  induction depth generalizing type input with
  | zero => exact ⟨_, _, h.exhausted type input, Relation.ReflTransGen.refl⟩
  | succ depth ih =>
    cases htype : scalarCall type with
    | some call =>
      rw [h.scalar depth type call htype]
      exact Skip.ends_done call input
    | none =>
      cases type with
      | stop => exact ⟨_, _, h.stop depth input, Relation.ReflTransGen.refl⟩
      | struct =>
        obtain ⟨result, after, hresult, hafter⟩ :=
          Skip.ends_struct ih (Nat.lt_succ_self input.remaining.length)
        exact ⟨result, after, h.struct depth _ input _ hresult, hafter⟩
      | list =>
        rw [h.list]
        exact Skip.ends_list ih input
      | set =>
        rw [h.set]
        exact Skip.ends_set _ input
      | map => exact ⟨_, _, h.map depth input _ _ rfl, Skip.reached_call .mapBegin input⟩
      | bool | i08 | i16 | i32 | i64 | double | string => cases htype

/-! ## One that skips so

The errors for the level and for a type that cannot be skipped are its own. -/

def skipTillDepth (limit unknown : TType → ThriftError) : Nat → TType → Skip
  | 0, type => fun input => some (.error (limit type), input)
  | depth + 1, type =>
    match scalarCall type with
    | some call => Skip.done call.run
    | none =>
      if type = .struct then fun input =>
        skipStruct (skipTillDepth limit unknown depth) (input.remaining.length + 1) input
      else if type = .list then skipList (skipTillDepth limit unknown depth)
      else if type = .set then skipSet (skipTillDepth limit unknown depth)
      else if type = .map then Skip.done readMapBegin
      else fun input => some (.error (unknown type), input)

theorem ends_skipTillDepth (limit unknown : TType → ThriftError) (depth : Nat) (type : TType)
    (input : CompactInput) : Skip.Ends (skipTillDepth limit unknown depth type) input := by
  induction depth generalizing type input with
  | zero => exact ⟨_, _, rfl, Relation.ReflTransGen.refl⟩
  | succ depth ih =>
    unfold skipTillDepth
    cases scalarCall type with
    | some call => exact Skip.ends_done call input
    | none =>
      split_ifs
      · exact Skip.ends_struct ih (Nat.lt_succ_self _)
      · exact Skip.ends_list ih input
      · exact Skip.ends_set _ input
      · exact Skip.ends_done .mapBegin input
      · exact ⟨_, _, rfl, Relation.ReflTransGen.refl⟩

/-- More rounds end a loop as fewer do. -/
theorem skipFields_mono {rounds more : Nat} (hle : rounds ≤ more)
    {input : CompactInput} {outcome : Except ThriftError Unit × CompactInput}
    (h : skipFields skip rounds input = some outcome) :
    skipFields skip more input = some outcome := by
  induction rounds generalizing more input with
  | zero => cases h
  | succ rounds ih =>
    obtain ⟨more, rfl⟩ := Nat.exists_eq_succ_of_ne_zero (Nat.ne_of_gt (Nat.lt_of_lt_of_le
      (Nat.succ_pos rounds) hle))
    unfold skipFields Skip.read at h ⊢
    generalize readFieldBegin input = read at h ⊢
    obtain ⟨error | field, after⟩ := read
    · exact h
    · dsimp only at h ⊢
      split_ifs at h ⊢ with hstop
      · exact h
      · unfold Skip.seq at h ⊢
        generalize skip field.fieldType after = skipped at h ⊢
        obtain _ | ⟨error | value, next⟩ := skipped
        · exact h
        · exact h
        · exact ih (Nat.le_of_succ_le_succ hle) h

theorem skipStruct_mono {rounds more : Nat} (hle : rounds ≤ more)
    {input : CompactInput} {outcome : Except ThriftError Unit × CompactInput}
    (h : skipStruct skip rounds input = some outcome) :
    skipStruct skip more input = some outcome := by
  unfold skipStruct Skip.read at h ⊢
  generalize readStructBegin input = read at h ⊢
  obtain ⟨error | value, after⟩ := read
  · exact h
  · unfold Skip.seq at h ⊢
    dsimp only at h ⊢
    cases hfields : skipFields skip rounds after with
    | none =>
      rw [hfields] at h
      cases h
    | some ended =>
      rw [hfields] at h
      rw [skipFields_mono hle hfields]
      exact h

theorem skipsTillDepth_skipTillDepth (limit unknown : TType → ThriftError) :
    SkipsTillDepth limit unknown (skipTillDepth limit unknown) where
  exhausted _ _ := rfl
  scalar depth type call h := by
    unfold skipTillDepth
    rw [h]
  struct depth rounds input outcome h := by
    show skipStruct _ (input.remaining.length + 1) input = _
    obtain ⟨result, after, hends, -⟩ := Skip.ends_struct
      (ends_skipTillDepth limit unknown depth) (Nat.lt_succ_self input.remaining.length)
    have hmore := skipStruct_mono (Nat.le_max_left rounds (input.remaining.length + 1)) h
    rw [skipStruct_mono (Nat.le_max_right rounds _) hends] at hmore
    rw [hends, hmore]
  list _ := rfl
  set _ := rfl
  map _ _ _ _ h := by
    cases h
    rfl
  stop _ _ := rfl

/-! ## The reader as a whole -/

theorem within_new (bytes : Bytes) : Within (CompactInput.new bytes) :=
  ⟨Nat.zero_le _, Nat.zero_le _⟩

/-- The reader takes exactly the encodings of numbers of 64 bits, uses bytes in every
call that has some, and keeps its limits in any order of calls; skipping ends. -/
theorem compactInput_reads (limit unknown : TType → ThriftError) (skip : Nat → TType → Skip)
    (h : SkipsTillDepth limit unknown skip) :
    (∀ (input : CompactInput) (value : Nat) (after : CompactInput),
      readVlq input = (.ok value, after) ↔
        ∃ encoding rest, input.remaining = encoding ++ rest ∧ Vlq64 encoding value ∧
          after = { input with remaining := rest }) ∧
    (∀ (input : CompactInput) (value : Int) (after : CompactInput),
      readZigzag input = (.ok value, after) ↔
        ∃ encoding rest, input.remaining = encoding ++ rest ∧ Vlq64 encoding (zigzag value) ∧
          after = { input with remaining := rest }) ∧
    (∀ (call : Call) (input after : CompactInput), call.run input = (.ok (), after) →
      ∃ used, input.remaining = used ++ after.remaining ∧
        (used ≠ [] ∨ call.marks ∨ call.pending input)) ∧
    ∀ (bytes : Bytes) (input : CompactInput), Reached (CompactInput.new bytes) input →
      Within input ∧ input.remaining <:+ bytes ∧
        ∀ (depth : Nat) (type : TType), ∃ result after,
          skip depth type input = some (result, after) ∧ Reached input after ∧ Within after := by
  refine ⟨readVlq_ok_iff, readZigzag_ok_iff, fun _ _ _ => Call.run_progress, ?_⟩
  intro bytes input hreached
  have hwithin := hreached.within (within_new bytes)
  refine ⟨hwithin, hreached.isSuffix, fun depth type => ?_⟩
  obtain ⟨result, after, hresult, hafter⟩ := h.ends depth type input
  exact ⟨result, after, hresult, hafter, hafter.within hwithin⟩

/-- A list of one struct, which ends at once. -/
theorem compactInput_reads_list : ∃ result after,
    skipTillDepth (fun _ => .invalidData "cannot parse past")
      (fun _ => .invalidData "cannot skip field type") 64 .list
      (CompactInput.new [0x1C, 0x00]) = some (result, after) ∧ Within after := by
  obtain ⟨-, -, -, hskip⟩ := compactInput_reads (fun _ => .invalidData "cannot parse past")
    (fun _ => .invalidData "cannot skip field type") _ (skipsTillDepth_skipTillDepth _ _)
  obtain ⟨result, after, hresult, -, hwithin⟩ :=
    (hskip [0x1C, 0x00] _ Relation.ReflTransGen.refl).2.2 64 .list
  exact ⟨result, after, hresult, hwithin⟩

/-- The value of a boolean field has no byte of its own, and zero bits may follow those
of a number. -/
theorem pending_bool_reads_nothing :
    (¬ ∀ (call : Call) (input after : CompactInput), call.run input = (.ok (), after) →
      ∃ used, input.remaining = used ++ after.remaining ∧ used ≠ []) ∧
    (readVlq (CompactInput.new [0x80, 0x00])).1 = .ok 0 ∧
    (readVlq (CompactInput.new [0x00])).1 = .ok 0 := by
  refine ⟨?_, by decide, by decide⟩
  intro h
  obtain ⟨used, hused, hne⟩ := h .bool (readFieldBegin (CompactInput.new [0x11])).2 _ rfl
  have hnil : [] = used ++ [] := hused
  exact hne (List.append_eq_nil_iff.mp hnil.symm).1

end Thrift
end Kronika.Preflight
