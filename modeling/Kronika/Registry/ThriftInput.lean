/-
The bounded reader of compact Thrift input.

Every method takes the input it is called on and gives back what is left of it, also
when it fails.  What a method does is said once, by `Reads`: it keeps the limits, leaves
an end of the bytes it was given, and has used at least so many of them when it
succeeds.
-/
import Kronika.Library.Utf8
import Kronika.Registry.Finalize

namespace Kronika.Preflight
namespace Thrift

open Format (Bytes)

/-- Fixed depth of nested structs and lists (`MAX_THRIFT_NESTING`). -/
def maxThriftNesting : Nat := 16

/-- Most collection items of one input (`MAX_THRIFT_ITEMS`). -/
def maxThriftItems : Nat := Registry.sectionWriteBatchRows

inductive ThriftError where
  | invalidData (message : String)
  | notImplemented (message : String)
  | endOfFile (message : String)
  | fromUtf8
deriving DecidableEq

inductive TType where
  | stop | bool | i08 | i16 | i32 | i64 | double | string | list | set | map | struct
deriving DecidableEq

structure FieldIdentifier where
  fieldType : TType
  id : Option Int
deriving DecidableEq

structure ListIdentifier where
  elementType : TType
  size : Nat
deriving DecidableEq

/-- `BoundedCompactInput`; a saved field id is only looked up below the depth. -/
structure CompactInput where
  remaining : Bytes
  lastFieldId : Int
  fieldStack : Vector Int maxThriftNesting
  structDepth : Nat
  nesting : Nat
  collectionItems : Nat
  pendingBool : Option Bool
  structDepth_le : structDepth ≤ maxThriftNesting

def CompactInput.new (remaining : Bytes) : CompactInput :=
  { remaining := remaining
    lastFieldId := 0
    fieldStack := Vector.replicate maxThriftNesting 0
    structDepth := 0
    nesting := 0
    collectionItems := 0
    pendingBool := none
    structDepth_le := Nat.zero_le _ }

/-- A method of the reader: its result and the input after it. -/
abbrev Read : Type → Type := ExceptT ThriftError (StateM CompactInput)

/-! ## Integers and limits -/

def readByte : Read UInt8 := fun input =>
  match input.remaining with
  | [] => (.error (.endOfFile "compact metadata ended unexpectedly"), input)
  | byte :: rest => (.ok byte, { input with remaining := rest })

def enter : Read Unit := fun input =>
  if maxThriftNesting ≤ input.nesting then
    (.error (.invalidData "compact metadata nesting is too deep"), input)
  else (.ok (), { input with nesting := input.nesting + 1 })

def leave : Read Unit := fun input =>
  if input.nesting = 0 then (.error (.invalidData "unbalanced compact metadata"), input)
  else (.ok (), { input with nesting := input.nesting - 1 })

def admitItems (count : Nat) : Read Unit := fun input =>
  if input.remaining.length < count then
    (.error (.invalidData "collection exceeds remaining input"), input)
  else if maxThriftItems < input.collectionItems + count then
    (.error (.invalidData "compact metadata has too many collection items"), input)
  else (.ok (), { input with collectionItems := input.collectionItems + count })

/-- The rounds of the loop that are left; the index of the first of them is what they
lack of ten. -/
def readVlqLoop : (rounds value : Nat) → Read Nat
  | 0, _ => throw (.invalidData "unterminated compact integer")
  | rounds + 1, value => do
    let byte ← readByte
    let payload := (byte &&& 0x7F).toNat
    let index := 9 - rounds
    let next := value ||| (payload <<< (index * 7)) % 2 ^ 64
    if index = 9 ∧ 1 < payload then throw (.invalidData "compact integer exceeds u64")
    else if byte &&& 0x80 = 0 then pure next
    else readVlqLoop rounds next

def readVlq : Read Nat := readVlqLoop 10 0

def readZigzag : Read Int := do
  let value ← readVlq
  let half := value >>> 1
  if 2 ^ 63 ≤ half then throw (.invalidData "compact integer exceeds i64")
  else pure (if value &&& 1 = 0 then (half : Int) else -(half : Int) - 1)

def compactType (value : UInt8) : Read TType :=
  if value = 0 then pure .stop
  else if value = 1 ∨ value = 2 then pure .bool
  else if value = 3 then pure .i08
  else if value = 4 then pure .i16
  else if value = 5 then pure .i32
  else if value = 6 then pure .i64
  else if value = 7 then pure .double
  else if value = 8 then pure .string
  else if value = 9 then pure .list
  else if value = 10 then pure .set
  else if value = 11 then pure .map
  else if value = 12 then pure .struct
  else throw (.invalidData "unknown compact field type")

def collectionCount (inline : UInt8) : Read Nat :=
  if inline = 15 then readVlq else pure inline.toNat

def readCollection : Read (TType × Nat) := do
  enter
  let header ← readByte
  let elementType ← compactType (header &&& 0x0F)
  if elementType = .stop then throw (.invalidData "collection element type is stop")
  else do
    let count ← collectionCount ((header &&& 0xF0) >>> 4)
    admitItems count
    if 2 ^ 31 ≤ count then throw (.invalidData "collection is too large")
    else pure (elementType, count)

/-! ## Methods of the protocol -/

def readMessageBegin : Read Unit :=
  throw (.notImplemented "messages are not valid in Parquet metadata")

def readMessageEnd : Read Unit :=
  throw (.notImplemented "messages are not valid in Parquet metadata")

def pushField : Read Unit := fun input =>
  if h : input.structDepth < maxThriftNesting then
    (.ok (),
      { input with
        fieldStack := input.fieldStack.set input.structDepth input.lastFieldId h
        structDepth := input.structDepth + 1
        lastFieldId := 0
        structDepth_le := h })
  else (.error (.invalidData "compact metadata nesting is too deep"), input)

def readStructBegin : Read Unit := do
  enter
  pushField

def popField : Read Unit := fun input =>
  if h : input.structDepth = 0 then (.error (.invalidData "unbalanced compact struct"), input)
  else
    (.ok (),
      { input with
        structDepth := input.structDepth - 1
        lastFieldId := input.fieldStack.get ⟨input.structDepth - 1, by
          have := input.structDepth_le
          omega⟩
        structDepth_le := Nat.le_trans (Nat.sub_le _ _) input.structDepth_le })

def readStructEnd : Read Unit := do
  popField
  leave

def checkedInt (bits : Nat) (message : String) (value : Int) : Read Int :=
  if -2 ^ (bits - 1) ≤ value ∧ value < 2 ^ (bits - 1) then pure value
  else throw (.invalidData message)

def readI16 : Read Int := do checkedInt 16 "compact i16 is out of range" (← readZigzag)

def readI32 : Read Int := do checkedInt 32 "compact i32 is out of range" (← readZigzag)

def readI64 : Read Int := readZigzag

def setPendingBool (value : Bool) : Read TType := fun input =>
  (.ok .bool, { input with pendingBool := some value })

def fieldTypeOf (bits : UInt8) : Read TType :=
  if bits = 1 then setPendingBool true
  else if bits = 2 then setPendingBool false
  else compactType bits

def readFieldId (delta : UInt8) : Read Int := fun input =>
  if delta = 0 then readI16 input
  else checkedInt 16 "compact field id overflow" (input.lastFieldId + delta.toNat) input

def setLastFieldId (id : Int) : Read Unit := fun input =>
  (.ok (), { input with lastFieldId := id })

def checkConsumed : Read Unit := fun input =>
  if input.pendingBool.isSome then
    (.error (.invalidData "compact boolean field was not consumed"), input)
  else (.ok (), input)

def readFieldBegin : Read FieldIdentifier := do
  checkConsumed
  let header ← readByte
  let fieldType ← fieldTypeOf (header &&& 0x0F)
  if fieldType = .stop then pure { fieldType := fieldType, id := none }
  else do
    let id ← readFieldId ((header &&& 0xF0) >>> 4)
    setLastFieldId id
    pure { fieldType := fieldType, id := some id }

def readFieldEnd : Read Unit := pure ()

def booleanOf (byte : UInt8) : Read Bool :=
  if byte = 1 then pure true
  else if byte = 2 then pure false
  else throw (.invalidData "invalid compact boolean")

def readBool : Read Bool := fun input =>
  match input.pendingBool with
  | some value => (.ok value, { input with pendingBool := none })
  | none => (readByte >>= booleanOf) input

/-- The next bytes, so many of them. -/
def takeBytes (message : String) (len : Nat) : Read Bytes := fun input =>
  if input.remaining.length < len then (.error (.endOfFile message), input)
  else (.ok (input.remaining.take len), { input with remaining := input.remaining.drop len })

def readBytes : Read Bytes := do
  takeBytes "binary field exceeds remaining input" (← readVlq)

def readI8 : Read Int8 := do return (← readByte).toInt8

/-- The eight bytes of the number, the lowest first. -/
def readDouble : Read Bytes := takeBytes "double exceeds remaining input" 8

def readString : Read Bytes := do
  let bytes ← readBytes
  if Utf8.Valid bytes then pure bytes else throw .fromUtf8

def readListBegin : Read ListIdentifier := do
  let (elementType, size) ← readCollection
  pure { elementType := elementType, size := size }

def readListEnd : Read Unit := leave

def readSetBegin : Read ListIdentifier :=
  throw (.notImplemented "sets are not valid in supported Parquet metadata")

def readSetEnd : Read Unit :=
  throw (.notImplemented "sets are not valid in supported Parquet metadata")

def readMapBegin : Read Unit :=
  throw (.notImplemented "maps are not valid in supported Parquet metadata")

def readMapEnd : Read Unit :=
  throw (.notImplemented "maps are not valid in supported Parquet metadata")

/-! ## What a method does to its input -/

/-- The limits that hold of an input at every time. -/
structure Within (input : CompactInput) : Prop where
  nesting_le : input.nesting ≤ maxThriftNesting
  items_le : input.collectionItems ≤ maxThriftItems

variable {α β : Type}

/-- The method keeps the limits and leaves an end of the bytes; when it succeeds it has
used `least` of them or more. -/
def Reads (least : Nat) (read : Read α) : Prop :=
  ∀ input, (Within input → Within (read input).2) ∧
    ∃ used, input.remaining = used ++ (read input).2.remaining ∧
      ((read input).1.isOk = true → least ≤ used.length)

theorem bind_apply (read : Read α) (next : α → Read β) (input : CompactInput) :
    (read >>= next) input =
      match read input with
      | (.ok value, after) => next value after
      | (.error error, after) => (.error error, after) := by
  show ExceptT.bindCont next (read input).1 (read input).2 = _
  rcases read input with ⟨error | value, after⟩ <;> rfl

variable {read : Read α}

namespace Reads

theorem mono {least more : Nat} (h : Reads more read) (hle : least ≤ more) : Reads least read := by
  intro input
  obtain ⟨hwithin, used, hused, hleast⟩ := h input
  exact ⟨hwithin, used, hused, fun hok => Nat.le_trans hle (hleast hok)⟩

theorem throw (least : Nat) (error : ThriftError) : Reads least (throw error : Read α) :=
  fun _ => ⟨id, [], rfl, fun hok => absurd hok Bool.false_ne_true⟩

theorem pure (value : α) : Reads 0 (pure value : Read α) :=
  fun _ => ⟨id, [], rfl, fun _ => Nat.le_refl 0⟩

variable {next : α → Read β}

theorem seq {first later : Nat} (h : Reads first read)
    (hnext : ∀ value, Reads later (next value)) : Reads (first + later) (read >>= next) := by
  intro input
  have hfirst := h input
  rw [bind_apply]
  generalize read input = outcome at hfirst
  obtain ⟨error | value, after⟩ := outcome
  all_goals obtain ⟨hwithin, used, hused, hleast⟩ := hfirst
  · exact ⟨hwithin, used, hused, fun hok => absurd hok Bool.false_ne_true⟩
  · obtain ⟨hlater, more, hmore, hlast⟩ := hnext value after
    refine ⟨fun h => hlater (hwithin h), used ++ more, ?_, fun hok => ?_⟩
    · rw [List.append_assoc, ← hmore]
      exact hused
    · rw [List.length_append]
      exact Nat.add_le_add (hleast rfl) (hlast hok)

variable {least : Nat}

theorem bind (h : Reads least read)
    (hnext : ∀ value, Reads 0 (next value)) : Reads least (read >>= next) :=
  h.seq hnext

theorem after (h : Reads 0 read)
    (hnext : ∀ value, Reads least (next value)) : Reads least (read >>= next) :=
  (h.seq hnext).mono (Nat.le_add_left _ _)

theorem ite {P : Prop} [Decidable P] {left right : Read α}
    (hleft : Reads least left) (hright : Reads least right) :
    Reads least (if P then left else right) := by
  split_ifs
  · exact hleft
  · exact hright

end Reads

theorem reads_readByte : Reads 1 readByte := by
  intro input
  unfold readByte
  cases hremaining : input.remaining with
  | nil => exact ⟨id, [], hremaining.symm, fun hok => absurd hok Bool.false_ne_true⟩
  | cons byte rest =>
    exact ⟨fun h => ⟨h.nesting_le, h.items_le⟩, [byte], rfl, fun _ => Nat.le_refl 1⟩

/-- A method that reads nothing and keeps the limits. -/
theorem reads_of_remaining_eq (h : ∀ input, (read input).2.remaining = input.remaining ∧
      (Within input → Within (read input).2)) : Reads 0 read :=
  fun input => ⟨(h input).2, [], (h input).1.symm, fun _ => Nat.zero_le _⟩

theorem reads_enter : Reads 0 enter := by
  apply reads_of_remaining_eq
  intro input
  unfold enter
  split_ifs with hdeep
  · exact ⟨rfl, id⟩
  · exact ⟨rfl, fun h => ⟨Nat.lt_of_not_le hdeep, h.items_le⟩⟩

theorem reads_leave : Reads 0 leave := by
  apply reads_of_remaining_eq
  intro input
  unfold leave
  split_ifs with hzero
  · exact ⟨rfl, id⟩
  · exact ⟨rfl, fun h => ⟨Nat.le_trans (Nat.sub_le _ _) h.nesting_le, h.items_le⟩⟩

theorem reads_admitItems (count : Nat) : Reads 0 (admitItems count) := by
  apply reads_of_remaining_eq
  intro input
  unfold admitItems
  split_ifs with hlong hmany
  · exact ⟨rfl, id⟩
  · exact ⟨rfl, id⟩
  · exact ⟨rfl, fun h => ⟨h.nesting_le, Nat.le_of_not_lt hmany⟩⟩

theorem reads_readVlqLoop (rounds value : Nat) : Reads 1 (readVlqLoop rounds value) := by
  induction rounds generalizing value with
  | zero => exact Reads.throw 1 _
  | succ rounds ih =>
    refine reads_readByte.bind fun byte => ?_
    refine Reads.ite (Reads.throw 0 _) (Reads.ite (Reads.pure _) ?_)
    exact (ih _).mono (Nat.zero_le 1)

theorem reads_readVlq : Reads 1 readVlq := reads_readVlqLoop 10 0

theorem reads_readZigzag : Reads 1 readZigzag :=
  reads_readVlq.bind fun _ => (Reads.throw 0 _).ite (Reads.pure _)

theorem reads_compactType (value : UInt8) : Reads 0 (compactType value) := by
  repeat' apply Reads.ite
  all_goals first | exact Reads.pure _ | exact Reads.throw 0 _

theorem reads_collectionCount (inline : UInt8) : Reads 0 (collectionCount inline) :=
  (reads_readVlq.mono (Nat.zero_le 1)).ite (Reads.pure _)

theorem reads_readCollection : Reads 1 readCollection := by
  refine reads_enter.after fun _ => reads_readByte.bind fun header => ?_
  refine (reads_compactType _).bind fun elementType => (Reads.throw 0 _).ite ?_
  refine (reads_collectionCount _).bind fun count => (reads_admitItems count).bind fun _ => ?_
  exact (Reads.throw 0 _).ite (Reads.pure _)

theorem reads_readStructBegin : Reads 0 readStructBegin := by
  refine reads_enter.bind fun _ => reads_of_remaining_eq fun input => ?_
  unfold pushField
  split_ifs
  · exact ⟨rfl, fun h => ⟨h.nesting_le, h.items_le⟩⟩
  · exact ⟨rfl, id⟩

theorem reads_readStructEnd : Reads 0 readStructEnd := by
  refine Reads.bind (reads_of_remaining_eq fun input => ?_) fun _ => reads_leave
  unfold popField
  split_ifs
  · exact ⟨rfl, id⟩
  · exact ⟨rfl, fun h => ⟨h.nesting_le, h.items_le⟩⟩

theorem reads_checkedInt (bits : Nat) (message : String) (value : Int) :
    Reads 0 (checkedInt bits message value) :=
  (Reads.pure _).ite (Reads.throw 0 _)

theorem reads_readInt (bits : Nat) (message : String) :
    Reads 1 (readZigzag >>= checkedInt bits message) :=
  reads_readZigzag.bind fun value => reads_checkedInt bits message value

theorem reads_fieldTypeOf (bits : UInt8) : Reads 0 (fieldTypeOf bits) := by
  have hset (value : Bool) : Reads 0 (setPendingBool value) :=
    reads_of_remaining_eq fun _ => ⟨rfl, fun h => ⟨h.nesting_le, h.items_le⟩⟩
  exact (hset true).ite ((hset false).ite (reads_compactType _))

theorem reads_readFieldId (delta : UInt8) : Reads 0 (readFieldId delta) := by
  intro input
  unfold readFieldId
  split_ifs
  · exact (reads_readInt 16 _).mono (Nat.zero_le 1) input
  · exact reads_checkedInt 16 _ _ input

theorem reads_readFieldBegin : Reads 1 readFieldBegin := by
  have hcheck : Reads 0 checkConsumed := by
    apply reads_of_remaining_eq
    intro input
    unfold checkConsumed
    split_ifs <;> exact ⟨rfl, id⟩
  refine hcheck.after fun _ => reads_readByte.bind fun header => ?_
  refine (reads_fieldTypeOf _).bind fun fieldType => (Reads.pure _).ite ?_
  refine (reads_readFieldId _).bind fun id => Reads.bind ?_ fun _ => Reads.pure _
  exact reads_of_remaining_eq fun _ => ⟨rfl, fun h => ⟨h.nesting_le, h.items_le⟩⟩

theorem reads_readByte_bool : Reads 1 (readByte >>= booleanOf) :=
  reads_readByte.bind fun _ => (Reads.pure _).ite ((Reads.pure _).ite (Reads.throw 0 _))

theorem reads_takeBytes (message : String) (len : Nat) : Reads len (takeBytes message len) := by
  intro input
  unfold takeBytes
  split_ifs with hshort
  · exact ⟨id, [], rfl, fun hok => absurd hok Bool.false_ne_true⟩
  · refine ⟨fun h => ⟨h.nesting_le, h.items_le⟩, input.remaining.take len,
      (List.take_append_drop len _).symm, fun _ => ?_⟩
    rw [List.length_take]
    omega

theorem reads_readBytes : Reads 1 readBytes :=
  reads_readVlq.bind fun len => (reads_takeBytes _ len).mono (Nat.zero_le len)

/-! ## Variable-length integers -/

/-- The bytes that stand for a number, seven bits in each, the lowest first; all but the
last byte are marked as continued.  The last bytes may be zero. -/
inductive Vlq : Bytes → Nat → Prop where
  | last {byte : UInt8} (h : byte < 0x80) : Vlq [byte] byte.toNat
  | more {byte : UInt8} {rest : Bytes} {value : Nat} (h : 0x80 ≤ byte) (hrest : Vlq rest value) :
      Vlq (byte :: rest) (byte.toNat - 0x80 + 0x80 * value)

/-- An encoding the reader admits: at most ten bytes for a number of 64 bits. -/
structure Vlq64 (encoding : Bytes) (value : Nat) : Prop where
  vlq : Vlq encoding value
  length_le : encoding.length ≤ 10
  lt : value < 2 ^ 64

def zigzag (value : Int) : Nat := if 0 ≤ value then (2 * value).toNat else (-2 * value - 1).toNat

theorem payload_eq (byte : UInt8) : (byte &&& 0x7F).toNat = byte.toNat % 0x80 := by
  exact Nat.and_two_pow_sub_one_eq_mod byte.toNat 7

theorem continued_iff (byte : UInt8) : byte &&& 0x80 = 0 ↔ byte < 0x80 := by
  have hbits : ∀ bits : BitVec 8, bits &&& 0x80#8 = 0#8 ↔ bits < 0x80#8 := by decide
  rw [← UInt8.toBitVec_inj]
  exact hbits byte.toBitVec

/-- What one round adds to the bits read before it. -/
theorem next_eq {index value payload : Nat} (hvalue : value < 2 ^ (index * 7))
    (hpayload : payload < 0x80) (hlast : index = 9 → payload ≤ 1) (hindex : index ≤ 9) :
    (value ||| (payload <<< (index * 7)) % 2 ^ 64) = value + 2 ^ (index * 7) * payload ∧
      value + 2 ^ (index * 7) * payload < 2 ^ 64 := by
  have hbound : 2 ^ (index * 7) * (payload + 1) ≤ 2 ^ 64 := by
    by_cases hnine : index = 9
    · subst hnine
      exact Nat.mul_le_mul_left (2 ^ 63) (Nat.succ_le_succ (hlast rfl))
    · calc 2 ^ (index * 7) * (payload + 1) ≤ 2 ^ (index * 7) * 2 ^ 7 :=
            Nat.mul_le_mul_left _ hpayload
        _ = 2 ^ (index * 7 + 7) := (Nat.pow_add 2 _ _).symm
        _ ≤ 2 ^ 64 := Nat.pow_le_pow_right (by decide) (by omega)
  rw [Nat.mul_succ] at hbound
  have hshift : payload <<< (index * 7) = 2 ^ (index * 7) * payload := by
    rw [Nat.shiftLeft_eq, Nat.mul_comm]
  refine ⟨?_, by omega⟩
  rw [Nat.mod_eq_of_lt (by omega), Nat.or_comm, ← Nat.shiftLeft_add_eq_or_of_lt hvalue,
    hshift, Nat.add_comm]

variable {rest : Bytes} {value : Nat}

theorem vlq_cons_iff {byte : UInt8} :
    Vlq (byte :: rest) value ↔
      (byte < 0x80 ∧ rest = [] ∧ value = byte.toNat) ∨
        0x80 ≤ byte ∧ ∃ high, Vlq rest high ∧ value = byte.toNat % 0x80 + 0x80 * high := by
  have hpayload (h : 0x80 ≤ byte) : byte.toNat - 0x80 = byte.toNat % 0x80 := by
    have hlow := UInt8.le_iff_toNat_le.mp h
    have hhigh := byte.toNat_lt
    have h80 : (0x80 : UInt8).toNat = 0x80 := rfl
    omega
  constructor
  · rintro (hlast | ⟨hmore, hrest⟩)
    · exact Or.inl ⟨hlast, rfl, rfl⟩
    · exact Or.inr ⟨hmore, _, hrest, by rw [hpayload hmore]⟩
  · rintro (⟨hlast, rfl, rfl⟩ | ⟨hmore, high, hrest, rfl⟩)
    · exact Vlq.last hlast
    · rw [← hpayload hmore]
      exact Vlq.more hmore hrest

/-- The bytes go on, within so many rounds, with an encoding that completes the bits read
before them to the result. -/
def Completes (rounds value : Nat) (remaining : Bytes) (result : Nat) (rest : Bytes) : Prop :=
  ∃ encoding high, remaining = encoding ++ rest ∧ Vlq encoding high ∧
    encoding.length ≤ rounds ∧ result = value + 2 ^ ((10 - rounds) * 7) * high ∧
    result < 2 ^ 64

theorem not_completes_zero {remaining : Bytes} {result : Nat} :
    ¬ Completes 0 value remaining result rest := by
  rintro ⟨encoding, high, -, hvlq, hlength, -⟩
  cases hvlq <;> simp at hlength

theorem not_completes_nil {rounds value result : Nat} :
    ¬ Completes rounds value [] result rest := by
  rintro ⟨encoding, high, hnil, hvlq, -⟩
  rw [(List.append_eq_nil_iff.mp hnil.symm).1] at hvlq
  cases hvlq

theorem completes_cons_iff {rounds value : Nat} (hrounds : rounds ≤ 9) {byte : UInt8}
    {tail : Bytes} {result : Nat} {rest : Bytes} :
    Completes (rounds + 1) value (byte :: tail) result rest ↔
      (byte < 0x80 ∧ result = value + 2 ^ ((9 - rounds) * 7) * (byte.toNat % 0x80) ∧
        result < 2 ^ 64 ∧ rest = tail) ∨
      0x80 ≤ byte ∧ Completes rounds (value + 2 ^ ((9 - rounds) * 7) * (byte.toNat % 0x80))
        tail result rest := by
  have hindex : 10 - (rounds + 1) = 9 - rounds := by omega
  have hpow : 2 ^ ((10 - rounds) * 7) = 2 ^ ((9 - rounds) * 7) * 0x80 := by
    rw [show (10 - rounds) * 7 = (9 - rounds) * 7 + 7 by omega, Nat.pow_add]
  have hnext (high : Nat) : value + 2 ^ ((9 - rounds) * 7) * (byte.toNat % 0x80 + 0x80 * high) =
      value + 2 ^ ((9 - rounds) * 7) * (byte.toNat % 0x80) +
        2 ^ ((10 - rounds) * 7) * high := by
    rw [hpow, Nat.mul_add, Nat.add_assoc, Nat.mul_assoc]
  unfold Completes
  rw [hindex]
  constructor
  · rintro ⟨encoding, high, hsplit, hvlq, hlength, hresult, hlt⟩
    cases encoding with
    | nil => cases hvlq
    | cons first encoding =>
      obtain ⟨rfl, htail⟩ := List.cons.inj hsplit
      rcases vlq_cons_iff.mp hvlq with ⟨hlast, rfl, rfl⟩ | ⟨hmore, more, hrest, rfl⟩
      · have hbyte : byte.toNat % 0x80 = byte.toNat :=
          Nat.mod_eq_of_lt (UInt8.lt_iff_toNat_lt.mp hlast)
        exact Or.inl ⟨hlast, by rw [hbyte]; exact hresult, hlt, htail.symm⟩
      · exact Or.inr ⟨hmore, encoding, more, htail, hrest, Nat.le_of_succ_le_succ hlength,
          hresult.trans (hnext more), hlt⟩
  · rintro (⟨hlast, hresult, hlt, rfl⟩ | ⟨hmore, encoding, high, rfl, hvlq, hlength, hresult, hlt⟩)
    · have hbyte : byte.toNat % 0x80 = byte.toNat :=
        Nat.mod_eq_of_lt (UInt8.lt_iff_toNat_lt.mp hlast)
      rw [hbyte] at hresult
      exact ⟨[byte], byte.toNat, rfl, Vlq.last hlast, Nat.succ_le_succ (Nat.zero_le _), hresult,
        hlt⟩
    · exact ⟨byte :: encoding, byte.toNat % 0x80 + 0x80 * high, rfl,
        vlq_cons_iff.mpr (Or.inr ⟨hmore, high, hvlq, rfl⟩), Nat.succ_le_succ hlength,
        hresult.trans (hnext high).symm, hlt⟩

theorem readVlqLoop_ok_iff {rounds value : Nat} (hrounds : rounds ≤ 10)
    (hvalue : value < 2 ^ ((10 - rounds) * 7)) (input : CompactInput) (result : Nat)
    (after : CompactInput) :
    readVlqLoop rounds value input = (.ok result, after) ↔
      ∃ rest, Completes rounds value input.remaining result rest ∧
        after = { input with remaining := rest } := by
  induction rounds generalizing value input with
  | zero =>
    refine iff_of_false (fun h => ?_) fun ⟨rest, hrest, _⟩ => not_completes_zero hrest
    cases congrArg Prod.fst h
  | succ rounds ih =>
    show (readByte >>= _) input = _ ↔ _
    rw [bind_apply]
    cases hremaining : input.remaining with
    | nil =>
      have hread : readByte input =
          (.error (.endOfFile "compact metadata ended unexpectedly"), input) := by
        unfold readByte
        rw [hremaining]
      rw [hread]
      refine iff_of_false (fun h => ?_) fun ⟨rest, hrest, _⟩ => not_completes_nil hrest
      cases congrArg Prod.fst h
    | cons byte tail =>
      have hread : readByte input = (.ok byte, { input with remaining := tail }) := by
        unfold readByte
        rw [hremaining]
      have hindex : 10 - (rounds + 1) = 9 - rounds := by omega
      have hpayload : byte.toNat % 0x80 < 0x80 := Nat.mod_lt _ (by decide)
      rw [hindex] at hvalue
      rw [hread]
      dsimp only
      rw [payload_eq]
      simp only [completes_cons_iff (show rounds ≤ 9 by omega)]
      by_cases hlong : 9 - rounds = 9 ∧ 1 < byte.toNat % 0x80
      · -- the tenth byte has more than the one bit that is left
        rw [if_pos hlong]
        refine iff_of_false (fun h => by cases congrArg Prod.fst h) ?_
        rintro ⟨rest, ⟨-, hresult, hlt, -⟩ | ⟨-, hrest⟩, -⟩
        · rw [hlong.1] at hresult
          omega
        · have hzero : rounds = 0 := by omega
          rw [hzero] at hrest
          exact not_completes_zero hrest
      · obtain ⟨heq, hlt⟩ := next_eq hvalue hpayload
          (fun hnine => Nat.le_of_not_lt fun hmore => hlong ⟨hnine, hmore⟩) (Nat.sub_le 9 rounds)
        have hnext : value + 2 ^ ((9 - rounds) * 7) * (byte.toNat % 0x80) <
            2 ^ ((10 - rounds) * 7) := by
          have hpow := Nat.mul_le_mul_left (2 ^ ((9 - rounds) * 7)) (Nat.succ_le_of_lt hpayload)
          rw [Nat.mul_succ] at hpow
          rw [show (10 - rounds) * 7 = (9 - rounds) * 7 + 7 by omega, Nat.pow_add]
          omega
        rw [if_neg hlong, heq]
        by_cases hlast : byte < 0x80
        · rw [if_pos ((continued_iff byte).mpr hlast)]
          constructor
          · intro h
            obtain ⟨hresult, hafter⟩ := Prod.mk.inj h
            cases hresult
            exact ⟨tail, Or.inl ⟨hlast, rfl, hlt, rfl⟩, hafter.symm⟩
          · rintro ⟨rest, ⟨-, rfl, -, rfl⟩ | ⟨hmore, -⟩, rfl⟩
            · rfl
            · exact absurd hlast (UInt8.not_lt.mpr hmore)
        · rw [if_neg fun h => hlast ((continued_iff byte).mp h),
            ih (by omega) hnext { input with remaining := tail }]
          constructor
          · rintro ⟨rest, hrest, rfl⟩
            exact ⟨rest, Or.inr ⟨UInt8.not_lt.mp hlast, hrest⟩, rfl⟩
          · rintro ⟨rest, ⟨hlow, -⟩ | ⟨-, hrest⟩, rfl⟩
            · exact absurd hlow hlast
            · exact ⟨rest, hrest, rfl⟩

theorem readVlq_ok_iff (input : CompactInput) (value : Nat) (after : CompactInput) :
    readVlq input = (.ok value, after) ↔
      ∃ encoding rest, input.remaining = encoding ++ rest ∧ Vlq64 encoding value ∧
        after = { input with remaining := rest } := by
  unfold readVlq
  rw [readVlqLoop_ok_iff (Nat.le_refl 10) (by decide)]
  constructor
  · rintro ⟨rest, ⟨encoding, high, hsplit, hvlq, hlength, hresult, hlt⟩, hafter⟩
    have hvalue : value = high := by simpa using hresult
    subst hvalue
    exact ⟨encoding, rest, hsplit, ⟨hvlq, hlength, hlt⟩, hafter⟩
  · rintro ⟨encoding, rest, hsplit, ⟨hvlq, hlength, hlt⟩, hafter⟩
    exact ⟨rest, ⟨encoding, value, hsplit, hvlq, hlength, by simp, hlt⟩, hafter⟩

/-- What `read_zigzag` makes of a number of 64 bits is the integer it encodes. -/
theorem zigzag_eq_iff (hvalue : value < 2 ^ 64) (result : Int) :
    (if value &&& 1 = 0 then ((value >>> 1 : Nat) : Int) else -((value >>> 1 : Nat) : Int) - 1) =
      result ↔ zigzag result = value := by
  have hlow : value &&& 1 = value % 2 := Nat.and_one_is_mod value
  unfold zigzag
  split_ifs <;> omega

theorem readZigzag_ok_iff (input : CompactInput) (result : Int) (after : CompactInput) :
    readZigzag input = (.ok result, after) ↔
      ∃ encoding rest, input.remaining = encoding ++ rest ∧ Vlq64 encoding (zigzag result) ∧
        after = { input with remaining := rest } := by
  show (readVlq >>= _) input = _ ↔ _
  rw [bind_apply]
  generalize hread : readVlq input = outcome
  obtain ⟨error | value, reached⟩ := outcome
  · refine iff_of_false (fun h => by cases congrArg Prod.fst h) ?_
    rintro ⟨encoding, rest, hsplit, hvlq, rfl⟩
    have hok := (readVlq_ok_iff input _ _).mpr ⟨encoding, rest, hsplit, hvlq, rfl⟩
    rw [hread] at hok
    cases congrArg Prod.fst hok
  · obtain ⟨encoding, rest, hsplit, hvlq, rfl⟩ := (readVlq_ok_iff input _ _).mp hread
    have hhalf : ¬ 2 ^ 63 ≤ value >>> 1 := by
      have := hvlq.lt
      omega
    dsimp only
    rw [if_neg hhalf]
    constructor
    · intro h
      obtain ⟨hresult, hafter⟩ := Prod.mk.inj h
      have heq := (zigzag_eq_iff hvlq.lt result).mp (Except.ok.inj hresult)
      rw [heq]
      exact ⟨encoding, rest, hsplit, hvlq, hafter.symm⟩
    · rintro ⟨other, left, hother, hzigzag, rfl⟩
      have hok := (readVlq_ok_iff input _ _).mpr ⟨other, left, hother, hzigzag, rfl⟩
      rw [hread] at hok
      obtain ⟨hvalue, hafter⟩ := Prod.mk.inj hok
      rw [← hafter, ← (zigzag_eq_iff hvlq.lt result).mpr (Except.ok.inj hvalue).symm]
      rfl

end Thrift
end Kronika.Preflight
