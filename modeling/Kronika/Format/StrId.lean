import Mathlib.Data.List.Basic
import Mathlib.Data.Set.Basic

namespace Kronika.Format

abbrev Bytes := List UInt8

/-- The hash functions of the dictionary format: `xxh3_64` from `xxhash-rust` and
SHA-256 from `sha2`.  Both are functions of the bytes and nothing here computes
them, so every definition below takes them as a parameter. -/
structure Hashes where
  xxh3_64 : Bytes → UInt64
  sha256 : Bytes → Vector UInt8 32

/-- An interned string id.  On disk zero means "no value", so an id carries the
fact that it is not zero. -/
structure StrId where
  raw : UInt64
  nonzero : raw ≠ 0
deriving DecidableEq

namespace StrId

theorem ext_raw {a b : StrId} (h : a.raw = b.raw) : a = b := by
  cases a with
  | mk raw nonzero =>
    cases b with
    | mk raw' nonzero' =>
      subst h
      rfl

instance : Ord StrId := ⟨fun a b => compare a.raw b.raw⟩

instance : Std.TransOrd StrId where
  eq_swap {a b} := show compare a.raw b.raw = (compare b.raw a.raw).swap from
    Std.OrientedCmp.eq_swap
  isLE_trans {a b c} (hab : (compare a.raw b.raw).isLE) (hbc : (compare b.raw c.raw).isLE) :=
    show (compare a.raw c.raw).isLE from Std.TransCmp.isLE_trans hab hbc

instance : Std.LawfulEqOrd StrId where
  compare_self {a} := show compare a.raw a.raw = .eq from Std.ReflCmp.compare_self
  eq_of_compare {a b} (h : compare a.raw b.raw = .eq) :=
    ext_raw (Std.LawfulEqCmp.eq_of_compare h)

def fromRaw (raw : UInt64) : Option StrId :=
  if h : raw ≠ 0 then some ⟨raw, h⟩ else none

def of (hashes : Hashes) (bytes : Bytes) : Option StrId := fromRaw (hashes.xxh3_64 bytes)

theorem fromRaw_eq_some {raw : UInt64} {id : StrId} : fromRaw raw = some id ↔ raw = id.raw := by
  unfold fromRaw
  constructor
  · intro h
    split at h
    · exact congrArg StrId.raw (Option.some.inj h)
    · exact absurd h (by simp)
  · intro h
    subst h
    rw [dif_pos id.nonzero]

end StrId

def first16 (digest : Vector UInt8 32) : Vector UInt8 16 := digest.take 16

/-- First 16 bytes of SHA-256 over `bytes`. -/
def check16 (hashes : Hashes) (bytes : Bytes) : Vector UInt8 16 := first16 (hashes.sha256 bytes)

/-- The id, the length and the 16-byte check together tell the values of `V`
apart.  This is what the dictionaries rely on SHA-256 for once the bytes of a
value are gone. -/
def Separated (hashes : Hashes) (V : Set Bytes) : Prop :=
  ∀ v ∈ V, ∀ w ∈ V, StrId.of hashes v = StrId.of hashes w → v.length = w.length →
    check16 hashes v = check16 hashes w → v = w

/-- No two values of `V` share an id. -/
def IdInjective (hashes : Hashes) (V : Set Bytes) : Prop :=
  ∀ v ∈ V, ∀ w ∈ V, StrId.of hashes v = StrId.of hashes w → v = w

theorem IdInjective.separated {hashes : Hashes} {V : Set Bytes} (h : IdInjective hashes V) :
    Separated hashes V :=
  fun v hv w hw hid _ _ => h v hv w hw hid

/-! ## Two values with their real hashes -/

/-- The bytes of `plan`. -/
def planBytes : Bytes := [112, 108, 97, 110]

/-- The bytes of `name`. -/
def nameBytes : Bytes := [110, 97, 109, 101]

/-- Both hash functions at `plan` and at `name`.  Concrete runs intern no other
value. -/
def knownHashes : Hashes where
  xxh3_64 bytes := if bytes = planBytes then 198643258655125820 else 879695947855722453
  sha256 bytes := if bytes = planBytes then
      #v[100, 135, 159, 125, 107, 150, 10, 1, 144, 151, 98, 217, 17, 163, 45, 69, 130, 194, 0, 16,
        197, 100, 30, 233, 2, 120, 182, 68, 169, 227, 181, 37]
    else
      #v[130, 163, 83, 127, 240, 219, 206, 126, 236, 53, 214, 158, 220, 58, 24, 158, 230, 241, 125,
        130, 243, 83, 165, 83, 249, 170, 150, 203, 11, 227, 206, 137]

theorem knownHashes_injective : IdInjective knownHashes {planBytes, nameBytes} := by
  rintro v (rfl | rfl) w (rfl | rfl) h
  · rfl
  · exact absurd h (by decide)
  · exact absurd h (by decide)
  · rfl

theorem IdInjective.mono {hashes : Hashes} {V W : Set Bytes} (h : IdInjective hashes W)
    (hVW : V ⊆ W) : IdInjective hashes V :=
  fun v hv w hw => h v (hVW hv) w (hVW hw)

end Kronika.Format
