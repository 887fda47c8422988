/-
The compact summary of a finished segment, and the filter of its types.

The filter holds the types that have rows.  It may take another type for one of
them, and never misses one.  The digests of the catalog are left out.
-/
import Kronika.Library.BitFilter
import Kronika.Store.Zms

namespace Kronika.Store

open Format Library

def typeBloomWords : Nat := 8
def typeBloomHashes : Nat := 8
def typeBloomBits : Nat := 512

def mix64 (value : UInt64) : UInt64 :=
  let value := value + 0x9E3779B97F4A7C15
  let value := (value ^^^ (value >>> 30)) * 0xBF58476D1CE4E5B9
  let value := (value ^^^ (value >>> 27)) * 0x94D049BB133111EB
  value ^^^ (value >>> 31)

/-- The bits of a type: steps of an odd width through the hash space. -/
def bloomBits (typeId : Nat) : List (Fin (64 * typeBloomWords)) :=
  let first := mix64 (UInt64.ofNat typeId)
  let step := mix64 (UInt64.ofNat typeId ^^^ 0x9E3779B97F4A7C15) ||| 1
  (List.range typeBloomHashes).map fun index =>
    let hash := first + UInt64.ofNat index * step
    ⟨hash.toNat % typeBloomBits, Nat.mod_lt _ (by decide)⟩

def nonemptyTypeBloom (entries : List Entry) : BitSet typeBloomWords :=
  entries.foldl
    (fun bloom entry => if entry.rows ≠ 0 then addMember bloomBits bloom entry.typeId else bloom)
    (Vector.replicate typeBloomWords 0)

def bloomMayContain (bloom : BitSet typeBloomWords) (typeId : Nat) : Bool :=
  mayContain bloomBits bloom typeId

structure CatalogSummary where
  minTs : Int64
  maxTs : Int64
  entryCount : Nat
  formatVersion : Nat
  windowCount : Nat
  /-- The encoded catalog, without the tail index. -/
  catalogLen : Nat
  nonemptyTypeBloom : BitSet typeBloomWords
deriving DecidableEq

namespace CatalogSummary

def fromCatalog (catalog : Catalog) (catalogLen : Nat) : CatalogSummary :=
  { minTs := catalog.minTs, maxTs := catalog.maxTs, entryCount := catalog.entries.length
    formatVersion := catalog.formatVersion, windowCount := catalog.windowCount
    catalogLen := catalogLen, nonemptyTypeBloom := Store.nonemptyTypeBloom catalog.entries }

def mayContainAnyNonemptyType (summary : CatalogSummary) (typeIds : List Nat) : Bool :=
  typeIds.any fun typeId => bloomMayContain summary.nonemptyTypeBloom typeId

end CatalogSummary

/-- The types that have rows, in the order of the entries. -/
def nonemptyTypes (entries : List Entry) : List Nat :=
  (entries.filter (·.rows ≠ 0)).map (·.typeId)

theorem mem_nonemptyTypes {entries : List Entry} {typeId : Nat} :
    typeId ∈ nonemptyTypes entries ↔
      ∃ entry ∈ entries, entry.typeId = typeId ∧ entry.rows ≠ 0 := by
  constructor
  · intro h
    obtain ⟨entry, hentry, rfl⟩ := List.mem_map.mp h
    obtain ⟨hmem, hrows⟩ := List.mem_filter.mp hentry
    exact ⟨entry, hmem, rfl, by simpa using hrows⟩
  · rintro ⟨entry, hmem, rfl, hrows⟩
    exact List.mem_map_of_mem (List.mem_filter.mpr ⟨hmem, by simpa using hrows⟩)

theorem nonemptyTypeBloom_eq (entries : List Entry) :
    nonemptyTypeBloom entries =
      (nonemptyTypes entries).foldl (addMember bloomBits) (Vector.replicate typeBloomWords 0) := by
  rw [nonemptyTypeBloom]
  generalize (Vector.replicate typeBloomWords 0 : BitSet typeBloomWords) = bloom
  induction entries generalizing bloom with
  | nil => rfl
  | cons entry entries ih =>
    rw [List.foldl_cons, ih]
    by_cases h : entry.rows ≠ 0
    · have hcons : nonemptyTypes (entry :: entries) = entry.typeId :: nonemptyTypes entries := by
        rw [nonemptyTypes, List.filter_cons_of_pos (by simpa using h)]
        rfl
      rw [if_pos h, hcons, List.foldl_cons]
    · have hcons : nonemptyTypes (entry :: entries) = nonemptyTypes entries := by
        rw [nonemptyTypes, List.filter_cons_of_neg (by simpa using h)]
        rfl
      rw [if_neg h, hcons]

theorem mayContainAnyNonemptyType_of_rows {catalog : Catalog} {catalogLen : Nat}
    {typeIds : List Nat} {entry : Entry} (hmem : entry ∈ catalog.entries) (hrows : entry.rows ≠ 0)
    (hwanted : entry.typeId ∈ typeIds) :
    (CatalogSummary.fromCatalog catalog catalogLen).mayContainAnyNonemptyType typeIds = true := by
  rw [CatalogSummary.mayContainAnyNonemptyType, List.any_eq_true]
  refine ⟨entry.typeId, hwanted, ?_⟩
  show mayContain bloomBits (nonemptyTypeBloom catalog.entries) entry.typeId = true
  rw [nonemptyTypeBloom_eq]
  exact mayContain_foldl bloomBits (.inl (mem_nonemptyTypes.mpr ⟨entry, hmem, rfl, hrows⟩))

end Kronika.Store
