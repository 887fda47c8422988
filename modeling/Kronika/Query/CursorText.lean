/-
Cursors as text: what is written is read back.
-/
import Kronika.Query.RowPages

namespace Kronika.Query

open Library

theorem comma_not_mem_decimal (value : Int) : ',' ∉ decimalText value :=
  not_mem_decimalText value (by decide) (by decide)

/-- A cursor of the widths of its fields. -/
structure Cursor.Fits (cursor : Cursor) : Prop where
  segmentId_ge : -2 ^ 63 ≤ cursor.segmentId
  segmentId_lt : cursor.segmentId < 2 ^ 63
  activePosition_lt : cursor.activePosition < 2 ^ 64
  layoutIndex_lt : cursor.layoutIndex < 2 ^ 64
  position_lt : cursor.position < 2 ^ 64
  binding_lt : cursor.binding < 2 ^ 64

theorem Cursor.parse_encode {cursor : Cursor} (h : cursor.Fits) :
    Cursor.parse cursor.encode = .ok cursor := by
  have hcomma : ∀ n, ',' ∉ Nat.toDigits 10 n := fun n => not_mem_toDigits n (by decide)
  have hsplit : cursor.encode.toList.splitOn ',' = [decimalText cursor.segmentId,
      Nat.toDigits 10 cursor.activePosition, Nat.toDigits 10 cursor.layoutIndex,
      Nat.toDigits 10 cursor.position, Nat.toDigits 10 cursor.binding] := by
    rw [Cursor.encode, String.toList_ofList, List.intercalate]
    simp only [List.intersperse, List.flatten_cons, List.flatten_nil, List.append_nil]
    show (decimalText cursor.segmentId ++ ',' :: (Nat.toDigits 10 cursor.activePosition ++
      ',' :: (Nat.toDigits 10 cursor.layoutIndex ++ ',' :: (Nat.toDigits 10 cursor.position ++
      ',' :: Nat.toDigits 10 cursor.binding)))).splitOn ',' = _
    rw [List.splitOn_append_cons_self_of_not_mem (comma_not_mem_decimal _),
      List.splitOn_append_cons_self_of_not_mem (hcomma _),
      List.splitOn_append_cons_self_of_not_mem (hcomma _),
      List.splitOn_append_cons_self_of_not_mem (hcomma _), List.splitOn_eq_singleton (hcomma _)]
  have htexts : Cursor.ofTexts (decimalText cursor.segmentId)
      (Nat.toDigits 10 cursor.activePosition) (Nat.toDigits 10 cursor.layoutIndex)
      (Nat.toDigits 10 cursor.position) (Nat.toDigits 10 cursor.binding) = some cursor := by
    rw [Cursor.ofTexts, parseSigned_decimalText h.segmentId_ge h.segmentId_lt,
      parseUnsigned_toDigits h.activePosition_lt, parseUnsigned_toDigits h.layoutIndex_lt,
      parseUnsigned_toDigits h.position_lt, parseUnsigned_toDigits h.binding_lt]
    rfl
  rw [Cursor.parse, hsplit]
  dsimp only
  rw [htexts]

theorem binding_lt (request : RowsRequest) : binding request < 2 ^ 64 := by
  exact UInt64.toNat_lt _

end Kronika.Query
