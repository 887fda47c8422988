/-
Files as byte strings, and the contents that a stopped process leaves behind.

A file is changed by writes at an offset and by setting its length.  A process may
stop before an operation, after it, or within a write, which then has written some
of its first bytes: `stops file ops` lists the contents that are left.
-/
import Kronika.Library.LittleEndian

namespace Kronika.Library

inductive FileOp where
  | write (offset : Nat) (bytes : List UInt8)
  | setLen (len : Nat)
  | sync
deriving DecidableEq

/-- Writes over what is there, and after the end of the file; a gap reads as zero. -/
def writeAt (file : List UInt8) (offset : Nat) (bytes : List UInt8) : List UInt8 :=
  if bytes.isEmpty then file
  else
    file.take offset ++ List.replicate (offset - file.length) 0 ++ bytes ++
      file.drop (offset + bytes.length)

def setLen (file : List UInt8) (len : Nat) : List UInt8 :=
  file.take len ++ List.replicate (len - file.length) 0

namespace FileOp

def apply (file : List UInt8) : FileOp → List UInt8
  | write offset bytes => writeAt file offset bytes
  | setLen len => Library.setLen file len
  | sync => file

def applyAll (file : List UInt8) (ops : List FileOp) : List UInt8 := ops.foldl apply file

/-- The contents that the operation can leave when it is stopped before its end. -/
def cuts (file : List UInt8) : FileOp → List (List UInt8)
  | write offset bytes =>
    (List.range (bytes.length + 1)).map fun k => writeAt file offset (bytes.take k)
  | setLen _ => [file]
  | sync => [file]

end FileOp

/-- The contents that a process can leave when it is stopped at any point of `ops`. -/
def stops (file : List UInt8) : List FileOp → List (List UInt8)
  | [] => [file]
  | op :: ops => op.cuts file ++ stops (op.apply file) ops

section Writes

variable {file bytes : List UInt8}

theorem writeAt_nil (file : List UInt8) (offset : Nat) : writeAt file offset [] = file := rfl

theorem writeAt_length (file bytes : List UInt8) :
    writeAt file file.length bytes = file ++ bytes := by
  cases bytes with
  | nil => rw [writeAt_nil, List.append_nil]
  | cons b bytes =>
    rw [writeAt, if_neg (by simp), Nat.sub_self, List.replicate_zero, List.append_nil,
      List.take_length, List.drop_of_length_le (Nat.le_add_right _ _), List.append_nil]

theorem writeAt_zero (file bytes : List UInt8) :
    writeAt file 0 bytes = splice bytes.length bytes file := by
  cases bytes with
  | nil => rw [writeAt_nil, List.length_nil, splice_zero]
  | cons b bytes =>
    rw [writeAt, if_neg (by simp), Nat.zero_sub, List.take_zero, List.replicate_zero,
      List.nil_append, List.nil_append, Nat.zero_add, splice, List.take_length]

theorem writeAt_zero_take {k : Nat} (h : k ≤ bytes.length) :
    writeAt file 0 (bytes.take k) = splice k bytes file := by
  rw [writeAt_zero, List.length_take, Nat.min_eq_left h, splice, splice, List.take_take,
    Nat.min_self]

theorem length_setLen (file : List UInt8) (len : Nat) : (setLen file len).length = len := by
  rw [setLen, List.length_append, List.length_take, List.length_replicate]
  omega

theorem setLen_of_le {len : Nat} (h : len ≤ file.length) : setLen file len = file.take len := by
  rw [setLen, Nat.sub_eq_zero_of_le h, List.replicate_zero, List.append_nil]

end Writes

section Stops

variable {file after : List UInt8}

@[simp] theorem applyAll_nil (file : List UInt8) : FileOp.applyAll file [] = file := rfl

@[simp] theorem applyAll_cons (file : List UInt8) (op : FileOp) (ops : List FileOp) :
    FileOp.applyAll file (op :: ops) = FileOp.applyAll (op.apply file) ops := rfl

theorem applyAll_append (file : List UInt8) (xs ys : List FileOp) :
    FileOp.applyAll file (xs ++ ys) = FileOp.applyAll (FileOp.applyAll file xs) ys :=
  List.foldl_append

theorem mem_stops_nil : after ∈ stops file [] ↔ after = file := List.mem_singleton

variable {ops : List FileOp}

theorem mem_stops_write {offset : Nat} {bytes : List UInt8} :
    after ∈ stops file (.write offset bytes :: ops) ↔
      (∃ k ≤ bytes.length, after = writeAt file offset (bytes.take k)) ∨
        after ∈ stops (writeAt file offset bytes) ops := by
  rw [stops, List.mem_append]
  refine or_congr_left ⟨fun h => ?_, fun ⟨k, hk, h⟩ => ?_⟩
  · obtain ⟨k, hk, rfl⟩ := List.mem_map.mp h
    exact ⟨k, Nat.le_of_lt_succ (List.mem_range.mp hk), rfl⟩
  · exact List.mem_map.mpr ⟨k, List.mem_range.mpr (Nat.lt_succ_of_le hk), h.symm⟩

theorem mem_stops_setLen {len : Nat} :
    after ∈ stops file (.setLen len :: ops) ↔
      after = file ∨ after ∈ stops (setLen file len) ops := by
  rw [stops, List.mem_append]
  exact or_congr_left List.mem_singleton

theorem mem_stops_sync :
    after ∈ stops file (.sync :: ops) ↔ after = file ∨ after ∈ stops file ops := by
  rw [stops, List.mem_append]
  exact or_congr_left List.mem_singleton

theorem self_mem_stops (file : List UInt8) (ops : List FileOp) : file ∈ stops file ops := by
  cases ops with
  | nil => exact mem_stops_nil.mpr rfl
  | cons op ops =>
    cases op with
    | write offset bytes =>
      exact mem_stops_write.mpr (.inl ⟨0, Nat.zero_le _, by rw [List.take_zero, writeAt_nil]⟩)
    | setLen len => exact mem_stops_setLen.mpr (.inl rfl)
    | sync => exact mem_stops_sync.mpr (.inl rfl)

theorem applyAll_mem_stops (file : List UInt8) (ops : List FileOp) :
    FileOp.applyAll file ops ∈ stops file ops := by
  induction ops generalizing file with
  | nil => exact mem_stops_nil.mpr rfl
  | cons op ops ih => exact List.mem_append_right _ (ih _)

/-! ### Operations that do not shorten the file -/

def FileOp.Grows : FileOp → Prop
  | write _ _ => True
  | setLen _ => False
  | sync => True

theorem length_writeAt (file bytes : List UInt8) (offset : Nat) :
    (writeAt file offset bytes).length =
      if bytes = [] then file.length else max file.length (offset + bytes.length) := by
  cases bytes with
  | nil => rfl
  | cons byte bytes =>
    rw [writeAt, if_neg (by simp), if_neg (List.cons_ne_nil _ _)]
    simp only [List.length_append, List.length_take, List.length_replicate, List.length_drop]
    omega

theorem length_cut_le {op : FileOp} (hgrows : op.Grows) (hafter : after ∈ op.cuts file) :
    file.length ≤ after.length ∧ after.length ≤ (op.apply file).length := by
  cases op with
  | setLen len => exact hgrows.elim
  | sync =>
    rw [List.mem_singleton.mp hafter]
    exact ⟨Nat.le_refl _, Nat.le_refl _⟩
  | write offset bytes =>
    obtain ⟨k, -, rfl⟩ := List.mem_map.mp hafter
    show _ ∧ _ ≤ (writeAt file offset bytes).length
    rw [length_writeAt, length_writeAt]
    by_cases hnil : bytes.take k = []
    · rw [if_pos hnil]
      split <;> omega
    · have hne : bytes ≠ [] := fun h => hnil (by rw [h, List.take_nil])
      rw [if_neg hnil, if_neg hne, List.length_take]
      omega

theorem length_le_of_mem_stops (hgrow : ∀ op ∈ ops, op.Grows)
    (hafter : after ∈ stops file ops) : file.length ≤ after.length := by
  induction ops generalizing file with
  | nil =>
    rw [mem_stops_nil.mp hafter]
  | cons op ops ih =>
    have hop := hgrow op List.mem_cons_self
    rcases List.mem_append.mp hafter with hcut | hlater
    · exact (length_cut_le hop hcut).1
    · have hself := length_cut_le hop (show file ∈ op.cuts file by
        cases op with
        | setLen len => exact hop.elim
        | sync => exact List.mem_singleton.mpr rfl
        | write offset bytes => exact List.mem_map.mpr ⟨0, by simp, rfl⟩)
      exact hself.2.trans (ih (fun other hother => hgrow other (List.mem_cons_of_mem _ hother))
        hlater)

theorem pairwise_stops (hgrow : ∀ op ∈ ops, op.Grows) :
    (stops file ops).Pairwise fun earlier later => earlier.length ≤ later.length := by
  induction ops generalizing file with
  | nil => exact List.pairwise_singleton _ _
  | cons op ops ih =>
    have hop := hgrow op List.mem_cons_self
    have hrest : ∀ other ∈ ops, other.Grows := fun other hother =>
      hgrow other (List.mem_cons_of_mem _ hother)
    refine List.pairwise_append.mpr ⟨?_, ih hrest, fun earlier hearlier later hlater => ?_⟩
    · cases op with
      | setLen len => exact hop.elim
      | sync => exact List.pairwise_singleton _ _
      | write offset bytes =>
        refine List.pairwise_map.mpr (List.pairwise_lt_range.imp fun {j k} hlt => ?_)
        rw [length_writeAt, length_writeAt]
        by_cases hnil : bytes.take j = []
        · rw [if_pos hnil]
          split <;> omega
        · have hne : bytes.take k ≠ [] := by
            intro h
            apply hnil
            rw [List.take_eq_nil_iff] at h ⊢
            exact h.imp_left fun hk => by omega
          rw [if_neg hnil, if_neg hne, List.length_take, List.length_take]
          omega
    · exact (length_cut_le hop hearlier).2.trans (length_le_of_mem_stops hrest hlater)

end Stops

end Kronika.Library
