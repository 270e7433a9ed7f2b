import DatabaseEngine.Spec.Heap
import Mathlib.Algebra.Order.BigOperators.Group.List
import Mathlib.Algebra.Order.Group.Nat

/-!
# `DatabaseEngine.Proofs.Heap.Records`: a record reads back as its row

* `readField_holds`: a field is read where it lies, and the next one behind it.
* `readRecord_holds`: a record is the row that was written, with NULLs of no type and without what
  the types of its values do not use.
-/

set_option autoImplicit false

namespace DatabaseEngine

open Library

/-! ### Sizes -/

/-- A field takes up what is measured. -/
theorem fieldBytes_length (value : Value) : (fieldBytes value).length = fieldSize value := by
  unfold fieldBytes fieldSize
  split
  · rfl
  · split
    · rfl
    · split
      · simp [le64_length]
      · simp [le16]
        omega

/-- The bytes of a row's fields are as many as the fields' sizes add up to. -/
theorem fieldsBytes_length (row : Row) :
    (row.flatMap fieldBytes).length = (row.map fieldSize).sum := by
  induction row with
  | nil => rfl
  | cons value row ih =>
    rw [List.flatMap_cons, List.length_append, fieldBytes_length, ih]
    rfl

/-- A record has as many bytes as `recordSize` says. -/
theorem recordBytes_length (row : Row) : (recordBytes row).length = recordSize row := by
  unfold recordBytes recordSize
  rw [List.length_append, fieldsBytes_length]
  rfl

/-- A text is no longer than its record. -/
theorem text_length_le {row : Row} {value : Value} (h : value ∈ row) (hnull : value.isNull = false)
    (htype : value.type = .TYPE_TEXT) : value.text.length ≤ recordSize row := by
  have hfield : fieldSize value = 4 + value.text.length := by
    unfold fieldSize
    rw [hnull, htype]
    rfl
  have hsum := List.le_sum_of_mem (List.mem_map_of_mem (f := fieldSize) h)
  unfold recordSize
  omega

/-! ### Numbers -/

/-- Two bytes written little end first are read back as their number. -/
theorem HoldsAt.u16At {page : Bytes} {n k : Nat} (h : HoldsAt page n (le16 k)) (hk : k < 65536) :
    u16At page n = k := by
  rw [le16, holdsAt_cons, holdsAt_cons] at h
  obtain ⟨hlow, hhigh, -⟩ := h
  unfold DatabaseEngine.u16At
  rw [hlow, hhigh, UInt8.toNat_ofNat', UInt8.toNat_ofNat']
  omega

/-- The bytes of a number, put together again. -/
theorem foldr_bytes (number count : Nat) :
    (List.range count).foldr (fun i high => number / 256 ^ i % 256 + 256 * high) 0
      = number % 256 ^ count := by
  induction count generalizing number with
  | zero => exact (Nat.mod_one number).symm
  | succ count ih =>
    rw [List.range_succ_eq_map, List.foldr_cons, List.foldr_map, Nat.pow_succ', Nat.mod_mul,
      ← ih (number / 256)]
    -- the bytes above the lowest are those of the number without it
    simp only [Nat.pow_zero, Nat.div_one, Nat.succ_eq_add_one, Nat.pow_succ',
        Nat.div_div_eq_div_mul]

/-- Eight bytes written little end first are read back as their bits. -/
theorem HoldsAt.u64At {page : Bytes} {n : Nat} {bits : UInt64} (h : HoldsAt page n (le64 bits)) :
    u64At page n = bits := by
  have hbyte : ∀ i, i < 8 → (page (n + i)).toNat = bits.toNat / 256 ^ i % 256 := by
    intro i hi
    rw [h i (by rw [le64_length]; exact hi)]
    simp [le64]
  have hfold : (List.range 8).foldr (fun i high => (page (n + i)).toNat + 256 * high) 0
      = (List.range 8).foldr (fun i high => bits.toNat / 256 ^ i % 256 + 256 * high) 0 :=
    List.foldr_ext _ _ _ fun i hi high => by rw [hbyte i (List.mem_range.mp hi)]
  unfold DatabaseEngine.u64At
  rw [hfold, foldr_bytes, Nat.mod_eq_of_lt (show bits.toNat < 256 ^ 8 from bits.toNat_lt),
    UInt64.ofNat_toNat]

/-! ### Fields -/

/-- Every type comes back from its code. -/
theorem ofCode_code (type : ColType) : ColType.ofCode (UInt8.ofNat type.code).toNat = type := by
  cases type <;> rfl

/-- A field is read, and the reader stands behind it. -/
theorem readField_holds {page : Bytes} {n : Nat} {value : Value}
    (h : HoldsAt page n (fieldBytes value))
    (htext : value.isNull = false → value.type = .TYPE_TEXT → value.text.length < 65536) :
    readField page n = (value.recorded, n + fieldSize value) := by
  unfold fieldBytes at h
  unfold readField fieldSize Value.recorded
  cases hnull : value.isNull with
  | true =>
    rw [hnull, if_pos rfl, holdsAt_cons] at h
    rw [h.1]
    rfl
  | false =>
    rw [hnull, if_neg Bool.false_ne_true, holdsAt_cons, holdsAt_cons] at h
    obtain ⟨hmark, hcode, h⟩ := h
    rw [if_neg (not_not.mpr hmark), hcode]
    simp only [ofCode_code, Bool.false_eq_true, if_false]
    -- the three kinds of values behind the type's number
    cases hint : value.type.intLike with
    | true =>
      rw [hint, if_pos rfl] at h
      have hnumber : u32At page (n + 2) = value.intValue.toUInt32 := HoldsAt.u32At h
      rw [if_pos rfl, if_pos rfl, if_pos rfl, hnumber, Int32.toInt32_toUInt32]
    | false =>
      rw [hint, if_neg Bool.false_ne_true] at h
      rw [if_neg Bool.false_ne_true, if_neg Bool.false_ne_true, if_neg Bool.false_ne_true]
      by_cases hfloat : value.type = .TYPE_FLOAT
      · rw [if_pos hfloat] at h
        rw [if_pos hfloat, if_pos hfloat, if_pos hfloat, HoldsAt.u64At h]
      · rw [if_neg hfloat, holdsAt_append] at h
        rw [if_neg hfloat, if_neg hfloat, if_neg hfloat]
        have htype : value.type = .TYPE_TEXT := by
          cases htype : value.type <;> simp_all [ColType.intLike]
        have hlength : u16At page (n + 2) = value.text.length :=
          HoldsAt.u16At h.1 (htext hnull htype)
        have hbytes : bytesAt page (n + 4) value.text.length = value.text := HoldsAt.bytesAt h.2
        rw [hlength, hbytes, Nat.add_assoc]

/-- Fields that stand on a page are read back as the row they were written of. -/
theorem readFields_holds {page : Bytes} {n : Nat} {row : Row}
    (h : HoldsAt page n (row.flatMap fieldBytes))
    (htext : ∀ value ∈ row, value.isNull = false → value.type = .TYPE_TEXT →
      value.text.length < 65536) :
    readFields page n row.length = row.map Value.recorded := by
  induction row generalizing n with
  | nil => rfl
  | cons value row ih =>
    rw [List.flatMap_cons, holdsAt_append, fieldBytes_length] at h
    have hfield := readField_holds h.1 (htext value (List.mem_cons_self ..))
    have hrest := ih h.2 fun other hother => htext other (List.mem_cons_of_mem _ hother)
    show (readField page n).1 :: readFields page (readField page n).2 row.length = _
    rw [hfield, hrest]
    rfl

/-- A record that lies on a page reads back. -/
theorem readRecord_holds {page : Bytes} {offset : Nat} {row : Row}
    (h : HoldsAt page offset (recordBytes row)) (hcols : row.length ≤ MAX_COLS)
    (hsize : recordSize row ≤ PAGE_SIZE) :
    readRecord page offset = row.map Value.recorded := by
  unfold recordBytes at h
  rw [holdsAt_append] at h
  have hcount : u16At page offset = row.length :=
    HoldsAt.u16At h.1 (Nat.lt_of_le_of_lt hcols (by decide))
  unfold readRecord
  rw [hcount, Nat.min_eq_left hcols]
  refine readFields_holds h.2 fun value hvalue hnull htype => ?_
  have hlength := text_length_le hvalue hnull htype
  have hpage : PAGE_SIZE < 65536 := by decide
  omega

end DatabaseEngine
