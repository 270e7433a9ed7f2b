import DatabaseEngine.Model.Select
import DatabaseEngine.Spec.Join
import Mathlib.Data.Nat.Bitwise

/-!
# `DatabaseEngine.Proofs.Select.Keys`: values that are equal, and their hashes

* `floatRank_inj`: two doubles of one rank are one double, or two zeros.
* `hashValue_eq_iff`: of two equal values, the hashes are equal unless they are zeros of opposite
  sign.
-/

set_option autoImplicit false

namespace DatabaseEngine

/-! ### Doubles -/

/-- The sign bit is set for the upper half of the bit patterns. -/
theorem sign_toNat (bits : UInt64) :
    (bits &&& 0x8000000000000000).toNat = if bits.toNat < 2 ^ 63 then 0 else 2 ^ 63 := by
  have hlt := bits.toNat_lt
  have hconst : (0x8000000000000000 : UInt64).toNat = 2 ^ 63 := rfl
  rw [UInt64.toNat_and, hconst, Nat.and_two_pow, Nat.testBit_eq_decide_div_mod_eq]
  split
  · rename_i hsmall
    rw [Nat.div_eq_of_lt hsmall]
    rfl
  · have hone : bits.toNat / 2 ^ 63 = 1 := by omega
    rw [hone]
    rfl

/-- The magnitude is what is left without the sign bit. -/
theorem magnitude_toNat (bits : UInt64) :
    (bits &&& 0x7FFFFFFFFFFFFFFF).toNat = bits.toNat % 2 ^ 63 := by
  have hconst : (0x7FFFFFFFFFFFFFFF : UInt64).toNat = 2 ^ 63 - 1 := rfl
  rw [UInt64.toNat_and, hconst, Nat.and_two_pow_sub_one_eq_mod]

/-- A float without a sign bit has its bits in the lower half. -/
theorem sign_eq_zero (bits : UInt64) : bits &&& 0x8000000000000000 = 0 ↔ bits.toNat < 2 ^ 63 := by
  rw [← UInt64.toNat_inj, sign_toNat]
  split <;> simp_all

/-- There are two zeros, one of either sign. -/
theorem isZero_iff (bits : UInt64) : isZero bits = true ↔ bits = 0 ∨ bits = 0x8000000000000000 := by
  have hlt := bits.toNat_lt
  unfold isZero
  rw [beq_iff_eq, ← UInt64.toNat_inj, magnitude_toNat, ← UInt64.toNat_inj, ← UInt64.toNat_inj]
  show bits.toNat % 2 ^ 63 = 0 ↔ bits.toNat = 0 ∨ bits.toNat = 2 ^ 63
  omega

/-- The rank of a double by its number. -/
theorem floatRank_eq (bits : UInt64) :
    floatRank bits =
      if bits.toNat < 2 ^ 63 then (bits.toNat : Int) else -((bits.toNat % 2 ^ 63 : Nat) : Int) := by
  unfold floatRank
  rw [magnitude_toNat]
  by_cases h : bits.toNat < 2 ^ 63
  · rw [if_pos h, if_neg (not_not.mpr ((sign_eq_zero bits).mpr h))]
  · rw [if_neg h, if_pos (fun hno => h ((sign_eq_zero bits).mp hno))]

/-- Two doubles of one rank are one double, or two zeros. -/
theorem floatRank_inj {a b : UInt64} (h : floatRank a = floatRank b) :
    a = b ∨ isZero a = true ∧ isZero b = true := by
  have ha := a.toNat_lt
  have hb := b.toNat_lt
  rw [isZero_iff, isZero_iff]
  simp only [← UInt64.toNat_inj]
  show a.toNat = b.toNat ∨ (a.toNat = 0 ∨ a.toNat = 2 ^ 63) ∧ (b.toNat = 0 ∨ b.toNat = 2 ^ 63)
  rw [floatRank_eq, floatRank_eq] at h
  split at h <;> split at h <;> omega

/-- Both zeros have the same rank. -/
theorem floatRank_zero {a b : UInt64} (ha : isZero a = true) (hb : isZero b = true) :
    floatRank a = floatRank b := by
  rcases (isZero_iff a).mp ha with rfl | rfl <;> rcases (isZero_iff b).mp hb with rfl | rfl <;> rfl

/-- A zero is a number. -/
theorem not_isNaN_of_isZero {bits : UInt64} (h : isZero bits = true) : isNaN bits = false := by
  rcases (isZero_iff bits).mp h with rfl | rfl <;> rfl

/-! ### Values -/

section
variable {a b : Value}

/-- Two values that are equal and not NULL. -/
theorem valuesEqual_iff_same (ha : a.isNull = false) :
    valuesEqual a b = true ↔ b.isNull = false ∧ a.type = b.type ∧ valuesSame a b = true := by
  unfold valuesEqual
  rw [ha]
  cases b.isNull with
  | true => simp
  | false => by_cases htype : a.type = b.type <;> simp [htype]

/-- Sameness of values of one type goes both ways. -/
theorem valuesSame_comm (htype : a.type = b.type) : valuesSame a b = valuesSame b a := by
  unfold valuesSame
  rw [htype]
  split
  · exact Bool.beq_comm
  · split
    · unfold floatEq
      rw [Bool.and_comm (!isNaN a.floatValue), Bool.beq_comm (a := floatRank a.floatValue)]
    · rw [Bool.beq_comm (a := a.text), Bool.beq_comm (a := a.text.length)]

/-- Equality of values goes both ways. -/
theorem valuesEqual_comm (a b : Value) : valuesEqual a b = valuesEqual b a := by
  unfold valuesEqual
  by_cases htype : a.type = b.type
  · rw [valuesSame_comm htype, htype, Bool.or_comm, Bool.and_comm]
  · rw [if_pos htype, if_pos (Ne.symm htype), Bool.or_comm, Bool.and_comm]

/-- The bytes of one double. -/
theorem hashedBytes_float (htype : a.type = .TYPE_FLOAT) :
    hashedBytes a = hashedBytes (setFloat a.floatValue) := by
  simp [hashedBytes, htype, setFloat]

/-- Zeros of opposite signs have different hashes. -/
theorem OppositeZeros.hash_ne (h : OppositeZeros a b) : hashValue a ≠ hashValue b := by
  obtain ⟨ha, hb, hfa, hfb, hza, hzb, hne⟩ := h
  have hplus : hashValue (setFloat 0) ≠ hashValue (setFloat 0x8000000000000000) := by decide
  have hvalue : ∀ v : Value, v.isNull = false → v.type = .TYPE_FLOAT →
      hashValue v = hashValue (setFloat v.floatValue) := fun v hv hf => by
    unfold hashValue
    rw [hv, hashedBytes_float hf]
    rfl
  rw [hvalue a ha hfa, hvalue b hb hfb]
  rcases (isZero_iff _).mp hza with h₁ | h₁ <;> rcases (isZero_iff _).mp hzb with h₂ | h₂ <;>
    rw [h₁, h₂] at hne ⊢
  · exact absurd rfl hne
  · exact hplus
  · exact hplus.symm
  · exact absurd rfl hne

/-- Of two values that are equal, the hashes differ when they are zeros of opposite sign, and only
then. -/
theorem hashValue_eq_iff (h : valuesEqual a b = true) :
    hashValue a = hashValue b ↔ ¬OppositeZeros a b := by
  refine ⟨fun heq hzeros => hzeros.hash_ne heq, fun hno => ?_⟩
  cases ha : a.isNull with
  | true =>
    have hb : b.isNull = true := by
      unfold valuesEqual at h
      simpa [ha] using h
    unfold hashValue
    rw [ha, hb]
    rfl
  | false =>
    obtain ⟨hb, htype, hsame⟩ := (valuesEqual_iff_same ha).mp h
    have hbytes : hashedBytes a = hashedBytes b := by
      unfold valuesSame at hsame
      unfold hashedBytes
      rw [← htype]
      cases hta : a.type with
      | TYPE_INT =>
        have hint : a.intValue = b.intValue := by simpa [hta, ColType.intLike] using hsame
        rw [hint]
        rfl
      | TYPE_DATE =>
        have hint : a.intValue = b.intValue := by simpa [hta, ColType.intLike] using hsame
        rw [hint]
        rfl
      | TYPE_TEXT =>
        have htext : a.text = b.text := by
          simp only [hta, ColType.intLike, Bool.false_eq_true, if_false, reduceCtorEq,
            Bool.and_eq_true, beq_iff_eq] at hsame
          exact hsame.2
        rw [htext]
        rfl
      | TYPE_FLOAT =>
        have hrank : floatRank a.floatValue = floatRank b.floatValue := by
          simp only [hta, ColType.intLike, Bool.false_eq_true, if_false, if_true, floatEq,
            Bool.and_eq_true, beq_iff_eq] at hsame
          exact hsame.2
        have hbits : a.floatValue = b.floatValue := by
          rcases floatRank_inj hrank with heq | ⟨hza, hzb⟩
          · exact heq
          · by_contra hne
            exact hno ⟨ha, hb, hta, htype ▸ hta, hza, hzb, hne⟩
        rw [hbits]
        rfl
    unfold hashValue
    rw [ha, hb, hbytes]

end

end DatabaseEngine
