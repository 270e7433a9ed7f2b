import DatabaseEngine.Model.Index
import DatabaseEngine.Proofs.Select.Order

/-!
# `DatabaseEngine.Proofs.Index.Keys`: index keys order like the values they stand for

A key encodes its value differently for each type. Ints and dates are exact (`intKey_toNat`);
a double becomes an unsigned number that is in order with it, except that the two zeros are
apart (`floatOrder_lt_iff`); a text keeps its first bytes (`compareKeys_text`).

* `compareKeys_swap`, `compareKeys_trans`: the keys of one type are in a total preorder.
* `keys_follow_iff`: the keys of two values are in the order of the values, and a scan meets the
  key of every value that it asks for, unless the values are zeros of opposite sign.
-/

set_option autoImplicit false

namespace DatabaseEngine

open Library

/-! ### Numbers -/

/-- The model's comparison of numbers is the ordinary one. -/
theorem compareNat_eq_compare (a b : Nat) : compareNat a b = compare a b := by
  have hnat : compare a b = compareOfLessAndEq a b := rfl
  unfold compareNat
  rw [hnat]
  unfold compareOfLessAndEq
  split
  · rfl
  · split
    · rw [if_neg (by omega)]
    · rw [if_pos (by omega)]

/-- It answers less exactly for a smaller number. -/
theorem compareNat_lt {a b : Nat} : compareNat a b = .lt ↔ a < b := by
  rw [compareNat_eq_compare, Nat.compare_eq_lt]

/-- It answers greater exactly for a larger number. -/
theorem compareNat_gt {a b : Nat} : compareNat a b = .gt ↔ b < a := by
  rw [compareNat_eq_compare, Nat.compare_eq_gt]

/-- It answers equal exactly for the same number. -/
theorem compareNat_eq {a b : Nat} : compareNat a b = .eq ↔ a = b := by
  rw [compareNat_eq_compare, Nat.compare_eq_eq]

instance : Std.TransCmp compareNat where
  eq_swap {a b} := by
    rw [compareNat_eq_compare, compareNat_eq_compare]
    exact Std.OrientedOrd.eq_swap
  isLE_trans {a b c} hab hbc := by
    rw [compareNat_eq_compare] at hab hbc ⊢
    exact Std.TransOrd.isLE_trans hab hbc

/-! ### Bytes -/

/-- The first byte counts ones, and the rest counts in steps of 256. -/
theorem leNumber_cons (b : UInt8) (bytes : List UInt8) :
    leNumber (b :: bytes) = b.toNat + 256 * leNumber bytes := rfl

/-- The bytes of a number, read back. -/
theorem leNumber_bytes (n k : Nat) :
    leNumber ((List.range k).map fun i => UInt8.ofNat (n / 256 ^ i)) = n % 256 ^ k := by
  induction k generalizing n with
  | zero => simp [leNumber, Nat.mod_one]
  | succ k ih =>
    have hshift : (fun i => UInt8.ofNat (n / 256 ^ i)) ∘ Nat.succ
        = fun i => UInt8.ofNat (n / 256 / 256 ^ i) := by
      funext i
      show UInt8.ofNat (n / 256 ^ (i + 1)) = _
      rw [Nat.pow_succ, Nat.mul_comm, Nat.div_div_eq_div_mul]
    rw [List.range_succ_eq_map, List.map_cons, List.map_map, hshift, leNumber_cons, ih,
      Nat.pow_succ, Nat.mul_comm (256 ^ k), Nat.mod_mul]
    simp

/-- Eight bytes little end first spell their number. -/
theorem leNumber_le64 (bits : UInt64) : leNumber (le64 bits) = bits.toNat := by
  have hlt := bits.toNat_lt
  unfold le64
  rw [leNumber_bytes]
  exact Nat.mod_eq_of_lt hlt

/-- Four bytes little end first spell their number. -/
theorem leNumber_le32 (n : UInt32) : leNumber (le32 n) = n.toNat := by
  have hlt := n.toNat_lt
  simp only [le32, leNumber, List.foldr_cons, List.foldr_nil, UInt8.toNat_ofNat']
  omega

/-! ### Ints and dates -/

/-- The biased int is the int, moved up by half of the range. -/
theorem biased_toNat (n : Int32) :
    (((n.toUInt32 ^^^ 0x80000000).toNat : Nat) : Int) = n.toInt + 2 ^ 31 := by
  have hlt := n.toUInt32.toNat_lt
  have hmod := @Nat.xor_mod_two_pow n.toUInt32.toNat (2 ^ 31) 31
  have hdiv := @Nat.xor_div_two_pow n.toUInt32.toNat (2 ^ 31) 31
  rw [Nat.mod_self, Nat.xor_zero] at hmod
  rw [Nat.div_self (by decide)] at hdiv
  rw [UInt32.toNat_xor]
  show ((n.toUInt32.toNat ^^^ 2 ^ 31 : Nat) : Int) = _
  have hint : n.toInt = if n.toUInt32.toNat < 2 ^ 31 then (n.toUInt32.toNat : Int)
      else (n.toUInt32.toNat : Int) - 2 ^ 32 := by
    show n.toBitVec.toInt = _
    rw [BitVec.toInt_eq_toNat_cond]
    show (if 2 * n.toUInt32.toNat < 2 ^ 32 then (n.toUInt32.toNat : Int)
      else (n.toUInt32.toNat : Int) - ((2 ^ 32 : Nat) : Int)) = _
    split <;> split <;> omega
  rw [hint]
  split
  · rename_i hsmall
    rw [Nat.div_eq_of_lt hsmall] at hdiv
    have hone : (0 ^^^ 1 : Nat) = 1 := rfl
    rw [hone] at hdiv
    omega
  · have hbit : n.toUInt32.toNat / 2 ^ 31 = 1 := by omega
    rw [hbit, Nat.xor_self] at hdiv
    omega

/-! ### Doubles -/

/-- Floats of either sign as one ascending number. -/
theorem floatOrder_toNat (bits : UInt64) :
    (floatOrder bits).toNat =
      if bits.toNat < 2 ^ 63 then bits.toNat + 2 ^ 63 else 2 ^ 64 - 1 - bits.toNat := by
  have hlt := bits.toNat_lt
  unfold floatOrder
  by_cases h : bits.toNat < 2 ^ 63
  · rw [if_neg (not_not.mpr ((sign_eq_zero bits).mpr h)), if_pos h, UInt64.toNat_or]
    show bits.toNat ||| 2 ^ 63 = _
    have hor := Nat.two_pow_add_eq_or_of_lt h 1
    rw [Nat.mul_one] at hor
    rw [Nat.or_comm, ← hor]
    omega
  · rw [if_pos (fun hno => h ((sign_eq_zero bits).mp hno)), if_neg h, UInt64.toNat_not]
    rfl

/-- The order of the keys is the order of the doubles. -/
theorem floatOrder_lt {a b : UInt64} (h : floatRank a < floatRank b) :
    (floatOrder a).toNat < (floatOrder b).toNat := by
  have ha := a.toNat_lt
  have hb := b.toNat_lt
  rw [floatRank_eq, floatRank_eq] at h
  rw [floatOrder_toNat, floatOrder_toNat]
  split at h <;> split at h <;> rename_i h1 h2
  · rw [if_pos h1, if_pos h2]
    omega
  · rw [if_pos h1, if_neg h2]
    omega
  · rw [if_neg h1, if_pos h2]
    omega
  · rw [if_neg h1, if_neg h2]
    omega

/-- Different doubles have different keys, the two zeros among them. -/
theorem floatOrder_inj {a b : UInt64} (h : (floatOrder a).toNat = (floatOrder b).toNat) : a = b := by
  have ha := a.toNat_lt
  have hb := b.toNat_lt
  rw [floatOrder_toNat, floatOrder_toNat] at h
  rw [← UInt64.toNat_inj]
  split at h <;> split at h <;> omega

/-! ### Texts -/

/-- To cut two texts at one length keeps their order, weakly. -/
theorem compareText_take {a b : List UInt8} (n : Nat) (h : compareText a b ≠ .gt) :
    compareText (a.take n) (b.take n) ≠ .gt := by
  induction n generalizing a b with
  | zero => simp [compareText]
  | succ n ih =>
    cases a with
    | nil => cases b <;> simp [compareText]
    | cons c a =>
      cases b with
      | nil => exact absurd rfl h
      | cons d b =>
        rw [List.take_succ_cons, List.take_succ_cons, compareText]
        rw [compareText] at h
        by_cases hlt : c < d
        · rw [if_pos hlt]
          simp
        · by_cases hgt : d < c
          · rw [if_neg hlt, if_pos hgt] at h
            exact absurd rfl h
          · rw [if_neg hlt, if_neg hgt] at h ⊢
            exact ih h

/-- `compareText`, the shared bytes first and then the lengths. -/
theorem compareText_shared (a b : List UInt8) :
    compareText a b =
      match compareBytes (a.take (min a.length b.length)) (b.take (min a.length b.length)) with
      | .eq => compareNat a.length b.length
      | order => order := by
  induction a generalizing b with
  | nil =>
    cases b with
    | nil => rfl
    | cons d b =>
      simp only [compareText, List.length_nil, Nat.zero_min, List.take_zero, compareBytes]
      rw [compareNat_lt.mpr (by simp)]
  | cons c a ih =>
    cases b with
    | nil =>
      simp only [compareText, List.length_nil, Nat.min_zero, List.take_zero, compareBytes]
      rw [compareNat_gt.mpr (by simp)]
    | cons d b =>
      rw [compareText, List.length_cons, List.length_cons, Nat.add_min_add_right,
        List.take_succ_cons, List.take_succ_cons, compareBytes]
      by_cases hlt : c < d
      · rw [if_pos hlt, if_pos hlt]
      · by_cases hgt : d < c
        · rw [if_neg hlt, if_neg hlt, if_pos hgt, if_pos hgt]
        · rw [if_neg hlt, if_neg hlt, if_neg hgt, if_neg hgt, ih b]
          have hlengths : compareNat (a.length + 1) (b.length + 1) = compareNat a.length b.length := by
            unfold compareNat
            simp
          rw [hlengths]

/-! ### Keys -/

section
variable {a b c : Value}

/-- Keys of integers compare as the integers with their sign bit turned. -/
theorem compareKeys_int (ha : a.type.intLike = true) (hb : b.type.intLike = true) :
    compareKeys (makeKey a) (makeKey b)
      = compareNat (a.intValue.toUInt32 ^^^ 0x80000000).toNat
          (b.intValue.toUInt32 ^^^ 0x80000000).toNat := by
  have hkey : ∀ {v : Value}, v.type.intLike = true → makeKey v =
      { type := 0, storedLength := 4, fullLength := 4,
        key := le32 (v.intValue.toUInt32 ^^^ 0x80000000) } := by
    intro v hv
    unfold makeKey
    cases hvt : v.type <;> simp_all [ColType.intLike]
  rw [hkey ha, hkey hb, ← leNumber_le32, ← leNumber_le32]
  rfl

/-- Keys of floats compare as their ascending numbers. -/
theorem compareKeys_float (ha : a.type = .TYPE_FLOAT) (hb : b.type = .TYPE_FLOAT) :
    compareKeys (makeKey a) (makeKey b)
      = compareNat (floatOrder a.floatValue).toNat (floatOrder b.floatValue).toNat := by
  have hkey : ∀ {v : Value}, v.type = .TYPE_FLOAT → makeKey v =
      { type := 2, storedLength := 8, fullLength := 8, key := le64 (floatOrder v.floatValue) } := by
    intro v hv
    unfold makeKey
    rw [hv]
  rw [hkey ha, hkey hb, ← leNumber_le64, ← leNumber_le64]
  unfold compareKeys
  rw [if_pos rfl, List.take_of_length_le (by rw [le64_length]),
    List.take_of_length_le (by rw [le64_length])]

/-- The length byte of a text key counts up to the key's width. -/
theorem storedLength_toNat (n : Nat) :
    (UInt8.ofNat (min n INDEX_KEY_MAX)).toNat = min n INDEX_KEY_MAX := by
  rw [UInt8.toNat_ofNat']
  refine Nat.mod_eq_of_lt ?_
  show min n 40 < 256
  omega

/-- What the two lengths of the keys say, once the bytes do not tell them apart. -/
theorem storedLengths_compare (m n : Nat) :
    (if UInt8.ofNat (min m INDEX_KEY_MAX) ≠ UInt8.ofNat (min n INDEX_KEY_MAX) then
      if UInt8.ofNat (min m INDEX_KEY_MAX) < UInt8.ofNat (min n INDEX_KEY_MAX) then .lt else .gt
    else if (UInt8.ofNat (min m INDEX_KEY_MAX)).toNat = INDEX_KEY_MAX
        ∧ UInt32.ofNat m ≠ UInt32.ofNat n then .eq
    else compareNat (UInt32.ofNat m).toNat (UInt32.ofNat n).toNat)
      = compareNat (min m INDEX_KEY_MAX) (min n INDEX_KEY_MAX) := by
  by_cases hlen : min m INDEX_KEY_MAX = min n INDEX_KEY_MAX
  · rw [hlen, if_neg (by simp), compareNat_eq.mpr rfl, storedLength_toNat]
    by_cases hfull : min n INDEX_KEY_MAX = INDEX_KEY_MAX
    · split
      · rfl
      · rename_i hsame
        rw [compareNat_eq]
        by_contra hne
        exact hsame ⟨hfull, fun heq => hne (congrArg UInt32.toNat heq)⟩
    · have heq : m = n := by omega
      rw [if_neg (fun hno => hfull hno.1), heq, compareNat_eq.mpr rfl]
  · have hne : UInt8.ofNat (min m INDEX_KEY_MAX) ≠ UInt8.ofNat (min n INDEX_KEY_MAX) := fun heq =>
      hlen (by rw [← storedLength_toNat m, heq, storedLength_toNat])
    rw [if_pos hne]
    have hlt : UInt8.ofNat (min m INDEX_KEY_MAX) < UInt8.ofNat (min n INDEX_KEY_MAX)
        ↔ min m INDEX_KEY_MAX < min n INDEX_KEY_MAX := by
      rw [UInt8.lt_iff_toNat_lt, storedLength_toNat, storedLength_toNat]
    unfold compareNat
    simp only [hlt]
    split
    · rfl
    · rw [if_pos (by omega)]

/-- The bytes of a key up to its length are those of its text. -/
theorem textKey_take {text : List UInt8} {n : Nat} (hlen : n ≤ text.length)
    (hmax : n ≤ INDEX_KEY_MAX) :
    ((text ++ List.replicate INDEX_KEY_MAX 0).take INDEX_KEY_MAX).take n
      = (text.take INDEX_KEY_MAX).take n := by
  rw [List.take_take, List.take_take, Nat.min_eq_left hmax, List.take_append_of_le_length hlen]

/-- Two texts are compared by their first bytes, as texts. -/
theorem compareKeys_text (ha : a.type = .TYPE_TEXT) (hb : b.type = .TYPE_TEXT) :
    compareKeys (makeKey a) (makeKey b)
      = compareText (a.text.take INDEX_KEY_MAX) (b.text.take INDEX_KEY_MAX) := by
  rw [compareText_shared, List.length_take, List.length_take, Nat.min_comm INDEX_KEY_MAX,
    Nat.min_comm INDEX_KEY_MAX, ← storedLengths_compare]
  unfold makeKey
  rw [ha, hb]
  unfold compareKeys
  rw [if_neg (by decide : ¬(1 : UInt8) = 2), if_neg (by decide : ¬(1 : UInt8) = 0)]
  show (match compareBytes
      (((a.text ++ List.replicate INDEX_KEY_MAX 0).take INDEX_KEY_MAX).take
        (min (UInt8.ofNat (min a.text.length INDEX_KEY_MAX)).toNat
          (UInt8.ofNat (min b.text.length INDEX_KEY_MAX)).toNat))
      (((b.text ++ List.replicate INDEX_KEY_MAX 0).take INDEX_KEY_MAX).take
        (min (UInt8.ofNat (min a.text.length INDEX_KEY_MAX)).toNat
          (UInt8.ofNat (min b.text.length INDEX_KEY_MAX)).toNat)) with
    | .eq => _
    | order => order) = _
  rw [storedLength_toNat a.text.length, storedLength_toNat b.text.length,
    textKey_take (by omega) (by omega), textKey_take (by omega) (by omega)]

/-- The comparison of the keys of a type is one of numbers or of texts. -/
theorem compareKeys_lawful (type : ColType) :
    ∃ compare : Value → Value → Ordering, Std.TransCmp compare ∧
      ∀ x y : Value, x.type = type → y.type = type →
        compareKeys (makeKey x) (makeKey y) = compare x y := by
  by_cases hint : type.intLike = true
  · refine ⟨fun x y => compareNat (x.intValue.toUInt32 ^^^ 0x80000000).toNat
      (y.intValue.toUInt32 ^^^ 0x80000000).toNat, ?_, fun x y hx hy =>
      compareKeys_int (hx ▸ hint) (hy ▸ hint)⟩
    exact { eq_swap := Std.OrientedCmp.eq_swap, isLE_trans := Std.TransCmp.isLE_trans }
  · by_cases hfloat : type = .TYPE_FLOAT
    · refine ⟨fun x y => compareNat (floatOrder x.floatValue).toNat (floatOrder y.floatValue).toNat,
        ?_, fun x y hx hy => compareKeys_float (hx.trans hfloat) (hy.trans hfloat)⟩
      exact { eq_swap := Std.OrientedCmp.eq_swap, isLE_trans := Std.TransCmp.isLE_trans }
    · have htext : type = .TYPE_TEXT := by
        revert hfloat hint
        cases type <;> simp [ColType.intLike]
      refine ⟨fun x y => compareText (x.text.take INDEX_KEY_MAX) (y.text.take INDEX_KEY_MAX), ?_,
        fun x y hx hy => compareKeys_text (hx.trans htext) (hy.trans htext)⟩
      exact { eq_swap := Std.OrientedCmp.eq_swap, isLE_trans := Std.TransCmp.isLE_trans }

/-- The keys of one type are in a total order, -/
theorem compareKeys_swap (hab : a.type = b.type) :
    compareKeys (makeKey b) (makeKey a) = (compareKeys (makeKey a) (makeKey b)).swap := by
  obtain ⟨compare, hcompare, h⟩ := compareKeys_lawful b.type
  rw [h b a rfl hab, h a b hab rfl]
  exact Std.OrientedCmp.eq_swap

/-- in which different keys may be equal. -/
theorem compareKeys_trans (hab : a.type = b.type) (hbc : b.type = c.type)
    (h₁ : compareKeys (makeKey a) (makeKey b) ≠ .gt)
    (h₂ : compareKeys (makeKey b) (makeKey c) ≠ .gt) :
    compareKeys (makeKey a) (makeKey c) ≠ .gt := by
  obtain ⟨compare, hcompare, h⟩ := compareKeys_lawful b.type
  rw [h a b hab rfl] at h₁
  rw [h b c rfl hbc.symm] at h₂
  rw [h a c hab hbc.symm]
  exact Ordering.ne_gt_iff_isLE.mpr (Std.TransCmp.isLE_trans (Ordering.ne_gt_iff_isLE.mp h₁)
    (Ordering.ne_gt_iff_isLE.mp h₂))

end

/-! ### Values and keys -/

/-- The keys of two values of a column are in the order of the values, and a scan for the second
one takes the key of the first whenever the operator holds of them. -/
structure KeysFollow (a b : Value) : Prop where
  lt : compareValues a b = .lt → compareKeys (makeKey a) (makeKey b) ≠ .gt
  eq : compareValues a b = .eq → compareKeys (makeKey a) (makeKey b) = .eq
  scanned : ∀ op, indexableOperator op = true → comparePredicate a b op = .TRI_TRUE →
    scanVerdict op (makeKey b) (makeKey a) = .take

/-- The order of the keys does not contradict the order of the values. -/
def Follows (values keys : Ordering) : Prop :=
  (values = .lt → keys ≠ .gt) ∧ (values = .eq → keys = .eq) ∧ (values = .gt → keys ≠ .lt)

section
variable {a b : Value}

/-- What a scan for an operator needs is that the keys follow. -/
theorem Follows.scanned {op : CompareOp}
    (h : Follows (compareValues a b) (compareKeys (makeKey a) (makeKey b)))
    (hop : indexableOperator op = true) (htrue : comparePredicate a b op = .TRI_TRUE) :
    scanVerdict op (makeKey b) (makeKey a) = .take := by
  obtain ⟨hlt, heq, hgt⟩ := h
  have hop' : op ≠ .OP_IS_NULL ∧ op ≠ .OP_IS_NOT_NULL := by
    constructor <;> rintro rfl <;> exact absurd hop (by decide)
  have hholds : (op = .OP_EQ ∧ compareValues a b = .eq) ∨ (op = .OP_LT ∧ compareValues a b = .lt) ∨
      (op = .OP_LTE ∧ compareValues a b ≠ .gt) ∨ (op = .OP_GT ∧ compareValues a b = .gt) ∨
      (op = .OP_GTE ∧ compareValues a b ≠ .lt) := by
    unfold comparePredicate at htrue
    rw [if_neg hop'.1, if_neg hop'.2] at htrue
    split at htrue
    · exact absurd htrue (by simp)
    · split at htrue
      · exact absurd htrue (by simp)
      · cases op <;> simp [indexableOperator] at hop <;>
          simp only [TriState.ofBool] at htrue <;> split at htrue <;> simp_all
        exact compareValues_of_same ‹_›
  have htake : ∀ {order : Ordering}, order = compareValues a b →
      (order = .lt → compareKeys (makeKey a) (makeKey b) ≠ .gt) ∧
      (order = .eq → compareKeys (makeKey a) (makeKey b) = .eq) ∧
      (order = .gt → compareKeys (makeKey a) (makeKey b) ≠ .lt) := by
    rintro order rfl
    exact ⟨hlt, heq, hgt⟩
  unfold scanVerdict
  rcases hholds with ⟨rfl, h⟩ | ⟨rfl, h⟩ | ⟨rfl, h⟩ | ⟨rfl, h⟩ | ⟨rfl, h⟩
  · simp [heq h]
  · simp [hlt h]
  · have hkeys : compareKeys (makeKey a) (makeKey b) ≠ .gt := by
      cases hv : compareValues a b with
      | lt => exact hlt hv
      | eq => simp [heq hv]
      | gt => exact absurd hv h
    simp [hkeys]
  · simp [hgt h]
  · have hkeys : compareKeys (makeKey a) (makeKey b) ≠ .lt := by
      cases hv : compareValues a b with
      | lt => exact absurd hv h
      | eq => simp [heq hv]
      | gt => exact hgt hv
    simp [hkeys]

/-- Where the comparison of the keys follows that of the values, a scan does so too. -/
theorem Follows.keysFollow
    (h : Follows (compareValues a b) (compareKeys (makeKey a) (makeKey b))) : KeysFollow a b :=
  ⟨h.1, h.2.1, fun _ => h.scanned⟩

/-- Keys of integers, booleans and dates compare as the values do. -/
theorem int_follows (ha : a.type.intLike = true) (hb : b.type.intLike = true) :
    Follows (compareValues a b) (compareKeys (makeKey a) (makeKey b)) := by
  have hka := biased_toNat a.intValue
  have hkb := biased_toNat b.intValue
  rw [compareKeys_int ha hb, compareValues_int ha]
  refine ⟨fun h => ?_, fun h => ?_, fun h => ?_⟩
  · rw [Int.compare_eq_lt] at h
    rw [Ne, compareNat_gt]
    omega
  · rw [Int.compare_eq_eq] at h
    rw [compareNat_eq]
    omega
  · rw [Int.compare_eq_gt] at h
    rw [Ne, compareNat_lt]
    omega

/-- Keys of texts compare as the texts do, up to their width. -/
theorem text_follows (ha : a.type = .TYPE_TEXT) (hb : b.type = .TYPE_TEXT) :
    Follows (compareValues a b) (compareKeys (makeKey a) (makeKey b)) := by
  rw [compareValues_text ha, compareKeys_text ha hb]
  refine ⟨fun h => compareText_take _ (by simp [h]), fun h => ?_, fun h hlt => ?_⟩
  · rw [Std.LawfulEqCmp.eq_of_compare h]
    exact Std.ReflCmp.compare_self
  · have hback : compareText b.text a.text = .lt := Std.OrientedCmp.lt_of_gt h
    exact compareText_take INDEX_KEY_MAX (by simp [hback]) (Std.OrientedCmp.gt_of_lt hlt)

/-- Doubles follow, but for the two zeros, whose keys are apart. -/
theorem float_follows_iff (ha : a.type = .TYPE_FLOAT) (hb : b.type = .TYPE_FLOAT)
    (hna : isNaN a.floatValue = false) (hnb : isNaN b.floatValue = false) :
    Follows (compareValues a b) (compareKeys (makeKey a) (makeKey b)) ↔
      ¬(isZero a.floatValue = true ∧ isZero b.floatValue = true ∧ a.floatValue ≠ b.floatValue) := by
  rw [compareKeys_float ha hb, compareValues_float ha hna hnb]
  constructor
  · rintro ⟨-, heq, -⟩ ⟨hza, hzb, hne⟩
    have hkeys := heq (Int.compare_eq_eq.mpr (floatRank_zero hza hzb))
    exact hne (floatOrder_inj (compareNat_eq.mp hkeys))
  · refine fun hzeros => ⟨fun h => ?_, fun h => ?_, fun h => ?_⟩
    · have hkeys := floatOrder_lt (Int.compare_eq_lt.mp h)
      rw [Ne, compareNat_gt]
      omega
    · have hsame : a.floatValue = b.floatValue := by
        by_contra hne
        obtain ⟨hza, hzb⟩ := (floatRank_inj (Int.compare_eq_eq.mp h)).resolve_left hne
        exact hzeros ⟨hza, hzb, hne⟩
      rw [hsame]
      exact compareNat_eq.mpr rfl
    · have hkeys := floatOrder_lt (Int.compare_eq_gt.mp h)
      rw [Ne, compareNat_lt]
      omega

end

/-- Keys follow their values, and a scan misses nothing, for all values of a column but two zeros
of opposite sign; and the keys of a column are in a total preorder. -/
theorem keys_follow_iff {a b c : Value} (ha : a.isNull = false) (hb : b.isNull = false)
    (hab : a.type = b.type) (hbc : b.type = c.type)
    (hnan : a.type = .TYPE_FLOAT → isNaN a.floatValue = false ∧ isNaN b.floatValue = false) :
    (KeysFollow a b ↔ ¬OppositeZeros a b) ∧
      compareKeys (makeKey a) (makeKey a) = .eq ∧
      compareKeys (makeKey b) (makeKey a) = (compareKeys (makeKey a) (makeKey b)).swap ∧
      (compareKeys (makeKey a) (makeKey b) ≠ .gt → compareKeys (makeKey b) (makeKey c) ≠ .gt →
        compareKeys (makeKey a) (makeKey c) ≠ .gt) := by
  refine ⟨?_, ?_, compareKeys_swap hab, compareKeys_trans hab hbc⟩
  · by_cases hfloat : a.type = .TYPE_FLOAT
    · obtain ⟨hna, hnb⟩ := hnan hfloat
      have hfollows := float_follows_iff hfloat (hab ▸ hfloat) hna hnb
      have hzeros : OppositeZeros a b ↔ isZero a.floatValue = true ∧ isZero b.floatValue = true ∧
          a.floatValue ≠ b.floatValue := by
        unfold OppositeZeros
        simp [ha, hb, hfloat, ← hab]
      rw [hzeros, ← hfollows]
      refine ⟨fun h => ⟨h.lt, h.eq, fun hgt => ?_⟩, Follows.keysFollow⟩
      -- what is above is above for a scan as well
      have htrue : comparePredicate a b .OP_GT = .TRI_TRUE := by
        simp [comparePredicate, ha, hb, hab, hgt, TriState.ofBool]
      have htake := h.scanned .OP_GT rfl htrue
      intro hlt
      simp [scanVerdict, hlt] at htake
    · refine iff_of_true (Follows.keysFollow ?_) fun hzeros => hfloat hzeros.2.2.1
      by_cases hint : a.type.intLike = true
      · exact int_follows hint (hab ▸ hint)
      · have htext : a.type = .TYPE_TEXT := by
          revert hfloat hint
          cases a.type <;> simp [ColType.intLike]
        exact text_follows htext (hab ▸ htext)
  · have hself := compareKeys_swap (a := a) (b := a) rfl
    cases h : compareKeys (makeKey a) (makeKey a) <;> rw [h] at hself <;> simp_all

/-- The int `-1`, the int `1` and the int `7`. -/
theorem keys_follow_ints :
    KeysFollow { zeroValue with intValue := -1 } { zeroValue with intValue := 1 } ∧
      compareKeys (makeKey { zeroValue with intValue := -1 })
        (makeKey { zeroValue with intValue := 7 }) ≠ .gt :=
  have h := keys_follow_iff (a := { zeroValue with intValue := -1 })
    (b := { zeroValue with intValue := 1 }) (c := { zeroValue with intValue := 7 }) rfl rfl rfl rfl
    (fun h => nomatch h)
  ⟨h.1.mpr (by decide), h.2.2.2 (by decide) (by decide)⟩

/-- The key of `-0.0` lies before the key of `0.0`, although the two are equal. -/
theorem zeros_keys_apart :
    ¬∀ a b : Value, a.isNull = false → b.isNull = false → a.type = b.type →
      (a.type = .TYPE_FLOAT → isNaN a.floatValue = false ∧ isNaN b.floatValue = false) →
      KeysFollow a b := by
  intro h
  have hkeys := (h (setFloat 0x8000000000000000) (setFloat 0) rfl rfl rfl
    (fun _ => ⟨by decide, by decide⟩)).eq (by decide)
  exact absurd hkeys (by decide)

end DatabaseEngine
