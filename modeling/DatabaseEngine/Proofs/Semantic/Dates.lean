import DatabaseEngine.Model.Machine
import DatabaseEngine.Library.Calendar
import Mathlib.Data.Nat.Digits.Lemmas

/-!
# `DatabaseEngine.Proofs.Semantic.Dates`: day numbers and the calendar

A date is stored as the number of its day, and compared as that number.

* `daysFromCivil_eq`, `civilDate_spec`: the two functions of the source are the numbering of the
  calendar and the way back. The eras, the centuries and the years of four cancel in
  `yearOfEra_bounds`, the months in `monthOfYear_bounds`.
* `daysFromCivilInt_eq`, `civilFromDaysInt_eq`: every operation of theirs stays within its type.
* `textToDate_iff`: the texts that are taken for a date, and for which.
* `dateToText_dateText`, `compareText_dateText`: a date is printed as it was written, and is in the
  order of its text.
* `dates_exact`: all of it.
-/

set_option autoImplicit false

namespace DatabaseEngine

open Library

/-! ### Division -/

/-- Truncating division of a number shifted where it is negative is division that rounds down. -/
theorem shifted_tdiv (n k : Int) (hk : 0 < k) :
    (if 0 ≤ n then n else n - (k - 1)).tdiv k = n / k := by
  split
  · next h => exact Int.tdiv_eq_ediv_of_nonneg h
  · next h =>
    have hmod := Int.mul_ediv_add_emod n k
    have hlt := Int.emod_lt_of_pos n hk
    have hnonneg := Int.emod_nonneg n (Int.ne_of_gt hk)
    -- what is divided, with its sign changed
    have hshift : -(n - (k - 1)) = k * -(n / k) + (k - 1 - n % k) := by
      rw [Int.mul_neg]
      omega
    have hsmall : (k - 1 - n % k) / k = 0 := Int.ediv_eq_zero_of_lt (by omega) (by omega)
    have hneg : (n - (k - 1)).tdiv k = -((-(n - (k - 1))).tdiv k) := by
      rw [Int.neg_tdiv, Int.neg_neg]
    rw [hneg, Int.tdiv_eq_ediv_of_nonneg (by omega), hshift,
      Int.mul_add_ediv_left _ _ (Int.ne_of_gt hk), hsmall]
    omega

/-! ### From a date to its number -/

/-- The day number counts from 1970-01-01. -/
theorem daysFromCivil_eq {date : CivilDate} (h : date.Valid) :
    daysFromCivil date.year date.month date.day = date.dayNumber - 719468 := by
  have hmonth := h.month
  have hdiv : (if 0 ≤ date.marchYear then date.marchYear else date.marchYear - 399).tdiv 400
      = date.marchYear / 400 := shifted_tdiv date.marchYear 400 (by decide)
  have hmarch : date.month + (if 2 < date.month then -3 else 9) = date.marchMonth := by
    unfold CivilDate.marchMonth
    split <;> split <;> omega
  have hyear : (if date.month ≤ 2 then date.year - 1 else date.year) = date.marchYear := rfl
  unfold daysFromCivil
  simp only [hyear, hdiv, hmarch]
  unfold CivilDate.dayNumber CivilDate.dayOfYear daysBefore
  omega

/-! ### From a number to its date -/

/-- The years of a day of an era: whole centuries, whole years of four, and the years left. -/
theorem yearOfEra_parts (doe : Int) (h0 : 0 ≤ doe) (h1 : doe < 146096) :
    ∃ c s t y : Int, doe = 36524 * c + 1461 * s + t ∧ (0 ≤ c ∧ c ≤ 3) ∧ (0 ≤ s ∧ s ≤ 24) ∧
      (0 ≤ y ∧ y ≤ 3) ∧ 365 * y ≤ t ∧ (t < 365 * y + 365 ∨ y = 3 ∧ t = 1460 ∧ s < 24) ∧
      (doe - doe / 1460 + doe / 36524 - doe / 146096) / 365 = 100 * c + 4 * s + y := by
  refine ⟨doe / 36524, doe % 36524 / 1461, doe % 36524 % 1461,
    min (doe % 36524 % 1461 / 365) 3, by omega, by omega, by omega, by omega, by omega, by omega, ?_⟩
  generalize hc : doe / 36524 = c
  generalize hs : doe % 36524 / 1461 = s
  generalize ht : doe % 36524 % 1461 = t
  have hdoe : doe = 36524 * c + 1461 * s + t := by omega
  have hc' : 0 ≤ c ∧ c ≤ 3 := by omega
  have hs' : 0 ≤ s ∧ s ≤ 24 := by omega
  have ht' : 0 ≤ t ∧ t ≤ 1460 := by omega
  have he : doe / 146096 = 0 := by omega
  have hq : doe / 1460 = 25 * c + s + (24 * c + s + t) / 1460 := by omega
  rw [he, hq, hdoe]
  clear hq he hdoe hc hs ht
  -- one day is taken off at the end of a century, where the year has days enough
  generalize hd : (24 * c + s + t) / 1460 = d
  have hd' : d = 0 ∨ d = 1 := by omega
  rcases hd' with rfl | rfl <;> omega

/-- The year of a day of an era is the one that the day lies in. -/
theorem yearOfEra_bounds (doe : Int) (h0 : 0 ≤ doe) (h1 : doe < 146097) :
    let yoe := (doe - doe / 1460 + doe / 36524 - doe / 146096) / 365
    (0 ≤ yoe ∧ yoe ≤ 399) ∧ daysBefore yoe ≤ doe ∧ doe < daysBefore (yoe + 1) := by
  rcases Int.lt_or_eq_of_le (Int.le_sub_one_of_lt h1) with hlt | heq
  · obtain ⟨c, s, t, y, hdoe, hc, hs, hy, hlow, hhigh, hyoe⟩ := yearOfEra_parts doe h0 hlt
    intro yoe
    have hyoe : yoe = 100 * c + 4 * s + y := hyoe
    clear_value yoe
    have hbefore : daysBefore yoe = 36524 * c + 1461 * s + 365 * y := by
      have h4 : yoe / 4 = 25 * c + s := by omega
      have h100 : yoe / 100 = c := by omega
      have h400 : yoe / 400 = 0 := by omega
      unfold daysBefore
      omega
    refine ⟨by omega, by omega, ?_⟩
    rw [daysBefore_succ, hbefore, hdoe]
    rcases hhigh with hhigh | ⟨hy3, ht, hs24⟩
    · rcases yearLength_cases yoe with hlength | ⟨hlength, -⟩ <;> omega
    · -- the last year of four has a day more, as it does not end a century
      have hleap : Leap (yoe + 1) := Or.inl ⟨by omega, by omega⟩
      have hlength : yearLength yoe = 366 := if_pos hleap
      omega
  · -- the last day of the era
    rw [heq]
    decide

/-- The months from March on: the month and the day of a day of the year. -/
theorem monthOfYear_bounds (doy : Int) (h0 : 0 ≤ doy) (h1 : doy ≤ 365) :
    let mp := (5 * doy + 2) / 153
    (0 ≤ mp ∧ mp ≤ 11) ∧ (153 * mp + 2) / 5 ≤ doy ∧
      (mp < 11 → doy < (153 * (mp + 1) + 2) / 5) := by
  omega

/-- The date of a day number as a date of the calendar. -/
def civilDate (days : Int) : CivilDate :=
  ⟨(civilFromDays days).1, (civilFromDays days).2.1, (civilFromDays days).2.2⟩

/-- Every day number is that of a date there is. -/
theorem civilDate_spec (days : Int) :
    (civilDate days).Valid ∧ (civilDate days).dayNumber = days + 719468 := by
  have hdiv : (if 0 ≤ days + 719468 then days + 719468 else days + 719468 - 146096).tdiv 146097
      = (days + 719468) / 146097 := shifted_tdiv (days + 719468) 146097 (by decide)
  generalize hera : (days + 719468) / 146097 = era at hdiv
  generalize hdoe : days + 719468 - era * 146097 = doe
  have hyear := yearOfEra_bounds doe (by omega) (by omega)
  generalize hyoe : (doe - doe / 1460 + doe / 36524 - doe / 146096) / 365 = yoe at hyear
  obtain ⟨hrange, hlow, hhigh⟩ := hyear
  -- the days of the years before, within the era
  have hbefore : 365 * yoe + yoe / 4 - yoe / 100 = daysBefore yoe := by
    unfold daysBefore
    omega
  generalize hdoy : doe - daysBefore yoe = doy
  have hmonth := monthOfYear_bounds doy (by omega) (by
    have := daysBefore_succ yoe
    rcases yearLength_cases yoe with hlength | ⟨hlength, -⟩ <;> omega)
  generalize hmp : (5 * doy + 2) / 153 = mp at hmonth
  have hdate : civilDate days =
      ⟨yoe + era * 400 + (if mp + (if mp < 10 then 3 else -9) ≤ 2 then 1 else 0),
        mp + (if mp < 10 then 3 else -9), doy - (153 * mp + 2) / 5 + 1⟩ := by
    unfold civilDate civilFromDays
    simp only [hdiv, hdoe, hyoe, hbefore, hdoy, hmp]
  -- the year from March on and the month of it are the ones that were computed
  have hmarch : (civilDate days).marchYear = yoe + era * 400 ∧ (civilDate days).marchMonth = mp := by
    rw [hdate]
    unfold CivilDate.marchYear CivilDate.marchMonth
    dsimp only
    split <;> omega
  have hrange : 1 ≤ (civilDate days).month ∧ (civilDate days).month ≤ 12 := by
    rw [hdate]
    dsimp only
    omega
  have hday : (civilDate days).day = doy - (153 * mp + 2) / 5 + 1 := by rw [hdate]
  refine ⟨⟨hrange, ?_⟩, ?_⟩
  · -- a year of a later era is as long
    have hlength : yearLength (yoe + era * 400) = yearLength yoe := by
      have hera := daysBefore_era era (yoe + 1)
      have hera' := daysBefore_era era yoe
      rw [Int.add_right_comm, daysBefore_succ] at hera
      rw [daysBefore_succ] at hera
      omega
    rw [monthLength_march hrange, hmarch.1, hmarch.2, hlength, hday]
    have := daysBefore_succ yoe
    split <;> omega
  · unfold CivilDate.dayNumber CivilDate.dayOfYear
    rw [hmarch.1, hmarch.2, hday, daysBefore_era]
    omega

/-! ### The width of the types -/

/-- A number within an `int` passes the check of one. -/
theorem inInt_of {n : Int} (h : -2147483648 ≤ n ∧ n ≤ 2147483647) : inInt n = some n := if_pos h

/-- A number within a `long` passes the check of one. -/
theorem inLong_of {n : Int} (h : -9223372036854775808 ≤ n ∧ n ≤ 9223372036854775807) :
    inLong n = some n := if_pos h

section
variable {α : Type} {n : Int} {f : Int → Option α} {answer : Option α}

/-- One operation on `int`s, and what is computed from its result. -/
theorem int_step (h : -2147483648 ≤ n ∧ n ≤ 2147483647) (rest : ∀ m, m = n → f m = answer) :
    (inInt n).bind f = answer := by
  rw [inInt_of h]
  exact rest n rfl

/-- One step of a checked computation in `long`. -/
theorem long_step (h : -9223372036854775808 ≤ n ∧ n ≤ 9223372036854775807)
    (rest : ∀ m, m = n → f m = answer) : (inLong n).bind f = answer := by
  rw [inLong_of h]
  exact rest n rfl

/-- Division by an era, down, whatever the sign. -/
theorem era_step {less : Int} {fits : Int → Option Int} (hless : 0 ≤ less)
    (h : n < 0 → fits (n - less) = some (n - less))
    (rest : ∀ m, m.tdiv (less + 1) = n / (less + 1) → f m = answer) :
    (eraStart fits n less).bind f = answer := by
  have hdiv := shifted_tdiv n (less + 1) (by omega)
  rw [Int.add_sub_cancel] at hdiv
  have hstart : eraStart fits n less = some (if 0 ≤ n then n else n - less) := by
    unfold eraStart
    split
    · rfl
    · next hneg => exact h (Int.not_le.mp hneg)
  rw [hstart]
  exact rest _ hdiv

end

/-- No operation on the way to a day number overflows, but in the four hundred lowest years. -/
theorem daysFromCivilInt_eq {date : CivilDate} (h : date.Valid)
    (hyear : -2147483248 ≤ date.year ∧ date.year ≤ 2147483647) :
    daysFromCivilInt date.year date.month date.day =
      some (daysFromCivil date.year date.month date.day) := by
  have hmonth := marchMonth_bounds h.month
  have hday := dayOfYear_bounds h
  have hlength := yearLength_cases date.marchYear
  have hfrom : date.year - (if date.month ≤ 2 then 1 else 0) = date.marchYear := by
    unfold CivilDate.marchYear
    split <;> omega
  have hmarch : date.month + (if 2 < date.month then -3 else 9) = date.marchMonth := by
    have := h.month
    unfold CivilDate.marchMonth
    split <;> split <;> omega
  have hbounds : -2147483249 ≤ date.marchYear ∧ date.marchYear ≤ 2147483647 := by
    rw [← hfrom]
    split <;> omega
  unfold CivilDate.dayOfYear at hday
  unfold daysFromCivilInt
  rw [daysFromCivil_eq h, hfrom, hmarch]
  unfold CivilDate.dayNumber CivilDate.dayOfYear daysBefore
  clear hfrom hmarch hyear
  generalize date.marchYear = year at *
  generalize date.marchMonth = month at *
  generalize date.day = day at *
  refine int_step (by omega) fun year hyear => ?_
  subst hyear
  refine era_step (by decide) (fun _ => inInt_of (by omega)) fun start hstart => ?_
  have hstart : start.tdiv 400 = year / 400 := hstart
  rw [hstart]
  -- the year within its era, and the day within that year
  refine long_step (by omega) fun eraYears heraYears => ?_
  refine long_step (by omega) fun rest hrest => ?_
  refine int_step (by omega) fun yoe hyoe => ?_
  have hyoe' : 0 ≤ yoe ∧ yoe ≤ 399 := by omega
  rw [Int.tdiv_eq_ediv_of_nonneg hyoe'.1, Int.tdiv_eq_ediv_of_nonneg hyoe'.1]
  refine int_step (by omega) fun march hmarch => ?_
  refine int_step (by omega) fun scaled hscaled => ?_
  refine int_step (by omega) fun above habove => ?_
  rw [Int.tdiv_eq_ediv_of_nonneg (show 0 ≤ above by omega)]
  refine int_step (by omega) fun upto hupto => ?_
  refine int_step (by omega) fun doy hdoy => ?_
  refine int_step (by omega) fun days₁ hdays₁ => ?_
  refine int_step (by omega) fun days₂ hdays₂ => ?_
  refine int_step (by omega) fun days₃ hdays₃ => ?_
  refine int_step (by omega) fun doe hdoe => ?_
  refine long_step (by omega) fun eraDays heraDays => ?_
  refine long_step (by omega) fun sum hsum => ?_
  rw [inLong_of (by omega)]
  congr 1
  omega

/-- No operation on the way to a date overflows. -/
theorem civilFromDaysInt_eq {days : Int} (h : -2147483648 ≤ days ∧ days ≤ 2147483647) :
    civilFromDaysInt days = some (civilFromDays days) := by
  have hstart : (if 0 ≤ days + 719468 then days + 719468 else days + 719468 - 146096).tdiv 146097
      = (days + 719468) / 146097 := shifted_tdiv (days + 719468) 146097 (by decide)
  unfold civilFromDaysInt
  refine long_step (by omega) fun z hz => ?_
  refine era_step (by decide) (fun _ => inLong_of (by omega)) fun start hera => ?_
  have hera : start.tdiv 146097 = z / 146097 := hera
  rw [hera]
  unfold civilFromDays
  dsimp only
  rw [hstart, ← hz]
  generalize hera' : z / 146097 = era
  refine long_step (by omega) fun eraDays heraDays => ?_
  refine long_step (by omega) fun rest hrest => ?_
  refine int_step (by omega) fun doe hdoe => ?_
  have hdoe' : doe = z - era * 146097 := by omega
  have hdoe'' : 0 ≤ doe ∧ doe < 146097 := by omega
  have hyear := yearOfEra_bounds doe hdoe''.1 hdoe''.2
  rw [← hdoe']
  simp only [Int.tdiv_eq_ediv_of_nonneg hdoe''.1]
  clear hera hstart hrest heraDays hdoe
  refine int_step (by omega) fun years₁ hyears₁ => ?_
  refine int_step (by omega) fun years₂ hyears₂ => ?_
  refine int_step (by omega) fun years hyears => ?_
  have heq : years = doe - doe / 1460 + doe / 36524 - doe / 146096 := by omega
  rw [← heq] at hyear ⊢
  clear hyears hyears₁ hyears₂
  rw [Int.tdiv_eq_ediv_of_nonneg (show 0 ≤ years by omega)]
  clear heq
  generalize years / 365 = yoe at *
  have hlength := daysBefore_succ yoe
  have hlengths := yearLength_cases yoe
  unfold daysBefore at hyear hlength
  -- the day within the year
  rw [Int.tdiv_eq_ediv_of_nonneg hyear.1.1, Int.tdiv_eq_ediv_of_nonneg hyear.1.1]
  refine int_step (by omega) fun before₁ hbefore₁ => ?_
  refine int_step (by omega) fun before₂ hbefore₂ => ?_
  refine int_step (by omega) fun before hbefore => ?_
  have heq : before = 365 * yoe + yoe / 4 - yoe / 100 := by omega
  rw [← heq]
  clear hbefore hbefore₁ hbefore₂
  refine int_step (by omega) fun doy hdoy => ?_
  rw [← hdoy]
  have hdays : 0 ≤ doy ∧ doy ≤ 365 := by omega
  clear hlength hdoy heq
  refine int_step (by omega) fun fives₁ hfives₁ => ?_
  refine int_step (by omega) fun fives hfives => ?_
  rw [← hfives₁, ← hfives, Int.tdiv_eq_ediv_of_nonneg (show 0 ≤ fives by omega)]
  have hmonths : 0 ≤ fives / 153 ∧ fives / 153 ≤ 11 := by omega
  clear hfives hfives₁
  generalize fives / 153 = mp at *
  refine int_step (by omega) fun scaled₁ hscaled₁ => ?_
  refine int_step (by omega) fun scaled hscaled => ?_
  rw [← hscaled₁, ← hscaled, Int.tdiv_eq_ediv_of_nonneg (show 0 ≤ scaled by omega)]
  refine int_step (by omega) fun day₁ hday₁ => ?_
  refine int_step (by omega) fun day hday => ?_
  rw [← hday₁, ← hday]
  have hturn : (if mp < 10 then (3 : Int) else -9) = 3 ∨ (if mp < 10 then (3 : Int) else -9) = -9 := by
    split <;> simp
  refine int_step (by omega) fun month hmonth => ?_
  rw [← hmonth]
  -- the year
  have hera'' : -14700 ≤ era ∧ era ≤ 14704 := by omega
  refine long_step (by omega) fun eraYears heraYears => ?_
  refine long_step (by omega) fun year₁ hyear₁ => ?_
  refine int_step (by omega) fun year₂ hyear₂ => ?_
  have hlast : (if month ≤ 2 then (1 : Int) else 0) = 1 ∨ (if month ≤ 2 then (1 : Int) else 0) = 0 := by
    split <;> simp
  refine int_step (by omega) fun year hyear' => ?_
  rw [hyear', hyear₂, hyear₁, heraYears]

/-! ### Digits -/

/-- The lowest decimal digits of a number, so many of them. -/
def digitsOf : Nat → Nat → List UInt8
  | 0, _ => []
  | count + 1, n => digitsOf count (n / 10) ++ [UInt8.ofNat (48 + n % 10)]

/-- A number is written in as many digits as asked for. -/
@[simp] theorem digitsOf_length (count n : Nat) : (digitsOf count n).length = count := by
  induction count generalizing n with
  | zero => rfl
  | succ count ih => rw [digitsOf, List.length_append, ih]; rfl

/-- A digit's byte is its number behind the byte of 0. -/
theorem digit_toNat (n : Nat) : (UInt8.ofNat (48 + n % 10)).toNat = 48 + n % 10 := by
  rw [UInt8.toNat_ofNat']
  omega

/-- Reading one digit more multiplies by ten and adds it. -/
theorem readDigits_append (digits : List UInt8) (c : UInt8) :
    readDigits (digits ++ [c]) =
      (readDigits digits).bind fun n =>
        if c < 48 ∨ 57 < c then none else some (n * 10 + (c.toNat - 48)) := by
  unfold readDigits
  rw [List.foldl_append]
  rfl

/-- Digits that were written are read back. -/
theorem readDigits_digitsOf (count n : Nat) :
    readDigits (digitsOf count n) = some (n % 10 ^ count) := by
  induction count generalizing n with
  | zero => rw [digitsOf, Nat.pow_zero, Nat.mod_one]; rfl
  | succ count ih =>
    have hdigit := digit_toNat n
    rw [digitsOf, readDigits_append, ih, Option.bind_some, if_neg, hdigit, Nat.pow_succ',
      Nat.mod_mul]
    · congr 1
      omega
    · rw [UInt8.lt_iff_toNat_lt, UInt8.lt_iff_toNat_lt, hdigit]
      show ¬(_ < 48 ∨ 57 < _)
      omega

/-- What is read is written as it stood. -/
theorem readDigits_some {digits : List UInt8} {n : Nat} (h : readDigits digits = some n) :
    n < 10 ^ digits.length ∧ digitsOf digits.length n = digits := by
  induction digits using List.reverseRecOn generalizing n with
  | nil =>
    cases h
    exact ⟨by decide, rfl⟩
  | append_singleton digits c ih =>
    rw [readDigits_append] at h
    obtain ⟨high, hhigh, hc⟩ := Option.bind_eq_some_iff.mp h
    split at hc
    · cases hc
    · next hdigit =>
      obtain ⟨hlt, hdigits⟩ := ih hhigh
      rw [UInt8.lt_iff_toNat_lt, UInt8.lt_iff_toNat_lt] at hdigit
      have hdigit : ¬(c.toNat < 48 ∨ 57 < c.toNat) := hdigit
      have hn : high * 10 + (c.toNat - 48) = n := Option.some.inj hc
      have hdiv : n / 10 = high := by omega
      have hmod : 48 + n % 10 = c.toNat := by omega
      rw [List.length_append, List.length_singleton]
      constructor
      · rw [Nat.pow_succ]
        omega
      · rw [digitsOf, hdiv, hdigits, hmod, UInt8.ofNat_toNat]

/-- Zero is written in zeros. -/
theorem digitsOf_zero (count : Nat) : digitsOf count 0 = List.replicate count 48 := by
  induction count with
  | zero => rfl
  | succ count ih => rw [digitsOf, Nat.zero_div, ih, List.replicate_succ']; rfl

/-- Below ten, a number is one digit. -/
theorem decimal_small {n : Nat} (h : n < 10) : decimal n = [UInt8.ofNat (48 + n)] := by
  unfold decimal
  split
  · next hzero => rw [hzero]; rfl
  · next hpos => rw [Nat.digits_of_lt 10 n hpos h]; rfl

/-- From ten on, the last digit stands behind the others. -/
theorem decimal_large {n : Nat} (h : 10 ≤ n) :
    decimal n = decimal (n / 10) ++ [UInt8.ofNat (48 + n % 10)] := by
  unfold decimal
  rw [if_neg (by omega), if_neg (by omega), Nat.digits_of_two_le_of_pos (by decide) (by omega)]
  simp

/-- `%0*u` of a number that fits the width. -/
theorem padded_eq {count n : Nat} (hcount : 0 < count) (h : n < 10 ^ count) :
    padded count n = digitsOf count n := by
  induction count generalizing n with
  | zero => exact absurd hcount (Nat.lt_irrefl 0)
  | succ count ih =>
    by_cases hn : n < 10
    · unfold padded
      rw [decimal_small hn, digitsOf, Nat.div_eq_of_lt hn, Nat.mod_eq_of_lt hn, digitsOf_zero]
      rfl
    · have hlast := decimal_large (Nat.le_of_not_lt hn)
      have hpos : 0 < count := by
        rcases Nat.eq_zero_or_pos count with rfl | hpos
        · exact absurd h hn
        · exact hpos
      have hdiv := ih hpos (n := n / 10) (by rw [Nat.pow_succ] at h; omega)
      unfold padded at hdiv ⊢
      rw [hlast, List.length_append, List.length_singleton, Nat.succ_sub_succ, ← List.append_assoc,
        hdiv, digitsOf]

/-- Texts of one length are compared first, what follows only when they are equal. -/
theorem compareText_append {a b : List UInt8} (h : a.length = b.length) (c d : List UInt8) :
    compareText (a ++ c) (b ++ d) = (compareText a b).then (compareText c d) := by
  induction a generalizing b with
  | nil =>
    cases List.eq_nil_of_length_eq_zero h.symm
    rfl
  | cons x a ih =>
    cases b with
    | nil => cases h
    | cons y b =>
      have hrest := ih (Nat.succ.inj h)
      rw [List.cons_append, List.cons_append, compareText, compareText, hrest]
      split
      · rfl
      · split <;> rfl

/-- Numbers written with as many digits are in the order of their texts. -/
theorem compareText_digitsOf (count : Nat) {m n : Nat} (hm : m < 10 ^ count) (hn : n < 10 ^ count) :
    compareText (digitsOf count m) (digitsOf count n) = compare m n := by
  induction count generalizing m n with
  | zero =>
    have hm : m = 0 := by simpa using hm
    have hn : n = 0 := by simpa using hn
    rw [hm, hn]
    rfl
  | succ count ih =>
    rw [Nat.pow_succ] at hm hn
    have hlast : compareText [UInt8.ofNat (48 + m % 10)] [UInt8.ofNat (48 + n % 10)]
        = compare (m % 10) (n % 10) := by
      have hlt : ∀ k l : Nat, UInt8.ofNat (48 + k % 10) < UInt8.ofNat (48 + l % 10) ↔
          k % 10 < l % 10 := by
        intro k l
        rw [UInt8.lt_iff_toNat_lt, digit_toNat, digit_toNat]
        omega
      unfold compareText
      simp only [hlt]
      rcases Nat.lt_trichotomy (m % 10) (n % 10) with h | h | h
      · rw [if_pos h, Nat.compare_eq_lt.mpr h]
      · rw [if_neg (by omega), if_neg (by omega), Nat.compare_eq_eq.mpr h]
        rfl
      · rw [if_neg (by omega), if_pos h, Nat.compare_eq_gt.mpr h]
    rw [digitsOf, digitsOf, compareText_append (by simp), ih (by omega) (by omega), hlast]
    -- the higher digits decide first
    rcases Nat.lt_trichotomy (m / 10) (n / 10) with h | h | h
    · rw [Nat.compare_eq_lt.mpr h, Nat.compare_eq_lt.mpr (show m < n by omega)]
      rfl
    · rw [Nat.compare_eq_eq.mpr h]
      rcases Nat.lt_trichotomy (m % 10) (n % 10) with h' | h' | h'
      · rw [Nat.compare_eq_lt.mpr h', Nat.compare_eq_lt.mpr (show m < n by omega)]
        rfl
      · rw [Nat.compare_eq_eq.mpr h', Nat.compare_eq_eq.mpr (show m = n by omega)]
        rfl
      · rw [Nat.compare_eq_gt.mpr h', Nat.compare_eq_gt.mpr (show n < m by omega)]
        rfl
    · rw [Nat.compare_eq_gt.mpr h, Nat.compare_eq_gt.mpr (show n < m by omega)]
      rfl

/-! ### Texts -/

/-- A date of the years from 0 to 9999 as it is written. -/
def dateText (date : CivilDate) : List UInt8 :=
  digitsOf 4 date.year.toNat ++ 45 :: (digitsOf 2 date.month.toNat ++ 45 :: digitsOf 2 date.day.toNat)

/-- A date of the calendar that four digits are enough for. -/
def FourDigits (date : CivilDate) : Prop := date.Valid ∧ 0 ≤ date.year ∧ date.year ≤ 9999

/-- The table of month lengths is right for every year. -/
theorem daysInMonth_eq (year month : Nat) (h : 1 ≤ month ∧ month ≤ 12) :
    (daysInMonth year month : Int) = monthLength year month := by
  have hleap : Leap (year : Int) ↔ year % 4 = 0 ∧ year % 100 ≠ 0 ∨ year % 400 = 0 := by
    unfold Leap
    omega
  have hcases : month = 1 ∨ month = 2 ∨ month = 3 ∨ month = 4 ∨ month = 5 ∨ month = 6 ∨ month = 7 ∨
      month = 8 ∨ month = 9 ∨ month = 10 ∨ month = 11 ∨ month = 12 := by
    omega
  unfold daysInMonth monthLength
  rcases hcases with rfl | rfl | rfl | rfl | rfl | rfl | rfl | rfl | rfl | rfl | rfl | rfl
  case inr.inl =>
    show ((if 2 = 2 ∧ _ then 29 else 28 : Nat) : Int) = if Leap (year : Int) then 29 else 28
    by_cases h : Leap (year : Int)
    · rw [if_pos h, if_pos ⟨rfl, hleap.mp h⟩]
      rfl
    · rw [if_neg h, if_neg fun h' => h (hleap.mpr h'.2)]
      rfl
  all_goals
    rw [if_neg fun h => absurd h.1 (by decide)]
    rfl

/-- The day number of a date with a four-digit year is an `int`. -/
theorem dayNumber_fits {date : CivilDate} (h : FourDigits date) :
    (Int32.ofInt (date.dayNumber - 719468)).toInt = date.dayNumber - 719468 := by
  have hmonth := marchMonth_bounds h.1.month
  have hday := dayOfYear_bounds h.1
  have hlength := yearLength_cases date.marchYear
  have hyear : -1 ≤ date.marchYear ∧ date.marchYear ≤ 9999 := by
    have := h.2
    unfold CivilDate.marchYear
    split <;> omega
  refine Int32.toInt_ofInt_of_le ?_ ?_
  · unfold CivilDate.dayNumber daysBefore
    omega
  · unfold CivilDate.dayNumber daysBefore
    omega

/-- A text that is taken for a date, as its three numbers. -/
theorem textToDate_ok {text : List UInt8} {days : Int32} (h : textToDate text = .ok days) :
    ∃ year month day : Nat, readDigits (text.take 4) = some year ∧
      readDigits ((text.drop 5).take 2) = some month ∧
      readDigits ((text.drop 8).take 2) = some day ∧
      (text.length = 10 ∧ text[4]? = some 45 ∧ text[7]? = some 45) ∧
      (1 ≤ month ∧ month ≤ 12) ∧ (1 ≤ day ∧ day ≤ daysInMonth year month) ∧
      days = Int32.ofInt (daysFromCivil year month day) := by
  unfold textToDate at h
  split at h
  · cases h
  · next hshape =>
    simp only [not_or, not_not] at hshape
    split at h
    · next year month day hyear hmonth hday =>
      split at h
      · cases h
      · split at h
        · cases h
        · refine ⟨year, month, day, hyear, hmonth, hday, hshape, by omega, by omega, ?_⟩
          exact (Except.ok.inj h).symm
    · cases h

/-- The ten bytes, cut at the dashes. -/
theorem text_parts {text : List UInt8} (h : text.length = 10 ∧ text[4]? = some 45 ∧ text[7]? = some 45) :
    text = text.take 4 ++ 45 :: ((text.drop 5).take 2 ++ 45 :: (text.drop 8).take 2) := by
  obtain ⟨hlength, hfirst, hsecond⟩ := h
  match text, hlength with
  | [_, _, _, _, _, _, _, _, _, _], _ =>
    have hfirst := Option.some.inj hfirst
    have hsecond := Option.some.inj hsecond
    rw [hfirst, hsecond]
    rfl

/-- A date that was written is read back. -/
theorem textToDate_dateText {date : CivilDate} (h : FourDigits date) :
    textToDate (dateText date) = .ok (Int32.ofInt (date.dayNumber - 719468)) := by
  obtain ⟨hvalid, hyear, hyear'⟩ := h
  have hmonth := hvalid.month
  have hday := hvalid.day
  have hnat : ((date.year.toNat : Int) = date.year ∧ (date.month.toNat : Int) = date.month) ∧
      (date.day.toNat : Int) = date.day :=
    ⟨⟨Int.toNat_of_nonneg hyear, Int.toNat_of_nonneg (by omega)⟩, Int.toNat_of_nonneg (by omega)⟩
  have hlength := daysInMonth_eq date.year.toNat date.month.toNat (by omega)
  rw [hnat.1.1, hnat.1.2] at hlength
  have hlong := monthLength_le date.year date.month
  have hread := readDigits_digitsOf 4 date.year.toNat
  have hread' := readDigits_digitsOf 2 date.month.toNat
  have hread'' := readDigits_digitsOf 2 date.day.toNat
  rw [Nat.mod_eq_of_lt (show _ < 10 ^ 4 by omega)] at hread
  rw [Nat.mod_eq_of_lt (show _ < 10 ^ 2 by omega)] at hread' hread''
  have hfour := digitsOf_length 4 date.year.toNat
  have htwo := digitsOf_length 2 date.month.toNat
  have hlast := digitsOf_length 2 date.day.toNat
  unfold dateText
  generalize digitsOf 4 date.year.toNat = y at *
  generalize digitsOf 2 date.month.toNat = m at *
  generalize digitsOf 2 date.day.toNat = d at *
  match y, m, d, hfour, htwo, hlast with
  | [y₀, y₁, y₂, y₃], [m₀, m₁], [d₀, d₁], _, _, _ =>
    unfold textToDate
    rw [if_neg (by simp)]
    dsimp only [List.cons_append, List.nil_append, List.take, List.drop]
    rw [hread, hread', hread'']
    dsimp only
    rw [if_neg (by omega), if_neg (by omega), hnat.1.1, hnat.1.2, hnat.2, daysFromCivil_eq hvalid]

/-- The years that day numbers of 32 bits lie in. -/
theorem year_bounds {date : CivilDate} (h : date.Valid)
    (hdays : -2147483648 ≤ date.dayNumber - 719468 ∧ date.dayNumber - 719468 ≤ 2147483647) :
    -5900000 ≤ date.year ∧ date.year ≤ 5900000 := by
  have hday := dayOfYear_bounds h
  have hlength := yearLength_cases date.marchYear
  have hyear : date.marchYear = date.year ∨ date.marchYear = date.year - 1 := by
    unfold CivilDate.marchYear
    split <;> simp
  unfold CivilDate.dayNumber daysBefore at hdays
  omega

/-- The date of a date's number is the date. -/
theorem civilDate_dayNumber {date : CivilDate} (h : date.Valid) :
    civilDate (date.dayNumber - 719468) = date := by
  obtain ⟨hvalid, hnumber⟩ := civilDate_spec (date.dayNumber - 719468)
  exact dayNumber_inj hvalid h (by omega)

/-- What is taken for a date is one, in ten bytes. -/
theorem textToDate_iff (text : List UInt8) (days : Int32) :
    textToDate text = .ok days ↔
      ∃ date, FourDigits date ∧ text = dateText date ∧ days.toInt = date.dayNumber - 719468 := by
  constructor
  · intro h
    obtain ⟨year, month, day, hyear, hmonth, hday, hshape, hmonth', hday', rfl⟩ := textToDate_ok h
    have hparts := text_parts hshape
    have hlength := hshape.1
    have hfour : (text.take 4).length = 4 := by rw [List.length_take]; omega
    have htwo : ((text.drop 5).take 2).length = 2 := by
      rw [List.length_take, List.length_drop]; omega
    have hlast : ((text.drop 8).take 2).length = 2 := by
      rw [List.length_take, List.length_drop]; omega
    obtain ⟨hlt, hdigits⟩ := readDigits_some hyear
    obtain ⟨-, hdigits'⟩ := readDigits_some hmonth
    obtain ⟨-, hdigits''⟩ := readDigits_some hday
    rw [hfour] at hlt hdigits
    rw [htwo] at hdigits'
    rw [hlast] at hdigits''
    have hvalid : CivilDate.Valid ⟨year, month, day⟩ := by
      have := daysInMonth_eq year month hmonth'
      exact ⟨by dsimp only; omega, by dsimp only; omega⟩
    have hwritten : FourDigits ⟨year, month, day⟩ :=
      ⟨hvalid, Int.natCast_nonneg year, by dsimp only; omega⟩
    refine ⟨⟨year, month, day⟩, hwritten, ?_, ?_⟩
    · show text = digitsOf 4 year ++ 45 :: (digitsOf 2 month ++ 45 :: digitsOf 2 day)
      rw [hdigits, hdigits', hdigits'']
      exact hparts
    · have hnumber := daysFromCivil_eq hvalid
      dsimp only at hnumber
      rw [hnumber]
      exact dayNumber_fits hwritten
  · rintro ⟨date, hwritten, rfl, hdays⟩
    rw [textToDate_dateText hwritten, ← hdays, Int32.ofInt_toInt]

/-- A day is written as its date. -/
theorem dateToText_dateText {date : CivilDate} (h : FourDigits date) {days : Int32}
    (hdays : days.toInt = date.dayNumber - 719468) : dateToText days = dateText date := by
  have hdate := civilDate_dayNumber h.1
  obtain ⟨hvalid, hyear, hyear'⟩ := h
  have hmonth := hvalid.month
  have hday := hvalid.day
  have hlong := monthLength_le date.year date.month
  have hcivil : civilFromDays days.toInt = (date.year, date.month, date.day) := by
    have hfields : civilFromDays (date.dayNumber - 719468) =
        ((civilDate (date.dayNumber - 719468)).year, (civilDate (date.dayNumber - 719468)).month,
          (civilDate (date.dayNumber - 719468)).day) := rfl
    rw [hdays, hfields, hdate]
  have hunsigned : ∀ (n : Int) (m : Nat), 0 ≤ n → n < m → m ≤ 10000 →
      (n % 2 ^ 32).toNat % m = n.toNat := by
    intro n m hn hm hbound
    rw [Int.emod_eq_of_lt hn (by omega), Nat.mod_eq_of_lt (by omega)]
  unfold dateToText
  rw [hcivil]
  dsimp only
  rw [hunsigned _ _ hyear (by omega) (by decide), hunsigned _ _ (by omega) (by omega) (by decide),
    hunsigned _ _ (by omega) (by omega) (by decide), padded_eq (by decide) (by omega),
    padded_eq (by decide) (by omega), padded_eq (by decide) (by omega)]
  simp [dateText]

/-- Texts with one first byte compare by the rest. -/
theorem compareText_cons (c : UInt8) (a b : List UInt8) :
    compareText (c :: a) (c :: b) = compareText a b := by
  have hself : ¬c < c := by
    rw [UInt8.lt_iff_toNat_lt]
    exact Nat.lt_irrefl _
  rw [compareText, if_neg hself, if_neg hself]

/-- The order of the calendar, field by field. -/
theorem compare_dayNumber {a b : CivilDate} (ha : a.Valid) (hb : b.Valid) :
    compare a.dayNumber b.dayNumber =
      (compare a.year b.year).then ((compare a.month b.month).then (compare a.day b.day)) := by
  by_cases heq : a = b
  · rw [heq]
    simp
  · rcases CivilDate.before_total heq with hlt | hgt
    · rw [compare_lt_iff_lt.mpr (dayNumber_lt ha hb hlt)]
      rcases hlt with hyear | ⟨hyear, hmonth | ⟨hmonth, hday⟩⟩
      · rw [compare_lt_iff_lt.mpr hyear]
        rfl
      · rw [compare_eq_iff_eq.mpr hyear, compare_lt_iff_lt.mpr hmonth]
        rfl
      · rw [compare_eq_iff_eq.mpr hyear, compare_eq_iff_eq.mpr hmonth, compare_lt_iff_lt.mpr hday]
        rfl
    · rw [compare_gt_iff_gt.mpr (dayNumber_lt hb ha hgt)]
      rcases hgt with hyear | ⟨hyear, hmonth | ⟨hmonth, hday⟩⟩
      · rw [compare_gt_iff_gt.mpr hyear]
        rfl
      · rw [compare_eq_iff_eq.mpr hyear.symm, compare_gt_iff_gt.mpr hmonth]
        rfl
      · rw [compare_eq_iff_eq.mpr hyear.symm, compare_eq_iff_eq.mpr hmonth.symm,
          compare_gt_iff_gt.mpr hday]
        rfl

/-- Numbers from 0 on compare as natural numbers do. -/
theorem compare_toNat {m n : Int} (hm : 0 ≤ m) (hn : 0 ≤ n) : compare m.toNat n.toNat = compare m n := by
  rcases Int.lt_trichotomy m n with h | h | h
  · rw [compare_lt_iff_lt.mpr h, Nat.compare_eq_lt.mpr (by omega)]
  · rw [h, compare_eq_iff_eq.mpr rfl, compare_eq_iff_eq.mpr rfl]
  · rw [compare_gt_iff_gt.mpr h, Nat.compare_eq_gt.mpr (by omega)]

/-- Dates are in the order of their texts. -/
theorem compareText_dateText {a b : CivilDate} (ha : FourDigits a) (hb : FourDigits b) :
    compareText (dateText a) (dateText b) = compare a.dayNumber b.dayNumber := by
  have hmonth := ha.1.month
  have hbmonth := hb.1.month
  have hday := ha.1.day
  have hbday := hb.1.day
  have hlong := monthLength_le a.year a.month
  have hblong := monthLength_le b.year b.month
  have hyear := ha.2
  have hbyear := hb.2
  have hfield : ∀ (count : Nat) (m n : Int), 0 ≤ m → 0 ≤ n → m < 10 ^ count → n < 10 ^ count →
      compareText (digitsOf count m.toNat) (digitsOf count n.toNat) = compare m n := by
    intro count m n hm hn hm' hn'
    have hcast : ((10 ^ count : Nat) : Int) = 10 ^ count := by simp
    rw [compareText_digitsOf count (by omega) (by omega), compare_toNat hm hn]
  rw [compare_dayNumber ha.1 hb.1]
  unfold dateText
  rw [compareText_append (by simp), compareText_cons, compareText_append (by simp), compareText_cons,
    hfield 4 _ _ (by omega) (by omega) (by omega) (by omega),
    hfield 2 _ _ (by omega) (by omega) (by omega) (by omega),
    hfield 2 _ _ (by omega) (by omega) (by omega) (by omega)]

/-! ### Dates as a whole -/

/-- Two values of a date column that stand for two texts. -/
def Dated (value : Value) (text : List UInt8) : Prop :=
  value.isNull = false ∧ value.type = .TYPE_DATE ∧ textToDate text = .ok value.intValue

/-- Day numbers and dates are the same thing twice, computed without overflow; a text is a date
exactly when it names one, and is what the date is printed as; and dates compare as their texts
do. -/
theorem dates_exact :
    (∀ days : Int32, (civilDate days.toInt).Valid ∧
      daysFromCivil (civilDate days.toInt).year (civilDate days.toInt).month
        (civilDate days.toInt).day = days.toInt) ∧
    (∀ date : CivilDate, date.Valid →
      civilDate (daysFromCivil date.year date.month date.day) = date) ∧
    (∀ a b : CivilDate, a.Valid → b.Valid → a.Before b →
      daysFromCivil a.year a.month a.day < daysFromCivil b.year b.month b.day) ∧
    (∀ days : Int32, civilFromDaysInt days.toInt = some (civilFromDays days.toInt) ∧
      daysFromCivilInt (civilDate days.toInt).year (civilDate days.toInt).month
        (civilDate days.toInt).day = some days.toInt) ∧
    (∀ date : CivilDate, date.Valid → -2147483248 ≤ date.year ∧ date.year ≤ 2147483647 →
      daysFromCivilInt date.year date.month date.day =
        some (daysFromCivil date.year date.month date.day)) ∧
    (∀ text, (∃ days, textToDate text = .ok days) ↔ ∃ date, FourDigits date ∧ text = dateText date) ∧
    (∀ text days, textToDate text = .ok days → dateToText days = text) ∧
    (∀ a b s t, Dated a s → Dated b t → compareValues a b = compareText s t) := by
  refine ⟨?_, ?_, ?_, ?_, ?_, ?_, ?_, ?_⟩
  · intro days
    obtain ⟨hvalid, hnumber⟩ := civilDate_spec days.toInt
    exact ⟨hvalid, by rw [daysFromCivil_eq hvalid]; omega⟩
  · intro date hvalid
    rw [daysFromCivil_eq hvalid]
    exact civilDate_dayNumber hvalid
  · intro a b ha hb h
    have hlt := dayNumber_lt ha hb h
    rw [daysFromCivil_eq ha, daysFromCivil_eq hb]
    omega
  · intro days
    have hrange : -2147483648 ≤ days.toInt ∧ days.toInt ≤ 2147483647 :=
      ⟨days.le_toInt, Int.le_of_lt_add_one days.toInt_lt⟩
    obtain ⟨hvalid, hnumber⟩ := civilDate_spec days.toInt
    have hyear := year_bounds hvalid (by omega)
    refine ⟨civilFromDaysInt_eq hrange, ?_⟩
    rw [daysFromCivilInt_eq hvalid (by omega), daysFromCivil_eq hvalid]
    congr 1
    omega
  · intro date hvalid hyear
    exact daysFromCivilInt_eq hvalid hyear
  · intro text
    constructor
    · rintro ⟨days, h⟩
      obtain ⟨date, hwritten, htext, -⟩ := (textToDate_iff text days).mp h
      exact ⟨date, hwritten, htext⟩
    · rintro ⟨date, hwritten, rfl⟩
      exact ⟨_, textToDate_dateText hwritten⟩
  · intro text days h
    obtain ⟨date, hwritten, rfl, hdays⟩ := (textToDate_iff text days).mp h
    exact dateToText_dateText hwritten hdays
  · rintro a b s t ⟨-, htype, hs⟩ ⟨-, -, ht⟩
    obtain ⟨date, hwritten, rfl, hdays⟩ := (textToDate_iff s a.intValue).mp hs
    obtain ⟨date', hwritten', rfl, hdays'⟩ := (textToDate_iff t b.intValue).mp ht
    have hlt : a.intValue < b.intValue ↔ date.dayNumber < date'.dayNumber := by
      rw [Int32.lt_iff_toInt_lt]
      omega
    have hgt : b.intValue < a.intValue ↔ date'.dayNumber < date.dayNumber := by
      rw [Int32.lt_iff_toInt_lt]
      omega
    rw [compareText_dateText hwritten hwritten']
    unfold compareValues
    rw [htype, if_pos (show ColType.TYPE_DATE.intLike = true from rfl)]
    simp only [hlt, hgt]
    rcases Int.lt_trichotomy date.dayNumber date'.dayNumber with h | h | h
    · rw [if_pos h, compare_lt_iff_lt.mpr h]
    · rw [if_neg (by omega), if_neg (by omega), compare_eq_iff_eq.mpr h]
    · rw [if_neg (by omega), if_pos h, compare_gt_iff_gt.mpr h]

end DatabaseEngine
