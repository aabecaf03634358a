import CollectionRunner.Decimal.Shortest
import Mathlib.Algebra.Order.Field.Basic
import Mathlib.Algebra.Order.Ring.Abs
import Mathlib.Data.Rat.Cast.Order
import Mathlib.Tactic.Linarith
import Mathlib.Tactic.NormNum
import Mathlib.Tactic.Ring

/-!
# The shortest digits of a number

The digits of a number stand for a value that is at most half a step away from it. They are looked
for with one digit, two digits and so on, at the two points of the grid next to the number. A point
that is picked lies in the interval of the reals that round to the number; with seventeen digits a
step of the grid is shorter than the interval, so at the latest then a point is picked. Main
statement: `Binary64.isNear_shortest`.
-/

namespace CollectionRunner.Decimal

/-! ## Powers -/

theorem twoTo_pos (n : Nat) : 0 < twoTo n := Nat.pow_pos (by decide)

theorem tenTo_pos (n : Nat) : 0 < tenTo n := Nat.pow_pos (by decide)

theorem tenTo_zero : tenTo 0 = 1 := rfl

theorem tenTo_succ (n : Nat) : tenTo (n + 1) = 10 * tenTo n := Nat.pow_succ'

theorem tenTo_add (m n : Nat) : tenTo (m + n) = tenTo m * tenTo n := Nat.pow_add 10 m n

/-! ## The exponent of the first digit -/

theorem tenTo_upExponent_le (fuel : Nat) {whole : Nat} (h : 0 < whole) :
    tenTo (upExponent fuel whole) ≤ whole := by
  induction fuel generalizing whole with
  | zero => exact h
  | succ fuel ih =>
    rw [upExponent]
    split
    · exact h
    · rename_i hten
      have hnext := ih (show 0 < whole / 10 by omega)
      rw [tenTo_succ]
      omega

theorem exists_downExponent {fuel num den : Nat} (start : Nat) (h : den ≤ num * tenTo fuel) :
    ∃ j, downExponent fuel num den start = start + j ∧ den ≤ num * tenTo j := by
  induction fuel generalizing num start with
  | zero => exact ⟨0, rfl, h⟩
  | succ fuel ih =>
    rw [downExponent]
    split
    · rename_i hle
      exact ⟨0, rfl, by rwa [tenTo_zero, Nat.mul_one]⟩
    · rw [tenTo_succ, ← Nat.mul_assoc] at h
      obtain ⟨j, hj, hle⟩ := ih (start + 1) h
      refine ⟨j + 1, by rw [hj, Nat.add_right_comm, Nat.add_assoc], ?_⟩
      rwa [tenTo_succ, ← Nat.mul_assoc]

/-- The power of ten of the first digit is not above the number. -/
theorem le_decimalExponent {num den : Nat} (hden : 0 < den) (h : den ≤ num * tenTo 400) :
    den * tenTo (decimalExponent num den).toNat ≤
      num * tenTo (-decimalExponent num den).toNat := by
  unfold decimalExponent
  split
  · rename_i hle
    have hup := tenTo_upExponent_le 400 (Nat.div_pos hle hden)
    rw [Int.toNat_natCast, Int.toNat_neg_natCast, tenTo_zero, Nat.mul_one,
      Nat.mul_comm]
    exact (Nat.le_div_iff_mul_le hden).mp hup
  · obtain ⟨j, hj, hle⟩ := exists_downExponent 0 h
    rw [hj, Nat.zero_add, Int.neg_neg, Int.toNat_natCast, Int.toNat_neg_natCast,
      tenTo_zero, Nat.mul_one]
    exact hle

/-- With seventeen digits the step of the grid is at most a part in `10 ^ 16` of the number. -/
theorem unit_le {num den : Nat} (hden : 0 < den) (h : den ≤ num * tenTo 400) :
    den * tenTo (decimalExponent num den - 16).toNat * tenTo 16 ≤
      num * tenTo (-(decimalExponent num den - 16)).toNat := by
  have hle := le_decimalExponent hden h
  generalize decimalExponent num den = e at hle ⊢
  have hexponents : (e - 16).toNat + 16 + (-e).toNat = e.toNat + (-(e - 16)).toNat := by omega
  have hten : tenTo (e - 16).toNat * tenTo 16 * tenTo (-e).toNat =
      tenTo e.toNat * tenTo (-(e - 16)).toNat := by
    rw [← tenTo_add, ← tenTo_add, ← tenTo_add, hexponents]
  refine Nat.le_of_mul_le_mul_right ?_ (tenTo_pos (-e).toNat)
  calc den * tenTo (e - 16).toNat * tenTo 16 * tenTo (-e).toNat
      = den * tenTo e.toNat * tenTo (-(e - 16)).toNat := by
        rw [Nat.mul_assoc, Nat.mul_assoc, ← Nat.mul_assoc (tenTo (e - 16).toNat), hten,
          Nat.mul_assoc]
    _ ≤ num * tenTo (-e).toNat * tenTo (-(e - 16)).toNat := Nat.mul_le_mul_right _ hle
    _ = num * tenTo (-(e - 16)).toNat * tenTo (-e).toNat := Nat.mul_right_comm ..

/-! ## Points of the grid -/

namespace Interval

variable {i : Interval} {num den : Nat}

theorem holds_of_lt (hlow : i.low * den < num * i.denominator)
    (hhigh : num * i.denominator < i.high * den) : i.holds num den = true := by
  unfold holds
  split
  · exact Bool.and_eq_true_iff.mpr ⟨decide_eq_true hlow.le, decide_eq_true hhigh.le⟩
  · exact Bool.and_eq_true_iff.mpr ⟨decide_eq_true hlow, decide_eq_true hhigh⟩

theorem le_of_holds (h : i.holds num den = true) :
    i.low * den ≤ num * i.denominator ∧ num * i.denominator ≤ i.high * den := by
  unfold holds at h
  split at h
  · obtain ⟨hlow, hhigh⟩ := Bool.and_eq_true_iff.mp h
    exact ⟨of_decide_eq_true hlow, of_decide_eq_true hhigh⟩
  · obtain ⟨hlow, hhigh⟩ := Bool.and_eq_true_iff.mp h
    exact ⟨(of_decide_eq_true hlow).le, (of_decide_eq_true hhigh).le⟩

/-- The point that is picked lies in the interval. -/
theorem holds_pick? {leading : Int} {count : Nat} {d : Digits}
    (h : i.pick? leading count = some d) :
    i.holds (d.digits * tenTo d.exponent.toNat) (tenTo (-d.exponent).toNat) = true := by
  unfold pick? at h
  dsimp only at h
  generalize leading - (count : Int) + 1 = e at h
  generalize i.value * tenTo (-e).toNat / (i.denominator * tenTo e.toNat) = below at h
  split at h
  · rename_i hboth
    obtain ⟨hbelow, habove⟩ := Bool.and_eq_true_iff.mp hboth
    split at h
    · cases h
      exact hbelow
    · split at h
      · cases h
        exact habove
      · cases h
        -- the even one of the two
        rcases Nat.mod_two_eq_zero_or_one below with heven | hodd
        · rw [heven, Nat.add_zero]
          exact hbelow
        · rw [hodd]
          exact habove
  · split at h
    · rename_i hbelow
      cases h
      exact hbelow
    · split at h
      · rename_i habove
        cases h
        exact habove
      · cases h

/-- Nothing is picked only if neither of the two points lies in the interval. -/
theorem not_holds_of_pick? {leading e : Int} {count below : Nat}
    (he : leading - (count : Int) + 1 = e)
    (hbelow : i.value * tenTo (-e).toNat / (i.denominator * tenTo e.toNat) = below)
    (h : i.pick? leading count = none) :
    i.holds (below * tenTo e.toNat) (tenTo (-e).toNat) = false ∧
      i.holds ((below + 1) * tenTo e.toNat) (tenTo (-e).toNat) = false := by
  unfold pick? at h
  dsimp only at h
  rw [he, hbelow] at h
  split at h
  · split at h
    · cases h
    · split at h <;> cases h
  · split at h
    · cases h
    · split at h
      · cases h
      · rename_i hno habove
        exact ⟨Bool.eq_false_iff.mpr hno, Bool.eq_false_iff.mpr habove⟩

/-- A grid whose step is shorter than the interval has a point in it, next to the number. -/
theorem exists_pick? {leading e : Int} {count : Nat} (he : leading - (count : Int) + 1 = e)
    (hden : 0 < i.denominator) (hlow : i.low < i.value) (hhigh : i.value < i.high)
    (hstep : i.low * tenTo (-e).toNat + i.denominator * tenTo e.toNat <
      i.high * tenTo (-e).toNat) :
    ∃ d, i.pick? leading count = some d := by
  refine Option.ne_none_iff_exists'.mp fun hnone => ?_
  obtain ⟨hbelow, habove⟩ := not_holds_of_pick? he rfl hnone
  have hunit := Nat.mul_pos hden (tenTo_pos e.toNat)
  have hdown := tenTo_pos (-e).toNat
  generalize tenTo (-e).toNat = down at hstep hdown hbelow habove
  generalize tenTo e.toNat = up at hstep hunit hbelow habove
  have hle := Nat.div_mul_le_self (i.value * down) (i.denominator * up)
  have hlt := Nat.lt_mul_div_succ (i.value * down) hunit
  generalize i.value * down / (i.denominator * up) = below at hbelow habove hle hlt
  have hpoint : ∀ n, n * up * i.denominator = n * (i.denominator * up) := fun n => by ring
  have hsucc : (below + 1) * (i.denominator * up) =
      below * (i.denominator * up) + i.denominator * up := Nat.succ_mul ..
  rw [Nat.mul_comm (i.denominator * up), hsucc] at hlt
  have hvalue := Nat.mul_lt_mul_of_pos_right hlow hdown
  have hvalue' := Nat.mul_lt_mul_of_pos_right hhigh hdown
  by_cases hinside : i.low * down < below * (i.denominator * up)
  · have hholds : i.holds (below * up) down = true :=
      holds_of_lt (by rwa [hpoint]) (by rw [hpoint]; omega)
    rw [hholds] at hbelow
    cases hbelow
  · -- the point above is within a step of the lower end
    have hholds : i.holds ((below + 1) * up) down = true :=
      holds_of_lt (by rw [hpoint, hsucc]; omega) (by rw [hpoint, hsucc]; omega)
    rw [hholds] at habove
    cases habove

end Interval

/-! ## The interval of a number -/

namespace Binary64

variable {x : Binary64}

theorem step_le_units (h : x.isZero = false) : twoTo x.shift ≤ x.units := by
  have hne : x.significand ≠ 0 := by simpa [isZero] using h
  exact Nat.le_mul_of_pos_left _ (Nat.pos_of_ne_zero hne)

/-- The interval is three quarters of a step wide around a power of two, and a whole step around the
other numbers. -/
theorem exists_interval (h : x.isZero = false) :
    ∃ quarters, (quarters = 4 ∨ quarters = 3 ∧ x.significand = leastFull) ∧
      x.interval.low + quarters * twoTo x.shift = x.interval.high ∧
      x.interval.low < 4 * x.units ∧ 4 * x.units ≤ x.interval.low + 2 * twoTo x.shift := by
  have hle := step_le_units h
  have hpos := twoTo_pos x.shift
  cases hnarrow : (x.significand == leastFull && x.shift != 0) with
  | true =>
    have hleast : x.significand = leastFull := beq_iff_eq.mp (Bool.and_eq_true_iff.mp hnarrow).1
    refine ⟨3, .inr ⟨rfl, hleast⟩, ?_⟩
    simp only [interval, hnarrow, if_true]
    omega
  | false =>
    refine ⟨4, .inl rfl, ?_⟩
    simp only [interval, hnarrow, Bool.false_eq_true, if_false]
    omega

/-- Seventeen digits are enough for a number of 53 bits. -/
theorem exists_pick? (h : x.isZero = false) (hbits : x.significand < 2 * leastFull) :
    ∃ d, x.interval.pick?
      (decimalExponent x.interval.value x.interval.denominator) 17 = some d := by
  have hunits := Nat.lt_of_lt_of_le (twoTo_pos x.shift) (step_le_units h)
  have hden : 0 < 4 * twoTo unitExponent := Nat.mul_pos (by decide) (twoTo_pos _)
  obtain ⟨quarters, hquarters, hhigh, hlow, -⟩ := exists_interval h
  have hsize : 4 * twoTo unitExponent ≤ 4 * x.units * tenTo 400 := by
    have hten : twoTo unitExponent ≤ tenTo 400 := by decide +kernel
    rw [Nat.mul_assoc]
    exact Nat.mul_le_mul_left 4 (hten.trans (Nat.le_mul_of_pos_left _ hunits))
  have hunit := unit_le hden hsize
  have hbound : 4 * x.significand < quarters * tenTo 16 := by
    have hten : tenTo 16 = 10000000000000000 := rfl
    have hleast : leastFull = 4503599627370496 := rfl
    rw [hten]
    rcases hquarters with rfl | ⟨rfl, hsignificand⟩ <;> omega
  have hlow : x.interval.low < x.interval.value := hlow
  have hhigh' : x.interval.value < x.interval.high :=
    Nat.lt_add_of_pos_right (Nat.mul_pos (by decide) (twoTo_pos x.shift))
  refine Interval.exists_pick? (e := decimalExponent (4 * x.units) (4 * twoTo unitExponent) - 16)
    (by simp only [interval]; omega) hden hlow hhigh' ?_
  generalize decimalExponent (4 * x.units) (4 * twoTo unitExponent) - 16 = e at hunit ⊢
  rw [← hhigh, Nat.add_mul]
  refine Nat.add_lt_add_left (Nat.lt_of_mul_lt_mul_right (a := tenTo 16) ?_) _
  calc 4 * twoTo unitExponent * tenTo e.toNat * tenTo 16
      ≤ 4 * x.units * tenTo (-e).toNat := hunit
    _ = 4 * x.significand * (twoTo x.shift * tenTo (-e).toNat) := by rw [units]; ring
    _ < quarters * tenTo 16 * (twoTo x.shift * tenTo (-e).toNat) :=
      Nat.mul_lt_mul_of_pos_right hbound (Nat.mul_pos (twoTo_pos _) (tenTo_pos _))
    _ = quarters * twoTo x.shift * tenTo (-e).toNat * tenTo 16 := by ring

/-- The absolute value. -/
def magnitude (x : Binary64) : ℚ := x.units / twoTo unitExponent

/-- The distance to the next number. -/
def step (x : Binary64) : ℚ := twoTo x.shift / twoTo unitExponent

/-- A value that is at most half a step away. -/
def IsNear (x : Binary64) (q : ℚ) : Prop := |q - x.magnitude| ≤ x.step / 2

theorem isNear_zero (h : x.isZero = true) : x.IsNear 0 := by
  have hunits : x.units = 0 := by
    rw [units, beq_iff_eq.mp h, Nat.zero_mul]
  have hstep : 0 ≤ x.step := div_nonneg (Nat.cast_nonneg _) (Nat.cast_nonneg _)
  rw [IsNear, magnitude, hunits, Nat.cast_zero, zero_div, sub_zero, abs_zero]
  exact div_nonneg hstep (by norm_num)

theorem isNear_of_holds {num den : Nat} (h : x.isZero = false) (hden : 0 < den)
    (hholds : x.interval.holds num den = true) : x.IsNear (num / den) := by
  obtain ⟨hlow, hhigh⟩ := Interval.le_of_holds hholds
  obtain ⟨-, -, -, -, hwidth⟩ := exists_interval h
  have hden : (0 : ℚ) < den := Nat.cast_pos.mpr hden
  have hunit : (0 : ℚ) < twoTo unitExponent := Nat.cast_pos.mpr (twoTo_pos _)
  have hlow : (x.interval.low : ℚ) * den ≤ num * (4 * twoTo unitExponent) := by exact_mod_cast hlow
  have hhigh : (num : ℚ) * (4 * twoTo unitExponent) ≤ (4 * x.units + 2 * twoTo x.shift) * den := by
    exact_mod_cast hhigh
  have hwidth : (4 : ℚ) * x.units ≤ x.interval.low + 2 * twoTo x.shift := by exact_mod_cast hwidth
  generalize hq : (num : ℚ) / den = q
  have hnum : (num : ℚ) = q * den := (div_eq_iff hden.ne').mp hq
  rw [hnum, mul_right_comm] at hlow hhigh
  have hlow := le_of_mul_le_mul_right hlow hden
  have hhigh := le_of_mul_le_mul_right hhigh hden
  have hdistance : q - x.units / twoTo unitExponent =
      (q * twoTo unitExponent - x.units) / twoTo unitExponent := by
    rw [sub_div, mul_div_cancel_right₀ q hunit.ne']
  rw [IsNear, magnitude, step, hdistance, abs_div, abs_of_pos hunit, div_right_comm,
    div_le_div_iff_of_pos_right hunit, abs_le]
  constructor <;> linarith

end Binary64

/-! ## The value of digits -/

/-- The value of digits. -/
def Digits.value (d : Digits) : ℚ := d.digits * 10 ^ d.exponent

theorem ten_zpow (e : Int) : (10 : ℚ) ^ e = tenTo e.toNat / tenTo (-e).toNat := by
  have hten : ∀ n, (tenTo n : ℚ) = 10 ^ n := fun n => Nat.cast_pow 10 n
  rw [hten, hten]
  obtain ⟨n, rfl | rfl⟩ := e.eq_nat_or_neg
  · rw [zpow_natCast, Int.toNat_natCast, Int.toNat_neg_natCast, pow_zero, div_one]
  · rw [zpow_neg, zpow_natCast, Int.neg_neg, Int.toNat_natCast, Int.toNat_neg_natCast, pow_zero,
      one_div]

theorem Digits.value_eq (d : Digits) :
    d.value = (d.digits * tenTo d.exponent.toNat : Nat) / (tenTo (-d.exponent).toNat : Nat) := by
  rw [value, ten_zpow, Nat.cast_mul, mul_div_assoc]

theorem Digits.value_strip (fuel : Nat) (d : Digits) : (d.strip fuel).value = d.value := by
  induction fuel generalizing d with
  | zero => rfl
  | succ fuel ih =>
    rw [strip]
    split
    · rename_i hzero
      obtain ⟨n, hn⟩ := Nat.dvd_of_mod_eq_zero hzero.2
      rw [ih, value, value, hn, Nat.mul_div_cancel_left n (by decide), zpow_add_one₀ (by norm_num)]
      push_cast
      ring
    · rfl

/-! ## The shortest digits -/

/-- Stripping zeros off the end leaves a digit. -/
theorem Digits.digits_strip (fuel : Nat) {d : Digits} (h : d.digits ≠ 0) :
    (d.strip fuel).digits ≠ 0 := by
  induction fuel generalizing d with
  | zero => exact h
  | succ fuel ih =>
    rw [strip]
    split
    · rename_i hzero
      exact ih (show d.digits / 10 ≠ 0 by omega)
    · exact h

/-- Zero does not round to another number. -/
theorem Interval.digits_pick? {i : Interval} {leading : Int} {count : Nat} {d : Digits}
    (hlow : 0 < i.low) (h : i.pick? leading count = some d) : d.digits ≠ 0 := by
  intro hzero
  have hle := (le_of_holds (holds_pick? h)).1
  rw [hzero, Nat.zero_mul, Nat.zero_mul] at hle
  have hpos := Nat.mul_pos hlow (tenTo_pos (-d.exponent).toNat)
  omega

/-- The shortest digits of a number that is not zero are not zero, as far as seventeen digits are
enough for it. -/
theorem Binary64.digits_shortest {x : Binary64} (h : x.isZero = false) :
    x.shortest.digits ≠ 0 ∨ x.shortest = ⟨0, 0⟩ := by
  obtain ⟨-, -, -, -, hwidth⟩ := exists_interval h
  have hstep := step_le_units h
  have hpos := twoTo_pos x.shift
  have hlow : 0 < x.interval.low := by omega
  unfold shortest
  dsimp only
  split
  · rename_i d hpick
    obtain ⟨count, -, hpick⟩ := List.exists_of_findSome?_eq_some hpick
    exact .inl (Digits.digits_strip 20 (Interval.digits_pick? hlow hpick))
  · exact .inr rfl

/-- The shortest digits of a number of 53 bits are at most half a step away from it. -/
theorem Binary64.isNear_shortest {x : Binary64} (h : x.isZero = false)
    (hbits : x.significand < 2 * leastFull) : x.IsNear x.shortest.value := by
  unfold shortest
  dsimp only
  split
  · rename_i d hpick
    obtain ⟨count, -, hpick⟩ := List.exists_of_findSome?_eq_some hpick
    rw [Digits.value_strip, Digits.value_eq]
    exact isNear_of_holds h (tenTo_pos _) (Interval.holds_pick? hpick)
  · rename_i hnone
    obtain ⟨d, hpick⟩ := exists_pick? h hbits
    have hlast := List.findSome?_eq_none_iff.mp hnone 16 (List.mem_range.mpr (by decide))
    rw [hpick] at hlast
    cases hlast

end CollectionRunner.Decimal
