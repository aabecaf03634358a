import CollectionRunner.Json.Printer
import CollectionRunner.Json.Scanner
import CollectionRunner.Proofs.Decimal.Shortest
import Mathlib.Data.List.Basic
import Mathlib.Tactic.SplitIfs

/-!
# Texts of numbers

The text of a number has a whole part, perhaps a fraction and perhaps an exponent (`NumberParts`),
and the scanner finds these parts again (`NumberParts.scanNumber_text`). A number with a fraction is
printed in several ways; in each of them its parts have the value of its shortest digits. Main
statements: `NumberParts.exists_writes`, `Number.exists_parts`.
-/

namespace CollectionRunner.Json

open Decimal Text

/-! ## Digits -/

theorem natDigits_eq (n : Nat) : natDigits n = Nat.toDigits 10 n := by
  rw [natDigits, Nat.toString_eq_repr, Nat.toList_repr]

theorem isDigit_of_mem_natDigits {n : Nat} {c : Char} (h : c ∈ natDigits n) : c.isDigit = true := by
  rw [natDigits_eq] at h
  exact Nat.isDigit_of_mem_toDigits (by decide) (by decide) h

theorem digitChar_ne_zero : ∀ n < 10, n ≠ 0 → n.digitChar ≠ '0' := by decide

/-- Only zero starts with the digit zero. -/
theorem head?_natDigits {n : Nat} (h : n ≠ 0) : (natDigits n).head? ≠ some '0' := by
  rw [natDigits_eq]
  induction n using Nat.strongRecOn with
  | _ n ih =>
    rw [Nat.toDigits_eq_if (by decide)]
    split
    · rename_i hlt
      intro hhead
      exact digitChar_ne_zero n hlt h (Option.some.inj hhead)
    · rename_i hge
      rw [List.head?_append_of_ne_nil _ Nat.toDigits_ne_nil]
      exact ih (n / 10) (by omega) (by omega)

theorem le_ofDigitChars (ds : List Char) (n : Nat) : n ≤ Nat.ofDigitChars 10 ds n := by
  induction ds generalizing n with
  | nil => exact Nat.le_refl n
  | cons d ds ih =>
    rw [Nat.ofDigitChars_cons]
    have hnext := ih (10 * n + (d.toNat - '0'.toNat))
    omega

/-- Digits of a number of 64 bits are all kept. -/
theorem absorb_eq (ds : List Char) (n : Nat) (h : Nat.ofDigitChars 10 ds n ≤ maxWhole) :
    absorb n ds = (Nat.ofDigitChars 10 ds n, ds.length) := by
  induction ds generalizing n with
  | nil => rfl
  | cons d ds ih =>
    rw [Nat.ofDigitChars_cons] at h ⊢
    have hnext : n * 10 + (d.toNat - 0x30) = 10 * n + (d.toNat - '0'.toNat) := by
      rw [Nat.mul_comm]
      rfl
    have hle : 10 * n + (d.toNat - '0'.toNat) ≤ maxWhole :=
      Nat.le_trans (le_ofDigitChars ds _) h
    rw [absorb]
    simp only [hnext, if_pos hle, ih _ h, List.length_cons]

theorem ofDigitChars_natDigits (n : Nat) : Nat.ofDigitChars 10 (natDigits n) 0 = n := by
  rw [natDigits_eq]
  exact Nat.ofDigitChars_ten_toDigits

theorem absorb_natDigits {n : Nat} (h : n ≤ maxWhole) :
    absorb 0 (natDigits n) = (n, (natDigits n).length) := by
  have hread := absorb_eq (natDigits n) 0 (by rw [ofDigitChars_natDigits]; exact h)
  rwa [ofDigitChars_natDigits] at hread

theorem exists_of_natDigits (n : Nat) : ∃ c s, natDigits n = c :: s ∧ c.isDigit = true := by
  cases hdigits : natDigits n with
  | nil => exact absurd hdigits (by rw [natDigits_eq]; exact Nat.toDigits_ne_nil)
  | cons c s =>
    have hmem : c ∈ natDigits n := by
      rw [hdigits]
      exact List.mem_cons_self
    exact ⟨c, s, rfl, isDigit_of_mem_natDigits hmem⟩

/-- Digits, at least one of them. -/
def IsDigits (ds : List Char) : Prop := ds ≠ [] ∧ ∀ c ∈ ds, c.isDigit = true

theorem isDigits_natDigits (n : Nat) : IsDigits (natDigits n) := by
  obtain ⟨c, s, hdigits, -⟩ := exists_of_natDigits n
  exact ⟨by rw [hdigits]; exact List.cons_ne_nil c s, fun _ => isDigit_of_mem_natDigits⟩

theorem isDigits_singleton {c : Char} (h : c.isDigit = true) : IsDigits [c] :=
  ⟨List.cons_ne_nil c [], List.forall_mem_singleton.mpr h⟩

theorem isDigit_of_mem_zeros {n : Nat} {c : Char} (h : c ∈ List.replicate n '0') :
    c.isDigit = true := by
  rw [List.eq_of_mem_replicate h]
  rfl

/-! ## The parts of a number -/

/-- The text does not go on with a digit. -/
def Halts (s : List Char) : Prop := ∀ c t, s = c :: t → c.isDigit = false

/-- The text does not go on with a digit, a fraction or an exponent. -/
def Stops (rest : List Char) : Prop := ∀ c s, rest = c :: s → c = ',' ∨ c = '\n'

theorem stops_nil : Stops [] := fun _ _ h => by cases h

theorem stops_comma (s : List Char) : Stops (',' :: s) := by
  intro c t h
  exact .inl (List.cons.inj h).1.symm

theorem Stops.halts {rest : List Char} (h : Stops rest) : Halts rest := by
  intro c s hrest
  rcases h c s hrest with rfl | rfl <;> rfl

theorem halts_cons {c : Char} (h : c.isDigit = false) (s : List Char) : Halts (c :: s) := by
  intro d t heq
  rw [← (List.cons.inj heq).1]
  exact h

theorem IsDigits.takeWhile {ds s : List Char} (h : IsDigits ds) (hs : Halts s) :
    (ds ++ s).takeWhile Char.isDigit = ds ∧ (ds ++ s).dropWhile Char.isDigit = s := by
  rw [List.takeWhile_append_of_pos h.2, List.dropWhile_append_of_pos h.2]
  cases s with
  | nil => exact ⟨List.append_nil ds, rfl⟩
  | cons c s =>
    have hc : ¬ c.isDigit = true := by rw [hs c s rfl]; decide
    rw [List.takeWhile_cons_of_neg hc, List.dropWhile_cons_of_neg hc, List.append_nil]
    exact ⟨rfl, rfl⟩

theorem IsDigits.isEmpty {ds : List Char} (h : IsDigits ds) : ds.isEmpty = false :=
  List.isEmpty_eq_false_iff.mpr h.1

/-- What the text of a number is put together from, apart from a sign in front. -/
structure NumberParts where
  whole : List Char
  fraction : Option (List Char)
  exponent : Option Exponent

namespace NumberParts

/-- An exponent with its sign. -/
def exponentText : Option Exponent → List Char
  | none => []
  | some e => 'e' :: (if e.negative then '-' else '+') :: e.digits

/-- A fraction behind its point. -/
def fractionText : Option (List Char) → List Char
  | none => []
  | some ds => '.' :: ds

/-- The text of the parts. -/
def text (p : NumberParts) : List Char :=
  p.whole ++ (fractionText p.fraction ++ exponentText p.exponent)

/-- The number that a reader makes of the parts. -/
def number (negative : Bool) (p : NumberParts) : Except Fault Number :=
  numberOfParts negative p.whole p.fraction p.exponent

/-- The power of ten that an exponent stands for. -/
def exponentValue : Option Exponent → Int
  | none => 0
  | some e =>
    let n := Nat.ofDigitChars 10 e.digits 0
    if e.negative then -(n : Int) else n

/-- The value of the digits on both sides of the point, apart from a sign. -/
def value (p : NumberParts) : ℚ :=
  Nat.ofDigitChars 10 (p.whole ++ p.fraction.getD []) 0 *
    10 ^ (exponentValue p.exponent - (p.fraction.getD []).length)

/-- All parts have digits, and of several digits of the whole part the first one is not zero. -/
structure WellFormed (p : NumberParts) : Prop where
  whole : IsDigits p.whole
  leading : ¬ (p.whole.head? = some '0' ∧ 1 < p.whole.length)
  fraction : ∀ ds ∈ p.fraction, IsDigits ds
  exponent : ∀ e ∈ p.exponent, IsDigits e.digits

variable {p : NumberParts} {rest : List Char}

theorem halts_exponentText (e : Option Exponent) (hstop : Stops rest) :
    Halts (exponentText e ++ rest) := by
  cases e with
  | none => exact hstop.halts
  | some e => exact halts_cons rfl _

/-- Neither an exponent nor what stops a number is a point. -/
theorem exponentText_ne_point (e : Option Exponent) (hstop : Stops rest) (more : List Char) :
    exponentText e ++ rest ≠ '.' :: more := by
  intro heq
  cases e with
  | none => rcases hstop '.' more heq with h | h <;> cases h
  | some e => exact absurd (List.head_eq_of_cons_eq heq) (by decide)

theorem scanExponent_exponentText (negative : Bool) (whole : List Char)
    (fraction : Option (List Char)) {e : Option Exponent} (he : ∀ e' ∈ e, IsDigits e'.digits)
    (hstop : Stops rest) :
    scanExponent negative whole fraction (exponentText e ++ rest) =
      (.number (numberOfParts negative whole fraction e), some rest) := by
  cases e with
  | none =>
    -- no exponent stands behind the number
    cases rest with
    | nil => rfl
    | cons c s => rcases hstop c s rfl with rfl | rfl <;> rfl
  | some e =>
    obtain ⟨htake, hdrop⟩ := (he e rfl).takeWhile hstop.halts
    have hsome := (he e rfl).isEmpty
    obtain ⟨minus, digits⟩ := e
    dsimp only at htake hdrop hsome
    cases minus with
    | false =>
      show scanExponent negative whole fraction ('e' :: '+' :: (digits ++ rest)) = _
      simp [scanExponent, htake, hdrop, hsome]
    | true =>
      show scanExponent negative whole fraction ('e' :: '-' :: (digits ++ rest)) = _
      simp [scanExponent, htake, hdrop, hsome]

/-- The scanner finds the parts of a number. -/
theorem scanNumber_text (negative : Bool) (h : p.WellFormed) (hstop : Stops rest) :
    scanNumber negative (p.text ++ rest) = (.number (p.number negative), some rest) := by
  have hexponent := halts_exponentText p.exponent hstop
  have htext : p.text ++ rest =
      p.whole ++ (fractionText p.fraction ++ (exponentText p.exponent ++ rest)) := by
    rw [text, List.append_assoc, List.append_assoc]
  rw [htext, number]
  cases hfraction : p.fraction with
  | none =>
    obtain ⟨htake, hdrop⟩ := h.whole.takeWhile hexponent
    have hscan := scanExponent_exponentText negative p.whole none h.exponent hstop
    simp only [fractionText, List.nil_append, scanNumber, htake, hdrop, h.whole.isEmpty,
      if_neg h.leading, Bool.false_eq_true, if_false]
    split
    · rename_i more hpoint
      exact absurd hpoint (exponentText_ne_point p.exponent hstop more)
    · exact hscan
  | some ds =>
    have hpoint : Halts ('.' :: (ds ++ (exponentText p.exponent ++ rest))) := halts_cons rfl _
    obtain ⟨htake, hdrop⟩ := h.whole.takeWhile hpoint
    have hds : IsDigits ds := h.fraction ds hfraction
    obtain ⟨htake', hdrop'⟩ := hds.takeWhile hexponent
    have hscan := scanExponent_exponentText negative p.whole (some ds) h.exponent hstop
    simp only [fractionText, List.cons_append, scanNumber, htake, hdrop, h.whole.isEmpty,
      if_neg h.leading, Bool.false_eq_true, if_false, htake', hdrop', hds.isEmpty]
    exact hscan

end NumberParts

/-! ## The parts of printed numbers -/

namespace NumberParts

/-- Digits that stand for a number which is not zero do not start with the digit zero. -/
theorem leading_natDigits {n : Nat} (h : n ≠ 0) (s : List Char) :
    ¬ ((natDigits n ++ s).head? = some '0' ∧ 1 < (natDigits n ++ s).length) := by
  rintro ⟨hhead, -⟩
  rw [List.head?_append_of_ne_nil _ (isDigits_natDigits n).1] at hhead
  exact head?_natDigits h hhead

theorem wellFormed_whole (n : Nat) : (⟨natDigits n, none, none⟩ : NumberParts).WellFormed where
  whole := isDigits_natDigits n
  leading := by
    rcases eq_or_ne n 0 with rfl | hn
    · rintro ⟨-, hlength⟩
      exact absurd hlength (by decide)
    · have hleading := leading_natDigits hn []
      rwa [List.append_nil] at hleading
  fraction := fun _ h => by cases h
  exponent := fun _ h => by cases h

/-- Digits with a point in place. -/
theorem wellFormed_point {whole ds : List Char} (hwhole : IsDigits whole)
    (hleading : ¬ (whole.head? = some '0' ∧ 1 < whole.length)) (hds : IsDigits ds) :
    (⟨whole, some ds, none⟩ : NumberParts).WellFormed where
  whole := hwhole
  leading := hleading
  fraction := by
    rintro _ ⟨⟩
    exact hds
  exponent := fun _ h => by cases h

/-- Parts have the value of digits, up to zeros behind these. -/
theorem value_eq {p : NumberParts} {d : Digits} (zeros : Nat)
    (hdigits : Nat.ofDigitChars 10 (p.whole ++ p.fraction.getD []) 0 = 10 ^ zeros * d.digits)
    (hexponent : exponentValue p.exponent - (p.fraction.getD []).length + zeros = d.exponent) :
    p.value = d.value := by
  rw [value, Digits.value, hdigits, ← hexponent, zpow_add₀ (by norm_num), zpow_natCast]
  push_cast
  ring

/-- Parts have the value of the digits that they are made of. -/
theorem value_of_natDigits {p : NumberParts} {d : Digits}
    (hdigits : p.whole ++ p.fraction.getD [] = natDigits d.digits)
    (hexponent : exponentValue p.exponent - (p.fraction.getD []).length = d.exponent) :
    p.value = d.value := by
  refine value_eq 0 ?_ ((Int.add_zero _).trans hexponent)
  rw [hdigits, ofDigitChars_natDigits, pow_zero, Nat.one_mul]

theorem text_point (whole ds : List Char) :
    (⟨whole, some ds, none⟩ : NumberParts).text = whole ++ '.' :: ds := by
  simp [text, fractionText, exponentText]

/-- The exponent of printed digits. -/
def scientific (leading : Int) : Exponent := ⟨decide (leading < 0), natDigits leading.natAbs⟩

theorem exponentText_scientific (leading : Int) :
    exponentText (some (scientific leading)) = 'e' :: numberStyle.exponentText leading := by
  by_cases hneg : leading < 0
  · simp [Style.exponentText, exponentText, scientific, hneg]
  · simp [Style.exponentText, exponentText, scientific, hneg, numberStyle]

theorem exponentValue_scientific (leading : Int) :
    exponentValue (some (scientific leading)) = leading := by
  simp only [exponentValue, scientific, ofDigitChars_natDigits, decide_eq_true_eq]
  split <;> omega

/-- One digit before the point, and an exponent. -/
theorem wellFormed_scientific {first : Char} {fraction : Option (List Char)}
    (hfirst : first.isDigit = true) (hfraction : ∀ ds ∈ fraction, IsDigits ds) (leading : Int) :
    (⟨[first], fraction, some (scientific leading)⟩ : NumberParts).WellFormed where
  whole := isDigits_singleton hfirst
  leading := fun h => absurd h.2 (Nat.lt_irrefl 1)
  fraction := hfraction
  exponent := by
    rintro _ ⟨⟩
    exact isDigits_natDigits leading.natAbs

/-- Parts that digits are written with. -/
structure Spells (p : NumberParts) (d : Digits) (cs : List Char) : Prop where
  wellFormed : p.WellFormed
  text : cs = p.text
  value : p.value = d.value

section

variable {d : Digits}

/-- A whole number, with zeros up to the point. -/
theorem exists_spells_whole (hd : d.digits ≠ 0 ∨ d = ⟨0, 0⟩) (hexponent : 0 ≤ d.exponent) :
    ∃ p : NumberParts, p.Spells d
      (natDigits d.digits ++ List.replicate d.exponent.toNat '0' ++ ['.', '0']) := by
  obtain ⟨hne, hdigits⟩ := isDigits_natDigits d.digits
  have hmore : IsDigits (natDigits d.digits ++ List.replicate d.exponent.toNat '0') :=
    ⟨List.append_ne_nil_of_left_ne_nil hne _,
      fun c hc => (List.mem_append.mp hc).elim (hdigits c) isDigit_of_mem_zeros⟩
  refine ⟨_, wellFormed_point hmore ?_ (isDigits_singleton rfl), (text_point _ _).symm,
    value_eq (d.exponent.toNat + 1) ?_ ?_⟩
  · rcases hd with hd | rfl
    · exact leading_natDigits hd _
    · rintro ⟨-, hlong⟩
      exact absurd hlong (by decide)
  · rw [Option.getD_some, List.append_assoc, ← List.replicate_succ', Nat.ofDigitChars_append,
      ofDigitChars_natDigits, Nat.ofDigitChars_replicate_zero]
  · simp only [exponentValue, Option.getD_some, List.length_singleton]
    omega

/-- A point inside the digits. -/
theorem exists_spells_inside (hd : d.digits ≠ 0) {k : Nat}
    (hk : ((k + 1 : Nat) : Int) = (natDigits d.digits).length + d.exponent)
    (hexponent : d.exponent < 0) :
    ∃ p : NumberParts, p.Spells d
      ((natDigits d.digits).take (k + 1) ++ '.' :: (natDigits d.digits).drop (k + 1)) := by
  obtain ⟨hne, hdigits⟩ := isDigits_natDigits d.digits
  have hlength := List.length_pos_of_ne_nil hne
  have htake : IsDigits ((natDigits d.digits).take (k + 1)) :=
    ⟨List.ne_nil_of_length_pos (by rw [List.length_take]; omega),
      fun c hc => hdigits c (List.mem_of_mem_take hc)⟩
  have hdrop : IsDigits ((natDigits d.digits).drop (k + 1)) :=
    ⟨List.ne_nil_of_length_pos (by rw [List.length_drop]; omega),
      fun c hc => hdigits c (List.mem_of_mem_drop hc)⟩
  refine ⟨_, wellFormed_point htake ?_ hdrop, (text_point _ _).symm,
    value_of_natDigits (List.take_append_drop (k + 1) _) ?_⟩
  · rintro ⟨hhead, -⟩
    rw [List.head?_take, if_neg (Nat.succ_ne_zero k)] at hhead
    exact head?_natDigits hd hhead
  · simp only [exponentValue, Option.getD_some, List.length_drop]
    omega

/-- Zeros behind the point. -/
theorem exists_spells_behind {zeros : Nat}
    (hzeros : ((zeros + (natDigits d.digits).length : Nat) : Int) = -d.exponent) :
    ∃ p : NumberParts, p.Spells d
      ('0' :: '.' :: (List.replicate zeros '0' ++ natDigits d.digits)) := by
  obtain ⟨hne, hdigits⟩ := isDigits_natDigits d.digits
  have hbehind : IsDigits (List.replicate zeros '0' ++ natDigits d.digits) :=
    ⟨List.append_ne_nil_of_right_ne_nil _ hne,
      fun c hc => (List.mem_append.mp hc).elim isDigit_of_mem_zeros (hdigits c)⟩
  refine ⟨_, wellFormed_point (isDigits_singleton rfl) (fun h => absurd h.2 (Nat.lt_irrefl 1))
    hbehind, (text_point ['0'] _).symm, value_eq 0 ?_ ?_⟩
  · rw [Option.getD_some, List.singleton_append, ← List.cons_append, ← List.replicate_succ,
      Nat.ofDigitChars_append, Nat.ofDigitChars_replicate_zero, Nat.mul_zero,
      ofDigitChars_natDigits, pow_zero, Nat.one_mul]
  · simp only [exponentValue, Option.getD_some, List.length_append, List.length_replicate]
    omega

/-- One digit and an exponent. -/
theorem exists_spells_digit {first : Char} {leading : Int} (hds : natDigits d.digits = [first])
    (hleading : leading = d.exponent) :
    ∃ p : NumberParts, p.Spells d (first :: 'e' :: numberStyle.exponentText leading) := by
  have hfirst : first.isDigit = true := isDigit_of_mem_natDigits (hds ▸ List.mem_cons_self)
  refine ⟨⟨[first], none, _⟩, wellFormed_scientific hfirst ?_ leading, ?_,
    value_of_natDigits hds.symm ?_⟩
  · exact fun ds h => absurd h (Option.not_mem_none ds)
  · rw [text, exponentText_scientific]
    rfl
  · rw [exponentValue_scientific]
    simp only [Option.getD_none, List.length_nil]
    omega

/-- One digit, the other digits behind the point, and an exponent. -/
theorem exists_spells_digits {first c : Char} {more : List Char} {leading : Int}
    (hds : natDigits d.digits = first :: c :: more)
    (hleading : leading = (c :: more).length + d.exponent) :
    ∃ p : NumberParts, p.Spells d
      (first :: '.' :: (c :: more) ++ 'e' :: numberStyle.exponentText leading) := by
  have hdigits : ∀ x ∈ first :: c :: more, x.isDigit = true := fun x hx =>
    isDigit_of_mem_natDigits (hds ▸ hx)
  obtain ⟨hfirst, hmore⟩ := List.forall_mem_cons.mp hdigits
  refine ⟨⟨[first], some (c :: more), _⟩, wellFormed_scientific hfirst ?_ leading, ?_,
    value_of_natDigits hds.symm ?_⟩
  · rintro _ ⟨⟩
    exact ⟨List.cons_ne_nil c more, hmore⟩
  · rw [text, exponentText_scientific]
    rfl
  · rw [exponentValue_scientific, Option.getD_some]
    omega

/-- Digits that are printed have their parts, in each of the ways to print them. -/
theorem exists_spells (hd : d.digits ≠ 0 ∨ d = ⟨0, 0⟩) :
    ∃ p : NumberParts, p.Spells d (numberStyle.digitsText d) := by
  have hlength := List.length_pos_of_ne_nil (isDigits_natDigits d.digits).1
  unfold Style.digitsText
  dsimp only
  split_ifs with hplace hwhole hpoint
  · exact exists_spells_whole hd hwhole
  · have hne : d.digits ≠ 0 := by
      rcases hd with hd | rfl
      · exact hd
      · exact absurd (Int.le_refl 0) hwhole
    exact exists_spells_inside hne (by omega) (by omega)
  · exact exists_spells_behind (by omega)
  · split
    · rename_i hnil
      rw [hnil] at hlength
      cases hlength
    · rename_i first hds
      refine exists_spells_digit hds ?_
      rw [hds, List.length_singleton]
      omega
    · rename_i first more hmore hds
      obtain ⟨c, more, rfl⟩ := List.exists_cons_of_ne_nil hmore
      refine exists_spells_digits hds ?_
      rw [hds, List.length_cons]
      omega

end

end NumberParts

theorem Number.text_int (n : Int) :
    (Number.int n).text = (if decide (n < 0) then ['-'] else []) ++
      (⟨natDigits n.natAbs, none, none⟩ : NumberParts).text := by
  have htext : (⟨natDigits n.natAbs, none, none⟩ : NumberParts).text = natDigits n.natAbs :=
    List.append_nil _
  rw [htext, text]
  by_cases hneg : n < 0 <;> simp [hneg]

/-- Parts that a binary64 number is written with. Their value is at most half a step away from a
number of 53 bits. -/
structure NumberParts.Writes (p : NumberParts) (x : Binary64) : Prop where
  wellFormed : p.WellFormed
  text : (Number.float x).text = (if x.negative then ['-'] else []) ++ p.text
  near : x.significand < 2 * Binary64.leastFull → x.IsNear p.value

theorem NumberParts.exists_writes (x : Binary64) : ∃ p : NumberParts, p.Writes x := by
  cases hzero : x.isZero with
  | true =>
    have hdigit : IsDigits ['0'] := isDigits_singleton rfl
    refine ⟨⟨['0'], some ['0'], none⟩,
      wellFormed_point hdigit (fun h => absurd h.2 (Nat.lt_irrefl 1)) hdigit, ?_, fun _ => ?_⟩
    · rw [Number.text, Style.text, hzero]
      rfl
    · have hvalue : (⟨['0'], some ['0'], none⟩ : NumberParts).value = 0 := by
        rw [value]
        exact zero_mul _
      rw [hvalue]
      exact Binary64.isNear_zero hzero
  | false =>
    obtain ⟨p, hp⟩ := exists_spells (Binary64.digits_shortest hzero)
    refine ⟨p, hp.wellFormed, ?_, fun hbits => ?_⟩
    · rw [Number.text, Style.text, hzero, ← hp.text]
      rfl
    · rw [hp.value]
      exact Binary64.isNear_shortest hzero hbits

/-- The text of a number has the parts of a number behind its sign. -/
theorem Number.exists_parts (n : Number) :
    ∃ (negative : Bool) (p : NumberParts), p.WellFormed ∧
      n.text = (if negative then ['-'] else []) ++ p.text := by
  cases n with
  | int n => exact ⟨_, _, NumberParts.wellFormed_whole n.natAbs, Number.text_int n⟩
  | float x =>
    obtain ⟨p, hp⟩ := NumberParts.exists_writes x
    exact ⟨x.negative, p, hp.wellFormed, hp.text⟩

end CollectionRunner.Json
