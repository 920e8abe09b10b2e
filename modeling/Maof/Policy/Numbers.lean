import Maof.Policy.Actions
import Mathlib.Algebra.Order.Field.Power
import Mathlib.Data.Nat.Cast.Field
import Mathlib.Data.Rat.Cast.Order
import Mathlib.Tactic.FieldSimp
import Mathlib.Tactic.Linarith
import Mathlib.Tactic.Ring

/-!
# The numbers flags hold

A flag is text. What `float` reads of it is a number, exact here, and what `_fmt` writes of
a number reads back as the same number: an integer by its digits, another by its significant
digits and where the point stands, and the values beyond the rationals by name.
-/

namespace Maof

open JsonText Platform

/-! ## Floats as numbers -/

namespace PyNumber

theorem le_refl {a : PyNumber} (ha : a ≠ .nan) : a.le a = true := by
  simp [le, ha]

end PyNumber

namespace PyFloat

/-- The number a float stands for. -/
def number : PyFloat → PyNumber
  | .nan => .nan
  | .inf neg => .inf neg
  | .dec neg coeff exp => .rat (spelled neg coeff exp)

/-- `± n`. -/
def signed (neg : Bool) (n : ℚ) : ℚ := if neg then -n else n

theorem signed_mul (neg : Bool) (n m : ℚ) : signed neg (n * m) = signed neg n * m := by
  cases neg with
  | false => rfl
  | true => exact (neg_mul n m).symm

theorem scaled_eq {exp low : Int} (below : low ≤ exp) (neg : Bool) (coeff : Nat) :
    (scaled neg coeff exp low : ℚ) = signed neg coeff * (10 : ℚ) ^ (exp - low) := by
  obtain ⟨n, above⟩ := Int.eq_ofNat_of_zero_le (Int.sub_nonneg.mpr below)
  cases neg with
  | false => simp [scaled, signed, above]
  | true => simp [scaled, signed, above]

theorem spelled_eq (neg : Bool) (coeff : Nat) (exp : Int) :
    spelled neg coeff exp = signed neg coeff * (10 : ℚ) ^ exp := by
  have ten : (10 : ℚ) ≠ 0 := by norm_num
  have least : ((-exp).toNat : Int) = -min exp 0 := by omega
  have power : ((10 ^ (-exp).toNat : ℕ) : ℚ) = (10 : ℚ) ^ (-min exp 0) := by
    rw [← least, zpow_natCast]
    exact Nat.cast_pow 10 _
  rw [spelled, Rat.mkRat_eq_div, scaled_eq (min_le_left _ _), power, mul_div_assoc, ← zpow_sub₀ ten]
  congr 2
  omega

/-- Two decimals over a common power of ten. -/
theorem spelled_scaled {exp low : Int} (below : low ≤ exp) (neg : Bool) (coeff : Nat) :
    spelled neg coeff exp = (scaled neg coeff exp low : ℚ) * (10 : ℚ) ^ low := by
  have ten : (10 : ℚ) ≠ 0 := by norm_num
  rw [scaled_eq below, mul_assoc, ← zpow_add₀ ten, sub_add_cancel, spelled_eq]

theorem number_lt (x y : PyFloat) : x.lt y = x.number.lt y.number := by
  cases x with
  | nan => cases y <;> rfl
  | inf neg =>
      cases y with
      | nan => cases neg <;> rfl
      | inf neg' => cases neg <;> cases neg' <;> rfl
      | dec neg' coeff exp => cases neg <;> rfl
  | dec neg coeff exp =>
      cases y with
      | nan => rfl
      | inf neg' => cases neg' <;> rfl
      | dec neg' coeff' exp' =>
          have positive : 0 < (10 : ℚ) ^ min exp exp' := zpow_pos (by norm_num) _
          simp only [PyFloat.lt, number, PyNumber.lt, spelled_scaled (min_le_left exp exp'), spelled_scaled (min_le_right exp exp'),
            mul_lt_mul_iff_left₀ positive, Int.cast_lt]

theorem number_eq (x y : PyFloat) : x.eq y = true ↔ x ≠ .nan ∧ x.number = y.number := by
  cases x with
  | nan => simp [PyFloat.eq]
  | inf neg =>
      cases y with
      | nan => simp [PyFloat.eq, number]
      | inf neg' => simp [PyFloat.eq, number]
      | dec neg' coeff exp => simp [PyFloat.eq, number]
  | dec neg coeff exp =>
      cases y with
      | nan => simp [PyFloat.eq, number]
      | inf neg' => simp [PyFloat.eq, number]
      | dec neg' coeff' exp' =>
          have nonzero : (10 : ℚ) ^ min exp exp' ≠ 0 := zpow_ne_zero _ (by norm_num)
          simp only [PyFloat.eq, number, spelled_scaled (min_le_left exp exp'), spelled_scaled (min_le_right exp exp'),
            PyNumber.rat.injEq, mul_left_inj' nonzero, Int.cast_inj, decide_eq_true_eq, ne_eq, reduceCtorEq, not_false_eq_true,
            true_and]

theorem number_eq_nan {x : PyFloat} : x.number = .nan ↔ x = .nan := by
  cases x <;> simp [number]

theorem number_le (x y : PyFloat) : x.le y = x.number.le y.number := by
  have same : x.eq y = (x.number ≠ .nan && x.number = y.number) := by
    rw [Bool.eq_iff_iff, number_eq, Bool.and_eq_true, decide_eq_true_eq, decide_eq_true_eq, ne_eq, ne_eq, number_eq_nan]
  rw [PyFloat.le, PyNumber.le, number_lt, same]

theorem trimZeros_spec (fuel coeff : Nat) (exp : Int) : exp ≤ (trimZeros fuel coeff exp).2 ∧
    coeff = (trimZeros fuel coeff exp).1 * 10 ^ ((trimZeros fuel coeff exp).2 - exp).toNat := by
  induction fuel generalizing coeff exp with
  | zero => simp [trimZeros]
  | succ fuel ih =>
      rw [trimZeros]
      split
      next more =>
        obtain ⟨above, same⟩ := ih (coeff / 10) (exp + 1)
        generalize trimZeros fuel (coeff / 10) (exp + 1) = ce at above same
        refine ⟨by omega, ?_⟩
        have power : (ce.2 - exp).toNat = (ce.2 - (exp + 1)).toNat + 1 := by omega
        rw [power, pow_succ, ← mul_assoc, ← same]
        omega
      next => simp

theorem trimZeros_trimmed {fuel coeff : Nat} {exp : Int} (some : coeff ≠ 0) (enough : coeff ≤ fuel) :
    (trimZeros fuel coeff exp).1 % 10 ≠ 0 := by
  induction fuel generalizing coeff exp with
  | zero => omega
  | succ fuel ih =>
      rw [trimZeros]
      split
      next more => exact ih (by omega) (by omega)
      next done => exact fun divides => done ⟨some, divides⟩

/-- A coefficient without zeros stays. -/
theorem trimZeros_of_trimmed {fuel coeff : Nat} {exp : Int} (trimmed : coeff % 10 ≠ 0) :
    trimZeros fuel coeff exp = (coeff, exp) := by
  cases fuel with
  | zero => rfl
  | succ fuel => rw [trimZeros, if_neg fun more => trimmed more.2]

end PyFloat

/-! ## Reading digits -/

namespace Platform

/-- A text that goes on with no digit. -/
def DigitsEnd (rest : List Char) : Prop := ∀ c t, rest = c :: t → c.isDigit = false ∧ c ≠ '_'

theorem digitsEnd_cons {c : Char} {t : List Char} (other : c.isDigit = false) (mark : c ≠ '_') : DigitsEnd (c :: t) := by
  rintro c' t' ⟨⟩
  exact ⟨other, mark⟩

theorem takeDigits_digit {c : Char} (digit : c.isDigit = true) (s : List Char) :
    takeDigits (c :: s) = (c :: (takeDigits s).1, (takeDigits s).2) := by
  have mark : c ≠ '_' := by
    rintro rfl
    cases digit
  rw [takeDigits.eq_def]
  split
  next none => cases none
  next same => exact absurd (List.cons.inj same).1 mark
  next same =>
    obtain ⟨rfl, rfl⟩ := List.cons.inj same
    rw [if_pos digit]

theorem takeDigits_append {ds rest : List Char} (digits : Throughout (fun c => c.isDigit = true) ds) (ends : DigitsEnd rest) :
    takeDigits (ds ++ rest) = (ds, rest) := by
  induction ds with
  | nil =>
      cases rest with
      | nil => rfl
      | cons c t =>
          obtain ⟨other, mark⟩ := ends c t rfl
          rw [List.nil_append, takeDigits.eq_def]
          split
          next none => cases none
          next same => exact absurd (List.cons.inj same).1 mark
          next same =>
            obtain ⟨rfl, rfl⟩ := List.cons.inj same
            rw [if_neg (by rw [other]; exact Bool.false_ne_true)]
  | cons d ds ih =>
      obtain ⟨digit, digits⟩ := List.forall_mem_cons.mp digits
      rw [List.cons_append, takeDigits_digit digit, ih digits]

theorem number_eq (ds : List Char) : number ds = Nat.ofDigitChars 10 ds 0 := by
  rw [number, Nat.ofDigitChars_eq_foldl]
  congr 1
  funext n c
  rw [Nat.mul_comm]
  rfl

theorem number_digits (n : Nat) : number (digits n) = n := by
  rw [number_eq]
  exact Nat.ofDigitChars_toDigits (by decide) (by decide)

/-- Zeros in front do not count. -/
theorem number_zeros (k : Nat) (ds : List Char) : number (List.replicate k '0' ++ ds) = number ds := by
  rw [number_eq, number_eq, Nat.ofDigitChars_append, Nat.ofDigitChars_replicate_zero, Nat.mul_zero]

theorem digits_isDigit (n : Nat) : Throughout (fun c => c.isDigit = true) (digits n) :=
  fun _ member => Nat.isDigit_of_mem_toDigits (by decide) (by decide) member

theorem digits_ne_nil (n : Nat) : digits n ≠ [] := Nat.toDigits_ne_nil

theorem exponent_end : exponent [] = some 0 := rfl

/-- An exponent with its sign. -/
theorem exponent_signed {ds : List Char} (digits : Throughout (fun c => c.isDigit = true) ds) (some : ds ≠ []) (neg : Bool) :
    exponent ('e' :: (if neg then '-' else '+') :: ds) = Option.some (if neg then -(number ds : Int) else number ds) := by
  obtain ⟨d, ds, rfl⟩ := List.exists_cons_of_ne_nil some
  have all : takeDigits (d :: ds) = (d :: ds, []) := by
    have whole := @takeDigits_append _ [] digits (by rintro _ _ ⟨⟩)
    rwa [List.append_nil] at whole
  cases neg with
  | false => simp [exponent, takeSign, all]
  | true => simp [exponent, takeSign, all]

/-- A number without a point. -/
theorem decimal_whole {whole tail : List Char} {e : Int} (digits : Throughout (fun c => c.isDigit = true) whole)
    (some : whole ≠ []) (ends : DigitsEnd tail) (power : exponent tail = Option.some e) (neg : Bool) :
    decimal neg (whole ++ tail) = Option.some (.dec neg (number whole) e) := by
  rw [decimal, takeDigits_append digits ends]
  cases tail with
  | nil => simp [some, power]
  | cons c t =>
      have mark : c ≠ '.' := by
        rintro rfl
        cases power
      simp [some, power, mark]

/-- A number with a point. -/
theorem decimal_pointed {whole frac tail : List Char} {e : Int} (digits : Throughout (fun c => c.isDigit = true) whole)
    (some : whole ≠ []) (digits' : Throughout (fun c => c.isDigit = true) frac) (ends : DigitsEnd tail)
    (power : exponent tail = Option.some e) (neg : Bool) : decimal neg (whole ++ '.' :: (frac ++ tail)) =
      Option.some (.dec neg (number (whole ++ frac)) (e - frac.length)) := by
  rw [decimal, takeDigits_append digits (digitsEnd_cons rfl (by decide))]
  simp only [takeDigits_append digits' ends]
  simp [some, power]

/-- The exponent `repr` writes. -/
theorem exponent_power (power : Int) : exponent ('e' :: (if power < 0 then '-' else '+') ::
    if (digits power.natAbs).length < 2 then '0' :: digits power.natAbs else digits power.natAbs) = some power := by
  have lead (ds : List Char) (all : Throughout (fun c => c.isDigit = true) ds) (some : ds ≠ []) (reads : number ds = power.natAbs) :
      exponent ('e' :: (if power < 0 then '-' else '+') :: ds) = Option.some power := by
    have read := exponent_signed all some (decide (power < 0))
    simp only [decide_eq_true_eq, reads] at read
    rw [read]
    congr 1
    split <;> omega
  by_cases short : (digits power.natAbs).length < 2
  · rw [if_pos short]
    refine lead _ (List.forall_mem_cons.mpr ⟨by decide, digits_isDigit _⟩) (List.cons_ne_nil _ _) ?_
    exact (number_zeros 1 _).trans (number_digits _)
  · rw [if_neg short]
    exact lead _ (digits_isDigit _) (digits_ne_nil _) (number_digits _)

/-- What `repr` writes of a value that is no integer, or a large one, but for its sign. -/
theorem decimal_floatText {c : Nat} {e : Int} (trimmed : c % 10 ≠ 0) (pointed : e < 0 ∨ 16 < (digits c).length + e) (neg : Bool) :
    (∃ d t, floatText (.dec false c e) = d :: t ∧ d.isDigit = true) ∧
      decimal neg (floatText (.dec false c e)) = some (.dec neg c e) := by
  have some : c ≠ 0 := fun none => trimmed (by rw [none])
  have all := digits_isDigit c
  have reads := number_digits c
  have taken (n : Nat) : Throughout (fun c => c.isDigit = true) ((digits c).take n) :=
    fun d inside => all d (List.mem_of_mem_take inside)
  have dropped (n : Nat) : Throughout (fun c => c.isDigit = true) ((digits c).drop n) :=
    fun d inside => all d (List.mem_of_mem_drop inside)
  have long : 0 < (digits c).length := List.length_pos_iff.mpr (digits_ne_nil c)
  have first (n : Nat) (rest : List Char) (more : 0 < n) : (digits c).take n ≠ [] ∧
      ∃ d t, (digits c).take n ++ rest = d :: t ∧ d.isDigit = true := by
    have filled : (digits c).take n ≠ [] := by
      rw [ne_eq, List.take_eq_nil_iff, not_or]
      exact ⟨by omega, digits_ne_nil c⟩
    obtain ⟨d, t, same⟩ := List.exists_cons_of_ne_nil filled
    refine ⟨filled, d, t ++ rest, by rw [same, List.cons_append], taken n d ?_⟩
    rw [same]
    exact List.mem_cons_self
  have joined (n : Nat) : number ((digits c).take n ++ (digits c).drop n) = c := by
    rw [List.take_append_drop, reads]
  simp only [floatText, if_neg some, PyFloat.trimZeros_of_trimmed trimmed, Bool.false_eq_true, if_false]
  split
  next positional =>
    split
    next small =>
      refine ⟨⟨'0', _, rfl, rfl⟩, ?_⟩
      have read := @decimal_pointed ['0'] (zeros (-((digits c).length + e)) ++ digits c) [] 0
        (by decide) (by decide) (.append (fun d inside => by rw [List.eq_of_mem_replicate inside]; rfl) all) (by rintro _ _ ⟨⟩)
        exponent_end neg
      have coefficient : number (['0'] ++ (zeros (-((digits c).length + e)) ++ digits c)) = c := by
        rw [show ['0'] = List.replicate 1 '0' from rfl, number_zeros, zeros, number_zeros, reads]
      have power : (0 : Int) - ((zeros (-((digits c).length + e)) ++ digits c).length : Nat) = e := by
        rw [List.length_append, zeros, List.length_replicate]
        omega
      rw [coefficient, power, List.append_nil] at read
      exact read
    next =>
      rw [if_neg (by omega)]
      obtain ⟨filled, starts⟩ := first ((digits c).length + e : Int).toNat
        ('.' :: (digits c).drop ((digits c).length + e : Int).toNat) (by omega)
      refine ⟨starts, ?_⟩
      have read := @decimal_pointed _ _ [] 0 (taken ((digits c).length + e : Int).toNat) filled
        (dropped ((digits c).length + e : Int).toNat) (by rintro _ _ ⟨⟩) exponent_end neg
      have power : (0 : Int) - (((digits c).drop ((digits c).length + e : Int).toNat).length : Nat) = e := by
        rw [List.length_drop]
        omega
      rw [joined, power, List.append_nil] at read
      exact read
  next scientific =>
    rw [List.append_assoc]
    obtain ⟨filled, starts⟩ := first 1 _ Nat.one_pos
    refine ⟨starts, ?_⟩
    split
    next single =>
      have whole := decimal_whole (taken 1) filled (digitsEnd_cons rfl (by decide)) (exponent_power ((digits c).length + e - 1)) neg
      have coefficient : number ((digits c).take 1) = c := by
        rw [List.take_of_length_le (by omega), reads]
      have power : ((digits c).length + e - 1 : Int) = e := by omega
      rw [coefficient] at whole
      rw [List.nil_append, whole, power]
    next several =>
      have read := decimal_pointed (taken 1) filled (dropped 1) (digitsEnd_cons rfl (by decide))
        (exponent_power ((digits c).length + e - 1)) neg
      have power : ((digits c).length + e - 1 : Int) - (((digits c).drop 1).length : Nat) = e := by
        rw [List.length_drop]
        omega
      rw [joined, power] at read
      exact read

/-- The sign stands in front. -/
theorem floatText_sign (neg : Bool) (c : Nat) (e : Int) : floatText (.dec neg c e) =
    if neg then '-' :: floatText (.dec false c e) else floatText (.dec false c e) := by
  cases neg with
  | false => rfl
  | true => simp only [floatText, if_true, Bool.false_eq_true, if_false]

end Platform

/-! ## What `_fmt` writes -/

namespace PyFloat

/-- The significant digits of a value that is not zero. -/
theorem trimmed_of_ne_zero {coeff : Nat} (some : coeff ≠ 0) (neg : Bool) (exp : Int) :
    ∃ c e, c % 10 ≠ 0 ∧ exp ≤ e ∧ coeff = c * 10 ^ (e - exp).toNat ∧
      (PyFloat.dec neg c e).number = (PyFloat.dec neg coeff exp).number ∧
      floatText (.dec neg c e) = floatText (.dec neg coeff exp) := by
  obtain ⟨above, same⟩ := trimZeros_spec coeff coeff exp
  have trimmed := @trimZeros_trimmed _ _ exp some (le_refl coeff)
  have text : floatText (.dec neg (trimZeros coeff coeff exp).1 (trimZeros coeff coeff exp).2) =
      floatText (.dec neg coeff exp) := by
    have left : (trimZeros coeff coeff exp).1 ≠ 0 := fun none => trimmed (by rw [none])
    simp only [floatText, if_neg some, if_neg left, trimZeros_of_trimmed trimmed]
  generalize trimZeros coeff coeff exp = ce at above same trimmed text
  refine ⟨ce.1, ce.2, trimmed, above, same, ?_, text⟩
  have ten : (10 : ℚ) ≠ 0 := by norm_num
  have power : ((10 ^ (ce.2 - exp).toNat : ℕ) : ℚ) = (10 : ℚ) ^ (ce.2 - exp) := by
    rw [Nat.cast_pow, ← zpow_natCast, Int.toNat_of_nonneg (by omega)]
    rfl
  rw [number, number, spelled_eq, spelled_eq, PyNumber.rat.injEq]
  conv_rhs => rw [same]
  rw [Nat.cast_mul, power, signed_mul, mul_assoc, ← zpow_add₀ ten, sub_add_cancel]

end PyFloat

end Maof
