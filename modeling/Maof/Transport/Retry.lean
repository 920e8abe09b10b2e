import Maof.Platform

/-!
# Retry schedules

Durations, backoff policies and the attempt header, which every broker adapter
reads in the same way.
-/

namespace Maof

open Data (Dict)

/-- Python's number syntax beyond ASCII: the decimal digits of the Unicode database, and
how many digits an integer's text may have. -/
structure Numerals where
  digit : Char → Option Nat
  maxStrDigits : Nat := 4300

namespace Numerals

variable (n : Numerals)

/-- `\d`, with its value. -/
def digitOf (c : Char) : Option Nat :=
  if c.toNat < 128 then (if c.isDigit then some (c.toNat - 48) else none) else n.digit c

def isDigit (c : Char) : Bool := (n.digitOf c).isSome

def number (ds : List Nat) : Nat := ds.foldl (fun acc d => acc * 10 + d) 0

/-- The digits after the first, with single underscores between them. -/
def moreDigits : List Char → Option (List Nat)
  | [] => some []
  | '_' :: c :: s => do
      let d ← n.digitOf c
      return d :: (← moreDigits s)
  | c :: s => do
      let d ← n.digitOf c
      return d :: (← moreDigits s)

def digitsOf : List Char → Option (List Nat)
  | [] => none
  | c :: s => do
      let d ← n.digitOf c
      return d :: (← n.moreDigits s)

/-- The integer a text spells, if it spells one. -/
def parseInt (text : List Char) : Option Int :=
  let (neg, s) := Platform.takeSign (Template.strip text)
  match n.digitsOf s with
  | some ds =>
      if ds.length ≤ n.maxStrDigits then some (if neg then -(number ds : Int) else number ds) else none
  | none => none

/-- `int(text)`. -/
def int (u : Unicode) (text : String) : Except Exn Int :=
  match n.parseInt text.toList with
  | some i => .ok i
  | none => .error (.valueError ("invalid literal for int() with base 10: " ++ Template.reprText u (.str text)))

theorem digit_range {c : Char} (digit : c.isDigit = true) : 48 ≤ c.toNat ∧ c.toNat ≤ 57 := by
  simp only [Char.isDigit, Bool.and_eq_true, decide_eq_true_eq] at digit
  exact ⟨UInt32.le_iff_toNat_le.mp digit.1, UInt32.le_iff_toNat_le.mp digit.2⟩

theorem digitOf_digit {c : Char} (digit : c.isDigit = true) : n.digitOf c = some (c.toNat - 48) := by
  have ascii : c.toNat < 128 := by
    have range := digit_range digit
    omega
  rw [digitOf, if_pos ascii, if_pos digit]

theorem moreDigits_digits {s : List Char} (digits : ∀ c ∈ s, c.isDigit = true) :
    n.moreDigits s = some (s.map fun c => c.toNat - 48) := by
  induction s with
  | nil => rfl
  | cons c s ih =>
      have here := digits c List.mem_cons_self
      have plain : c ≠ '_' := by
        intro under
        rw [under] at here
        exact absurd here (by decide)
      have rest := ih fun c' member => digits c' (List.mem_cons_of_mem _ member)
      rw [moreDigits]
      · rw [digitOf_digit n here, rest]
        rfl
      · intro c' s' under
        exact absurd under plain

theorem number_digits (s : List Char) : number (s.map fun c => c.toNat - 48) = Nat.ofDigitChars 10 s 0 := by
  have step : (fun (acc : Nat) (c : Char) => acc * 10 + (c.toNat - 48)) =
      fun sofar c => 10 * sofar + (c.toNat - '0'.toNat) := by
    funext acc c
    rw [Nat.mul_comm]
    rfl
  rw [number, Nat.ofDigitChars_eq_foldl, List.foldl_map, step]

theorem strip_digits {s : List Char} (digits : ∀ c ∈ s, c.isDigit = true) : Template.strip s = s := by
  have solid : ∀ c ∈ s, Template.isSpace c = false := by
    intro c member
    have range := digit_range (digits c member)
    simp only [Template.isSpace, Bool.or_eq_false_iff, Bool.and_eq_false_iff, decide_eq_false_iff_not]
    omega
  have front : ∀ t : List Char, (∀ c ∈ t, Template.isSpace c = false) → t.dropWhile Template.isSpace = t := by
    intro t solid
    cases t with
    | nil => rfl
    | cons c t => simp [solid c List.mem_cons_self]
  rw [Template.strip, front s solid, front _ fun c member => solid c (List.mem_reverse.mp member), List.reverse_reverse]

/-- The text of a number is read as this number, if it is not too long to be read. -/
theorem int_toString {u : Unicode} {k : Nat} (short : (Nat.toDigits 10 k).length ≤ n.maxStrDigits) :
    n.int u (toString (k : Int)) = .ok k := by
  have digits : ∀ c ∈ Nat.toDigits 10 k, c.isDigit = true := fun c member =>
    Nat.isDigit_of_mem_toDigits (by decide) (by decide) member
  have text : (toString (k : Int)).toList = Nat.toDigits 10 k := by
    change (Nat.repr k).toList = _
    rw [Nat.repr, String.toList_ofList]
  cases spelled : Nat.toDigits 10 k with
  | nil => exact absurd spelled Nat.toDigits_ne_nil
  | cons c s =>
      rw [spelled] at digits text short
      have first := digits c List.mem_cons_self
      have unsigned : Platform.takeSign (c :: s) = (false, c :: s) := by
        unfold Platform.takeSign
        split
        · next same =>
            cases same
            exact absurd first (by decide)
        · next same =>
            cases same
            exact absurd first (by decide)
        · rfl
      have read : n.digitsOf (c :: s) = some ((c :: s).map fun c => c.toNat - 48) := by
        rw [digitsOf, digitOf_digit n first, moreDigits_digits n fun c' member => digits c' (List.mem_cons_of_mem _ member)]
        rfl
      have value : number ((c :: s).map fun c => c.toNat - 48) = k := by
        rw [number_digits, ← spelled, Nat.ofDigitChars_ten_toDigits]
      rw [int, text, parseInt, strip_digits digits, unsigned]
      simp only
      rw [read]
      simp only
      rw [if_pos (by rwa [List.length_map]), value]
      rfl

end Numerals

namespace PyFloat

/-- The product, rounded; infinities as IEEE has them. -/
def times (nearest : PyFloat → PyFloat) : PyFloat → PyFloat → PyFloat
  | .dec s c e, .dec s' c' e' => nearest (.dec (s ^^ s') (c * c') (e + e'))
  | .inf s, .dec s' c' _ => if c' = 0 then .nan else .inf (s ^^ s')
  | .dec s c _, .inf s' => if c = 0 then .nan else .inf (s ^^ s')
  | .inf s, .inf s' => .inf (s ^^ s')
  | _, _ => .nan

/-- `int(x)`, towards zero. -/
def truncate : PyFloat → Except Exn Int
  | .dec neg coeff exp =>
      let n : Int := if 0 ≤ exp then coeff * 10 ^ exp.toNat else coeff / 10 ^ (-exp).toNat
      .ok (if neg then -n else n)
  | .inf _ => .error (.external "cannot convert float infinity to integer")
  | .nan => .error (.valueError "cannot convert float NaN to integer")

theorem truncate_ok {x : PyFloat} : (∃ n, x.truncate = .ok n) ↔ ∃ neg coeff exp, x = .dec neg coeff exp := by
  cases x with
  | dec neg coeff exp => exact ⟨fun _ => ⟨neg, coeff, exp, rfl⟩, fun _ => ⟨_, rfl⟩⟩
  | inf neg => simp [truncate]
  | nan => simp [truncate]

/-- A factor of a finite product is finite. -/
theorem truncate_times {nearest : PyFloat → PyFloat} {x y : PyFloat} (finite : ∃ n, (x.times nearest y).truncate = .ok n) :
    ∃ n, x.truncate = .ok n := by
  obtain ⟨neg, coeff, exp, product⟩ := truncate_ok.mp finite
  apply truncate_ok.mpr
  cases x with
  | dec neg' coeff' exp' => exact ⟨neg', coeff', exp', rfl⟩
  | inf neg' =>
      cases y with
      | dec s c e =>
          simp only [times] at product
          split at product <;> cases product
      | inf s => cases product
      | nan => cases product
  | nan => cases y <;> cases product

end PyFloat

/-- Header carrying the 1-based delivery attempt count. -/
def attemptHeader : String := "x-maof-attempt"

namespace Retry

variable (p : Platform) (n : Numerals)

def unitSeconds : Dict String PyFloat :=
  [("ms", .dec false 1 (-3)), ("s", .dec false 1 0), ("m", .dec false 60 0), ("h", .dec false 3600 0),
    ("d", .dec false 86400 0)]

/-- The digits after a decimal point, if there are any. -/
def fraction : List Char → List Char × List Char
  | '.' :: s =>
      let digits := s.takeWhile n.isDigit
      if digits.isEmpty then ([], '.' :: s) else (digits, s.dropWhile n.isDigit)
  | s => ([], s)

/-- `_DURATION_RE.match`: the value, and the unit. -/
def matchDuration (text : List Char) : Option (PyFloat × PyFloat) := do
  let s := text.dropWhile Template.isSpace
  let whole := s.takeWhile n.isDigit
  let (frac, rest) := fraction n (s.dropWhile n.isDigit)
  let seconds ← Dict.get unitSeconds (String.ofList (Template.strip rest))
  if whole.isEmpty then none
  else
    let digits := (whole ++ frac).filterMap n.digitOf
    some (.dec false (Numerals.number digits) (-frac.length), seconds)

/-- `parse_duration`, in seconds. -/
def parseDuration (text : String) : Except Exn PyFloat :=
  match matchDuration n text.toList with
  | some (value, unit) => .ok ((p.nearest value).times p.nearest (p.nearest unit))
  | none => .error (.valueError ("invalid duration: " ++ Template.reprText p.unicode (.str text)))

end Retry

/-- A fixed backoff schedule. -/
structure RetryPolicy where
  delays : List PyFloat

/-- What is read item by item was read of each item. -/
theorem forall₂_of_mapM {α β : Type} {f : α → Except Exn β} {xs : List α} {ys : List β} (h : xs.mapM f = .ok ys) :
    List.Forall₂ (fun x y => f x = .ok y) xs ys := by
  induction xs generalizing ys with
  | nil =>
      cases h
      exact .nil
  | cons x xs ih =>
      rw [List.mapM_cons] at h
      obtain ⟨y, first, h⟩ := ok_of_bind h
      obtain ⟨ys', rest, h⟩ := ok_of_bind h
      cases h
      exact .cons first (ih rest)

namespace RetryPolicy

def ofSteps (p : Platform) (n : Numerals) (steps : List String) : Except Exn RetryPolicy := do
  return { delays := ← steps.mapM (Retry.parseDuration p n) }

/-- Delay before the next retry after the delivery with this number failed; none when the
budget is exhausted. -/
def delayForAttempt (policy : RetryPolicy) (attempt : Int) : Option PyFloat :=
  if 1 ≤ attempt ∧ attempt ≤ policy.delays.length then policy.delays[(attempt - 1).toNat]? else none

theorem delayForAttempt_isSome {policy : RetryPolicy} {attempt : Int} :
    (policy.delayForAttempt attempt).isSome ↔ 1 ≤ attempt ∧ attempt ≤ policy.delays.length := by
  unfold delayForAttempt
  split
  · next within =>
      have inside : (attempt - 1).toNat < policy.delays.length := by
        omega
      rw [List.getElem?_eq_getElem inside]
      exact ⟨fun _ => within, fun _ => rfl⟩
  · next outside => simp [outside]

/-- A policy has one delay for each step. -/
theorem length_ofSteps {p : Platform} {n : Numerals} {steps : List String} {policy : RetryPolicy}
    (parsed : ofSteps p n steps = .ok policy) : policy.delays.length = steps.length := by
  obtain ⟨delays, mapped, made⟩ := ok_of_bind parsed
  cases made
  exact (forall₂_of_mapM mapped).length_eq.symm

end RetryPolicy

end Maof
