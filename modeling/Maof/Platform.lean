import Maof.Errors
import Maof.Workflows.Template

/-!
# The platform

What the program takes from outside itself: the hash functions, the Unicode
database, the clock's text form and the rounding of doubles.
-/

namespace Maof

/-- A number of any of Python's types, as it compares: by its exact value. -/
inductive PyNumber where
  | nan
  | inf (neg : Bool)
  | rat (q : Rat)
deriving DecidableEq

namespace PyNumber

def lt : PyNumber → PyNumber → Bool
  | .nan, _ => false
  | _, .nan => false
  | .inf neg, .inf neg' => neg && !neg'
  | .inf neg, .rat _ => neg
  | .rat _, .inf neg => !neg
  | .rat q, .rat q' => q < q'

def le (a b : PyNumber) : Bool := a.lt b || (a ≠ .nan && a = b)

theorem le_of_lt_false {a b : PyNumber} (ha : a ≠ .nan) (hb : b ≠ .nan) (h : a.lt b = false) : b.le a = true := by
  cases a with
  | nan => exact absurd rfl ha
  | inf neg =>
      cases b with
      | nan => exact absurd rfl hb
      | inf neg' => cases neg <;> cases neg' <;> simp_all [lt, le]
      | rat q => simp_all [lt, le]
  | rat q =>
      cases b with
      | nan => exact absurd rfl hb
      | inf neg => simp_all [lt, le]
      | rat q' =>
          have above : q' ≤ q := Rat.not_lt.mp (by simpa [lt] using h)
          by_cases same : q' = q
          · simp [le, same]
          · simp [le, lt, Rat.lt_of_le_of_ne above same]

end PyNumber

/-- The value a decimal spells, that of the double wherever `repr` is exact. -/
def PyFloat.spelled (neg : Bool) (coeff : Nat) (exp : Int) : Rat :=
  mkRat (PyFloat.scaled neg coeff exp (min exp 0)) (10 ^ (-exp).toNat)

structure Platform where
  unicode : Unicode
  /-- `hashlib.sha256(text.encode("utf-8")).hexdigest()`. -/
  sha256 : String → String
  /-- `hmac.new(secret, body, sha256).hexdigest()`. -/
  hmacSha256 : (secret body : String) → String
  /-- The double nearest to a decimal. -/
  nearest : PyFloat → PyFloat
  /-- The exact value of the double that `repr` writes as a decimal. -/
  exact : (neg : Bool) → (coeff : Nat) → (exp : Int) → Rat
  /-- `datetime.fromisoformat(text.replace("Z", "+00:00"))`, in seconds. -/
  parseRfc3339 : String → Option Int
  /-- `strftime("%Y-%m-%dT%H:%M:%SZ")` of a time so many seconds after another. -/
  later : (now : Int) → (delay : PyFloat) → Except Exn String

namespace Platform

/-! ## `float(value)` -/

def lowerAscii (s : List Char) : List Char := s.map Char.toLower

/-- Digits with single underscores between them, and the text after. -/
def takeDigits : List Char → List Char × List Char
  | [] => ([], [])
  | '_' :: c :: s =>
      if c.isDigit then let (ds, rest) := takeDigits s; (c :: ds, rest) else ([], '_' :: c :: s)
  | c :: s => if c.isDigit then let (ds, rest) := takeDigits s; (c :: ds, rest) else ([], c :: s)

def number (ds : List Char) : Nat := ds.foldl (fun n c => n * 10 + (c.toNat - 48)) 0

def takeSign : List Char → Bool × List Char
  | '-' :: s => (true, s)
  | '+' :: s => (false, s)
  | s => (false, s)

/-- The exponent part, if the rest of the text is one. -/
def exponent : List Char → Option Int
  | [] => some 0
  | c :: s =>
      if c = 'e' ∨ c = 'E' then
        let (neg, s) := takeSign s
        match takeDigits s with
        | (d :: ds, []) =>
            let n : Int := number (d :: ds)
            some (if neg then -n else n)
        | _ => none
      else none

def decimal (neg : Bool) (s : List Char) : Option PyFloat :=
  let (whole, rest) := takeDigits s
  let (frac, rest) := match rest with
    | '.' :: rest => takeDigits rest
    | rest => ([], rest)
  if whole.isEmpty && frac.isEmpty then none
  else (exponent rest).map fun e => .dec neg (number (whole ++ frac)) (e - frac.length)

/-- The decimal a string spells. -/
def parseFloat (s : List Char) : Option PyFloat :=
  let (neg, s) := takeSign (Template.strip s)
  let name := String.ofList (lowerAscii s)
  if name = "inf" ∨ name = "infinity" then some (.inf neg)
  else if name = "nan" then some .nan
  else decimal neg s

def float (p : Platform) : Json → Except Exn PyFloat
  | .bool b => .ok (.ofInt (if b then 1 else 0))
  | .int n => match p.nearest (.ofInt n) with
      | .dec neg coeff exp => .ok (.dec neg coeff exp)
      | _ => .error (.external "int too large to convert to float")
  | .float x => .ok x
  | .str s => match parseFloat s.toList with
      | some x => .ok (p.nearest x)
      | none => .error (.valueError ("could not convert string to float: " ++
          Template.reprText p.unicode (.str s)))
  | _ => .error (.typeError "float() argument must be a string or a real number")

/-- A float as it compares with the numbers of other types. -/
def value (p : Platform) : PyFloat → PyNumber
  | .nan => .nan
  | .inf neg => .inf neg
  | .dec neg coeff exp => .rat (p.exact neg coeff exp)

end Platform
end Maof
