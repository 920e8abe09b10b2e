import Mathlib.Data.Nat.Notation
import Mathlib.Tactic.IntervalCases

/-!
# Base64

The encoder, and the lenient decoder that passes over characters outside the
alphabet and stops at a complete padding.
-/

namespace Data
namespace Base64

/-- The character of six bits. -/
def char (n : Nat) : Char :=
  if n < 26 then Char.ofNat (65 + n)
  else if n < 52 then Char.ofNat (97 + (n - 26))
  else if n < 62 then Char.ofNat (48 + (n - 52))
  else if n = 62 then '+'
  else '/'

/-- The six bits of a character of the alphabet. -/
def value (c : Char) : Option Nat :=
  if 'A' ≤ c ∧ c ≤ 'Z' then some (c.toNat - 65)
  else if 'a' ≤ c ∧ c ≤ 'z' then some (c.toNat - 97 + 26)
  else if '0' ≤ c ∧ c ≤ '9' then some (c.toNat - 48 + 52)
  else if c = '+' then some 62
  else if c = '/' then some 63
  else none

/-- Three bytes at a time. -/
def encode : List UInt8 → List Char
  | [] => []
  | [a] => [char (a.toNat / 4), char (a.toNat % 4 * 16), '=', '=']
  | [a, b] =>
      [char (a.toNat / 4), char (a.toNat % 4 * 16 + b.toNat / 16), char (b.toNat % 16 * 4), '=']
  | a :: b :: c :: rest =>
      char (a.toNat / 4) :: char (a.toNat % 4 * 16 + b.toNat / 16) ::
        char (b.toNat % 16 * 4 + c.toNat / 64) :: char (c.toNat % 64) :: encode rest

/-- How far a quad has been read: the bits left over of its last character. -/
inductive Quad where
  | zero
  | one (left : Nat)
  | two (left : Nat)
  | three (left : Nat)

inductive Error where
  /-- One data character more than a multiple of four. -/
  | dangling
  | padding
deriving DecidableEq, Repr

/-- The loop over the characters, with the paddings in a row counted. -/
def scan : List Char → Quad → Nat → Except Error (List UInt8)
  | [], .zero, _ => .ok []
  | [], .one _, _ => .error .dangling
  | [], _, _ => .error .padding
  | c :: text, quad, pads =>
      if c = '=' then
        match quad with
        | .two _ => if 4 ≤ 2 + (pads + 1) then .ok [] else scan text quad (pads + 1)
        | .three _ => if 4 ≤ 3 + (pads + 1) then .ok [] else scan text quad (pads + 1)
        | _ => scan text quad pads
      else match value c with
        | none => scan text quad pads
        | some n =>
            match quad with
            | .zero => scan text (.one n) 0
            | .one left => (scan text (.two (n % 16)) 0).map (UInt8.ofNat (left * 4 + n / 16) :: ·)
            | .two left => (scan text (.three (n % 4)) 0).map (UInt8.ofNat (left * 16 + n / 4) :: ·)
            | .three left => (scan text .zero 0).map (UInt8.ofNat (left * 64 + n) :: ·)

def decode (text : List Char) : Except Error (List UInt8) := scan text .zero 0

theorem char_ne_pad {n : Nat} (small : n < 64) : char n ≠ '=' := by
  interval_cases n <;> decide

@[simp] theorem value_char {n : Nat} (small : n < 64) : value (char n) = some n := by
  interval_cases n <;> rfl

theorem ascii_char (n : Nat) : (char n).toNat < 128 := by
  by_cases small : n < 64
  · interval_cases n <;> decide
  · have last : char n = '/' := by
      unfold char
      rw [if_neg (by omega), if_neg (by omega), if_neg (by omega), if_neg (by omega)]
    rw [last]
    decide

/-- An encoding is ASCII. -/
theorem ascii_of_mem_encode {bytes : List UInt8} {c : Char} (member : c ∈ encode bytes) : c.toNat < 128 := by
  have pad : '='.toNat < 128 := by
    decide
  induction bytes using encode.induct with
  | case1 => cases member
  | case2 a =>
      simp only [encode, List.mem_cons, List.not_mem_nil, or_false] at member
      rcases member with rfl | rfl | rfl | rfl <;> first | exact ascii_char _ | exact pad
  | case3 a b =>
      simp only [encode, List.mem_cons, List.not_mem_nil, or_false] at member
      rcases member with rfl | rfl | rfl | rfl <;> first | exact ascii_char _ | exact pad
  | case4 a b c rest ih =>
      simp only [encode, List.mem_cons] at member
      rcases member with rfl | rfl | rfl | rfl | later
      · exact ascii_char _
      · exact ascii_char _
      · exact ascii_char _
      · exact ascii_char _
      · exact ih later

section scan

variable {n : Nat} {text : List Char} {pads : Nat}

theorem scan_zero (small : n < 64) : scan (char n :: text) .zero pads = scan text (.one n) 0 := by
  simp [scan, char_ne_pad small, small]

theorem scan_one (small : n < 64) (left : Nat) : scan (char n :: text) (.one left) pads =
    (scan text (.two (n % 16)) 0).map (UInt8.ofNat (left * 4 + n / 16) :: ·) := by
  simp [scan, char_ne_pad small, small]

theorem scan_two (small : n < 64) (left : Nat) : scan (char n :: text) (.two left) pads =
    (scan text (.three (n % 4)) 0).map (UInt8.ofNat (left * 16 + n / 4) :: ·) := by
  simp [scan, char_ne_pad small, small]

theorem scan_three (small : n < 64) (left : Nat) : scan (char n :: text) (.three left) pads =
    (scan text .zero 0).map (UInt8.ofNat (left * 64 + n) :: ·) := by
  simp [scan, char_ne_pad small, small]

theorem scan_two_pads (left : Nat) : scan ['=', '='] (.two left) 0 = .ok [] := rfl

theorem scan_one_pad (left : Nat) : scan ['='] (.three left) 0 = .ok [] := rfl

end scan

theorem ofNat_eq {n : Nat} {a : UInt8} (same : n = a.toNat) : UInt8.ofNat n = a := by
  rw [same, UInt8.ofNat_toNat]

/-- What was encoded is decoded to itself. -/
theorem decode_encode (bytes : List UInt8) : decode (encode bytes) = .ok bytes := by
  unfold decode
  induction bytes using encode.induct with
  | case1 => rfl
  | case2 a =>
      have bound := a.toNat_lt
      rw [encode, scan_zero (by omega), scan_one (by omega), scan_two_pads]
      have first : UInt8.ofNat (a.toNat / 4 * 4 + a.toNat % 4 * 16 / 16) = a := ofNat_eq (by omega)
      simp only [Except.map, first]
  | case3 a b =>
      have bound := a.toNat_lt
      have bound' := b.toNat_lt
      rw [encode, scan_zero (by omega), scan_one (by omega), scan_two (by omega), scan_one_pad]
      have first : UInt8.ofNat (a.toNat / 4 * 4 + (a.toNat % 4 * 16 + b.toNat / 16) / 16) = a := ofNat_eq (by omega)
      have second : UInt8.ofNat ((a.toNat % 4 * 16 + b.toNat / 16) % 16 * 16 + b.toNat % 16 * 4 / 4) = b :=
        ofNat_eq (by omega)
      simp only [Except.map, first, second]
  | case4 a b c rest ih =>
      have bound := a.toNat_lt
      have bound' := b.toNat_lt
      have bound'' := c.toNat_lt
      rw [encode, scan_zero (by omega), scan_one (by omega), scan_two (by omega), scan_three (by omega), ih]
      have first : UInt8.ofNat (a.toNat / 4 * 4 + (a.toNat % 4 * 16 + b.toNat / 16) / 16) = a := ofNat_eq (by omega)
      have second : UInt8.ofNat ((a.toNat % 4 * 16 + b.toNat / 16) % 16 * 16 +
          (b.toNat % 16 * 4 + c.toNat / 64) / 4) = b := ofNat_eq (by omega)
      have third : UInt8.ofNat ((b.toNat % 16 * 4 + c.toNat / 64) % 4 * 64 + c.toNat % 64) = c := ofNat_eq (by omega)
      simp only [Except.map, first, second, third]

end Base64
end Data
