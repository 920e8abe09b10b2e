import Maof.Data.Json
import Mathlib.Data.List.Sort

/-!
# JSON text

`json.dumps` with `sort_keys=True, separators=(",", ":")` and its default
`ensure_ascii`: the canonical form that idempotency keys and signatures cover; and
without these, the form checkpoints are saved in.
-/

namespace Maof

namespace JsonText

def digits (n : Nat) : List Char := Nat.toDigits 10 n

theorem digits_inj {n m : Nat} (h : digits n = digits m) : n = m := by
  have left := Nat.ofDigitChars_toDigits (n := n) (b := 10) (by decide) (by decide)
  have right := Nat.ofDigitChars_toDigits (n := m) (b := 10) (by decide) (by decide)
  exact left.symm.trans ((congrArg (Nat.ofDigitChars 10 · 0) h).trans right)

def intText (n : Int) : List Char :=
  if n < 0 then '-' :: digits n.natAbs else digits n.natAbs

theorem intText_inj {n m : Int} (h : intText n = intText m) : n = m := by
  have apart : ∀ k l : Nat, '-' :: digits k ≠ digits l := by
    intro k l same
    have digit := Nat.isDigit_of_mem_toDigits (by decide) (by decide) (same ▸ List.mem_cons_self : '-' ∈ digits l)
    exact absurd digit (by decide)
  unfold intText at h
  split at h
  · split at h
    · have := digits_inj (List.cons.inj h).2
      omega
    · exact absurd h (apart _ _)
  · split at h
    · exact absurd h.symm (apart _ _)
    · have := digits_inj h
      omega

/-- The significant digits of a coefficient, and the exponent they leave. -/
def trimZeros : Nat → Nat → Int → Nat × Int
  | 0, coeff, exp => (coeff, exp)
  | fuel + 1, coeff, exp =>
      if coeff ≠ 0 ∧ coeff % 10 = 0 then trimZeros fuel (coeff / 10) (exp + 1) else (coeff, exp)

def zeros (n : Int) : List Char := List.replicate n.toNat '0'

/-- `float.__repr__`: positional between `1e-4` and `1e16`, otherwise scientific. -/
def floatText : PyFloat → List Char
  | .nan => "nan".toList
  | .inf neg => if neg then "-inf".toList else "inf".toList
  | .dec neg coeff exp =>
      let (c, e) := if coeff = 0 then (0, 0) else trimZeros coeff coeff exp
      let ds := digits c
      let point : Int := ds.length + e
      let body :=
        if -4 < point ∧ point ≤ 16 then
          if point ≤ 0 then '0' :: '.' :: zeros (-point) ++ ds
          else if ds.length ≤ point then ds ++ zeros (point - ds.length) ++ ['.', '0']
          else ds.take point.toNat ++ '.' :: ds.drop point.toNat
        else
          let power := point - 1
          let sign := if power < 0 then '-' else '+'
          let width := digits power.natAbs
          let lead := if width.length < 2 then '0' :: width else width
          ds.take 1 ++ (if ds.length = 1 then [] else '.' :: ds.drop 1) ++ 'e' :: sign :: lead
      if neg then '-' :: body else body

/-- The names `json.dumps` gives the values JSON has no number for. -/
def jsonFloat : PyFloat → List Char
  | .nan => "NaN".toList
  | .inf neg => if neg then "-Infinity".toList else "Infinity".toList
  | x => floatText x

def hexDigit (n : Nat) : Char := Nat.digitChar (n % 16)

def hex4 (n : Nat) : List Char :=
  [hexDigit (n / 4096), hexDigit (n / 256), hexDigit (n / 16), hexDigit n]

def unicodeEscape (n : Nat) : List Char := '\\' :: 'u' :: hex4 n

/-- `ensure_ascii`: what is not printable ASCII becomes one or two UTF-16 code units. -/
def escape (c : Char) : List Char :=
  if c = '"' then ['\\', '"']
  else if c = '\\' then ['\\', '\\']
  else if c = '\n' then ['\\', 'n']
  else if c = '\r' then ['\\', 'r']
  else if c = '\t' then ['\\', 't']
  else if c.val = 12 then ['\\', 'f']
  else if c.val = 8 then ['\\', 'b']
  else if 32 ≤ c.toNat ∧ c.toNat ≤ 126 then [c]
  else if c.toNat < 0x10000 then unicodeEscape c.toNat
  else
    let v := c.toNat - 0x10000
    unicodeEscape (0xd800 + v / 0x400) ++ unicodeEscape (0xdc00 + v % 0x400)

def escaped (s : List Char) : List Char := s.flatMap escape

def quoted (s : String) : List Char := '"' :: escaped s.toList ++ ['"']

/-- `",".join(parts)`. -/
def commas : List (List Char) → List Char
  | [] => []
  | [x] => x
  | x :: xs => x ++ ',' :: commas xs

def sortFields {α : Type} (fields : List (String × α)) : List (String × α) :=
  fields.insertionSort fun a b => a.1 ≤ b.1

def member (f : String × List Char) : List Char := quoted f.1 ++ ':' :: f.2

mutual
def canonical : Json → List Char
  | .null => "null".toList
  | .bool b => if b then "true".toList else "false".toList
  | .int n => intText n
  | .float x => jsonFloat x
  | .str s => quoted s
  | .arr xs => '[' :: commas (canonicalItems xs) ++ [']']
  | .obj fields => '{' :: commas ((sortFields (canonicalFields fields)).map member) ++ ['}']

def canonicalItems : List Json → List (List Char)
  | [] => []
  | x :: xs => canonical x :: canonicalItems xs

def canonicalFields : List (String × Json) → List (String × List Char)
  | [] => []
  | (k, x) :: fields => (k, canonical x) :: canonicalFields fields
end

/-- `", ".join(parts)`. -/
def spaced : List (List Char) → List Char
  | [] => []
  | [x] => x
  | x :: xs => x ++ ',' :: ' ' :: spaced xs

mutual
/-- `json.dumps(value)`, with its default separators and the fields as they stand. -/
def dumps : Json → List Char
  | .null => "null".toList
  | .bool b => if b then "true".toList else "false".toList
  | .int n => intText n
  | .float x => jsonFloat x
  | .str s => quoted s
  | .arr xs => '[' :: spaced (dumpsItems xs) ++ [']']
  | .obj fields => '{' :: spaced (dumpsFields fields) ++ ['}']

def dumpsItems : List Json → List (List Char)
  | [] => []
  | x :: xs => dumps x :: dumpsItems xs

def dumpsFields : List (String × Json) → List (List Char)
  | [] => []
  | (k, x) :: fields => (quoted k ++ ':' :: ' ' :: dumps x) :: dumpsFields fields
end

/-! ## The text is printable ASCII -/

def Printable (c : Char) : Prop := 32 ≤ c.toNat ∧ c.toNat ≤ 126

instance (c : Char) : Decidable (Printable c) := inferInstanceAs (Decidable (_ ∧ _))

/-- Every character is printable. -/
def AllPrintable (s : List Char) : Prop := ∀ c ∈ s, Printable c

instance (s : List Char) : Decidable (AllPrintable s) := List.decidableBAll Printable s

theorem AllPrintable.append {s t : List Char} (hs : AllPrintable s) (ht : AllPrintable t) :
    AllPrintable (s ++ t) := fun c h =>
  (List.mem_append.mp h).elim (hs c) (ht c)

theorem AllPrintable.cons {c : Char} {s : List Char} (hc : Printable c) (hs : AllPrintable s) :
    AllPrintable (c :: s) := List.forall_mem_cons.mpr ⟨hc, hs⟩

/-- Every character of the text. -/
def Throughout (P : Char → Prop) (s : List Char) : Prop := ∀ c ∈ s, P c

instance {P : Char → Prop} [DecidablePred P] (s : List Char) : Decidable (Throughout P s) :=
  List.decidableBAll P s

/-- What holds of every character a number is spelled with. -/
structure Spells (P : Char → Prop) : Prop where
  digit : ∀ c : Char, c.isDigit = true → P c
  mark : Throughout P "+-.einfaNIty".toList

theorem Throughout.append {P : Char → Prop} {s t : List Char} (hs : Throughout P s) (ht : Throughout P t) :
    Throughout P (s ++ t) := fun c h => (List.mem_append.mp h).elim (hs c) (ht c)

theorem Throughout.cons {P : Char → Prop} {c : Char} {s : List Char} (hc : P c) (hs : Throughout P s) :
    Throughout P (c :: s) := List.forall_mem_cons.mpr ⟨hc, hs⟩

section spells

variable {P : Char → Prop} (h : Spells P)
include h

theorem Spells.digits (n : Nat) : Throughout P (digits n) :=
  fun c member => h.digit c (Nat.isDigit_of_mem_toDigits (by decide) (by decide) member)

theorem Spells.marks {s : List Char} (within : s ⊆ "+-.einfaNIty".toList) : Throughout P s :=
  fun c member => h.mark c (within member)

theorem Spells.intText (n : Int) : Throughout P (intText n) := by
  unfold JsonText.intText
  split
  · exact .cons (h.mark _ (by decide)) (h.digits _)
  · exact h.digits _

theorem Spells.zeros (n : Int) : Throughout P (zeros n) := by
  intro c member
  rw [List.eq_of_mem_replicate member]
  exact h.digit _ (by decide)

theorem Spells.floatText (x : PyFloat) : Throughout P (floatText x) := by
  cases x with
  | nan => exact h.marks (by decide)
  | inf neg => cases neg <;> exact h.marks (by decide)
  | dec neg coeff exp =>
      simp only [JsonText.floatText]
      generalize (if coeff = 0 then ((0 : Nat), (0 : Int)) else trimZeros coeff coeff exp) = ce
      have ds := h.digits ce.1
      have body : ∀ b : List Char, Throughout P b → Throughout P (if neg then '-' :: b else b) := by
        intro b hb
        split
        · exact .cons (h.mark _ (by decide)) hb
        · exact hb
      apply body
      split
      · split
        · exact .append (.cons (h.digit _ (by decide)) (.cons (h.mark _ (by decide)) (h.zeros _))) ds
        · split
          · exact .append (.append ds (h.zeros _))
              (.cons (h.mark _ (by decide)) (.cons (h.digit _ (by decide)) fun _ none => by cases none))
          · exact .append (fun c inside => ds c (List.mem_of_mem_take inside))
              (.cons (h.mark _ (by decide)) fun c inside => ds c (List.mem_of_mem_drop inside))
      · refine .append (.append (fun c inside => ds c (List.mem_of_mem_take inside)) ?_)
          (.cons (h.mark _ (by decide)) (.cons ?_ ?_))
        · split
          · exact fun _ none => by cases none
          · exact .cons (h.mark _ (by decide)) fun c inside => ds c (List.mem_of_mem_drop inside)
        · split <;> exact h.mark _ (by decide)
        · split
          · exact .cons (h.digit _ (by decide)) (h.digits _)
          · exact h.digits _

theorem Spells.jsonFloat (x : PyFloat) : Throughout P (jsonFloat x) := by
  cases x with
  | nan => exact h.marks (by decide)
  | inf neg => cases neg <;> exact h.marks (by decide)
  | dec neg coeff exp => exact h.floatText (.dec neg coeff exp)

end spells

theorem spells_printable : Spells Printable where
  digit c digit := by
    simp only [Char.isDigit, Bool.and_eq_true, decide_eq_true_eq, ge_iff_le] at digit
    have low : 48 ≤ c.toNat := digit.1
    have high : c.toNat ≤ 57 := digit.2
    exact ⟨by omega, by omega⟩
  mark := by decide

theorem hexDigit_printable (n : Nat) : Printable (hexDigit n) :=
  (by decide : ∀ k : Fin 16, Printable (Nat.digitChar k)) ⟨n % 16, Nat.mod_lt _ (by decide)⟩

theorem unicodeEscape_printable (n : Nat) : AllPrintable (unicodeEscape n) :=
  .cons (by decide) (.cons (by decide) (.cons (hexDigit_printable _) (.cons (hexDigit_printable _)
    (.cons (hexDigit_printable _) (.cons (hexDigit_printable _) fun _ h => by cases h)))))

theorem escape_printable (c : Char) : AllPrintable (escape c) := by
  unfold escape
  repeat' split
  all_goals first
    | decide
    | exact unicodeEscape_printable _
    | exact (unicodeEscape_printable _).append (unicodeEscape_printable _)
    | exact .cons ‹_› fun _ h => by cases h

theorem quoted_printable (s : String) : AllPrintable (quoted s) := by
  refine .cons (by decide) (.append ?_ (by decide))
  intro c member
  obtain ⟨d, _, inside⟩ := List.mem_flatMap.mp member
  exact escape_printable d c inside

theorem commas_printable {parts : List (List Char)} (h : ∀ p ∈ parts, AllPrintable p) :
    AllPrintable (commas parts) := by
  induction parts with
  | nil => exact fun _ h => by cases h
  | cons x xs ih =>
      have first := h x List.mem_cons_self
      have rest := ih fun p hp => h p (List.mem_cons_of_mem _ hp)
      cases xs with
      | nil => exact first
      | cons y ys => exact first.append (.cons (by decide) rest)

theorem members_printable {fields : List (String × List Char)}
    (h : ∀ f ∈ fields, AllPrintable f.2) :
    ∀ p ∈ (sortFields fields).map member, AllPrintable p := by
  intro p hp
  obtain ⟨f, hf, rfl⟩ := List.mem_map.mp hp
  have inside : f ∈ fields := (List.perm_insertionSort _ fields).mem_iff.mp hf
  exact (quoted_printable f.1).append (.cons (by decide) (h f inside))

mutual
theorem canonical_printable : ∀ j : Json, AllPrintable (canonical j)
  | .null => by simp only [canonical]; decide
  | .bool b => by
      simp only [canonical]
      split <;> decide
  | .int n => by
      simp only [canonical]
      exact spells_printable.intText n
  | .float x => by
      simp only [canonical]
      exact spells_printable.jsonFloat x
  | .str s => by simpa only [canonical] using quoted_printable s
  | .arr xs => by
      simpa only [canonical] using
        (AllPrintable.cons (by decide) (commas_printable (canonicalItems_printable xs))).append
          (by decide)
  | .obj fields => by
      simpa only [canonical] using
        (AllPrintable.cons (by decide)
          (commas_printable (members_printable (canonicalFields_printable fields)))).append
          (by decide)

theorem canonicalItems_printable : ∀ xs : List Json, ∀ p ∈ canonicalItems xs, AllPrintable p
  | [] => by simp [canonicalItems]
  | x :: xs => by
      simp only [canonicalItems, List.forall_mem_cons]
      exact ⟨canonical_printable x, canonicalItems_printable xs⟩

theorem canonicalFields_printable :
    ∀ fields : List (String × Json), ∀ f ∈ canonicalFields fields, AllPrintable f.2
  | [] => by simp [canonicalFields]
  | (k, x) :: fields => by
      simp only [canonicalFields, List.forall_mem_cons]
      exact ⟨canonical_printable x, canonicalFields_printable fields⟩
end

/-! ## A quoted string can be read back -/

def hexVal (c : Char) : Nat := if c.isDigit then c.toNat - 48 else c.toNat - 87

def unhex4 (a b c d : Char) : Nat := hexVal a * 4096 + hexVal b * 256 + hexVal c * 16 + hexVal d

/-- The character an escape stands for, and the text after it. -/
def unescape : List Char → Option (Char × List Char)
  | '\\' :: 'u' :: a :: b :: c :: d :: rest =>
      let unit := unhex4 a b c d
      if unit < 0xd800 ∨ 0xdfff < unit then some (Char.ofNat unit, rest)
      else match rest with
        | '\\' :: 'u' :: a :: b :: c :: d :: rest =>
            some (Char.ofNat (0x10000 + (unit - 0xd800) * 0x400 + (unhex4 a b c d - 0xdc00)), rest)
        | _ => none
  | '\\' :: 'n' :: rest => some ('\n', rest)
  | '\\' :: 'r' :: rest => some ('\r', rest)
  | '\\' :: 't' :: rest => some ('\t', rest)
  | '\\' :: 'f' :: rest => some (Char.ofNat 12, rest)
  | '\\' :: 'b' :: rest => some (Char.ofNat 8, rest)
  | '\\' :: c :: rest => some (c, rest)
  | c :: rest => some (c, rest)
  | [] => none

theorem hexVal_hexDigit (n : Nat) : hexVal (hexDigit n) = n % 16 :=
  (by decide : ∀ k : Fin 16, hexVal (Nat.digitChar k) = k) ⟨n % 16, Nat.mod_lt _ (by decide)⟩

theorem unhex4_hex4 {n : Nat} (small : n < 0x10000) :
    unhex4 (hexDigit (n / 4096)) (hexDigit (n / 256)) (hexDigit (n / 16)) (hexDigit n) = n := by
  simp only [unhex4, hexVal_hexDigit]
  omega

theorem not_surrogate (c : Char) : c.toNat < 0xd800 ∨ 0xdfff < c.toNat ∧ c.toNat < 0x110000 := by
  rcases c.valid with low | ⟨high, bound⟩
  · exact .inl low
  · exact .inr ⟨high, bound⟩

theorem unescape_unit {n : Nat} (small : n < 0x10000) (plain : n < 0xd800 ∨ 0xdfff < n)
    (rest : List Char) : unescape (unicodeEscape n ++ rest) = some (Char.ofNat n, rest) := by
  simp only [unicodeEscape, hex4, List.cons_append, List.nil_append, unescape, unhex4_hex4 small,
    if_pos plain]

theorem unescape_pair {n : Nat} (low : 0x10000 ≤ n) (high : n < 0x110000) (rest : List Char) :
    unescape (unicodeEscape (0xd800 + (n - 0x10000) / 0x400) ++
      unicodeEscape (0xdc00 + (n - 0x10000) % 0x400) ++ rest) = some (Char.ofNat n, rest) := by
  have first : 0xd800 + (n - 0x10000) / 0x400 < 0x10000 := by omega
  have second : 0xdc00 + (n - 0x10000) % 0x400 < 0x10000 := by omega
  have pair : ¬(0xd800 + (n - 0x10000) / 0x400 < 0xd800 ∨ 0xdfff < 0xd800 + (n - 0x10000) / 0x400) := by
    omega
  have whole : 0x10000 + (0xd800 + (n - 0x10000) / 0x400 - 0xd800) * 0x400 +
      (0xdc00 + (n - 0x10000) % 0x400 - 0xdc00) = n := by omega
  simp only [unicodeEscape, hex4, List.cons_append, List.nil_append, unescape, unhex4_hex4 first,
    if_neg pair, unhex4_hex4 second, whole]

theorem unescape_plain {c : Char} (h : c ≠ '\\') (rest : List Char) :
    unescape (c :: rest) = some (c, rest) := by
  unfold unescape
  split <;> simp_all

theorem unescape_escape (c : Char) (rest : List Char) :
    unescape (escape c ++ rest) = some (c, rest) := by
  unfold escape
  split
  · next h => subst h; rfl
  split
  · next h => subst h; rfl
  split
  · next h => subst h; rfl
  split
  · next h => subst h; rfl
  split
  · next h => subst h; rfl
  split
  · next h => rw [show c = Char.ofNat 12 from Char.ext h]; rfl
  split
  · next h => rw [show c = Char.ofNat 8 from Char.ext h]; rfl
  split
  · next notSlash _ _ _ _ _ _ => exact unescape_plain notSlash rest
  split
  · next small =>
      rw [unescape_unit small (by have := not_surrogate c; omega), Char.ofNat_toNat]
  · next large =>
      have bound := not_surrogate c
      rw [unescape_pair (by omega) (by omega), Char.ofNat_toNat]

theorem escape_head_ne_quote (c : Char) (rest rest' : List Char) :
    escape c ++ rest ≠ '"' :: rest' := by
  intro same
  have head := unescape_escape c rest
  rw [same, unescape_plain (by decide)] at head
  obtain ⟨rfl, _⟩ := Prod.mk.inj (Option.some.inj head)
  exact absurd same (by simp [escape])

/-- The closing quote tells where a string ends, so what follows cannot blur it. -/
theorem escaped_quote_inj {s t : List Char} {rest rest' : List Char}
    (same : escaped s ++ '"' :: rest = escaped t ++ '"' :: rest') : s = t ∧ rest = rest' := by
  induction s generalizing t with
  | nil =>
      cases t with
      | nil => exact ⟨rfl, (List.cons.inj same).2⟩
      | cons c t =>
          simp only [escaped, List.flatMap_cons, List.append_assoc, List.flatMap_nil,
            List.nil_append] at same
          exact absurd same.symm (escape_head_ne_quote c _ _)
  | cons c s ih =>
      cases t with
      | nil =>
          simp only [escaped, List.flatMap_cons, List.append_assoc, List.flatMap_nil,
            List.nil_append] at same
          exact absurd same (escape_head_ne_quote c _ _)
      | cons d t =>
          simp only [escaped, List.flatMap_cons, List.append_assoc] at same
          have both := (unescape_escape c _).symm.trans ((congrArg unescape same).trans (unescape_escape d _))
          obtain ⟨rfl, tails⟩ := Prod.mk.inj (Option.some.inj both)
          obtain ⟨rfl, rfl⟩ := ih tails
          exact ⟨rfl, rfl⟩

end JsonText
end Maof
