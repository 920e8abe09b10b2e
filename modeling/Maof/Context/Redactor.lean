import Maof.Text.Regex
import Maof.Types
import Maof.Workflows.Template

/-!
# The PII redactor

Emails, social security numbers and formatted phone numbers, and what the redactor writes
over them where the policy flags ask for it. A scrubbed text has none of the three.
-/

namespace Maof

open Data (Dict)
open Text (Regex)

/-- The parts of the Unicode database that `re` and `str.lower` read. -/
structure Characters extends Unicode where
  /-- Category Nd. -/
  decimal : Char → Bool
  lower : String → String
  decimal_alnum : ∀ c, decimal c = true → alnum c = true

namespace Characters

variable (u : Characters)

/-- `\w`. -/
def word (c : Char) : Bool := if c.toNat < 128 then c.isAlphanum || c = '_' else u.alnum c

/-- `\d`. -/
def digit (c : Char) : Bool := if c.toNat < 128 then c.isDigit else u.decimal c

variable {u}

theorem digit_word {c : Char} (holds : u.digit c = true) : u.word c = true := by
  rw [digit] at holds
  rw [word]
  split at holds
  · next low => simp [if_pos low, Char.isAlphanum, holds]
  · next high =>
      rw [if_neg high]
      exact u.decimal_alnum c holds

end Characters

namespace RegexRedactor

def redaction : String := "[REDACTED]"

section patterns

variable (u : Characters)

/-- `[\w.+-]+@[\w-]+\.[\w.-]+`. -/
def email : Regex Char :=
  .seq (.plus fun c => u.word c || c = '.' || c = '+' || c = '-')
    (.seq (.cls (· = '@')) (.seq (.plus fun c => u.word c || c = '-')
      (.seq (.cls (· = '.')) (.plus fun c => u.word c || c = '.' || c = '-'))))

/-- `\d{n + 1}`. -/
def digits : Nat → Regex Char
  | 0 => .cls u.digit
  | n + 1 => .seq (.cls u.digit) (digits n)

/-- `\d{3}-\d{2}-\d{4}`. -/
def ssnCore : Regex Char :=
  .seq (digits u 2) (.seq (.cls (· = '-')) (.seq (digits u 1) (.seq (.cls (· = '-')) (digits u 3))))

def ssn : Regex Char := (ssnCore u).bounded

/-- `[-.\s]`. -/
def separator : Regex Char := .cls fun c => c = '-' || c = '.' || Template.isSpace c

/-- `(?:\+?\d{1,3}[-.\s]?)?\(?\d{3}\)?[-.\s]\d{3}[-.\s]\d{4}`. -/
def phoneCore : Regex Char :=
  .seq (.opt (.seq (.opt (.cls (· = '+')))
      (.seq (.seq (.cls u.digit) (.opt (.seq (.cls u.digit) (.opt (.cls u.digit))))) (.opt separator))))
    (.seq (.opt (.cls (· = '('))) (.seq (digits u 2) (.seq (.opt (.cls (· = ')')))
      (.seq separator (.seq (digits u 2) (.seq separator (digits u 3)))))))

def phone : Regex Char := (phoneCore u).bounded

/-- `_PATTERNS`. -/
def patterns : List (Regex Char) := [email u, ssn u, phone u]

/-- `_scrub`, and `scrub_text` beside it. -/
def scrub (text : String) : String :=
  String.ofList ((patterns u).foldl (fun t r => r.sub u.word redaction.toList none 0 t) text.toList)

/-- No pattern is found in the text. -/
def clean (text : String) : Bool := (patterns u).all fun r => !r.search u.word none text.toList

end patterns

/-! ## What the patterns match -/

variable {u : Characters} {b : Option Char} {v rest : List Char}

theorem email_at (found : (email u).Matches u.word b v rest) : '@' ∈ v := by
  obtain ⟨_, _, rfl, -, _, _, rfl, ⟨c, rfl, at_⟩, -⟩ := found
  simp at at_
  simp [at_]

theorem digits_lasts (n : Nat) (c : Char) : (digits u n).lasts c = u.digit c := by
  induction n with
  | zero => rfl
  | succ n ih =>
      have consumes : (digits u n).consumes = true := by
        cases n <;> rfl
      rw [digits, Regex.lasts, ih, consumes, Bool.not_true, Bool.false_and, Bool.or_false]

/-- What a number can begin with. -/
def begins (u : Characters) (c : Char) : Bool := u.digit c || c = '+' || c = '('

theorem ssn_firsts {c : Char} (first : (ssn u).firsts c = true) : begins u c = true := by
  simp [ssn, Regex.bounded, ssnCore, digits, Regex.firsts, Regex.consumes] at first
  simp [begins, first]

theorem phone_firsts {c : Char} (first : (phone u).firsts c = true) : begins u c = true := by
  simp [phone, Regex.bounded, phoneCore, digits, Regex.firsts, Regex.consumes] at first
  simp only [begins, Bool.or_eq_true, decide_eq_true_eq]
  tauto

theorem ssn_lasts (c : Char) (last : (ssnCore u).lasts c = true) : u.digit c = true := by
  simpa [ssnCore, Regex.lasts, digits_lasts, Regex.consumes, digits] using last

theorem phone_lasts (c : Char) (last : (phoneCore u).lasts c = true) : u.digit c = true := by
  simpa [phoneCore, Regex.lasts, digits_lasts, Regex.consumes, digits] using last

/-! ## A scrubbed text -/

theorem unbegun {text : List Char} (plain : text.all fun c => c.toNat < 128 && !c.isDigit && c != '+' && c != '(') :
    ∀ c ∈ text, begins u c = false := by
  intro c inside
  have known := List.all_eq_true.mp plain c inside
  simp only [Bool.and_eq_true, decide_eq_true_eq, Bool.not_eq_true', bne_iff_ne] at known
  simp [begins, Characters.digit, known]

/-- No number is a part of the word written over it. -/
theorem unredacted {q : Regex Char} (consumes : q.consumes = true) (firsts : ∀ {c}, q.firsts c = true → begins u c = true) (v : List Char) (b : Option Char)
    (rest : List Char) (inside : v <:+: "REDACTED".toList) : ¬ q.Matches u.word b v rest := by
  intro found
  cases v with
  | nil => exact found.ne_nil consumes rfl
  | cons c v =>
      have known := firsts found.firsts
      rw [unbegun (by decide) c (inside.subset List.mem_cons_self)] at known
      cases known

theorem email_spared (r : Regex Char) : Regex.Spares u.word (email u) r '[' "REDACTED".toList ']' := by
  apply Regex.Spares.of_plain rfl rfl
  · simp [email, Regex.letters, Characters.word]
  · simp [email, Regex.letters, Characters.word]
  · intro v b rest inside found
    have at_ := inside.subset (email_at found)
    revert at_
    decide

theorem ssn_spared {core : Regex Char} (consumes : core.consumes = true) (lasts : ∀ c, core.lasts c = true → u.digit c = true) :
    Regex.Spares u.word (ssn u) core.bounded '[' "REDACTED".toList ']' := by
  apply Regex.Spares.of_bounded rfl rfl consumes fun c last => Characters.digit_word (lasts c last)
  · simp [ssnCore, digits, Regex.letters, Characters.digit]
  · simp [ssnCore, digits, Regex.letters, Characters.digit]
  · simp [Characters.word]
  · exact unredacted rfl ssn_firsts

theorem phone_spared : Regex.Spares u.word (phone u) (phone u) '[' "REDACTED".toList ']' := by
  apply Regex.Spares.of_bounded rfl rfl rfl fun c last => Characters.digit_word (phone_lasts c last)
  · simp [phoneCore, digits, separator, Regex.letters, Characters.digit, Template.isSpace]
  · simp [phoneCore, digits, separator, Regex.letters, Characters.digit, Template.isSpace]
  · simp [Characters.word]
  · exact unredacted rfl phone_firsts

/-- A text is clean where none of the patterns matches a part of it. -/
theorem clean_iff {text : String} : clean u text = true ↔ ∀ q ∈ patterns u, ¬ q.Found u.word none text.toList := by
  simp [clean, ← Regex.search_iff]

theorem patterns_consume : ∀ r ∈ patterns u, r.consumes = true := by
  intro r inside
  obtain rfl | rfl | rfl : r = email u ∨ r = ssn u ∨ r = phone u := by
    simpa [patterns] using inside
  · rfl
  · rfl
  · rfl

/-- What was scrubbed has no email, no social security number and no phone number. -/
theorem scrub_clean (text : String) : clean u (scrub u text) = true := by
  have brackets : redaction.toList = '[' :: "REDACTED".toList ++ [']'] := by
    decide
  rw [clean_iff, scrub, String.toList_ofList, brackets]
  intro q inside
  obtain rfl | rfl | rfl : q = email u ∨ q = ssn u ∨ q = phone u := by
    simpa [patterns] using inside
  · exact Regex.subs_clean patterns_consume (fun r _ => email_spared r) (.inl inside)
  · have numbers : ∀ r ∈ [ssn u, phone u], r.consumes = true := fun r inside =>
      patterns_consume r (List.mem_cons_of_mem _ inside)
    have spared : ∀ r ∈ [ssn u, phone u], Regex.Spares u.word (ssn u) r '[' "REDACTED".toList ']' := by
      intro r inside
      obtain rfl | rfl : r = ssn u ∨ r = phone u := by
        simpa using inside
      · exact ssn_spared rfl ssn_lasts
      · exact ssn_spared rfl phone_lasts
    exact (Regex.subs_clean numbers spared (.inl List.mem_cons_self) :
      ¬ (ssn u).Found u.word none ([ssn u, phone u].foldl _ _))
  · exact Regex.sub_clean rfl phone_spared (.inl rfl)

theorem scrub_of_clean {text : String} (none_ : clean u text = true) : scrub u text = text := by
  rw [scrub, Regex.subs_unfound (clean_iff.mp none_), String.ofList_toList]

end RegexRedactor

open RegexRedactor

/-- Scrubbing is complete, whatever the text, and scrubbing again changes nothing. -/
theorem scrubbed (u : Characters) (text : String) :
    (∀ q ∈ patterns u, q.search u.word none (scrub u text).toList = false) ∧ scrub u (scrub u text) = scrub u text := by
  constructor
  · intro q inside
    rw [← Bool.not_eq_true, Regex.search_iff]
    exact clean_iff.mp (scrub_clean text) q inside
  · exact scrub_of_clean (scrub_clean text)

end Maof
