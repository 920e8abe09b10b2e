import Maof.Data.PyValue
import Maof.Policy.Numbers

/-!
# Canonical JSON up to the order of keys

The canonical text of a value is that of every value that differs from it in the order of
its keys alone, and of no other: the names, the integers and the floats are spelled apart,
and a double is spelled one way.
-/

namespace Maof

open Data (Dict)
open JsonText Platform

namespace PyFloat

/-- The sign a float is written with. -/
def negative : PyFloat → Bool
  | .nan => false
  | .inf neg => neg
  | .dec neg _ _ => neg

/-- One double, however its decimal is held. -/
def Same (x y : PyFloat) : Prop := x.negative = y.negative ∧ x.number = y.number

theorem signed_inj {neg : Bool} {a b : ℚ} (same : signed neg a = signed neg b) : a = b := by
  cases neg with
  | false => exact same
  | true => exact neg_injective same

theorem number_dec_eq {neg : Bool} {c c' : Nat} {e e' : Int} :
    (dec neg c e).number = (dec neg c' e').number ↔ (c : ℚ) * 10 ^ e = c' * 10 ^ e' := by
  rw [number, number, PyNumber.rat.injEq, spelled_eq, spelled_eq, ← signed_mul, ← signed_mul]
  exact ⟨signed_inj, congrArg _⟩

/-- The larger power of two equal decimals leaves the other a trailing zero. -/
theorem trimmed_le {c c' : Nat} {e e' : Int} (trimmed : c % 10 ≠ 0) (same : (c : ℚ) * 10 ^ e = c' * 10 ^ e') : e' ≤ e := by
  by_contra larger
  have ten : (10 : ℚ) ≠ 0 := by norm_num
  have power : (10 : ℚ) ^ e' = 10 ^ (e' - e).toNat * 10 ^ e := by
    rw [← zpow_natCast, Int.toNat_of_nonneg (by omega), ← zpow_add₀ ten, sub_add_cancel]
  rw [power, ← mul_assoc] at same
  have whole : c = c' * 10 ^ (e' - e).toNat := by exact_mod_cast mul_right_cancel₀ (zpow_ne_zero e ten) same
  have divides : 10 ∣ 10 ^ (e' - e).toNat := dvd_pow_self 10 (by omega)
  exact trimmed (Nat.mod_eq_zero_of_dvd (whole ▸ divides.mul_left c'))

/-- Significant digits are unique. -/
theorem trimmed_inj {c c' : Nat} {e e' : Int} (trimmed : c % 10 ≠ 0) (trimmed' : c' % 10 ≠ 0)
    (same : (c : ℚ) * 10 ^ e = c' * 10 ^ e') : c = c' ∧ e = e' := by
  have powers : e = e' := le_antisymm (trimmed_le trimmed' same.symm) (trimmed_le trimmed same)
  subst powers
  exact ⟨by exact_mod_cast mul_right_cancel₀ (zpow_ne_zero e (by norm_num : (10 : ℚ) ≠ 0)) same, rfl⟩

theorem number_eq_zero {neg : Bool} {c : Nat} {e e' : Int} (same : (dec neg c e).number = (dec neg 0 e').number) : c = 0 := by
  have product := number_dec_eq.mp same
  rw [Nat.cast_zero, zero_mul] at product
  exact_mod_cast (mul_eq_zero.mp product).resolve_right (zpow_ne_zero e (by norm_num))

/-- A double is written one way. -/
theorem jsonFloat_of_same {x y : PyFloat} (same : x.Same y) : jsonFloat x = jsonFloat y := by
  obtain ⟨signs, numbers⟩ := same
  cases x with
  | nan =>
      cases y with
      | nan => rfl
      | inf | dec => cases numbers
  | inf neg =>
      cases y with
      | nan | dec => cases numbers
      | inf neg' =>
          cases numbers
          rfl
  | dec neg c e =>
      cases y with
      | nan | inf => cases numbers
      | dec neg' c' e' =>
          obtain rfl : neg = neg' := signs
          change floatText (.dec neg c e) = floatText (.dec neg c' e')
          by_cases none : c = 0
          · subst none
            obtain rfl := number_eq_zero numbers.symm
            rfl
          · have none' : c' ≠ 0 := by
              rintro rfl
              exact none (number_eq_zero numbers)
            obtain ⟨d, k, trimmed, -, -, number, text⟩ := trimmed_of_ne_zero none neg e
            obtain ⟨d', k', trimmed', -, -, number', text'⟩ := trimmed_of_ne_zero none' neg e'
            obtain ⟨rfl, rfl⟩ := trimmed_inj trimmed trimmed' (number_dec_eq.mp (number.trans (numbers.trans number'.symm)))
            rw [← text, ← text']

/-! ## Reading a double back -/

/-- The zeros that fill a whole number up to its point count. -/
theorem number_filled (c k : Nat) : Platform.number (digits c ++ List.replicate k '0') = c * 10 ^ k := by
  rw [Platform.number_eq, Nat.ofDigitChars_append, Nat.ofDigitChars_replicate_zero, ← Platform.number_eq, number_digits]
  exact Nat.mul_comm _ _

/-- What `repr` writes of an integer below `1e16`. -/
theorem decimal_wholeText {c : Nat} {e : Int} (trimmed : c % 10 ≠ 0) (above : 0 ≤ e) (small : (digits c).length + e ≤ 16)
    (neg : Bool) : (∃ d t, floatText (.dec false c e) = d :: t ∧ d.isDigit = true) ∧
      decimal neg (floatText (.dec false c e)) = some (.dec neg (c * 10 ^ (e.toNat + 1)) (-1)) := by
  have some : c ≠ 0 := fun none => trimmed (by rw [none])
  have long : 0 < (digits c).length := List.length_pos_iff.mpr (digits_ne_nil c)
  have filled : ((digits c).length + e - (digits c).length : Int) = e := by omega
  have text : floatText (.dec false c e) = digits c ++ List.replicate e.toNat '0' ++ '.' :: (['0'] ++ []) := by
    simp only [floatText, if_neg some, trimZeros_of_trimmed trimmed, Bool.false_eq_true, if_false]
    rw [if_pos ⟨by omega, small⟩, if_neg (by omega), if_pos (by omega), zeros, filled]
    rfl
  have all : Throughout (fun c => c.isDigit = true) (digits c ++ List.replicate e.toNat '0') :=
    .append (digits_isDigit c) fun d inside => by rw [List.eq_of_mem_replicate inside]; rfl
  have read := @decimal_pointed _ ['0'] [] 0 all (by simp [digits_ne_nil]) (by decide) (by rintro _ _ ⟨⟩) exponent_end neg
  obtain ⟨d, t, starts⟩ := List.exists_cons_of_ne_nil (digits_ne_nil c)
  refine ⟨⟨d, _, by rw [text, starts]; rfl, digits_isDigit c d (by rw [starts]; exact List.mem_cons_self)⟩, ?_⟩
  rw [text, read, List.append_assoc, show (['0'] : List Char) = List.replicate 1 '0' from rfl, List.replicate_append_replicate,
    number_filled]
  rfl

/-- The text of a double without its sign starts with a digit and reads back as its value. -/
theorem floatText_reads (neg : Bool) (c : Nat) (e : Int) :
    (∃ d t, floatText (.dec false c e) = d :: t ∧ d.isDigit = true) ∧
      ∃ y, decimal neg (floatText (.dec false c e)) = some y ∧ y.number = (dec neg c e).number := by
  by_cases none : c = 0
  · subst none
    refine ⟨⟨'0', ['.', '0'], rfl, rfl⟩, .dec neg 0 (-1), by cases neg <;> rfl, ?_⟩
    rw [number_dec_eq, Nat.cast_zero, zero_mul, zero_mul]
  · obtain ⟨d, k, trimmed, -, -, number, text⟩ := trimmed_of_ne_zero none false e
    have value := number_dec_eq.mp number
    rw [← text]
    by_cases pointed : k < 0 ∨ 16 < (digits d).length + k
    · obtain ⟨starts, read⟩ := decimal_floatText trimmed pointed neg
      exact ⟨starts, _, read, number_dec_eq.mpr value⟩
    · obtain ⟨starts, read⟩ := @decimal_wholeText d k trimmed (by omega) (by omega) neg
      refine ⟨starts, _, read, number_dec_eq.mpr ?_⟩
      have ten : (10 : ℚ) ≠ 0 := by norm_num
      have power : (10 : ℚ) ^ (k.toNat + 1) * 10 ^ (-1 : ℤ) = 10 ^ k := by
        rw [← zpow_natCast, ← zpow_add₀ ten]
        congr 1
        omega
      rw [← value, Nat.cast_mul, Nat.cast_pow, Nat.cast_ofNat, mul_assoc, power]

theorem floatText_inj {neg neg' : Bool} {c c' : Nat} {e e' : Int} (same : floatText (.dec neg c e) = floatText (.dec neg' c' e')) :
    (dec neg c e).Same (.dec neg' c' e') := by
  obtain ⟨⟨d, t, starts, digit⟩, y, read, value⟩ := floatText_reads neg c e
  obtain ⟨⟨d', t', starts', digit'⟩, y', read', value'⟩ := floatText_reads neg' c' e'
  have dash : ∀ {c : Char}, c.isDigit = true → '-' ≠ c := by
    rintro c digit rfl
    cases digit
  rw [floatText_sign, floatText_sign neg'] at same
  have signs : neg = neg' := by
    cases neg with
    | false =>
        cases neg' with
        | false => rfl
        | true =>
            rw [starts] at same
            exact absurd (List.cons.inj same).1.symm (dash digit)
    | true =>
        cases neg' with
        | true => rfl
        | false =>
            rw [starts'] at same
            exact absurd (List.cons.inj same).1 (dash digit')
  subst signs
  have texts : floatText (.dec false c e) = floatText (.dec false c' e') := by
    cases neg with
    | false => exact same
    | true => exact (List.cons.inj same).2
  refine ⟨rfl, ?_⟩
  rw [← value, ← value', Option.some.inj (read.symm.trans ((congrArg _ texts).trans read'))]

/-- No number is written like one of the names. -/
theorem floatText_ne_name {neg : Bool} {c : Nat} {e : Int} {name : List Char}
    (named : ∀ d t, d.isDigit = true → name ≠ d :: t ∧ name ≠ '-' :: d :: t) : floatText (.dec neg c e) ≠ name := by
  obtain ⟨⟨d, t, starts, digit⟩, -⟩ := floatText_reads neg c e
  rw [floatText_sign, starts]
  cases neg with
  | false => exact fun same => (named d t digit).1 same.symm
  | true => exact fun same => (named d t digit).2 same.symm

theorem jsonFloat_inj {x y : PyFloat} (same : jsonFloat x = jsonFloat y) : x.Same y := by
  have nan_named : ∀ d t, d.isDigit = true → "NaN".toList ≠ d :: t ∧ "NaN".toList ≠ '-' :: d :: t := by
    rintro d t digit
    constructor
    · rintro ⟨⟩
      cases digit
    · rintro ⟨⟩
  have inf_named : ∀ neg d t, d.isDigit = true → jsonFloat (.inf neg) ≠ d :: t ∧ jsonFloat (.inf neg) ≠ '-' :: d :: t := by
    rintro (_ | _) d t digit
    · constructor
      · rintro ⟨⟩
        cases digit
      · rintro ⟨⟩
    · constructor
      · rintro ⟨⟩
        cases digit
      · rintro ⟨⟩
        cases digit
  cases x with
  | nan =>
      cases y with
      | nan => exact ⟨rfl, rfl⟩
      | inf neg => cases neg <;> cases same
      | dec neg c e => exact absurd same.symm (floatText_ne_name nan_named)
  | inf neg =>
      cases y with
      | nan => cases neg <;> cases same
      | inf neg' =>
          cases neg <;> cases neg' <;> first | exact ⟨rfl, rfl⟩ | cases same
      | dec neg' c e => exact absurd same.symm (floatText_ne_name (inf_named neg))
  | dec neg c e =>
      cases y with
      | nan => exact absurd same (floatText_ne_name nan_named)
      | inf neg' => exact absurd same (floatText_ne_name (inf_named neg'))
      | dec neg' c' e' => exact floatText_inj same

end PyFloat

/-! ## Values up to the order of their keys -/

namespace Json

/-- Each dictionary in the value has its keys once. -/
inductive Keyed : Json → Prop
  | null : Keyed .null
  | bool (b : Bool) : Keyed (.bool b)
  | int (n : Int) : Keyed (.int n)
  | float (x : PyFloat) : Keyed (.float x)
  | str (s : String) : Keyed (.str s)
  | arr {xs : List Json} (items : ∀ x ∈ xs, Keyed x) : Keyed (.arr xs)
  | obj {fields : List (String × Json)} (once : (Dict.keys fields).Nodup) (values : ∀ f ∈ fields, Keyed f.2) :
      Keyed (.obj fields)

/-- One value becomes the other by putting the keys of its dictionaries, at any depth, in another order. -/
inductive Reorders : Json → Json → Prop
  | refl (j : Json) : Reorders j j
  | trans {a b c : Json} : Reorders a b → Reorders b c → Reorders a c
  | float {x y : PyFloat} (same : x.Same y) : Reorders (.float x) (.float y)
  | keys {fields fields' : List (String × Json)} (perm : fields.Perm fields') : Reorders (.obj fields) (.obj fields')
  | value {before after : List (String × Json)} {key : String} {a b : Json} :
      Reorders a b → Reorders (.obj (before ++ (key, a) :: after)) (.obj (before ++ (key, b) :: after))
  | item {before after : List Json} {a b : Json} :
      Reorders a b → Reorders (.arr (before ++ a :: after)) (.arr (before ++ b :: after))

end Json

namespace JsonText

open Json (Keyed Reorders)

theorem sortFields_of_perm {α : Type} {fields fields' : List (String × α)} (perm : fields.Perm fields')
    (once : (Dict.keys fields).Nodup) : sortFields fields = sortFields fields' :=
  PyValue.sortFields_of_ascend ((sortFields_perm fields').trans perm.symm)
    (PyValue.sortFields_ascend ((perm.map Prod.fst).nodup_iff.mp once))

/-- Nothing that is kept of a value tells the order its keys had. -/
theorem normal_of_reorders {a b : Json} (reorders : Reorders a b) : Keyed a → Keyed b ∧ normal a = normal b := by
  induction reorders with
  | refl j => exact fun keyed => ⟨keyed, rfl⟩
  | trans _ _ first second =>
      intro keyed
      obtain ⟨keyed, same⟩ := first keyed
      exact ⟨(second keyed).1, same.trans (second keyed).2⟩
  | float same => exact fun _ => ⟨.float _, by rw [normal, normal, PyFloat.jsonFloat_of_same same]⟩
  | @keys fields fields' perm =>
      rintro ⟨⟩
      next once values =>
        refine ⟨.obj ((perm.map Prod.fst).nodup_iff.mp once) fun f member => values f (perm.mem_iff.mpr member), ?_⟩
        rw [normal_obj, normal_obj, sortFields_of_perm perm once]
  | @value before after key a b _ ih =>
      rintro ⟨⟩
      next once values =>
        obtain ⟨keyed, same⟩ := ih (values (key, a) (List.mem_append_right _ List.mem_cons_self))
        refine ⟨.obj ?_ fun f member => ?_, ?_⟩
        · simpa [Dict.keys] using once
        · rcases List.mem_append.mp member with inside | inside
          · exact values f (List.mem_append_left _ inside)
          · rcases List.mem_cons.mp inside with rfl | inside
            · exact keyed
            · exact values f (List.mem_append_right _ (List.mem_cons_of_mem _ inside))
        · rw [normal, normal, normalFields_eq, normalFields_eq, List.map_append, List.map_append, List.map_cons,
            List.map_cons, same]
  | @item before after a b _ ih =>
      rintro ⟨⟩
      next items =>
        obtain ⟨keyed, same⟩ := ih (items a (List.mem_append_right _ List.mem_cons_self))
        refine ⟨.arr fun x member => ?_, ?_⟩
        · rcases List.mem_append.mp member with inside | inside
          · exact items x (List.mem_append_left _ inside)
          · rcases List.mem_cons.mp inside with rfl | inside
            · exact keyed
            · exact items x (List.mem_append_right _ (List.mem_cons_of_mem _ inside))
        · rw [normal, normal, normalItems_eq, normalItems_eq, List.map_append, List.map_append, List.map_cons,
            List.map_cons, same]

/-- Lists are changed item by item. -/
theorem reorders_items {before xs ys : List Json} (each : List.Forall₂ Reorders xs ys) :
    Reorders (.arr (before ++ xs)) (.arr (before ++ ys)) := by
  induction each generalizing before with
  | nil => exact .refl _
  | @cons x y xs ys first _ ih =>
      have rest := @ih (before ++ [y])
      rw [List.append_assoc, List.append_assoc] at rest
      exact .trans (.item first) rest

/-- Dictionaries are changed value by value. -/
theorem reorders_values {before fields fields' : List (String × Json)}
    (each : List.Forall₂ (fun f g => f.1 = g.1 ∧ Reorders f.2 g.2) fields fields') :
    Reorders (.obj (before ++ fields)) (.obj (before ++ fields')) := by
  induction each generalizing before with
  | nil => exact .refl _
  | @cons f g fields fields' first _ ih =>
      obtain ⟨key, a⟩ := f
      obtain ⟨key', b⟩ := g
      obtain ⟨rfl, first⟩ := first
      have rest := @ih (before ++ [(key, b)])
      rw [List.append_assoc, List.append_assoc] at rest
      exact .trans (.value first) rest

/-! ## The atoms -/

/-- A float is written with a point, an exponent or letters. -/
theorem marked_jsonFloat (x : PyFloat) : ∃ c ∈ jsonFloat x, c ∈ ".eNI".toList := by
  cases x with
  | nan => exact ⟨'N', by decide, by decide⟩
  | inf neg => exact ⟨'I', by cases neg <;> decide, by decide⟩
  | dec neg c e =>
      have body : ∃ mark ∈ floatText (.dec false c e), mark ∈ ".eNI".toList := by
        simp only [floatText, Bool.false_eq_true, if_false]
        generalize (if c = 0 then ((0 : Nat), (0 : Int)) else trimZeros c c e) = ce
        split
        · split
          · exact ⟨'.', by simp, by decide⟩
          · split
            · exact ⟨'.', by simp, by decide⟩
            · exact ⟨'.', by simp, by decide⟩
        · exact ⟨'e', by simp, by decide⟩
      obtain ⟨mark, inside, marked⟩ := body
      change ∃ mark ∈ floatText (.dec neg c e), mark ∈ ".eNI".toList
      rw [floatText_sign]
      cases neg with
      | false => exact ⟨mark, inside, marked⟩
      | true => exact ⟨mark, List.mem_cons_of_mem _ inside, marked⟩

theorem intText_ne_jsonFloat (n : Int) (x : PyFloat) : intText n ≠ jsonFloat x := by
  intro same
  obtain ⟨c, inside, marked⟩ := marked_jsonFloat x
  rw [← same] at inside
  have digit : ∀ d ∈ digits n.natAbs, d ∉ ".eNI".toList := by
    intro d member marked
    have marks : ".eNI".toList.all (!·.isDigit) = true := by decide
    have mark := List.all_eq_true.mp marks d marked
    rw [digits_isDigit n.natAbs d member] at mark
    cases mark
  unfold intText at inside
  split at inside
  · rcases List.mem_cons.mp inside with rfl | inside
    · exact absurd marked (by decide)
    · exact digit c inside marked
  · exact digit c inside marked

/-- No number has the letters of the three names. -/
theorem spells_unnamed : Spells fun c => c ∉ "ul".toList where
  digit c digit := by
    intro member
    have letters : "ul".toList.all (!·.isDigit) = true := by decide
    have letter := List.all_eq_true.mp letters c member
    rw [digit] at letter
    cases letter
  mark := by decide

/-- Only the names have their letters. -/
theorem named_of_letter {j : Json} {name : List Char} (atom : normal j = .atom name) (letter : ∃ c ∈ name, c ∈ "ul".toList) :
    j = .null ∨ ∃ b, j = .bool b := by
  obtain ⟨c, inside, letter⟩ := letter
  cases j with
  | null => exact .inl rfl
  | bool b => exact .inr ⟨b, rfl⟩
  | int n =>
      cases atom
      exact absurd letter (spells_unnamed.intText n c inside)
  | float x =>
      cases atom
      exact absurd letter (spells_unnamed.jsonFloat x c inside)
  | str | arr => cases atom
  | obj fields =>
      rw [normal_obj] at atom
      cases atom

theorem bool_letter (b : Bool) : ∃ c ∈ (if b then "true".toList else "false".toList), c ∈ "ul".toList := by
  cases b with
  | false => exact ⟨'l', by decide, by decide⟩
  | true => exact ⟨'u', by decide, by decide⟩

theorem null_of_normal {j : Json} (same : normal j = normal .null) : j = .null := by
  rcases named_of_letter same ⟨'u', by decide, by decide⟩ with rfl | ⟨b, rfl⟩
  · rfl
  · cases b <;> exact absurd (Canon.atom.inj same) (by decide)

theorem bool_of_normal {j : Json} {b : Bool} (same : normal j = normal (.bool b)) : j = .bool b := by
  rcases named_of_letter same (bool_letter b) with rfl | ⟨b', rfl⟩
  · cases b <;> exact absurd (Canon.atom.inj same) (by decide)
  · cases b <;> cases b' <;> first | rfl | exact absurd (Canon.atom.inj same) (by decide)

theorem int_of_normal {j : Json} {n : Int} (same : normal j = normal (.int n)) : j = .int n := by
  cases j with
  | null => cases null_of_normal same.symm
  | bool b => cases bool_of_normal same.symm
  | int m => rw [intText_inj (Canon.atom.inj same)]
  | float x => exact absurd (Canon.atom.inj same).symm (intText_ne_jsonFloat n x)
  | str | arr => cases same
  | obj fields =>
      rw [normal_obj] at same
      cases same

theorem float_of_normal {j : Json} {x : PyFloat} (same : normal j = normal (.float x)) : ∃ y, j = .float y ∧ y.Same x := by
  cases j with
  | null => cases null_of_normal same.symm
  | bool b => cases bool_of_normal same.symm
  | int n => cases int_of_normal same.symm
  | float y => exact ⟨y, rfl, PyFloat.jsonFloat_inj (Canon.atom.inj same)⟩
  | str | arr => cases same
  | obj fields =>
      rw [normal_obj] at same
      cases same

theorem forall₂_of_map {α β : Type} {f : α → β} {R : α → α → Prop} {xs ys : List α} (same : xs.map f = ys.map f)
    (each : ∀ x ∈ xs, ∀ y, f x = f y → R x y) : List.Forall₂ R xs ys := by
  induction xs generalizing ys with
  | nil =>
      cases ys with
      | nil => exact .nil
      | cons y ys => cases same
  | cons x xs ih =>
      cases ys with
      | nil => cases same
      | cons y ys =>
          obtain ⟨first, rest⟩ := List.cons.inj same
          exact .cons (each x List.mem_cons_self y first) (ih rest fun x inside => each x (List.mem_cons_of_mem _ inside))

mutual
/-- Values of which the same is kept differ in the order of their keys alone. -/
theorem reorders_of_normal : ∀ a b : Json, normal a = normal b → Reorders a b
  | .null, b, same => by
      rw [null_of_normal same.symm]
      exact .refl _
  | .bool v, b, same => by
      rw [bool_of_normal same.symm]
      exact .refl _
  | .int n, b, same => by
      rw [int_of_normal same.symm]
      exact .refl _
  | .float x, b, same => by
      obtain ⟨y, rfl, alike⟩ := float_of_normal same.symm
      exact .float ⟨alike.1.symm, alike.2.symm⟩
  | .str s, b, same => by
      rw [str_of_normal same.symm]
      exact .refl _
  | .arr xs, b, same => by
      obtain ⟨ys, rfl, items⟩ := arr_of_normal same.symm
      exact @reorders_items [] _ _ (forall₂_of_map items.symm (items_of_normal xs))
  | .obj fields, b, same => by
      obtain ⟨fields', rfl⟩ := obj_of_normal same.symm
      rw [normal_obj, normal_obj, Canon.obj.injEq] at same
      refine .trans (.keys (sortFields_perm fields).symm) (.trans ?_ (.keys (sortFields_perm fields')))
      refine @reorders_values [] _ _ (forall₂_of_map same fun f member g alike => ?_)
      obtain ⟨keys, values⟩ := Prod.mk.inj alike
      exact ⟨keys, values_of_normal fields f ((sortFields_perm fields).mem_iff.mp member) _ values⟩

theorem items_of_normal : ∀ xs : List Json, ∀ x ∈ xs, ∀ b, normal x = normal b → Reorders x b
  | [] => by simp
  | x :: xs => List.forall_mem_cons.mpr ⟨reorders_of_normal x, items_of_normal xs⟩

theorem values_of_normal : ∀ fields : List (String × Json), ∀ f ∈ fields, ∀ b, normal f.2 = normal b → Reorders f.2 b
  | [] => by simp
  | (_, x) :: fields => List.forall_mem_cons.mpr ⟨reorders_of_normal x, values_of_normal fields⟩
end

/-- The canonical text is that of the value up to the order of its keys, and of no other value. -/
theorem canonical_eq_iff {a b : Json} (keyed : a.Keyed) : canonical a = canonical b ↔ Reorders a b := by
  constructor
  · exact fun same => reorders_of_normal a b (normal_of_canonical same)
  · intro reorders
    rw [canonical_eq_text, canonical_eq_text, (normal_of_reorders reorders keyed).2]

end JsonText
end Maof
