import Maof.Data.JsonText

/-!
# Canonical JSON is injective

The canonical text keeps all of a value but the order of its fields and the type
behind a number's spelling.
-/

namespace Maof

open Data (Dict)

namespace JsonText

/-- What the text keeps of a value. -/
inductive Canon where
  | atom (text : List Char)
  | str (s : String)
  | arr (xs : List Canon)
  | obj (fields : List (String × Canon))

mutual
/-- Numbers as they are spelled, fields in the order of their keys. -/
def normal : Json → Canon
  | .null => .atom "null".toList
  | .bool b => .atom (if b then "true".toList else "false".toList)
  | .int n => .atom (intText n)
  | .float x => .atom (jsonFloat x)
  | .str s => .str s
  | .arr xs => .arr (normalItems xs)
  | .obj fields => .obj (sortFields (normalFields fields))

def normalItems : List Json → List Canon
  | [] => []
  | x :: xs => normal x :: normalItems xs

def normalFields : List (String × Json) → List (String × Canon)
  | [] => []
  | (k, x) :: fields => (k, normal x) :: normalFields fields
end

theorem normalItems_eq (xs : List Json) : normalItems xs = xs.map normal := by
  induction xs with
  | nil => rfl
  | cons x xs ih => simp only [normalItems, List.map_cons, ih]

theorem canonicalFields_eq (fields : List (String × Json)) :
    canonicalFields fields = fields.map fun f => (f.1, canonical f.2) := by
  induction fields with
  | nil => rfl
  | cons f fields ih => simp only [canonicalFields, List.map_cons, ih]

theorem normalFields_eq (fields : List (String × Json)) :
    normalFields fields = fields.map fun f => (f.1, normal f.2) := by
  induction fields with
  | nil => rfl
  | cons f fields ih => simp only [normalFields, List.map_cons, ih]

/-- Sorting by keys does not look at what the keys hold. -/
theorem sortFields_map {α β : Type} (f : α → β) (fields : List (String × α)) :
    sortFields (fields.map fun kv => (kv.1, f kv.2)) = (sortFields fields).map fun kv => (kv.1, f kv.2) := by
  have sorted := List.map_insertionSort (fun a b : String × α => a.1 ≤ b.1) (fun a b : String × β => a.1 ≤ b.1)
    (fun kv => (kv.1, f kv.2)) fields fun _ _ _ _ => Iff.rfl
  exact sorted.symm

/-! ## Where a value ends -/

/-- The text is at its end, or goes on after a value. -/
def Stop : List Char → Prop
  | [] => True
  | c :: _ => c = ',' ∨ c = ']' ∨ c = '}'

/-- A character that is part of a number or a name. -/
def Plain (c : Char) : Prop := c ∉ ",]\x7d[\x7b\"".toList

instance : DecidablePred Plain := fun c => inferInstanceAs (Decidable (c ∉ _))

theorem spells_plain : Spells Plain where
  digit c digit member := by
    have none : Throughout (fun d => d.isDigit = false) ",]\x7d[\x7b\"".toList := by decide
    rw [none c member] at digit
    cases digit
  mark := by decide

theorem plain_of_notStop {c : Char} {r : List Char} (h : Stop (c :: r)) : ¬ Plain c := by
  rcases h with rfl | rfl | rfl <;> decide

/-- Plain text ends where the text around it stops. -/
theorem plain_read {s t r r' : List Char} (hs : Throughout Plain s) (ht : Throughout Plain t)
    (stop : Stop r) (stop' : Stop r') (same : s ++ r = t ++ r') : s = t ∧ r = r' := by
  induction s generalizing t with
  | nil =>
      cases t with
      | nil => exact ⟨rfl, same⟩
      | cons c t =>
          rw [List.nil_append] at same
          subst same
          exact absurd (ht c List.mem_cons_self) (plain_of_notStop stop)
  | cons c s ih =>
      cases t with
      | nil =>
          rw [List.nil_append] at same
          subst same
          exact absurd (hs c List.mem_cons_self) (plain_of_notStop stop')
      | cons d t =>
          obtain ⟨rfl, rest⟩ := List.cons.inj same
          obtain ⟨rfl, tails⟩ := ih (fun c inside => hs c (List.mem_cons_of_mem _ inside))
            (fun c inside => ht c (List.mem_cons_of_mem _ inside)) rest
          exact ⟨rfl, tails⟩

theorem jsonFloat_ne_nil (x : PyFloat) : jsonFloat x ≠ [] := by
  cases x with
  | nan => decide
  | inf neg => cases neg <;> decide
  | dec neg coeff exp =>
      simp only [jsonFloat, floatText]
      generalize (if coeff = 0 then ((0 : Nat), (0 : Int)) else trimZeros coeff coeff exp) = ce
      split
      · simp
      · split
        · split
          · simp
          · split
            · simp
            · simp
        · simp

/-- Every atom is some text without quotes or brackets. -/
inductive Spelled : Canon → Prop
  | atom {text : List Char} (plain : Throughout Plain text) (some : text ≠ []) : Spelled (.atom text)
  | str (s : String) : Spelled (.str s)
  | arr {xs : List Canon} (items : ∀ x ∈ xs, Spelled x) : Spelled (.arr xs)
  | obj {fields : List (String × Canon)} (values : ∀ f ∈ fields, Spelled f.2) : Spelled (.obj fields)

theorem sortFields_perm {α : Type} (fields : List (String × α)) : (sortFields fields).Perm fields :=
  List.perm_insertionSort _ fields

mutual
theorem normal_spelled : ∀ j : Json, Spelled (normal j)
  | .null => .atom (by decide) (by decide)
  | .bool true => .atom (by decide) (by decide)
  | .bool false => .atom (by decide) (by decide)
  | .int n => by
      rw [normal]
      refine .atom (spells_plain.intText n) ?_
      rw [intText]
      split
      · simp
      · exact Nat.toDigits_ne_nil
  | .float x => .atom (spells_plain.jsonFloat x) (jsonFloat_ne_nil x)
  | .str s => .str s
  | .arr xs => by
      rw [normal]
      exact .arr (normalItems_spelled xs)
  | .obj fields => by
      rw [normal]
      exact .obj fun f inside => normalFields_spelled fields f ((sortFields_perm _).mem_iff.mp inside)

theorem normalItems_spelled : ∀ xs : List Json, ∀ x ∈ normalItems xs, Spelled x
  | [] => by simp [normalItems]
  | x :: xs => by
      rw [normalItems]
      exact List.forall_mem_cons.mpr ⟨normal_spelled x, normalItems_spelled xs⟩

theorem normalFields_spelled : ∀ fields : List (String × Json), ∀ f ∈ normalFields fields, Spelled f.2
  | [] => by simp [normalFields]
  | (_, x) :: fields => by
      rw [normalFields]
      exact List.forall_mem_cons.mpr ⟨normal_spelled x, normalFields_spelled fields⟩
end

/-! ## The text of what is kept -/

namespace Canon

mutual
def text : Canon → List Char
  | .atom t => t
  | .str s => quoted s
  | .arr xs => '[' :: commas (itemTexts xs) ++ [']']
  | .obj fields => '{' :: commas (memberTexts fields) ++ ['}']

def itemTexts : List Canon → List (List Char)
  | [] => []
  | x :: xs => text x :: itemTexts xs

def memberTexts : List (String × Canon) → List (List Char)
  | [] => []
  | (k, x) :: fields => member (k, text x) :: memberTexts fields
end

theorem itemTexts_eq (xs : List Canon) : itemTexts xs = xs.map text := by
  induction xs with
  | nil => rfl
  | cons x xs ih => simp only [itemTexts, List.map_cons, ih]

theorem memberTexts_eq (fields : List (String × Canon)) :
    memberTexts fields = fields.map fun f => member (f.1, f.2.text) := by
  induction fields with
  | nil => rfl
  | cons f fields ih => simp only [memberTexts, List.map_cons, ih]

end Canon

theorem canonical_obj (fields : List (String × Json)) : canonical (.obj fields) =
    '{' :: (commas ((sortFields fields).map fun f => member (f.1, canonical f.2)) ++ ['}']) := by
  simp only [canonical, canonicalFields_eq, sortFields_map canonical, List.map_map, Function.comp_def,
    List.cons_append]

theorem normal_obj (fields : List (String × Json)) :
    normal (.obj fields) = .obj ((sortFields fields).map fun f => (f.1, normal f.2)) := by
  simp only [normal, normalFields_eq, sortFields_map normal]

mutual
/-- The canonical text is that of what it keeps. -/
theorem canonical_eq_text : ∀ j : Json, canonical j = (normal j).text
  | .null | .bool _ | .int _ | .float _ | .str _ => rfl
  | .arr xs => by
      rw [canonical, normal, Canon.text, canonicalItems_eq_texts xs]
  | .obj fields => by
      rw [canonical_obj, normal_obj, Canon.text, Canon.memberTexts_eq, List.map_map, List.cons_append]
      congr 3
      refine List.map_congr_left fun f inside => ?_
      rw [canonicalFields_eq_texts fields f ((sortFields_perm fields).mem_iff.mp inside)]
      rfl

theorem canonicalItems_eq_texts : ∀ xs : List Json, canonicalItems xs = Canon.itemTexts (normalItems xs)
  | [] => rfl
  | x :: xs => by
      rw [canonicalItems, normalItems, Canon.itemTexts, canonical_eq_text x, canonicalItems_eq_texts xs]

theorem canonicalFields_eq_texts : ∀ fields : List (String × Json), ∀ f ∈ fields, canonical f.2 = (normal f.2).text
  | [] => by simp
  | (_, x) :: fields => List.forall_mem_cons.mpr ⟨canonical_eq_text x, canonicalFields_eq_texts fields⟩
end

/-! ## Reading values back -/

/-- The first character tells what kind of value follows. -/
inductive Opening : Canon → Char → Prop
  | atom {text : List Char} {c : Char} (plain : Plain c) : Opening (.atom text) c
  | str (s : String) : Opening (.str s) '"'
  | arr (xs : List Canon) : Opening (.arr xs) '['
  | obj (fields : List (String × Canon)) : Opening (.obj fields) '{'

theorem Spelled.opening {a : Canon} (spelled : Spelled a) : ∃ c t, a.text = c :: t ∧ Opening a c := by
  cases spelled with
  | @atom text plain some =>
      obtain ⟨c, t, split⟩ := List.exists_cons_of_ne_nil some
      exact ⟨c, t, split, .atom (plain c (by simp [split]))⟩
  | str s => exact ⟨_, _, by simp only [Canon.text, quoted, List.cons_append]; rfl, .str s⟩
  | @arr xs _ => exact ⟨_, _, by simp only [Canon.text, List.cons_append]; rfl, .arr xs⟩
  | @obj fields _ => exact ⟨_, _, by simp only [Canon.text, List.cons_append]; rfl, .obj fields⟩

theorem Opening.ne_close {a : Canon} {c : Char} (h : Opening a c) : c ≠ ']' ∧ c ≠ '}' ∧ c ≠ ',' := by
  cases h with
  | atom plain =>
      refine ⟨?_, ?_, ?_⟩ <;> rintro rfl <;> exact absurd plain (by decide)
  | _ => decide

/-- The text of a value, followed by a stop, determines the value. -/
def Reads (a : Canon) : Prop :=
  ∀ b r r', Spelled b → Stop r → Stop r' → a.text ++ r = b.text ++ r' → a = b ∧ r = r'

theorem commas_cons (x : List Char) (xs : List (List Char)) :
    commas (x :: xs) = x ++ if xs = [] then [] else ',' :: commas xs := by
  cases xs with
  | nil => simp [commas]
  | cons y ys => simp [commas]

/-- Items that can each be read back, up to the closing bracket. -/
theorem commas_read {α : Type} {text : α → List Char} {P : α → Prop} {close : Char}
    (stop : ∀ r, Stop (close :: r)) (apart : close ≠ ',') (opens : ∀ y, P y → ∃ c t, text y = c :: t ∧ c ≠ close)
    {xs : List α} (proper : ∀ x ∈ xs, P x) (reads : ∀ x ∈ xs, ∀ y, P y → ∀ r r', Stop r → Stop r' →
      text x ++ r = text y ++ r' → x = y ∧ r = r') {ys : List α} (proper' : ∀ y ∈ ys, P y) {r r' : List Char}
    (same : commas (xs.map text) ++ close :: r = commas (ys.map text) ++ close :: r') : xs = ys ∧ r = r' := by
  have tail : ∀ zs : List α, ∀ r, Stop ((if zs.map text = [] then [] else ',' :: commas (zs.map text)) ++ close :: r) := by
    intro zs r
    split
    · exact stop r
    · exact .inl rfl
  induction xs generalizing ys with
  | nil =>
      cases ys with
      | nil => exact ⟨rfl, (List.cons.inj same).2⟩
      | cons y ys =>
          obtain ⟨c, t, starts, other⟩ := opens y (proper' y List.mem_cons_self)
          rw [List.map_cons, commas_cons, starts] at same
          exact absurd (List.cons.inj same).1.symm other
  | cons x xs ih =>
      cases ys with
      | nil =>
          obtain ⟨c, t, starts, other⟩ := opens x (proper x List.mem_cons_self)
          rw [List.map_cons, commas_cons, starts] at same
          exact absurd (List.cons.inj same).1 other
      | cons y ys =>
          rw [List.map_cons, commas_cons, List.map_cons, commas_cons, List.append_assoc, List.append_assoc] at same
          obtain ⟨rfl, rest⟩ :=
            reads x List.mem_cons_self y (proper' y List.mem_cons_self) _ _ (tail xs r) (tail ys r') same
          have later := fun x inside => reads x (List.mem_cons_of_mem _ inside)
          have known := fun x inside => proper x (List.mem_cons_of_mem _ inside)
          have known' := fun y inside => proper' y (List.mem_cons_of_mem _ inside)
          cases xs with
          | nil =>
              cases ys with
              | nil => exact ⟨rfl, (List.cons.inj rest).2⟩
              | cons y' ys => exact absurd (List.cons.inj rest).1 apart
          | cons x' xs =>
              cases ys with
              | nil => exact absurd (List.cons.inj rest).1.symm apart
              | cons y' ys =>
                  obtain ⟨left, ends⟩ := ih known later known' (List.cons.inj rest).2
                  exact ⟨by rw [left], ends⟩

theorem member_read {f g : String × Canon} (reads : Reads f.2) (spelled : Spelled g.2) {r r' : List Char}
    (stop : Stop r) (stop' : Stop r') (same : member (f.1, f.2.text) ++ r = member (g.1, g.2.text) ++ r') :
    f = g ∧ r = r' := by
  simp only [member, quoted, List.cons_append, List.append_assoc, List.nil_append] at same
  obtain ⟨key, rest⟩ := escaped_quote_inj (List.cons.inj same).2
  obtain ⟨value, ends⟩ := reads g.2 r r' spelled stop stop' (List.cons.inj rest).2
  exact ⟨Prod.ext (String.toList_injective key) value, ends⟩

/-- Values whose texts open differently are not followed into one another. -/
theorem reads_of {a : Canon} {c : Char} (starts : ∃ t, a.text = c :: t)
    (alike : ∀ b, Spelled b → Opening b c → ∀ r r', Stop r → Stop r' → a.text ++ r = b.text ++ r' →
      a = b ∧ r = r') : Reads a := by
  intro b r r' spelled stop stop' same
  obtain ⟨t, split⟩ := starts
  obtain ⟨d, t', split', opened⟩ := spelled.opening
  have head : c = d := by
    rw [split, split'] at same
    exact (List.cons.inj same).1
  exact alike b spelled (head ▸ opened) r r' stop stop' same

theorem reads_atom {text : List Char} (plain : Throughout Plain text) (some : text ≠ []) : Reads (.atom text) := by
  obtain ⟨c, t, split⟩ := List.exists_cons_of_ne_nil some
  have first : Plain c := plain c (by simp [split])
  refine reads_of ⟨t, split⟩ fun b spelled opened r r' stop stop' same => ?_
  cases opened with
  | atom _ =>
      cases spelled with
      | atom plain' _ =>
          obtain ⟨texts, ends⟩ := plain_read plain plain' stop stop' same
          exact ⟨by rw [texts], ends⟩
  | _ => exact absurd first (by decide)

theorem reads_str (s : String) : Reads (.str s) := by
  refine reads_of ⟨_, by simp only [Canon.text, quoted, List.cons_append]; rfl⟩ fun b _ opened r r' _ _ same => ?_
  cases opened with
  | atom plain => exact absurd plain (by decide)
  | str s' =>
      simp only [Canon.text, quoted, List.cons_append, List.append_assoc, List.nil_append] at same
      obtain ⟨text, ends⟩ := escaped_quote_inj (List.cons.inj same).2
      exact ⟨by rw [String.toList_injective text], ends⟩

theorem reads_arr {xs : List Canon} (spelled : ∀ x ∈ xs, Spelled x) (items : ∀ x ∈ xs, Reads x) : Reads (.arr xs) := by
  refine reads_of ⟨_, by simp only [Canon.text, List.cons_append]; rfl⟩ fun b spelled' opened r r' _ _ same => ?_
  cases opened with
  | atom plain => exact absurd plain (by decide)
  | arr ys =>
      cases spelled' with
      | arr spelled' =>
          simp only [Canon.text, Canon.itemTexts_eq, List.cons_append, List.append_assoc, List.nil_append] at same
          obtain ⟨read, ends⟩ := commas_read (fun _ => .inr (.inl rfl)) (by decide)
            (fun y proper => proper.opening.imp fun c ⟨t, split, opened⟩ => ⟨t, split, opened.ne_close.1⟩) spelled
            (fun x inside y proper r r' => items x inside y r r' proper) spelled' (List.cons.inj same).2
          exact ⟨by rw [read], ends⟩

theorem reads_obj {fields : List (String × Canon)} (spelled : ∀ f ∈ fields, Spelled f.2)
    (values : ∀ f ∈ fields, Reads f.2) : Reads (.obj fields) := by
  refine reads_of ⟨_, by simp only [Canon.text, List.cons_append]; rfl⟩ fun b spelled' opened r r' _ _ same => ?_
  cases opened with
  | atom plain => exact absurd plain (by decide)
  | obj gs =>
      cases spelled' with
      | obj spelled' =>
          simp only [Canon.text, Canon.memberTexts_eq, List.cons_append, List.append_assoc, List.nil_append] at same
          obtain ⟨read, ends⟩ := commas_read (fun _ => .inr (.inr rfl)) (by decide)
            (fun _ _ => ⟨'"', _, by simp only [member, quoted, List.cons_append]; rfl, by decide⟩) spelled
            (fun f inside g proper r r' => member_read (values f inside) proper) spelled' (List.cons.inj same).2
          exact ⟨by rw [read], ends⟩

theorem reads {a : Canon} (spelled : Spelled a) : Reads a := by
  induction spelled with
  | atom plain some => exact reads_atom plain some
  | str s => exact reads_str s
  | arr items ih => exact reads_arr items ih
  | obj values ih => exact reads_obj values ih

/-- What is kept is all that the text depends on, and all that it tells. -/
theorem eq_of_text {a b : Canon} (ha : Spelled a) (hb : Spelled b) (same : a.text = b.text) : a = b :=
  (reads ha b [] [] hb trivial trivial (by rw [same])).1

/-- Values with the same canonical text differ at most in the order of fields and the
type behind a number. -/
theorem normal_of_canonical {a b : Json} (same : canonical a = canonical b) : normal a = normal b := by
  rw [canonical_eq_text, canonical_eq_text] at same
  exact eq_of_text (normal_spelled a) (normal_spelled b) same

/-! ## Reading members of a value whose text is known -/

theorem obj_of_normal {j : Json} {fields : List (String × Json)} (same : normal j = normal (.obj fields)) :
    ∃ fields', j = .obj fields' := by
  rw [normal_obj] at same
  cases j with
  | obj fields' => exact ⟨fields', rfl⟩
  | null | bool | int | float | str | arr => simp [normal] at same

theorem arr_of_normal {j : Json} {xs : List Json} (same : normal j = normal (.arr xs)) :
    ∃ ys, j = .arr ys ∧ ys.map normal = xs.map normal := by
  cases j with
  | arr ys =>
      simp only [normal, normalItems_eq, Canon.arr.injEq] at same
      exact ⟨ys, rfl, same⟩
  | obj fields => rw [normal_obj] at same; simp [normal] at same
  | null | bool | int | float | str => simp [normal] at same

theorem str_of_normal {j : Json} {s : String} (same : normal j = .str s) : j = .str s := by
  cases j with
  | str s' =>
      simp only [normal, Canon.str.injEq] at same
      rw [same]
  | obj fields => rw [normal_obj] at same; cases same
  | null | bool | int | float | arr => simp [normal] at same

theorem strs_of_normal {j : Json} {xs : List String} (same : normal j = normal (.strs xs)) : j = .strs xs := by
  obtain ⟨ys, rfl, items⟩ := arr_of_normal same
  clear same
  have each : ys = xs.map Json.str := by
    induction ys generalizing xs with
    | nil =>
        cases xs with
        | nil => rfl
        | cons x xs => cases items
    | cons y ys ih =>
        cases xs with
        | nil => cases items
        | cons x xs =>
            simp only [List.map_cons, List.cons.injEq] at items
            rw [str_of_normal items.1, ih items.2]
            rfl
  rw [each]
  rfl

/-- A member is found under its key whatever the order of the fields. -/
theorem get_normal (fields : List (String × Json)) (nodup : (Dict.keys fields).Nodup) (key : String) (c : Canon) :
    (Dict.get fields key).map normal = some c ↔
      (key, c) ∈ (sortFields fields).map fun f => (f.1, normal f.2) := by
  rw [Option.map_eq_some_iff, List.mem_map]
  constructor
  · rintro ⟨j, found, rfl⟩
    exact ⟨(key, j), (sortFields_perm fields).mem_iff.mpr (Dict.mem_of_get found), rfl⟩
  · rintro ⟨⟨key', j⟩, inside, same⟩
    cases same
    exact ⟨j, Dict.get_of_mem nodup ((sortFields_perm fields).mem_iff.mp inside), rfl⟩

theorem get_of_normal {fields fields' : List (String × Json)} (nodup : (Dict.keys fields).Nodup)
    (same : normal (.obj fields') = normal (.obj fields)) (key : String) :
    (Dict.get fields' key).map normal = (Dict.get fields key).map normal := by
  rw [normal_obj, normal_obj, Canon.obj.injEq] at same
  have names : ∀ fs : List (String × Json), ((sortFields fs).map fun f => (f.1, normal f.2)).map Prod.fst =
      (sortFields fs).map Prod.fst := fun fs => by rw [List.map_map]; rfl
  have nodup' : (Dict.keys fields').Nodup := by
    have sorted := ((sortFields_perm fields).map Prod.fst).nodup_iff.mpr nodup
    refine ((sortFields_perm fields').map Prod.fst).nodup_iff.mp ?_
    rw [← names, same, names]
    exact sorted
  refine Option.ext fun c => ?_
  rw [get_normal fields' nodup', get_normal fields nodup, same]

end JsonText
end Maof
