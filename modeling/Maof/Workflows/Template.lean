import Maof.Types
import Maof.Data.JsonText

/-!
# Templates

`{{ context.* }}` and `{{ steps.<id>.output.* }}` inside a step's input. The
pattern's character classes are disjoint, so a match at a place is found
without backtracking.
-/

namespace Maof

open Data (Dict)

/-- What the Unicode database says of a character outside ASCII. -/
structure Unicode where
  alnum : Char → Bool
  printable : Char → Bool

namespace Template

/-- `str.isspace`, which `str.strip` and `\s` share. -/
def isSpace (c : Char) : Bool :=
  let n := c.toNat
  (9 ≤ n && n ≤ 13) || (28 ≤ n && n ≤ 32) || n = 0x85 || n = 0xa0 || n = 0x1680 ||
    (0x2000 ≤ n && n ≤ 0x200a) || n = 0x2028 || n = 0x2029 || n = 0x202f || n = 0x205f || n = 0x3000

/-- `[\w.\-]`. -/
def isPath (u : Unicode) (c : Char) : Bool :=
  if c.toNat < 128 then c.isAlphanum || c = '_' || c = '.' || c = '-' else u.alnum c

def strip (s : List Char) : List Char :=
  ((s.dropWhile isSpace).reverse.dropWhile isSpace).reverse

/-- Match `\{\{\s*([\w.\-]+)\s*\}\}` at the head: the group and the text after. -/
def matchHead (u : Unicode) : List Char → Option (List Char × List Char)
  | '{' :: '{' :: rest =>
      let inner := rest.dropWhile isSpace
      let path := inner.takeWhile (isPath u)
      if path.isEmpty then none
      else match (inner.dropWhile (isPath u)).dropWhile isSpace with
        | '}' :: '}' :: rest => some (path, rest)
        | _ => none
  | _ => none

/-- `_TEMPLATE_RE.fullmatch`. -/
def fullMatch (u : Unicode) (s : List Char) : Option (List Char) :=
  match matchHead u s with
  | some (path, []) => some path
  | _ => none

inductive Piece where
  | text (c : Char)
  | path (p : List Char)

/-- The leftmost matches of the pattern and the text between them. -/
def pieces (u : Unicode) : Nat → List Char → List Piece
  | 0, s => s.map .text
  | _ + 1, [] => []
  | n + 1, c :: s =>
      match matchHead u (c :: s) with
      | some (p, rest) => .path p :: pieces u n rest
      | none => .text c :: pieces u n s

/-- `path.split(".")`. -/
def splitDots : List Char → List (List Char)
  | [] => [[]]
  | c :: s =>
      if c = '.' then [] :: splitDots s
      else match splitDots s with
        | part :: parts => (c :: part) :: parts
        | [] => [[c]]

/-! ## `str` and `repr` -/

def hex2 (n : Nat) : List Char := [JsonText.hexDigit (n / 16), JsonText.hexDigit n]

def reprChar (u : Unicode) (quote c : Char) : List Char :=
  if c = quote ∨ c = '\\' then ['\\', c]
  else if c = '\t' then ['\\', 't']
  else if c = '\r' then ['\\', 'r']
  else if c = '\n' then ['\\', 'n']
  else if c.toNat < 32 ∨ c.toNat = 127 then '\\' :: 'x' :: hex2 c.toNat
  else if c.toNat < 127 ∨ u.printable c then [c]
  else if c.toNat ≤ 0xff then '\\' :: 'x' :: hex2 c.toNat
  else if c.toNat ≤ 0xffff then '\\' :: 'u' :: JsonText.hex4 c.toNat
  else '\\' :: 'U' :: JsonText.hex4 (c.toNat / 65536) ++ JsonText.hex4 c.toNat

/-- `repr` of a string: double quotes only when it holds a single quote and no double one. -/
def reprStr (u : Unicode) (s : List Char) : List Char :=
  let quote := if '\'' ∈ s ∧ '"' ∉ s then '"' else '\''
  quote :: s.flatMap (reprChar u quote) ++ [quote]

def commaSpace : List (List Char) → List Char
  | [] => []
  | [x] => x
  | x :: xs => x ++ ',' :: ' ' :: commaSpace xs

mutual
def pyRepr (u : Unicode) : Json → List Char
  | .null => "None".toList
  | .bool b => if b then "True".toList else "False".toList
  | .int n => JsonText.intText n
  | .float x => JsonText.floatText x
  | .str s => reprStr u s.toList
  | .arr xs => '[' :: commaSpace (pyReprItems u xs) ++ [']']
  | .obj fields => '{' :: commaSpace (pyReprFields u fields) ++ ['}']

def pyReprItems (u : Unicode) : List Json → List (List Char)
  | [] => []
  | x :: xs => pyRepr u x :: pyReprItems u xs

def pyReprFields (u : Unicode) : List (String × Json) → List (List Char)
  | [] => []
  | (k, x) :: fields => (reprStr u k.toList ++ ':' :: ' ' :: pyRepr u x) :: pyReprFields u fields
end

/-- `f"{value!r}"`. -/
def reprText (u : Unicode) (value : Json) : String := String.ofList (pyRepr u value)

def pyStr (u : Unicode) : Json → List Char
  | .str s => s.toList
  | x => pyRepr u x

/-! ## Binding -/

/-- Follow the remaining path parts into nested dictionaries. -/
def follow : List String → Json → Json
  | [], current => current
  | part :: parts, .obj fields => follow parts ((Dict.get fields part).getD .null)
  | _ :: _, _ => .null

def pathParts (path : List Char) : List String := (splitDots path).map String.ofList

/-- The step whose output a path reads, if it reads one. -/
def stepOf (path : List Char) : Option StepId :=
  match pathParts path with
  | "steps" :: id :: "output" :: _ => some id
  | _ => none

def resolvePath (context : Dict String Json) (outputs : Outputs) (path : List Char) : Json :=
  match pathParts path with
  | "context" :: parts => follow parts (.obj context)
  | "steps" :: id :: "output" :: parts => follow parts (.obj ((Dict.get outputs id).getD []))
  | _ => .null

def bindString (u : Unicode) (context : Dict String Json) (outputs : Outputs) (s : String) : Json :=
  match fullMatch u (strip s.toList) with
  | some path => resolvePath context outputs path
  | none => .str (String.ofList ((pieces u s.toList.length s.toList).flatMap fun
      | .text c => [c]
      | .path p =>
          let value := resolvePath context outputs p
          if value.truthy then pyStr u value else []))

mutual
def bind (u : Unicode) (context : Dict String Json) (outputs : Outputs) : Json → Json
  | .str s => bindString u context outputs s
  | .obj fields => .obj (bindFields u context outputs fields)
  | .arr xs => .arr (bindItems u context outputs xs)
  | value => value

def bindItems (u : Unicode) (context : Dict String Json) (outputs : Outputs) : List Json → List Json
  | [] => []
  | x :: xs => bind u context outputs x :: bindItems u context outputs xs

def bindFields (u : Unicode) (context : Dict String Json) (outputs : Outputs) :
    List (String × Json) → List (String × Json)
  | [] => []
  | (k, x) :: fields => (k, bind u context outputs x) :: bindFields u context outputs fields
end

/-! ## What a template reads -/

def stringReads (u : Unicode) (s : String) : List StepId :=
  match fullMatch u (strip s.toList) with
  | some path => (stepOf path).toList
  | none => (pieces u s.toList.length s.toList).flatMap fun
      | .text _ => []
      | .path p => (stepOf p).toList

mutual
/-- The steps whose outputs a value's templates read. -/
def reads (u : Unicode) : Json → List StepId
  | .str s => stringReads u s
  | .obj fields => fieldReads u fields
  | .arr xs => itemReads u xs
  | _ => []

def itemReads (u : Unicode) : List Json → List StepId
  | [] => []
  | x :: xs => reads u x ++ itemReads u xs

def fieldReads (u : Unicode) : List (String × Json) → List StepId
  | [] => []
  | (_, x) :: fields => reads u x ++ fieldReads u fields
end

/-- Two sets of outputs that agree on some steps. -/
def AgreeOn (ids : List StepId) (outputs outputs' : Outputs) : Prop :=
  ∀ id ∈ ids, Dict.get outputs id = Dict.get outputs' id

theorem AgreeOn.left {xs ys : List StepId} {o o' : Outputs} (h : AgreeOn (xs ++ ys) o o') :
    AgreeOn xs o o' := fun id member => h id (List.mem_append_left _ member)

theorem AgreeOn.right {xs ys : List StepId} {o o' : Outputs} (h : AgreeOn (xs ++ ys) o o') :
    AgreeOn ys o o' := fun id member => h id (List.mem_append_right _ member)

variable {u : Unicode} {context : Dict String Json} {o o' : Outputs}

theorem resolvePath_agree {path : List Char} (agree : AgreeOn (stepOf path).toList o o') :
    resolvePath context o path = resolvePath context o' path := by
  unfold resolvePath
  unfold stepOf at agree
  split
  · rfl
  · next id parts shape =>
      rw [shape] at agree
      rw [agree id (by simp)]
  · rfl

theorem bindString_agree {s : String} (agree : AgreeOn (stringReads u s) o o') :
    bindString u context o s = bindString u context o' s := by
  unfold bindString
  unfold stringReads at agree
  split
  · next path whole =>
      simp only [whole] at agree
      exact resolvePath_agree agree
  · next none =>
      simp only [none] at agree
      congr 2
      refine List.flatMap_congr fun piece member => ?_
      cases piece with
      | text c => rfl
      | path p =>
          have same : resolvePath context o p = resolvePath context o' p :=
            resolvePath_agree fun id hid => agree id (List.mem_flatMap.mpr ⟨.path p, member, hid⟩)
          simp only [same]

mutual
/-- Binding depends on the outputs only at the steps the templates read. -/
theorem bind_agree : ∀ value, AgreeOn (reads u value) o o' →
    bind u context o value = bind u context o' value
  | .str s, agree => by
      simp only [bind]
      exact bindString_agree agree
  | .obj fields, agree => by
      simp only [bind, bindFields_agree fields agree]
  | .arr xs, agree => by
      simp only [bind, bindItems_agree xs agree]
  | .null, _ => by simp only [bind]
  | .bool _, _ => by simp only [bind]
  | .int _, _ => by simp only [bind]
  | .float _, _ => by simp only [bind]

theorem bindItems_agree : ∀ xs, AgreeOn (itemReads u xs) o o' →
    bindItems u context o xs = bindItems u context o' xs
  | [], _ => rfl
  | x :: xs, agree => by
      simp only [itemReads] at agree
      simp only [bindItems, bind_agree x agree.left, bindItems_agree xs agree.right]

theorem bindFields_agree : ∀ fields, AgreeOn (fieldReads u fields) o o' →
    bindFields u context o fields = bindFields u context o' fields
  | [], _ => rfl
  | (k, x) :: fields, agree => by
      simp only [fieldReads] at agree
      simp only [bindFields, bind_agree x agree.left, bindFields_agree fields agree.right]
end

/-! ## Places in a value -/

/-- The value at a path of keys and positions. -/
def at? : List (String ⊕ Nat) → Json → Option Json
  | [], value => some value
  | .inl key :: path, .obj fields => (Dict.get fields key).bind (at? path)
  | .inr i :: path, .arr xs => xs[i]?.bind (at? path)
  | _ :: _, _ => none

theorem get_bindFields (fields : List (String × Json)) (key : String) :
    Dict.get (bindFields u context o fields) key = (Dict.get fields key).map (bind u context o) := by
  induction fields with
  | nil => rfl
  | cons kx fields ih =>
      obtain ⟨k, x⟩ := kx
      by_cases same : k = key
      · simp only [bindFields, Dict.get, if_pos same, Option.map_some]
      · simp only [bindFields, Dict.get, if_neg same, ih]

theorem getElem?_bindItems (xs : List Json) (i : Nat) : (bindItems u context o xs)[i]? = xs[i]?.map (bind u context o) := by
  induction xs generalizing i with
  | nil => rfl
  | cons x xs ih =>
      cases i with
      | zero => rfl
      | succ i => simpa [bindItems] using ih i

/-- What stands at a place is bound where it stands. -/
theorem at?_bind {path : List (String ⊕ Nat)} {value found : Json} (h : at? path value = some found) :
    at? path (bind u context o value) = some (bind u context o found) := by
  induction path generalizing value with
  | nil =>
      obtain rfl := Option.some.inj h
      rfl
  | cons step path ih =>
      cases step with
      | inl key =>
          cases value with
          | obj fields =>
              obtain ⟨inner, there, below⟩ := Option.bind_eq_some_iff.mp h
              simp only [bind, at?, get_bindFields, there, Option.map_some, Option.bind_some]
              exact ih below
          | _ => cases h
      | inr i =>
          cases value with
          | arr xs =>
              obtain ⟨inner, there, below⟩ := Option.bind_eq_some_iff.mp h
              simp only [bind, at?, getElem?_bindItems, there, Option.map_some, Option.bind_some]
              exact ih below
          | _ => cases h

/-- The text is one template, of an entry of the context. -/
def IsContext (u : Unicode) (s : String) (key : String) : Prop :=
  fullMatch u (strip s.toList) = some ("context.".toList ++ key.toList)

instance {u : Unicode} {s key : String} : Decidable (IsContext u s key) :=
  inferInstanceAs (Decidable (_ = some _))

theorem splitDots_dotless {s : List Char} (dotless : '.' ∉ s) : splitDots s = [s] := by
  induction s with
  | nil => rfl
  | cons c s ih =>
      obtain ⟨here, later⟩ := not_or.mp (fun inside => dotless (List.mem_cons.mpr inside))
      simp only [splitDots, if_neg (Ne.symm here), ih later]

/-- A template of an entry of the context is bound to that entry. -/
theorem bindString_context {s key : String} (template : IsContext u s key) (dotless : '.' ∉ key.toList) :
    bindString u context o s = (Dict.get context key).getD .null := by
  have parts : pathParts ("context.".toList ++ key.toList) = ["context", key] := by
    have split : splitDots ("context.".toList ++ key.toList) = "context".toList :: splitDots key.toList := rfl
    rw [pathParts, split, splitDots_dotless dotless]
    simp [String.ofList_toList]
  simp only [bindString, show fullMatch u (strip s.toList) = _ from template, resolvePath, parts, follow]

end Template
end Maof
