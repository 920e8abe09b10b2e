import Maof.Data.JsonUnique

/-!
# What `json.dumps` takes

The keys of a Python dictionary need not be strings. `json.dumps` writes a name for each of
them, but sorts by the keys: what is read back has the names only, and need not sort the same.
-/

namespace Maof

open Data (Dict)

/-- A key `json.dumps` writes a name for. -/
inductive PyKey where
  | none
  | bool (b : Bool)
  | int (n : Int)
  | float (x : PyFloat)
  | str (s : String)
deriving DecidableEq

namespace PyKey

def name : PyKey → String
  | .none => "null"
  | .bool b => if b then "true" else "false"
  | .int n => String.ofList (JsonText.intText n)
  | .float x => String.ofList (JsonText.jsonFloat x)
  | .str s => s

def isStr : PyKey → Bool
  | .str _ => true
  | _ => false

/-- The number a key compares as. -/
def numeral : PyKey → Option PyFloat
  | .bool b => some (.ofInt (if b then 1 else 0))
  | .int n => some (.ofInt n)
  | .float x => some x
  | _ => Option.none

/-- `a < b`, of two strings or two numbers. -/
def lt : PyKey → PyKey → Bool
  | .str s, .str t => s < t
  | a, b =>
      match a.numeral, b.numeral with
      | some x, some y => x.lt y
      | _, _ => false

/-- `<` raises for none of the comparisons that sorting makes. -/
def comparable (ks : List PyKey) : Bool :=
  ks.length ≤ 1 || ks.all isStr || ks.all fun k => k.numeral.isSome

/-- Python's `sorted` by the keys, or nothing where it raises. -/
def sorted? {β : Type} (key : β → PyKey) (xs : List β) : Option (List β) :=
  if comparable (xs.map key) then some (xs.insertionSort fun a b => !(key b).lt (key a)) else Option.none

theorem sorted?_map {β γ : Type} (key : γ → PyKey) (f : β → γ) (xs : List β) :
    sorted? key (xs.map f) = (sorted? (fun x => key (f x)) xs).map (List.map f) := by
  have same := List.map_insertionSort (fun a b => !(key (f b)).lt (key (f a))) (fun a b => !(key b).lt (key a)) f xs
    fun _ _ _ _ => Iff.rfl
  simp only [sorted?, List.map_map, Function.comp_def]
  split
  · rw [Option.map_some, same]
  · rfl

theorem sorted?_perm {β : Type} {key : β → PyKey} {xs ys : List β} (h : sorted? key xs = some ys) : ys.Perm xs := by
  unfold sorted? at h
  split at h
  · cases h
    exact List.perm_insertionSort _ xs
  · cases h

/-- Strings are sorted as names are. -/
theorem sorted?_str {β : Type} (key : β → String) (xs : List β) :
    sorted? (fun x => .str (key x)) xs = some (xs.insertionSort fun a b => key a ≤ key b) := by
  have strings : comparable (xs.map fun x => .str (key x)) = true := by
    simp [comparable, isStr]
  rw [sorted?, if_pos strings]
  congr 2
  funext a b
  apply propext
  rw [lt, Bool.not_eq_true', decide_eq_false_iff_not]
  exact String.not_lt

end PyKey

/-- A value `json.dumps` takes. -/
inductive PyValue where
  | null
  | bool (b : Bool)
  | int (n : Int)
  | float (x : PyFloat)
  | str (s : String)
  | list (xs : List PyValue)
  | tuple (xs : List PyValue)
  | dict (fields : List (PyKey × PyValue))

namespace PyValue

open JsonText (Canon Spelled)

/-! ## What is written -/

mutual
/-- What `json.dumps(value)` writes. -/
def written : PyValue → Json
  | .null => .null
  | .bool b => .bool b
  | .int n => .int n
  | .float x => .float x
  | .str s => .str s
  | .list xs => .arr (itemsWritten xs)
  | .tuple xs => .arr (itemsWritten xs)
  | .dict fields => .obj (fieldsWritten fields)

def itemsWritten : List PyValue → List Json
  | [] => []
  | x :: xs => written x :: itemsWritten xs

def fieldsWritten : List (PyKey × PyValue) → Dict String Json
  | [] => []
  | (k, x) :: fields => (k.name, written x) :: fieldsWritten fields
end

mutual
/-- `json.loads(json.dumps(value))`: of a name that comes twice the last value is kept. -/
def reload : PyValue → Json
  | .null => .null
  | .bool b => .bool b
  | .int n => .int n
  | .float x => .float x
  | .str s => .str s
  | .list xs => .arr (reloadItems xs)
  | .tuple xs => .arr (reloadItems xs)
  | .dict fields => .obj (Dict.update [] (reloadFields fields))

def reloadItems : List PyValue → List Json
  | [] => []
  | x :: xs => reload x :: reloadItems xs

def reloadFields : List (PyKey × PyValue) → Dict String Json
  | [] => []
  | (k, x) :: fields => (k.name, reload x) :: reloadFields fields
end

mutual
/-- What `json.dumps(value, sort_keys=True)` writes, if no comparison of keys raises. -/
def sorted? : PyValue → Option Canon
  | .null => some (.atom "null".toList)
  | .bool b => some (.atom (if b then "true".toList else "false".toList))
  | .int n => some (.atom (JsonText.intText n))
  | .float x => some (.atom (JsonText.jsonFloat x))
  | .str s => some (.str s)
  | .list xs => (sortedItems? xs).map .arr
  | .tuple xs => (sortedItems? xs).map .arr
  | .dict fields => do
      let fields ← sortedFields? fields
      let fields ← PyKey.sorted? Prod.fst fields
      return .obj (fields.map fun f => (f.1.name, f.2))

def sortedItems? : List PyValue → Option (List Canon)
  | [] => some []
  | x :: xs => do return (← sorted? x) :: (← sortedItems? xs)

def sortedFields? : List (PyKey × PyValue) → Option (List (PyKey × Canon))
  | [] => some []
  | (k, x) :: fields => do return (k, ← sorted? x) :: (← sortedFields? fields)
end

/-- `json.dumps(value, sort_keys=True, separators=(",", ":"))`. -/
def canonical? (v : PyValue) : Option (List Char) := v.sorted?.map Canon.text

/-! ## What is read back sorts as it did -/

/-- In every dictionary the names ascend in Python's order of the keys. -/
inductive Ordered : PyValue → Prop
  | null : Ordered .null
  | bool (b : Bool) : Ordered (.bool b)
  | int (n : Int) : Ordered (.int n)
  | float (x : PyFloat) : Ordered (.float x)
  | str (s : String) : Ordered (.str s)
  | list {xs : List PyValue} (items : ∀ x ∈ xs, Ordered x) : Ordered (.list xs)
  | tuple {xs : List PyValue} (items : ∀ x ∈ xs, Ordered x) : Ordered (.tuple xs)
  | dict {fields : List (PyKey × PyValue)} {ks : List PyKey}
      (order : PyKey.sorted? id (Dict.keys fields) = some ks) (ascend : (ks.map PyKey.name).Pairwise (· < ·))
      (values : ∀ f ∈ fields, Ordered f.2) : Ordered (.dict fields)

theorem reloadItems_eq (xs : List PyValue) : reloadItems xs = xs.map reload := by
  induction xs with
  | nil => rfl
  | cons x xs ih => simp only [reloadItems, List.map_cons, ih]

theorem reloadFields_eq (fields : List (PyKey × PyValue)) :
    reloadFields fields = fields.map fun f => (f.1.name, f.2.reload) := by
  induction fields with
  | nil => rfl
  | cons f fields ih => simp only [reloadFields, List.map_cons, ih]

theorem sortedItems?_of {xs : List PyValue} (items : ∀ x ∈ xs, x.sorted? = some (JsonText.normal x.reload)) :
    sortedItems? xs = some (xs.map fun x => JsonText.normal x.reload) := by
  induction xs with
  | nil => rfl
  | cons x xs ih =>
      have rest := ih fun y inside => items y (List.mem_cons_of_mem _ inside)
      simp [sortedItems?, items x List.mem_cons_self, rest]

theorem of_sortedItems? {xs : List PyValue} (h : sortedItems? xs = some (xs.map fun x => JsonText.normal x.reload)) :
    ∀ x ∈ xs, x.sorted? = some (JsonText.normal x.reload) := by
  induction xs with
  | nil => simp
  | cons x xs ih =>
      obtain ⟨c, first, h⟩ := Option.bind_eq_some_iff.mp h
      obtain ⟨cs, rest, same⟩ := Option.bind_eq_some_iff.mp h
      obtain ⟨rfl, rfl⟩ := List.cons.inj (Option.some.inj same)
      exact List.forall_mem_cons.mpr ⟨first, ih rest⟩

theorem sortedFields?_of {fields : List (PyKey × PyValue)}
    (values : ∀ f ∈ fields, f.2.sorted? = some (JsonText.normal f.2.reload)) :
    sortedFields? fields = some (fields.map fun f => (f.1, JsonText.normal f.2.reload)) := by
  induction fields with
  | nil => rfl
  | cons f fields ih =>
      have rest := ih fun g inside => values g (List.mem_cons_of_mem _ inside)
      simp [sortedFields?, values f List.mem_cons_self, rest]

theorem of_sortedFields? {fields : List (PyKey × PyValue)} {cs : List (PyKey × Canon)} (h : sortedFields? fields = some cs) :
    cs.map Prod.fst = Dict.keys fields ∧ ∀ f ∈ fields, ∃ c, f.2.sorted? = some c ∧ (f.1, c) ∈ cs := by
  induction fields generalizing cs with
  | nil =>
      cases h
      exact ⟨rfl, by simp⟩
  | cons f fields ih =>
      obtain ⟨c, first, h⟩ := Option.bind_eq_some_iff.mp h
      obtain ⟨rest, tail, same⟩ := Option.bind_eq_some_iff.mp h
      cases same
      obtain ⟨keys, found⟩ := ih tail
      refine ⟨by rw [List.map_cons, keys]; rfl, List.forall_mem_cons.mpr ⟨⟨c, first, List.mem_cons_self⟩, ?_⟩⟩
      intro g inside
      obtain ⟨d, value, there⟩ := found g inside
      exact ⟨d, value, List.mem_cons_of_mem _ there⟩

/-- The fields of a dictionary are put down in ascending order. -/
theorem sortFields_ascend {α : Type} {d : Dict String α} (nodup : (Dict.keys d).Nodup) :
    ((JsonText.sortFields d).map Prod.fst).Pairwise (· < ·) := by
  have : Std.Total fun a b : String × α => a.1 ≤ b.1 := ⟨fun a b => String.le_total a.1 b.1⟩
  have : IsTrans (String × α) fun a b => a.1 ≤ b.1 := ⟨fun _ _ _ => String.le_trans⟩
  have sorted : (JsonText.sortFields d).Pairwise fun a b => a.1 ≤ b.1 := List.pairwise_insertionSort _ d
  have apart : ((JsonText.sortFields d).map Prod.fst).Nodup :=
    ((JsonText.sortFields_perm d).map Prod.fst).nodup_iff.mpr nodup
  rw [List.pairwise_map]
  rw [List.Nodup, List.pairwise_map] at apart
  exact sorted.imp₂ (fun a b le ne => String.not_le.mp fun above => ne (String.le_antisymm le above)) apart

theorem nodup_of_ascend {names : List String} (ascend : names.Pairwise (· < ·)) : names.Nodup := by
  refine List.Pairwise.imp ?_ ascend
  intro a b below same
  subst same
  exact String.lt_irrefl _ below

/-- A list whose names ascend is what sorting by names makes of it. -/
theorem sortFields_of_ascend {α : Type} {d e : Dict String α} (perm : e.Perm d)
    (ascend : (e.map Prod.fst).Pairwise (· < ·)) : JsonText.sortFields d = e := by
  have nodup : (Dict.keys d).Nodup := (perm.map Prod.fst).nodup_iff.mp (nodup_of_ascend ascend)
  have sorted := sortFields_ascend nodup
  rw [List.pairwise_map] at sorted ascend
  have apart : ∀ a b : String × α, a ∈ JsonText.sortFields d → b ∈ e → a.1 < b.1 → b.1 < a.1 → a = b := by
    intro a b _ _ below above
    exact absurd (String.lt_trans below above) (String.lt_irrefl _)
  exact List.Perm.eq_of_pairwise apart sorted ascend ((JsonText.sortFields_perm d).trans perm.symm)

theorem list_sorted? {xs : List PyValue} :
    (sortedItems? xs).map Canon.arr = some (JsonText.normal (.arr (reloadItems xs))) ↔
      ∀ x ∈ xs, x.sorted? = some (JsonText.normal x.reload) := by
  rw [JsonText.normal, reloadItems_eq, JsonText.normalItems_eq, List.map_map]
  constructor
  · intro h
    obtain ⟨cs, items, same⟩ := Option.map_eq_some_iff.mp h
    cases same
    exact of_sortedItems? items
  · intro values
    rw [sortedItems?_of values]
    rfl

/-- A dictionary is sorted as its reading is just where the names ascend in the order of the keys. -/
theorem dict_sorted? {fields : List (PyKey × PyValue)} :
    (PyValue.dict fields).sorted? = some (JsonText.normal (PyValue.dict fields).reload) ↔
      (∃ ks, PyKey.sorted? id (Dict.keys fields) = some ks ∧ (ks.map PyKey.name).Pairwise (· < ·)) ∧
        ∀ f ∈ fields, f.2.sorted? = some (JsonText.normal f.2.reload) := by
  have names : Dict.keys (reloadFields fields) = (Dict.keys fields).map PyKey.name := by
    rw [reloadFields_eq]
    simp [Dict.keys, Function.comp_def]
  rw [reload, JsonText.normal_obj, sorted?]
  constructor
  · intro h
    obtain ⟨cs, sorted, h⟩ := Option.bind_eq_some_iff.mp h
    obtain ⟨fs, order, same⟩ := Option.bind_eq_some_iff.mp h
    have laid := Canon.obj.inj (Option.some.inj same)
    obtain ⟨keys, values⟩ := of_sortedFields? sorted
    have order' : PyKey.sorted? id (Dict.keys fields) = some (fs.map Prod.fst) := by
      rw [← keys, PyKey.sorted?_map]
      exact congrArg (Option.map (List.map Prod.fst)) order
    have heads := congrArg (List.map Prod.fst) laid
    simp only [List.map_map, Function.comp_def] at heads
    have ascend : ((fs.map Prod.fst).map PyKey.name).Pairwise (· < ·) := by
      rw [List.map_map, Function.comp_def, heads]
      exact sortFields_ascend (Dict.nodup_update (d := []) List.nodup_nil _)
    refine ⟨⟨_, order', ascend⟩, ?_⟩
    -- no name comes twice, so nothing is dropped and a name has the value of its key
    have nodup : ((Dict.keys fields).map PyKey.name).Nodup :=
      ((PyKey.sorted?_perm order').map PyKey.name).nodup_iff.mp (nodup_of_ascend ascend)
    rw [Dict.update_of_nodup (d := []) (by rw [List.nil_append, names]; exact nodup), List.nil_append] at laid
    intro f inside
    obtain ⟨c, value, there⟩ := values f inside
    have member : (f.1.name, c) ∈ (JsonText.sortFields (reloadFields fields)).map fun g => (g.1, JsonText.normal g.2) := by
      rw [← laid]
      exact List.mem_map.mpr ⟨(f.1, c), (PyKey.sorted?_perm order).mem_iff.mpr there, rfl⟩
    obtain ⟨g, among, same⟩ := List.mem_map.mp member
    have among := (JsonText.sortFields_perm _).mem_iff.mp among
    rw [reloadFields_eq] at among
    obtain ⟨f', inside', rfl⟩ := List.mem_map.mp among
    obtain ⟨name, rfl⟩ := Prod.mk.inj same
    have nodup : (fields.map fun f => f.1.name).Nodup := by simpa [Dict.keys, Function.comp_def] using nodup
    have back : f' = f := List.inj_on_of_nodup_map nodup inside' inside name
    rw [back] at value
    exact value
  · rintro ⟨⟨ks, order, ascend⟩, values⟩
    have nodup : ((Dict.keys fields).map PyKey.name).Nodup :=
      ((PyKey.sorted?_perm order).map PyKey.name).nodup_iff.mp (nodup_of_ascend ascend)
    rw [Dict.update_of_nodup (d := []) (by rw [List.nil_append, names]; exact nodup), List.nil_append]
    have keys : PyKey.sorted? id (Dict.keys fields) = (PyKey.sorted? Prod.fst fields).map (List.map Prod.fst) :=
      PyKey.sorted?_map id Prod.fst fields
    obtain ⟨fs, sorted, rfl⟩ := Option.map_eq_some_iff.mp (keys.symm.trans order)
    have laid : JsonText.sortFields (reloadFields fields) = fs.map fun f => (f.1.name, f.2.reload) := by
      refine sortFields_of_ascend ?_ ?_
      · rw [reloadFields_eq]
        exact (PyKey.sorted?_perm sorted).map _
      · simpa [Function.comp_def] using ascend
    rw [laid, sortedFields?_of values, Option.bind_eq_bind, Option.bind_some, PyKey.sorted?_map, sorted]
    simp [Function.comp_def]

mutual
/-- A value has the canonical text of what is read back of it just where it is ordered. -/
theorem sorted?_reload : ∀ v : PyValue, v.sorted? = some (JsonText.normal v.reload) ↔ v.Ordered
  | .null => ⟨fun _ => .null, fun _ => rfl⟩
  | .bool b => ⟨fun _ => .bool b, fun _ => rfl⟩
  | .int n => ⟨fun _ => .int n, fun _ => rfl⟩
  | .float x => ⟨fun _ => .float x, fun _ => rfl⟩
  | .str s => ⟨fun _ => .str s, fun _ => rfl⟩
  | .list xs => by
      rw [sorted?, reload, list_sorted?]
      constructor
      · intro values
        exact .list fun x inside => (items_sorted? xs x inside).mp (values x inside)
      · intro ordered
        cases ordered with
        | list items => exact fun x inside => (items_sorted? xs x inside).mpr (items x inside)
  | .tuple xs => by
      rw [sorted?, reload, list_sorted?]
      constructor
      · intro values
        exact .tuple fun x inside => (items_sorted? xs x inside).mp (values x inside)
      · intro ordered
        cases ordered with
        | tuple items => exact fun x inside => (items_sorted? xs x inside).mpr (items x inside)
  | .dict fields => by
      rw [dict_sorted?]
      constructor
      · rintro ⟨⟨ks, order, ascend⟩, values⟩
        exact .dict order ascend fun f inside => (values_sorted? fields f inside).mp (values f inside)
      · intro ordered
        cases ordered with
        | dict order ascend values =>
            exact ⟨⟨_, order, ascend⟩, fun f inside => (values_sorted? fields f inside).mpr (values f inside)⟩

theorem items_sorted? : ∀ xs : List PyValue, ∀ x ∈ xs, x.sorted? = some (JsonText.normal x.reload) ↔ x.Ordered
  | [] => by simp
  | x :: xs => List.forall_mem_cons.mpr ⟨sorted?_reload x, items_sorted? xs⟩

theorem values_sorted? : ∀ fields : List (PyKey × PyValue), ∀ f ∈ fields,
    f.2.sorted? = some (JsonText.normal f.2.reload) ↔ f.2.Ordered
  | [] => by simp
  | (_, x) :: fields => List.forall_mem_cons.mpr ⟨sorted?_reload x, values_sorted? fields⟩
end

mutual
theorem spelled_of_sorted? : ∀ (v : PyValue) (c : Canon), v.sorted? = some c → Spelled c
  | .null, c, h => by
      cases h
      exact JsonText.normal_spelled .null
  | .bool b, c, h => by
      cases h
      exact JsonText.normal_spelled (.bool b)
  | .int n, c, h => by
      cases h
      exact JsonText.normal_spelled (.int n)
  | .float x, c, h => by
      cases h
      exact JsonText.normal_spelled (.float x)
  | .str s, c, h => by
      cases h
      exact .str s
  | .list xs, c, h => by
      obtain ⟨cs, items, rfl⟩ := Option.map_eq_some_iff.mp h
      exact .arr (spelled_of_items? xs cs items)
  | .tuple xs, c, h => by
      obtain ⟨cs, items, rfl⟩ := Option.map_eq_some_iff.mp h
      exact .arr (spelled_of_items? xs cs items)
  | .dict fields, c, h => by
      obtain ⟨cs, values, h⟩ := Option.bind_eq_some_iff.mp h
      obtain ⟨fs, order, same⟩ := Option.bind_eq_some_iff.mp h
      cases same
      refine .obj fun f inside => ?_
      obtain ⟨g, among, rfl⟩ := List.mem_map.mp inside
      exact spelled_of_fields? fields cs values g ((PyKey.sorted?_perm order).mem_iff.mp among)

theorem spelled_of_items? : ∀ (xs : List PyValue) (cs : List Canon), sortedItems? xs = some cs → ∀ c ∈ cs, Spelled c
  | [], cs, h => by
      cases h
      simp
  | x :: xs, cs, h => by
      obtain ⟨c, first, h⟩ := Option.bind_eq_some_iff.mp h
      obtain ⟨rest, tail, same⟩ := Option.bind_eq_some_iff.mp h
      cases same
      exact List.forall_mem_cons.mpr ⟨spelled_of_sorted? x c first, spelled_of_items? xs rest tail⟩

theorem spelled_of_fields? : ∀ (fields : List (PyKey × PyValue)) (cs : List (PyKey × Canon)),
    sortedFields? fields = some cs → ∀ c ∈ cs, Spelled c.2
  | [], cs, h => by
      cases h
      simp
  | (k, x) :: fields, cs, h => by
      obtain ⟨c, first, h⟩ := Option.bind_eq_some_iff.mp h
      obtain ⟨rest, tail, same⟩ := Option.bind_eq_some_iff.mp h
      cases same
      exact List.forall_mem_cons.mpr ⟨spelled_of_sorted? x c first, spelled_of_fields? fields rest tail⟩
end

/-- The canonical text is that of what is read back just where the value is ordered. -/
theorem canonical?_reload (v : PyValue) : v.canonical? = some (JsonText.canonical v.reload) ↔ v.Ordered := by
  rw [← sorted?_reload, canonical?, JsonText.canonical_eq_text]
  constructor
  · intro h
    obtain ⟨c, sorted, same⟩ := Option.map_eq_some_iff.mp h
    rw [sorted, JsonText.eq_of_text (spelled_of_sorted? v c sorted) (JsonText.normal_spelled v.reload) same]
  · intro h
    rw [h, Option.map_some]

end PyValue

mutual
/-- A value that was read from JSON, as Python has it. -/
def Json.py : Json → PyValue
  | .null => .null
  | .bool b => .bool b
  | .int n => .int n
  | .float x => .float x
  | .str s => .str s
  | .arr xs => .list (Json.pyItems xs)
  | .obj fields => .dict (Json.pyFields fields)

def Json.pyItems : List Json → List PyValue
  | [] => []
  | x :: xs => Json.py x :: Json.pyItems xs

def Json.pyFields : List (String × Json) → List (PyKey × PyValue)
  | [] => []
  | (k, x) :: fields => (.str k, Json.py x) :: Json.pyFields fields
end

theorem Json.pyFields_eq (fields : List (String × Json)) :
    Json.pyFields fields = fields.map fun f => (.str f.1, f.2.py) := by
  induction fields with
  | nil => rfl
  | cons f fields ih => simp only [Json.pyFields, List.map_cons, ih]

mutual
/-- What was read from JSON is sorted by its names. -/
theorem Json.sorted?_py : ∀ j : Json, j.py.sorted? = some (JsonText.normal j)
  | .null | .bool _ | .int _ | .float _ | .str _ => rfl
  | .arr xs => by
      rw [Json.py, PyValue.sorted?, Json.sortedItems?_py xs, JsonText.normal]
      rfl
  | .obj fields => by
      have order := PyKey.sorted?_str Prod.fst (JsonText.normalFields fields)
      rw [Json.py, PyValue.sorted?, Json.sortedFields?_py fields, Option.bind_eq_bind, Option.bind_some,
        PyKey.sorted?_map, order]
      simp [PyKey.name, JsonText.normal, JsonText.sortFields, Function.comp_def]

theorem Json.sortedItems?_py : ∀ xs : List Json, PyValue.sortedItems? (Json.pyItems xs) = some (JsonText.normalItems xs)
  | [] => rfl
  | x :: xs => by
      rw [Json.pyItems, PyValue.sortedItems?, Json.sorted?_py x, Json.sortedItems?_py xs, JsonText.normalItems]
      rfl

theorem Json.sortedFields?_py : ∀ fields : List (String × Json), PyValue.sortedFields? (Json.pyFields fields) =
    some ((JsonText.normalFields fields).map fun f => (.str f.1, f.2))
  | [] => rfl
  | (k, x) :: fields => by
      rw [Json.pyFields, PyValue.sortedFields?, Json.sorted?_py x, Json.sortedFields?_py fields, JsonText.normalFields]
      rfl
end

theorem Json.canonical?_py (j : Json) : j.py.canonical? = some (JsonText.canonical j) := by
  rw [PyValue.canonical?, Json.sorted?_py, Option.map_some, JsonText.canonical_eq_text]

end Maof
