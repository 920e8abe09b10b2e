import Mathlib.Data.List.Infix
import Mathlib.Data.List.ReduceOption
import Maof.Registry.Loader

/-!
# Agent cards

A manifest is exported as a card whose extension carries the manifest's own fields and its
metadata in one dictionary. The import reads the fields back and what is left as metadata.
-/

namespace Maof

open Data (Dict)

namespace AgentCard

/-- The URI under which manifest fields travel on a card. -/
def extensionUri : String := "urn:maof:manifest"

def defaultBinding : String := "JSONRPC"

def reservedParams : List String := ["maof_id", "rbac_scopes", "provided_schemas", "tenancy"]

/-- The parameters of the extension: the metadata is laid over the fields. -/
def exported (m : AgentManifest) : Dict String Json :=
  Dict.update [("maof_id", .str m.id), ("rbac_scopes", .strs m.rbacScopes),
    ("provided_schemas", .strs m.providedSchemas), ("tenancy", .str m.tenancy)] m.metadata

def skill (u : Unicode) (m : AgentManifest) (taskType : String) : Json :=
  .obj [("id", .str taskType), ("name", .str taskType),
    ("description", .str ("Accepts MAOF task type " ++ Template.reprText u (.str taskType))), ("tags", .strs m.capabilities)]

def manifestToAgentCard (u : Unicode) (m : AgentManifest) : Dict String Json :=
  [("name", .str m.name), ("description", .str m.description), ("version", .str m.version),
    ("supportedInterfaces", .arr [.obj [("url", .str m.endpoint), ("protocolBinding", .str defaultBinding)]]),
    ("capabilities", .obj [("streaming", .bool false), ("extensions", .arr [.obj [("uri", .str extensionUri),
      ("description", .str "MAOF discovery-registry manifest fields"), ("params", .obj (exported m))]])]),
    ("defaultInputModes", .strs ["application/json"]), ("defaultOutputModes", .strs ["application/json"]),
    ("skills", .arr (m.acceptedTaskTypes.map (skill u m)))]

/-! ## Reading a card -/

/-- `value.get(key)`. -/
def lookup (key : String) : Json → Except Exn (Option Json)
  | .obj fields => .ok (Dict.get fields key)
  | _ => .error (.external "object has no attribute 'get'")

/-- `card[key]`. -/
def required (card : Dict String Json) (key : String) : Except Exn Json :=
  match Dict.get card key with
  | some value => .ok value
  | none => .error (.keyError ("'" ++ key ++ "'"))

/-- What a loop over a value goes through. -/
def iterate : Json → Except Exn (List Json)
  | .arr xs => .ok xs
  | .str s => .ok (s.toList.map fun c => .str (String.ofList [c]))
  | .obj fields => .ok (fields.map fun kv => .str kv.1)
  | _ => .error (.typeError "object is not iterable")

/-- `value or default`, of a value that may be missing. -/
def orElse (default : Json) : Option Json → Json
  | some value => if value.truthy then value else default
  | none => default

/-- One element of a list that `dict.update` is given. -/
def pair : Json → Except Exn (String × Json)
  | .arr [.str key, value] => .ok (key, value)
  | .arr [_, _] => .error (.external "metadata: keys should be valid strings")
  | .str s => match s.toList with
      | [a, b] => .ok (String.ofList [a], .str (String.ofList [b]))
      | _ => .error (.valueError "dictionary update sequence element has the wrong length; 2 is required")
  | .obj [a, b] => .ok (a.1, .str b.1)
  | .arr _ | .obj _ => .error (.valueError "dictionary update sequence element has the wrong length; 2 is required")
  | _ => .error (.typeError "cannot convert dictionary update sequence element to a sequence")

/-- `params.update(value)`. -/
def updated (params : Dict String Json) : Json → Except Exn (Dict String Json)
  | .obj fields => .ok (Dict.update params fields)
  | value => do
      let items ← iterate value
      let pairs ← items.mapM pair
      return Dict.update params pairs

/-- One declared extension, if it is the registry's own. -/
def extended (params : Dict String Json) (extension : Json) : Except Exn (Dict String Json) := do
  match ← lookup "uri" extension with
  | some (.str uri) =>
      if uri = extensionUri then updated params (orElse (.obj []) (← lookup "params" extension)) else return params
  | _ => return params

/-- The registry's fields from the declared extension, overlaid by legacy `metadata`. -/
def maofParams (card : Dict String Json) : Except Exn (Dict String Json) := do
  let extensions ← lookup "extensions" (orElse (.obj []) (Dict.get card "capabilities"))
  let params ← (← iterate (orElse (.arr []) extensions)).foldlM extended []
  updated params (orElse (.obj []) (Dict.get card "metadata"))

/-- The field under the first of the spellings that is there. -/
def first (card : Dict String Json) (keys : List String) : Option Json := keys.findSome? (Dict.get card)

/-- `value[0]`. -/
def head : Json → Except Exn Json
  | .arr (x :: _) => .ok x
  | .str s => .ok (.str (String.ofList (s.toList.take 1)))
  | .obj _ => .error (.keyError "0")
  | _ => .error (.typeError "object is not subscriptable")

def text (u : Unicode) (value : Json) : String := String.ofList (Template.pyStr u value)

/-- The legacy top-level url, or that of the first interface. -/
def endpointOf (u : Unicode) (card : Dict String Json) : Except Exn String := do
  let url := text u ((Dict.get card "url").getD (.str ""))
  if url ≠ "" then return url
  let interfaces := orElse (.arr []) (first card ["supportedInterfaces", "supported_interfaces"])
  if interfaces.truthy then
    let interface ← head interfaces
    return text u ((← lookup "url" interface).getD (.str ""))
  return url

/-- `s["id"]`, if `"id" in s`. -/
def taskTypeOf : Json → Except Exn (Option Json)
  | .obj fields => .ok (Dict.get fields "id")
  | .str s => if "id".toList <:+: s.toList then .error (.typeError "string indices must be integers") else .ok none
  | .arr xs => if xs.any fun x => x.pyEq (.str "id") then .error (.typeError "list indices must be integers") else .ok none
  | _ => .error (.typeError "argument is not iterable")

def tagsOf (skill : Json) : Except Exn (List Json) := do
  iterate ((← lookup "tags" skill).getD (.arr []))

/-- A field of the manifest that holds texts. -/
def textsOf (field : String) (values : List Json) : Except Exn (List String) :=
  values.mapM fun
    | .str s => .ok s
    | _ => .error (.external (field ++ ": input should be a valid string"))

def textOf (field : String) : Json → Except Exn String
  | .str s => .ok s
  | _ => .error (.external (field ++ ": input should be a valid string"))

def tenancyOf (value : Json) : Except Exn String :=
  match value with
  | .str s => if s = "global" ∨ s = "tenant" then .ok s else .error (.external "tenancy: input should be 'global' or 'tenant'")
  | _ => .error (.external "tenancy: input should be 'global' or 'tenant'")

def agentCardToManifest (u : Unicode) (card : Dict String Json) : Except Exn AgentManifest := do
  let params ← maofParams card
  let endpoint ← endpointOf u card
  let skills ← iterate (orElse (.arr []) (Dict.get card "skills"))
  let taskTypes ← skills.mapM taskTypeOf
  let name ← required card "name"
  let tags ← skills.mapM tagsOf
  let providedSchemas ← iterate ((Dict.get params "provided_schemas").getD (.arr []))
  let rbacScopes ← iterate ((Dict.get params "rbac_scopes").getD (.arr []))
  let tags ← textsOf "capabilities" tags.flatten
  return {
    id := text u ((Dict.get params "maof_id").getD name)
    kind := .l2Agent
    name := ← textOf "name" name
    version := text u ((Dict.get card "version").getD (.str "v1"))
    endpoint
    capabilities := tags.dedup.insertionSort (· ≤ ·)
    acceptedTaskTypes := ← textsOf "accepted_task_types" taskTypes.reduceOption
    description := text u ((Dict.get card "description").getD (.str ""))
    providedSchemas := ← textsOf "provided_schemas" providedSchemas
    rbacScopes := ← textsOf "rbac_scopes" rbacScopes
    tenancy := ← tenancyOf ((Dict.get params "tenancy").getD (.str "tenant"))
    metadata := params.filter fun kv => kv.1 ∉ reservedParams }

/-! ## The round trip -/

@[simp] theorem ok_bind {α β : Type} (a : α) (k : α → Except Exn β) : (Except.ok a >>= k) = k a := rfl

theorem text_str (u : Unicode) (s : String) : text u (.str s) = s := String.ofList_toList

theorem mem_exported (m : AgentManifest) (key : String) :
    key ∈ Dict.keys (exported m) ↔ key ∈ Dict.keys m.metadata ∨ key ∈ reservedParams := by
  rw [exported, Dict.keys_update]
  rfl

theorem exported_nodup (m : AgentManifest) : (Dict.keys (exported m)).Nodup := by
  refine Dict.nodup_update ?_ m.metadata
  exact (show reservedParams.Nodup by decide)

theorem extended_own (params fields : Dict String Json) (description : Json) (nonempty : fields ≠ []) :
    extended params (.obj [("uri", .str extensionUri), ("description", description), ("params", .obj fields)]) =
      .ok (Dict.update params fields) := by
  have truthy : (Json.obj fields).truthy = true := by
    simp [Json.truthy, nonempty]
  simp [extended, lookup, Dict.get, orElse, truthy, updated, bind, Except.bind]

/-- The registry's own extension gives its parameters back. -/
theorem maofParams_export (u : Unicode) (m : AgentManifest) :
    maofParams (manifestToAgentCard u m) = .ok (exported m) := by
  have nonempty : exported m ≠ [] := by
    intro empty
    have member := (mem_exported m "maof_id").mpr (.inr (by decide))
    rw [empty] at member
    cases member
  have whole : Dict.update [] (exported m) = exported m :=
    Dict.update_of_nodup (exported_nodup m)
  have own := extended_own [] (exported m) (.str "MAOF discovery-registry manifest fields") nonempty
  rw [whole] at own
  simp [maofParams, manifestToAgentCard, Dict.get, orElse, Json.truthy, lookup, iterate, own, updated,
    Dict.update, bind, Except.bind, pure, Except.pure]

theorem endpoint_export (u : Unicode) (m : AgentManifest) :
    endpointOf u (manifestToAgentCard u m) = .ok m.endpoint := by
  have legacy : Dict.get (manifestToAgentCard u m) "url" = none := rfl
  have interfaces : first (manifestToAgentCard u m) ["supportedInterfaces", "supported_interfaces"] =
      some (.arr [.obj [("url", .str m.endpoint), ("protocolBinding", .str defaultBinding)]]) := rfl
  simp only [endpointOf, legacy, interfaces, Option.getD_none, text_str, ne_eq, not_true_eq_false, if_false]
  exact congrArg Except.ok (text_str u m.endpoint)

theorem skills_export (u : Unicode) (m : AgentManifest) :
    iterate (orElse (.arr []) (Dict.get (manifestToAgentCard u m) "skills")) =
      .ok (m.acceptedTaskTypes.map (skill u m)) := by
  have skills : Dict.get (manifestToAgentCard u m) "skills" =
      some (.arr (m.acceptedTaskTypes.map (skill u m))) := rfl
  rw [skills, orElse]
  cases m.acceptedTaskTypes with
  | nil => rfl
  | cons taskType rest => rfl

/-- A loop that fails nowhere gives every element's result. -/
theorem mapM_ok {α β : Type} {f : α → Except Exn β} {g : α → β} (h : ∀ a, f a = .ok (g a)) (xs : List α) :
    xs.mapM f = .ok (xs.map g) := by
  induction xs with
  | nil => rfl
  | cons a rest ih =>
      rw [List.mapM_cons, h a, ih]
      rfl

theorem taskTypes_export (u : Unicode) (m : AgentManifest) :
    (m.acceptedTaskTypes.map (skill u m)).mapM taskTypeOf = .ok (m.acceptedTaskTypes.map fun t => some (.str t)) := by
  rw [List.mapM_map]
  exact mapM_ok (fun _ => rfl) m.acceptedTaskTypes

theorem tags_export (u : Unicode) (m : AgentManifest) :
    (m.acceptedTaskTypes.map (skill u m)).mapM tagsOf =
      .ok (m.acceptedTaskTypes.map fun _ => m.capabilities.map Json.str) := by
  rw [List.mapM_map]
  exact mapM_ok (fun _ => rfl) m.acceptedTaskTypes

theorem textsOf_map (field : String) (values : List String) : textsOf field (values.map Json.str) = .ok values := by
  rw [textsOf, List.mapM_map]
  exact (mapM_ok (fun _ => rfl) values).trans (by rw [List.map_id'])

/-- What an import keeps as metadata is under keys that are not reserved. -/
theorem metadata_imported {u : Unicode} {card : Dict String Json} {m : AgentManifest}
    (imported : agentCardToManifest u card = .ok m) : ∀ key ∈ Dict.keys m.metadata, key ∉ reservedParams := by
  obtain ⟨params, -, imported⟩ := ok_of_bind imported
  obtain ⟨endpoint, -, imported⟩ := ok_of_bind imported
  obtain ⟨skills, -, imported⟩ := ok_of_bind imported
  obtain ⟨taskTypes, -, imported⟩ := ok_of_bind imported
  obtain ⟨name, -, imported⟩ := ok_of_bind imported
  obtain ⟨tags, -, imported⟩ := ok_of_bind imported
  obtain ⟨schemas, -, imported⟩ := ok_of_bind imported
  obtain ⟨scopes, -, imported⟩ := ok_of_bind imported
  obtain ⟨tags, -, imported⟩ := ok_of_bind imported
  obtain ⟨name, -, imported⟩ := ok_of_bind imported
  obtain ⟨taskTypes, -, imported⟩ := ok_of_bind imported
  obtain ⟨schemas, -, imported⟩ := ok_of_bind imported
  obtain ⟨scopes, -, imported⟩ := ok_of_bind imported
  obtain ⟨tenancy, -, imported⟩ := ok_of_bind imported
  cases imported
  intro key member
  obtain ⟨kv, kept, rfl⟩ := List.mem_map.mp member
  exact of_decide_eq_true (List.mem_filter.mp kept).2

end AgentCard

/-- An agent as its class validates it. -/
structure L2Agent extends AgentManifest where
  agent : kind = .l2Agent
  tenancies : tenancy = "global" ∨ tenancy = "tenant"
  distinct : (Dict.keys metadata).Nodup

/-- The two agree on what governs trust. -/
structure SameTrust (m m' : AgentManifest) : Prop where
  id : m.id = m'.id
  name : m.name = m'.name
  version : m.version = m'.version
  endpoint : m.endpoint = m'.endpoint
  acceptedTaskTypes : m.acceptedTaskTypes = m'.acceptedTaskTypes
  providedSchemas : m.providedSchemas = m'.providedSchemas
  rbacScopes : m.rbacScopes = m'.rbacScopes
  tenancy : m.tenancy = m'.tenancy
  description : m.description = m'.description
  metadata : m.metadata = m'.metadata

namespace AgentCard

/-- Where no metadata takes a reserved key the fields are laid down before it. -/
theorem exported_plain {m : AgentManifest} (distinct : (Dict.keys m.metadata).Nodup)
    (plain : ∀ key ∈ Dict.keys m.metadata, key ∉ reservedParams) :
    exported m = [("maof_id", .str m.id), ("rbac_scopes", .strs m.rbacScopes),
      ("provided_schemas", .strs m.providedSchemas), ("tenancy", .str m.tenancy)] ++ m.metadata := by
  refine Dict.update_of_nodup ?_
  rw [Dict.keys, List.map_append]
  refine List.nodup_append.mpr ⟨(show reservedParams.Nodup by decide), distinct, ?_⟩
  rintro key reserved _ member rfl
  exact plain key member reserved

theorem import_export (u : Unicode) (m : L2Agent)
    (plain : ∀ key ∈ Dict.keys m.metadata, key ∉ reservedParams) :
    ∃ m', agentCardToManifest u (manifestToAgentCard u m.toAgentManifest) = .ok m' ∧ SameTrust m' m.toAgentManifest := by
  have params := exported_plain m.distinct plain
  have kept : (exported m.toAgentManifest).filter (fun kv => kv.1 ∉ reservedParams) = m.metadata := by
    have fields : ∀ a b c d : Json, ([("maof_id", a), ("rbac_scopes", b), ("provided_schemas", c),
        ("tenancy", d)] : Dict String Json).filter (fun kv => kv.1 ∉ reservedParams) = [] := fun _ _ _ _ => rfl
    rw [params, List.filter_append, fields, List.nil_append]
    refine List.filter_eq_self.mpr fun kv member => decide_eq_true ?_
    exact plain kv.1 (List.mem_map_of_mem member)
  have tenancy : tenancyOf (.str m.tenancy) = .ok m.tenancy := if_pos m.tenancies
  have id : Dict.get (exported m.toAgentManifest) "maof_id" = some (.str m.id) := by
    rw [params]
    rfl
  have scopes : Dict.get (exported m.toAgentManifest) "rbac_scopes" = some (.strs m.rbacScopes) := by
    rw [params]
    rfl
  have schemas : Dict.get (exported m.toAgentManifest) "provided_schemas" = some (.strs m.providedSchemas) := by
    rw [params]
    rfl
  have own : Dict.get (exported m.toAgentManifest) "tenancy" = some (.str m.tenancy) := by
    rw [params]
    rfl
  have tags : textsOf "capabilities" (m.acceptedTaskTypes.map fun _ => m.capabilities.map Json.str).flatten =
      .ok (m.acceptedTaskTypes.map fun _ => m.capabilities).flatten := by
    rw [← textsOf_map "capabilities", List.map_flatten, List.map_map]
    rfl
  have named : required (manifestToAgentCard u m.toAgentManifest) "name" = .ok (.str m.name) := rfl
  have taskTypes : (m.acceptedTaskTypes.map fun t => some (Json.str t)).reduceOption =
      m.acceptedTaskTypes.map Json.str := by
    change List.filterMap _ (m.acceptedTaskTypes.map fun t => some (Json.str t)) = _
    rw [List.filterMap_map]
    exact congrFun List.filterMap_eq_map' m.acceptedTaskTypes
  let back : AgentManifest := {
    id := m.id
    kind := .l2Agent
    name := m.name
    version := m.version
    endpoint := m.endpoint
    capabilities := ((m.acceptedTaskTypes.map fun _ => m.capabilities).flatten).dedup.insertionSort (· ≤ ·)
    acceptedTaskTypes := m.acceptedTaskTypes
    description := m.description
    providedSchemas := m.providedSchemas
    rbacScopes := m.rbacScopes
    tenancy := m.tenancy
    metadata := m.metadata }
  refine ⟨back, ?_, rfl, rfl, rfl, rfl, rfl, rfl, rfl, rfl, rfl, rfl⟩
  have version : Dict.get (manifestToAgentCard u m.toAgentManifest) "version" = some (.str m.version) := rfl
  have description : Dict.get (manifestToAgentCard u m.toAgentManifest) "description" = some (.str m.description) := rfl
  have listed : ∀ xs, iterate (.strs xs) = .ok (xs.map .str) := fun _ => rfl
  simp only [agentCardToManifest, maofParams_export, ok_bind, endpoint_export, skills_export, taskTypes_export,
    named, tags_export, schemas, scopes, id, own, version, description, Option.getD_some, listed, tags, taskTypes,
    textsOf_map, tenancy, textOf, text_str, kept]
  rfl

end AgentCard

/-- An exported agent comes back with all that governs trust exactly when no key of its metadata is one that
the export uses itself. -/
theorem card_round_trip_iff (u : Unicode) (m : L2Agent) :
    (∃ m', AgentCard.agentCardToManifest u (AgentCard.manifestToAgentCard u m.toAgentManifest) = .ok m' ∧
        SameTrust m' m.toAgentManifest) ↔
      ∀ key ∈ Dict.keys m.metadata, key ∉ AgentCard.reservedParams := by
  constructor
  · rintro ⟨m', imported, same⟩ key member
    rw [← same.metadata] at member
    exact AgentCard.metadata_imported imported key member
  · exact AgentCard.import_export u m

namespace Sample

/-- An agent whose metadata names scopes of its own. -/
def disguised : L2Agent where
  id := "agent"
  kind := .l2Agent
  name := "agent"
  version := "v1"
  endpoint := "http://agent"
  acceptedTaskTypes := ["orders"]
  rbacScopes := ["orders:write"]
  metadata := [("rbac_scopes", .arr [])]
  agent := rfl
  tenancies := .inr rfl
  distinct := by decide

end Sample

open Sample in
/-- The agent that required a scope comes back requiring none. -/
theorem disguised_widened : ¬ ∀ (u : Unicode) (m : L2Agent),
    ∃ m', AgentCard.agentCardToManifest u (AgentCard.manifestToAgentCard u m.toAgentManifest) = .ok m' ∧
      SameTrust m' m.toAgentManifest := by
  intro back
  obtain ⟨m', imported, same⟩ := back ⟨fun _ => false, fun _ => false⟩ disguised
  have member : "rbac_scopes" ∈ Dict.keys m'.metadata := by
    rw [same.metadata]
    decide
  exact AgentCard.metadata_imported imported "rbac_scopes" member (by decide)

end Maof
