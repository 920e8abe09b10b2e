import Mathlib.Data.List.Perm.Subperm
import Maof.Orchestrator.World
import Maof.Registry.Loader

/-!
# Context delegation

An agent declares what context it brings itself. The orchestrator checks what each declaration
requires, stops carrying what it supplies, records it on the envelope and reports it. The four
happen for one declaration after the other, on one envelope.
-/

namespace Maof

open Data (Dict)

/-- What the processing ends with, beside the errors of the sink. -/
inductive DelegationError where
  | contextDelegation (message : String)
  | attribute (message : String)
  | sink (error : Exn)

/-- What a sink raises over an event, after the events it has taken. -/
abbrev DelegationSink : Type := List AuditEvent → AuditEvent → Option Exn

structure ContextDelegation where
  unicode : Unicode
  agentName : String
  eventSink : Option DelegationSink := none
  tenantId : String := ""
  intentId : Option String := none

/-- The envelope, the events and the error a call leaves behind. -/
structure Delegated where
  env : ContextEnvelope
  emitted : List AuditEvent
  raised : Option DelegationError

def ContextEnvelope.availableContextKeys (env : ContextEnvelope) : List String :=
  Dict.keys env.policyFlags ++ Dict.keys env.semanticModel ++ env.dataPointers.map DataPointer.aliasName ++
    env.toolset.map ToolRef.name

def ContextDeclaration.missing (decl : ContextDeclaration) (available : List String) : List String :=
  decl.requiresFromL1.filter (· ∉ available)

/-- The envelope no longer carries what the declaration supplies. -/
def ContextEnvelope.deduplicate (env : ContextEnvelope) (decl : ContextDeclaration) : ContextEnvelope :=
  { env with
    dataPointers := env.dataPointers.filter fun dp => dp.aliasName ∉ decl.supplies
    semanticModel := decl.supplies.foldl (fun model supplied => model.filter fun kv => kv.1 ≠ supplied) env.semanticModel }

/-- The blocks recorded so far; `none` where something else than a list stands in their place. -/
def recordedBlocks (extras : Dict String Json) : Option (List Json) :=
  match Dict.get extras "delegated_context" with
  | none => some []
  | some (.arr blocks) => some blocks
  | some _ => none

namespace ContextDelegation

variable (call : ContextDelegation)

def block (decl : ContextDeclaration) : Json :=
  .obj [("agent", .str call.agentName), ("id", .str decl.id), ("kind", .str decl.kind), ("scope", .str decl.scope),
    ("source_ref", .ofStr? decl.sourceRef)]

def delegated (decl : ContextDeclaration) : AuditEvent where
  tenantId := call.tenantId
  intentId := call.intentId
  eventType := "context_delegated"
  envelope := [("agent", .str call.agentName), ("declaration", .str decl.id)]
  details := [("kind", .str decl.kind), ("scope", .str decl.scope), ("supplies", .strs decl.supplies),
    ("source_ref", .ofStr? decl.sourceRef)]

def refusal (decl : ContextDeclaration) (missing : List String) : String :=
  "agent " ++ Template.reprText call.unicode (.str call.agentName) ++ " declaration " ++
    Template.reprText call.unicode (.str decl.id) ++ " requires context " ++
    Template.reprText call.unicode (.strs missing) ++ " which the L1 did not assemble"

/-- `extras.setdefault("delegated_context", [])` and an append to it. -/
def record (env : ContextEnvelope) (decl : ContextDeclaration) : Except DelegationError ContextEnvelope :=
  match recordedBlocks env.extras with
  | some blocks => .ok { env with extras := Dict.set env.extras "delegated_context" (.arr (blocks ++ [call.block decl])) }
  | none => .error (.attribute "object has no attribute 'append'")

/-- The events taken once the sink, if there is one, is given the next. -/
def emit (emitted : List AuditEvent) (event : AuditEvent) : Except DelegationError (List AuditEvent) :=
  match call.eventSink with
  | none => .ok emitted
  | some sink => match sink emitted event with
      | none => .ok (emitted ++ [event])
      | some error => .error (.sink error)

def declare (available : List String) : List ContextDeclaration → ContextEnvelope → List AuditEvent → Delegated
  | [], env, emitted => ⟨env, emitted, none⟩
  | decl :: rest, env, emitted =>
      let missing := decl.missing available
      if missing ≠ [] then ⟨env, emitted, some (.contextDelegation (call.refusal decl missing))⟩
      else
        let env := env.deduplicate decl
        match call.record env decl with
        | .error error => ⟨env, emitted, some error⟩
        | .ok env => match call.emit emitted (call.delegated decl) with
            | .error error => ⟨env, emitted, some error⟩
            | .ok emitted => declare available rest env emitted

def processContextDelegations (env : ContextEnvelope) (declarations : List ContextDeclaration) : Delegated :=
  call.declare env.availableContextKeys declarations env []

/-! ## What a prefix of the declarations does -/

/-- The declaration finds what it requires. -/
def Satisfied (available : List String) (decl : ContextDeclaration) : Prop := decl.missing available = []

instance (available : List String) (decl : ContextDeclaration) : Decidable (Satisfied available decl) :=
  inferInstanceAs (Decidable (decl.missing available = []))

/-- The blocks are where a list of them can be kept. -/
def Recordable (extras : Dict String Json) : Prop := (recordedBlocks extras).isSome

/-- The sink takes the events, one after the other. -/
def Takes (emitted : List AuditEvent) : List AuditEvent → Prop
  | [] => True
  | event :: events => ∃ taken, call.emit emitted event = .ok taken ∧ Takes taken events

/-- The envelope with the declaration recorded after what was there. -/
def noted (env : ContextEnvelope) (decl : ContextDeclaration) : ContextEnvelope :=
  { env.deduplicate decl with
    extras := Dict.set env.extras "delegated_context"
      (.arr ((recordedBlocks env.extras).getD [] ++ [call.block decl])) }

/-- Nothing stops the call before these declarations are through. -/
structure Passed (available : List String) (env : ContextEnvelope) (emitted : List AuditEvent)
    (ds : List ContextDeclaration) : Prop where
  satisfied : ∀ d ∈ ds, Satisfied available d
  recordable : ds = [] ∨ Recordable env.extras
  takes : call.Takes emitted (ds.map call.delegated)

/-- How a call ends. -/
inductive Ends (available : List String) (env : ContextEnvelope) (emitted : List AuditEvent) :
    List ContextDeclaration → Delegated → Prop
  | answered {ds} (taken : List AuditEvent) : call.Passed available env emitted ds →
      Ends available env emitted ds ⟨ds.foldl call.noted env, taken, none⟩
  | refused {ds d} (rest : List ContextDeclaration) (taken : List AuditEvent) (message : String) :
      call.Passed available env emitted ds → ¬Satisfied available d →
      Ends available env emitted (ds ++ d :: rest) ⟨ds.foldl call.noted env, taken, some (.contextDelegation message)⟩
  | unrecorded {d} (rest : List ContextDeclaration) (taken : List AuditEvent) (message : String) :
      Satisfied available d → ¬Recordable env.extras →
      Ends available env emitted (d :: rest) ⟨env.deduplicate d, taken, some (.attribute message)⟩
  | untaken {ds d} (rest : List ContextDeclaration) (taken : List AuditEvent) (error : Exn) :
      call.Passed available env emitted ds → Satisfied available d → Recordable env.extras →
      ¬call.Takes emitted ((ds ++ [d]).map call.delegated) →
      Ends available env emitted (ds ++ d :: rest) ⟨(ds ++ [d]).foldl call.noted env, taken, some (.sink error)⟩

theorem recordable_set (extras : Dict String Json) (blocks : List Json) :
    recordedBlocks (Dict.set extras "delegated_context" (.arr blocks)) = some blocks := by
  simp [recordedBlocks]

theorem recordable_noted (env : ContextEnvelope) (decl : ContextDeclaration) : Recordable (call.noted env decl).extras := by
  rw [Recordable, noted, recordable_set]
  rfl

theorem record_some {env : ContextEnvelope} (recordable : Recordable env.extras) (decl : ContextDeclaration) :
    call.record (env.deduplicate decl) decl = .ok (call.noted env decl) := by
  obtain ⟨blocks, found⟩ := Option.isSome_iff_exists.mp recordable
  have kept : (env.deduplicate decl).extras = env.extras := rfl
  simp only [record, kept, noted, found, Option.getD_some]

theorem record_none {env : ContextEnvelope} (lost : ¬Recordable env.extras) (decl : ContextDeclaration) :
    call.record (env.deduplicate decl) decl = .error (.attribute "object has no attribute 'append'") := by
  have kept : (env.deduplicate decl).extras = env.extras := rfl
  have none : recordedBlocks env.extras = none := Option.not_isSome_iff_eq_none.mp lost
  simp only [record, kept, none]

theorem emit_error {emitted : List AuditEvent} {event : AuditEvent} {error : DelegationError}
    (stopped : call.emit emitted event = .error error) : ∃ e, error = .sink e := by
  simp only [emit] at stopped
  split at stopped
  · cases stopped
  · split at stopped
    · cases stopped
    · cases stopped
      exact ⟨_, rfl⟩

/-- What stops a call later stops the one whose first declaration is through. -/
theorem Ends.cons {available : List String} {env : ContextEnvelope} {emitted taken : List AuditEvent}
    {d : ContextDeclaration} {rest : List ContextDeclaration} {result : Delegated} (satisfied : Satisfied available d)
    (recordable : Recordable env.extras) (takes : call.emit emitted (call.delegated d) = .ok taken)
    (ends : call.Ends available (call.noted env d) taken rest result) :
    call.Ends available env emitted (d :: rest) result := by
  have longer : ∀ {ds}, call.Passed available (call.noted env d) taken ds → call.Passed available env emitted (d :: ds) := by
    intro ds passed
    exact ⟨List.forall_mem_cons.mpr ⟨satisfied, passed.satisfied⟩, .inr recordable, taken, takes, passed.takes⟩
  cases ends with
  | answered _ passed => exact .answered _ (longer passed)
  | @refused ds d' rest _ _ passed missing => exact .refused rest _ _ (longer passed) missing
  | unrecorded _ _ _ _ lost => exact absurd (call.recordable_noted env d) lost
  | @untaken ds d' rest _ _ passed found _ stopped =>
      refine .untaken rest _ _ (longer passed) found recordable ?_
      rintro ⟨taken', same, later⟩
      rw [takes] at same
      cases same
      exact stopped later

theorem declare_ends (available : List String) (decls : List ContextDeclaration) (env : ContextEnvelope)
    (emitted : List AuditEvent) : call.Ends available env emitted decls (call.declare available decls env emitted) := by
  induction decls generalizing env emitted with
  | nil => exact .answered emitted ⟨fun _ member => absurd member List.not_mem_nil, .inl rfl, trivial⟩
  | cons d rest ih =>
      have start : call.Passed available env emitted [] :=
        ⟨fun _ member => absurd member List.not_mem_nil, .inl rfl, trivial⟩
      simp only [declare]
      by_cases satisfied : Satisfied available d
      · have found : ¬d.missing available ≠ [] := not_not_intro satisfied
        rw [if_neg found]
        by_cases recordable : Recordable env.extras
        · rw [record_some call recordable]
          cases takes : call.emit emitted (call.delegated d) with
          | ok taken => exact Ends.cons call satisfied recordable takes (ih (call.noted env d) taken)
          | error error =>
              obtain ⟨e, rfl⟩ := call.emit_error takes
              refine .untaken rest emitted e start satisfied recordable ?_
              rintro ⟨taken, same, -⟩
              rw [takes] at same
              cases same
        · rw [record_none call recordable]
          exact .unrecorded rest emitted _ satisfied recordable
      · have missing : d.missing available ≠ [] := satisfied
        rw [if_pos missing]
        exact .refused rest emitted _ start satisfied

/-- Declarations that nothing stops leave the call to the rest. -/
theorem declare_passed {available : List String} {ds : List ContextDeclaration} {env : ContextEnvelope}
    {emitted : List AuditEvent} (passed : call.Passed available env emitted ds) (rest : List ContextDeclaration) :
    ∃ taken, call.declare available (ds ++ rest) env emitted = call.declare available rest (ds.foldl call.noted env) taken := by
  induction ds generalizing env emitted with
  | nil => exact ⟨emitted, rfl⟩
  | cons d ds ih =>
      obtain ⟨satisfied, recordable, taken, takes, later⟩ := passed
      have recordable : Recordable env.extras := recordable.resolve_left (List.cons_ne_nil d ds)
      have first : ¬d.missing available ≠ [] := not_not_intro (satisfied d List.mem_cons_self)
      have step : call.declare available (d :: (ds ++ rest)) env emitted =
          call.declare available (ds ++ rest) (call.noted env d) taken := by
        simp only [declare, if_neg first, record_some call recordable, takes]
      have remaining : call.Passed available (call.noted env d) taken ds :=
        ⟨fun d' member => satisfied d' (List.mem_cons_of_mem d member), .inr (call.recordable_noted env d), later⟩
      obtain ⟨taken', runs⟩ := ih remaining
      exact ⟨taken', step.trans runs⟩

end ContextDelegation

/-- The call ended in a `ContextDelegationError`. -/
def Delegated.Refused (result : Delegated) : Prop := ∃ message, result.raised = some (.contextDelegation message)

namespace ContextDelegation

variable (call : ContextDelegation)

theorem refused_iff (available : List String) (decls : List ContextDeclaration) (env : ContextEnvelope)
    (emitted : List AuditEvent) : (call.declare available decls env emitted).Refused ↔
      ∃ ds d rest, decls = ds ++ d :: rest ∧ call.Passed available env emitted ds ∧ ¬Satisfied available d := by
  constructor
  · rintro ⟨message, raised⟩
    have ends := call.declare_ends available decls env emitted
    generalize call.declare available decls env emitted = result at ends raised
    cases ends with
    | answered => cases raised
    | refused rest taken message passed missing => exact ⟨_, _, rest, rfl, passed, missing⟩
    | unrecorded => cases raised
    | untaken => cases raised
  · rintro ⟨ds, d, rest, rfl, passed, missing⟩
    obtain ⟨taken, runs⟩ := call.declare_passed passed (d :: rest)
    have missing : d.missing available ≠ [] := missing
    refine ⟨call.refusal d (d.missing available), ?_⟩
    rw [runs]
    simp only [declare, if_pos missing]

theorem noted_blocks {env : ContextEnvelope} {ds : List ContextDeclaration} (some : ds ≠ []) :
    (ds.foldl call.noted env).extras = Dict.set env.extras "delegated_context"
      (.arr ((recordedBlocks env.extras).getD [] ++ ds.map call.block)) := by
  induction ds generalizing env with
  | nil => exact absurd rfl some
  | cons d ds ih =>
      have first : (call.noted env d).extras = Dict.set env.extras "delegated_context"
          (.arr ((recordedBlocks env.extras).getD [] ++ [call.block d])) := rfl
      cases ds with
      | nil => exact first
      | cons d' ds =>
          rw [List.foldl_cons, ih (List.cons_ne_nil d' ds), first, recordable_set, Option.getD_some, Dict.set_set,
            List.append_assoc]
          rfl

theorem withheld_eq (supplies : List String) (model : Dict String Json) :
    supplies.foldl (fun model supplied => model.filter fun kv => kv.1 ≠ supplied) model =
      model.filter fun kv => kv.1 ∉ supplies := by
  induction supplies generalizing model with
  | nil => simp
  | cons supplied rest ih =>
      rw [List.foldl_cons, ih, List.filter_filter]
      refine List.filter_congr fun kv _ => ?_
      simp only [List.mem_cons, not_or, Bool.decide_and, Bool.and_comm, ne_eq]

theorem noted_pointers (env : ContextEnvelope) (ds : List ContextDeclaration) :
    (ds.foldl call.noted env).dataPointers = env.dataPointers.filter fun dp => ∀ d ∈ ds, dp.aliasName ∉ d.supplies := by
  induction ds generalizing env with
  | nil => simp
  | cons d ds ih =>
      have first : (call.noted env d).dataPointers = env.dataPointers.filter fun dp => dp.aliasName ∉ d.supplies := rfl
      rw [List.foldl_cons, ih, first, List.filter_filter]
      refine List.filter_congr fun dp _ => ?_
      simp only [List.forall_mem_cons, Bool.decide_and, Bool.and_comm]

theorem noted_model (env : ContextEnvelope) (ds : List ContextDeclaration) :
    (ds.foldl call.noted env).semanticModel = env.semanticModel.filter fun kv => ∀ d ∈ ds, kv.1 ∉ d.supplies := by
  induction ds generalizing env with
  | nil => simp
  | cons d ds ih =>
      have first : (call.noted env d).semanticModel = env.semanticModel.filter fun kv => kv.1 ∉ d.supplies :=
        withheld_eq d.supplies env.semanticModel
      rw [List.foldl_cons, ih, first, List.filter_filter]
      refine List.filter_congr fun kv _ => ?_
      simp only [List.forall_mem_cons, Bool.decide_and, Bool.and_comm]

/-! ## All or nothing -/

/-- What is gone is what some declaration supplies, and every declaration has its block. -/
structure Complete (env : ContextEnvelope) (decls : List ContextDeclaration) (result : ContextEnvelope) : Prop where
  pointers : result.dataPointers = env.dataPointers.filter fun dp => ∀ d ∈ decls, dp.aliasName ∉ d.supplies
  model : result.semanticModel = env.semanticModel.filter fun kv => ∀ d ∈ decls, kv.1 ∉ d.supplies
  blocks : decls = [] ∧ result.extras = env.extras ∨ ∃ old, recordedBlocks env.extras = some old ∧
    recordedBlocks result.extras = some (old ++ decls.map call.block)

structure AllOrNothing (env : ContextEnvelope) (decls : List ContextDeclaration) : Prop where
  nothing : (call.processContextDelegations env decls).Refused →
    (call.processContextDelegations env decls).env = env ∧ (call.processContextDelegations env decls).emitted = []
  all : ¬(call.processContextDelegations env decls).Refused →
    call.Complete env decls (call.processContextDelegations env decls).env
  unordered : ∀ decls', decls'.Perm decls →
    ((call.processContextDelegations env decls').Refused ↔ (call.processContextDelegations env decls).Refused)

/-- Every declaration finds what it requires and can be recorded and, the last one apart, reported. -/
structure Granted (env : ContextEnvelope) (decls : List ContextDeclaration) : Prop where
  satisfied : ∀ d ∈ decls, Satisfied env.availableContextKeys d
  recordable : decls = [] ∨ Recordable env.extras
  takes : call.Takes [] (decls.dropLast.map call.delegated)

/-- The first declaration misses something, and nothing but that can stop a call over such declarations. -/
structure RefusedFirst (env : ContextEnvelope) (decls : List ContextDeclaration) : Prop where
  first : ∃ d rest, decls = d :: rest ∧ ¬Satisfied env.availableContextKeys d
  unstopped : ∀ ds, ds.Subperm decls → (∀ d ∈ ds, Satisfied env.availableContextKeys d) →
    call.Passed env.availableContextKeys env [] ds

theorem takes_append {emitted events later : List AuditEvent}
    (takes : call.Takes emitted (events ++ later)) : call.Takes emitted events := by
  induction events generalizing emitted with
  | nil => trivial
  | cons event events ih =>
      obtain ⟨taken, first, rest⟩ := takes
      exact ⟨taken, first, ih rest⟩

theorem complete_noted {env : ContextEnvelope} {decls : List ContextDeclaration}
    (recordable : decls = [] ∨ Recordable env.extras) : call.Complete env decls (decls.foldl call.noted env) where
  pointers := call.noted_pointers env decls
  model := call.noted_model env decls
  blocks := by
    rcases recordable with rfl | recordable
    · exact .inl ⟨rfl, rfl⟩
    · obtain ⟨old, found⟩ := Option.isSome_iff_exists.mp recordable
      refine .inr ⟨old, found, ?_⟩
      cases decls with
      | nil => exact found.trans (congrArg some (List.append_nil old).symm)
      | cons d rest => rw [call.noted_blocks (List.cons_ne_nil d rest), recordable_set, found, Option.getD_some]

/-- What has been recorded of a call that was stopped tells how far it came. -/
theorem blocks_through {env : ContextEnvelope} {old : List Json} (found : recordedBlocks env.extras = some old)
    (ds : List ContextDeclaration) :
    recordedBlocks (ds.foldl call.noted env).extras = some (old ++ ds.map call.block) := by
  rcases (call.complete_noted (.inr (Option.isSome_iff_exists.mpr ⟨old, found⟩)) : call.Complete env ds _).blocks with
    ⟨rfl, -⟩ | ⟨old', found', now⟩
  · exact found.trans (congrArg some (List.append_nil old).symm)
  · rw [found] at found'
    cases found'
    exact now

theorem Granted.answers {call : ContextDelegation} {env : ContextEnvelope} {decls : List ContextDeclaration}
    (granted : call.Granted env decls) : ¬(call.processContextDelegations env decls).Refused := by
  intro refused
  obtain ⟨ds, d, rest, rfl, -, missing⟩ := (call.refused_iff _ _ _ _).mp refused
  exact missing (granted.satisfied d (List.mem_append_right ds List.mem_cons_self))

/-- A call that is not refused does all exactly when it was granted. -/
theorem complete_iff {env : ContextEnvelope} {decls : List ContextDeclaration}
    (answers : ¬(call.processContextDelegations env decls).Refused) :
    call.Complete env decls (call.processContextDelegations env decls).env ↔ call.Granted env decls := by
  have ends := call.declare_ends env.availableContextKeys decls env []
  simp only [processContextDelegations] at answers ⊢
  generalize call.declare env.availableContextKeys decls env [] = result at answers ends
  cases ends with
  | answered taken passed =>
      refine ⟨fun _ => ⟨passed.satisfied, passed.recordable, ?_⟩, fun _ => call.complete_noted passed.recordable⟩
      cases decls using List.reverseRecOn with
      | nil => trivial
      | append_singleton ds d =>
          have takes := passed.takes
          rw [List.map_append] at takes
          rw [List.dropLast_concat]
          exact call.takes_append takes
  | refused rest taken message => exact absurd ⟨message, rfl⟩ answers
  | @unrecorded d rest taken message satisfied lost =>
      constructor
      · intro complete
        rcases complete.blocks with ⟨empty, -⟩ | ⟨old, found, -⟩
        · cases empty
        · exact absurd (Option.isSome_iff_exists.mpr ⟨old, found⟩) lost
      · intro granted
        exact absurd (granted.recordable.resolve_left (List.cons_ne_nil d rest)) lost
  | @untaken ds d rest taken error passed satisfied recordable stopped =>
      obtain ⟨old, found⟩ := Option.isSome_iff_exists.mp recordable
      constructor
      · intro complete
        have last : rest = [] := by
          rcases complete.blocks with ⟨empty, -⟩ | ⟨old', found', now⟩
          · exact absurd empty (List.append_ne_nil_of_right_ne_nil ds (List.cons_ne_nil d rest))
          · rw [found] at found'
            cases found'
            rw [call.blocks_through found] at now
            have lengths := congrArg List.length (List.append_cancel_left (Option.some.inj now))
            simp only [List.length_map, List.length_append, List.length_cons, List.length_nil] at lengths
            exact List.eq_nil_of_length_eq_zero (by omega)
        subst last
        refine ⟨?_, .inr recordable, ?_⟩
        · intro d' member
          rcases List.mem_append.mp member with before | last
          · exact passed.satisfied d' before
          · exact List.mem_singleton.mp last ▸ satisfied
        · rw [List.dropLast_concat]
          exact passed.takes
      · intro granted
        cases rest with
        | nil => exact call.complete_noted (.inr recordable)
        | cons d' rest =>
            refine absurd ?_ stopped
            have takes := granted.takes
            have more : (ds ++ d :: d' :: rest).dropLast = (ds ++ [d]) ++ (d' :: rest).dropLast := by
              simp
            rw [more, List.map_append] at takes
            exact call.takes_append takes

/-- A refused call left the envelope as it was only if its first declaration refused it. -/
theorem first_missing {env : ContextEnvelope} {decls : List ContextDeclaration}
    (refused : (call.processContextDelegations env decls).Refused)
    (same : (call.processContextDelegations env decls).env = env) :
    ∃ d rest, decls = d :: rest ∧ ¬Satisfied env.availableContextKeys d := by
  have ends := call.declare_ends env.availableContextKeys decls env []
  obtain ⟨message, raised⟩ := refused
  simp only [processContextDelegations] at raised same
  generalize call.declare env.availableContextKeys decls env [] = result at raised same ends
  cases ends with
  | answered => cases raised
  | unrecorded => cases raised
  | untaken => cases raised
  | @refused ds d rest taken message passed missing =>
      cases ds with
      | nil => exact ⟨d, rest, rfl, missing⟩
      | cons d' ds =>
          obtain ⟨old, found⟩ := Option.isSome_iff_exists.mp (passed.recordable.resolve_left (List.cons_ne_nil d' ds))
          have now := call.blocks_through found (d' :: ds)
          have same : (d' :: ds).foldl call.noted env = env := same
          rw [same, found] at now
          have lengths := congrArg List.length (Option.some.inj now)
          simp only [List.length_append, List.length_map, List.length_cons] at lengths
          omega

/-- The declarations before the first that misses something are the same however they are found. -/
theorem before_missing {available : List String} {ds ds' : List ContextDeclaration} {d d' : ContextDeclaration}
    {rest rest' : List ContextDeclaration} (same : ds ++ d :: rest = ds' ++ d' :: rest')
    (satisfied : ∀ x ∈ ds, Satisfied available x) (satisfied' : ∀ x ∈ ds', Satisfied available x)
    (missing : ¬Satisfied available d) (missing' : ¬Satisfied available d') : ds = ds' := by
  induction ds generalizing ds' with
  | nil =>
      cases ds' with
      | nil => rfl
      | cons x xs =>
          obtain ⟨rfl, -⟩ := List.cons.inj same
          exact absurd (satisfied' d List.mem_cons_self) missing
  | cons y ys ih =>
      cases ds' with
      | nil =>
          obtain ⟨rfl, -⟩ := List.cons.inj same
          exact absurd (satisfied y List.mem_cons_self) missing'
      | cons x xs =>
          obtain ⟨rfl, tails⟩ := List.cons.inj same
          rw [ih tails (fun z member => satisfied z (List.mem_cons_of_mem y member))
            fun z member => satisfied' z (List.mem_cons_of_mem y member)]

/-- Some declaration misses something: a first one does. -/
theorem split_missing {available : List String} {decls : List ContextDeclaration}
    (some : ∃ d ∈ decls, ¬Satisfied available d) :
    ∃ ds d rest, decls = ds ++ d :: rest ∧ (∀ x ∈ ds, Satisfied available x) ∧ ¬Satisfied available d := by
  induction decls with
  | nil => exact absurd some.choose_spec.1 List.not_mem_nil
  | cons y ys ih =>
      by_cases satisfied : Satisfied available y
      · obtain ⟨d, member, missing⟩ := some
        have later : d ∈ ys := by
          rcases List.mem_cons.mp member with rfl | later
          · exact absurd satisfied missing
          · exact later
        obtain ⟨ds, d, rest, rfl, all, missing⟩ := ih ⟨d, later, missing⟩
        exact ⟨y :: ds, d, rest, rfl, List.forall_mem_cons.mpr ⟨satisfied, all⟩, missing⟩
      · exact ⟨[], y, ys, rfl, fun _ member => absurd member List.not_mem_nil, satisfied⟩

theorem AllOrNothing.granted_or {call : ContextDelegation} {env : ContextEnvelope} {decls : List ContextDeclaration}
    (holds : call.AllOrNothing env decls) : call.Granted env decls ∨ call.RefusedFirst env decls := by
  by_cases refused : (call.processContextDelegations env decls).Refused
  · obtain ⟨same, -⟩ := holds.nothing refused
    obtain ⟨d, rest, rfl, missing⟩ := call.first_missing refused same
    refine .inr ⟨⟨d, rest, rfl, missing⟩, fun ds inside satisfied => ?_⟩
    obtain ⟨ds', arranged, sub⟩ := inside
    obtain ⟨others, whole⟩ := sub.exists_perm_append
    have whole : (d :: rest).Perm (ds ++ others) := whole.trans (arranged.append_right others)
    have member : d ∈ others := by
      rcases List.mem_append.mp (whole.subset List.mem_cons_self) with before | after
      · exact absurd (satisfied d before) missing
      · exact after
    obtain ⟨front, back, rfl⟩ := List.append_of_mem member
    have moved : (ds ++ d :: (front ++ back)).Perm (d :: rest) :=
      (List.perm_middle.symm.append_left ds).trans whole.symm
    obtain ⟨ds₂, d₂, rest₂, split, passed, missing₂⟩ :=
      (call.refused_iff _ _ _ _).mp ((holds.unordered _ moved).mpr refused)
    rw [before_missing split satisfied passed.satisfied missing missing₂]
    exact passed
  · exact .inl ((call.complete_iff refused).mp (holds.all refused))

theorem Granted.allOrNothing {call : ContextDelegation} {env : ContextEnvelope} {decls : List ContextDeclaration}
    (granted : call.Granted env decls) : call.AllOrNothing env decls where
  nothing refused := absurd refused granted.answers
  all answers := (call.complete_iff answers).mpr granted
  unordered decls' arranged := by
    refine ⟨fun refused => ?_, fun refused => absurd refused granted.answers⟩
    obtain ⟨ds, d, rest, rfl, -, missing⟩ := (call.refused_iff _ _ _ _).mp refused
    exact absurd (granted.satisfied d (arranged.subset (List.mem_append_right ds List.mem_cons_self))) missing

theorem RefusedFirst.allOrNothing {call : ContextDelegation} {env : ContextEnvelope} {decls : List ContextDeclaration}
    (first : call.RefusedFirst env decls) : call.AllOrNothing env decls := by
  obtain ⟨⟨d, rest, rfl, missing⟩, unstopped⟩ := first
  have found : d.missing env.availableContextKeys ≠ [] := missing
  have ends : call.processContextDelegations env (d :: rest) =
      ⟨env, [], some (.contextDelegation (call.refusal d (d.missing env.availableContextKeys)))⟩ := by
    simp only [processContextDelegations, declare, if_pos found]
  have refused : (call.processContextDelegations env (d :: rest)).Refused := by
    rw [ends]
    exact ⟨_, rfl⟩
  refine ⟨fun _ => by rw [ends]; exact ⟨rfl, rfl⟩, fun answers => absurd refused answers, ?_⟩
  intro decls' arranged
  refine ⟨fun _ => refused, fun _ => ?_⟩
  obtain ⟨ds, d', rest', rfl, satisfied, missing'⟩ :=
    split_missing ⟨d, arranged.symm.subset List.mem_cons_self, missing⟩
  have inside : ds.Subperm (d :: rest) := (List.sublist_append_left ds (d' :: rest')).subperm.trans arranged.subperm
  exact (call.refused_iff _ _ _ _).mpr ⟨ds, d', rest', rfl, unstopped ds inside satisfied, missing'⟩

end ContextDelegation

/-- Processing is all or nothing exactly when every declaration goes through, or when the first of them
misses what it requires and the others could not be stopped by anything else. -/
theorem context_delegation_iff (call : ContextDelegation) (env : ContextEnvelope) (decls : List ContextDeclaration) :
    call.AllOrNothing env decls ↔ call.Granted env decls ∨ call.RefusedFirst env decls := by
  constructor
  · exact ContextDelegation.AllOrNothing.granted_or
  · rintro (granted | first)
    · exact granted.allOrNothing
    · exact first.allOrNothing

namespace Sample

def delegating : ContextDelegation := { unicode := ⟨fun _ => false, fun _ => false⟩, agentName := "vendor" }

def bareEnvelope : ContextEnvelope := { runId := "run", tenantId := "acme", stage := .actionPlan }

def ratesDeclared : ContextDeclaration :=
  { id := "rates", kind := "yaml", description := "", scope := "tenant", supplies := ["rate_card"] }

def budgetRequired : ContextDeclaration :=
  { id := "spend", kind := "yaml", description := "", scope := "tenant", requiresFromL1 := ["budget"] }

end Sample

open Sample in
/-- The second of two declarations is refused after the first has been recorded. -/
theorem half_delegated : ¬ ∀ (call : ContextDelegation) (env : ContextEnvelope) (decls : List ContextDeclaration),
    call.AllOrNothing env decls := by
  intro holds
  have both := holds delegating bareEnvelope [ratesDeclared, budgetRequired]
  rcases ContextDelegation.AllOrNothing.granted_or both with granted | first
  · have satisfied := granted.satisfied budgetRequired (by simp)
    exact absurd satisfied (by decide)
  · obtain ⟨d, rest, same, missing⟩ := first.first
    cases same
    exact missing (by decide)

end Maof
