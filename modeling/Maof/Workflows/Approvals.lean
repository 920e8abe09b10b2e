import Maof.Registry.Search
import Maof.Workflows.Approvers

/-!
# An approval that raises

Approving writes the signed entry first, and only then indexes and reports it.
What comes before the write takes nothing back, and what comes after it does not
either.
-/

namespace Maof

open Data (Dict)
open WorkflowStore (Verifies executable executable_ok load)

/-! ## The registry -/

namespace RegistryStore

variable {V : Type} (p : Platform) (signer : Signer)

/-- The index or the sink raises, after the write. -/
def RaisesLate (env : RegistryEnv) (stored : Except Exn Unit) (search : Option (AgentManifest → V → V × Except Exn Unit))
    (manifest : AgentManifest) (v : V) : Prop :=
  stored = .ok () ∧ ((∃ index e, search = some index ∧ (index manifest v).2 = .error e) ∨ ∃ e, env.emitted = .error e)

/-- If the approval raises, the loader has the manifests it had. -/
def GrantsNothing (env : RegistryEnv) (stored : Except Exn Unit) (search : Option (AgentManifest → V → V × Except Exn Unit))
    (entryId : String) (principal : Option Principal) (s : InMemoryRegistryRepo × V) : Prop :=
  ∀ e, (approveThrough p signer env stored search entryId principal s).2 = .error e →
    manifests p signer (approveThrough p signer env stored search entryId principal s).1.1 = manifests p signer s.1

/-- Where the index or the sink raises after the write, the signed entry is trusted if the entry was. -/
def UnmovedLate (env : RegistryEnv) (stored : Except Exn Unit) (search : Option (AgentManifest → V → V × Except Exn Unit))
    (entryId : String) (principal : Option Principal) (s : InMemoryRegistryRepo × V) : Prop :=
  ∀ entry new, signed p signer env entryId principal s.1 = .ok (entry, new) →
    RaisesLate env stored search new.manifest s.2 → new.trusted p signer = entry.trusted p signer

end RegistryStore

namespace RegistryStore

variable {V : Type} {p : Platform} {signer : Signer} {env : RegistryEnv} {entryId : String} {principal : Option Principal}

theorem trusted_approved {e : RegistryEntry} (trusted : e.trusted p signer = true) : e.status = .approved := by
  by_contra other
  simp [RegistryEntry.trusted, verifyEntry, other] at trusted

/-- The manifests of the entries that are trusted; an entry that is not approved is not. -/
theorem manifests_eq (r : InMemoryRegistryRepo) :
    manifests p signer r = (r.values.filter fun e => e.trusted p signer).map RegistryEntry.manifest := by
  unfold manifests approvedEntries listApproved
  rw [List.filter_filter]
  congr 1
  apply List.filter_congr
  intro e _
  cases trusted : e.trusted p signer with
  | false => rfl
  | true => simp [trusted_approved trusted]

/-- Signing an entry anew shows where it was not trusted before. -/
theorem manifests_put {r : InMemoryRegistryRepo} {entry new : RegistryEntry} (found : r.get entryId = some entry)
    (same : new.manifest = entry.manifest) (named : entry.manifest.id = entryId) :
    manifests p signer (r.put new) = manifests p signer r ↔ new.trusted p signer = entry.trusted p signer := by
  obtain ⟨before, after, split, sets⟩ := Dict.set_of_get found
  have old : r.values = before.map Prod.snd ++ entry :: after.map Prod.snd := by
    rw [InMemoryRegistryRepo.values, split, List.map_append, List.map_cons]
  have put : (r.put new).values = before.map Prod.snd ++ new :: after.map Prod.snd := by
    change (Dict.set r.entries new.manifest.id new).map Prod.snd = _
    rw [same, named, sets, List.map_append, List.map_cons]
  rw [manifests_eq, manifests_eq, old, put, List.filter_append, List.filter_append, List.map_append, List.map_append,
    List.append_cancel_left_eq, List.filter_cons, List.filter_cons]
  cases new.trusted p signer <;> cases entry.trusted p signer <;> simp [same]

/-- What is left once the entry is written: it raises where the index or the sink does. -/
theorem written {s : InMemoryRegistryRepo × V} {stored : Except Exn Unit} {search : Option (AgentManifest → V → V × Except Exn Unit)}
    {entry new : RegistryEntry} (made : signed p signer env entryId principal s.1 = .ok (entry, new)) (kept : stored = .ok ()) :
    (approveThrough p signer env stored search entryId principal s).1.1 = s.1.put new ∧
    ((∃ e, (approveThrough p signer env stored search entryId principal s).2 = .error e) ↔
      RaisesLate env stored search new.manifest s.2) := by
  unfold approveThrough RaisesLate
  rw [made, kept]
  refine ⟨rfl, ?_⟩
  cases search with
  | none => cases env.emitted <;> simp [bind, Except.bind, pure, Except.pure]
  | some index =>
      cases indexes : (index new.manifest s.2).2 with
      | error e => simp [indexes, bind, Except.bind]
      | ok u => cases env.emitted <;> simp [indexes, bind, Except.bind, pure, Except.pure]

/-- A failed approval leaves the manifests exactly where none fails after its write, unless the entry is trusted
before and after it, or neither. -/
theorem approveThrough_failed (env : RegistryEnv) (stored : Except Exn Unit)
    (search : Option (AgentManifest → V → V × Except Exn Unit)) (entryId : String) (principal : Option Principal)
    (s : InMemoryRegistryRepo × V) :
    GrantsNothing p signer env stored search entryId principal s ↔
      UnmovedLate p signer env stored search entryId principal s := by
  unfold GrantsNothing UnmovedLate
  constructor
  · intro unchanged entry new made late
    obtain ⟨found, same, named⟩ := signed_ok made
    obtain ⟨put, raises⟩ := @written _ _ _ _ _ _ _ _ search _ _ made late.1
    obtain ⟨e, failed⟩ := raises.mpr late
    have kept := unchanged e failed
    rw [put] at kept
    exact (manifests_put found same named).mp kept
  · intro trusted e failed
    cases made : signed p signer env entryId principal s.1 with
    | error e =>
        simp only [approveThrough, made]
    | ok both =>
        obtain ⟨entry, new⟩ := both
        cases kept : stored with
        | error e =>
            simp only [approveThrough, made]
        | ok u =>
            obtain ⟨found, same, named⟩ := signed_ok made
            obtain ⟨put, raises⟩ := @written _ _ _ _ _ _ _ _ search _ _ made kept
            rw [kept] at put failed
            rw [put]
            apply (manifests_put found same named).mpr
            apply trusted entry new made
            apply raises.mp
            rw [kept]
            exact ⟨e, failed⟩

/-- An approval that returns has indexed the manifest. -/
theorem approveThrough_indexed {stored : Except Exn Unit} {index : AgentManifest → V → V × Except Exn Unit}
    {s : InMemoryRegistryRepo × V} {new : RegistryEntry}
    (returned : (approveThrough p signer env stored (some index) entryId principal s).2 = .ok new) :
    index new.manifest s.2 = ((approveThrough p signer env stored (some index) entryId principal s).1.2, .ok ()) := by
  unfold approveThrough at returned ⊢
  cases made : signed p signer env entryId principal s.1 with
  | error e =>
      rw [made] at returned
      cases returned
  | ok both =>
      rw [made] at returned
      cases stored with
      | error e => cases returned
      | ok u =>
          obtain ⟨_, indexed, returned⟩ := ok_of_bind returned
          obtain ⟨_, _, returned⟩ := ok_of_bind returned
          cases returned
          exact Prod.ext rfl indexed

end RegistryStore

/-! ## The workflows -/

/-- What is under each name and version: the status, and the entry as it is read. -/
abbrev Slots : Type := String → Int → Option (String × Except Exn WorkflowEntry)

namespace Slots

def Approved (slots : Slots) (name : String) (version : Int) : Prop :=
  ∃ slot, slots name version = some slot ∧ slot.1 = "approved"

def set (slots : Slots) (name : String) (version : Int) (slot : String × Except Exn WorkflowEntry) : Slots :=
  fun n v => if (name, version) = (n, v) then some slot else slots n v

variable {slots : Slots} {name : String} {version : Int} {slot : String × Except Exn WorkflowEntry}

theorem set_same : slots.set name version slot name version = some slot :=
  if_pos rfl

theorem set_other {n : String} {v : Int} (other : (name, version) ≠ (n, v)) :
    slots.set name version slot n v = slots n v :=
  if_neg other

theorem approved_set {n : String} {v : Int} (approved : slot.1 = "approved") :
    (slots.set name version slot).Approved n v ↔ (name, version) = (n, v) ∨ slots.Approved n v := by
  unfold Approved
  by_cases here : (name, version) = (n, v)
  · cases here
    rw [set_same]
    exact ⟨fun _ => .inl rfl, fun _ => ⟨slot, rfl, approved⟩⟩
  · rw [set_other here]
    exact ⟨.inr, fun either => either.resolve_left here⟩

end Slots

section slots

variable {R : Type} {repo : WorkflowRepo R} {p : Platform} {signer : Signer} {slots : Slots}

/-- The repository answers by its slots: the latest of a name is its greatest approved version. -/
structure Shows (repo : WorkflowRepo R) (r : R) (slots : Slots) : Prop where
  get : ∀ name version, repo.get r name version = match slots name version with
    | none => .ok none
    | some slot => some <$> slot.2
  latest : ∀ name, (repo.latestApproved r name = .ok none ∧ ∀ version, ¬ slots.Approved name version) ∨
    ∃ version slot, slots name version = some slot ∧ slot.1 = "approved" ∧
      (∀ v, slots.Approved name v → v ≤ version) ∧ repo.latestApproved r name = some <$> slot.2

/-- What is loaded of a slot. -/
def slotLoad (p : Platform) (signer : Signer) (name : String) :
    Option (String × Except Exn WorkflowEntry) → Except Exn WorkflowDefinition
  | none => throw (.registryTrust ("no approved workflow " ++ Template.reprText p.unicode (.str name)))
  | some slot => slot.2 >>= executable p signer name

theorem load_slot {r : R} (shows_ : Shows repo r slots) (name : String) (version : Int) :
    load repo p signer name (some version) r = slotLoad p signer name (slots name version) := by
  unfold load
  simp only
  rw [shows_.get]
  cases slots name version with
  | none => rfl
  | some slot =>
      obtain ⟨status, read⟩ := slot
      cases read <;> rfl

theorem load_none {r : R} (shows_ : Shows repo r slots) {name : String} (none : ∀ v, ¬ slots.Approved name v) :
    load repo p signer name .none r = slotLoad p signer name .none := by
  unfold load
  simp only
  rcases shows_.latest name with ⟨answer, _⟩ | ⟨version, slot, there, approved, _⟩
  · rw [answer]
    rfl
  · exact absurd ⟨slot, there, approved⟩ (none version)

theorem load_greatest {r : R} (shows_ : Shows repo r slots) {name : String} {version : Int}
    (approved : slots.Approved name version) (most : ∀ v, slots.Approved name v → v ≤ version) :
    load repo p signer name none r = slotLoad p signer name (slots name version) := by
  unfold load
  simp only
  rcases shows_.latest name with ⟨_, none⟩ | ⟨v, slot, there, approved', most', answer⟩
  · exact absurd approved (none version)
  · obtain rfl : v = version := le_antisymm (most v ⟨slot, there, approved'⟩) (most' version approved)
    rw [answer, there]
    obtain ⟨status, read⟩ := slot
    cases read <;> rfl

/-- Of every name there is a greatest approved version, if there is one. -/
theorem greatest {r : R} (shows_ : Shows repo r slots) (name : String) : (∀ v, ¬ slots.Approved name v) ∨
    ∃ version, slots.Approved name version ∧ ∀ v, slots.Approved name v → v ≤ version := by
  rcases shows_.latest name with ⟨_, none⟩ | ⟨version, slot, there, approved, most, _⟩
  · exact .inl none
  · exact .inr ⟨version, ⟨slot, there, approved⟩, most⟩

/-- The slot is loaded as an approved one with this entry would be, and the name with it. -/
def Unmoved (repo : WorkflowRepo R) (p : Platform) (signer : Signer) (r : R) (slots : Slots) (name : String)
    (version : Int) (read : Except Exn WorkflowEntry) : Prop :=
  read >>= executable p signer name = load repo p signer name (some version) r ∧
  (slots.Approved name version ∨ (∃ v, version < v ∧ slots.Approved name v) ∨
    load repo p signer name none r = load repo p signer name (some version) r)

/-- An approved entry in a slot changes nothing that is loaded exactly where the slot is unmoved. -/
theorem load_set_iff {r r' : R} {name : String} {version : Int} {read : Except Exn WorkflowEntry}
    (before : Shows repo r slots) (after : Shows repo r' (slots.set name version ("approved", read))) :
    (∀ n v, load repo p signer n v r' = load repo p signer n v r) ↔ Unmoved repo p signer r slots name version read := by
  have here : load repo p signer name (some version) r' = read >>= executable p signer name := by
    rw [load_slot after, Slots.set_same]
    rfl
  have approved : ∀ {n v}, (slots.set name version ("approved", read)).Approved n v ↔
      (name, version) = (n, v) ∨ slots.Approved n v := Slots.approved_set rfl
  constructor
  · intro same
    refine ⟨by rw [← here, same], ?_⟩
    by_cases old : slots.Approved name version
    · exact .inl old
    by_cases higher : ∃ v, version < v ∧ slots.Approved name v
    · exact .inr (.inl higher)
    -- the slot is now the latest of its name
    refine .inr (.inr ?_)
    rw [← same, ← same, load_greatest after (approved.mpr (.inl rfl)), load_slot after]
    intro v there
    rcases approved.mp there with same | old'
    · cases same
      exact le_refl _
    · exact not_lt.mp fun above => higher ⟨v, above, old'⟩
  · intro unmoved n v
    obtain ⟨at_, latest⟩ := unmoved
    have slot : ∀ n v, load repo p signer n (some v) r' = load repo p signer n (some v) r := by
      intro n v
      by_cases target : (name, version) = (n, v)
      · cases target
        exact here.trans at_
      · rw [load_slot after, load_slot before, Slots.set_other target]
    cases v with
    | some v => exact slot n v
    | none =>
        -- a version that is the greatest before and after is loaded alike
        have kept : ∀ {top}, slots.Approved n top → (∀ v, slots.Approved n v → v ≤ top) →
            (∀ v, (name, version) = (n, v) → v ≤ top) → load repo p signer n none r' = load repo p signer n none r := by
          intro top there most below
          rw [load_greatest before there most, load_greatest after (approved.mpr (.inr there)), ← load_slot after,
            ← load_slot before, slot]
          intro v either
          exact (approved.mp either).elim (below v) (most v)
        by_cases named : n = name
        · subst named
          by_cases top : slots.Approved n version ∨ ∃ v, version < v ∧ slots.Approved n v
          · rcases greatest before n with none | ⟨v, there, most⟩
            · rcases top with old | ⟨v, _, old⟩
              · exact absurd old (none _)
              · exact absurd old (none _)
            · apply kept there most
              intro v' same
              cases same
              rcases top with old | ⟨v', above, old⟩
              · exact most _ old
              · exact le_trans (le_of_lt above) (most _ old)
          · rw [not_or] at top
            have equal := (latest.resolve_left top.1).resolve_left top.2
            rw [equal, ← slot, load_greatest after (approved.mpr (.inl rfl)), load_slot after]
            intro v either
            rcases approved.mp either with same | old
            · cases same
              exact le_refl _
            · exact not_lt.mp fun above => top.2 ⟨v, above, old⟩
        · have apart : ∀ v, (name, version) ≠ (n, v) := fun v same => named (Prod.mk.inj same).1.symm
          rcases greatest before n with none | ⟨v, there, most⟩
          · rw [load_none before none, load_none after]
            intro v either
            exact (approved.mp either).elim (apart v) (none v)
          · exact kept there most fun v same => absurd same (apart v)

end slots

section repositories

/-- A repository is a view of its slots, and a write that does not raise sets one of them. -/
structure Slotted {R : Type} (repo : WorkflowRepo R) (slots : R → Slots)
    (read : WorkflowEntry → Except Exn WorkflowEntry) (r : R) : Prop where
  shows_ : Shows repo r (slots r)
  put : ∀ {e r'}, repo.put r e = .ok r' →
    Shows repo r' ((slots r).set e.definition.name e.definition.version (e.status, read e))

def InMemoryWorkflowRepo.slots (r : InMemoryWorkflowRepo) : Slots :=
  fun name version => (r.get name version).map fun e => (e.status, .ok e)

theorem InMemoryWorkflowRepo.approved {r : InMemoryWorkflowRepo} {name : String} {version : Int} :
    r.slots.Approved name version ↔ ∃ e ∈ r.candidates name, e.definition.version = version := by
  simp only [Slots.Approved, slots, Option.map_eq_some_iff]
  constructor
  · intro approved
    obtain ⟨_, ⟨e, found, rfl⟩, approved⟩ := approved
    have numbered := (named found).2
    exact ⟨e, mem_candidates.mpr ⟨numbered ▸ found, approved⟩, numbered⟩
  · intro candidate
    obtain ⟨e, inside, rfl⟩ := candidate
    obtain ⟨found, approved⟩ := mem_candidates.mp inside
    exact ⟨_, ⟨e, found, rfl⟩, approved⟩

theorem memory_shows (r : InMemoryWorkflowRepo) : Shows inMemoryWorkflowRepo r r.slots where
  get name version := by
    change Except.ok (r.get name version) = _
    unfold InMemoryWorkflowRepo.slots
    cases r.get name version <;> rfl
  latest name := by
    change (Except.ok (r.latestApproved name) = _ ∧ _) ∨ ∃ _ _, _ ∧ _ ∧ _ ∧ Except.ok (r.latestApproved name) = _
    cases latest : r.latestApproved name with
    | none =>
        refine .inl ⟨rfl, fun version approved => ?_⟩
        obtain ⟨e, inside, _⟩ := InMemoryWorkflowRepo.approved.mp approved
        rw [InMemoryWorkflowRepo.latest_none.mp latest] at inside
        cases inside
    | some e =>
        obtain ⟨inside, most⟩ := InMemoryWorkflowRepo.latest_iff.mp latest
        obtain ⟨found, approved⟩ := InMemoryWorkflowRepo.mem_candidates.mp inside
        refine .inr ⟨e.definition.version, (e.status, .ok e), ?_, approved, fun v there => ?_, rfl⟩
        · unfold InMemoryWorkflowRepo.slots
          rw [found]
          rfl
        · obtain ⟨e', inside', rfl⟩ := InMemoryWorkflowRepo.approved.mp there
          exact most e' inside'

theorem memory_slotted (r : InMemoryWorkflowRepo) : Slotted inMemoryWorkflowRepo InMemoryWorkflowRepo.slots .ok r where
  shows_ := memory_shows r
  put := by
    intro e r' put
    cases put
    have slots : (r.put e).slots = r.slots.set e.definition.name e.definition.version (e.status, .ok e) := by
      funext name version
      simp only [InMemoryWorkflowRepo.slots, Slots.set, InMemoryWorkflowRepo.get_put]
      by_cases here : (e.definition.name, e.definition.version) = (name, version)
      · rw [if_pos here, if_pos here]
        rfl
      · rw [if_neg here, if_neg here]
    rw [← slots]
    exact memory_shows (r.put e)

def PostgresWorkflowRepo.slots (rows : WorkflowTable) : Slots :=
  fun name version => (Dict.get rows (name, version)).map fun row => (row.status, toEntry row)

/-- What is read back of an entry that was written. -/
def PostgresWorkflowRepo.readBack (db : WorkflowColumns) (e : WorkflowEntry) : Except Exn WorkflowEntry := do
  let time ← stamp db e.approvedAt
  toEntry (row db e time)

theorem postgres_shows (db : WorkflowColumns) {rows : WorkflowTable} (keyed : (Dict.keys rows).Nodup) :
    Shows (postgresWorkflowRepo db) rows (PostgresWorkflowRepo.slots rows) where
  get name version := by
    change PostgresWorkflowRepo.get rows name version = _
    unfold PostgresWorkflowRepo.get PostgresWorkflowRepo.slots
    cases Dict.get rows (name, version) <;> rfl
  latest name := by
    change (PostgresWorkflowRepo.latestApproved rows name = _ ∧ _) ∨
      ∃ _ _, _ ∧ _ ∧ _ ∧ PostgresWorkflowRepo.latestApproved rows name = _
    unfold PostgresWorkflowRepo.latestApproved
    have candidate : ∀ {v}, (PostgresWorkflowRepo.slots rows).Approved name v → ∃ row : WorkflowRow,
        ((name, v), row) ∈ rows.filter fun kv => kv.1.1 = name ∧ kv.2.status = "approved" := by
      intro v approved
      obtain ⟨_, found, approved⟩ := approved
      obtain ⟨row, there, rfl⟩ := Option.map_eq_some_iff.mp found
      exact ⟨row, List.mem_filter.mpr ⟨Dict.mem_of_get there, decide_eq_true ⟨rfl, approved⟩⟩⟩
    cases latest : PostgresWorkflowRepo.latestRow rows name with
    | none =>
        refine .inl ⟨rfl, fun v approved => ?_⟩
        obtain ⟨row, inside⟩ := candidate approved
        rw [maxBy_none.mp latest] at inside
        cases inside
    | some kv =>
        obtain ⟨inside, most⟩ := maxBy_some latest
        obtain ⟨there, decided⟩ := List.mem_filter.mp inside
        obtain ⟨rfl, approved⟩ := of_decide_eq_true decided
        refine .inr ⟨kv.1.2, (kv.2.status, PostgresWorkflowRepo.toEntry kv.2), ?_, approved, fun v above => ?_, rfl⟩
        · unfold PostgresWorkflowRepo.slots
          rw [Dict.get_of_mem keyed there]
          rfl
        · obtain ⟨row, inside'⟩ := candidate above
          exact most _ inside'

theorem postgres_slotted (db : WorkflowColumns) {rows : WorkflowTable} (keyed : (Dict.keys rows).Nodup) :
    Slotted (postgresWorkflowRepo db) PostgresWorkflowRepo.slots (PostgresWorkflowRepo.readBack db) rows where
  shows_ := postgres_shows db keyed
  put := by
    intro e rows' put
    obtain ⟨_, time, stamped, rfl⟩ := postgres_put.mp put
    have slots : PostgresWorkflowRepo.slots
          (Dict.set rows (e.definition.name, e.definition.version) (PostgresWorkflowRepo.row db e time)) =
        (PostgresWorkflowRepo.slots rows).set e.definition.name e.definition.version
          (e.status, PostgresWorkflowRepo.readBack db e) := by
      funext name version
      simp only [PostgresWorkflowRepo.slots, Slots.set, Dict.get_set, PostgresWorkflowRepo.readBack, stamped]
      by_cases here : (e.definition.name, e.definition.version) = (name, version)
      · rw [if_pos here, if_pos here]
        rfl
      · rw [if_neg here, if_neg here]
    rw [← slots]
    exact postgres_shows db (Dict.nodup_set keyed _ _)

end repositories

section approvals

variable {R : Type} (repo : WorkflowRepo R) (p : Platform) (signer : Signer)

/-- All that `approve` of a workflow does before it writes. -/
def WorkflowStore.signed (env : StoreEnv) (name : String) (version : Int) (principal : Option Principal) (r : R) :
    Except Exn WorkflowEntry := do
  checkScope p.unicode principal scopeWorkflowApprove
  let entry ← fetch repo name version r
  sign p signer env.now entry

/-- If the approval raises, what is loaded under any name and version is what was. -/
def WorkflowStore.GrantsNothing (env : StoreEnv) (name : String) (version : Int) (principal : Option Principal)
    (r : R) : Prop :=
  ∀ e, (approve repo p signer env name version principal r).2 = .error e → ∀ n v,
    load repo p signer n v (approve repo p signer env name version principal r).1 = load repo p signer n v r

/-- Where the sink raises once the signed entry is written, its slot is unmoved by it. -/
def WorkflowStore.UnmovedLate (slots : R → Slots) (read : WorkflowEntry → Except Exn WorkflowEntry) (env : StoreEnv)
    (name : String) (version : Int) (principal : Option Principal) (r : R) : Prop :=
  ∀ new r' e, signed repo p signer env name version principal r = .ok new → repo.put r new = .ok r' →
    env.emitted = .error e →
    Unmoved repo p signer r (slots r) new.definition.name new.definition.version (read new)

variable {repo p signer}

theorem WorkflowStore.sign_status {now : String} {entry new : WorkflowEntry} (signs : sign p signer now entry = .ok new) :
    new.status = "approved" := by
  obtain ⟨_, _, signs⟩ := ok_of_bind signs
  cases signs
  rfl

theorem WorkflowStore.approve_eq {env : StoreEnv} {name : String} {version : Int} {principal : Option Principal} {r : R} :
    approve repo p signer env name version principal r =
      match signed repo p signer env name version principal r with
      | .error e => (r, .error e)
      | .ok new => keep repo env.emitted new r := rfl

/-- A failed approval changes nothing that is loaded exactly where the signed entry that it may have left does not. -/
theorem WorkflowStore.approve_failed {slots : R → Slots} {read : WorkflowEntry → Except Exn WorkflowEntry} {r : R}
    (slotted : Slotted repo slots read r) (env : StoreEnv) (name : String) (version : Int) (principal : Option Principal) :
    GrantsNothing repo p signer env name version principal r ↔
      UnmovedLate repo p signer slots read env name version principal r := by
  unfold GrantsNothing UnmovedLate
  rw [approve_eq]
  cases made : signed repo p signer env name version principal r with
  | error e => simp
  | ok new =>
      have approved : new.status = "approved" := by
        obtain ⟨_, _, made⟩ := ok_of_bind made
        obtain ⟨_, _, made⟩ := ok_of_bind made
        exact sign_status made
      unfold keep
      simp only
      cases kept : repo.put r new with
      | error e =>
          simp only [implies_true, true_iff]
          intro new' r' e' same' kept'
          cases same'
          cases kept.symm.trans kept'
      | ok r' =>
          have after := slotted.put kept
          rw [approved] at after
          have same := @load_set_iff _ _ p signer _ _ _ _ _ _ slotted.shows_ after
          cases reported : env.emitted with
          | ok u => simp [Except.map]
          | error e =>
              constructor
              · intro unchanged new' r'' e' same' kept' _
                cases same'
                cases kept.symm.trans kept'
                exact same.mp (unchanged e rfl)
              · intro unmoved e' _
                exact same.mpr (unmoved new r' e rfl kept rfl)

end approvals

/-- A failed approval grants nothing exactly where what raises after its write leaves the entry as trusted as it was;
an approval that returns has indexed the manifest. -/
theorem failed_approvals (p : Platform) (signer : Signer) :
    (∀ (V : Type) (env : RegistryEnv) (stored : Except Exn Unit) (search : Option (AgentManifest → V → V × Except Exn Unit))
        (entryId : String) (principal : Option Principal) (s : InMemoryRegistryRepo × V),
      RegistryStore.GrantsNothing p signer env stored search entryId principal s ↔
        RegistryStore.UnmovedLate p signer env stored search entryId principal s) ∧
    (∀ (V : Type) (env : RegistryEnv) (stored : Except Exn Unit) (index : AgentManifest → V → V × Except Exn Unit)
        (entryId : String) (principal : Option Principal) (s : InMemoryRegistryRepo × V) (new : RegistryEntry),
      let out := RegistryStore.approveThrough p signer env stored (some index) entryId principal s
      out.2 = .ok new → index new.manifest s.2 = (out.1.2, .ok ())) ∧
    (∀ (E : Type) (env : RegistryEnv) (stored kept : Except Exn Unit) (embed : String → Except Exn E) (entryId : String)
        (principal : Option Principal) (s : InMemoryRegistryRepo × List (CapabilityRow E)) (new : RegistryEntry),
      let out := RegistryStore.approveThrough p signer env stored (some (RegistrySearch.index embed kept)) entryId principal s
      out.2 = .ok new → RegistrySearch.capabilityText new.manifest ≠ "" → ∃ row ∈ out.1.2, row.prov = new.manifest.id ∧
        row.content = RegistrySearch.capabilityText new.manifest ∧ embed row.content = .ok row.embedding) ∧
    (∀ (env : StoreEnv) (name : String) (version : Int) (principal : Option Principal) (r : InMemoryWorkflowRepo),
      WorkflowStore.GrantsNothing inMemoryWorkflowRepo p signer env name version principal r ↔
        WorkflowStore.UnmovedLate inMemoryWorkflowRepo p signer InMemoryWorkflowRepo.slots .ok env name version principal r) ∧
    ∀ (db : WorkflowColumns) (env : StoreEnv) (name : String) (version : Int) (principal : Option Principal)
        (rows : WorkflowTable), (Dict.keys rows).Nodup →
      (WorkflowStore.GrantsNothing (postgresWorkflowRepo db) p signer env name version principal rows ↔
        WorkflowStore.UnmovedLate (postgresWorkflowRepo db) p signer PostgresWorkflowRepo.slots
          (PostgresWorkflowRepo.readBack db) env name version principal rows) := by
  refine ⟨?_, ?_, ?_, ?_, ?_⟩
  · intro V env stored search entryId principal s
    exact RegistryStore.approveThrough_failed env stored search entryId principal s
  · intro V env stored index entryId principal s new out returned
    exact RegistryStore.approveThrough_indexed returned
  · intro E env stored kept embed entryId principal s new out returned capable
    exact RegistrySearch.indexed_found capable (RegistryStore.approveThrough_indexed returned)
  · intro env name version principal r
    exact WorkflowStore.approve_failed (memory_slotted r) env name version principal
  · intro db env name version principal rows keyed
    exact WorkflowStore.approve_failed (postgres_slotted db keyed) env name version principal

namespace Sample

def enrolling : InMemoryRegistryRepo := (RegistryHistory.of registrar registrarSigner [.submit {} candidate none]).repo

/-- An index whose embedder does not answer. -/
def unreachable (_ : AgentManifest) (v : Unit) : Unit × Except Exn Unit := (v, .error (.valueError "no embedding"))

def unindexed : (InMemoryRegistryRepo × Unit) × Except Exn RegistryEntry :=
  RegistryStore.approveThrough registrar registrarSigner {} (.ok ()) (some unreachable) "agent" none (enrolling, ())

end Sample

open Sample in
/-- The draft is signed and the sink raises. -/
theorem failed_approvals_draft :
    WorkflowStore.GrantsNothing (postgresWorkflowRepo {}) registrar registrarSigner
        { emitted := .error (.valueError "no sink") } "w" 1 none draftRows ↔
      WorkflowStore.UnmovedLate (postgresWorkflowRepo {}) registrar registrarSigner PostgresWorkflowRepo.slots
        (PostgresWorkflowRepo.readBack {}) { emitted := .error (.valueError "no sink") } "w" 1 none draftRows :=
  (failed_approvals registrar registrarSigner).2.2.2.2 {} _ "w" 1 none draftRows (by decide)

open Sample in
/-- The index raises, and the agent is among the manifests. -/
theorem approval_granted : ¬ ∀ (p : Platform) (signer : Signer),
    (∀ (V : Type) (env : RegistryEnv) (stored : Except Exn Unit) (search : Option (AgentManifest → V → V × Except Exn Unit))
        (entryId : String) (principal : Option Principal) (s : InMemoryRegistryRepo × V),
      RegistryStore.GrantsNothing p signer env stored search entryId principal s) ∧
    (∀ (V : Type) (env : RegistryEnv) (stored : Except Exn Unit) (index : AgentManifest → V → V × Except Exn Unit)
        (entryId : String) (principal : Option Principal) (s : InMemoryRegistryRepo × V) (new : RegistryEntry),
      let out := RegistryStore.approveThrough p signer env stored (some index) entryId principal s
      out.2 = .ok new → index new.manifest s.2 = (out.1.2, .ok ())) ∧
    (∀ (env : StoreEnv) (name : String) (version : Int) (principal : Option Principal) (r : InMemoryWorkflowRepo),
      WorkflowStore.GrantsNothing inMemoryWorkflowRepo p signer env name version principal r) ∧
    ∀ (db : WorkflowColumns) (env : StoreEnv) (name : String) (version : Int) (principal : Option Principal)
        (rows : WorkflowTable), (Dict.keys rows).Nodup →
      WorkflowStore.GrantsNothing (postgresWorkflowRepo db) p signer env name version principal rows := by
  intro nothing
  have failed : unindexed.2 = .error (.valueError "no embedding") := rfl
  have same := (nothing registrar registrarSigner).1 Unit {} (.ok ()) (some unreachable) "agent" none (enrolling, ()) _ failed
  have lengths := congrArg List.length same
  exact absurd lengths (by decide +kernel)

end Maof
