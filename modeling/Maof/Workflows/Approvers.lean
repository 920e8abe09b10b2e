import Maof.Registry.Store
import Maof.Workflows.Trust

/-!
# Who changes what is trusted

The scope checks keep a caller without the approve scope from approving and
revoking. Submitting takes the author scope only, and writes a pending entry into
the slot of an approved one.
-/

namespace Maof

open Data (Dict)
open WorkflowStore (Verifies executable executable_ok load)

namespace InMemoryWorkflowRepo

variable {r : InMemoryWorkflowRepo}

theorem get_put (r : InMemoryWorkflowRepo) (entry : WorkflowEntry) (name : String) (version : Int) :
    (r.put entry).get name version =
      if (entry.definition.name, entry.definition.version) = (name, version) then some entry
      else r.get name version :=
  Dict.get_set _ _ _ _

theorem named {name : String} {version : Int} {e : WorkflowEntry} (found : r.get name version = some e) :
    e.definition.name = name ∧ e.definition.version = version :=
  Prod.ext_iff.mp (r.keyed _ (Dict.mem_of_get found)).symm

theorem mem_candidates {name : String} {e : WorkflowEntry} : e ∈ r.candidates name ↔
    r.get name e.definition.version = some e ∧ e.status = "approved" := by
  simp only [candidates, List.mem_map, List.mem_filter, decide_eq_true_eq]
  constructor
  · rintro ⟨kv, ⟨inside, rfl, approved⟩, rfl⟩
    have key := r.keyed kv inside
    refine ⟨Dict.get_of_mem r.nodup ?_, approved⟩
    rw [show (kv.1.1, kv.2.definition.version) = kv.1 from Prod.ext rfl (by rw [key])]
    exact inside
  · rintro ⟨found, approved⟩
    exact ⟨_, ⟨Dict.mem_of_get found, rfl, approved⟩, rfl⟩

theorem candidate_eq {name : String} {e e' : WorkflowEntry} (h : e ∈ r.candidates name)
    (h' : e' ∈ r.candidates name) (same : e'.definition.version = e.definition.version) : e' = e := by
  have left := (mem_candidates.mp h').1
  rw [same, (mem_candidates.mp h).1] at left
  exact (Option.some.inj left).symm

/-- The approved entry of the greatest version. -/
theorem latest_iff {name : String} {e : WorkflowEntry} : r.latestApproved name = some e ↔
    e ∈ r.candidates name ∧ ∀ e' ∈ r.candidates name, e'.definition.version ≤ e.definition.version := by
  have greatest : ∀ e, r.latestApproved name = some e → e ∈ r.candidates name ∧
      ∀ e' ∈ r.candidates name, e'.definition.version ≤ e.definition.version :=
    fun e found => ⟨List.argmax_mem found, fun e' inside => List.le_of_mem_argmax (f := fun e : WorkflowEntry => e.definition.version) inside found⟩
  refine ⟨greatest e, fun ⟨member, most⟩ => ?_⟩
  cases found : r.latestApproved name with
  | none =>
      rw [List.argmax_eq_none.mp found] at member
      cases member
  | some e' =>
      obtain ⟨inside, bound⟩ := greatest e' found
      rw [candidate_eq member inside (le_antisymm (most e' inside) (bound e member))]

theorem latest_none {name : String} : r.latestApproved name = none ↔ r.candidates name = [] := by
  unfold latestApproved
  exact List.argmax_eq_none

end InMemoryWorkflowRepo

section workflows

variable {p : Platform} {signer : Signer}

/-- What `load` returns, if it does not raise. -/
def loaded (p : Platform) (signer : Signer) (r : InMemoryWorkflowRepo) (name : String) (version : Option Int) :
    Option WorkflowDefinition :=
  match load inMemoryWorkflowRepo p signer name version r with
  | .ok d => some d
  | .error _ => none

theorem loaded_entry {found : Option WorkflowEntry} {name : String} {d : WorkflowDefinition} :
    (match (match found with
        | some entry => executable p signer name entry
        | none => throw (.registryTrust ("no approved workflow " ++ Template.reprText p.unicode (.str name))) :
      Except Exn WorkflowDefinition) with
      | .ok d => some d
      | .error _ => none) = some d ↔ ∃ e, found = some e ∧ Verifies p signer e ∧ d = e.definition := by
  cases found with
  | none =>
      constructor
      · rintro ⟨⟩
      · rintro ⟨_, ⟨⟩, _⟩
  | some e =>
      simp only [Option.some.injEq, exists_eq_left', ← @executable_ok p signer name]
      cases executable p signer name e with
      | ok d' => simp
      | error err => simp

theorem loaded_at {r : InMemoryWorkflowRepo} {name : String} {v : Int} {d : WorkflowDefinition} :
    loaded p signer r name (some v) = some d ↔
      ∃ e, r.get name v = some e ∧ Verifies p signer e ∧ d = e.definition :=
  loaded_entry

theorem loaded_latest {r : InMemoryWorkflowRepo} {name : String} {d : WorkflowDefinition} :
    loaded p signer r name none = some d ↔
      ∃ e, r.latestApproved name = some e ∧ Verifies p signer e ∧ d = e.definition :=
  loaded_entry

/-- The slot a submission takes holds nothing that is loaded, nor anything that stands before
something that is. -/
def Free (p : Platform) (signer : Signer) (r : InMemoryWorkflowRepo) (d : WorkflowDefinition) : Prop :=
  ∀ e, r.get d.name d.version = some e → ¬ Verifies p signer e ∧
    (r.latestApproved d.name = some e → ∀ e' ∈ r.candidates d.name, e'.definition.version ≠ d.version →
      (∀ e'' ∈ r.candidates d.name, e''.definition.version ≠ d.version →
        e''.definition.version ≤ e'.definition.version) → ¬ Verifies p signer e')

theorem pending_not_verifies (d : WorkflowDefinition) : ¬ Verifies p signer { definition := d } := by
  rintro ⟨approved, _⟩
  have same : "pending" = "approved" := approved
  exact absurd same (by decide)

/-- Once a submission has taken its slot, the other approved entries are left. -/
theorem candidates_submitted {r : InMemoryWorkflowRepo} {d : WorkflowDefinition} {name : String} {e : WorkflowEntry} :
    e ∈ (r.put { definition := d }).candidates name ↔
      e ∈ r.candidates name ∧ ¬ (d.name = name ∧ d.version = e.definition.version) := by
  rw [InMemoryWorkflowRepo.mem_candidates, InMemoryWorkflowRepo.mem_candidates, InMemoryWorkflowRepo.get_put]
  by_cases here : d.name = name ∧ d.version = e.definition.version
  · rw [if_pos (Prod.ext here.1 here.2)]
    constructor
    · rintro ⟨same, approved⟩
      cases Option.some.inj same
      have same : "pending" = "approved" := approved
      exact absurd same (by decide)
    · rintro ⟨_, other⟩
      exact absurd here other
  · rw [if_neg fun same => here (Prod.mk.inj same)]
    exact ⟨fun old => ⟨old, here⟩, fun old => old.1⟩

/-- Where no entry of another name is touched, the latest one is the same. -/
theorem latest_congr {r r' : InMemoryWorkflowRepo} {name : String}
    (same : ∀ e, e ∈ r'.candidates name ↔ e ∈ r.candidates name) :
    r'.latestApproved name = r.latestApproved name := by
  refine Option.ext fun e => ?_
  rw [InMemoryWorkflowRepo.latest_iff, InMemoryWorkflowRepo.latest_iff]
  simp only [same]

/-- A submission changes nothing that is loaded exactly where its slot is free. -/
theorem submitted_same_iff (r : InMemoryWorkflowRepo) (d : WorkflowDefinition) :
    (∀ name version, loaded p signer (r.put { definition := d }) name version = loaded p signer r name version) ↔
      Free p signer r d := by
  constructor
  · intro same e slot
    have unloaded : ¬ Verifies p signer e := by
      intro verifies
      have before : loaded p signer r d.name (some d.version) = some e.definition :=
        loaded_at.mpr ⟨e, slot, verifies, rfl⟩
      rw [← same] at before
      obtain ⟨e', found, verifies', _⟩ := loaded_at.mp before
      rw [InMemoryWorkflowRepo.get_put, if_pos rfl] at found
      cases found
      exact pending_not_verifies d verifies'
    refine ⟨unloaded, fun latest e' member other most verifies => unloaded ?_⟩
    have after : loaded p signer (r.put { definition := d }) d.name none = some e'.definition := by
      refine loaded_latest.mpr ⟨e', InMemoryWorkflowRepo.latest_iff.mpr ⟨?_, fun e'' inside => ?_⟩, verifies, rfl⟩
      · exact candidates_submitted.mpr ⟨member, fun both => other both.2.symm⟩
      · obtain ⟨inside, apart⟩ := candidates_submitted.mp inside
        exact most e'' inside fun same => apart ⟨rfl, same.symm⟩
    rw [same] at after
    obtain ⟨e₀, found, verifies₀, _⟩ := loaded_latest.mp after
    cases latest.symm.trans found
    exact verifies₀
  · intro free name version
    refine Option.ext fun d' => ?_
    cases version with
    | some v =>
        rw [loaded_at, loaded_at]
        by_cases here : (d.name, d.version) = (name, v)
        · obtain ⟨rfl, rfl⟩ := Prod.mk.inj here
          constructor
          · rintro ⟨e, found, verifies, _⟩
            rw [InMemoryWorkflowRepo.get_put, if_pos rfl] at found
            cases found
            exact absurd verifies (pending_not_verifies d)
          · rintro ⟨e, found, verifies, _⟩
            exact absurd verifies (free e found).1
        · simp only [InMemoryWorkflowRepo.get_put, if_neg here]
    | none =>
        -- only the slot itself leaves the approved entries of the name
        by_cases held : d.name = name ∧ ∃ e ∈ r.candidates name, e.definition.version = d.version
        · obtain ⟨rfl, e, member, slot⟩ := held
          have found : r.get d.name d.version = some e := slot ▸ (InMemoryWorkflowRepo.mem_candidates.mp member).1
          obtain ⟨unloaded, next⟩ := free e found
          by_cases latest : r.latestApproved d.name = some e
          · constructor
            · intro after
              obtain ⟨e', found', verifies, _⟩ := loaded_latest.mp after
              obtain ⟨member', most⟩ := InMemoryWorkflowRepo.latest_iff.mp found'
              obtain ⟨inside, apart⟩ := candidates_submitted.mp member'
              refine absurd verifies (next latest e' inside (fun same => apart ⟨rfl, same.symm⟩) fun e'' inside'' other =>
                most e'' (candidates_submitted.mpr ⟨inside'', fun both => other both.2.symm⟩))
            · intro before
              obtain ⟨e', found', verifies, _⟩ := loaded_latest.mp before
              cases latest.symm.trans found'
              exact absurd verifies unloaded
          · have kept : (r.put { definition := d }).latestApproved d.name = r.latestApproved d.name := by
              cases top : r.latestApproved d.name with
              | none =>
                  rw [InMemoryWorkflowRepo.latest_none.mp top] at member
                  cases member
              | some e₀ =>
                  obtain ⟨inside, most⟩ := InMemoryWorkflowRepo.latest_iff.mp top
                  refine InMemoryWorkflowRepo.latest_iff.mpr ⟨candidates_submitted.mpr ⟨inside, fun both => ?_⟩,
                    fun e' inside' => most e' (candidates_submitted.mp inside').1⟩
                  rw [InMemoryWorkflowRepo.candidate_eq member inside (both.2.symm.trans slot.symm)] at top
                  exact latest top
            rw [loaded_latest, loaded_latest]
            simp only [kept]
        · have kept : (r.put { definition := d }).latestApproved name = r.latestApproved name := by
            refine latest_congr fun e => candidates_submitted.trans ⟨fun both => both.1, fun inside => ⟨inside, ?_⟩⟩
            rintro ⟨called, numbered⟩
            exact held ⟨called, e, inside, numbered.symm⟩
          rw [loaded_latest, loaded_latest]
          simp only [kept]

/-! ## Sequences of calls -/

/-- What is approved was so before. -/
def Shrinks (r r' : InMemoryWorkflowRepo) : Prop :=
  ∀ name version e, r'.get name version = some e → e.status = "approved" → r.get name version = some e

theorem Shrinks.trans {r r' r'' : InMemoryWorkflowRepo} (h : Shrinks r r') (h' : Shrinks r' r'') : Shrinks r r'' :=
  fun name version e found approved => h name version e (h' name version e found approved) approved

theorem Shrinks.at {r r' : InMemoryWorkflowRepo} (h : Shrinks r r') {name : String} {v : Int}
    {d : WorkflowDefinition} (after : loaded p signer r' name (some v) = some d) :
    loaded p signer r name (some v) = some d := by
  obtain ⟨e, found, verifies, rfl⟩ := loaded_at.mp after
  exact loaded_at.mpr ⟨e, h name v e found verifies.1, verifies, rfl⟩

/-- A latest workflow that is loaded stays the latest as long as it can be loaded. -/
theorem Shrinks.latest {r r' : InMemoryWorkflowRepo} (h : Shrinks r r') {name : String} {d : WorkflowDefinition}
    (same : ∀ v d, loaded p signer r name (some v) = some d → loaded p signer r' name (some v) = some d)
    (before : loaded p signer r name none = some d) : loaded p signer r' name none = some d := by
  obtain ⟨e, found, verifies, rfl⟩ := loaded_latest.mp before
  obtain ⟨member, most⟩ := InMemoryWorkflowRepo.latest_iff.mp found
  have slot := (InMemoryWorkflowRepo.mem_candidates.mp member).1
  obtain ⟨e', found', verifies', _⟩ := loaded_at.mp (same _ _ (loaded_at.mpr ⟨e, slot, verifies, rfl⟩))
  cases slot.symm.trans (h _ _ e' found' verifies'.1)
  refine loaded_latest.mpr ⟨e, InMemoryWorkflowRepo.latest_iff.mpr
    ⟨InMemoryWorkflowRepo.mem_candidates.mpr ⟨found', verifies'.1⟩, fun e'' inside => ?_⟩, verifies, rfl⟩
  obtain ⟨there, approved⟩ := InMemoryWorkflowRepo.mem_candidates.mp inside
  exact most e'' (InMemoryWorkflowRepo.mem_candidates.mpr ⟨h _ _ e'' there approved, approved⟩)

/-- What a call leaves of the repository. -/
def WorkflowCall.after (p : Platform) (signer : Signer) (r : InMemoryWorkflowRepo) (c : WorkflowCall) :
    InMemoryWorkflowRepo := (c.run inMemoryWorkflowRepo p signer r).1

/-- An author's submission takes a free slot. -/
def WorkflowCall.Harmless (p : Platform) (signer : Signer) (r : InMemoryWorkflowRepo) : WorkflowCall → Prop
  | .submit d (some who) => scopeWorkflowAuthor ∈ who.scopes → Free p signer r d
  | _ => True

/-- The call is made by an asserted principal without the scope. -/
def Lacks (scope : String) (principal : Option Principal) : Prop := ∃ who, principal = some who ∧ scope ∉ who.scopes

/-- Without the approve scope a call leaves the repository alone or submits as an author. -/
theorem WorkflowCall.after_cases (p : Platform) (signer : Signer) (r : InMemoryWorkflowRepo) {c : WorkflowCall}
    (lacks : Lacks scopeWorkflowApprove c.principal) :
    (c.after p signer r = r ∧ c.Harmless p signer r) ∨ ∃ d who, c = .submit d (some who) ∧
      scopeWorkflowAuthor ∈ who.scopes ∧ c.after p signer r = r.put { definition := d } := by
  obtain ⟨who, is, missing⟩ := lacks
  have refused : ∃ e, checkScope p.unicode (some who) scopeWorkflowApprove = .error e := by
    cases allowed : checkScope p.unicode (some who) scopeWorkflowApprove with
    | error e => exact ⟨e, rfl⟩
    | ok _ => exact absurd ((checkScope_some _ _ _).mp allowed) missing
  obtain ⟨e, refused⟩ := refused
  cases c with
  | submit d principal =>
      obtain rfl : principal = some who := is
      cases allowed : checkScope p.unicode (some who) scopeWorkflowAuthor with
      | error e =>
          have out : scopeWorkflowAuthor ∉ who.scopes := by
            intro held
            rw [(checkScope_some _ _ _).mpr held] at allowed
            cases allowed
          exact .inl ⟨by simp only [after, run, WorkflowStore.submit, allowed], fun held => absurd held out⟩
      | ok _ =>
          refine .inr ⟨d, who, rfl, (checkScope_some _ _ _).mp allowed, ?_⟩
          simp only [after, run, WorkflowStore.submit, allowed]
          rfl
  | approve env name version principal =>
      obtain rfl : principal = some who := is
      refine .inl ⟨?_, trivial⟩
      simp only [after, run, WorkflowStore.approve, refused]
      rfl
  | revoke env name version principal =>
      obtain rfl : principal = some who := is
      refine .inl ⟨?_, trivial⟩
      simp only [after, run, WorkflowStore.revoke, refused]
      rfl

theorem WorkflowCall.shrinks (p : Platform) (signer : Signer) (r : InMemoryWorkflowRepo) {c : WorkflowCall}
    (lacks : Lacks scopeWorkflowApprove c.principal) : Shrinks r (c.after p signer r) := by
  rcases WorkflowCall.after_cases p signer r lacks with ⟨same, _⟩ | ⟨d, who, _, _, same⟩
  · rw [same]
    exact fun _ _ _ found _ => found
  · rw [same]
    intro name version e found approved
    rw [InMemoryWorkflowRepo.get_put] at found
    split at found
    · cases found
      have same : "pending" = "approved" := approved
      exact absurd same (by decide)
    · exact found

/-- One call changes nothing that is loaded exactly where it is harmless. -/
theorem WorkflowCall.same_iff (p : Platform) (signer : Signer) (r : InMemoryWorkflowRepo) {c : WorkflowCall}
    (lacks : Lacks scopeWorkflowApprove c.principal) :
    (∀ name version, loaded p signer (c.after p signer r) name version = loaded p signer r name version) ↔
      c.Harmless p signer r := by
  rcases WorkflowCall.after_cases p signer r lacks with ⟨same, harmless⟩ | ⟨d, who, rfl, author, same⟩
  · rw [same]
    exact ⟨fun _ => harmless, fun _ _ _ => rfl⟩
  · rw [same, submitted_same_iff]
    exact ⟨fun free _ => free, fun free => free author⟩

/-- Every call is harmless where it is made. -/
def AllHarmless (p : Platform) (signer : Signer) : InMemoryWorkflowRepo → List WorkflowCall → Prop
  | _, [] => True
  | r, c :: calls => c.Harmless p signer r ∧ AllHarmless p signer (c.after p signer r) calls

theorem calls_shrink (p : Platform) (signer : Signer) (r : InMemoryWorkflowRepo) {calls : List WorkflowCall}
    (lack : ∀ c ∈ calls, Lacks scopeWorkflowApprove c.principal) :
    Shrinks r (calls.foldl (WorkflowCall.after p signer) r) := by
  induction calls generalizing r with
  | nil => exact fun _ _ _ found _ => found
  | cons c calls ih =>
      exact (WorkflowCall.shrinks p signer r (lack c List.mem_cons_self)).trans
        (ih _ fun c' inside => lack c' (List.mem_cons_of_mem _ inside))

/-- What is loaded is the same in the end exactly where every call is harmless. -/
theorem calls_same_iff (p : Platform) (signer : Signer) (r : InMemoryWorkflowRepo) {calls : List WorkflowCall}
    (lack : ∀ c ∈ calls, Lacks scopeWorkflowApprove c.principal) :
    (∀ name version, loaded p signer (calls.foldl (WorkflowCall.after p signer) r) name version =
      loaded p signer r name version) ↔ AllHarmless p signer r calls := by
  induction calls generalizing r with
  | nil => exact ⟨fun _ => trivial, fun _ _ _ => rfl⟩
  | cons c calls ih =>
      have here := lack c List.mem_cons_self
      have rest := fun c' inside => lack c' (List.mem_cons_of_mem _ inside)
      have step := WorkflowCall.same_iff p signer r here
      have later := ih (c.after p signer r) rest
      constructor
      · intro same
        have first := WorkflowCall.shrinks p signer r here
        have final := calls_shrink p signer (c.after p signer r) rest
        -- what is the same in the end was never lost, and nothing new can appear
        have kept : ∀ name v d, loaded p signer r name (some v) = some d →
            loaded p signer (c.after p signer r) name (some v) = some d := by
          intro name v d before
          exact final.at ((same name (some v)).trans before)
        have mid : ∀ name version, loaded p signer (c.after p signer r) name version =
            loaded p signer r name version := by
          intro name version
          refine Option.ext fun d => ?_
          cases version with
          | some v => exact ⟨first.at, kept name v d⟩
          | none =>
              refine ⟨fun after => ?_, first.latest (kept name)⟩
              rw [← same name none]
              refine final.latest (fun v d' found => ?_) after
              rw [List.foldl_cons] at same
              rw [same name (some v)]
              exact first.at found
        refine ⟨step.mp mid, later.mp fun name version => ?_⟩
        rw [mid]
        exact same name version
      · rintro ⟨harmless, others⟩ name version
        rw [List.foldl_cons, later.mpr others, step.mpr harmless]

end workflows
section registry

variable {p : Platform} {signer : Signer}

/-- The slot an author's submission takes holds nothing that is trusted. -/
def RegistryCall.Harmless (p : Platform) (signer : Signer) (r : InMemoryRegistryRepo) : RegistryCall → Prop
  | .submit _ m (some who) => scopeRegistryAuthor ∈ who.scopes →
      ∀ e, r.get m.id = some e → ¬ (e.status = .approved ∧ e.trusted p signer = true)
  | _ => True

/-- Without the approve scope a call leaves the repository alone or submits as an author. -/
theorem RegistryCall.after_cases (p : Platform) (signer : Signer) (r : InMemoryRegistryRepo) {c : RegistryCall}
    (lacks : Lacks scopeRegistryApprove c.principal) :
    (c.after p signer r = r ∧ c.Harmless p signer r) ∨ ∃ env m who, c = .submit env m (some who) ∧
      scopeRegistryAuthor ∈ who.scopes ∧ c.after p signer r = r.put { manifest := m } := by
  obtain ⟨who, is, missing⟩ := lacks
  have refused : ∃ e, checkScope p.unicode (some who) scopeRegistryApprove = .error e := by
    cases allowed : checkScope p.unicode (some who) scopeRegistryApprove with
    | error e => exact ⟨e, rfl⟩
    | ok _ => exact absurd ((checkScope_some _ _ _).mp allowed) missing
  obtain ⟨e, refused⟩ := refused
  cases c with
  | submit env m principal =>
      obtain rfl : principal = some who := is
      cases allowed : checkScope p.unicode (some who) scopeRegistryAuthor with
      | error e =>
          have out : scopeRegistryAuthor ∉ who.scopes := by
            intro held
            rw [(checkScope_some _ _ _).mpr held] at allowed
            cases allowed
          exact .inl ⟨by simp only [after, run, RegistryStore.submit, allowed], fun held => absurd held out⟩
      | ok _ =>
          refine .inr ⟨env, m, who, rfl, (checkScope_some _ _ _).mp allowed, ?_⟩
          simp only [after, run, RegistryStore.submit, allowed]
  | approve env entryId principal =>
      obtain rfl : principal = some who := is
      refine .inl ⟨?_, trivial⟩
      simp only [after, run, RegistryStore.approve, refused]
      rfl
  | revoke env entryId principal =>
      obtain rfl : principal = some who := is
      refine .inl ⟨?_, trivial⟩
      simp only [after, run, RegistryStore.revoke, refused]
      rfl

/-- After a submission the manifests of the other ids are left. -/
theorem mem_manifests_submitted {r : InMemoryRegistryRepo} {m m' : AgentManifest} :
    m' ∈ manifests p signer (r.put { manifest := m }) ↔ m' ∈ manifests p signer r ∧ m.id ≠ m'.id := by
  rw [mem_manifests, mem_manifests]
  simp only [InMemoryRegistryRepo.get_put]
  by_cases here : m.id = m'.id
  · simp only [here, if_true]
    constructor
    · rintro ⟨e, same, _, approved, _⟩
      cases Option.some.inj same
      cases approved
    · rintro ⟨_, other⟩
      exact absurd rfl other
  · simp only [here, if_false]
    exact ⟨fun old => ⟨old, here⟩, fun old => old.1⟩

theorem RegistryCall.shrinks (p : Platform) (signer : Signer) (r : InMemoryRegistryRepo) {c : RegistryCall}
    (lacks : Lacks scopeRegistryApprove c.principal) :
    ∀ m, m ∈ manifests p signer (c.after p signer r) → m ∈ manifests p signer r := by
  rcases RegistryCall.after_cases p signer r lacks with ⟨same, _⟩ | ⟨env, m, who, _, _, same⟩
  · rw [same]
    exact fun _ member => member
  · rw [same]
    exact fun _ member => (mem_manifests_submitted.mp member).1

/-- One call changes nothing that is trusted exactly where it is harmless. -/
theorem RegistryCall.same_iff (p : Platform) (signer : Signer) (r : InMemoryRegistryRepo) {c : RegistryCall}
    (lacks : Lacks scopeRegistryApprove c.principal) :
    (∀ m, m ∈ manifests p signer (c.after p signer r) ↔ m ∈ manifests p signer r) ↔ c.Harmless p signer r := by
  rcases RegistryCall.after_cases p signer r lacks with ⟨same, harmless⟩ | ⟨env, m, who, rfl, author, same⟩
  · rw [same]
    exact ⟨fun _ => harmless, fun _ _ => Iff.rfl⟩
  · rw [same]
    simp only [mem_manifests_submitted]
    constructor
    · rintro kept _ e slot ⟨approved, trusted⟩
      have mine : e.manifest.id = m.id := (r.keyed _ (Dict.mem_of_get slot)).symm
      have before : e.manifest ∈ manifests p signer r :=
        mem_manifests.mpr ⟨e, mine.symm ▸ slot, rfl, approved, trusted⟩
      exact ((kept e.manifest).mpr before).2 mine.symm
    · intro free m'
      refine ⟨fun both => both.1, fun member => ⟨member, fun here => ?_⟩⟩
      obtain ⟨e, slot, _, trusted⟩ := mem_manifests.mp member
      exact free author e (here.symm ▸ slot) trusted

/-- Every call is harmless where it is made. -/
def AllHarmlessEntries (p : Platform) (signer : Signer) : InMemoryRegistryRepo → List RegistryCall → Prop
  | _, [] => True
  | r, c :: calls => c.Harmless p signer r ∧ AllHarmlessEntries p signer (c.after p signer r) calls

theorem entries_shrink (p : Platform) (signer : Signer) (r : InMemoryRegistryRepo) {calls : List RegistryCall}
    (lack : ∀ c ∈ calls, Lacks scopeRegistryApprove c.principal) :
    ∀ m, m ∈ manifests p signer (calls.foldl (RegistryCall.after p signer) r) → m ∈ manifests p signer r := by
  induction calls generalizing r with
  | nil => exact fun _ member => member
  | cons c calls ih =>
      exact fun m member => RegistryCall.shrinks p signer r (lack c List.mem_cons_self) m
        (ih _ (fun c' inside => lack c' (List.mem_cons_of_mem _ inside)) m member)

/-- The trusted manifests are the same in the end exactly where every call is harmless. -/
theorem entries_same_iff (p : Platform) (signer : Signer) (r : InMemoryRegistryRepo) {calls : List RegistryCall}
    (lack : ∀ c ∈ calls, Lacks scopeRegistryApprove c.principal) :
    (∀ m, m ∈ manifests p signer (calls.foldl (RegistryCall.after p signer) r) ↔ m ∈ manifests p signer r) ↔
      AllHarmlessEntries p signer r calls := by
  induction calls generalizing r with
  | nil => exact ⟨fun _ => trivial, fun _ _ => Iff.rfl⟩
  | cons c calls ih =>
      have here := lack c List.mem_cons_self
      have rest := fun c' inside => lack c' (List.mem_cons_of_mem _ inside)
      have step := RegistryCall.same_iff p signer r here
      have later := ih (c.after p signer r) rest
      constructor
      · intro same
        have mid : ∀ m, m ∈ manifests p signer (c.after p signer r) ↔ m ∈ manifests p signer r := fun m =>
          ⟨RegistryCall.shrinks p signer r here m, fun before => entries_shrink p signer _ rest m ((same m).mpr before)⟩
        exact ⟨step.mp mid, later.mp fun m => (same m).trans (mid m).symm⟩
      · rintro ⟨harmless, others⟩ m
        exact (later.mpr others m).trans (step.mpr harmless m)

end registry

/-- Callers without the approve scope leave everything that is loaded, and everything that is
trusted, as it was exactly where no author's submission takes the slot of it. -/
theorem approvers_only (p : Platform) (signer : Signer) :
    (∀ (r : InMemoryWorkflowRepo) (calls : List WorkflowCall),
        (∀ c ∈ calls, Lacks scopeWorkflowApprove c.principal) →
        ((∀ name version, loaded p signer (calls.foldl (WorkflowCall.after p signer) r) name version =
          loaded p signer r name version) ↔ AllHarmless p signer r calls)) ∧
      ∀ (r : InMemoryRegistryRepo) (calls : List RegistryCall),
        (∀ c ∈ calls, Lacks scopeRegistryApprove c.principal) →
        ((∀ m, m ∈ manifests p signer (calls.foldl (RegistryCall.after p signer) r) ↔ m ∈ manifests p signer r) ↔
          AllHarmlessEntries p signer r calls) :=
  ⟨fun r _ lack => calls_same_iff p signer r lack, fun r _ lack => entries_same_iff p signer r lack⟩

namespace Sample

def author : Principal := { id := "author", scopes := [scopeWorkflowAuthor, scopeRegistryAuthor] }

def vaultEntry : WorkflowEntry where
  definition := bare
  status := "approved"
  signature := vaultRow.signature
  kid := some "default"
  approvedAt := some ""

def fresh : AgentManifest where
  id := "agent"
  kind := .l2Agent
  name := "agent"
  version := "1"
  endpoint := ""

def noEntries : InMemoryRegistryRepo := .empty

end Sample

open Sample in
/-- An author who submits to empty stores changes nothing that is loaded or trusted. -/
theorem approvers_only_empty :
    (∀ name version, loaded sealing vaultSigner
        (WorkflowCall.after sealing vaultSigner .empty (.submit bare (some author))) name version =
      loaded sealing vaultSigner .empty name version) ∧
      ∀ m, m ∈ manifests sealing vaultSigner
          (RegistryCall.after sealing vaultSigner noEntries (.submit {} fresh (some author))) ↔
        m ∈ manifests sealing vaultSigner noEntries := by
  have both := approvers_only sealing vaultSigner
  constructor
  · refine (both.1 .empty [.submit bare (some author)] ?_).mpr ⟨fun _ _ none => ?_, trivial⟩
    · simp only [List.forall_mem_singleton]
      exact ⟨author, rfl, by decide⟩
    · cases none
  · refine (both.2 noEntries [.submit {} fresh (some author)] ?_).mpr ⟨fun _ _ none => ?_, trivial⟩
    · simp only [List.forall_mem_singleton]
      exact ⟨author, rfl, by decide⟩
    · cases none

open Sample in
/-- An author submits the approved workflow once more, and it is loaded no longer. -/
theorem author_unloads : ¬ ∀ (p : Platform) (signer : Signer),
    (∀ (r : InMemoryWorkflowRepo) (calls : List WorkflowCall),
        (∀ c ∈ calls, Lacks scopeWorkflowApprove c.principal) → ∀ name version,
        loaded p signer (calls.foldl (WorkflowCall.after p signer) r) name version = loaded p signer r name version) ∧
      ∀ (r : InMemoryRegistryRepo) (calls : List RegistryCall),
        (∀ c ∈ calls, Lacks scopeRegistryApprove c.principal) →
        ∀ m, m ∈ manifests p signer (calls.foldl (RegistryCall.after p signer) r) ↔ m ∈ manifests p signer r := by
  intro unchanged
  have lack : ∀ c ∈ [WorkflowCall.submit bare (some author)], Lacks scopeWorkflowApprove c.principal := by
    simp only [List.forall_mem_singleton]
    exact ⟨author, rfl, by decide⟩
  have same := (unchanged sealing vaultSigner).1 (InMemoryWorkflowRepo.empty.put vaultEntry) _ lack
  obtain ⟨harmless, _⟩ := (calls_same_iff sealing vaultSigner _ lack).mp same
  have free : Free sealing vaultSigner (InMemoryWorkflowRepo.empty.put vaultEntry) bare := harmless (by decide)
  exact (free vaultEntry rfl).1 vaultRow_verifies

end Maof
