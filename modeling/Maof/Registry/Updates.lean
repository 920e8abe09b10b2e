import Maof.Effects.Rewrite
import Maof.Registry.Lifecycle
import Maof.Workflows.Approvers
import Mathlib.Data.List.Permutation

/-!
# Concurrent trust operations

Submissions, approvals and revocations as calls interleaved at their awaits, over the
registry and over either workflow repository. What an approval or a revocation leaves
is decided by the manifest, or the definition, it has read.
-/

namespace Maof

open Data (Dict)
open Effects

/-! ## The registry -/

/-- Equal but for the time of the approval and the bytes of the signature. -/
def RegistryEntry.Alike (e e' : RegistryEntry) : Prop :=
  e.manifest = e'.manifest ∧ e.status = e'.status ∧ e.signature.isSome = e'.signature.isSome ∧ e.kid = e'.kid

def registryCells : Cells InMemoryRegistryRepo String RegistryEntry AgentManifest Exn where
  get r entryId := .ok (r.get entryId)
  put r entry := .ok (r.put entry)
  core := RegistryEntry.manifest
  Alike := RegistryEntry.Alike

/-- A call, cut at its awaits. -/
def RegistryCall.update (p : Platform) (signer : Signer) : RegistryCall → Update String RegistryEntry Exn
  | .submit env manifest principal =>
      .write (checkScope p.unicode principal scopeRegistryAuthor) { manifest } fun _ => env.emitted
  | .approve env entryId principal =>
      .rewrite (checkScope p.unicode principal scopeRegistryApprove) entryId
        (.keyError ("registry entry not found: " ++ Template.reprText p.unicode (.str entryId)))
        (fun entry => do
          RegistryStore.certified p env entryId entry
          signEntry p signer env.now entry)
        fun signed => do
          RegistryStore.indexed env signed.manifest
          env.emitted
  | .revoke env entryId principal =>
      .rewrite (checkScope p.unicode principal scopeRegistryApprove) entryId
        (.keyError ("registry entry not found: " ++ Template.reprText p.unicode (.str entryId)))
        (fun entry => .ok { entry with status := .revoked, signature := none, kid := none })
        fun _ => env.emitted

/-! ## The workflows -/

def WorkflowEntry.Alike (e e' : WorkflowEntry) : Prop :=
  e.definition = e'.definition ∧ e.status = e'.status ∧ e.signature.isSome = e'.signature.isSome ∧ e.kid = e'.kid

def workflowCells {R : Type} (repo : WorkflowRepo R) : Cells R (String × Int) WorkflowEntry WorkflowDefinition Exn where
  get r key := repo.get r key.1 key.2
  put := repo.put
  core := WorkflowEntry.definition
  Alike := WorkflowEntry.Alike

def WorkflowCall.update (p : Platform) (signer : Signer) : WorkflowCall → Update (String × Int) WorkflowEntry Exn
  | .submit definition principal =>
      .write (checkScope p.unicode principal scopeWorkflowAuthor) { definition } fun _ => .ok ()
  | .approve env name version principal =>
      .rewrite (checkScope p.unicode principal scopeWorkflowApprove) (name, version)
        (.keyError ("workflow not found: " ++ name ++ " v" ++ toString version))
        (WorkflowStore.sign p signer env.now) fun _ => env.emitted
  | .revoke env name version principal =>
      .rewrite (checkScope p.unicode principal scopeWorkflowApprove) (name, version)
        (.keyError ("workflow not found: " ++ name ++ " v" ++ toString version))
        (fun entry => .ok { entry with status := "revoked", signature := none, kid := none }) fun _ => env.emitted

/-- The database takes a text for a time whatever the time, and an entry whatever its times and
the bytes of its signature. -/
structure WorkflowColumns.Indifferent (db : WorkflowColumns) : Prop where
  timestamptz : ∀ text, ∃ time, db.timestamptz text = .ok time
  refuses : ∀ e e', e.Alike e' → db.refuses e = none → db.refuses e' = none

/-! ## A call alone is the call of the store -/

section alone

variable (p : Platform) (signer : Signer)

theorem registry_fetch (entryId : String) (r : InMemoryRegistryRepo) : registryCells.fetch entryId
    (.keyError ("registry entry not found: " ++ Template.reprText p.unicode (.str entryId))) r =
      RegistryStore.fetch p entryId r := by
  simp only [Cells.fetch, registryCells, RegistryStore.fetch, bind, Except.bind]
  cases r.get entryId <;> rfl

theorem registry_keep (report : RegistryEntry → Except Exn Unit) (entry : RegistryEntry) (r : InMemoryRegistryRepo) :
    registryCells.keep report entry r = (r.put entry, (report entry).map fun _ => entry) := rfl

theorem RegistryCall.apply_update (c : RegistryCall) (r : InMemoryRegistryRepo) :
    registryCells.apply (c.update p signer) r = c.run p signer r := by
  cases c with
  | submit env manifest principal =>
      simp only [update, run, Cells.apply, RegistryStore.submit, registry_keep]
      cases checkScope p.unicode principal scopeRegistryAuthor <;> rfl
  | approve env entryId principal =>
      simp only [update, run, Cells.apply, RegistryStore.approve, registry_fetch, registry_keep, bind, Except.bind]
      cases checkScope p.unicode principal scopeRegistryApprove with
      | error x => rfl
      | ok _ =>
          cases RegistryStore.fetch p entryId r with
          | error x => rfl
          | ok entry =>
              cases certified : RegistryStore.certified p env entryId entry with
              | error x => simp [certified]
              | ok _ =>
                  cases signed : signEntry p signer env.now entry with
                  | error x => simp [certified, signed]
                  | ok entry' =>
                      simp only [certified, signed]
                      cases RegistryStore.indexed env entry'.manifest <;> rfl
  | revoke env entryId principal =>
      simp only [update, run, Cells.apply, RegistryStore.revoke, registry_fetch, registry_keep, bind, Except.bind]
      cases checkScope p.unicode principal scopeRegistryApprove with
      | error x => rfl
      | ok _ => cases RegistryStore.fetch p entryId r <;> rfl

theorem workflow_keep {R : Type} (repo : WorkflowRepo R) (emitted : Except Exn Unit) (entry : WorkflowEntry) (r : R) :
    (workflowCells repo).keep (fun _ => emitted) entry r = WorkflowStore.keep repo emitted entry r := by
  simp only [Cells.keep, workflowCells, WorkflowStore.keep]
  cases repo.put r entry <;> rfl

theorem workflow_fetch {R : Type} (repo : WorkflowRepo R) (name : String) (version : Int) (r : R) :
    (workflowCells repo).fetch (name, version) (.keyError ("workflow not found: " ++ name ++ " v" ++ toString version)) r =
      WorkflowStore.fetch repo name version r := by
  simp only [Cells.fetch, workflowCells, WorkflowStore.fetch, bind, Except.bind]
  cases repo.get r name version with
  | error x => rfl
  | ok found => cases found <;> rfl

theorem WorkflowCall.apply_update {R : Type} (repo : WorkflowRepo R) (c : WorkflowCall) (r : R) :
    (workflowCells repo).apply (c.update p signer) r = c.run repo p signer r := by
  cases c with
  | submit definition principal =>
      simp only [update, run, Cells.apply, WorkflowStore.submit, workflow_keep]
      cases checkScope p.unicode principal scopeWorkflowAuthor <;> rfl
  | approve env name version principal =>
      simp only [update, run, Cells.apply, WorkflowStore.approve, workflow_fetch, workflow_keep, bind, Except.bind]
      cases checkScope p.unicode principal scopeWorkflowApprove with
      | error x => rfl
      | ok _ =>
          cases WorkflowStore.fetch repo name version r with
          | error x => rfl
          | ok entry => cases signed : WorkflowStore.sign p signer env.now entry <;> simp [signed]
  | revoke env name version principal =>
      simp only [update, run, Cells.apply, WorkflowStore.revoke, workflow_fetch, workflow_keep, bind, Except.bind]
      cases checkScope p.unicode principal scopeWorkflowApprove with
      | error x => rfl
      | ok _ => cases WorkflowStore.fetch repo name version r <;> rfl

end alone

/-! ## Repositories that answer alike -/

section laws

variable {p : Platform} {signer : Signer}

theorem RegistryEntry.Alike.refl (e : RegistryEntry) : e.Alike e := ⟨rfl, rfl, rfl, rfl⟩

theorem WorkflowEntry.Alike.refl (e : WorkflowEntry) : e.Alike e := ⟨rfl, rfl, rfl, rfl⟩

theorem registry_lawful : registryCells.Lawful where
  refl := RegistryEntry.Alike.refl
  core _ _ alike := alike.1
  put r r' e e' r₁ same alike put := by
    cases put
    refine ⟨r'.put e', rfl, fun entryId => ?_⟩
    change registryCells.SameAnswer (.ok ((r.put e).get entryId)) (.ok ((r'.put e').get entryId))
    rw [InMemoryRegistryRepo.get_put, InMemoryRegistryRepo.get_put, ← alike.1]
    split
    · exact alike
    · exact same entryId

theorem memory_lawful : (workflowCells inMemoryWorkflowRepo).Lawful where
  refl := WorkflowEntry.Alike.refl
  core _ _ alike := alike.1
  put r r' e e' r₁ same alike put := by
    cases put
    refine ⟨r'.put e', rfl, fun key => ?_⟩
    change (workflowCells inMemoryWorkflowRepo).SameAnswer (.ok ((r.put e).get key.1 key.2)) (.ok ((r'.put e').get key.1 key.2))
    rw [InMemoryWorkflowRepo.get_put, InMemoryWorkflowRepo.get_put, ← alike.1]
    split
    · exact alike
    · exact same key

theorem stamp_ok {db : WorkflowColumns} (indifferent : db.Indifferent) (text : Option String) :
    ∃ time, PostgresWorkflowRepo.stamp db text = .ok time := by
  cases text with
  | none => exact ⟨none, rfl⟩
  | some text =>
      obtain ⟨time, stamped⟩ := indifferent.timestamptz text
      exact ⟨some time, by simp [PostgresWorkflowRepo.stamp, stamped]⟩

/-- The row of an entry with the time that was stored. -/
def PostgresWorkflowRepo.row (db : WorkflowColumns) (e : WorkflowEntry) (time : Option String) : WorkflowRow where
  definition := db.jsonb e.definition
  status := e.status
  signature := e.signature
  kid := e.kid
  approvedAt := time

theorem postgres_put {db : WorkflowColumns} {rows rows' : WorkflowTable} {e : WorkflowEntry} :
    PostgresWorkflowRepo.put db rows e = .ok rows' ↔ db.refuses e = none ∧ ∃ time,
      PostgresWorkflowRepo.stamp db e.approvedAt = .ok time ∧
        rows' = Dict.set rows (e.definition.name, e.definition.version) (PostgresWorkflowRepo.row db e time) := by
  constructor
  · intro put
    unfold PostgresWorkflowRepo.put at put
    obtain ⟨time, stamped, put⟩ := ok_of_bind put
    split at put
    · cases put
    · next takes =>
        cases put
        exact ⟨takes, time, stamped, rfl⟩
  · rintro ⟨takes, time, stamped, rfl⟩
    simp [PostgresWorkflowRepo.put, takes, stamped, bind, Except.bind, pure, Except.pure, PostgresWorkflowRepo.row]

theorem postgres_get_set (rows : WorkflowTable) (key : String × Int) (row : WorkflowRow) (name : String) (version : Int) :
    PostgresWorkflowRepo.get (Dict.set rows key row) name version =
      if key = (name, version) then some <$> PostgresWorkflowRepo.toEntry row
      else PostgresWorkflowRepo.get rows name version := by
  unfold PostgresWorkflowRepo.get
  rw [Dict.get_set]
  by_cases same : key = (name, version)
  · rw [if_pos same, if_pos same]
  · rw [if_neg same, if_neg same]

/-- Rows of entries that are alike are read alike. -/
theorem postgres_rows {db : WorkflowColumns} {e e' : WorkflowEntry} (alike : e.Alike e') (time time' : Option String) :
    (workflowCells (postgresWorkflowRepo db)).SameAnswer
      (some <$> PostgresWorkflowRepo.toEntry (PostgresWorkflowRepo.row db e time))
      (some <$> PostgresWorkflowRepo.toEntry (PostgresWorkflowRepo.row db e' time')) := by
  obtain ⟨definition, status, signed, kid⟩ := alike
  unfold PostgresWorkflowRepo.toEntry PostgresWorkflowRepo.row
  rw [definition]
  cases db.jsonb e'.definition with
  | error x => rfl
  | ok d => exact ⟨rfl, status, signed, kid⟩

theorem postgres_lawful {db : WorkflowColumns} (indifferent : db.Indifferent) :
    (workflowCells (postgresWorkflowRepo db)).Lawful where
  refl := WorkflowEntry.Alike.refl
  core _ _ alike := alike.1
  put r r' e e' r₁ same alike put := by
    obtain ⟨takes, time, _, rfl⟩ := postgres_put.mp put
    obtain ⟨time', stamped⟩ := stamp_ok indifferent e'.approvedAt
    refine ⟨Dict.set r' (e'.definition.name, e'.definition.version) (PostgresWorkflowRepo.row db e' time'), ?_, ?_⟩
    · exact postgres_put.mpr ⟨indifferent.refuses e e' alike takes, time', stamped, rfl⟩
    intro key
    change (workflowCells (postgresWorkflowRepo db)).SameAnswer (PostgresWorkflowRepo.get _ _ _) (PostgresWorkflowRepo.get _ _ _)
    rw [postgres_get_set, postgres_get_set, ← alike.1]
    split
    · exact postgres_rows alike time time'
    · exact same key

/-! ## What a call makes of what it read -/

/-- A signer that signs one text signs any. -/
theorem sign_any {body sig : String} (signed : signer.sign p body = .ok sig) (body' : String) :
    ∃ sig', signer.sign p body' = .ok sig' := by
  unfold Signer.sign at signed ⊢
  split at signed
  · next secret _ => exact ⟨p.hmacSha256 secret body', rfl⟩
  · cases signed

theorem signEntry_alike {now : String} {e e' x : RegistryEntry} (core : e.manifest = e'.manifest)
    (signed : signEntry p signer now e = .ok x) : ∃ x', signEntry p signer now e' = .ok x' ∧ x.Alike x' := by
  unfold signEntry at signed ⊢
  obtain ⟨sig, made, signed⟩ := ok_of_bind signed
  obtain ⟨sig', made'⟩ := sign_any made (canonicalBytes e'.manifest .approved (some now))
  cases signed
  rw [made']
  exact ⟨_, rfl, core, rfl, rfl, rfl⟩

theorem workflow_sign_alike {now : String} {e e' x : WorkflowEntry} (core : e.definition = e'.definition)
    (signed : WorkflowStore.sign p signer now e = .ok x) :
    ∃ x', WorkflowStore.sign p signer now e' = .ok x' ∧ x.Alike x' := by
  unfold WorkflowStore.sign at signed ⊢
  obtain ⟨sig, made, signed⟩ := ok_of_bind signed
  obtain ⟨sig', made'⟩ := sign_any made (canonicalWorkflowBytes e'.definition "approved" (some now))
  cases signed
  rw [made']
  exact ⟨_, rfl, core, rfl, rfl, rfl⟩

theorem registry_uniform (p : Platform) (signer : Signer) (c : RegistryCall) :
    (c.update p signer).Uniform registryCells := by
  cases c with
  | submit env manifest principal => trivial
  | approve env entryId principal =>
      constructor
      · intro e e' x core changed
        obtain ⟨_, certified, signed⟩ := ok_of_bind changed
        have same : e'.manifest = e.manifest := core.symm
        have certified' : RegistryStore.certified p env entryId e' = .ok () := by
          rw [← certified]
          unfold RegistryStore.certified
          rw [same]
        obtain ⟨x', signed', alike⟩ := signEntry_alike core signed
        refine ⟨x', ?_, alike⟩
        simp only [certified', signed', bind, Except.bind]
      · intro x x' alike reported
        have same : x'.manifest = x.manifest := alike.1.symm
        change (do RegistryStore.indexed env x'.manifest; env.emitted) = _
        rw [same]
        exact reported
  | revoke env entryId principal =>
      constructor
      · rintro e e' _ core ⟨⟩
        exact ⟨_, rfl, core, rfl, rfl, rfl⟩
      · exact fun _ _ _ reported => reported

theorem workflow_uniform (p : Platform) (signer : Signer) {R : Type} (repo : WorkflowRepo R) (c : WorkflowCall) :
    (c.update p signer).Uniform (workflowCells repo) := by
  cases c with
  | submit definition principal => trivial
  | approve env name version principal =>
      exact ⟨fun _ _ _ core signed => workflow_sign_alike core signed, fun _ _ _ reported => reported⟩
  | revoke env name version principal =>
      refine ⟨?_, fun _ _ _ reported => reported⟩
      rintro e e' _ core ⟨⟩
      exact ⟨_, rfl, core, rfl, rfl, rfl⟩

/-- Where every approval and revocation finds at its write the manifest, or the definition, it had
read, and no call fails after its write, what concurrent calls leave is what those that returned
leave one after the other. -/
theorem trust_updates (p : Platform) (signer : Signer) :
    Linearizable registryCells (RegistryCall.update p signer) (RegistryCall.run p signer)
      (Calls.Timely registryCells (RegistryCall.update p signer)) ∧
    Linearizable (workflowCells inMemoryWorkflowRepo) (WorkflowCall.update p signer)
      (WorkflowCall.run inMemoryWorkflowRepo p signer)
      (Calls.Timely (workflowCells inMemoryWorkflowRepo) (WorkflowCall.update p signer)) ∧
    ∀ db : WorkflowColumns, db.Indifferent → Linearizable (workflowCells (postgresWorkflowRepo db))
      (WorkflowCall.update p signer) (WorkflowCall.run (postgresWorkflowRepo db) p signer)
      (Calls.Timely (workflowCells (postgresWorkflowRepo db)) (WorkflowCall.update p signer)) := by
  have registry : (fun c => registryCells.apply (RegistryCall.update p signer c)) = RegistryCall.run p signer := by
    funext c r
    exact c.apply_update p signer r
  have workflow : ∀ {R : Type} (repo : WorkflowRepo R),
      (fun c => (workflowCells repo).apply (WorkflowCall.update p signer c)) = WorkflowCall.run repo p signer := by
    intro R repo
    funext c r
    exact c.apply_update p signer repo r
  refine ⟨?_, ?_, fun db indifferent => ?_⟩
  · rw [← registry]
    exact linearizable registry_lawful (registry_uniform p signer)
  · rw [← workflow]
    exact linearizable memory_lawful (workflow_uniform p signer _)
  · rw [← workflow]
    exact linearizable (postgres_lawful indifferent) (workflow_uniform p signer _)

end laws

namespace Sample

def drafted : WorkflowDefinition := { name := "w", version := 1 }

def redrafted : WorkflowDefinition := { drafted with description := "after the review" }

/-- The draft has been submitted. -/
def draftRows : WorkflowTable := Dict.set [] ("w", 1) (PostgresWorkflowRepo.row {} { definition := drafted } none)

def signing : WorkflowCall := .approve {} "w" 1 none

def redrafting : WorkflowCall := .submit redrafted none

def signedDraft : WorkflowEntry where
  definition := drafted
  status := "approved"
  signature := some "6d6163"
  kid := some "default"
  approvedAt := some ""

abbrev TableCalls := Calls WorkflowTable WorkflowCall WorkflowEntry

/-- The new draft is submitted between the read and the write of the approval of the old one. -/
theorem overlap : ∃ c : TableCalls,
    Interleaving (workflowCells (postgresWorkflowRepo {})) (WorkflowCall.update registrar registrarSigner)
      (fun _ _ => True) draftRows c ∧
    c.calls 0 = some (signing, .returned) ∧ c.calls 1 = some (redrafting, .returned) ∧
    (∀ i, c.calls (i + 2) = none) ∧
    PostgresWorkflowRepo.get c.repo "w" 1 = .ok (some signedDraft) := by
  have idle : Interleaving (workflowCells (postgresWorkflowRepo {})) (WorkflowCall.update registrar registrarSigner)
    (fun _ _ => True) draftRows _ := .start
  have approving := idle.begin 0 signing rfl
  have read := approving.step 0 trivial rfl
  have submitting := read.begin 1 redrafting rfl
  have submitted := submitting.step 1 trivial rfl
  have reported := submitted.step 1 trivial rfl
  have signed := reported.step 0 trivial rfl
  have written := signed.step 0 trivial rfl
  have returned := written.step 0 trivial rfl
  exact ⟨_, returned, rfl, rfl, fun _ => rfl, rfl⟩

end Sample

open Sample in
/-- The new draft is lost: neither order of the two calls leaves the old one approved. -/
theorem draft_lost : ¬ Linearizable (workflowCells (postgresWorkflowRepo {}))
    (WorkflowCall.update registrar registrarSigner) (WorkflowCall.run (postgresWorkflowRepo {}) registrar registrarSigner)
    fun _ _ => True := by
  intro linear
  obtain ⟨c, ran, first, second, others, final⟩ := overlap
  have ends : ∀ i q phase, c.calls i = some (q, phase) →
      phase = .returned ∧ (i = 0 ∧ q = signing ∨ i = 1 ∧ q = redrafting) := by
    intro i q phase found
    match i with
    | 0 =>
        cases first.symm.trans found
        exact ⟨rfl, .inl ⟨rfl, rfl⟩⟩
    | 1 =>
        cases second.symm.trans found
        exact ⟨rfl, .inr ⟨rfl, rfl⟩⟩
    | i + 2 => cases (others i).symm.trans found
  have ended : c.Over := by
    intro i q phase found
    rw [(ends i q phase found).1]
    rfl
  obtain ⟨order, r, nodup, members, runs, same⟩ := linear draftRows c ran ended
  have both : order.Perm [(0, signing), (1, redrafting)] := by
    refine (List.perm_ext_iff_of_nodup (List.Nodup.of_map _ nodup) ?_).mpr fun call => ?_
    · exact List.Nodup.of_map Prod.fst (by decide)
    · rw [members call.1 call.2]
      constructor
      · intro found
        obtain ⟨_, ⟨index, which⟩ | ⟨index, which⟩⟩ := ends call.1 call.2 .returned found
        · exact List.mem_cons.mpr (.inl (Prod.ext index which))
        · exact List.mem_cons_of_mem _ (List.mem_singleton.mpr (Prod.ext index which))
      · intro member
        rcases List.mem_cons.mp member with rfl | later
        · exact first
        · cases List.mem_singleton.mp later
          exact second
  have answer := same ("w", 1)
  change (workflowCells (postgresWorkflowRepo {})).SameAnswer (PostgresWorkflowRepo.get c.repo "w" 1)
    (PostgresWorkflowRepo.get r "w" 1) at answer
  rw [final, runs.left] at answer
  rcases List.perm_pair.mp both with rfl | rfl
  · have left : signedDraft.Alike { definition := redrafted } := answer
    exact absurd left.2.1 (by decide)
  · have left : signedDraft.Alike { signedDraft with definition := redrafted } := answer
    exact absurd (congrArg WorkflowDefinition.description left.1) (by decide)

end Maof
