import Maof.Registry.Store

/-!
# The registry's lifecycle

A history keeps, beside the repository, the calls that succeeded. What the
loader trusts is read off that log: one manifest for every id whose last entry
approves it, the one last submitted, and it passed the certification of that
approval.
-/

namespace Maof

open Data (Dict)

namespace RegistryCall

/-- The id a call is about. -/
def entryId : RegistryCall → String
  | .submit _ manifest _ => manifest.id
  | .approve _ entryId _ | .revoke _ entryId _ => entryId

def env : RegistryCall → RegistryEnv
  | .submit env _ _ | .approve env _ _ | .revoke env _ _ => env

def isApprove : RegistryCall → Bool
  | .approve _ _ _ => true
  | _ => false

/-- No search index is wired, and the sink does not raise. -/
def Plain (c : RegistryCall) : Prop := c.env.search = none ∧ c.env.emitted = .ok ()

/-- The manifest a submission gives an id. -/
def submission (entryId : String) : RegistryCall → Option AgentManifest
  | .submit _ manifest _ => if manifest.id = entryId then some manifest else none
  | _ => none

end RegistryCall

/-- A repository with the calls that succeeded on it, the latest first. -/
structure RegistryHistory where
  repo : InMemoryRegistryRepo := .empty
  log : List RegistryCall := []

namespace RegistryHistory

variable (p : Platform) (signer : Signer)

def call (h : RegistryHistory) (c : RegistryCall) : RegistryHistory :=
  match c.run p signer h.repo with
  | (repo, .ok _) => { repo, log := c :: h.log }
  | (repo, .error _) => { repo, log := h.log }

def of (calls : List RegistryCall) : RegistryHistory := calls.foldl (call p signer) {}

def lastCall (h : RegistryHistory) (entryId : String) : Option RegistryCall :=
  h.log.find? fun c => c.entryId = entryId

def lastSubmitted (h : RegistryHistory) (entryId : String) : Option AgentManifest :=
  h.log.findSome? (RegistryCall.submission entryId)

/-- The certifier passed the manifest, at a rate no lower than its threshold. -/
def Certifies (p : Platform) (certify : AgentManifest → Except Exn (Bool × PyNumber)) (manifest : AgentManifest)
    (certification : Dict String Json) : Prop :=
  ∃ passRate minRate, certify manifest = .ok (true, passRate) ∧
    p.float (RegistryStore.minPassRate certification) = .ok minRate ∧
    (passRate ≠ .nan → minRate ≠ .nan → (p.value minRate).le passRate = true)

/-- The loader's manifests are the ones the log calls for. -/
structure Mirrored (h : RegistryHistory) : Prop where
  approved : ∀ entryId c, h.lastCall entryId = some c → c.isApprove = true →
    ∃ manifest, h.lastSubmitted entryId = some manifest ∧
      (manifests p signer h.repo).filter (fun m => m.id = entryId) = [manifest]
  others : ∀ entryId, (∀ c, h.lastCall entryId = some c → c.isApprove = false) →
    (manifests p signer h.repo).filter (fun m => m.id = entryId) = []
  certified : ∀ m ∈ manifests p signer h.repo, ∀ c certify certification, h.lastCall m.id = some c →
    c.env.certifier = some certify → m.certification = some certification → Certifies p certify m certification

end RegistryHistory

/-! ## What one call does -/

namespace RegistryStore

variable {p : Platform} {signer : Signer} {env : RegistryEnv}

theorem fetch_ok {entryId : String} {r : InMemoryRegistryRepo} {entry : RegistryEntry} :
    fetch p entryId r = .ok entry ↔ r.get entryId = some entry := by
  unfold fetch
  cases r.get entryId <;> simp

/-- An entry that declares certification is let through only if the wired certifier passed it. -/
theorem certified_ok {entryId : String} {entry : RegistryEntry} (h : certified p env entryId entry = .ok ())
    {certify : AgentManifest → Except Exn (Bool × PyNumber)} (wired : env.certifier = some certify)
    {certification : Dict String Json} (declared : entry.manifest.certification = some certification) :
    RegistryHistory.Certifies p certify entry.manifest certification := by
  simp only [certified, wired, declared] at h
  obtain ⟨⟨passed, passRate⟩, ran, h⟩ := ok_of_bind h
  obtain ⟨minRate, threshold, h⟩ := ok_of_bind h
  simp only at h
  split at h
  · obtain ⟨_, _, h⟩ := ok_of_bind h
    cases h
  · next through =>
      simp only [Bool.or_eq_true, Bool.not_eq_true', not_or, Bool.not_eq_false, Bool.not_eq_true] at through
      obtain ⟨rfl, above⟩ := through
      refine ⟨passRate, minRate, ran, threshold, fun number numeric => PyNumber.le_of_lt_false number ?_ above⟩
      cases minRate with
      | nan => exact absurd rfl numeric
      | inf neg => simp [Platform.value]
      | dec neg coeff exp => simp [Platform.value]

end RegistryStore

/-- What a repository holds of an id, by its last call and the manifest last submitted. -/
inductive Stands (p : Platform) (signer : Signer) (entryId : String) :
    Option RegistryCall → Option AgentManifest → Option RegistryEntry → Prop
  | absent : Stands p signer entryId none none none
  | submitted (env : RegistryEnv) (manifest : AgentManifest) (who : Option Principal) :
      Stands p signer entryId (some (.submit env manifest who)) (some manifest) (some { manifest })
  | approved (env : RegistryEnv) (who : Option Principal) (entry signed : RegistryEntry)
      (certified : RegistryStore.certified p env entryId entry = .ok ())
      (signs : signEntry p signer env.now entry = .ok signed) :
      Stands p signer entryId (some (.approve env entryId who)) (some entry.manifest) (some signed)
  | revoked (env : RegistryEnv) (who : Option Principal) (entry : RegistryEntry) :
      Stands p signer entryId (some (.revoke env entryId who)) (some entry.manifest)
        (some { entry with status := .revoked, signature := none, kid := none })

namespace RegistryCall

variable {p : Platform} {signer : Signer}

/-- A call that succeeded put one entry, of the id it is about. -/
inductive Puts (p : Platform) (signer : Signer) (r : InMemoryRegistryRepo) : RegistryCall → RegistryEntry → Prop
  | submit (env : RegistryEnv) (manifest : AgentManifest) (who : Option Principal) :
      Puts p signer r (.submit env manifest who) { manifest }
  | approve (env : RegistryEnv) (entryId : String) (who : Option Principal) (entry signed : RegistryEntry)
      (found : r.get entryId = some entry) (certified : RegistryStore.certified p env entryId entry = .ok ())
      (signs : signEntry p signer env.now entry = .ok signed) : Puts p signer r (.approve env entryId who) signed
  | revoke (env : RegistryEnv) (entryId : String) (who : Option Principal) (entry : RegistryEntry)
      (found : r.get entryId = some entry) :
      Puts p signer r (.revoke env entryId who) { entry with status := .revoked, signature := none, kid := none }

/-- A plain call puts one entry and succeeds, or raises and leaves the repository alone. -/
theorem run_cases (p : Platform) (signer : Signer) (c : RegistryCall) (plain : c.Plain) (r : InMemoryRegistryRepo) :
    (∃ e, Puts p signer r c e ∧ c.run p signer r = (r.put e, .ok e)) ∨ ∃ error, c.run p signer r = (r, .error error) := by
  obtain ⟨unindexed, quiet⟩ := plain
  cases c with
  | submit env manifest who =>
      simp only [run, RegistryStore.submit]
      cases checkScope p.unicode who scopeRegistryAuthor with
      | error e => exact .inr ⟨e, rfl⟩
      | ok _ =>
          have quiet : env.emitted = .ok () := quiet
          exact .inl ⟨_, .submit env manifest who, by rw [quiet]; rfl⟩
  | approve env entryId who =>
      have quiet : env.emitted = .ok () := quiet
      have unindexed : env.search = none := unindexed
      simp only [run, RegistryStore.approve]
      split
      · exact .inr ⟨_, rfl⟩
      · next signed done =>
          obtain ⟨_, _, done⟩ := ok_of_bind done
          obtain ⟨entry, found, done⟩ := ok_of_bind done
          obtain ⟨_, certified, signs⟩ := ok_of_bind done
          refine .inl ⟨signed, .approve env entryId who entry signed (RegistryStore.fetch_ok.mp found) certified signs, ?_⟩
          simp only [RegistryStore.indexed, unindexed, quiet]
          rfl
  | revoke env entryId who =>
      have quiet : env.emitted = .ok () := quiet
      simp only [run, RegistryStore.revoke]
      split
      · exact .inr ⟨_, rfl⟩
      · next entry done =>
          obtain ⟨_, _, found⟩ := ok_of_bind done
          exact .inl ⟨_, .revoke env entryId who entry (RegistryStore.fetch_ok.mp found), by rw [quiet]; rfl⟩

theorem signEntry_manifest {now : String} {entry signed : RegistryEntry} (h : signEntry p signer now entry = .ok signed) :
    signed.manifest = entry.manifest := by
  obtain ⟨sig, _, made⟩ := ok_of_bind h
  cases made
  rfl

theorem Puts.keyed {r : InMemoryRegistryRepo} {c : RegistryCall} {e : RegistryEntry} (h : Puts p signer r c e) :
    e.manifest.id = c.entryId := by
  cases h with
  | submit env manifest who => rfl
  | approve env entryId who entry signed found certified signs =>
      rw [signEntry_manifest signs]
      exact (r.keyed _ (Dict.mem_of_get found)).symm
  | revoke env entryId who entry found => exact (r.keyed _ (Dict.mem_of_get found)).symm

end RegistryCall

/-- The repository holds of every id what its calls left. -/
def RegistryHistory.Kept (p : Platform) (signer : Signer) (h : RegistryHistory) : Prop :=
  ∀ entryId, Stands p signer entryId (h.lastCall entryId) (h.lastSubmitted entryId) (h.repo.get entryId)

section stands

variable {p : Platform} {signer : Signer}

theorem Stands.submitted_eq {entryId : String} {last : Option RegistryCall} {submitted : Option AgentManifest}
    {e : RegistryEntry} (h : Stands p signer entryId last submitted (some e)) : submitted = some e.manifest := by
  cases h with
  | submitted env manifest who => rfl
  | approved env who entry _ certified signs => rw [RegistryCall.signEntry_manifest signs]
  | revoked env who entry => rfl

/-- What one call that succeeded leaves of the id it is about. -/
theorem RegistryCall.Puts.stands {h : RegistryHistory} (kept : h.Kept p signer) {c : RegistryCall} {e : RegistryEntry}
    (put : RegistryCall.Puts p signer h.repo c e) :
    Stands p signer c.entryId (some c) ((c.submission c.entryId).or (h.lastSubmitted c.entryId)) (some e) := by
  cases put with
  | submit env manifest who =>
      simp only [RegistryCall.submission, RegistryCall.entryId, if_true, Option.some_or]
      exact .submitted env manifest who
  | approve env entryId who entry _ found certified signs =>
      have before := kept entryId
      rw [found] at before
      simp only [RegistryCall.submission, RegistryCall.entryId, Option.none_or, before.submitted_eq]
      exact .approved env who entry e certified signs
  | revoke env entryId who entry found =>
      have before := kept entryId
      rw [found] at before
      simp only [RegistryCall.submission, RegistryCall.entryId, Option.none_or, before.submitted_eq]
      exact .revoked env who entry

end stands

namespace RegistryHistory

open RegistryCall (Puts run_cases signEntry_manifest)

variable {p : Platform} {signer : Signer}

theorem submission_other {c : RegistryCall} {entryId : String} (other : c.entryId ≠ entryId) :
    c.submission entryId = none := by
  cases c with
  | submit env manifest who => exact if_neg other
  | approve env entryId who => rfl
  | revoke env entryId who => rfl

theorem call_kept {h : RegistryHistory} (kept : Kept p signer h) {c : RegistryCall} (plain : c.Plain) :
    Kept p signer (h.call p signer c) := by
  rcases run_cases p signer c plain h.repo with ⟨e, put, ran⟩ | ⟨error, ran⟩
  · intro entryId
    simp only [call, ran, lastCall, lastSubmitted, InMemoryRegistryRepo.get_put, put.keyed, List.find?_cons,
      List.findSome?_cons]
    by_cases here : c.entryId = entryId
    · subst here
      have stands := put.stands kept
      simp only [decide_true, if_true]
      cases given : c.submission c.entryId with
      | none => simpa only [given, Option.none_or, lastSubmitted] using stands
      | some manifest => simpa only [given, Option.some_or] using stands
    · simp only [here, decide_false, if_false, submission_other here]
      exact kept entryId
  · simp only [call, ran]
    exact kept

theorem of_kept {calls : List RegistryCall} (plain : ∀ c ∈ calls, c.Plain) : Kept p signer (of p signer calls) := by
  have run : ∀ h : RegistryHistory, Kept p signer h → Kept p signer (calls.foldl (call p signer) h) := by
    induction calls with
    | nil => exact fun _ kept => kept
    | cons c calls ih =>
        intro h kept
        exact ih (fun c' member => plain c' (List.mem_cons_of_mem _ member)) _
          (call_kept kept (plain c List.mem_cons_self))
  exact run {} fun _ => .absent

/-! ## What the loader reads of it -/

theorem manifests_nodup (p : Platform) (signer : Signer) (r : InMemoryRegistryRepo) :
    ((manifests p signer r).map AgentManifest.id).Nodup := by
  have names : r.values.map (fun e => e.manifest.id) = Dict.keys r.entries := by
    simp only [InMemoryRegistryRepo.values, Dict.keys, List.map_map]
    exact List.map_congr_left fun kv member => (r.keyed kv member).symm
  have whole : (r.values.map fun e => e.manifest.id).Nodup := by
    rw [names]
    exact r.nodup
  rw [manifests, List.map_map]
  exact whole.sublist ((List.filter_sublist.trans List.filter_sublist).map _)

theorem filter_key {α κ : Type} [DecidableEq κ] {key : α → κ} {xs : List α} (nodup : (xs.map key).Nodup) {x : α}
    (member : x ∈ xs) : xs.filter (fun y => key y = key x) = [x] := by
  induction xs with
  | nil => cases member
  | cons y xs ih =>
      obtain ⟨fresh, nodup⟩ := List.nodup_cons.mp nodup
      rcases List.mem_cons.mp member with rfl | later
      · have rest : xs.filter (fun y => key y = key x) = [] := by
          rw [List.filter_eq_nil_iff]
          intro z inside same
          exact fresh (List.mem_map.mpr ⟨z, inside, of_decide_eq_true same⟩)
        simp [rest]
      · have apart : key y ≠ key x := fun same => fresh (List.mem_map.mpr ⟨x, later, same.symm⟩)
        simp [apart, ih nodup later]

/-- What approved an id last signed the manifest last submitted, and certified it. -/
theorem Kept.of_approve {h : RegistryHistory} (kept : h.Kept p signer) {entryId : String} {c : RegistryCall}
    (last : h.lastCall entryId = some c) (approves : c.isApprove = true) :
    ∃ env who entry signed, c = .approve env entryId who ∧ h.lastSubmitted entryId = some entry.manifest ∧
      h.repo.get entryId = some signed ∧ RegistryStore.certified p env entryId entry = .ok () ∧
      signEntry p signer env.now entry = .ok signed := by
  have stands := kept entryId
  rw [last] at stands
  generalize h.lastSubmitted entryId = submitted at stands ⊢
  generalize h.repo.get entryId = held at stands ⊢
  cases stands with
  | submitted env manifest who => cases approves
  | approved env who entry signed certified signs => exact ⟨env, who, entry, signed, rfl, rfl, rfl, certified, signs⟩
  | revoked env who entry => cases approves

/-- The manifest of an id that is trusted was approved by the last call on it. -/
theorem Kept.approves {h : RegistryHistory} (kept : h.Kept p signer) {m : AgentManifest}
    (member : m ∈ manifests p signer h.repo) : ∃ c, h.lastCall m.id = some c ∧ c.isApprove = true := by
  obtain ⟨e, found, rfl, approved, _⟩ := mem_manifests.mp member
  have stands := kept e.manifest.id
  rw [found] at stands
  generalize h.lastCall e.manifest.id = last at stands ⊢
  generalize h.lastSubmitted e.manifest.id = submitted at stands
  cases stands with
  | submitted env manifest who => cases approved
  | approved env who entry signed certified signs => exact ⟨_, rfl, rfl⟩
  | revoked env who entry => cases approved

theorem Kept.mirrored {h : RegistryHistory} (kept : h.Kept p signer) (named : signer.activeKid ≠ "")
    (hex : ∀ secret body, p.hmacSha256 secret body ≠ "") : h.Mirrored p signer where
  approved entryId c last approves := by
    obtain ⟨env, who, entry, signed, rfl, submitted, held, certified, signs⟩ := kept.of_approve last approves
    have same : signed.manifest = entry.manifest := signEntry_manifest signs
    have keyed : signed.manifest.id = entryId := (h.repo.keyed _ (Dict.mem_of_get held)).symm
    subst keyed
    have status : signed.status = .approved := by
      obtain ⟨sig, _, made⟩ := ok_of_bind signs
      cases made
      rfl
    have trusted : signed.trusted p signer = true := by
      simp only [RegistryEntry.trusted, verifyEntry_signEntry signs named hex]
    refine ⟨signed.manifest, same.symm ▸ submitted, filter_key (manifests_nodup p signer h.repo) ?_⟩
    exact mem_manifests.mpr ⟨signed, held, rfl, status, trusted⟩
  others entryId unapproved := by
    rw [List.filter_eq_nil_iff]
    intro m member here
    obtain ⟨c, last, approves⟩ := kept.approves member
    rw [of_decide_eq_true here] at last
    rw [unapproved c last] at approves
    cases approves
  certified m member c certify certification last wired declared := by
    obtain ⟨c', last', approves⟩ := kept.approves member
    cases last.symm.trans last'
    obtain ⟨env, who, entry, signed, rfl, submitted, held, certified, signs⟩ := kept.of_approve last approves
    obtain ⟨e, found, rfl, _, _⟩ := mem_manifests.mp member
    cases held.symm.trans found
    rw [signEntry_manifest signs] at declared ⊢
    exact RegistryStore.certified_ok certified wired declared

end RegistryHistory

/-! ## The lifecycle -/

/-- After every sequence of calls the loader's manifests are those the log calls for, if the
active key has a name; and a call that raises leaves the repository alone. -/
theorem registry_lifecycle (p : Platform) (signer : Signer) (named : signer.activeKid ≠ "")
    (hex : ∀ secret body, p.hmacSha256 secret body ≠ "") :
    (∀ calls : List RegistryCall, (∀ c ∈ calls, c.Plain) →
        (RegistryHistory.of p signer calls).Mirrored p signer) ∧
      ∀ (c : RegistryCall) (r : InMemoryRegistryRepo) (error : Exn), c.Plain →
        (c.run p signer r).2 = .error error → (c.run p signer r).1 = r := by
  constructor
  · intro calls plain
    exact (RegistryHistory.of_kept plain).mirrored named hex
  · intro c r error plain raised
    rcases RegistryCall.run_cases p signer c plain r with ⟨e, _, ran⟩ | ⟨error', ran⟩
    · rw [ran] at raised
      cases raised
    · rw [ran]

namespace Sample

def registrar : Platform where
  unicode := { alnum := fun _ => false, printable := fun _ => true }
  sha256 text := text
  hmacSha256 _ _ := "6d6163"
  nearest x := x
  exact := PyFloat.spelled
  parseRfc3339 _ := none
  later _ _ := .ok ""

theorem registrar_hex (secret body : String) : registrar.hmacSha256 secret body ≠ "" := by
  change "6d6163" ≠ ""
  decide

def registrarSigner : Signer := { keys := [("default", "secret")] }

/-- A signer whose only key has the empty name. -/
def nameless : Signer := { keys := [("", "secret")], activeKid := "" }

def candidate : AgentManifest where
  id := "agent"
  kind := .l2Agent
  name := "agent"
  version := "1"
  endpoint := ""
  certification := some [("min_pass_rate", .float (.dec false 9 (-1)))]

/-- The certifier finds the agent right nine times in ten. -/
def examining : RegistryEnv := { certifier := some fun _ => .ok (true, .rat (9 / 10)) }

def enrolment : List RegistryCall := [.submit {} candidate none, .approve examining "agent" none]

theorem enrolment_plain : ∀ c ∈ enrolment, c.Plain := by
  simp only [enrolment, List.forall_mem_cons, List.not_mem_nil, false_implies, implies_true, and_true]
  exact ⟨⟨rfl, rfl⟩, ⟨rfl, rfl⟩⟩

/-- No certifier is wired. -/
def unexamined : List RegistryCall := [.submit {} candidate none, .approve {} "agent" none]

theorem unexamined_plain : ∀ c ∈ unexamined, c.Plain := by
  simp only [unexamined, List.forall_mem_cons, List.not_mem_nil, false_implies, implies_true, and_true]
  exact ⟨⟨rfl, rfl⟩, ⟨rfl, rfl⟩⟩

end Sample

open Sample in
/-- The agent is submitted and passes its certification. -/
theorem registry_lifecycle_enrolment :
    (RegistryHistory.of registrar registrarSigner enrolment).Mirrored registrar registrarSigner ∧
      (manifests registrar registrarSigner (RegistryHistory.of registrar registrarSigner enrolment).repo).length = 1 :=
  ⟨(registry_lifecycle registrar registrarSigner (by decide) registrar_hex).1 enrolment enrolment_plain,
    by decide +kernel⟩

open Sample in
/-- Under a key without a name what is approved is not trusted. -/
theorem nameless_untrusted : ¬ ∀ (p : Platform) (signer : Signer),
    (Dict.get signer.keys signer.activeKid).isSome = true → (∀ secret body, p.hmacSha256 secret body ≠ "") →
    (∀ calls : List RegistryCall, (∀ c ∈ calls, c.Plain) →
        (RegistryHistory.of p signer calls).Mirrored p signer) ∧
      ∀ (c : RegistryCall) (r : InMemoryRegistryRepo) (error : Exn), c.Plain →
        (c.run p signer r).2 = .error error → (c.run p signer r).1 = r := by
  intro claimed
  have mirrored := (claimed registrar nameless rfl registrar_hex).1 unexamined unexamined_plain
  obtain ⟨manifest, _, trusted⟩ := mirrored.approved "agent" (.approve {} "agent" none) rfl rfl
  have none : (manifests registrar nameless (RegistryHistory.of registrar nameless unexamined).repo).length = 0 := by
    decide +kernel
  rw [List.length_eq_zero_iff.mp none] at trusted
  cases trusted

end Maof
