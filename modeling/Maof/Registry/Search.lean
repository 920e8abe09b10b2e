import Maof.Registry.Lifecycle
import Maof.Registry.Updates

/-!
# Capability search

On approval the text of a manifest is embedded and put into the vector store, a row more at every
approval. A query takes the nearest rows, three times as many as are asked for, and keeps those of
agents that may be used.
-/

namespace Maof

open Data (Dict)

/-- A row of the vector store. -/
structure CapabilityRow (E : Type) where
  content : String
  prov : String
  embedding : E

namespace RegistrySearch

def capabilityText (m : AgentManifest) : String :=
  " ".intercalate ((m.description :: m.capabilities ++ m.acceptedTaskTypes).filter fun part => part ≠ "")

/-- `index`, by an embedder and a vector store either of which may raise. -/
def index {E : Type} (embed : String → Except Exn E) (stored : Except Exn Unit) (m : AgentManifest)
    (rows : List (CapabilityRow E)) : List (CapabilityRow E) × Except Exn Unit :=
  if capabilityText m = "" then (rows, .ok ())
  else match embed (capabilityText m), stored with
    | .error e, _ | .ok _, .error e => (rows, .error e)
    | .ok embedding, .ok () => (rows ++ [{ content := capabilityText m, prov := m.id, embedding }], .ok ())

/-- A manifest that has something to be found by is found once it is indexed. -/
theorem indexed_found {E : Type} {embed : String → Except Exn E} {stored : Except Exn Unit} {m : AgentManifest}
    {rows rows' : List (CapabilityRow E)} (capable : capabilityText m ≠ "")
    (indexed : index embed stored m rows = (rows', .ok ())) :
    ∃ row ∈ rows', row.prov = m.id ∧ row.content = capabilityText m ∧ embed row.content = .ok row.embedding := by
  unfold index at indexed
  rw [if_neg capable] at indexed
  split at indexed
  · cases indexed
  · cases indexed
  · next embedding _ embedded =>
      cases indexed
      exact ⟨_, List.mem_append_right _ (List.mem_singleton_self _), rfl, rfl, embedded⟩

end RegistrySearch

namespace RegistryStore

section through

variable {V : Type} (p : Platform) (signer : Signer)

/-- All that `approve` does before it writes: the entry it read, and what it made of it. -/
def signed (env : RegistryEnv) (entryId : String) (principal : Option Principal) (r : InMemoryRegistryRepo) :
    Except Exn (RegistryEntry × RegistryEntry) := do
  checkScope p.unicode principal scopeRegistryApprove
  let entry ← fetch p entryId r
  certified p env entryId entry
  return (entry, ← signEntry p signer env.now entry)

/-- `approve` over a repository whose write may raise and a search index that has a state. -/
def approveThrough (env : RegistryEnv) (stored : Except Exn Unit) (search : Option (AgentManifest → V → V × Except Exn Unit))
    (entryId : String) (principal : Option Principal) (s : InMemoryRegistryRepo × V) :
    (InMemoryRegistryRepo × V) × Except Exn RegistryEntry :=
  match signed p signer env entryId principal s.1 with
  | .error e => (s, .error e)
  | .ok (_, new) =>
      match stored with
      | .error e => (s, .error e)
      | .ok () =>
          let (v, indexed) := match search with
            | some index => index new.manifest s.2
            | none => (s.2, .ok ())
          ((s.1.put new, v), do
            indexed
            env.emitted
            return new)

end through

variable {p : Platform} {signer : Signer} {env : RegistryEnv} {entryId : String} {principal : Option Principal}

/-- With a write that does not raise, it is the `approve` of the store. -/
theorem approve_through (r : InMemoryRegistryRepo) : approve p signer env entryId principal r =
    let out := approveThrough p signer env (.ok ()) (env.search.map fun index m (_ : Unit) => ((), index m)) entryId principal (r, ())
    (out.1.1, out.2) := by
  have before : (do
      checkScope p.unicode principal scopeRegistryApprove
      let entry ← fetch p entryId r
      certified p env entryId entry
      signEntry p signer env.now entry) = (signed p signer env entryId principal r).map Prod.snd := by
    unfold signed
    cases checkScope p.unicode principal scopeRegistryApprove with
    | error e => rfl
    | ok u =>
        cases fetch p entryId r with
        | error e => rfl
        | ok entry =>
            simp only [bind, Except.bind]
            cases certified p env entryId entry with
            | error e => rfl
            | ok u => cases signEntry p signer env.now entry <;> rfl
  unfold approve approveThrough
  rw [before]
  cases signed p signer env entryId principal r with
  | error e => rfl
  | ok both =>
      simp only [Except.map, indexed]
      cases env.search <;> rfl

theorem signed_ok {r : InMemoryRegistryRepo} {entry new : RegistryEntry}
    (h : signed p signer env entryId principal r = .ok (entry, new)) :
    r.get entryId = some entry ∧ new.manifest = entry.manifest ∧ entry.manifest.id = entryId := by
  obtain ⟨_, _, h⟩ := ok_of_bind h
  obtain ⟨found, fetched, h⟩ := ok_of_bind h
  obtain ⟨_, _, h⟩ := ok_of_bind h
  obtain ⟨made, signs, h⟩ := ok_of_bind h
  cases h
  have there := fetch_ok.mp fetched
  exact ⟨there, RegistryCall.signEntry_manifest signs, (r.keyed _ (Dict.mem_of_get there)).symm⟩

end RegistryStore

/-- `_scopes_granted`: with neither a tenant nor a principal the caller is not engaging the check. -/
def scopesGrantedTo (m : AgentManifest) (tenant : Option TenantContext) (principal : Option Principal) : Bool :=
  m.rbacScopes.isEmpty || (tenant.isNone && principal.isNone) ||
    m.rbacScopes.all fun scope => scope ∈ heldScopes principal tenant

/-- Without a principal the tenant decides, as for routing. -/
theorem scopesGrantedTo_none (m : AgentManifest) (tenant : Option TenantContext) :
    scopesGrantedTo m tenant none = scopesGranted m tenant := by
  cases tenant with
  | none => simp [scopesGrantedTo, scopesGranted]
  | some t =>
      have held : heldScopes none (some t) = tenantScopes t := rfl
      simp only [scopesGrantedTo, scopesGranted, held, Option.isNone_some, Bool.false_and, Bool.or_false]
      cases m.rbacScopes with
      | nil => rfl
      | cons scope rest => rfl

/-- The embedder, and the table of vectors as the database ranks it. -/
structure VectorIndex (E : Type) where
  embed : String → Except Exn E
  distance : E → E → PyFloat
  ranked : List (CapabilityRow E) → E → List (CapabilityRow E)
  whole : ∀ rows embedding, (ranked rows embedding).Perm rows
  nearest : ∀ rows embedding, (ranked rows embedding).Pairwise fun a b =>
    (distance b.embedding embedding).lt (distance a.embedding embedding) = false

variable {E : Type}

def VectorIndex.query (v : VectorIndex E) (rows : List (CapabilityRow E)) (embedding : E) (topK : Nat) :
    List (CapabilityRow E) := (v.ranked rows embedding).take topK

namespace RegistrySearch

/-- The hits that stand for an agent that may be used, until there are enough. -/
def rank (byId : Dict String AgentManifest) (tenant : Option TenantContext) (principal : Option Principal)
    (topK : Nat) : List (CapabilityRow E) → List AgentManifest → List AgentManifest
  | [], ranked => ranked
  | hit :: hits, ranked =>
      match Dict.get byId hit.prov with
      | none => rank byId tenant principal topK hits ranked
      | some m =>
          if scopesGrantedTo m tenant principal then
            if topK ≤ (ranked ++ [m]).length then ranked ++ [m]
            else rank byId tenant principal topK hits (ranked ++ [m])
          else rank byId tenant principal topK hits ranked

end RegistrySearch

/-- The registry with the table its approvals are indexed in. -/
structure Directory (E : Type) where
  repo : InMemoryRegistryRepo := .empty
  rows : List (CapabilityRow E) := []

namespace Directory

variable (p : Platform) (signer : Signer) (v : VectorIndex E)

/-- A call with the search index wired. -/
def call (d : Directory E) : RegistryCall → Directory E
  | .submit env manifest who => { d with repo := (RegistryStore.submit p env manifest who d.repo).1 }
  | .approve env entryId who =>
      let out := (RegistryStore.approveThrough p signer env (.ok ()) (some (RegistrySearch.index v.embed (.ok ())))
        entryId who (d.repo, d.rows)).1
      { repo := out.1, rows := out.2 }
  | .revoke env entryId who => { d with repo := (RegistryStore.revoke p env entryId who d.repo).1 }

def of (calls : List RegistryCall) : Directory E := calls.foldl (call p signer v) {}

def byId (d : Directory E) : Dict String AgentManifest :=
  Dict.update [] ((manifests p signer d.repo).map fun m => (m.id, m))

/-- `RegistrySearch.search`. -/
def search (d : Directory E) (query : String) (tenant : Option TenantContext) (principal : Option Principal)
    (topK : Nat) : Except Exn (List AgentManifest) := do
  let embedding ← v.embed query
  let hits := v.query d.rows embedding (topK * 3)
  return RegistrySearch.rank (d.byId p signer) tenant principal topK hits []

/-! ## What a search returns -/

/-- The agent a hit stands for, if it may be used. -/
def usable (d : Directory E) (tenant : Option TenantContext) (principal : Option Principal) (prov : String) :
    Option AgentManifest :=
  (Dict.get (d.byId p signer) prov).filter fun m => scopesGrantedTo m tenant principal

theorem byId_eq (d : Directory E) : d.byId p signer = (manifests p signer d.repo).map fun m => (m.id, m) := by
  have nodup : (Dict.keys ([] ++ (manifests p signer d.repo).map fun m => (m.id, m))).Nodup := by
    rw [List.nil_append, Dict.keys, List.map_map]
    exact RegistryHistory.manifests_nodup p signer d.repo
  exact Dict.update_of_nodup nodup

theorem byId_iff (d : Directory E) (id : String) (m : AgentManifest) :
    Dict.get (d.byId p signer) id = some m ↔ m ∈ manifests p signer d.repo ∧ m.id = id := by
  rw [byId_eq]
  constructor
  · intro found
    obtain ⟨m', member, same⟩ := List.mem_map.mp (Dict.mem_of_get found)
    cases same
    exact ⟨member, rfl⟩
  · rintro ⟨member, rfl⟩
    refine Dict.get_of_mem ?_ (List.mem_map_of_mem member)
    rw [Dict.keys, List.map_map]
    exact RegistryHistory.manifests_nodup p signer d.repo

theorem usable_iff (d : Directory E) (tenant : Option TenantContext) (principal : Option Principal) (prov : String)
    (m : AgentManifest) : d.usable p signer tenant principal prov = some m ↔
      (m ∈ manifests p signer d.repo ∧ scopesGrantedTo m tenant principal = true) ∧ m.id = prov := by
  rw [usable, Option.filter_eq_some_iff, byId_iff]
  tauto

/-- The loop keeps the first of the usable hits. -/
theorem rank_eq (d : Directory E) (tenant : Option TenantContext) (principal : Option Principal) {topK : Nat}
    (hits : List (CapabilityRow E)) {kept : List AgentManifest} (room : kept.length < topK) :
    RegistrySearch.rank (d.byId p signer) tenant principal topK hits kept =
      kept ++ (hits.filterMap fun hit => d.usable p signer tenant principal hit.prov).take (topK - kept.length) := by
  induction hits generalizing kept with
  | nil => simp [RegistrySearch.rank]
  | cons hit hits ih =>
      simp only [RegistrySearch.rank, List.filterMap_cons, usable]
      cases Dict.get (d.byId p signer) hit.prov with
      | none => exact ih room
      | some m =>
          by_cases granted : scopesGrantedTo m tenant principal = true
          · obtain ⟨more, enough⟩ : ∃ more, topK - kept.length = more + 1 := ⟨topK - kept.length - 1, by omega⟩
            simp only [granted, if_true, Option.filter_some, enough, List.take_succ_cons]
            split
            · next full =>
                have last : more = 0 := by
                  rw [List.length_append, List.length_singleton] at full
                  omega
                rw [last, List.take_zero]
            · next free =>
                have next : (kept ++ [m]).length < topK := Nat.lt_of_not_le free
                have left : topK - (kept ++ [m]).length = more := by
                  rw [List.length_append, List.length_singleton]
                  omega
                rw [ih next, left, List.append_assoc]
                rfl
          · simp only [granted, Option.filter_some]
            exact ih room

/-- The rows a search looks at. -/
def window (d : Directory E) (embedding : E) (topK : Nat) : List (CapabilityRow E) :=
  v.query d.rows embedding (topK * 3)

/-- A row of an agent that may be used. -/
def live (d : Directory E) (tenant : Option TenantContext) (principal : Option Principal) (row : CapabilityRow E) : Bool :=
  (d.usable p signer tenant principal row.prov).isSome

theorem search_eq (d : Directory E) {query : String} {embedding : E} (embeds : v.embed query = .ok embedding)
    (tenant : Option TenantContext) (principal : Option Principal) {topK : Nat} (asked : 1 ≤ topK) :
    d.search p signer v query tenant principal topK = .ok (((d.window v embedding topK).filterMap fun row =>
      d.usable p signer tenant principal row.prov).take topK) := by
  rw [search, embeds]
  refine congrArg Except.ok ?_
  rw [rank_eq p signer d tenant principal _ (show ([] : List AgentManifest).length < topK from asked)]
  rfl

theorem usable_ids (d : Directory E) (tenant : Option TenantContext) (principal : Option Principal)
    (rows : List (CapabilityRow E)) :
    (rows.filterMap fun row => d.usable p signer tenant principal row.prov).map AgentManifest.id =
      (rows.filter (d.live p signer tenant principal)).map CapabilityRow.prov := by
  induction rows with
  | nil => rfl
  | cons row rows ih =>
      cases found : d.usable p signer tenant principal row.prov with
      | none =>
          have dead : d.live p signer tenant principal row = false := by rw [live, found]; rfl
          simp only [List.filterMap_cons, found, List.filter_cons, dead, Bool.false_eq_true, if_false, ih]
      | some m =>
          have alive : d.live p signer tenant principal row = true := by rw [live, found]; rfl
          have same : m.id = row.prov := ((usable_iff p signer d tenant principal row.prov m).mp found).2
          simp only [List.filterMap_cons, found, List.filter_cons, alive, if_true, List.map_cons, ih, same]

/-- The agents that may be used and have a text to be found by. -/
def described (d : Directory E) (tenant : Option TenantContext) (principal : Option Principal) : List AgentManifest :=
  (manifests p signer d.repo).filter fun m => scopesGrantedTo m tenant principal && RegistrySearch.capabilityText m ≠ ""

/-- Distinct usable agents, as many as were asked for if there are that many. -/
structure Found (d : Directory E) (tenant : Option TenantContext) (principal : Option Principal) (topK : Nat)
    (result : List AgentManifest) : Prop where
  distinct : result.Nodup
  approved : ∀ m ∈ result, ∃ e, d.repo.get m.id = some e ∧ e.manifest = m ∧ e.status = .approved ∧
    verifyEntry p signer e = .ok ()
  granted : ∀ m ∈ result, scopesGrantedTo m tenant principal = true
  atMost : result.length ≤ topK
  full : topK ≤ (d.described p signer tenant principal).length → result.length = topK

/-- The first usable rows of the window are of different agents, and where there are agents enough the rows of
others leave room for them. -/
structure Uncrowded (d : Directory E) (tenant : Option TenantContext) (principal : Option Principal) (topK : Nat)
    (window : List (CapabilityRow E)) : Prop where
  distinct : (((window.filter (d.live p signer tenant principal)).take topK).map CapabilityRow.prov).Nodup
  room : topK ≤ (d.described p signer tenant principal).length →
    (window.filter fun row => !d.live p signer tenant principal row).length + topK ≤ window.length

theorem trusted_iff (e : RegistryEntry) : e.trusted p signer = true ↔ verifyEntry p signer e = .ok () := by
  rw [RegistryEntry.trusted]
  cases verifyEntry p signer e with
  | ok u => simp
  | error error => simp

theorem found_iff (d : Directory E) (tenant : Option TenantContext) (principal : Option Principal) (topK : Nat)
    (window : List (CapabilityRow E)) :
    d.Found p signer tenant principal topK
        ((window.filterMap fun row => d.usable p signer tenant principal row.prov).take topK) ↔
      d.Uncrowded p signer tenant principal topK window := by
  have ids := usable_ids p signer d tenant principal window
  have sizes := congrArg List.length ids
  have parts := List.length_eq_length_filter_add (l := window) (d.live p signer tenant principal)
  simp only [List.length_map] at sizes
  generalize found : (window.filterMap fun row => d.usable p signer tenant principal row.prov) = agents at ids sizes
  have usable : ∀ m ∈ agents, m ∈ manifests p signer d.repo ∧ scopesGrantedTo m tenant principal = true := by
    intro m member
    rw [← found] at member
    obtain ⟨row, -, same⟩ := List.mem_filterMap.mp member
    exact ((usable_iff p signer d tenant principal row.prov m).mp same).1
  have taken : ∀ m ∈ agents.take topK, m ∈ manifests p signer d.repo ∧ scopesGrantedTo m tenant principal = true :=
    fun m member => usable m (List.mem_of_mem_take member)
  have named : (agents.take topK).Nodup ↔
      (((window.filter (d.live p signer tenant principal)).take topK).map CapabilityRow.prov).Nodup := by
    rw [List.map_take, ← ids, ← List.map_take]
    refine ⟨fun distinct => ?_, List.Nodup.of_map _⟩
    refine (List.nodup_map_iff_inj_on distinct).mpr fun m member m' member' same => ?_
    exact List.inj_on_of_nodup_map (RegistryHistory.manifests_nodup p signer d.repo) (taken m member).1
      (taken m' member').1 same
  have enough : (agents.take topK).length = topK ↔
      (window.filter fun row => !d.live p signer tenant principal row).length + topK ≤ window.length := by
    rw [List.length_take, sizes]
    omega
  constructor
  · intro holds
    exact ⟨named.mp holds.distinct, fun many => enough.mp (holds.full many)⟩
  · intro clear
    refine ⟨named.mpr clear.distinct, ?_, fun m member => (taken m member).2, List.length_take_le _ _, ?_⟩
    · intro m member
      obtain ⟨e, found, same, approved, trusted⟩ := mem_manifests.mp (taken m member).1
      exact ⟨e, found, same, approved, (trusted_iff p signer e).mp trusted⟩
    · exact fun many => enough.mpr (clear.room many)

/-! ## What calls leave in the table -/

/-- The id an approval is for. -/
def approves : RegistryCall → Option String
  | .approve _ entryId _ => some entryId
  | _ => none

def provs (d : Directory E) : List String := d.rows.map CapabilityRow.prov

/-- What an approval does once it gets to sign. -/
theorem approve_call (d : Directory E) (env : RegistryEnv) (entryId : String) (who : Option Principal) :
    d.call p signer v (.approve env entryId who) =
      match RegistryStore.signed p signer env entryId who d.repo with
      | .error _ => d
      | .ok (_, new) =>
          { repo := d.repo.put new, rows := (RegistrySearch.index v.embed (.ok ()) new.manifest d.rows).1 } := by
  simp only [call, RegistryStore.approveThrough]
  cases RegistryStore.signed p signer env entryId who d.repo with
  | error e => rfl
  | ok both => rfl

theorem index_rows (m : AgentManifest) (rows : List (CapabilityRow E)) :
    (RegistrySearch.index v.embed (.ok ()) m rows).1 = rows ∨
      ∃ row : CapabilityRow E, row.prov = m.id ∧ (RegistrySearch.index v.embed (.ok ()) m rows).1 = rows ++ [row] := by
  unfold RegistrySearch.index
  split
  · exact .inl rfl
  · cases v.embed (RegistrySearch.capabilityText m) with
    | error e => exact .inl rfl
    | ok embedding => exact .inr ⟨_, rfl, rfl⟩

/-- A call adds a row at most, of the agent it approves. -/
theorem call_provs (d : Directory E) (c : RegistryCall) :
    (d.call p signer v c).provs = d.provs ∨ ∃ id, approves c = some id ∧ (d.call p signer v c).provs = d.provs ++ [id] := by
  cases c with
  | submit env manifest who => exact .inl rfl
  | revoke env entryId who => exact .inl rfl
  | approve env entryId who =>
      rw [approve_call]
      cases signs : RegistryStore.signed p signer env entryId who d.repo with
      | error e => exact .inl rfl
      | ok both =>
          obtain ⟨-, same, named⟩ := RegistryStore.signed_ok signs
          rcases index_rows v both.2.manifest d.rows with kept | ⟨row, own, added⟩
          · exact .inl (by simp only [provs, kept])
          · refine .inr ⟨entryId, rfl, ?_⟩
            have id : row.prov = entryId := own.trans ((congrArg AgentManifest.id same).trans named)
            simp only [provs, added, List.map_append, List.map_cons, List.map_nil, id]

theorem of_append (calls : List RegistryCall) (c : RegistryCall) :
    of p signer v (calls ++ [c]) = (of p signer v calls).call p signer v c := by
  rw [of, List.foldl_append]
  rfl

/-- The rows are of approvals, in their order. -/
theorem provs_sublist (calls : List RegistryCall) : (of p signer v calls).provs.Sublist (calls.filterMap approves) := by
  induction calls using List.reverseRecOn with
  | nil => exact List.Sublist.refl _
  | append_singleton calls c ih =>
      rw [of_append, List.filterMap_append]
      rcases call_provs p signer v (of p signer v calls) c with same | ⟨id, approved, added⟩
      · rw [same]
        exact ih.trans (List.sublist_append_left _ _)
      · have last : [c].filterMap approves = [id] := by
          rw [List.filterMap_cons_some approved]
          rfl
        rw [added, last]
        exact ih.append (List.Sublist.refl _)

/-- Every approved agent that has a text has a row. -/
def Listed (d : Directory E) : Prop :=
  ∀ id e, d.repo.get id = some e → e.status = .approved → RegistrySearch.capabilityText e.manifest ≠ "" → id ∈ d.provs

theorem provs_grow (d : Directory E) (c : RegistryCall) {id : String} (member : id ∈ d.provs) :
    id ∈ (d.call p signer v c).provs := by
  rcases call_provs p signer v d c with same | ⟨_, -, added⟩
  · rwa [same]
  · rw [added]
    exact List.mem_append_left _ member

/-- An entry put without approval leaves the listed ones listed. -/
theorem Listed.put {d : Directory E} (listed : d.Listed) {entry : RegistryEntry} (unapproved : entry.status ≠ .approved) :
    Listed { d with repo := d.repo.put entry } := by
  intro id e found approved described
  rw [InMemoryRegistryRepo.get_put] at found
  split at found
  · cases found
    exact absurd approved unapproved
  · exact listed id e found approved described

theorem Listed.call {d : Directory E} (listed : d.Listed) (embeds : ∀ text, ∃ embedding, v.embed text = .ok embedding)
    (c : RegistryCall) : (d.call p signer v c).Listed := by
  cases c with
  | submit env manifest who =>
      change Listed { d with repo := (RegistryStore.submit p env manifest who d.repo).1 }
      rw [RegistryStore.submit]
      split
      · exact listed
      · refine listed.put fun pending => ?_
        cases pending
  | revoke env entryId who =>
      change Listed { d with repo := (RegistryStore.revoke p env entryId who d.repo).1 }
      rw [RegistryStore.revoke]
      split
      · exact listed
      · refine listed.put fun pending => ?_
        cases pending
  | approve env entryId who =>
      have grows := fun id => @provs_grow _ p signer v d (.approve env entryId who) id
      rw [approve_call] at grows ⊢
      cases signs : RegistryStore.signed p signer env entryId who d.repo with
      | error error => exact listed
      | ok both =>
          rw [signs] at grows
          intro id e found approved described
          simp only [InMemoryRegistryRepo.get_put] at found
          split at found
          · next own =>
              cases found
              obtain ⟨embedding, embedded⟩ := embeds (RegistrySearch.capabilityText both.2.manifest)
              have indexed : RegistrySearch.index v.embed (.ok ()) both.2.manifest d.rows =
                  ((RegistrySearch.index v.embed (.ok ()) both.2.manifest d.rows).1, .ok ()) := by
                unfold RegistrySearch.index
                rw [if_neg described, embedded]
              obtain ⟨row, stored, named, -⟩ := RegistrySearch.indexed_found described indexed
              exact List.mem_map.mpr ⟨row, stored, named.trans own⟩
          · exact grows id (listed id e found approved described)

theorem listed_of (embeds : ∀ text, ∃ embedding, v.embed text = .ok embedding) (calls : List RegistryCall) :
    (of p signer v calls).Listed := by
  induction calls using List.reverseRecOn with
  | nil =>
      intro id e found
      cases found
  | append_singleton calls c ih =>
      rw [of_append]
      exact ih.call p signer v embeds c

/-- Where every agent with a text has a row there are as many usable rows as such agents. -/
theorem described_le (d : Directory E) (listed : d.Listed) (tenant : Option TenantContext) (principal : Option Principal) :
    (d.described p signer tenant principal).length ≤
      ((d.rows).filter (d.live p signer tenant principal)).length := by
  have nodup : ((d.described p signer tenant principal).map AgentManifest.id).Nodup :=
    (RegistryHistory.manifests_nodup p signer d.repo).sublist (List.filter_sublist.map _)
  have inside : (d.described p signer tenant principal).map AgentManifest.id ⊆
      ((d.rows).filter (d.live p signer tenant principal)).map CapabilityRow.prov := by
    intro id member
    obtain ⟨m, described, rfl⟩ := List.mem_map.mp member
    obtain ⟨approved, may⟩ := List.mem_filter.mp described
    obtain ⟨granted, text⟩ := Bool.and_eq_true_iff.mp may
    obtain ⟨e, found, rfl, status, -⟩ := mem_manifests.mp approved
    obtain ⟨row, stored, own⟩ := List.mem_map.mp (listed e.manifest.id e found status (of_decide_eq_true text))
    have alive : d.live p signer tenant principal row = true := by
      have usable := (usable_iff p signer d tenant principal row.prov e.manifest).mpr ⟨⟨approved, granted⟩, own.symm⟩
      rw [live, usable]
      rfl
    exact List.mem_map.mpr ⟨row, List.mem_filter.mpr ⟨stored, alive⟩, own⟩
  have sizes := (List.subperm_of_subset nodup inside).length_le
  rwa [List.length_map, List.length_map] at sizes

theorem room_of (calls : List RegistryCall) (embedding : E)
    (embeds : ∀ text, ∃ embedding, v.embed text = .ok embedding) {tenant : Option TenantContext}
    {principal : Option Principal} {topK : Nat}
    (few : (((of p signer v calls).rows).filter fun row =>
      !(of p signer v calls).live p signer tenant principal row).length ≤ topK * 2)
    (many : topK ≤ ((of p signer v calls).described p signer tenant principal).length) :
    (((of p signer v calls).window v embedding topK).filter fun row =>
        !(of p signer v calls).live p signer tenant principal row).length + topK ≤
      ((of p signer v calls).window v embedding topK).length := by
  have rows := v.whole (of p signer v calls).rows embedding
  have found := described_le p signer _ (listed_of p signer v embeds calls) tenant principal
  generalize of p signer v calls = d at few many rows found ⊢
  have usable := (rows.filter (d.live p signer tenant principal)).length_eq
  have others := (rows.filter fun row => !d.live p signer tenant principal row).length_eq
  have parts := List.length_eq_length_filter_add (l := v.ranked d.rows embedding)
    (d.live p signer tenant principal)
  have fewer := (List.Sublist.filter (fun row => !d.live p signer tenant principal row)
    (List.take_sublist (topK * 3) (v.ranked d.rows embedding))).length_le
  simp only [window, VectorIndex.query, List.length_take]
  omega

/-- A search finds what it should exactly when the query can be embedded and the rows it looks at are not crowded. -/
theorem finds_iff (d : Directory E) (query : String) (tenant : Option TenantContext) (principal : Option Principal) {topK : Nat} (asked : 1 ≤ topK) :
    (∃ result, d.search p signer v query tenant principal topK = .ok result ∧ d.Found p signer tenant principal topK result) ↔
      ∃ embedding, v.embed query = .ok embedding ∧ d.Uncrowded p signer tenant principal topK (d.window v embedding topK) := by
  constructor
  · rintro ⟨result, answered, found⟩
    obtain ⟨embedding, embeds, -⟩ := ok_of_bind answered
    rw [search_eq p signer v d embeds tenant principal asked] at answered
    cases answered
    exact ⟨embedding, embeds, (found_iff p signer d tenant principal topK _).mp found⟩
  · rintro ⟨embedding, embeds, clear⟩
    exact ⟨_, search_eq p signer v d embeds tenant principal asked,
      (found_iff p signer d tenant principal topK _).mpr clear⟩

end Directory

/-- After any calls, a search finds what it should exactly when the query can be embedded and the rows it looks
at are not crowded by repeated rows of one agent or by rows of agents that may not be used. -/
theorem search_exact_iff (p : Platform) (signer : Signer) (v : VectorIndex E) (calls : List RegistryCall) (query : String)
    (tenant : Option TenantContext) (principal : Option Principal) (topK : Nat) (asked : 1 ≤ topK) :
    let d := Directory.of p signer v calls
    (∃ result, d.search p signer v query tenant principal topK = .ok result ∧
        d.Found p signer tenant principal topK result) ↔
      ∃ embedding, v.embed query = .ok embedding ∧
        d.Uncrowded p signer tenant principal topK (d.window v embedding topK) :=
  Directory.finds_iff p signer v (Directory.of p signer v calls) query tenant principal asked

namespace Sample

/-- Everything is equally near. -/
def flatIndex : VectorIndex Unit where
  embed _ := .ok ()
  distance _ _ := .zero
  ranked rows _ := rows
  whole _ _ := .refl _
  nearest _ _ := List.pairwise_of_forall fun _ _ => rfl

def bookkeeper : AgentManifest where
  id := "agent"
  kind := .l2Agent
  name := "agent"
  version := "1"
  endpoint := ""
  description := "keeps the books"

def hiring : List RegistryCall := [.submit {} bookkeeper none, .approve {} "agent" none]

/-- The agent is approved once more. -/
def renewing : List RegistryCall := hiring ++ [.approve {} "agent" none]

end Sample

open Sample in
theorem search_hiring : 1 ≤ 2 ∧ ∃ result,
    (Directory.of registrar registrarSigner flatIndex hiring).search registrar registrarSigner flatIndex "books" none none 2 =
        .ok result ∧
      (Directory.of registrar registrarSigner flatIndex hiring).Found registrar registrarSigner none none 2 result :=
  ⟨by decide, (search_exact_iff registrar registrarSigner flatIndex hiring "books" none none 2 (by decide)).mpr
    ⟨(), rfl, by decide +kernel, fun many => absurd many (by decide +kernel)⟩⟩

open Sample in
/-- An agent approved twice is found twice. -/
theorem renewed_doubled : ¬ ∀ (E : Type) (p : Platform) (signer : Signer) (v : VectorIndex E) (calls : List RegistryCall)
    (query : String) (tenant : Option TenantContext) (principal : Option Principal) (topK : Nat), 1 ≤ topK →
    (∃ embedding, v.embed query = .ok embedding) →
    ∃ result, (Directory.of p signer v calls).search p signer v query tenant principal topK = .ok result ∧
      (Directory.of p signer v calls).Found p signer tenant principal topK result := by
  intro holds
  have found := holds Unit registrar registrarSigner flatIndex renewing "books" none none 2 (by decide) ⟨(), rfl⟩
  obtain ⟨⟨⟩, -, clear⟩ :=
    (Directory.finds_iff registrar registrarSigner flatIndex (.of registrar registrarSigner flatIndex renewing) "books" none none
      (by decide)).mp found
  exact absurd clear.distinct (by decide +kernel)

/-- Where no agent is approved twice and no more than twice as many rows as are asked for are of agents that may
not be used, every search finds what it should. -/
theorem search_quiet (p : Platform) (signer : Signer) (v : VectorIndex E)
    (embeds : ∀ text, ∃ embedding, v.embed text = .ok embedding) (calls : List RegistryCall) (once : (calls.filterMap Directory.approves).Nodup) (query : String)
    (tenant : Option TenantContext) (principal : Option Principal) (topK : Nat) (asked : 1 ≤ topK) :
    let d := Directory.of p signer v calls
    ((d.rows).filter fun row => !d.live p signer tenant principal row).length ≤ topK * 2 →
      ∃ result, d.search p signer v query tenant principal topK = .ok result ∧
        d.Found p signer tenant principal topK result := by
  intro d few
  obtain ⟨embedding, embedded⟩ := embeds query
  refine (Directory.finds_iff p signer v d query tenant principal asked).mpr ⟨embedding, embedded, ?_, fun many => ?_⟩
  · have nodup : ((v.ranked d.rows embedding).map CapabilityRow.prov).Nodup := by
      have table : (d.rows.map CapabilityRow.prov).Nodup := once.sublist (Directory.provs_sublist p signer v calls)
      exact ((v.whole d.rows embedding).map CapabilityRow.prov).nodup_iff.mpr table
    exact nodup.sublist (((List.take_sublist _ _).trans (List.filter_sublist.trans (List.take_sublist _ _))).map _)
  · exact Directory.room_of p signer v calls embedding embeds few many

end Maof
