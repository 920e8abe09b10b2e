import Maof.Data.JsonUnique
import Maof.Workflows.Store

/-!
# Trust against a database writer

A signature binds the definition, its name and version among its fields, and the
trust state; it does not bind the key the row is stored under, and `load` does not
compare the two.
-/

namespace Maof

open Data (Dict)
open JsonText (normal)

/-! ## What a signature binds -/

/-- The signed text determines the definition. -/
theorem canonicalWorkflowBytes_inj {d d' : WorkflowDefinition} {s s' : String} {t t' : Option String}
    (same : canonicalWorkflowBytes d s t = canonicalWorkflowBytes d' s' t') : normal d.dump = normal d'.dump := by
  have read := JsonText.normal_of_canonical (String.ofList_injective same)
  have sorted : ∀ a b c : Json, JsonText.sortFields [("definition", a), ("status", b), ("approved_at", c)] =
      [("approved_at", c), ("definition", a), ("status", b)] := by
    intro a b c
    simp [JsonText.sortFields, List.insertionSort, List.orderedInsert]
  rw [JsonText.normal_obj, JsonText.normal_obj, sorted, sorted] at read
  simp only [List.map_cons, List.map_nil, JsonText.Canon.obj.injEq, List.cons.injEq, Prod.mk.injEq] at read
  exact read.2.1.2

theorem dump_names {d d' : WorkflowDefinition} (same : normal d.dump = normal d'.dump) :
    d.name = d'.name ∧ d.version = d'.version := by
  have sorted : ∀ a b c e : Json,
      JsonText.sortFields [("name", a), ("version", b), ("description", c), ("steps", e)] =
        [("description", c), ("name", a), ("steps", e), ("version", b)] := by
    intro a b c e
    simp [JsonText.sortFields, List.insertionSort, List.orderedInsert]
  unfold WorkflowDefinition.dump at same
  rw [JsonText.normal_obj, JsonText.normal_obj, sorted, sorted] at same
  simp only [List.map_cons, List.map_nil, JsonText.Canon.obj.injEq, List.cons.injEq, Prod.mk.injEq, normal,
    JsonText.Canon.str.injEq, JsonText.Canon.atom.injEq, true_and, and_true] at same
  exact ⟨same.2.1, JsonText.intText_inj same.2.2.2⟩

/-! ## The table and its writers -/

/-- The rows and, as history, what `approve` calls have signed. -/
structure WorkflowVault where
  rows : WorkflowTable := []
  signed : List (WorkflowDefinition × String) := []

namespace WorkflowVault

open WorkflowStore

variable (db : WorkflowColumns) (p : Platform) (signer : Signer)

def call (v : WorkflowVault) (c : WorkflowCall) : WorkflowVault where
  rows := (c.run (postgresWorkflowRepo db) p signer v.rows).1
  signed := v.signed ++ c.signs (postgresWorkflowRepo db) p signer v.rows

/-- Every row that verifies carries a text that was signed. -/
def Unforged (signed : List (WorkflowDefinition × String)) (rows : WorkflowTable) : Prop :=
  ∀ kv ∈ rows, ∀ e, PostgresWorkflowRepo.toEntry kv.2 = .ok e → Verifies p signer e →
    ∃ s ∈ signed, canonicalWorkflowBytes e.definition "approved" e.approvedAt =
      canonicalWorkflowBytes s.1 "approved" (some s.2)

/-- Every row that verifies is stored under the name and version it defines. -/
def Keyed (rows : WorkflowTable) : Prop :=
  ∀ kv ∈ rows, ∀ e, PostgresWorkflowRepo.toEntry kv.2 = .ok e → Verifies p signer e →
    kv.1 = (e.definition.name, e.definition.version)

/-- Calls of the store, and rewrites of the whole table by a writer who cannot sign and
who meets `cond`. -/
inductive Run (cond : WorkflowTable → Prop) : WorkflowVault → Prop
  | start : Run cond {}
  | call {v : WorkflowVault} (c : WorkflowCall) : Run cond v → Run cond (v.call db p signer c)
  | rewrite {v : WorkflowVault} (rows : WorkflowTable) (unforged : Unforged p signer v.signed rows)
      (met : cond rows) : Run cond v → Run cond { v with rows }

variable {db : WorkflowColumns} {p : Platform} {signer : Signer}

/-- What a call writes is one row, under the name and version its entry defines. -/
theorem keep_rows {emitted : Except Exn Unit} {entry : WorkflowEntry} {rows : WorkflowTable}
    {kv : (String × Int) × WorkflowRow}
    (member : kv ∈ (keep (postgresWorkflowRepo db) emitted entry rows).1) :
    kv ∈ rows ∨ (kv.1 = (entry.definition.name, entry.definition.version) ∧
      kv.2.signature = entry.signature ∧ kv.2.kid = entry.kid) := by
  unfold keep at member
  split at member
  · exact .inl member
  · next rows' written =>
      simp only [postgresWorkflowRepo, PostgresWorkflowRepo.put, bind, Except.bind] at written
      split at written
      · cases written
      · next approvedAt _ =>
          cases refused : db.refuses entry with
          | some e => simp only [refused] at written; cases written
          | none =>
              simp only [refused] at written
              cases written
              rcases Dict.mem_set member with rfl | old
              · exact .inr ⟨rfl, rfl, rfl⟩
              · exact .inl old

theorem not_verifies {row : WorkflowRow} (unsigned : row.signature = none) {e : WorkflowEntry}
    (read : PostgresWorkflowRepo.toEntry row = .ok e) : ¬ Verifies p signer e := by
  rintro ⟨_, _, sig, _, _, signed, _⟩
  unfold PostgresWorkflowRepo.toEntry at read
  cases parsed : row.definition with
  | error err => simp only [parsed] at read; cases read
  | ok d =>
      simp only [parsed] at read
      cases read
      simp only [unsigned] at signed
      cases signed

/-- Every row a call leaves was there before, cannot verify, or carries a signature just made. -/
theorem call_rows {v : WorkflowVault} {c : WorkflowCall} {kv : (String × Int) × WorkflowRow}
    (member : kv ∈ (v.call db p signer c).rows) :
    kv ∈ v.rows ∨ kv.2.signature = none ∨
      ∃ d now secret, (d, now) ∈ (v.call db p signer c).signed ∧ kv.1 = (d.name, d.version) ∧
        Dict.get signer.keys signer.activeKid = some secret ∧ kv.2.kid = some signer.activeKid ∧
        kv.2.signature = some (p.hmacSha256 secret (canonicalWorkflowBytes d "approved" (some now))) := by
  cases c with
  | submit definition principal =>
      simp only [call, WorkflowCall.run, submit] at member
      split at member
      · exact .inl member
      · exact (keep_rows member).imp_right fun new => .inl new.2.1
  | revoke env name version principal =>
      simp only [call, WorkflowCall.run, revoke] at member
      split at member
      · exact .inl member
      · exact (keep_rows member).imp_right fun new => .inl new.2.1
  | approve env name version principal =>
      simp only [call, WorkflowCall.run, approve, WorkflowCall.signs] at member ⊢
      split at member
      · exact .inl member
      · next signed made =>
          refine (keep_rows member).imp_right fun new => .inr ?_
          obtain ⟨entry, fetched⟩ : ∃ entry, sign p signer env.now entry = .ok signed := by
            simp only [bind, Except.bind] at made
            split at made
            · cases made
            · split at made
              · cases made
              · exact ⟨_, made⟩
          unfold sign Signer.sign at fetched
          cases held : Dict.get signer.keys signer.activeKid with
          | none => simp only [held] at fetched; cases fetched
          | some secret =>
              simp only [held] at fetched
              cases fetched
              refine ⟨entry.definition, env.now, secret, ?_, new.1, rfl, new.2.2, new.2.1⟩
              exact List.mem_append_right _ (List.mem_singleton_self _)

/-- A code of one text under one key is the code of no other. -/
def Sealed (p : Platform) : Prop :=
  ∀ secret body body', (p.hmacSha256 secret body).toLower = (p.hmacSha256 secret body').toLower → body = body'

/-- A row that carries a signature just made verifies only over the text just signed. -/
theorem verifies_signed (sealed_ : Sealed p) {row : WorkflowRow} {e : WorkflowEntry} {secret text : String}
    (held : Dict.get signer.keys signer.activeKid = some secret) (kid : row.kid = some signer.activeKid)
    (sig : row.signature = some (p.hmacSha256 secret text)) (read : PostgresWorkflowRepo.toEntry row = .ok e)
    (verifies : Verifies p signer e) :
    canonicalWorkflowBytes e.definition "approved" e.approvedAt = text := by
  obtain ⟨_, kid', sig', secret', hasKid, hasSig, _, _, held', same⟩ := verifies
  unfold PostgresWorkflowRepo.toEntry at read
  cases parsed : row.definition with
  | error err => simp only [parsed] at read; cases read
  | ok d =>
      simp only [parsed] at read
      cases read
      cases kid.symm.trans hasKid
      cases held.symm.trans held'
      cases sig.symm.trans hasSig
      exact sealed_ secret _ _ same

theorem Run.unforged (sealed_ : Sealed p) {cond : WorkflowTable → Prop} {v : WorkflowVault}
    (run : Run db p signer cond v) : Unforged p signer v.signed v.rows := by
  induction run with
  | start => exact fun kv member => absurd member List.not_mem_nil
  | rewrite rows unforged _ _ _ => exact unforged
  | call c _ ih =>
      intro kv member e read verifies
      rcases call_rows member with old | unsigned | ⟨d, now, secret, signed, _, held, kid, sig⟩
      · obtain ⟨s, inside, same⟩ := ih kv old e read verifies
        exact ⟨s, List.mem_append_left _ inside, same⟩
      · exact absurd verifies (not_verifies unsigned read)
      · exact ⟨_, signed, verifies_signed sealed_ held kid sig read verifies⟩

theorem Run.keyed (sealed_ : Sealed p) {v : WorkflowVault} (run : Run db p signer (Keyed p signer) v) :
    Keyed p signer v.rows := by
  induction run with
  | start => exact fun kv member => absurd member List.not_mem_nil
  | rewrite rows _ met _ _ => exact met
  | call c _ ih =>
      intro kv member e read verifies
      rcases call_rows member with old | unsigned | ⟨d, now, secret, _, key, held, kid, sig⟩
      · exact ih kv old e read verifies
      · exact absurd verifies (not_verifies unsigned read)
      · have same := verifies_signed sealed_ held kid sig read verifies
        obtain ⟨name, version⟩ := dump_names (canonicalWorkflowBytes_inj same)
        rw [key, name, version]

/-- What `load` returns is the definition of a row that verifies, found by the key. -/
theorem load_rows {rows : WorkflowTable} {name : String} {version : Option Int} {d : WorkflowDefinition}
    (loaded : load (postgresWorkflowRepo db) p signer name version rows = .ok d) :
    ∃ kv ∈ rows, ∃ e, PostgresWorkflowRepo.toEntry kv.2 = .ok e ∧ Verifies p signer e ∧ e.definition = d ∧
      kv.1.1 = name ∧ ∀ n, version = some n → kv.1.2 = n := by
  have entry : ∀ kv : (String × Int) × WorkflowRow, ∀ e : WorkflowEntry,
      PostgresWorkflowRepo.toEntry kv.2 = .ok e → executable p signer name e = .ok d →
      ∃ e, PostgresWorkflowRepo.toEntry kv.2 = .ok e ∧ Verifies p signer e ∧ e.definition = d := by
    intro kv e read runs
    obtain ⟨verifies, rfl⟩ := executable_ok.mp runs
    exact ⟨e, read, verifies, rfl⟩
  have parsed : ∀ row : WorkflowRow, ∀ found : Option WorkflowEntry,
      some <$> PostgresWorkflowRepo.toEntry row = Except.ok found →
      ∃ e, found = some e ∧ PostgresWorkflowRepo.toEntry row = .ok e := by
    intro row found h
    cases read : PostgresWorkflowRepo.toEntry row with
    | error err => rw [read] at h; cases h
    | ok e => rw [read] at h; cases h; exact ⟨e, rfl, rfl⟩
  unfold load at loaded
  cases version with
  | some n =>
      simp only [postgresWorkflowRepo, PostgresWorkflowRepo.get, bind, Except.bind] at loaded
      cases there : Dict.get rows (name, n) with
      | none => simp only [there] at loaded; cases loaded
      | some row =>
          simp only [there] at loaded
          split at loaded
          · cases loaded
          · next found asked =>
              obtain ⟨e, rfl, read⟩ := parsed row found asked
              obtain ⟨e', facts⟩ := entry ((name, n), row) e read loaded
              refine ⟨_, Dict.mem_of_get there, e', facts.1, facts.2.1, facts.2.2, rfl, ?_⟩
              rintro _ ⟨⟩
              rfl
  | none =>
      simp only [postgresWorkflowRepo, PostgresWorkflowRepo.latestApproved, bind, Except.bind] at loaded
      cases there : PostgresWorkflowRepo.latestRow rows name with
      | none => simp only [there] at loaded; cases loaded
      | some kv =>
          simp only [there] at loaded
          split at loaded
          · cases loaded
          · next found asked =>
              obtain ⟨e, rfl, read⟩ := parsed kv.2 found asked
              obtain ⟨e', facts⟩ := entry kv e read loaded
              have inside := List.mem_filter.mp (List.argmax_mem there)
              simp only [decide_eq_true_eq] at inside
              exact ⟨kv, inside.1, e', facts.1, facts.2.1, facts.2.2, inside.2.1, by rintro _ ⟨⟩⟩

/-- A row that verifies is what `load` returns for its key. -/
theorem load_of_verifies {rows : WorkflowTable} {kv : (String × Int) × WorkflowRow} {e : WorkflowEntry}
    (found : Dict.get rows kv.1 = some kv.2) (read : PostgresWorkflowRepo.toEntry kv.2 = .ok e)
    (verifies : Verifies p signer e) :
    load (postgresWorkflowRepo db) p signer kv.1.1 (some kv.1.2) rows = .ok e.definition := by
  simp only [load, postgresWorkflowRepo, PostgresWorkflowRepo.get, bind, Except.bind, found, read]
  exact executable_ok.mpr ⟨verifies, rfl⟩

end WorkflowVault

open WorkflowVault in
/-- Whatever a writer without the key does to the rows, `load` returns a definition that an
`approve` call signed; it is the one asked for as long as no row that verifies is put under
another definition's key, and a table where one is answers wrongly. -/
theorem workflow_trust (db : WorkflowColumns) (p : Platform) (signer : Signer) (sealed_ : Sealed p) :
    (∀ v, Run db p signer (fun _ => True) v → ∀ name version d,
        WorkflowStore.load (postgresWorkflowRepo db) p signer name version v.rows = .ok d →
        ∃ s ∈ v.signed, normal d.dump = normal s.1.dump) ∧
      (∀ v, Run db p signer (Keyed p signer) v → ∀ name version d,
        WorkflowStore.load (postgresWorkflowRepo db) p signer name version v.rows = .ok d →
        d.name = name ∧ ∀ n, version = some n → d.version = n) ∧
      ∀ rows : WorkflowTable, (Dict.keys rows).Nodup → ((∀ name version d,
        WorkflowStore.load (postgresWorkflowRepo db) p signer name version rows = .ok d →
        d.name = name ∧ ∀ n, version = some n → d.version = n) ↔ Keyed p signer rows) := by
  have names : ∀ rows : WorkflowTable, Keyed p signer rows → ∀ name version d,
      WorkflowStore.load (postgresWorkflowRepo db) p signer name version rows = .ok d →
      d.name = name ∧ ∀ n, version = some n → d.version = n := by
    intro rows keyed name version d loaded
    obtain ⟨kv, member, e, read, verifies, rfl, called, numbered⟩ := load_rows loaded
    have key := keyed kv member e read verifies
    rw [key] at called numbered
    exact ⟨called, numbered⟩
  refine ⟨fun v run name version d loaded => ?_, fun v run => names v.rows (run.keyed sealed_),
    fun rows nodup => ⟨fun sound kv member e read verifies => ?_, names rows⟩⟩
  · obtain ⟨kv, member, e, read, verifies, rfl, _⟩ := load_rows loaded
    obtain ⟨s, inside, same⟩ := run.unforged sealed_ kv member e read verifies
    exact ⟨s, inside, canonicalWorkflowBytes_inj same⟩
  · obtain ⟨name, version⟩ := sound _ _ _ (load_of_verifies (Dict.get_of_mem nodup member) read verifies)
    exact Prod.ext name.symm (version _ rfl).symm

namespace Sample

/-- Each character as a run of ones. -/
def tally (text : String) : String :=
  String.ofList (text.toList.flatMap fun c => List.replicate c.toNat '1' ++ ['0'])

theorem tally_lower (text : String) : (tally text).toLower = tally text := by
  refine String.toList_injective ?_
  show ((tally text).map Char.toLower).toList = _
  rw [String.toList_map]
  refine (List.map_congr_left fun c member => ?_).trans (List.map_id _)
  simp only [tally, String.toList_ofList, List.mem_flatMap, List.mem_append, List.mem_replicate,
    List.mem_singleton] at member
  obtain ⟨_, _, ⟨_, rfl⟩ | rfl⟩ := member
  · decide
  · decide

theorem tally_inj {text text' : String} (h : tally text = tally text') : text = text' := by
  have runs : ∀ (m n : Nat) (s t : List Char), List.replicate m '1' ++ '0' :: s = List.replicate n '1' ++ '0' :: t →
      m = n ∧ s = t := by
    intro m
    induction m with
    | zero =>
        intro n s t same
        cases n with
        | zero => exact ⟨rfl, (List.cons.inj same).2⟩
        | succ n => exact absurd (List.cons.inj same).1 (by decide)
    | succ m ih =>
        intro n s t same
        cases n with
        | zero => exact absurd (List.cons.inj same).1 (by decide)
        | succ n =>
            obtain ⟨rfl, rest⟩ := ih n s t (List.cons.inj same).2
            exact ⟨rfl, rest⟩
  refine String.toList_injective ?_
  replace h := String.ofList_injective h
  generalize text.toList = s at h ⊢
  generalize text'.toList = t at h ⊢
  induction s generalizing t with
  | nil =>
      cases t with
      | nil => rfl
      | cons d t => simp at h
  | cons c s ih =>
      cases t with
      | nil => simp at h
      | cons d t =>
          simp only [List.flatMap_cons, List.append_assoc, List.cons_append, List.nil_append] at h
          obtain ⟨codes, rest⟩ := runs _ _ _ _ h
          rw [Char.toNat_inj.mp codes, ih t rest]

def sealing : Platform where
  unicode := { alnum := fun _ => false, printable := fun _ => true }
  sha256 text := text
  hmacSha256 _ body := tally body
  nearest x := x
  exact := PyFloat.spelled
  parseRfc3339 _ := none
  later _ _ := .ok ""

theorem sealing_sealed : WorkflowVault.Sealed sealing := by
  intro _ body body' same
  simp only [sealing, tally_lower] at same
  exact tally_inj same

def vaultSigner : Signer := { keys := [("default", "secret")] }

def bare : WorkflowDefinition := { name := "w", version := 1 }

/-- The workflow is submitted and approved. -/
def vault : WorkflowVault :=
  ((({} : WorkflowVault).call {} sealing vaultSigner (.submit bare none)).call {} sealing vaultSigner
    (.approve {} "w" 1 none))

def vaultRow : WorkflowRow where
  definition := .ok bare
  status := "approved"
  signature := some (tally (canonicalWorkflowBytes bare "approved" (some "")))
  kid := some "default"
  approvedAt := some ""

theorem vault_eq : vault = { rows := [(("w", 1), vaultRow)], signed := [(bare, "")] } := rfl

theorem vault_run (cond : WorkflowTable → Prop) : WorkflowVault.Run {} sealing vaultSigner cond vault :=
  .call _ (.call _ .start)

theorem vaultRow_verifies : WorkflowStore.Verifies sealing vaultSigner
    { definition := bare, status := "approved", signature := vaultRow.signature, kid := vaultRow.kid,
      approvedAt := some "" } := by
  refine ⟨rfl, "default", _, "secret", rfl, rfl, by decide, fun empty => ?_, rfl, rfl⟩
  have none : tally "" = "" := rfl
  have chars := congrArg String.toList (tally_inj (empty.trans none.symm))
  rw [canonicalWorkflowBytes, String.toList_ofList, JsonText.canonical_obj] at chars
  cases chars

end Sample

open Sample in
/-- The approved workflow is loaded, and was signed. -/
theorem workflow_trust_approved :
    ∃ d, WorkflowStore.load (postgresWorkflowRepo {}) sealing vaultSigner "w" (some 1) vault.rows = .ok d ∧
      ∃ s ∈ vault.signed, normal d.dump = normal s.1.dump := by
  have loaded : WorkflowStore.load (postgresWorkflowRepo {}) sealing vaultSigner "w" (some 1) vault.rows =
      .ok bare := by
    rw [vault_eq]
    exact @WorkflowVault.load_of_verifies {} _ _ _ (("w", 1), vaultRow) _ rfl rfl vaultRow_verifies
  exact ⟨bare, loaded, (workflow_trust {} sealing vaultSigner sealing_sealed).1 vault (vault_run _) _ _ _ loaded⟩

open Sample in
/-- The approved row copied under another name is loaded under that name. -/
theorem copied_row_loads : ¬ ∀ (db : WorkflowColumns) (p : Platform) (signer : Signer), WorkflowVault.Sealed p →
    ∀ v, WorkflowVault.Run db p signer (fun _ => True) v → ∀ name version d,
      WorkflowStore.load (postgresWorkflowRepo db) p signer name version v.rows = .ok d →
      d.name = name ∧ ∀ n, version = some n → d.version = n := by
  intro named
  have unforged : WorkflowVault.Unforged sealing vaultSigner vault.signed [(("x", 1), vaultRow)] := by
    intro kv member e read _
    cases List.mem_singleton.mp member
    cases read
    exact ⟨(bare, ""), List.mem_singleton_self _, rfl⟩
  have run := WorkflowVault.Run.rewrite [(("x", 1), vaultRow)] unforged trivial (vault_run fun _ => True)
  have loaded : WorkflowStore.load (postgresWorkflowRepo {}) sealing vaultSigner "x" (some 1)
      [(("x", 1), vaultRow)] = .ok bare :=
    @WorkflowVault.load_of_verifies {} _ _ _ (("x", 1), vaultRow) _ rfl rfl vaultRow_verifies
  exact absurd (named {} sealing vaultSigner sealing_sealed _ run "x" (some 1) bare loaded).1 (by decide)

end Maof
