import Maof.Types
import Maof.Workflows.Store

/-!
# Rulesets in the database

A ruleset has a head row of its reference, version and tenant; its rules are rows
of the reference and version they carry themselves, whatever tenant they were
saved for, and are never deleted.
-/

namespace Maof

open Data (Dict)

/-- A row of `policy_rules` but for its key. -/
structure RuleRow where
  priority : Int
  stage : String
  enabled : Bool
  whenJson : Dict String Json
  actions : List (Dict String Json)
  description : String

/-- The columns `ruleset_ref`, `version` and `rule_id`. -/
abbrev RuleKey := String × Int × String

/-- The columns `ruleset_ref`, `version` and `tenant_id`. -/
abbrev HeadKey := String × Int × String

structure PolicyTables where
  policyRulesets : Dict HeadKey PyFloat := []
  policyRules : Dict RuleKey RuleRow := []

namespace Rule

def key (rule : Rule) : RuleKey := (rule.rulesetRef, rule.version, rule.ruleId)

def row (rule : Rule) : RuleRow where
  priority := rule.priority
  stage := rule.stage
  enabled := rule.enabled
  whenJson := rule.when_
  actions := rule.actions
  description := rule.description

def ofRow (kv : RuleKey × RuleRow) : Rule where
  ruleId := kv.1.2.2
  rulesetRef := kv.1.1
  version := kv.1.2.1
  priority := kv.2.priority
  stage := kv.2.stage
  enabled := kv.2.enabled
  when_ := kv.2.whenJson
  actions := kv.2.actions
  description := kv.2.description

theorem ofRow_row (rule : Rule) : ofRow (rule.key, rule.row) = rule := rfl

end Rule

/-- A call of `save_ruleset`. -/
structure RulesetSave where
  ruleset : LoadedRuleset
  tenantId : String := ""

namespace RulesetSave

def head (s : RulesetSave) : HeadKey × PyFloat :=
  ((s.ruleset.rulesetRef, s.ruleset.version, s.tenantId), s.ruleset.canaryPct)

def rows (s : RulesetSave) : Dict RuleKey RuleRow := s.ruleset.rules.map fun rule => (rule.key, rule.row)

end RulesetSave

namespace PolicyTables

/-- Upsert the head row, then the row of each rule. -/
def saveRuleset (db : PolicyTables) (s : RulesetSave) : PolicyTables where
  policyRulesets := Dict.set db.policyRulesets s.head.1 s.head.2
  policyRules := Dict.update db.policyRules s.rows

/-- The head rows of a reference and a tenant. -/
def headsOf (db : PolicyTables) (rulesetRef tenantId : String) : Dict HeadKey PyFloat :=
  db.policyRulesets.filter fun kv => kv.1.1 = rulesetRef ∧ kv.1.2.2 = tenantId

/-- `WHERE ruleset_ref = $1 AND tenant_id IN ($2, '') ORDER BY (tenant_id = $2) DESC, version DESC LIMIT 1`. -/
def headOf (db : PolicyTables) (tenantId rulesetRef : String) : Option (HeadKey × PyFloat) :=
  match maxBy (fun kv => kv.1.2.1) (db.headsOf rulesetRef tenantId) with
  | some head => some head
  | none => maxBy (fun kv => kv.1.2.1) (db.headsOf rulesetRef "")

/-- `WHERE ruleset_ref = $1 AND version = $2 ORDER BY priority ASC`. -/
def rulesAt (db : PolicyTables) (rulesetRef : String) (version : Int) : List Rule :=
  ((db.policyRules.filter fun kv => kv.1.1 = rulesetRef ∧ kv.1.2.1 = version).insertionSort
    fun a b => a.2.priority ≤ b.2.priority).map Rule.ofRow

def rulesetAt (db : PolicyTables) (head : HeadKey × PyFloat) : LoadedRuleset where
  rulesetRef := head.1.1
  version := head.1.2.1
  rules := db.rulesAt head.1.1 head.1.2.1
  canaryPct := head.2

def loadRuleset (db : PolicyTables) (tenantId rulesetRef : String) : Option LoadedRuleset :=
  (db.headOf tenantId rulesetRef).map db.rulesetAt

/-- What a sequence of saves leaves. -/
def saved (saves : List RulesetSave) : PolicyTables := saves.foldl saveRuleset {}

end PolicyTables

/-! ## Histories -/

/-- The rule rows a sequence of saves wrote, the last first. -/
def writes (saves : List RulesetSave) : Dict RuleKey RuleRow := (saves.flatMap RulesetSave.rows).reverse

/-- The head rows a sequence of saves wrote, the last first. -/
def headWrites (saves : List RulesetSave) : Dict HeadKey PyFloat := (saves.map RulesetSave.head).reverse

/-- The last save of a reference, version and tenant. -/
def lastSave (saves : List RulesetSave) (key : HeadKey) : Option RulesetSave :=
  saves.reverse.find? fun s => s.head.1 = key

/-- The head a tenant is served: its own highest version, or the highest global one. -/
def Serves (saves : List RulesetSave) (tenantId rulesetRef : String) (key : HeadKey) : Prop :=
  key.1 = rulesetRef ∧ (∃ s ∈ saves, s.head.1 = key) ∧
    (∀ s ∈ saves, s.head.1.1 = rulesetRef → s.head.1.2.2 = key.2.2 → s.head.1.2.1 ≤ key.2.1) ∧
    (key.2.2 = tenantId ∨ key.2.2 = "" ∧ ∀ s ∈ saves, s.head.1.1 = rulesetRef → s.head.1.2.2 ≠ tenantId)

/-- What is loaded is the last save of the head that is served, up to the order of its rules. -/
def ReturnsLast (saves : List RulesetSave) (tenantId rulesetRef : String) : Prop :=
  match (PolicyTables.saved saves).loadRuleset tenantId rulesetRef with
  | none => ∀ key, ¬ Serves saves tenantId rulesetRef key
  | some loaded => ∃ key s, Serves saves tenantId rulesetRef key ∧ lastSave saves key = some s ∧
      loaded.version = key.2.1 ∧ loaded.rules.Perm s.ruleset.rules

/-- The rules of a save carry its reference and version under distinct ids, and whatever was
written last under that reference and version is one of them. -/
def Undivided (saves : List RulesetSave) (s : RulesetSave) : Prop :=
  (∀ rule ∈ s.ruleset.rules, rule.rulesetRef = s.ruleset.rulesetRef ∧ rule.version = s.ruleset.version) ∧
    (s.ruleset.rules.map Rule.ruleId).Nodup ∧
    ∀ kv, Dict.get (writes saves) kv.1 = some kv.2 → kv.1.1 = s.ruleset.rulesetRef → kv.1.2.1 = s.ruleset.version →
      Rule.ofRow kv ∈ s.ruleset.rules

/-- A save writes no rule of a version but what is there already. -/
def LeavesRules (saves : List RulesetSave) (s : RulesetSave) (key : HeadKey) : Prop :=
  ∀ kv : RuleKey × RuleRow, Dict.get (writes [s]) kv.1 = some kv.2 → kv.1.1 = key.1 → kv.1.2.1 = key.2.1 →
    Dict.get (writes saves) kv.1 = some kv.2

/-- Two answers of `load_ruleset` agree up to the order of the rules. -/
def SameRuleset : Option LoadedRuleset → Option LoadedRuleset → Prop
  | none, none => True
  | some a, some b => a.rulesetRef = b.rulesetRef ∧ a.version = b.version ∧ a.canaryPct = b.canaryPct ∧
      a.rules.Perm b.rules
  | _, _ => False

/-! ## What the tables hold of a history -/

namespace PolicyTables

variable {saves : List RulesetSave} {tenantId rulesetRef : String} {version : Int}

theorem foldl_rules (db : PolicyTables) (saves : List RulesetSave) : (saves.foldl saveRuleset db).policyRules =
    Dict.update db.policyRules (saves.flatMap RulesetSave.rows) := by
  induction saves generalizing db with
  | nil => rfl
  | cons s saves ih => rw [List.foldl_cons, ih, List.flatMap_cons, Dict.update_append]; rfl

theorem foldl_heads (db : PolicyTables) (saves : List RulesetSave) : (saves.foldl saveRuleset db).policyRulesets =
    Dict.update db.policyRulesets (saves.map RulesetSave.head) := by
  induction saves generalizing db with
  | nil => rfl
  | cons s saves ih => rw [List.foldl_cons, ih, List.map_cons]; rfl

theorem get_rules (saves : List RulesetSave) (key : RuleKey) :
    Dict.get (saved saves).policyRules key = Dict.get (writes saves) key := by
  rw [saved, foldl_rules, Dict.get_update, writes]
  cases Dict.get (saves.flatMap RulesetSave.rows).reverse key <;> rfl

theorem get_heads (saves : List RulesetSave) (key : HeadKey) :
    Dict.get (saved saves).policyRulesets key = Dict.get (headWrites saves) key := by
  rw [saved, foldl_heads, Dict.get_update, headWrites]
  cases Dict.get (saves.map RulesetSave.head).reverse key <;> rfl

theorem nodup_rules (saves : List RulesetSave) : (Dict.keys (saved saves).policyRules).Nodup := by
  rw [saved, foldl_rules]
  exact Dict.nodup_update (d := []) List.nodup_nil _

theorem nodup_heads (saves : List RulesetSave) : (Dict.keys (saved saves).policyRulesets).Nodup := by
  rw [saved, foldl_heads]
  exact Dict.nodup_update (d := []) List.nodup_nil _

/-- The head of a save that was the last of its key. -/
theorem get_headWrites (saves : List RulesetSave) (key : HeadKey) :
    Dict.get (headWrites saves) key = (lastSave saves key).map fun s => s.ruleset.canaryPct := by
  unfold headWrites lastSave
  rw [← List.map_reverse]
  induction saves.reverse with
  | nil => rfl
  | cons s rest ih =>
      by_cases same : s.head.1 = key
      · simp [Dict.get, same]
        rfl
      · simp only [List.map_cons, Dict.get, same, if_false, List.find?_cons, decide_false]
        exact ih

theorem lastSave_some {key : HeadKey} {s : RulesetSave} (h : lastSave saves key = some s) :
    s ∈ saves ∧ s.head.1 = key := by
  unfold lastSave at h
  have keyed := List.find?_some h
  exact ⟨List.mem_reverse.mp (List.mem_of_find?_eq_some h), of_decide_eq_true keyed⟩

theorem lastSave_isSome {s : RulesetSave} (member : s ∈ saves) : ∃ last, lastSave saves s.head.1 = some last := by
  cases found : lastSave saves s.head.1 with
  | some last => exact ⟨last, rfl⟩
  | none =>
      have absent := List.find?_eq_none.mp found s (List.mem_reverse.mpr member)
      simp at absent

theorem mem_headsOf {kv : HeadKey × PyFloat} : kv ∈ (saved saves).headsOf rulesetRef tenantId ↔
    (∃ s, lastSave saves kv.1 = some s ∧ s.ruleset.canaryPct = kv.2) ∧ kv.1.1 = rulesetRef ∧ kv.1.2.2 = tenantId := by
  unfold headsOf
  rw [List.mem_filter, decide_eq_true_eq]
  refine and_congr_left fun _ => ?_
  rw [← Option.map_eq_some_iff (f := fun s : RulesetSave => s.ruleset.canaryPct), ← get_headWrites, ← get_heads]
  exact ⟨fun member => Dict.get_of_mem (nodup_heads saves) member, fun found => Dict.mem_of_get found⟩

theorem headsOf_nil : (saved saves).headsOf rulesetRef tenantId = [] ↔
    ∀ s ∈ saves, s.head.1.1 = rulesetRef → s.head.1.2.2 ≠ tenantId := by
  rw [List.eq_nil_iff_forall_not_mem]
  constructor
  · intro none s member named owned
    obtain ⟨last, found⟩ := lastSave_isSome member
    exact none (s.head.1, last.ruleset.canaryPct) (mem_headsOf.mpr ⟨⟨last, found, rfl⟩, named, owned⟩)
  · rintro absent kv member
    obtain ⟨⟨s, found, _⟩, named, owned⟩ := mem_headsOf.mp member
    obtain ⟨inside, key⟩ := lastSave_some found
    exact absent s inside (by rw [key]; exact named) (by rw [key]; exact owned)

/-- The greatest head of a tenant is one the tenant, or everybody, may be served. -/
theorem served_of_max {head : HeadKey × PyFloat} {owner : String}
    (greatest : maxBy (fun kv => kv.1.2.1) ((saved saves).headsOf rulesetRef owner) = some head)
    (who : owner = tenantId ∨ owner = "" ∧ ∀ s ∈ saves, s.head.1.1 = rulesetRef → s.head.1.2.2 ≠ tenantId) :
    Serves saves tenantId rulesetRef head.1 := by
  obtain ⟨member, most⟩ := maxBy_some greatest
  obtain ⟨⟨s, found, _⟩, named, owned⟩ := mem_headsOf.mp member
  refine ⟨named, ⟨s, lastSave_some found⟩, fun s' inside named' owned' => ?_, owned ▸ who⟩
  obtain ⟨last, found'⟩ := lastSave_isSome inside
  exact most (s'.head.1, last.ruleset.canaryPct) (mem_headsOf.mpr ⟨⟨last, found', rfl⟩, named', owned'.trans owned⟩)

theorem headOf_serves {head : HeadKey × PyFloat} (h : (saved saves).headOf tenantId rulesetRef = some head) :
    Serves saves tenantId rulesetRef head.1 := by
  unfold headOf at h
  split at h
  · next own greatest =>
      cases h
      exact served_of_max greatest (.inl rfl)
  · next none => exact served_of_max h (.inr ⟨rfl, headsOf_nil.mp (maxBy_none.mp none)⟩)

theorem headOf_none (h : (saved saves).headOf tenantId rulesetRef = none) (key : HeadKey) :
    ¬ Serves saves tenantId rulesetRef key := by
  unfold headOf at h
  split at h
  · cases h
  · next none =>
      have own := headsOf_nil.mp (maxBy_none.mp none)
      have global := headsOf_nil.mp (maxBy_none.mp h)
      rintro ⟨named, ⟨s, member, rfl⟩, _, owned | ⟨owned, _⟩⟩
      · exact own s member named owned
      · exact global s member named owned

end PolicyTables

theorem Serves.unique {saves : List RulesetSave} {tenantId rulesetRef : String} {key key' : HeadKey}
    (h : Serves saves tenantId rulesetRef key) (h' : Serves saves tenantId rulesetRef key') : key = key' := by
  obtain ⟨named, ⟨s, member, rfl⟩, most, owner⟩ := h
  obtain ⟨named', ⟨s', member', rfl⟩, most', owner'⟩ := h'
  have owners : s.head.1.2.2 = s'.head.1.2.2 := by
    rcases owner with own | ⟨none, absent⟩
    · rcases owner' with own' | ⟨none', absent'⟩
      · rw [own, own']
      · exact absurd own (absent' s member named)
    · rcases owner' with own' | ⟨none', _⟩
      · exact absurd own' (absent s' member' named')
      · rw [none, none']
  have versions : s.head.1.2.1 = s'.head.1.2.1 :=
    le_antisymm (most' s member named owners) (most s' member' named' owners.symm)
  exact Prod.ext (named.trans named'.symm) (Prod.ext versions owners)

/-! ## What a version holds -/

namespace PolicyTables

variable {saves : List RulesetSave} {rulesetRef : String} {version : Int}

theorem mem_rulesAt {db : PolicyTables} (nodup : (Dict.keys db.policyRules).Nodup) {rule : Rule} :
    rule ∈ db.rulesAt rulesetRef version ↔
      Dict.get db.policyRules rule.key = some rule.row ∧ rule.rulesetRef = rulesetRef ∧ rule.version = version := by
  unfold rulesAt
  rw [List.mem_map]
  constructor
  · rintro ⟨kv, member, rfl⟩
    rw [List.mem_insertionSort, List.mem_filter, decide_eq_true_eq] at member
    exact ⟨Dict.get_of_mem nodup member.1, member.2⟩
  · rintro ⟨found, named, numbered⟩
    refine ⟨(rule.key, rule.row), ?_, rule.ofRow_row⟩
    rw [List.mem_insertionSort, List.mem_filter, decide_eq_true_eq]
    exact ⟨Dict.mem_of_get found, named, numbered⟩

/-- The rules of a version have distinct ids. -/
theorem nodup_rulesAt {db : PolicyTables} (nodup : (Dict.keys db.policyRules).Nodup) :
    ((db.rulesAt rulesetRef version).map Rule.ruleId).Nodup := by
  have keys : ((db.policyRules.filter fun kv => kv.1.1 = rulesetRef ∧ kv.1.2.1 = version).map Prod.fst).Nodup :=
    nodup.sublist (List.filter_sublist.map _)
  have ids : (db.policyRules.filter fun kv => kv.1.1 = rulesetRef ∧ kv.1.2.1 = version).map Prod.fst =
      ((db.policyRules.filter fun kv => kv.1.1 = rulesetRef ∧ kv.1.2.1 = version).map (Rule.ruleId ∘ Rule.ofRow)).map
        fun id => (rulesetRef, version, id) := by
    rw [List.map_map]
    refine List.map_congr_left fun kv member => ?_
    rw [List.mem_filter, decide_eq_true_eq] at member
    obtain ⟨_, named, numbered⟩ := member
    rw [Function.comp_apply, ← named, ← numbered]
    rfl
  rw [ids] at keys
  unfold rulesAt
  rw [List.map_map]
  exact ((List.perm_insertionSort _ _).map _).nodup_iff.mpr (List.Nodup.of_map _ keys)

/-- A version holds the rules of a save exactly where nothing else is left under its key. -/
theorem rulesAt_perm {s : RulesetSave} (member : s ∈ saves) :
    ((saved saves).rulesAt s.ruleset.rulesetRef s.ruleset.version).Perm s.ruleset.rules ↔ Undivided saves s := by
  have distinct : (((saved saves).rulesAt s.ruleset.rulesetRef s.ruleset.version).map Rule.ruleId).Nodup :=
    nodup_rulesAt (nodup_rules saves)
  have held : ∀ rule, rule ∈ (saved saves).rulesAt s.ruleset.rulesetRef s.ruleset.version ↔ _ :=
    fun rule => mem_rulesAt (nodup_rules saves)
  constructor
  · intro same
    refine ⟨fun rule inside => ((held rule).mp (same.mem_iff.mpr inside)).2, (same.map _).nodup_iff.mp distinct, ?_⟩
    intro kv written named numbered
    exact same.mem_iff.mp ((held _).mpr ⟨(get_rules saves kv.1).trans written, named, numbered⟩)
  · rintro ⟨own, ids, only⟩
    refine (List.perm_ext_iff_of_nodup (List.Nodup.of_map _ distinct) (List.Nodup.of_map _ ids)).mpr fun rule => ?_
    rw [held]
    constructor
    · rintro ⟨found, named, numbered⟩
      rw [get_rules] at found
      exact only (rule.key, rule.row) found named numbered
    · intro inside
      obtain ⟨named, numbered⟩ := own rule inside
      refine ⟨?_, named, numbered⟩
      have wrote : rule.key ∈ Dict.keys (writes saves) := by
        refine List.mem_map.mpr ⟨(rule.key, rule.row), List.mem_reverse.mpr ?_, rfl⟩
        exact List.mem_flatMap.mpr ⟨s, member, List.mem_map.mpr ⟨rule, inside, rfl⟩⟩
      obtain ⟨row, found⟩ := Option.isSome_iff_exists.mp ((Dict.mem_keys_iff _ _).mp wrote)
      have last := only (rule.key, row) found named numbered
      have same : Rule.ofRow (rule.key, row) = rule := List.inj_on_of_nodup_map ids last inside rfl
      rw [get_rules, found, ← same]
      rfl

end PolicyTables

/-! ## Round trips -/

section laws

open PolicyTables

variable {saves : List RulesetSave}

theorem returnsLast_iff (tenantId rulesetRef : String) : ReturnsLast saves tenantId rulesetRef ↔
    ∀ key s, Serves saves tenantId rulesetRef key → lastSave saves key = some s → Undivided saves s := by
  unfold ReturnsLast loadRuleset
  cases found : (saved saves).headOf tenantId rulesetRef with
  | none =>
      have unserved := headOf_none found
      exact ⟨fun _ key s serves => absurd serves (unserved key), fun _ => unserved⟩
  | some head =>
      have serves := headOf_serves found
      obtain ⟨_, ⟨s, member, same⟩, _⟩ := id serves
      obtain ⟨last, saved_⟩ := lastSave_isSome member
      rw [same] at saved_
      obtain ⟨inside, keyed⟩ := lastSave_some saved_
      -- the head that is read is the key of its last save
      have version : (saved saves).rulesAt head.1.1 head.1.2.1 =
          (saved saves).rulesAt last.ruleset.rulesetRef last.ruleset.version := by rw [← keyed]; rfl
      simp only [Option.map_some, rulesetAt, version]
      constructor
      · rintro ⟨key, s', serves', saved', _, same'⟩ key'' s'' serves'' saved''
        cases serves''.unique serves'
        cases serves'.unique serves
        cases saved''.symm.trans saved_
        cases saved'.symm.trans saved_
        exact (rulesAt_perm inside).mp same'
      · intro undivided
        exact ⟨head.1, last, serves, saved_, rfl, (rulesAt_perm inside).mpr (undivided _ _ serves saved_)⟩

theorem serves_other {tenantId other rulesetRef : String} (s : RulesetSave) (owner : s.tenantId = tenantId)
    (named : tenantId ≠ "") (apart : tenantId ≠ other) (owned : String) (mine : owned = other ∨ owned = "") :
    (saved (saves ++ [s])).headsOf rulesetRef owned = (saved saves).headsOf rulesetRef owned := by
  have away : s.tenantId ≠ owned := by
    rintro rfl
    rcases mine with same | none
    · exact apart (owner.symm.trans same)
    · exact named (owner.symm.trans none)
  have split : (saved (saves ++ [s])).policyRulesets = Dict.set (saved saves).policyRulesets s.head.1 s.head.2 := by
    rw [saved, List.foldl_append]
    rfl
  unfold headsOf
  rw [split]
  refine Dict.filter_set fun a => ?_
  simp [RulesetSave.head, away]

/-- A save for one tenant leaves what another is served exactly where it writes no rule of that
version that was not there. -/
theorem sameRuleset_iff {tenantId other rulesetRef : String} (s : RulesetSave) (owner : s.tenantId = tenantId)
    (named : tenantId ≠ "") (apart : tenantId ≠ other) :
    SameRuleset ((saved saves).loadRuleset other rulesetRef) ((saved (saves ++ [s])).loadRuleset other rulesetRef) ↔
      ∀ key, Serves saves other rulesetRef key → LeavesRules saves s key := by
  have heads : (saved (saves ++ [s])).headOf other rulesetRef = (saved saves).headOf other rulesetRef := by
    unfold headOf
    rw [serves_other s owner named apart other (.inl rfl), serves_other s owner named apart "" (.inr rfl)]
  have rewritten : ∀ key, Dict.get (saved (saves ++ [s])).policyRules key =
      (Dict.get (writes [s]) key).orElse fun _ => Dict.get (writes saves) key := by
    intro key
    rw [get_rules, ← Dict.get_append]
    simp [writes]
  unfold loadRuleset
  rw [heads]
  cases found : (saved saves).headOf other rulesetRef with
  | none =>
      have unserved := headOf_none found
      exact ⟨fun _ key serves => absurd serves (unserved key), fun _ => trivial⟩
  | some head =>
      have serves := headOf_serves found
      simp only [Option.map_some, SameRuleset, rulesetAt, true_and]
      constructor
      · intro same key serves' kv written inRef inVersion
        cases serves'.unique serves
        have now : Rule.ofRow kv ∈ (saved (saves ++ [s])).rulesAt head.1.1 head.1.2.1 := by
          refine (mem_rulesAt (nodup_rules _)).mpr ⟨?_, inRef, inVersion⟩
          rw [rewritten]
          change (Dict.get (writes [s]) kv.1).orElse _ = some kv.2
          rw [written]
          rfl
        have before := ((mem_rulesAt (nodup_rules _)).mp (same.mem_iff.mpr now)).1
        rw [get_rules] at before
        exact before
      · intro unchanged
        refine (List.perm_ext_iff_of_nodup (List.Nodup.of_map _ (nodup_rulesAt (nodup_rules _)))
          (List.Nodup.of_map _ (nodup_rulesAt (nodup_rules _)))).mpr fun rule => ?_
        rw [mem_rulesAt (nodup_rules _), mem_rulesAt (nodup_rules _), rewritten, get_rules]
        refine and_congr_left ?_
        rintro ⟨inRef, inVersion⟩
        cases written : Dict.get (writes [s]) rule.key with
        | none => rfl
        | some row =>
            have old : Dict.get (writes saves) rule.key = some row :=
              unchanged head.1 serves (rule.key, row) written inRef inVersion
            rw [old]
            rfl

/-- A load returns the last save of the head it selects exactly where the rules of that version
are the ones of that save; and a tenant's save leaves another's load exactly where it writes
no rule of the version the other is served. -/
theorem policy_storage_iff (saves : List RulesetSave) :
    (∀ tenantId rulesetRef, ReturnsLast saves tenantId rulesetRef ↔
      ∀ key s, Serves saves tenantId rulesetRef key → lastSave saves key = some s → Undivided saves s) ∧
    ∀ s other rulesetRef, s.tenantId ≠ "" → s.tenantId ≠ other →
      (SameRuleset ((saved saves).loadRuleset other rulesetRef) ((saved (saves ++ [s])).loadRuleset other rulesetRef) ↔
        ∀ key, Serves saves other rulesetRef key → LeavesRules saves s key) :=
  ⟨returnsLast_iff, fun s _ _ named apart => sameRuleset_iff s rfl named apart⟩

end laws

namespace Sample

def screen (ruleId : String) (enabled : Bool) : Rule where
  ruleId := ruleId
  rulesetRef := "default"
  version := 1
  enabled := enabled

def screens (tenantId : String) (rules : List Rule) : RulesetSave where
  ruleset := { rulesetRef := "default", version := 1, rules := rules }
  tenantId := tenantId

end Sample

/-- A rule that a save left out is still loaded, and a tenant's own version switches off the
rules of everybody. -/
theorem rules_shared : ¬ (∀ saves tenantId rulesetRef, ReturnsLast saves tenantId rulesetRef) ∧
    ¬ ∀ saves s other rulesetRef, s.tenantId ≠ "" → s.tenantId ≠ other →
      SameRuleset ((PolicyTables.saved saves).loadRuleset other rulesetRef)
        ((PolicyTables.saved (saves ++ [s])).loadRuleset other rulesetRef) := by
  have global : ∀ saves : List RulesetSave, saves ≠ [] → (∀ s ∈ saves, s.head.1 = ("default", 1, "")) →
      Serves saves "acme" "default" ("default", 1, "") := by
    intro saves some every
    obtain ⟨s, member⟩ := List.exists_mem_of_ne_nil saves some
    refine ⟨rfl, ⟨s, member, every s member⟩, fun s' inside _ _ => ?_, .inr ⟨rfl, fun s' inside _ => ?_⟩⟩
    · rw [every s' inside]
    · rw [every s' inside]
      decide
  constructor
  · intro returns
    let first := Sample.screens "" [Sample.screen "a" true, Sample.screen "b" true]
    let last := Sample.screens "" [Sample.screen "a" true]
    have undivided := (returnsLast_iff "acme" "default").mp (returns [first, last] "acme" "default")
      ("default", 1, "") last (global _ (List.cons_ne_nil _ _) (by simp [first, last, Sample.screens, RulesetSave.head]))
      rfl
    have left := undivided.2.2 ((Sample.screen "b" true).key, (Sample.screen "b" true).row) rfl rfl rfl
    exact absurd (List.mem_singleton.mp left) (by simp [Sample.screen, Rule.ofRow, Rule.key])
  · intro isolated
    let everybody := Sample.screens "" [Sample.screen "a" true]
    let own := Sample.screens "umbrella" [Sample.screen "a" false]
    have leaves := (sameRuleset_iff own rfl (by decide) (by decide)).mp
      (isolated [everybody] own "acme" "default" (by decide) (by decide)) ("default", 1, "")
      (global _ (List.cons_ne_nil _ _) (by simp [everybody, Sample.screens, RulesetSave.head]))
    have same := leaves ((Sample.screen "a" false).key, (Sample.screen "a" false).row) rfl rfl rfl
    have enabled := congrArg (Option.map RuleRow.enabled) same
    exact absurd enabled (by decide)

end Maof
