import Maof.Orchestrator.Coordinator

/-!
# The artifact stores

Large outputs are put into a store and passed on as references. The three
stores make up a reference differently: from a counter, from a fresh id of the
database, and from the run and the name alone.
-/

namespace Maof

open Data (Dict)
open Effects (Act)

/-- The arguments of one `put`. -/
structure ArtifactPut where
  runId : RunId
  name : String
  data : Bytes
  contentType : String
deriving DecidableEq, Repr

/-- A store over its state; `fresh` is the id the database gives a new row. -/
structure ArtifactStore (σ : Type) where
  put : σ → (fresh : String) → ArtifactPut → σ × Except Exn String
  get : σ → (ref : String) → Except Exn Bytes

def artifactNotFound (u : Unicode) (ref : String) : Exn :=
  .keyError ("artifact not found: " ++ Template.reprText u (.str ref))

/-! ## In memory -/

structure InMemoryArtifactStore where
  store : Dict String Bytes := []
  seq : Nat := 0

namespace InMemoryArtifactStore

def refOf (seq : Nat) (a : ArtifactPut) : String :=
  "mem://" ++ a.runId ++ "/" ++ toString seq ++ "/" ++ a.name

def put (s : InMemoryArtifactStore) (a : ArtifactPut) : InMemoryArtifactStore × Except Exn String :=
  let seq := s.seq + 1
  let ref := refOf seq a
  ({ store := Dict.set s.store ref a.data, seq := seq }, .ok ref)

def get (u : Unicode) (s : InMemoryArtifactStore) (ref : String) : Except Exn Bytes :=
  match Dict.get s.store ref with
  | some data => .ok data
  | none => .error (artifactNotFound u ref)

def artifactStore (u : Unicode) : ArtifactStore InMemoryArtifactStore where
  put s _ a := s.put a
  get := get u

end InMemoryArtifactStore

/-! ## In the database -/

/-- The rows of `artifacts` by their primary key `ref`. -/
abbrev ArtifactRows := Dict String ArtifactPut

namespace PostgresArtifactRepo

/-- `INSERT … RETURNING ref`. -/
def put (rows : ArtifactRows) (fresh : String) (a : ArtifactPut) : ArtifactRows × Except Exn String :=
  if (Dict.get rows fresh).isSome then
    (rows, .error (.external "duplicate key value violates unique constraint"))
  else (rows ++ [(fresh, a)], .ok fresh)

/-- `SELECT data FROM artifacts WHERE ref = $1`. -/
def get (rows : ArtifactRows) (ref : String) : Option Bytes := (Dict.get rows ref).map ArtifactPut.data

end PostgresArtifactRepo

namespace PostgresArtifactStore

def get (u : Unicode) (rows : ArtifactRows) (ref : String) : Except Exn Bytes :=
  match PostgresArtifactRepo.get rows ref with
  | some data => .ok data
  | none => .error (artifactNotFound u ref)

def artifactStore (u : Unicode) : ArtifactStore ArtifactRows where
  put := PostgresArtifactRepo.put
  get := get u

end PostgresArtifactStore

/-! ## In object storage -/

/-- `text.partition(sep)`: what stands before the first separator and after it. -/
def partition (sep : List Char) : List Char → List Char × List Char
  | [] => ([], [])
  | c :: text =>
      if sep.isPrefixOf (c :: text) then ([], (c :: text).drop sep.length)
      else (c :: (partition sep text).1, (partition sep text).2)

namespace S3ArtifactStore

/-- What was last written under each key of each bucket. -/
abbrev Objects := Dict (String × String) Bytes

variable (bucket : String)

def keyOf (a : ArtifactPut) : String := a.runId ++ "/" ++ a.name

def refOf (a : ArtifactPut) : String := "s3://" ++ bucket ++ "/" ++ keyOf a

def put (objects : Objects) (a : ArtifactPut) : Objects × Except Exn String :=
  (Dict.set objects (bucket, keyOf a) a.data, .ok (refOf bucket a))

/-- The bucket and the key a reference names. -/
def located (ref : String) : String × String :=
  let rest := (partition "://".toList ref.toList).2
  let (bucket, key) := partition "/".toList rest
  (String.ofList bucket, String.ofList key)

def get (objects : Objects) (ref : String) : Except Exn Bytes :=
  match Dict.get objects (located ref) with
  | some body => .ok body
  | none => .error (.external "NoSuchKey")

def artifactStore : ArtifactStore Objects where
  put objects _ a := put bucket objects a
  get := get

end S3ArtifactStore

/-! ## The subagent's artifacts -/

namespace InProcessSubagent

/-- What a subagent puts for a reply that is too long to pass on. -/
def artifactPut (runId : RunId) (result : String) : ArtifactPut where
  runId
  name := "subresult.txt"
  data := result.toUTF8.data.toList
  contentType := "text/plain"

/-- What a stage's `putArtifact` puts for its run. -/
def StoredAs (runId : RunId) (a : ArtifactPut) : StageOp → Prop
  | .putArtifact name content contentType =>
      a = { runId, name, data := content.toUTF8.data.toList, contentType }
  | _ => False

/-- Every long reply of a run goes into the store under one name. -/
theorem distill_puts (a : InProcessSubagent) (runId : RunId) (result : String) :
    (a.distill result).Uses (StoredAs runId (artifactPut runId result)) := by
  unfold distill
  split
  · exact Act.uses_bind (Act.uses_await rfl) fun _ => Act.uses_pure _
  · exact Act.uses_pure _

end InProcessSubagent

/-! ## References over a history of puts -/

/-- A text without slashes is what stands before the first slash after it. -/
theorem partition_slash {text : List Char} (plain : '/' ∉ text) (rest : List Char) :
    partition "/".toList (text ++ '/' :: rest) = (text, rest) := by
  induction text with
  | nil => rfl
  | cons c text ih =>
      rw [List.mem_cons, not_or] at plain
      have later : "/".toList.isPrefixOf (c :: (text ++ '/' :: rest)) = false := by
        simp [List.isPrefixOf, plain.1]
      rw [List.cons_append, partition, later, ih plain.2]
      rfl

namespace ArtifactStore

variable {σ : Type} (s : ArtifactStore σ)

/-- Put one after the other, each with the id the database would give it; the references
returned are kept with the puts they were returned for. -/
def play : σ → List (String × ArtifactPut) → σ × List (String × ArtifactPut)
  | st, [] => (st, [])
  | st, (fresh, a) :: puts =>
      let (next, answer) := s.put st fresh a
      let (last, refs) := play next puts
      match answer with
      | .ok ref => (last, (ref, a) :: refs)
      | .error _ => (last, refs)

/-- Every reference returned still leads to the bytes it was returned for. -/
def Immutable (st : σ) (puts : List (String × ArtifactPut)) : Prop :=
  ∀ r ∈ (s.play st puts).2, s.get (s.play st puts).1 r.1 = .ok r.2.data

end ArtifactStore

/-- Puts that share what they are stored under have the same bytes. -/
def Agree {κ : Type} (stored : List (κ × ArtifactPut)) : Prop :=
  ∀ r ∈ stored, ∀ r' ∈ stored, r.1 = r'.1 → r.2.data = r'.2.data

/-- The bytes assigned to each key are found again where the assignments agree. -/
theorem found_iff_agree {κ : Type} [DecidableEq κ] (stored : List (κ × ArtifactPut)) :
    (∀ r ∈ stored, Dict.get (Dict.update [] (stored.map fun r => (r.1, r.2.data))) r.1 = some r.2.data) ↔
      Agree stored := by
  have all := Dict.get_update_iff ([] : Dict κ Bytes) (stored.map fun r => (r.1, r.2.data))
  simpa only [List.forall_mem_map, Agree] using all

namespace InMemoryArtifactStore

variable {u : Unicode}

/-- The references of a history, the first of them counted after `seq`. -/
def refs (seq : Nat) (puts : List (String × ArtifactPut)) : List (String × ArtifactPut) :=
  puts.mapIdx fun i kv => (refOf (seq + i + 1) kv.2, kv.2)

theorem play_refs (s : InMemoryArtifactStore) (puts : List (String × ArtifactPut)) :
    (artifactStore u).play s puts =
      ({ store := Dict.update s.store ((refs s.seq puts).map fun r => (r.1, r.2.data)), seq := s.seq + puts.length },
        refs s.seq puts) := by
  induction puts generalizing s with
  | nil => rfl
  | cons kv puts ih =>
      obtain ⟨fresh, a⟩ := kv
      have stepped : (artifactStore u).play s ((fresh, a) :: puts) =
          let out := (artifactStore u).play (s.put a).1 puts
          (out.1, (refOf (s.seq + 1) a, a) :: out.2) := rfl
      have shifted : refs s.seq ((fresh, a) :: puts) = (refOf (s.seq + 1) a, a) :: refs (s.seq + 1) puts := by
        simp only [refs, List.mapIdx_cons, Nat.add_zero, List.cons.injEq, true_and]
        congr 1
        funext i kv
        rw [Nat.add_assoc s.seq 1 i, Nat.add_comm 1 i]
      have counted : s.seq + 1 + puts.length = s.seq + (puts.length + 1) := by
        omega
      rw [stepped, ih, shifted]
      simp only [put, List.map_cons, Dict.update, List.foldl_cons, List.length_cons, counted]

/-- References of an in-memory store never change their bytes exactly where no two puts of
different bytes spell one reference. -/
theorem immutable_iff (puts : List (String × ArtifactPut)) :
    (artifactStore u).Immutable {} puts ↔ Agree (refs 0 puts) := by
  unfold ArtifactStore.Immutable
  rw [play_refs, ← found_iff_agree]
  refine forall₂_congr fun r member => ?_
  simp only [artifactStore, get]
  cases Dict.get (Dict.update [] ((refs 0 puts).map fun r => (r.1, r.2.data))) r.1 with
  | none => simp
  | some data => simp

theorem ref_toList (seq : Nat) (a : ArtifactPut) : (refOf seq a).toList =
    "mem://".toList ++ (a.runId.toList ++ '/' :: (Nat.toDigits 10 seq ++ '/' :: a.name.toList)) := by
  simp [refOf]

theorem slash_not_mem_digits (seq : Nat) : '/' ∉ Nat.toDigits 10 seq := by
  intro member
  have digit := Nat.isDigit_of_mem_toDigits (by decide) (by decide) member
  exact absurd digit (by decide)

/-- Where no run id has a slash, the counter keeps all references apart. -/
theorem agree_of_plain {puts : List (String × ArtifactPut)} (plain : ∀ kv ∈ puts, '/' ∉ kv.2.runId.toList) :
    Agree (refs 0 puts) := by
  intro r member r' member' same
  obtain ⟨i, _, rfl⟩ := List.mem_mapIdx.mp member
  obtain ⟨j, _, rfl⟩ := List.mem_mapIdx.mp member'
  have chars := congrArg String.toList same
  simp only [ref_toList] at chars
  have rest := congrArg (partition "/".toList) (List.append_cancel_left chars)
  rw [partition_slash (plain _ (List.getElem_mem _)), partition_slash (plain _ (List.getElem_mem _))] at rest
  have counted := congrArg (partition "/".toList) (Prod.mk.inj rest).2
  rw [partition_slash (slash_not_mem_digits _), partition_slash (slash_not_mem_digits _)] at counted
  have index : i = j := by
    have numbered := JsonText.digits_inj (Prod.mk.inj counted).1
    omega
  subst index
  rfl

end InMemoryArtifactStore

namespace PostgresArtifactStore

variable {u : Unicode}

/-- What is stored stays where it is, and what is put comes after it. -/
theorem play_rows (rows : ArtifactRows) (puts : List (String × ArtifactPut)) :
    ∃ added, ((artifactStore u).play rows puts).1 = rows ++ added ∧
      ∀ r ∈ ((artifactStore u).play rows puts).2, Dict.get rows r.1 = none ∧ Dict.get added r.1 = some r.2 := by
  induction puts generalizing rows with
  | nil => exact ⟨[], (List.append_nil rows).symm, fun r none => by cases none⟩
  | cons kv puts ih =>
      obtain ⟨fresh, a⟩ := kv
      cases held : Dict.get rows fresh with
      | some other =>
          have refused : (artifactStore u).play rows ((fresh, a) :: puts) = (artifactStore u).play rows puts := by
            simp [ArtifactStore.play, artifactStore, PostgresArtifactRepo.put, held]
          rw [refused]
          exact ih rows
      | none =>
          have inserted : (artifactStore u).play rows ((fresh, a) :: puts) =
              let out := (artifactStore u).play (rows ++ [(fresh, a)]) puts
              (out.1, (fresh, a) :: out.2) := by
            simp [ArtifactStore.play, artifactStore, PostgresArtifactRepo.put, held]
          obtain ⟨added, final, found⟩ := ih (rows ++ [(fresh, a)])
          rw [inserted]
          refine ⟨(fresh, a) :: added, ?_, ?_⟩
          · rw [final, List.append_assoc, List.singleton_append]
          · intro r member
            rcases List.mem_cons.mp member with rfl | later
            · exact ⟨held, by simp [Dict.get]⟩
            · obtain ⟨absent, present⟩ := found r later
              rw [Dict.get_append] at absent
              cases first : Dict.get rows r.1 with
              | some b => simp [first] at absent
              | none =>
                  simp only [first, Option.orElse_none, Dict.get] at absent
                  split at absent
                  · cases absent
                  · next other => exact ⟨rfl, by simp only [Dict.get, if_neg other, present]⟩

/-- A reference is the primary key of its row: no later put gets it. -/
theorem immutable (puts : List (String × ArtifactPut)) : (artifactStore u).Immutable [] puts := by
  intro r member
  obtain ⟨added, final, found⟩ := play_rows (u := u) [] puts
  rw [final]
  simp [artifactStore, get, PostgresArtifactRepo.get, (found r member).2]

end PostgresArtifactStore

namespace S3ArtifactStore

variable {bucket : String}

theorem partition_scheme (rest : List Char) : (partition "://".toList ("s3://".toList ++ rest)).2 = rest := by
  rfl

/-- What stands before the first slash has none. -/
theorem slash_not_mem_partition (text : List Char) : '/' ∉ (partition "/".toList text).1 := by
  induction text with
  | nil => exact List.not_mem_nil
  | cons c text ih =>
      rw [partition]
      split
      · exact List.not_mem_nil
      · next other =>
          intro member
          rcases List.mem_cons.mp member with rfl | rest
          · exact other rfl
          · exact ih rest

theorem ref_toList (a : ArtifactPut) :
    (refOf bucket a).toList = "s3://".toList ++ (bucket.toList ++ '/' :: (keyOf a).toList) := by
  simp [refOf]

theorem located_ref (plain : '/' ∉ bucket.toList) (a : ArtifactPut) :
    located (refOf bucket a) = (bucket, keyOf a) := by
  simp only [located, ref_toList, partition_scheme, partition_slash plain, String.ofList_toList]

theorem located_elsewhere (slashed : '/' ∈ bucket.toList) (a : ArtifactPut) :
    (located (refOf bucket a)).1 ≠ bucket := by
  intro same
  apply slash_not_mem_partition (bucket.toList ++ '/' :: (keyOf a).toList)
  have read : String.ofList (partition "/".toList (bucket.toList ++ '/' :: (keyOf a).toList)).1 = bucket := by
    simpa only [located, ref_toList, partition_scheme] using same
  rw [← String.toList_inj, String.toList_ofList] at read
  rw [read]
  exact slashed

/-- The key of each put of a history. -/
def stored (puts : List (String × ArtifactPut)) : List (String × ArtifactPut) :=
  puts.map fun kv => (keyOf kv.2, kv.2)

/-- The assignments a history makes in the bucket. -/
def written (bucket : String) (puts : List (String × ArtifactPut)) : Objects :=
  (stored puts).map fun r => ((bucket, r.1), r.2.data)

theorem play_written (objects : Objects) (puts : List (String × ArtifactPut)) :
    (artifactStore bucket).play objects puts =
      (Dict.update objects (written bucket puts), puts.map fun kv => (refOf bucket kv.2, kv.2)) := by
  induction puts generalizing objects with
  | nil => rfl
  | cons kv puts ih =>
      obtain ⟨fresh, a⟩ := kv
      have stepped : (artifactStore bucket).play objects ((fresh, a) :: puts) =
          let out := (artifactStore bucket).play (put bucket objects a).1 puts
          (out.1, (refOf bucket a, a) :: out.2) := rfl
      rw [stepped, ih]
      rfl

/-- Nothing is found in another bucket. -/
theorem get_elsewhere {puts : List (String × ArtifactPut)} {place : String × String} (other : place.1 ≠ bucket) :
    Dict.get (Dict.update [] (written bucket puts)) place = none := by
  rw [← Option.not_isSome_iff_eq_none, ← Dict.mem_keys_iff, Dict.keys_update]
  rintro (member | none)
  · obtain ⟨kv, inside, rfl⟩ := List.mem_map.mp member
    obtain ⟨r, _, rfl⟩ := List.mem_map.mp inside
    exact other rfl
  · cases none

theorem found_written_iff (puts : List (String × ArtifactPut)) :
    (∀ r ∈ stored puts, Dict.get (Dict.update [] (written bucket puts)) (bucket, r.1) = some r.2.data) ↔
      Agree (stored puts) := by
  have all := Dict.get_update_iff ([] : Objects) (written bucket puts)
  simpa only [written, List.forall_mem_map, Prod.mk.injEq, true_and, Agree] using all

/-- References into a bucket never change their bytes exactly where the bucket's name can be
read back and no two puts of different bytes go under one run and name. -/
theorem immutable_iff (puts : List (String × ArtifactPut)) : (artifactStore bucket).Immutable [] puts ↔
    (puts = [] ∨ '/' ∉ bucket.toList) ∧ Agree (stored puts) := by
  have read : (artifactStore bucket).Immutable [] puts ↔ ∀ kv ∈ puts,
      get (Dict.update [] (written bucket puts)) (refOf bucket kv.2) = .ok kv.2.data := by
    unfold ArtifactStore.Immutable
    rw [play_written, List.forall_mem_map]
    rfl
  rw [read, ← @found_written_iff bucket, stored, List.forall_mem_map]
  by_cases slashed : '/' ∈ bucket.toList
  · constructor
    · intro found
      cases puts with
      | nil => exact ⟨.inl rfl, fun kv none => by cases none⟩
      | cons kv puts =>
          have lost := found kv List.mem_cons_self
          rw [get, get_elsewhere (located_elsewhere slashed kv.2)] at lost
          cases lost
    · rintro ⟨rfl | plain, _⟩
      · exact fun kv none => by cases none
      · exact absurd slashed plain
  · have here : ∀ kv : String × ArtifactPut,
        get (Dict.update [] (written bucket puts)) (refOf bucket kv.2) = .ok kv.2.data ↔
          Dict.get (Dict.update [] (written bucket puts)) (bucket, keyOf kv.2) = some kv.2.data := by
      intro kv
      rw [get, located_ref slashed]
      cases Dict.get (Dict.update [] (written bucket puts)) (bucket, keyOf kv.2) with
      | none => simp
      | some data => simp
    simp only [here, slashed, not_false_eq_true, or_true, true_and]

end S3ArtifactStore

/-- References of the database are immutable over every history of puts; those of the other two
stores exactly over the histories that never put different bytes under one reference, and those
into a bucket only where its name has no slash. -/
theorem references_immutable_iff (u : Unicode) (bucket : String) (puts : List (String × ArtifactPut)) :
    (PostgresArtifactStore.artifactStore u).Immutable [] puts ∧
    ((InMemoryArtifactStore.artifactStore u).Immutable {} puts ↔ Agree (InMemoryArtifactStore.refs 0 puts)) ∧
    ((S3ArtifactStore.artifactStore bucket).Immutable [] puts ↔
      (puts = [] ∨ '/' ∉ bucket.toList) ∧ Agree (S3ArtifactStore.stored puts)) :=
  ⟨PostgresArtifactStore.immutable puts, InMemoryArtifactStore.immutable_iff puts, S3ArtifactStore.immutable_iff puts⟩

/-- Two long replies to one run: the reference of the first leads to the second. -/
theorem second_reply_overwrites : ¬ ∀ (u : Unicode) (bucket : String) (puts : List (String × ArtifactPut)),
    (InMemoryArtifactStore.artifactStore u).Immutable {} puts ∧
    (PostgresArtifactStore.artifactStore u).Immutable [] puts ∧
    (S3ArtifactStore.artifactStore bucket).Immutable [] puts := by
  intro immutable
  obtain ⟨_, _, kept⟩ := immutable ⟨fun _ => false, fun _ => true⟩ "artifacts"
    [("", InProcessSubagent.artifactPut "r" "first"), ("", InProcessSubagent.artifactPut "r" "other")]
  rw [S3ArtifactStore.immutable_iff] at kept
  have same := kept.2 _ List.mem_cons_self _ (List.mem_cons_of_mem _ List.mem_cons_self) rfl
  revert same
  decide

end Maof
