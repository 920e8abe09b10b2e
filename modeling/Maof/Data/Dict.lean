import Mathlib.Data.List.Induction
import Mathlib.Data.List.Nodup

/-!
# Insertion-ordered dictionaries

An assignment to a present key keeps its place; a new key goes to the end.
-/

namespace Data

abbrev Dict (κ α : Type) : Type := List (κ × α)

namespace Dict

variable {κ α : Type} [DecidableEq κ]

def get : Dict κ α → κ → Option α
  | [], _ => none
  | (k', a) :: d, k => if k' = k then some a else get d k

def set : Dict κ α → κ → α → Dict κ α
  | [], k, a => [(k, a)]
  | (k', b) :: d, k, a => if k' = k then (k', a) :: d else (k', b) :: set d k a

/-- `{**d, **e}`. -/
def update (d e : Dict κ α) : Dict κ α := e.foldl (fun acc kv => set acc kv.1 kv.2) d

def keys (d : Dict κ α) : List κ := d.map Prod.fst

@[simp] theorem get_nil (k : κ) : get ([] : Dict κ α) k = none := rfl

@[simp] theorem get_set_self (d : Dict κ α) (k : κ) (a : α) : get (set d k a) k = some a := by
  induction d with
  | nil => simp [set, get]
  | cons kv d ih =>
      by_cases same : kv.1 = k
      · simp [set, get, same]
      · simp [set, get, same, ih]

@[simp] theorem get_set_ne (d : Dict κ α) {k k' : κ} (a : α) (other : k ≠ k') :
    get (set d k a) k' = get d k' := by
  induction d with
  | nil => simp [set, get, other]
  | cons kv d ih =>
      by_cases same : kv.1 = k
      · subst same
        simp [set, get, other]
      · simp only [set, same, if_false, get, ih]

theorem get_set (d : Dict κ α) (k k' : κ) (a : α) :
    get (set d k a) k' = if k = k' then some a else get d k' := by
  split
  · next same => rw [← same, get_set_self]
  · next other => exact get_set_ne d a other

theorem get_append (d e : Dict κ α) (k : κ) : get (d ++ e) k = (get d k).orElse fun _ => get e k := by
  induction d with
  | nil => rfl
  | cons kv d ih =>
      by_cases same : kv.1 = k
      · simp [get, same]
      · simp [get, same, ih]

/-- After a list of assignments a key has what it was last assigned. -/
theorem get_update (d e : Dict κ α) (k : κ) : get (update d e) k = (get e.reverse k).orElse fun _ => get d k := by
  induction e generalizing d with
  | nil => rfl
  | cons kv e ih =>
      have step : update d (kv :: e) = update (set d kv.1 kv.2) e := rfl
      rw [step, ih, List.reverse_cons, get_append, get_set]
      cases get e.reverse k with
      | some a => rfl
      | none =>
          by_cases same : kv.1 = k
          · simp [get, same]
          · simp [get, same]

theorem update_append (d e e' : Dict κ α) : update d (e ++ e') = update (update d e) e' :=
  List.foldl_append

theorem mem_keys_iff (d : Dict κ α) (k : κ) : k ∈ keys d ↔ (get d k).isSome := by
  induction d with
  | nil => simp [keys]
  | cons kv d ih =>
      by_cases same : kv.1 = k
      · simp [keys, get, same]
      · have other : k ≠ kv.1 := fun h => same h.symm
        simpa [keys, get, same, other] using ih

theorem mem_keys_set (d : Dict κ α) (k k' : κ) (a : α) :
    k' ∈ keys (set d k a) ↔ k' = k ∨ k' ∈ keys d := by
  simp only [mem_keys_iff, get_set]
  split
  · next same => simp [same]
  · next other => simp [Ne.symm other]

theorem mem_set {d : Dict κ α} {k : κ} {a : α} {kv : κ × α} (h : kv ∈ set d k a) : kv = (k, a) ∨ kv ∈ d := by
  induction d with
  | nil => exact .inl (List.mem_singleton.mp h)
  | cons kv' d ih =>
      simp only [set] at h
      split at h
      · next same =>
          rcases List.mem_cons.mp h with rfl | old
          · exact .inl (by rw [same])
          · exact .inr (List.mem_cons_of_mem _ old)
      · rcases List.mem_cons.mp h with rfl | old
        · exact .inr List.mem_cons_self
        · exact (ih old).imp_right (List.mem_cons_of_mem _)

theorem nodup_set {d : Dict κ α} (h : (keys d).Nodup) (k : κ) (a : α) : (keys (set d k a)).Nodup := by
  induction d with
  | nil => exact List.nodup_singleton _
  | cons kv d ih =>
      obtain ⟨new, rest⟩ := List.nodup_cons.mp h
      simp only [set]
      split
      · exact h
      · next other =>
          refine List.nodup_cons.mpr ⟨fun member => ?_, ih rest⟩
          rcases (mem_keys_set d k kv.1 a).mp member with same | old
          · exact other same
          · exact new old

theorem nodup_update {d : Dict κ α} (h : (keys d).Nodup) (e : Dict κ α) : (keys (update d e)).Nodup := by
  induction e generalizing d with
  | nil => exact h
  | cons kv e ih => exact ih (nodup_set h kv.1 kv.2)

theorem set_set (d : Dict κ α) (k : κ) (a b : α) : set (set d k a) k b = set d k b := by
  induction d with
  | nil => simp [set]
  | cons kv d ih =>
      simp only [set]
      split
      · next same => simp only [set, if_pos same]
      · next other => simp only [set, if_neg other, ih]

theorem keys_update (d e : Dict κ α) (k : κ) : k ∈ keys (update d e) ↔ k ∈ keys e ∨ k ∈ keys d := by
  induction e generalizing d with
  | nil => simp [update, keys]
  | cons kv e ih =>
      have step : update d (kv :: e) = update (set d kv.1 kv.2) e := rfl
      rw [step, ih, mem_keys_set]
      simp only [keys, List.map_cons, List.mem_cons]
      tauto

/-- An assignment to a key that is filtered out is not seen. -/
theorem filter_set {d : Dict κ α} {k : κ} {a : α} {keep : κ × α → Bool} (out : ∀ b, keep (k, b) = false) :
    (set d k a).filter keep = d.filter keep := by
  induction d with
  | nil => simp [set, out]
  | cons kv d ih =>
      obtain ⟨k', b⟩ := kv
      simp only [set]
      split
      · next same =>
          subst same
          simp [out]
      · simp only [List.filter_cons, ih]

/-- A key is found among its own assignments. -/
theorem get_filter (d : Dict κ α) (k : κ) : get (d.filter fun kv => kv.1 = k) k = get d k := by
  induction d with
  | nil => rfl
  | cons kv d ih =>
      by_cases same : kv.1 = k
      · simp [get, same]
      · simp [get, same, ih]

/-- With distinct keys, what is inside is what is found. -/
theorem get_of_mem {d : Dict κ α} (h : (keys d).Nodup) {k : κ} {a : α} (member : (k, a) ∈ d) :
    get d k = some a := by
  induction d with
  | nil => cases member
  | cons kv d ih =>
      obtain ⟨new, rest⟩ := List.nodup_cons.mp h
      rcases List.mem_cons.mp member with rfl | old
      · simp [get]
      · have other : kv.1 ≠ k := by
          rintro rfl
          exact new (List.mem_map.mpr ⟨_, old, rfl⟩)
        simp [get, other, ih rest old]

theorem mem_of_get {d : Dict κ α} {k : κ} {a : α} (h : get d k = some a) : (k, a) ∈ d := by
  induction d with
  | nil => cases h
  | cons kv d ih =>
      simp only [get] at h
      split at h
      · next same =>
          cases h
          exact List.mem_cons.mpr (.inl (by rw [← same]))
      · exact List.mem_cons_of_mem _ (ih h)

/-- What is set over an entry takes its place. -/
theorem set_of_get {d : Dict κ α} {k : κ} {a : α} (h : get d k = some a) :
    ∃ before after, d = before ++ (k, a) :: after ∧ ∀ b, set d k b = before ++ (k, b) :: after := by
  induction d with
  | nil => cases h
  | cons kv d ih =>
      by_cases same : kv.1 = k
      · simp only [get, if_pos same, Option.some.injEq] at h
        subst same h
        exact ⟨[], d, rfl, fun b => by simp [set]⟩
      · simp only [get, if_neg same] at h
        obtain ⟨before, after, split, sets⟩ := ih h
        refine ⟨kv :: before, after, ?_, ?_⟩
        · rw [split]
          rfl
        · intro b
          simp only [set, if_neg same, sets, List.cons_append]

/-- Assignments to keys that are distinct and new are put down one after the other. -/
theorem update_of_nodup {d e : Dict κ α} (h : (keys (d ++ e)).Nodup) : update d e = d ++ e := by
  have set_new : ∀ (d : Dict κ α) (k : κ) (a : α), k ∉ keys d → set d k a = d ++ [(k, a)] := by
    intro d k a new
    induction d with
    | nil => rfl
    | cons kv d ih =>
        have other : kv.1 ≠ k ∧ k ∉ keys d := by
          simpa [keys, eq_comm] using new
        rw [set, if_neg other.1, ih other.2, List.cons_append]
  induction e generalizing d with
  | nil => exact (List.append_nil d).symm
  | cons kv e ih =>
      have split : d ++ kv :: e = (d ++ [kv]) ++ e := by
        rw [List.append_assoc, List.singleton_append]
      rw [split] at h ⊢
      have new : kv.1 ∉ keys d := by
        have first : (keys (d ++ [kv])).Nodup := by
          rw [keys, List.map_append] at h
          exact (List.nodup_append.mp h).1
        rw [keys, List.map_append, List.map_singleton, List.nodup_append] at first
        intro member
        exact first.2.2 kv.1 member kv.1 (List.mem_singleton_self _) rfl
      have step : update d (kv :: e) = update (set d kv.1 kv.2) e := rfl
      rw [step, set_new d kv.1 kv.2 new]
      exact ih h

theorem keys_set_present {d : Dict κ α} {k : κ} (present : k ∈ keys d) (a : α) : keys (set d k a) = keys d := by
  obtain ⟨b, there⟩ := Option.isSome_iff_exists.mp ((mem_keys_iff d k).mp present)
  obtain ⟨before, after, rfl, sets⟩ := set_of_get there
  simp only [sets, keys, List.map_append, List.map_cons]

theorem keys_update_present {d e : Dict κ α} (present : keys e ⊆ keys d) : keys (update d e) = keys d := by
  induction e generalizing d with
  | nil => rfl
  | cons kv e ih =>
      have first := keys_set_present (present List.mem_cons_self) kv.2
      have rest : keys e ⊆ keys (set d kv.1 kv.2) := by
        rw [first]
        exact fun k member => present (List.mem_cons_of_mem _ member)
      exact (ih rest).trans first

/-- A dictionary is known by its keys in their order and by what is found under each. -/
theorem eq_of_get {d e : Dict κ α} (distinct : (keys d).Nodup) (same : keys d = keys e)
    (agree : ∀ k, get d k = get e k) : d = e := by
  induction d generalizing e with
  | nil =>
      cases e with
      | nil => rfl
      | cons kv e => cases same
  | cons kv d ih =>
      cases e with
      | nil => cases same
      | cons kv' e =>
          obtain ⟨first, rest⟩ := List.cons.inj same
          obtain ⟨new, distinct⟩ := List.nodup_cons.mp distinct
          have value := agree kv.1
          simp only [get, if_true, if_pos first.symm, Option.some.injEq] at value
          have tail : d = e := by
            refine ih distinct rest fun k => ?_
            by_cases mine : kv.1 = k
            · have absent : get d k = none := by
                rw [← Option.not_isSome_iff_eq_none, ← mem_keys_iff, ← mine]
                exact new
              have absent' : get e k = none := by
                rw [← Option.not_isSome_iff_eq_none, ← mem_keys_iff, ← mine, ← show keys d = keys e from rest]
                exact new
              rw [absent, absent']
            · have found := agree k
              simpa only [get, if_neg mine, if_neg (first ▸ mine)] using found
          rw [Prod.ext first value, tail]

/-- The same assignments once more change nothing. -/
theorem update_again {d e : Dict κ α} (distinct : (keys d).Nodup) : update (update d e) e = update d e := by
  have present : keys e ⊆ keys (update d e) := fun k member => (keys_update d e k).mpr (.inl member)
  refine (eq_of_get (nodup_update distinct e) (keys_update_present present).symm fun k => ?_).symm
  rw [get_update (update d e), get_update]
  cases get e.reverse k <;> rfl

/-- Every assignment of a list is found afterwards where no two of them disagree about a key. -/
theorem get_update_iff (d e : Dict κ α) : (∀ kv ∈ e, get (update d e) kv.1 = some kv.2) ↔
    ∀ kv ∈ e, ∀ kv' ∈ e, kv.1 = kv'.1 → kv.2 = kv'.2 := by
  constructor
  · intro found kv member kv' member' same
    have first := found kv member
    rw [same, found kv' member'] at first
    exact (Option.some.inj first).symm
  · intro agree kv member
    rw [get_update]
    have present : kv.1 ∈ keys e.reverse := List.mem_map_of_mem (List.mem_reverse.mpr member)
    obtain ⟨a, last⟩ := Option.isSome_iff_exists.mp ((mem_keys_iff e.reverse kv.1).mp present)
    have inside : (kv.1, a) ∈ e := List.mem_reverse.mp (mem_of_get last)
    rw [last, agree kv member (kv.1, a) inside rfl]
    rfl

end Dict
end Data
