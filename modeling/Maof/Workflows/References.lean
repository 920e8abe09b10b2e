import Maof.Workflows.Definition
import Mathlib.Data.List.TakeWhile

/-!
# What a reference means

Every placeholder of a text is found where it stands, whatever stands around it, and is bound
to what its path resolves to and to nothing else.
-/

namespace Maof

open Data (Dict)

namespace Template

variable {u : Unicode}

/-! ## A match and the text around it -/

/-- The blanks and the path between the braces of a match. -/
structure Match (u : Unicode) (lead p trail : List Char) : Prop where
  before : ∀ c ∈ lead, isSpace c = true
  path : ∀ c ∈ p, isPath u c = true
  after : ∀ c ∈ trail, isSpace c = true
  starts : ∃ c t, p = c :: t ∧ isSpace c = false
  ends : ∀ c t, trail = c :: t → isPath u c = false

/-- The text of a match, and what follows. -/
def braced (lead path trail rest : List Char) : List Char :=
  '{' :: '{' :: (lead ++ (path ++ (trail ++ '}' :: '}' :: rest)))

theorem braced_append (lead path trail rest t : List Char) :
    braced lead path trail rest ++ t = braced lead path trail (rest ++ t) := by
  simp [braced]

theorem head_dropWhile {p : Char → Bool} {s t : List Char} {c : Char} (h : s.dropWhile p = c :: t) : p c = false := by
  have first := List.head?_dropWhile_not p s
  rw [h] at first
  simpa using first

/-- Blanks and a path are taken up to where they end. -/
theorem matchHead_braced {lead path trail : List Char} (m : Match u lead path trail) (rest : List Char) :
    matchHead u (braced lead path trail rest) = some (path, rest) := by
  obtain ⟨c, p, same, inked⟩ := m.starts
  have first : (lead ++ (path ++ (trail ++ '}' :: '}' :: rest))).dropWhile isSpace = path ++ (trail ++ '}' :: '}' :: rest) := by
    rw [List.dropWhile_append_of_pos m.before, same, List.cons_append, List.dropWhile_cons_of_neg (by simp [inked])]
  have stop : ∀ c t, trail ++ '}' :: '}' :: rest = c :: t → isPath u c = false := by
    intro c t split
    cases trail with
    | nil =>
        cases split
        rfl
    | cons d trail =>
        cases split
        exact m.ends _ _ rfl
  have dropped : (trail ++ '}' :: '}' :: rest).dropWhile (isPath u) = trail ++ '}' :: '}' :: rest ∧
      (trail ++ '}' :: '}' :: rest).takeWhile (isPath u) = [] := by
    cases split : trail ++ '}' :: '}' :: rest with
    | nil => simp
    | cons d t =>
        have out := stop d t split
        exact ⟨List.dropWhile_cons_of_neg (by simp [out]), List.takeWhile_cons_of_neg (by simp [out])⟩
  have taken : (path ++ (trail ++ '}' :: '}' :: rest)).takeWhile (isPath u) = path := by
    rw [List.takeWhile_append_of_pos m.path, dropped.2, List.append_nil]
  have middle : (path ++ (trail ++ '}' :: '}' :: rest)).dropWhile (isPath u) = trail ++ '}' :: '}' :: rest := by
    rw [List.dropWhile_append_of_pos m.path, dropped.1]
  have last : (trail ++ '}' :: '}' :: rest).dropWhile isSpace = '}' :: '}' :: rest := by
    rw [List.dropWhile_append_of_pos m.after]
    rfl
  have some : path.isEmpty = false := by simp [same]
  simp only [braced, matchHead, first, taken, middle, last, some]
  rfl

/-- A match is braces, blanks, a path and blanks again. -/
theorem matchHead_iff {s p rest : List Char} :
    matchHead u s = some (p, rest) ↔ ∃ lead trail, Match u lead p trail ∧ s = braced lead p trail rest := by
  constructor
  · intro h
    unfold matchHead at h
    split at h
    · next tail =>
        simp only at h
        split at h
        · cases h
        · next some =>
            split at h
            · next closed =>
                cases h
                refine ⟨tail.takeWhile isSpace, ((tail.dropWhile isSpace).dropWhile (isPath u)).takeWhile isSpace,
                  ⟨fun c => List.mem_takeWhile_imp, fun c => List.mem_takeWhile_imp, fun c => List.mem_takeWhile_imp, ?_, ?_⟩, ?_⟩
                · cases inner : tail.dropWhile isSpace with
                  | nil => exact absurd (by rw [inner]; rfl) some
                  | cons c t =>
                      have inked := head_dropWhile inner
                      rw [inner] at some
                      by_cases within : isPath u c = true
                      · exact ⟨c, _, List.takeWhile_cons_of_pos within, inked⟩
                      · exact absurd (by rw [List.takeWhile_cons_of_neg within]; rfl) some
                · intro c t taken
                  cases after : (tail.dropWhile isSpace).dropWhile (isPath u) with
                  | nil =>
                      rw [after] at taken
                      cases taken
                  | cons d t' =>
                      have out := head_dropWhile after
                      rw [after] at taken
                      by_cases blank : isSpace d = true
                      · rw [List.takeWhile_cons_of_pos blank] at taken
                        cases taken
                        exact out
                      · rw [List.takeWhile_cons_of_neg blank] at taken
                        cases taken
                · rw [braced, ← closed]
                  simp only [List.takeWhile_append_dropWhile]
            · cases h
    · cases h
  · rintro ⟨lead, trail, m, rfl⟩
    exact matchHead_braced m rest

/-- What follows a match does not change it. -/
theorem matchHead_append {s p rest : List Char} (h : matchHead u s = some (p, rest)) (t : List Char) :
    matchHead u (s ++ t) = some (p, rest ++ t) := by
  obtain ⟨lead, trail, m, rfl⟩ := matchHead_iff.mp h
  rw [braced_append]
  exact matchHead_braced m _

theorem matchHead_other {c : Char} (other : c ≠ '{') (s : List Char) : matchHead u (c :: s) = none := by
  unfold matchHead
  split
  · next same => exact absurd (List.cons.inj same).1 other
  · rfl

/-- A match takes something of the text. -/
theorem matchHead_shorter {s p rest : List Char} (h : matchHead u s = some (p, rest)) : rest.length < s.length := by
  obtain ⟨lead, trail, -, rfl⟩ := matchHead_iff.mp h
  simp only [braced, List.length_cons, List.length_append]
  omega

/-- No brace is opened between the braces of a match. -/
theorem Match.closed {lead path trail : List Char} (m : Match u lead path trail) :
    '{' ∉ lead ++ (path ++ (trail ++ ['}', '}'])) := by
  have plain : isPath u '{' = false := rfl
  intro inside
  simp only [List.mem_append] at inside
  obtain inside | inside | inside | inside := inside
  · exact absurd (m.before _ inside) (by decide)
  · rw [m.path _ inside] at plain
    cases plain
  · exact absurd (m.after _ inside) (by decide)
  · exact absurd inside (by decide)

/-- No match that begins before two braces reaches beyond them. -/
theorem matchHead_before {s rest : List Char} (some : s ≠ []) (unmatched : matchHead u s = none) :
    matchHead u (s ++ '{' :: '{' :: rest) = none := by
  cases found : matchHead u (s ++ '{' :: '{' :: rest) with
  | none => rfl
  | some pr =>
      obtain ⟨p, r⟩ := pr
      obtain ⟨lead, trail, m, same⟩ := matchHead_iff.mp found
      have closed := m.closed
      have whole : braced lead p trail r = '{' :: '{' :: (lead ++ (p ++ (trail ++ ['}', '}'])) ++ r) := by simp [braced]
      have ends : lead ++ (p ++ (trail ++ ['}', '}'])) ≠ [] := by simp
      have again : ∀ t, matchHead u ('{' :: '{' :: (lead ++ (p ++ (trail ++ ['}', '}'])) ++ t)) = Option.some (p, t) := by
        intro t
        have reread := matchHead_braced m t
        simpa [braced] using reread
      rw [whole] at same
      generalize lead ++ (p ++ (trail ++ ['}', '}'])) = body at same closed ends again
      cases s with
      | nil => exact absurd rfl some
      | cons c s =>
          obtain ⟨rfl, tail⟩ := List.cons.inj (show c :: (s ++ '{' :: '{' :: rest) = '{' :: '{' :: (body ++ r) from same)
          clear same
          cases s with
          | nil =>
              -- the second brace before the path would be the first of the two
              cases body with
              | nil => exact absurd rfl ends
              | cons d body =>
                  obtain ⟨rfl, -⟩ := List.cons.inj (List.cons.inj tail).2
                  exact absurd List.mem_cons_self closed
          | cons d s =>
              obtain ⟨rfl, tail'⟩ := List.cons.inj (show d :: (s ++ '{' :: '{' :: rest) = '{' :: (body ++ r) from tail)
              clear tail
              obtain ⟨t, rfl, tail⟩ | ⟨t, rfl, -⟩ := List.append_eq_append_iff.mp tail'
              · cases t with
                | nil =>
                    have reread := again []
                    simp only [List.append_nil] at reread unmatched
                    rw [reread] at unmatched
                    cases unmatched
                | cons e t =>
                    obtain ⟨rfl, -⟩ := List.cons.inj tail
                    exact absurd (by simp) closed
              · rw [again t] at unmatched
                cases unmatched

/-! ## The pieces of a text -/

/-- The pieces of the whole text. -/
def scan (u : Unicode) (s : List Char) : List Piece := pieces u s.length s

theorem pieces_eq_scan {n : Nat} {s : List Char} (enough : s.length ≤ n) : pieces u n s = scan u s := by
  have stable : ∀ n m (s : List Char), s.length ≤ n → s.length ≤ m → pieces u n s = pieces u m s := by
    intro n
    induction n with
    | zero =>
        intro m s none _
        obtain rfl := List.eq_nil_of_length_eq_zero (Nat.le_zero.mp none)
        cases m <;> rfl
    | succ n ih =>
        intro m s le le'
        cases s with
        | nil => cases m <;> rfl
        | cons c s =>
            cases m with
            | zero => cases le'
            | succ m =>
                simp only [pieces]
                cases found : matchHead u (c :: s) with
                | none => simp only [ih m s (Nat.le_of_succ_le_succ le) (Nat.le_of_succ_le_succ le')]
                | some pr =>
                    obtain ⟨p, rest⟩ := pr
                    have shorter := matchHead_shorter found
                    simp only [List.length_cons] at le le' shorter
                    simp only [ih m rest (by omega) (by omega)]
  exact stable n s.length s enough (Nat.le_refl _)

@[simp] theorem scan_nil : scan u [] = [] := rfl

theorem scan_match {s p rest : List Char} (h : matchHead u s = some (p, rest)) : scan u s = .path p :: scan u rest := by
  cases s with
  | nil => cases h
  | cons c s =>
      have shorter := matchHead_shorter h
      simp only [List.length_cons] at shorter
      rw [scan, List.length_cons, pieces, h]
      simp only [pieces_eq_scan (show rest.length ≤ s.length by omega)]

theorem scan_text {c : Char} {s : List Char} (h : matchHead u (c :: s) = none) : scan u (c :: s) = .text c :: scan u s := by
  rw [scan, List.length_cons, pieces, h]
  rfl

/-- A match stands among the pieces between those of the text before it and those of the text after it. -/
theorem scan_around {lead p trail : List Char} (m : Match u lead p trail) (before after : List Char) :
    scan u (before ++ braced lead p trail after) = scan u before ++ .path p :: scan u after := by
  induction size : before.length using Nat.strongRecOn generalizing before with
  | ind n ih =>
      cases before with
      | nil => exact scan_match (matchHead_braced m after)
      | cons c before =>
          cases found : matchHead u (c :: before) with
          | none =>
              have beyond : matchHead u (c :: (before ++ braced lead p trail after)) = none :=
                matchHead_before (by simp) found
              rw [List.cons_append, scan_text beyond, scan_text found,
                ih before.length (by rw [← size]; exact Nat.lt_succ_self _) before rfl]
              rfl
          | some pr =>
              obtain ⟨q, rest⟩ := pr
              have shorter := matchHead_shorter found
              rw [scan_match found, scan_match (matchHead_append found _), ih rest.length (by omega) rest rfl]
              rfl

/-- Where the pattern matches nowhere every piece is a character. -/
theorem scan_unmarked {s : List Char} (unmarked : ∀ t, t <:+ s → matchHead u t = none) : scan u s = s.map .text := by
  induction s with
  | nil => rfl
  | cons c s ih =>
      rw [scan_text (unmarked _ (List.suffix_refl _)), ih fun t suffix => unmarked t (suffix.trans (List.suffix_cons c s))]
      rfl

theorem scan_blank {s : List Char} (blank : ∀ c ∈ s, isSpace c = true) : scan u s = s.map .text := by
  refine scan_unmarked fun t suffix => ?_
  cases t with
  | nil => rfl
  | cons c t =>
      refine matchHead_other (fun same => ?_) t
      have space := blank c (suffix.subset List.mem_cons_self)
      rw [same] at space
      cases space

/-- Pieces that are all characters spell the text. -/
theorem text_of_scan {s x : List Char} (h : scan u s = x.map .text) : s = x := by
  induction s generalizing x with
  | nil =>
      cases x with
      | nil => rfl
      | cons d x => cases h
  | cons c s ih =>
      cases found : matchHead u (c :: s) with
      | none =>
          rw [scan_text found] at h
          cases x with
          | nil => cases h
          | cons d x =>
              obtain ⟨same, rest⟩ := List.cons.inj h
              cases same
              rw [ih rest]
      | some pr =>
          rw [scan_match (show matchHead u (c :: s) = some (pr.1, pr.2) from found)] at h
          cases x with
          | nil => cases h
          | cons d x => cases (List.cons.inj h).1

/-! ## One placeholder and nothing else -/

def Blank (s : List Char) : Prop := ∀ c ∈ s, isSpace c = true

instance (s : List Char) : Decidable (Blank s) := List.decidableBAll (fun c => isSpace c = true) s

theorem strip_shape (s : List Char) : ∃ l t, s = l ++ (strip s ++ t) ∧ Blank l ∧ Blank t := by
  refine ⟨s.takeWhile isSpace, ((s.dropWhile isSpace).reverse.takeWhile isSpace).reverse, ?_,
    fun c => List.mem_takeWhile_imp, fun c inside => List.mem_takeWhile_imp (List.mem_reverse.mp inside)⟩
  rw [strip, ← List.reverse_append, List.takeWhile_append_dropWhile, List.reverse_reverse, List.takeWhile_append_dropWhile]

theorem strip_around {l t lead p trail : List Char} (before : Blank l) (after : Blank t) :
    strip (l ++ (braced lead p trail [] ++ t)) = braced lead p trail [] := by
  have first : (l ++ (braced lead p trail [] ++ t)).dropWhile isSpace = braced lead p trail [] ++ t := by
    rw [List.dropWhile_append_of_pos before, braced, List.cons_append, List.dropWhile_cons_of_neg (by decide)]
  have ends : (braced lead p trail []).reverse = '}' :: '}' :: (lead ++ (p ++ trail)).reverse ++ ['{', '{'] := by
    simp [braced]
  rw [strip, first, List.reverse_append, List.dropWhile_append_of_pos fun c inside => after c (List.mem_reverse.mp inside), ends,
    List.cons_append, List.dropWhile_cons_of_neg (by decide), ← List.cons_append, ← ends, List.reverse_reverse]

theorem fullMatch_iff {s p : List Char} :
    fullMatch u s = some p ↔ ∃ lead trail, Match u lead p trail ∧ s = braced lead p trail [] := by
  rw [← matchHead_iff, fullMatch]
  constructor
  · intro h
    split at h
    · next found =>
        cases h
        exact found
    · cases h
  · intro h
    rw [h]

/-- A text with something beside one placeholder is not that placeholder alone. -/
theorem fullMatch_beside {lead p trail before after : List Char} (m : Match u lead p trail)
    (beside : ¬(Blank before ∧ Blank after)) : fullMatch u (strip (before ++ braced lead p trail after)) = none := by
  cases found : fullMatch u (strip (before ++ braced lead p trail after)) with
  | none => rfl
  | some q =>
      obtain ⟨lead', trail', m', whole⟩ := fullMatch_iff.mp found
      obtain ⟨l, t, shape, blank, blank'⟩ := strip_shape (before ++ braced lead p trail after)
      rw [whole, braced_append, List.nil_append] at shape
      have pieces := scan_around m before after
      rw [shape, scan_around m', scan_blank blank, scan_blank blank'] at pieces
      have text : ∀ (x : List Char) (r : List Char), Piece.path r ∉ x.map Piece.text := by
        intro x r inside
        obtain ⟨c, -, same⟩ := List.mem_map.mp inside
        cases same
      refine absurd ?_ beside
      obtain ⟨n, first, rest⟩ | ⟨n, first, rest⟩ := List.append_eq_append_iff.mp pieces
      · cases n with
        | nil =>
            rw [List.append_nil] at first
            obtain ⟨-, rest⟩ := List.cons.inj rest
            exact ⟨text_of_scan first ▸ blank, text_of_scan rest.symm ▸ blank'⟩
        | cons piece n =>
            have tail : t.map Piece.text = n ++ .path p :: scan u after := (List.cons.inj rest).2
            exact absurd (by rw [tail]; simp) (text t p)
      · cases n with
        | nil =>
            rw [List.append_nil] at first
            obtain ⟨-, rest⟩ := List.cons.inj rest
            exact ⟨text_of_scan first.symm ▸ blank, text_of_scan rest ▸ blank'⟩
        | cons piece n =>
            obtain ⟨rfl, -⟩ := List.cons.inj rest
            exact absurd (by rw [first]; simp) (text l p)

/-! ## Binding a text -/

variable {context : Dict String Json} {outputs : Outputs}

/-- What a placeholder becomes inside a text. -/
def spliced (u : Unicode) (value : Json) : List Char := if value.truthy then pyStr u value else []

/-- The text with each placeholder replaced. -/
def substitute (u : Unicode) (context : Dict String Json) (outputs : Outputs) (s : List Char) : List Char :=
  (scan u s).flatMap fun
    | .text c => [c]
    | .path p => spliced u (resolvePath context outputs p)

theorem bindString_whole {s : String} {p : List Char} (whole : fullMatch u (strip s.toList) = some p) :
    bindString u context outputs s = resolvePath context outputs p := by
  rw [bindString, whole]

theorem bindString_text {s : String} (text : fullMatch u (strip s.toList) = none) :
    bindString u context outputs s = .str (String.ofList (substitute u context outputs s.toList)) := by
  rw [bindString, text]
  rfl

theorem substitute_around {lead p trail : List Char} (m : Match u lead p trail) (before after : List Char) :
    substitute u context outputs (before ++ braced lead p trail after) = substitute u context outputs before ++
      (spliced u (resolvePath context outputs p) ++ substitute u context outputs after) := by
  simp only [substitute, scan_around m, List.flatMap_append, List.flatMap_cons]

/-! ## Addresses -/

/-- The path of a reference into the output of a step. -/
def reference (id : StepId) (keys : List String) : List Char :=
  "steps.".toList ++ (id.toList ++ (".output".toList ++ keys.flatMap fun k => '.' :: k.toList))

theorem reference_eq (id : StepId) (keys : List String) : reference id keys =
    "steps.".toList ++ (id.toList ++ (".output".toList ++ keys.flatMap fun k => '.' :: k.toList)) := rfl

/-- `{{ steps.<id>.output.<keys> }}`. -/
def placeholder (id : StepId) (keys : List String) : List Char := braced [' '] (reference id keys) [' '] []

/-- Made of word characters and dashes. -/
def Word (u : Unicode) (s : String) : Prop := ∀ c ∈ s.toList, isPath u c = true ∧ c ≠ '.'

instance (u : Unicode) (s : String) : Decidable (Word u s) :=
  List.decidableBAll (fun c => isPath u c = true ∧ c ≠ '.') s.toList

/-- The value at a path of keys, or `None`. -/
def valueAt (out : Dict String Json) (keys : List String) : Json := (at? (keys.map .inl) (.obj out)).getD .null

theorem follow_eq (keys : List String) (value : Json) : follow keys value = (at? (keys.map .inl) value).getD .null := by
  induction keys generalizing value with
  | nil => rfl
  | cons k keys ih =>
      cases value with
      | obj fields =>
          rw [follow, ih, List.map_cons, at?]
          cases Dict.get fields k with
          | some inner => rfl
          | none => cases keys <;> rfl
      | _ => rfl

theorem splitDots_append {a : List Char} (dotless : '.' ∉ a) (b : List Char) : splitDots (a ++ '.' :: b) = a :: splitDots b := by
  induction a with
  | nil => simp [splitDots]
  | cons c a ih =>
      obtain ⟨here, later⟩ := not_or.mp (fun inside => dotless (List.mem_cons.mpr inside))
      simp only [List.cons_append, splitDots, if_neg (Ne.symm here), ih later]

theorem splitDots_ne_nil (s : List Char) : splitDots s ≠ [] := by
  cases s with
  | nil => simp [splitDots]
  | cons c s =>
      rw [splitDots]
      split
      · simp
      · split <;> simp

theorem splitDots_cut (a b : List Char) : splitDots (a ++ '.' :: b) = splitDots a ++ splitDots b := by
  induction a with
  | nil => simp [splitDots]
  | cons c a ih =>
      by_cases dot : c = '.'
      · simp only [List.cons_append, splitDots, if_pos dot, ih]
      · simp only [List.cons_append, splitDots, if_neg dot, ih]
        cases split : splitDots a with
        | nil => exact absurd split (splitDots_ne_nil a)
        | cons part parts => rfl

theorem splitDots_keys {keys : List String} (words : ∀ k ∈ keys, '.' ∉ k.toList) {a : List Char} (dotless : '.' ∉ a) :
    splitDots (a ++ keys.flatMap fun k => '.' :: k.toList) = a :: keys.map String.toList := by
  induction keys generalizing a with
  | nil => rw [List.flatMap_nil, List.append_nil, splitDots_dotless dotless]; rfl
  | cons k keys ih =>
      obtain ⟨first, rest⟩ := List.forall_mem_cons.mp words
      rw [List.flatMap_cons, List.cons_append, splitDots_append dotless, ih rest first]
      rfl

variable {id : StepId} {keys : List String}

theorem pathParts_reference (words : ∀ k ∈ keys, Word u k) :
    pathParts (reference id keys) = "steps" :: (pathParts id.toList ++ "output" :: keys) := by
  have front : "steps.".toList = "steps".toList ++ ['.'] := by decide
  have back : ".output".toList = '.' :: "output".toList := by decide
  have shape : reference id keys = "steps".toList ++ '.' :: (id.toList ++ '.' :: ("output".toList ++ keys.flatMap fun k => '.' :: k.toList)) := by
    rw [reference_eq, front, back, List.append_assoc]
    rfl
  have dotless : ∀ k ∈ keys, '.' ∉ k.toList := fun k inside dot => (words k inside '.' dot).2 rfl
  have first : '.' ∉ "steps".toList := by decide
  have third : '.' ∉ "output".toList := by decide
  have named : (keys.map String.toList).map String.ofList = keys := by
    rw [List.map_map]
    exact (List.map_congr_left fun k _ => String.ofList_toList).trans (List.map_id keys)
  rw [shape, pathParts, splitDots_append first, splitDots_cut, splitDots_keys dotless third, List.map_cons,
    List.map_append, List.map_cons, named, String.ofList_toList, String.ofList_toList]
  rfl

/-- A reference by an id of word characters and dashes reads that step's output. -/
theorem resolvePath_word (word : Word u id) (words : ∀ k ∈ keys, Word u k) {out : Dict String Json}
    (there : Dict.get outputs id = some out) : resolvePath context outputs (reference id keys) = valueAt out keys := by
  have dotless : '.' ∉ id.toList := fun dot => (word '.' dot).2 rfl
  have parts : pathParts id.toList = [id] := by
    rw [pathParts, splitDots_dotless dotless]
    simp [String.ofList_toList]
  simp only [resolvePath, pathParts_reference words, parts, List.cons_append, List.nil_append, there, Option.getD_some]
  exact follow_eq keys (.obj out)

theorem follow_null (keys : List String) : follow keys .null = .null := by
  cases keys <;> rfl

/-- A reference by an id with a dot never reads that step's output. -/
theorem resolvePath_dotted (dotted : '.' ∈ id.toList) (words : ∀ k ∈ keys, Word u k) (out : Dict String Json) :
    resolvePath context [(id, out)] (reference id keys) = .null := by
  obtain ⟨a, b, cut, dotless⟩ := List.eq_append_cons_of_mem dotted
  have other : id ≠ String.ofList a := by
    intro same
    rw [same, String.toList_ofList] at dotted
    exact dotless dotted
  have parts : pathParts id.toList = String.ofList a :: pathParts b := by
    rw [pathParts, cut, splitDots_append dotless]
    rfl
  rw [resolvePath, pathParts_reference words, parts]
  cases split : pathParts b with
  | nil => exact absurd (List.map_eq_nil_iff.mp split) (splitDots_ne_nil b)
  | cons second rest =>
      simp only [List.cons_append]
      split
      · next same => exact absurd (List.cons.inj same).1 (by decide)
      · next first parts same =>
          obtain ⟨-, ids⟩ := List.cons.inj same
          obtain ⟨rfl, rests⟩ := List.cons.inj ids
          obtain ⟨-, rfl⟩ := List.cons.inj rests
          have absent : Dict.get [(id, out)] (String.ofList a) = none := by simp [Dict.get, other]
          rw [absent]
          cases rest with
          | nil => exact follow_null keys
          | cons k rest => exact follow_null _
      · rfl

/-- Only word characters, dashes and dots make a path. -/
theorem reference_match (path : ∀ c ∈ id.toList, isPath u c = true) (words : ∀ k ∈ keys, Word u k) :
    Match u [' '] (reference id keys) [' '] where
  before := List.forall_mem_singleton.mpr rfl
  path := by
    have fixed : ∀ c ∈ "steps..output".toList, isPath u c = true := by
      intro c inside
      have ascii : JsonText.Throughout (fun c => c.toNat < 128 ∧ (c.isAlphanum || c = '_' || c = '.' || c = '-') = true)
          "steps..output".toList := by
        decide
      rw [isPath, if_pos (ascii c inside).1]
      exact (ascii c inside).2
    intro c inside
    simp only [reference_eq, List.mem_append, List.mem_flatMap] at inside
    obtain inside | inside | inside | ⟨k, among, inside⟩ := inside
    · have within : "steps.".toList ⊆ "steps..output".toList := by decide
      exact fixed c (within inside)
    · exact path c inside
    · have within : ".output".toList ⊆ "steps..output".toList := by decide
      exact fixed c (within inside)
    · obtain rfl | inside := List.mem_cons.mp inside
      · exact fixed '.' (by decide)
      · exact (words k among c inside).1
  after := List.forall_mem_singleton.mpr rfl
  starts := ⟨'s', _, rfl, by decide⟩
  ends := by
    intro c t same
    cases same
    rfl

/-- With another character in the id the placeholder is no placeholder. -/
theorem fullMatch_unaddressed {c : Char} (inside : c ∈ id.toList) (other : isPath u c = false) :
    fullMatch u (placeholder id keys) = none := by
  cases found : fullMatch u (placeholder id keys) with
  | none => rfl
  | some q =>
      obtain ⟨lead, trail, m, same⟩ := fullMatch_iff.mp found
      have core : ' ' :: (reference id keys ++ [' ']) = lead ++ (q ++ trail) := by
        have closed : (' ' :: (reference id keys ++ [' '])) ++ ['}', '}'] = lead ++ (q ++ trail) ++ ['}', '}'] := by
          simpa [placeholder, braced] using same
        exact List.append_cancel_right closed
      obtain ⟨i, j, cut⟩ := List.append_of_mem inside
      have shape : reference id keys ++ [' '] = ("steps.".toList ++ i) ++
          c :: (j ++ '.' :: ("output".toList ++ (keys.flatMap fun k => '.' :: k.toList) ++ [' '])) := by
        have back : ".output".toList = '.' :: "output".toList := by decide
        rw [reference_eq, cut, back]
        simp only [List.append_assoc, List.cons_append]
      generalize "output".toList ++ (keys.flatMap fun k => '.' :: k.toList) ++ [' '] = z at shape
      -- the path begins where the reference does
      have begins : reference id keys ++ [' '] = q ++ trail := by
        obtain ⟨d, t, split, inked⟩ := m.starts
        cases lead with
        | nil =>
            rw [split] at core
            rw [← (List.cons.inj core).1] at inked
            cases inked
        | cons e lead =>
            have rest : 's' :: _ = lead ++ (q ++ trail) := (List.cons.inj core).2
            cases lead with
            | nil => exact (List.cons.inj core).2
            | cons f lead =>
                have blank := m.before f (by simp)
                rw [← (List.cons.inj rest).1] at blank
                cases blank
      rw [shape] at begins
      have dot : '.' ∉ trail := fun among => absurd (m.after '.' among) (by decide)
      obtain ⟨n, front, rest⟩ | ⟨n, front, rest⟩ := List.append_eq_append_iff.mp begins
      · cases n with
        | nil =>
            have rest : c :: (j ++ '.' :: z) = trail := rest
            exact absurd (by rw [← rest]; simp) dot
        | cons d n =>
            obtain ⟨rfl, -⟩ := List.cons.inj rest
            have path := m.path c (by rw [front]; simp)
            rw [other] at path
            cases path
      · exact absurd (by rw [rest]; simp) dot

/-! ## What a reference is bound to -/

/-- `str` of a value, and nothing of `None`. -/
def spoken (u : Unicode) : Json → List Char
  | .null => []
  | value => pyStr u value

/-- A value that counts as false is spliced as nothing, whatever `str` makes of it. -/
theorem spliced_eq_spoken (value : Json) :
    spliced u value = spoken u value ↔ value.truthy = true ∨ value = .null ∨ value = .str "" := by
  by_cases truthy : value.truthy = true
  · cases value with
    | null => cases truthy
    | _ => simp [spliced, spoken, truthy]
  · rw [spliced, if_neg truthy]
    simp only [truthy]
    have empty : ∀ s : List Char, [] = s ↔ s = [] := fun s => eq_comm
    cases value with
    | null => simp [spoken]
    | bool b =>
        cases b with
        | true => exact absurd rfl truthy
        | false => simp [spoken, pyStr, pyRepr]
    | int n =>
        obtain rfl : n = 0 := by simpa [Json.truthy] using truthy
        simp [spoken, pyStr, pyRepr, JsonText.intText, JsonText.digits]
    | float x =>
        cases x with
        | dec neg coeff exp =>
            obtain rfl : coeff = 0 := by simpa [Json.truthy, PyFloat.isZero] using truthy
            cases neg <;> simp [spoken, pyStr, pyRepr, JsonText.floatText, JsonText.digits]
        | _ => exact absurd rfl truthy
    | str s =>
        obtain rfl : s = "" := by simpa [Json.truthy] using truthy
        simp [spoken, pyStr]
    | arr xs => simp [spoken, pyStr, pyRepr]
    | obj fields => simp [spoken, pyStr, pyRepr]

theorem bind_whole {lead p trail before after : List Char} (m : Match u lead p trail) (blank : Blank before) (blank' : Blank after) :
    bind u context outputs (.str (String.ofList (before ++ (braced lead p trail [] ++ after)))) = resolvePath context outputs p := by
  rw [bind, bindString_whole]
  rw [String.toList_ofList, strip_around blank blank']
  exact fullMatch_iff.mpr ⟨lead, trail, m, rfl⟩

theorem bind_embedded {lead p trail before after : List Char} (m : Match u lead p trail) (beside : ¬(Blank before ∧ Blank after)) :
    bind u context outputs (.str (String.ofList (before ++ (braced lead p trail [] ++ after)))) =
      .str (String.ofList (substitute u context outputs before ++
        (spliced u (resolvePath context outputs p) ++ substitute u context outputs after))) := by
  rw [braced_append, List.nil_append, bind, bindString_text]
  · rw [String.toList_ofList, substitute_around m]
  · rw [String.toList_ofList]
    exact fullMatch_beside m beside

/-- A text in which the pattern matches nowhere is left as it is. -/
theorem bind_unmarked {s : String} (unmarked : ∀ t, t <:+ s.toList → matchHead u t = none) :
    bind u context outputs (.str s) = .str s := by
  have text : fullMatch u (strip s.toList) = none := by
    cases found : fullMatch u (strip s.toList) with
    | none => rfl
    | some p =>
        obtain ⟨lead, trail, m, whole⟩ := fullMatch_iff.mp found
        obtain ⟨l, t, shape, -, -⟩ := strip_shape s.toList
        rw [whole, braced_append] at shape
        have none := unmarked _ ⟨l, shape.symm⟩
        rw [matchHead_braced m] at none
        cases none
  rw [bind, bindString_text text, substitute, scan_unmarked unmarked, List.flatMap_map, List.flatMap_singleton', String.ofList_toList]

/-- An output with an empty dictionary at a path. -/
def nested : List String → Dict String Json
  | [] => []
  | k :: keys => [(k, .obj (nested keys))]

theorem valueAt_nested (keys : List String) : valueAt (nested keys) keys = .obj [] := by
  have found : at? (keys.map .inl) (.obj (nested keys)) = some (.obj []) := by
    induction keys with
    | nil => rfl
    | cons k keys ih => simp [at?, nested, Dict.get, ih]
  rw [valueAt, found, Option.getD_some]

/-- An id with another character, or with a dot, cannot be referred to. -/
theorem word_of_bound (words : ∀ k ∈ keys, Word u k)
    (bound : bind u [] [(id, nested keys)] (.str (String.ofList (placeholder id keys))) = .obj []) : Word u id := by
  have path : ∀ c ∈ id.toList, isPath u c = true := by
    intro c inside
    by_contra other
    have other : isPath u c = false := by simpa using other
    have clean : strip (placeholder id keys) = placeholder id keys := by
      have around := @strip_around [] [] [' '] (reference id keys) [' '] (by simp [Blank]) (by simp [Blank])
      simpa [placeholder] using around
    rw [bind, bindString_text (by rw [String.toList_ofList, clean]; exact fullMatch_unaddressed inside other)] at bound
    cases bound
  intro c inside
  refine ⟨path c inside, fun dot => ?_⟩
  have m := reference_match path words
  have whole := @bind_whole u [] [(id, nested keys)] _ _ _ [] [] m (by simp [Blank]) (by simp [Blank])
  rw [resolvePath_dotted (dot ▸ inside) words] at whole
  simp only [List.nil_append, List.append_nil] at whole
  rw [placeholder, whole] at bound
  cases bound

end Template

open Template

/-- A whole-value reference yields what it names, for every output, just where the id is made of word
characters and dashes. An embedded one then yields `str` of it just where the value counts as true or
is nothing at all. -/
theorem references_mean_iff (u : Unicode) (id : StepId) (keys : List String) (words : ∀ k ∈ keys, Word u k) :
    (Word u id ↔ ∀ context outputs out before after, Dict.get outputs id = some out → Blank before → Blank after →
      Template.bind u context outputs (.str (String.ofList (before ++ (placeholder id keys ++ after)))) = valueAt out keys) ∧
    (Word u id → ∀ context outputs out before after, Dict.get outputs id = some out → ¬(Blank before ∧ Blank after) →
      (Template.bind u context outputs (.str (String.ofList (before ++ (placeholder id keys ++ after)))) =
          .str (String.ofList (substitute u context outputs before ++
            (spoken u (valueAt out keys) ++ substitute u context outputs after))) ↔
        (valueAt out keys).truthy = true ∨ valueAt out keys = .null ∨ valueAt out keys = .str "")) ∧
    ∀ context outputs (s : String), (∀ t, t <:+ s.toList → matchHead u t = none) →
      Template.bind u context outputs (.str s) = .str s := by
  refine ⟨⟨?_, ?_⟩, ?_, fun context outputs s unmarked => bind_unmarked unmarked⟩
  · intro word context outputs out before after there blank blank'
    have m := reference_match (fun c inside => (word c inside).1) words
    rw [placeholder, bind_whole m blank blank', resolvePath_word word words there]
  · intro means
    have bound := means [] [(id, nested keys)] (nested keys) [] [] (by simp [Dict.get]) (by simp [Blank]) (by simp [Blank])
    rw [valueAt_nested, List.nil_append, List.append_nil] at bound
    exact word_of_bound words bound
  · intro word context outputs out before after there beside
    have m := reference_match (fun c inside => (word c inside).1) words
    rw [placeholder, bind_embedded m beside, resolvePath_word word words there, ← spliced_eq_spoken (u := u)]
    constructor
    · intro same
      have texts := String.ofList_injective (Json.str.inj same)
      exact List.append_cancel_right (List.append_cancel_left texts)
    · intro same
      rw [same]

/-- The output of the step `plan` is read by its id. -/
theorem references_mean_plan : Template.bind ⟨fun _ => false, fun _ => false⟩ [] [("plan", [("plan_id", .str "p-1")])]
    (.str (String.ofList ([' '] ++ (placeholder "plan" ["plan_id"] ++ [])))) = .str "p-1" := by
  have word : Word ⟨fun _ => false, fun _ => false⟩ "plan" := by
    decide
  have words : ∀ k ∈ ["plan_id"], Word ⟨fun _ => false, fun _ => false⟩ k := by
    decide
  exact (references_mean_iff ⟨fun _ => false, fun _ => false⟩ "plan" ["plan_id"] words).1.mp word []
    [("plan", [("plan_id", .str "p-1")])] [("plan_id", .str "p-1")] [' '] [] rfl (by decide) (by decide)

/-- A definition whose one step has a dot in its id. -/
def drafting : WorkflowDefinition where
  name := "drafting"
  version := 1
  steps := [{ id := "draft.v2", taskType := some "draft" }]

/-- Validation accepts an id whose output no template reads. -/
theorem draft_unread : ¬ ∀ (u : Unicode) (d : WorkflowDefinition), d.Accepted → ∀ id ∈ d.ids, ∀ keys : List String,
    (∀ k ∈ keys, Word u k) → ∀ context outputs out, Dict.get outputs id = some out →
      Template.bind u context outputs (.str (String.ofList (placeholder id keys))) = valueAt out keys ∧
      ∀ before after, ¬(Blank before ∧ Blank after) →
        Template.bind u context outputs (.str (String.ofList (before ++ (placeholder id keys ++ after)))) =
          .str (String.ofList (substitute u context outputs before ++
            (spoken u (valueAt out keys) ++ substitute u context outputs after))) := by
  intro means
  have accepted : drafting.Accepted := by
    unfold WorkflowDefinition.Accepted
    decide
  have bound := (means ⟨fun _ => false, fun _ => false⟩ drafting accepted "draft.v2" (by decide) ["text"]
    (by decide) [] [("draft.v2", nested ["text"])] (nested ["text"]) rfl).1
  rw [valueAt_nested] at bound
  have word := word_of_bound (by decide) bound
  exact (word '.' (by decide)).2 rfl

/-! ## What a value is bound to -/

namespace Template

variable {u : Unicode} {context context' : Dict String Json} {outputs outputs' : Outputs}

/-- The paths written in the placeholders of a text. -/
def textPaths (u : Unicode) (s : String) : List (List Char) :=
  (scan u s.toList).filterMap fun
    | .text _ => none
    | .path p => some p

mutual
/-- The paths written in the placeholders of a value. -/
def paths (u : Unicode) : Json → List (List Char)
  | .str s => textPaths u s
  | .obj fields => fieldPaths u fields
  | .arr xs => itemPaths u xs
  | _ => []

def itemPaths (u : Unicode) : List Json → List (List Char)
  | [] => []
  | x :: xs => paths u x ++ itemPaths u xs

def fieldPaths (u : Unicode) : List (String × Json) → List (List Char)
  | [] => []
  | (_, x) :: fields => paths u x ++ fieldPaths u fields
end

/-- The value with each text filled in by what its paths resolve to, and nothing else changed: a text
that is one placeholder by the very value, another by the text with each placeholder replaced. -/
inductive Filled (u : Unicode) (resolve : List Char → Json) : Json → Json → Prop
  | whole {s : String} {p : List Char} (only : fullMatch u (strip s.toList) = some p) : Filled u resolve (.str s) (resolve p)
  | text {s : String} (more : fullMatch u (strip s.toList) = none) :
      Filled u resolve (.str s) (.str (String.ofList ((scan u s.toList).flatMap fun
        | .text c => [c]
        | .path p => spliced u (resolve p))))
  | null : Filled u resolve .null .null
  | bool (b : Bool) : Filled u resolve (.bool b) (.bool b)
  | int (n : Int) : Filled u resolve (.int n) (.int n)
  | float (x : PyFloat) : Filled u resolve (.float x) (.float x)
  | arr {xs ys : List Json} (size : ys.length = xs.length)
      (items : ∀ (i : Nat) x y, xs[i]? = some x → ys[i]? = some y → Filled u resolve x y) : Filled u resolve (.arr xs) (.arr ys)
  | obj {fs gs : List (String × Json)} (keys : Dict.keys gs = Dict.keys fs)
      (values : ∀ (i : Nat) f g, fs[i]? = some f → gs[i]? = some g → Filled u resolve f.2 g.2) :
      Filled u resolve (.obj fs) (.obj gs)

theorem bindItems_eq (xs : List Json) : bindItems u context outputs xs = xs.map (bind u context outputs) := by
  induction xs with
  | nil => rfl
  | cons x xs ih => simp only [bindItems, List.map_cons, ih]

theorem bindFields_eq (fields : List (String × Json)) :
    bindFields u context outputs fields = fields.map fun f => (f.1, bind u context outputs f.2) := by
  induction fields with
  | nil => rfl
  | cons f fields ih => simp only [bindFields, List.map_cons, ih]

theorem filled_text (s : String) : Filled u (resolvePath context outputs) (.str s) (bindString u context outputs s) := by
  cases found : fullMatch u (strip s.toList) with
  | none =>
      rw [bindString_text found]
      exact .text found
  | some p =>
      rw [bindString_whole found]
      exact .whole found

mutual
theorem filled : ∀ value : Json, Filled u (resolvePath context outputs) value (bind u context outputs value)
  | .null => .null
  | .bool b => .bool b
  | .int n => .int n
  | .float x => .float x
  | .str s => by
      rw [bind]
      exact filled_text s
  | .arr xs => by
      rw [bind, bindItems_eq]
      refine .arr (List.length_map _) fun i x y there found => ?_
      rw [List.getElem?_map, there] at found
      cases found
      exact filledItems xs x (List.mem_of_getElem? there)
  | .obj fields => by
      rw [bind, bindFields_eq]
      refine .obj (by simp [Dict.keys, Function.comp_def]) fun i f g there found => ?_
      rw [List.getElem?_map, there] at found
      cases found
      exact filledFields fields f (List.mem_of_getElem? there)

theorem filledItems : ∀ xs : List Json, ∀ x ∈ xs, Filled u (resolvePath context outputs) x (bind u context outputs x)
  | [] => by simp
  | x :: xs => List.forall_mem_cons.mpr ⟨filled x, filledItems xs⟩

theorem filledFields : ∀ fields : List (String × Json), ∀ f ∈ fields,
    Filled u (resolvePath context outputs) f.2 (bind u context outputs f.2)
  | [] => by simp
  | (_, x) :: fields => List.forall_mem_cons.mpr ⟨filled x, filledFields fields⟩
end

/-- The path of a text that is one placeholder is among the paths of the text. -/
theorem mem_textPaths {s : String} {p : List Char} (whole : fullMatch u (strip s.toList) = some p) : p ∈ textPaths u s := by
  obtain ⟨lead, trail, m, same⟩ := fullMatch_iff.mp whole
  obtain ⟨l, t, shape, -, -⟩ := strip_shape s.toList
  rw [same, braced_append] at shape
  rw [textPaths, shape, scan_around m, List.filterMap_append]
  exact List.mem_append_right _ (by simp)

/-- Two resolvers that agree on the paths of a text bind it alike. -/
theorem bindString_paths {s : String}
    (agree : ∀ p ∈ textPaths u s, resolvePath context outputs p = resolvePath context' outputs' p) :
    bindString u context outputs s = bindString u context' outputs' s := by
  cases found : fullMatch u (strip s.toList) with
  | some p => rw [bindString_whole found, bindString_whole found, agree p (mem_textPaths found)]
  | none =>
      rw [bindString_text found, bindString_text found, substitute, substitute]
      congr 2
      refine List.flatMap_congr fun piece inside => ?_
      cases piece with
      | text c => rfl
      | path p =>
          have member : p ∈ textPaths u s := List.mem_filterMap.mpr ⟨.path p, inside, rfl⟩
          simp only [agree p member]

mutual
theorem bind_paths : ∀ value, (∀ p ∈ paths u value, resolvePath context outputs p = resolvePath context' outputs' p) →
    bind u context outputs value = bind u context' outputs' value
  | .str s, agree => by
      rw [bind, bind]
      exact bindString_paths agree
  | .obj fields, agree => by
      rw [bind, bind, bindFields_paths fields agree]
  | .arr xs, agree => by
      rw [bind, bind, bindItems_paths xs agree]
  | .null, _ => rfl
  | .bool _, _ => rfl
  | .int _, _ => rfl
  | .float _, _ => rfl

theorem bindItems_paths : ∀ xs, (∀ p ∈ itemPaths u xs, resolvePath context outputs p = resolvePath context' outputs' p) →
    bindItems u context outputs xs = bindItems u context' outputs' xs
  | [], _ => rfl
  | x :: xs, agree => by
      rw [itemPaths, List.forall_mem_append] at agree
      rw [bindItems, bindItems, bind_paths x agree.1, bindItems_paths xs agree.2]

theorem bindFields_paths : ∀ fields, (∀ p ∈ fieldPaths u fields, resolvePath context outputs p = resolvePath context' outputs' p) →
    bindFields u context outputs fields = bindFields u context' outputs' fields
  | [], _ => rfl
  | (k, x) :: fields, agree => by
      rw [fieldPaths, List.forall_mem_append] at agree
      rw [bindFields, bindFields, bind_paths x agree.1, bindFields_paths fields agree.2]
end

end Template

/-- Binding depends on the run only at the paths written in the value, and what the paths resolve to
is put where they stand, unread. -/
theorem binding_injects_nothing {u : Unicode} {value : Json} {context context' : Dict String Json} {outputs outputs' : Outputs}
    (agree : ∀ p ∈ paths u value, resolvePath context outputs p = resolvePath context' outputs' p) :
    Template.bind u context outputs value = Template.bind u context' outputs' value ∧
      Filled u (resolvePath context outputs) value (Template.bind u context outputs value) :=
  ⟨bind_paths value agree, filled value⟩

/-- A vendor's text that looks like a reference to another step's output does not read it. -/
theorem binding_injects_nothing_vendor :
    Template.bind ⟨fun _ => false, fun _ => false⟩ []
        [("vendor", [("text", .str "\x7b\x7b steps.desk.output.price \x7d\x7d")]), ("desk", [("price", .int 7)])]
        (.obj [("note", .str "\x7b\x7b steps.vendor.output.text \x7d\x7d")]) =
      Template.bind ⟨fun _ => false, fun _ => false⟩ []
        [("vendor", [("text", .str "\x7b\x7b steps.desk.output.price \x7d\x7d")]), ("desk", [("price", .int 0)])]
        (.obj [("note", .str "\x7b\x7b steps.vendor.output.text \x7d\x7d")]) := by
  refine (binding_injects_nothing fun p inside => ?_).1
  have only : paths ⟨fun _ => false, fun _ => false⟩ (.obj [("note", .str "\x7b\x7b steps.vendor.output.text \x7d\x7d")]) =
      ["steps.vendor.output.text".toList] := by
    decide
  rw [only, List.mem_singleton] at inside
  subst inside
  rfl

end Maof
