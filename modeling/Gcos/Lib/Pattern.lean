import Mathlib.Data.List.Infix
import Mathlib.Tactic.Common

/-!
# Patterns

Regular expressions that are a sequence of parts, each of which is a fixed text or any
number of characters of a class, with the meaning that a backtracking matcher gives them:
a greedy part takes as much, and a lazy part as little, as lets the rest of the pattern
match.  `findAll` looks for matches from left to right, and goes on after each match at
its end.
-/

namespace Gcos.Lib

/-- A part of a pattern. -/
inductive Part
  /-- A fixed text. -/
  | lit (text : List Char)
  /-- `[…]*`. -/
  | many (cls : Char → Bool)
  /-- `[…]*?`. -/
  | few (cls : Char → Bool)

namespace Pattern

variable {α : Type}

/-- As many characters of the class as possible, where `next` matches what comes after. -/
def greedy (cls : Char → Bool) (next : List Char → Option α) : List Char → Option (List Char × α)
  | [] => (next []).map fun a => ([], a)
  | c :: s =>
    if cls c then
      ((greedy cls next s).map fun m => (c :: m.1, m.2)).or ((next (c :: s)).map fun a => ([], a))
    else (next (c :: s)).map fun a => ([], a)

/-- As few characters of the class as possible, where `next` matches what comes after. -/
def lazy (cls : Char → Bool) (next : List Char → Option α) : List Char → Option (List Char × α)
  | [] => (next []).map fun a => ([], a)
  | c :: s =>
    ((next (c :: s)).map fun a => ([], a)).or
      (if cls c then (lazy cls next s).map fun m => (c :: m.1, m.2) else none)

/-- The match of a pattern at the beginning of a text: what its parts match, and the rest of
the text. -/
def matchAt : List Part → List Char → Option (List (List Char) × List Char)
  | [], s => some ([], s)
  | .lit text :: parts, s =>
    if text <+: s then (matchAt parts (s.drop text.length)).map fun m => (text :: m.1, m.2)
    else none
  | .many cls :: parts, s =>
    (greedy cls (matchAt parts) s).map fun m => (m.1 :: m.2.1, m.2.2)
  | .few cls :: parts, s => (lazy cls (matchAt parts) s).map fun m => (m.1 :: m.2.1, m.2.2)

/-- `re.finditer`, for a pattern that matches no empty text.  The next `skip` characters
belong to the last match. -/
def findAll (parts : List Part) : ℕ → List Char → List (List (List Char))
  | _, [] => []
  | skip + 1, _ :: s => findAll parts skip s
  | 0, c :: s =>
    match matchAt parts (c :: s) with
    | some (texts, _) => texts :: findAll parts (texts.flatten.length - 1) s
    | none => findAll parts 0 s

/-! ### Matches at the beginning -/

section

variable {cls : Char → Bool} {next : List Char → Option α}

/-- A greedy part gives up where nothing that it could leave over matches. -/
lemma greedy_eq_none {y s : List Char} (hstop : ∀ c ∈ s.head?, cls c = false)
    (hnone : ∀ v, v <:+ y → next (v ++ s) = none) : greedy cls next (y ++ s) = none := by
  induction y with
  | nil =>
    have hs : next s = none := hnone [] List.suffix_rfl
    cases s with
    | nil => simp [greedy, hs]
    | cons c s => simp [greedy, hs, hstop c rfl]
  | cons c y ih =>
    have hc := hnone (c :: y) List.suffix_rfl
    have hy := ih fun v hv => hnone v (hv.trans (List.suffix_cons c y))
    rw [List.cons_append] at hc ⊢
    simp [greedy, hc, hy]

/-- Where a greedy part stops on a run of its class: at `y`, if nothing shorter matches, and
nothing longer if `y` does not. -/
lemma greedy_run {x y s : List Char} (hrun : ∀ c ∈ x ++ y, cls c = true)
    (hstop : ∀ c ∈ s.head?, cls c = false)
    (hless : ∀ v, v <:+ y → v ≠ y → next (v ++ s) = none)
    (hmore : next (y ++ s) = none → ∀ v, v <:+ x → next (v ++ (y ++ s)) = none) :
    greedy cls next (x ++ (y ++ s)) = (next (y ++ s)).map fun a => (x, a) := by
  induction x with
  | nil =>
    cases y with
    | nil =>
      cases s with
      | nil => rfl
      | cons c s => simp [greedy, hstop c rfl]
    | cons c y =>
      have hy : greedy cls next (y ++ s) = none := by
        refine greedy_eq_none hstop fun v hv => hless v (hv.trans (List.suffix_cons c y)) ?_
        rintro rfl
        exact absurd hv.length_le (by simp)
      simp [greedy, hy, hrun c (by simp)]
  | cons c x ih =>
    have hx := ih (fun d hd => hrun d (List.mem_cons_of_mem c hd))
      fun hnone v hv => hmore hnone v (hv.trans (List.suffix_cons c x))
    have hc : cls c = true := hrun c (by simp)
    rw [List.cons_append, greedy, if_pos hc, hx]
    cases hy : next (y ++ s) with
    | none =>
      have hlong := hmore hy (c :: x) List.suffix_rfl
      rw [List.cons_append] at hlong
      simp [hlong]
    | some a => simp

/-- A lazy part goes on where nothing matches yet. -/
lemma lazy_run {x s : List Char} (hrun : ∀ c ∈ x, cls c = true)
    (hnone : ∀ v, v <:+ x → v ≠ [] → next (v ++ s) = none) :
    lazy cls next (x ++ s) = (lazy cls next s).map fun m => (x ++ m.1, m.2) := by
  induction x with
  | nil => simp
  | cons c x ih =>
    have hx := ih (fun d hd => hrun d (List.mem_cons_of_mem c hd))
      fun v hv => hnone v (hv.trans (List.suffix_cons c x))
    have hc := hnone (c :: x) List.suffix_rfl (List.cons_ne_nil c x)
    rw [List.cons_append] at hc ⊢
    rw [lazy, hc, if_pos (hrun c List.mem_cons_self), hx]
    simp [Function.comp_def]

/-- A lazy part stops at once where the rest matches. -/
lemma lazy_stop {s : List Char} {a : α} (h : next s = some a) :
    lazy cls next s = some ([], a) := by
  cases s with
  | nil => simp [lazy, h]
  | cons c s => simp [lazy, h]

/-- A lazy part finds nothing where nothing matches anywhere. -/
lemma lazy_eq_none {s : List Char} (h : ∀ v, v <:+ s → next v = none) :
    lazy cls next s = none := by
  induction s with
  | nil => simp [lazy, h [] List.suffix_rfl]
  | cons c s ih =>
    have hs := ih fun v hv => h v (hv.trans (List.suffix_cons c s))
    simp [lazy, h (c :: s) List.suffix_rfl, hs]

end

lemma matchAt_lit (text : List Char) (parts : List Part) (s : List Char) :
    matchAt (.lit text :: parts) (text ++ s) =
      (matchAt parts s).map fun m => (text :: m.1, m.2) := by
  simp [matchAt]

lemma matchAt_lit_of_not_isPrefix {text : List Char} {s : List Char} (h : ¬text <+: s)
    (parts : List Part) : matchAt (.lit text :: parts) s = none := by
  rw [matchAt, if_neg h]

/-! ### The scan -/

/-- The scan passes over what belongs to the last match. -/
lemma findAll_skip (parts : List Part) (x s : List Char) :
    findAll parts x.length (x ++ s) = findAll parts 0 s := by
  induction x with
  | nil => rfl
  | cons c x ih => exact ih

/-- The scan goes on after a match. -/
lemma findAll_of_match {parts : List Part} {s rest : List Char} {texts : List (List Char)}
    (h : matchAt parts s = some (texts, rest)) (hs : s = texts.flatten ++ rest)
    (hne : texts.flatten ≠ []) : findAll parts 0 s = texts :: findAll parts 0 rest := by
  obtain ⟨c, x, hx⟩ := List.exists_cons_of_ne_nil hne
  rw [hx, List.cons_append] at hs
  subst hs
  rw [findAll, h]
  simp only [hx, List.length_cons, Nat.add_sub_cancel, findAll_skip]

/-- The scan passes over a stretch in which no match begins. -/
lemma findAll_append_of_none {parts : List Part} {x s : List Char}
    (h : ∀ v, v <:+ x → v ≠ [] → matchAt parts (v ++ s) = none) :
    findAll parts 0 (x ++ s) = findAll parts 0 s := by
  induction x with
  | nil => rfl
  | cons c x ih =>
    have hc := h (c :: x) List.suffix_rfl (List.cons_ne_nil c x)
    rw [List.cons_append] at hc ⊢
    rw [findAll, hc]
    exact ih fun v hv => h v (hv.trans (List.suffix_cons c x))

end Pattern

end Gcos.Lib
