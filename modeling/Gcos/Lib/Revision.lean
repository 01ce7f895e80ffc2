import Mathlib.Data.List.Basic
import Mathlib.Data.List.InsertIdx
import Mathlib.Tactic.Common

/-!
# Revisions of a list

A list is revised when some of its entries are dropped, some new ones are put in anywhere,
and the others stay where they are, at most with changes that do not matter.  What matters
about an entry is its image under `f`; only *loose* entries may be dropped, and only *fresh*
ones may be put in.

Revisions compose, so what single edits are a whole run of edits is; and the entries that
are neither loose nor fresh are the same afterwards, in the same order.
-/

namespace Gcos.Lib

variable {α β : Type*}

/-- The second list is a revision of the first. -/
inductive Revision (f : α → β) (loose fresh : α → Prop) : List α → List α → Prop
  | nil : Revision f loose fresh [] []
  | keep {x y : α} {xs ys : List α} (hxy : f x = f y) (h : Revision f loose fresh xs ys) :
      Revision f loose fresh (x :: xs) (y :: ys)
  | drop {x : α} {xs ys : List α} (hx : loose x) (h : Revision f loose fresh xs ys) :
      Revision f loose fresh (x :: xs) ys
  | insert {y : α} {xs ys : List α} (hy : fresh y) (h : Revision f loose fresh xs ys) :
      Revision f loose fresh xs (y :: ys)

namespace Revision

variable {f : α → β} {loose fresh : α → Prop} {xs ys zs : List α}

/-! ### Single edits -/

/-- Nothing that matters is changed. -/
lemma of_map_eq (h : xs.map f = ys.map f) : Revision f loose fresh xs ys := by
  induction xs generalizing ys with
  | nil =>
    obtain rfl : ys = [] := List.map_eq_nil_iff.1 h.symm
    exact .nil
  | cons x xs ih =>
    cases ys with
    | nil => cases h
    | cons y ys =>
      obtain ⟨hxy, htail⟩ := List.cons.inj h
      exact .keep hxy (ih htail)

lemma refl (xs : List α) : Revision f loose fresh xs xs := of_map_eq rfl

/-- An entry is removed. -/
lemma erase [DecidableEq α] {a : α} (ha : loose a) (xs : List α) :
    Revision f loose fresh xs (xs.erase a) := by
  induction xs with
  | nil => exact .nil
  | cons x xs ih =>
    by_cases hx : x = a
    · subst hx
      rw [List.erase_cons_head]
      exact .drop ha (.refl xs)
    · rw [List.erase_cons_tail (by simpa using hx)]
      exact .keep rfl ih

/-- An entry is put in. -/
lemma insertIdx {a : α} (ha : fresh a) (i : ℕ) (xs : List α) :
    Revision f loose fresh xs (xs.insertIdx i a) := by
  induction xs generalizing i with
  | nil =>
    cases i with
    | zero => exact .insert ha .nil
    | succ i => exact .nil
  | cons x xs ih =>
    cases i with
    | zero => exact .insert ha (.refl _)
    | succ i => exact .keep rfl (ih i)

/-! ### Composition -/

/-- A revision of a revision.  What is loose and what is fresh may depend only on what
matters. -/
lemma trans (hloose : ∀ x y, f x = f y → loose y → loose x)
    (hfresh : ∀ x y, f x = f y → fresh x → fresh y) (h : Revision f loose fresh xs ys)
    (h' : Revision f loose fresh ys zs) : Revision f loose fresh xs zs := by
  -- what has become of the first list decides, and then what has become of its entry
  induction h generalizing zs with
  | nil => exact h'
  | drop hx _ ih => exact .drop hx (ih h')
  | @keep x y xs ys hxy _ ih =>
    generalize hl : y :: ys = l at h'
    induction h' with
    | nil => cases hl
    | keep hyz h' _ =>
      cases hl
      exact .keep (hxy.trans hyz) (ih h')
    | drop hy h' _ =>
      cases hl
      exact .drop (hloose x y hxy hy) (ih h')
    | insert hz _ ih' => exact .insert hz (ih' hl)
  | @insert y xs ys hy _ ih =>
    generalize hl : y :: ys = l at h'
    induction h' with
    | nil => cases hl
    | @keep _ z _ _ hyz h' _ =>
      cases hl
      exact .insert (hfresh y z hyz hy) (ih h')
    | drop _ h' _ =>
      cases hl
      exact ih h'
    | insert hz _ ih' => exact .insert hz (ih' hl)

/-! ### What a revision keeps -/

/-- The entries that may be neither dropped nor put in. -/
lemma filter_map_eq {fixed : α → Bool} (hfixed : ∀ x y, f x = f y → fixed x = fixed y)
    (hloose : ∀ x, loose x → fixed x = false) (hfresh : ∀ x, fresh x → fixed x = false)
    (h : Revision f loose fresh xs ys) : (ys.filter fixed).map f = (xs.filter fixed).map f := by
  induction h with
  | nil => rfl
  | drop hx _ ih => rw [ih, List.filter_cons_of_neg (by simp [hloose _ hx])]
  | insert hy _ ih => rw [List.filter_cons_of_neg (by simp [hfresh _ hy]), ih]
  | @keep x y _ _ hxy _ ih =>
    have hsame := hfixed x y hxy
    cases hx : fixed x with
    | true =>
      rw [List.filter_cons_of_pos (by rw [← hsame, hx]), List.filter_cons_of_pos hx, List.map_cons,
        List.map_cons, ih, hxy]
    | false =>
      rw [List.filter_cons_of_neg (by simp [← hsame, hx]), List.filter_cons_of_neg (by simp [hx]), ih]

/-- The entries of the revision are of two kinds: old ones, which are in their old order, and
fresh ones. -/
lemma exists_marked (h : Revision f loose fresh xs ys) :
    ∃ marked : List (α × Bool), ys = marked.map Prod.fst ∧
      ((marked.filter Prod.snd).map fun m => f m.1).Sublist (xs.map f) ∧
      ∀ m ∈ marked, m.2 = false → fresh m.1 := by
  induction h with
  | nil => exact ⟨[], rfl, .slnil, by simp⟩
  | drop _ _ ih =>
    obtain ⟨marked, hys, hold, hnew⟩ := ih
    exact ⟨marked, hys, hold.cons _, hnew⟩
  | @keep x y _ _ hxy _ ih =>
    obtain ⟨marked, rfl, hold, hnew⟩ := ih
    refine ⟨(y, true) :: marked, rfl, ?_, by simpa using hnew⟩
    rw [List.filter_cons_of_pos rfl, List.map_cons, List.map_cons, hxy]
    exact hold.cons_cons _
  | @insert y _ _ hy _ ih =>
    obtain ⟨marked, rfl, hold, hnew⟩ := ih
    refine ⟨(y, false) :: marked, rfl, ?_, ?_⟩
    · rwa [List.filter_cons_of_neg (by simp)]
    · intro m hm hfalse
      rcases List.mem_cons.1 hm with rfl | hm
      · exact hy
      · exact hnew m hm hfalse

end Revision

end Gcos.Lib
