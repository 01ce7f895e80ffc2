import Gcos.Lib.Prog

/-!
# Running for a while

A program that shares its state with nobody is determined by the number of operations
that it has performed.  `Prog.advance` is what is left of it and of the state after so
many operations, and `Prog.duration` is how many there are until it returns.
-/

namespace Gcos.Lib.Prog

variable {Op : Type → Type} {α T S L : Type} (exec : Handler Op T S) (t : T)

/-- What is left of a program of thread `t` after `j` operations, and the state. -/
def advance : ℕ → Prog Op α → S → Prog Op α × S
  | 0, p, s => (p, s)
  | _ + 1, ret a, s => (ret a, s)
  | j + 1, op o k, s => advance j (k (exec t o s).1) (exec t o s).2

/-- The number of operations of the run alone. -/
def duration : Prog Op α → S → ℕ
  | ret _, _ => 0
  | op o k, s => duration (k (exec t o s).1) (exec t o s).2 + 1

/-- At the end there is the answer of the run alone and its state. -/
lemma advance_duration (p : Prog Op α) (s : S) :
    advance exec t (duration exec t p s) p s =
      (ret (alone exec t p s).1, (alone exec t p s).2) := by
  induction p generalizing s with
  | ret a => rfl
  | op o k ih => exact ih _ _

/-- A program that has returned stays where it is. -/
lemma advance_of_duration_le (p : Prog Op α) (s : S) {j : ℕ} (hj : duration exec t p s ≤ j) :
    advance exec t j p s = (ret (alone exec t p s).1, (alone exec t p s).2) := by
  induction p generalizing s j with
  | ret a => cases j <;> rfl
  | op o k ih =>
    cases j with
    | zero => cases hj
    | succ j => exact ih _ _ (Nat.le_of_succ_le_succ hj)

/-- A program that has returned has arrived where the run alone leads. -/
lemma alone_of_advance {p : Prog Op α} {s s' : S} {j : ℕ} {a : α}
    (h : advance exec t j p s = (ret a, s')) : alone exec t p s = (a, s') := by
  induction j generalizing p s with
  | zero =>
    cases h
    rfl
  | succ j ih =>
    cases p with
    | ret b =>
      cases h
      rfl
    | op o k =>
      show alone exec t (k (exec t o s).1) (exec t o s).2 = (a, s')
      exact ih h

/-- One more operation. -/
lemma advance_succ (j : ℕ) (p : Prog Op α) (s : S) :
    advance exec t (j + 1) p s = advance exec t 1 (advance exec t j p s).1
      (advance exec t j p s).2 := by
  induction j generalizing p s with
  | zero => rfl
  | succ j ih =>
    cases p with
    | ret a => rfl
    | op o k => exact ih _ _

variable {exec t}

/-- A program that obeys a discipline goes on obeying it, and what every operation keeps
along with the bookkeeping is kept. -/
lemma Obeys.advance {D : Discipline Op L} {I : S → L → Prop}
    (hop : ∀ (β : Type) (o : Op β) (s : S) (l : L), I s l → D.pre o l →
      ∃ l', D.post o l (exec t o s).1 l' ∧ I (exec t o s).2 l')
    {p : Prog Op α} {s : S} {l : L} {Q : α → L → Prop} (hp : p.Obeys D l Q) (hI : I s l) (j : ℕ) :
    ∃ l', (Prog.advance exec t j p s).1.Obeys D l' Q ∧ I (Prog.advance exec t j p s).2 l' := by
  induction j generalizing p s l with
  | zero => exact ⟨l, hp, hI⟩
  | succ j ih =>
    cases p with
    | ret a => exact ⟨l, hp, hI⟩
    | op o k =>
      obtain ⟨l', hpost, hI'⟩ := hop _ o s l hI hp.1
      exact ih (hp.2 _ _ hpost) hI'

end Gcos.Lib.Prog
