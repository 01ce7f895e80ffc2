import Gcos.Lib.Ensures

/-!
# Programs by the operations they perform

Many facts about a program need no more than a list of the operations that it may
perform: what each of them leaves alone the whole program leaves alone, and a discipline
that lets a thread perform any of them at any time is obeyed without looking at the
order.  `Prog.Only` says that all operations of a program lie in a class.

`Prog.seen` lists what can be seen of the operations that a program performs when it runs
alone; of operations in a class that cannot be seen there is nothing in the list.
-/

namespace Gcos.Lib.Prog

variable {Op : Type → Type} {α β : Type}

/-- A class of operations. -/
abbrev Class (Op : Type → Type) := {β : Type} → Op β → Prop

/-- Every operation that the program may perform, whatever it is answered, is in the
class. -/
def Only (C : Class Op) : Prog Op α → Prop
  | ret _ => True
  | op o k => C o ∧ ∀ b, (k b).Only C

variable {C : Class Op}

lemma only_perform {o : Op β} (ho : C o) : (perform o).Only C := ⟨ho, fun _ => trivial⟩

/-- The rule of sequential composition. -/
lemma Only.bind {p : Prog Op α} {f : α → Prog Op β} (hp : p.Only C) (hf : ∀ a, (f a).Only C) :
    (p >>= f).Only C := by
  induction p with
  | ret a => exact hf a
  | op o k ih => exact ⟨hp.1, fun b => ih b (hp.2 b)⟩

/-- The rule for a program that begins with one operation. -/
lemma Only.step {o : Op α} {k : α → Prog Op β} (ho : C o) (hk : ∀ a, (k a).Only C) :
    (perform o >>= k).Only C :=
  ⟨ho, hk⟩

lemma only_when {c : Prop} [Decidable c] {p : Prog Op Unit} (hp : p.Only C) :
    (when c p).Only C := by
  unfold when
  split
  · exact hp
  · trivial

lemma Only.mono {C' : Class Op} {p : Prog Op α} (hp : p.Only C)
    (h : ∀ {β : Type} (o : Op β), C o → C' o) : p.Only C' := by
  induction p with
  | ret a => trivial
  | op o k ih => exact ⟨h o hp.1, fun b => ih b (hp.2 b)⟩

/-- What relates the states before and after every operation relates the states before
and after the program. -/
lemma Only.alone {T S : Type} {exec : Handler Op T S} {R : S → S → Prop} {t : T}
    {p : Prog Op α} (hp : p.Only C) (hrefl : ∀ s, R s s)
    (htrans : ∀ s s' s'', R s s' → R s' s'' → R s s'')
    (hop : ∀ {β : Type} (o : Op β) s, C o → R s (exec t o s).2) (s : S) :
    R s (alone exec t p s).2 := by
  induction p generalizing s with
  | ret a => exact hrefl s
  | op o k ih => exact htrans _ _ _ (hop o s hp.1) (ih _ (hp.2 _) _)

/-- Bookkeeping that every operation of the class is allowed with and leads back to. -/
lemma Only.obeys {L : Type} {D : Discipline Op L} {K : L → Prop} {p : Prog Op α} (hp : p.Only C)
    (hK : ∀ {β : Type} (o : Op β) l, C o → K l → D.pre o l ∧ ∀ b l', D.post o l b l' → K l')
    {l : L} (hl : K l) : p.Obeys D l fun _ l' => K l' := by
  induction p generalizing l with
  | ret a => exact hl
  | op o k ih =>
    obtain ⟨hpre, hpost⟩ := hK o l hp.1 hl
    exact ⟨hpre, fun b l' hb => ih b (hp.2 b) (hpost b l' hb)⟩

/-- The operations that a discipline allows where the bookkeeping can get. -/
lemma Obeys.only {L : Type} {D : Discipline Op L} {K : L → Prop}
    (hK : ∀ {β : Type} (o : Op β) l, K l → D.pre o l → C o ∧ ∀ b, ∃ l', D.post o l b l' ∧ K l')
    {p : Prog Op α} {l : L} {Q : α → L → Prop} (hp : p.Obeys D l Q) (hl : K l) : p.Only C := by
  induction p generalizing l with
  | ret a => trivial
  | op o k ih =>
    obtain ⟨ho, hpost⟩ := hK o l hl hp.1
    refine ⟨ho, fun b => ?_⟩
    obtain ⟨l', hl', hl''⟩ := hpost b
    exact ih b (hp.2 b l' hl') hl''

/-! ### What is performed -/

section

variable {T S A : Type} {exec : Handler Op T S} {t : T} {see : {β : Type} → Op β → Option A}

variable (exec t see) in
/-- What `see` shows of the operations that the program performs when it runs alone. -/
def seen : Prog Op α → S → List A
  | ret _, _ => []
  | op o k, s => (see o).toList ++ seen (k (exec t o s).1) (exec t o s).2

lemma seen_bind (p : Prog Op α) (f : α → Prog Op β) (s : S) :
    (p >>= f).seen exec t see s =
      p.seen exec t see s ++ (f (p.alone exec t s).1).seen exec t see (p.alone exec t s).2 := by
  induction p generalizing s with
  | ret a => rfl
  | op o k ih => rw [op_bind, seen, ih, seen, List.append_assoc, alone_op]

lemma Only.seen_eq_nil {p : Prog Op α} (hp : p.Only C)
    (hC : ∀ {β : Type} (o : Op β), C o → see o = none) (s : S) : p.seen exec t see s = [] := by
  induction p generalizing s with
  | ret a => rfl
  | op o k ih =>
    rw [seen, hC o hp.1, ih _ (hp.2 _)]
    rfl

end

/-- A program over more operations performs the images of its own. -/
lemma Only.lift {Op' : Type → Type} {emb : {β : Type} → Op β → Op' β} {C : Class Op'}
    {p : Prog Op α} (hp : p.Only fun o => C (emb o)) : (p.lift emb).Only C := by
  induction p with
  | ret a => trivial
  | op o k ih => exact ⟨hp.1, fun b => ih b (hp.2 b)⟩

end Gcos.Lib.Prog

namespace Gcos.Lib.System

variable {Op : Type → Type} {T S C : Type} [DecidableEq T] {sys : System Op T S C}
  {Cls : T → Prog.Class Op}

/-- Threads whose bodies and calls lie in their classes stay there. -/
lemma only_next (hbody : ∀ t, (sys.body t).Only (Cls t))
    (hentry : ∀ t c, sys.serves t c = true → (sys.entry c).Only (Cls t)) {pool : Pool Op T S}
    (h : ∀ t, (pool.code t).Only (Cls t)) (a : Act T C) (t : T) :
    ((sys.next pool a).code t).Only (Cls t) := by
  have hupdate : ∀ {u : T} {p : Prog Op Bool}, p.Only (Cls u) →
      (Function.update pool.code u p t).Only (Cls t) := by
    intro u p hp
    by_cases ht : t = u
    · subst ht
      rwa [Function.update_self]
    · rw [Function.update_of_ne ht]
      exact h t
  cases a with
  | step u =>
    simp only [next]
    split
    · exact hupdate (hbody u)
    · exact h t
    · next o k hop =>
      have hu := h u
      rw [hop] at hu
      exact hupdate (hu.2 _)
  | call u c =>
    simp only [next]
    split
    · next hserves => exact hupdate (hentry u c hserves)
    · exact h t

lemma only_run (hbody : ∀ t, (sys.body t).Only (Cls t))
    (hentry : ∀ t c, sys.serves t c = true → (sys.entry c).Only (Cls t)) {pool : Pool Op T S}
    (h : ∀ t, (pool.code t).Only (Cls t)) (as : List (Act T C)) (t : T) :
    ((sys.run pool as).code t).Only (Cls t) := by
  induction as generalizing pool with
  | nil => exact h t
  | cons a as ih => exact ih fun u => only_next hbody hentry h a u

end Gcos.Lib.System
