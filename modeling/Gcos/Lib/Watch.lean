import Gcos.Lib.Prog

/-!
# Watching a system

Statements about whole runs often speak about what has happened so far, which the shared
state need not record.  An *observer* looks at every operation with its answer and keeps
a memory of its own; the system is not changed by being watched (`System.run_beside`).

To be proved about a watched system are invariants of the shared state, the memory and
the bookkeeping of the threads together.  Two disciplines that a program obeys can be
followed side by side (`Discipline.prod`), so that an invariant proved earlier can be
used in the proof of the next one (`System.run_inv_over`).
-/

namespace Gcos.Lib

variable {Op : Type → Type} {T S C G L M : Type}

/-! ### Observers -/

/-- What an observer remembers after thread `t` has performed an operation in `s` and was
answered. -/
abbrev Observer (Op : Type → Type) (T S G : Type) := {β : Type} → T → Op β → S → β → G → G

/-- The pool with a memory beside its state. -/
def Pool.beside (c : Pool Op T S) (g : G) : Pool Op T (S × G) :=
  { shared := (c.shared, g), code := c.code }

namespace System

variable [DecidableEq T] (sys : System Op T S C) (obs : Observer Op T S G)

/-- The system with an observer. -/
def watched : System Op T (S × G) C where
  exec := fun t o s =>
    ((sys.exec t o s.1).1, (sys.exec t o s.1).2, obs t o s.1 (sys.exec t o s.1).1 s.2)
  body := sys.body
  serves := sys.serves
  entry := sys.entry

/-- What the observer remembers after a schedule. -/
def observed (c : Pool Op T S) (g : G) (as : List (Act T C)) : G :=
  ((sys.watched obs).run (c.beside g) as).shared.2

/-- What the observer remembers after one step of a schedule. -/
def noticed (c : Pool Op T S) (g : G) (a : Act T C) : G :=
  ((sys.watched obs).next (c.beside g) a).shared.2

lemma next_beside (c : Pool Op T S) (g : G) (a : Act T C) :
    (sys.watched obs).next (c.beside g) a = (sys.next c a).beside (sys.noticed obs c g a) := by
  cases a with
  | call t r =>
    simp only [noticed, next, Pool.beside, watched]
    split
    · rfl
    · rfl
  | step t =>
    simp only [noticed, next, Pool.beside, watched]
    split
    · rfl
    · rfl
    · rfl

@[simp] lemma observed_nil (c : Pool Op T S) (g : G) : sys.observed obs c g [] = g := rfl

@[simp] lemma observed_cons (c : Pool Op T S) (g : G) (a : Act T C) (as : List (Act T C)) :
    sys.observed obs c g (a :: as) =
      sys.observed obs (sys.next c a) (sys.noticed obs c g a) as := by
  rw [observed, run_cons, next_beside]
  rfl

/-- Being watched changes nothing. -/
lemma run_beside (c : Pool Op T S) (g : G) (as : List (Act T C)) :
    (sys.watched obs).run (c.beside g) as = (sys.run c as).beside (sys.observed obs c g as) := by
  induction as generalizing c g with
  | nil => rfl
  | cons a as ih => rw [run_cons, next_beside, ih, run_cons, observed_cons]

lemma run_append (c : Pool Op T S) (as bs : List (Act T C)) :
    sys.run c (as ++ bs) = sys.run (sys.run c as) bs := List.foldl_append

lemma observed_append (c : Pool Op T S) (g : G) (as bs : List (Act T C)) :
    sys.observed obs c g (as ++ bs) =
      sys.observed obs (sys.run c as) (sys.observed obs c g as) bs := by
  induction as generalizing c g with
  | nil => rfl
  | cons a as ih => rw [List.cons_append, observed_cons, ih, run_cons, observed_cons]

/-- A guard that does not look at the memory. -/
lemma meets_beside {K : Guard Op T S} {c : Pool Op T S} {as : List (Act T C)}
    (h : sys.Meets K c as) (g : G) :
    (sys.watched obs).Meets (fun t o s => K t o s.1) (c.beside g) as := by
  induction as generalizing c g with
  | nil => trivial
  | cons a as ih =>
    refine ⟨?_, ?_⟩
    · have hperm := h.1
      cases a with
      | call t r => trivial
      | step t =>
        simp only [Permits, Pool.beside] at hperm ⊢
        split at hperm <;> simp_all
    · change Along _ _ ((sys.watched obs).next (c.beside g) a) as
      rw [next_beside]
      exact ih h.2 _

lemma Meets.left {K : Guard Op T S} {c : Pool Op T S} {as bs : List (Act T C)}
    (h : sys.Meets K c (as ++ bs)) : sys.Meets K c as := by
  induction as generalizing c with
  | nil => trivial
  | cons a as ih => exact ⟨h.1, ih h.2⟩

lemma Meets.right {K : Guard Op T S} {c : Pool Op T S} {as bs : List (Act T C)}
    (h : sys.Meets K c (as ++ bs)) : sys.Meets K (sys.run c as) bs := by
  induction as generalizing c with
  | nil => exact h
  | cons a as ih => exact ih h.2

end System

/-! ### Two disciplines side by side -/

/-- Both disciplines, each with its own bookkeeping. -/
def Discipline.prod (D : Discipline Op L) (E : Discipline Op M) : Discipline Op (L × M) where
  pre := fun o x => D.pre o x.1 ∧ E.pre o x.2
  post := fun o x b x' => D.post o x.1 b x'.1 ∧ E.post o x.2 b x'.2

lemma Prog.Obeys.prod {α : Type} {D : Discipline Op L} {E : Discipline Op M} {p : Prog Op α}
    {l : L} {m : M} {Q : α → L → Prop} {R : α → M → Prop} (hp : p.Obeys D l Q)
    (hq : p.Obeys E m R) :
    p.Obeys (D.prod E) (l, m) fun a x => Q a x.1 ∧ R a x.2 := by
  induction p generalizing l m with
  | ret a => exact ⟨hp, hq⟩
  | op o k ih =>
    refine ⟨⟨hp.1, hq.1⟩, ?_⟩
    rintro b ⟨l', m'⟩ ⟨hl, hm⟩
    exact ih b (hp.2 b l' hl) (hq.2 b m' hm)

lemma update_fst_comp [DecidableEq T] (ls : T → L × M) (t : T) (l : L) (m : M) :
    (fun u => (Function.update ls t (l, m) u).1) =
      Function.update (fun u => (ls u).1) t l := by
  funext u
  by_cases hu : u = t
  · subst hu
    simp
  · simp [Function.update_of_ne hu]

lemma update_snd_comp [DecidableEq T] (ls : T → L × M) (t : T) (l : L) (m : M) :
    (fun u => (Function.update ls t (l, m) u).2) =
      Function.update (fun u => (ls u).2) t m := by
  funext u
  by_cases hu : u = t
  · subst hu
    simp
  · simp [Function.update_of_ne hu]

namespace System

variable [DecidableEq T] {sys : System Op T S C} {D : Discipline Op L} {E : Discipline Op M}

/-- The pool is sound for two disciplines at once; the second invariant may speak about
the bookkeeping of both. -/
def SoundOver (D : Discipline Op L) (E : Discipline Op M) (I : S → (T → L) → Prop)
    (J : S → (T → L) → (T → M) → Prop) (Idle : T → L → Prop) (Rest : T → M → Prop) :
    Pool Op T S → Prop :=
  Sound (D.prod E) (fun s xs => I s (fun u => (xs u).1) ∧
    J s (fun u => (xs u).1) fun u => (xs u).2) fun t x => Idle t x.1 ∧ Rest t x.2

omit [DecidableEq T] in
lemma SoundOver.intro {I : S → (T → L) → Prop} {J : S → (T → L) → (T → M) → Prop}
    {Idle : T → L → Prop} {Rest : T → M → Prop} {c : Pool Op T S} {ls : T → L} {ms : T → M}
    (hI : I c.shared ls) (hJ : J c.shared ls ms)
    (hD : ∀ t, (c.code t).Obeys D (ls t) fun _ l => Idle t l)
    (hE : ∀ t, (c.code t).Obeys E (ms t) fun _ m => Rest t m) :
    SoundOver D E I J Idle Rest c :=
  ⟨fun t => (ls t, ms t), ⟨hI, hJ⟩, fun t => (hD t).prod (hE t)⟩

/-- **The invariant rule over an invariant.**  The second invariant may use the first
one, before and after the operation, in the proof that it is kept. -/
theorem run_inv_over {I : S → (T → L) → Prop} {J : S → (T → L) → (T → M) → Prop}
    {Idle : T → L → Prop} {Rest : T → M → Prop} {K : Guard Op T S} {Allowed : C → Prop}
    (hbody : ∀ t l, Idle t l → (sys.body t).Obeys D l fun _ l => Idle t l)
    (hbody' : ∀ t m, Rest t m → (sys.body t).Obeys E m fun _ m => Rest t m)
    (hentry : ∀ t r l, Allowed r → sys.serves t r = true → Idle t l →
      (sys.entry r).Obeys D l fun _ l => Idle t l)
    (hentry' : ∀ t r m, Allowed r → sys.serves t r = true → Rest t m →
      (sys.entry r).Obeys E m fun _ m => Rest t m)
    (hop : ∀ (β : Type) (t : T) (o : Op β) (s : S) (ls : T → L), I s ls → D.pre o (ls t) →
      K t o s → ∃ l', D.post o (ls t) (sys.exec t o s).1 l' ∧
        I (sys.exec t o s).2 (Function.update ls t l'))
    (hop' : ∀ (β : Type) (t : T) (o : Op β) (s : S) (ls : T → L) (ms : T → M) (l' : L), I s ls →
      J s ls ms → D.pre o (ls t) → E.pre o (ms t) → K t o s →
      D.post o (ls t) (sys.exec t o s).1 l' → I (sys.exec t o s).2 (Function.update ls t l') →
      ∃ m', E.post o (ms t) (sys.exec t o s).1 m' ∧
        J (sys.exec t o s).2 (Function.update ls t l') (Function.update ms t m'))
    {c : Pool Op T S} (hc : SoundOver D E I J Idle Rest c) {as : List (Act T C)}
    (hK : sys.Meets K c as) (hA : ∀ t r, Act.call t r ∈ as → Allowed r) :
    SoundOver D E I J Idle Rest (sys.run c as) := by
  refine run_inv (fun t x hx => ?_) (fun t r x hr hs hx => ?_) ?_ hc hK hA
  · exact (hbody t _ hx.1).prod (hbody' t _ hx.2)
  · exact (hentry t r _ hr hs hx.1).prod (hentry' t r _ hr hs hx.2)
  · rintro β t o s xs ⟨hI, hJ⟩ ⟨hpre, hpre'⟩ hguard
    obtain ⟨l', hpost, hI'⟩ := hop β t o s _ hI hpre hguard
    obtain ⟨m', hpost', hJ'⟩ := hop' β t o s _ _ l' hI hJ hpre hpre' hguard hpost hI'
    refine ⟨(l', m'), ⟨hpost, hpost'⟩, ?_, ?_⟩
    · rwa [update_fst_comp]
    · rwa [update_fst_comp, update_snd_comp]

end System

end Gcos.Lib
