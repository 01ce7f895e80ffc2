import Gcos.Lib.Watch

/-!
# The answers of calls

In a system of threads a call is over when its code has returned, and what it returned is
forgotten.  Where a statement speaks about calls that are over and what they answered, the
code of a call ends with one more operation, which does nothing but tell an observer the
answer (`Told.answer`).  A system that tells its answers runs as the system itself does
(`System.exists_run_of_telling`).
-/

namespace Gcos.Lib

variable {Op : Type → Type} {α β A T S C G L : Type}

/-- The operations `Op`, and the telling of an answer. -/
inductive Told (Op : Type → Type) (A β : Type) : Type
  | op (o : Op β)
  /-- Tell the answer `a`, and go on with `b`. -/
  | answer (a : A) (b : β)

namespace Prog

/-- A program that tells nothing. -/
def told : Prog Op α → Prog (Told Op A) α
  | ret a => ret a
  | op o k => op (.op o) fun b => (k b).told

/-- The program, and then its answer. -/
def telling (p : Prog Op A) : Prog (Told Op A) Bool := do
  let a ← p.told
  perform (.answer a ())
  return false

end Prog

namespace System

variable [DecidableEq T] (sys : System Op T S C) (entry : C → Prog Op A)
  (obs : Observer Op T S G) (tell : T → A → S → G → G)

/-- The system with an observer that is told the answers of the calls. -/
def telling : System (Told Op A) T (S × G) C where
  exec := fun t o s =>
    match o with
    | .op o => ((sys.watched obs).exec t o s)
    | .answer a b => (b, s.1, tell t a s.1 s.2)
  body := fun t => (sys.body t).told
  serves := sys.serves
  entry := fun c => (entry c).telling

/-- The code that is left of a program, with and without the telling. -/
def Tells (q : Prog Op Bool) (q' : Prog (Told Op A) Bool) : Prop :=
  q' = q.told ∨ ∃ p : Prog Op A, q = (p >>= fun _ => .ret false) ∧ q' = p.telling

/-- One pool runs as the other does, but for the telling. -/
structure Follows (c : Pool Op T S) (c' : Pool (Told Op A) T (S × G)) : Prop where
  shared : c'.shared.1 = c.shared
  code : ∀ t, Tells (c.code t) (c'.code t)

lemma Follows.update {c : Pool Op T S} {c' : Pool (Told Op A) T (S × G)}
    (h : Follows c c') {s : S} {g : G} {t : T} {p : Prog Op Bool} {p' : Prog (Told Op A) Bool}
    (hp : Tells p p') :
    Follows { shared := s, code := Function.update c.code t p }
      { shared := (s, g), code := Function.update c'.code t p' } := by
  refine ⟨rfl, fun u => ?_⟩
  by_cases hu : u = t
  · subst hu
    simpa only [Function.update_self] using hp
  · simpa only [Function.update_of_ne hu] using h.code u

variable {sys entry obs tell}

/-- A step of the system that tells its answers is a step of the system, or it tells an
answer. -/
lemma Follows.next (hentry : ∀ c, sys.entry c = entry c >>= fun _ => .ret false)
    {c : Pool Op T S} {c' : Pool (Told Op A) T (S × G)} (h : Follows c c') (a : Act T C) :
    Follows (sys.next c a) ((sys.telling entry obs tell).next c' a) ∨
      Follows c ((sys.telling entry obs tell).next c' a) := by
  obtain ⟨s, code⟩ := c
  obtain ⟨⟨s', g⟩, code'⟩ := c'
  obtain rfl : s' = s := h.shared
  cases a with
  | call t r =>
    rcases h.code t with htold | ⟨p, -, htelling⟩
    · -- both threads are idle, or both are busy
      left
      simp only [System.next]
      cases hcode : code t with
      | op o k =>
        have hcode' : code' t = (Prog.op o k).told := by rw [← hcode]; exact htold
        simp only [hcode', Prog.told]
        exact h
      | ret b =>
        have hcode' : code' t = (Prog.ret b).told := by rw [← hcode]; exact htold
        simp only [hcode', Prog.told]
        cases b with
        | true => exact h
        | false =>
          cases hserves : sys.serves t r with
          | true =>
            simp only [telling, hserves]
            refine h.update (.inr ⟨entry r, hentry r, rfl⟩)
          | false =>
            simp only [telling, hserves]
            exact h
    · -- a thread that has yet to tell its answer takes no call
      right
      have hcode' : code' t = p.telling := htelling
      simp only [System.next, hcode']
      cases p with
      | ret a => exact h
      | op o k => exact h
  | step t =>
    rcases h.code t with htold | ⟨p, hcall, htelling⟩
    · left
      simp only [System.next]
      cases hcode : code t with
      | ret b =>
        have hcode' : code' t = (Prog.ret b).told := by rw [← hcode]; exact htold
        simp only [hcode', Prog.told]
        cases b with
        | true => exact h.update (.inl rfl)
        | false => exact h
      | op o k =>
        have hcode' : code' t = (Prog.op o k).told := by rw [← hcode]; exact htold
        simp only [hcode', Prog.told]
        exact h.update (.inl rfl)
    · have hcode' : code' t = p.telling := htelling
      have hcode : code t = (p >>= fun _ => .ret false) := hcall
      cases p with
      | ret a =>
        right
        have hupdate : code = Function.update code t (.ret false) := by
          rw [eq_comm, Function.update_eq_self_iff, hcode]
          rfl
        simp only [System.next, hcode']
        rw [hupdate]
        exact h.update (.inl rfl)
      | op o k =>
        left
        simp only [System.next, hcode, hcode']
        exact h.update (.inr ⟨_, rfl, rfl⟩)

/-- **A system that tells its answers runs as the system does.** -/
theorem exists_run_of_telling (hentry : ∀ c, sys.entry c = entry c >>= fun _ => .ret false)
    {c : Pool Op T S} {c' : Pool (Told Op A) T (S × G)} (h : Follows c c') (as : List (Act T C)) :
    ∃ bs, Follows (sys.run c bs) ((sys.telling entry obs tell).run c' as) := by
  induction as generalizing c c' with
  | nil => exact ⟨[], h⟩
  | cons a as ih =>
    rcases h.next hentry a with hnext | hnext
    · obtain ⟨bs, hbs⟩ := ih hnext
      exact ⟨a :: bs, hbs⟩
    · exact ih hnext

end System

/-! ### Disciplines -/

/-- The discipline, with what is to be known when an answer is told and what is known
then. -/
def Discipline.telling (D : Discipline Op L) (pre : A → L → Prop) (post : A → L → L → Prop) :
    Discipline (Told Op A) L where
  pre := fun o l =>
    match o with
    | .op o => D.pre o l
    | .answer a _ => pre a l
  post := fun o l b l' =>
    match o with
    | .op o => D.post o l b l'
    | .answer a _ => post a l l'

/-- The discipline, whatever is told. -/
def Discipline.told (D : Discipline Op L) : Discipline (Told Op A) L :=
  D.telling (fun _ _ => True) fun _ l l' => l' = l

namespace Prog

variable {D : Discipline Op L} {pre : A → L → Prop} {post : A → L → L → Prop}

lemma Obeys.told {p : Prog Op α} {l : L} {Q : α → L → Prop} (hp : p.Obeys D l Q) :
    p.told.Obeys (D.telling pre post) l Q := by
  induction p generalizing l with
  | ret a => exact hp
  | op o k ih => exact ⟨hp.1, fun b l' hb => ih b (hp.2 b l' hb)⟩

lemma Obeys.telling {p : Prog Op A} {l : L} {Q : L → Prop}
    (hp : p.Obeys D l fun a l' => pre a l' ∧ ∀ l'', post a l' l'' → Q l'') :
    p.telling.Obeys (D.telling pre post) l fun _ l' => Q l' := by
  refine hp.told.bind _ fun a l' hl' => ⟨hl'.1, fun _ l'' hpost => ?_⟩
  exact hl'.2 l'' hpost

end Prog

end Gcos.Lib
