import Mathlib.Logic.Function.Basic
import Mathlib.Tactic.Common

/-!
# Programs over atomic operations

A sequential program that shares a state with other programs is a tree: it either
returns a value or performs one atomic operation and goes on with the answer.  The
tree says nothing about who else moves between two operations, so one program text
serves two readings:

* `Prog.alone` runs it with nobody else around, and
* `System.run` interleaves it with any number of other programs, one atomic
  operation at a time, in an order chosen by a schedule.

The invariants of interleaved runs are proved with *disciplines*.  A discipline
assigns to every thread a piece of local bookkeeping, says which operation may be
performed with which bookkeeping, and how the bookkeeping changes with the answer.
That a program obeys a discipline (`Prog.Obeys`) is a statement about its text
alone, proved by following the text; the interference of the other threads enters
once, in the operation-by-operation premise of `System.run_inv`.
-/

namespace Gcos.Lib

/-! ### One thread changes -/

section

variable {T L M : Type*} [DecidableEq T] {f : T → L} {t u : T} {x : L}

/-- What a thread has in some field after thread `t` has changed what it has. -/
lemma update_cases (g : L → M) {y : M} (h : g (Function.update f t x u) = y) :
    u = t ∧ g x = y ∨ u ≠ t ∧ g (f u) = y := by
  by_cases hut : u = t
  · subst hut
    rw [Function.update_self] at h
    exact .inl ⟨rfl, h⟩
  · rw [Function.update_of_ne hut] at h
    exact .inr ⟨hut, h⟩

/-- What a thread has after thread `t` has changed what it has. -/
lemma update_eq_cases {y : L} (h : Function.update f t x u = y) :
    u = t ∧ x = y ∨ u ≠ t ∧ f u = y :=
  update_cases (fun l => l) h

end

/-- A program over the operations `Op`: `Op β` are the operations answered by a `β`. -/
inductive Prog (Op : Type → Type) (α : Type) : Type 1
  /-- The program is over and returns `a`. -/
  | ret (a : α)
  /-- The program performs `o` and goes on as `k` says. -/
  | op {β : Type} (o : Op β) (k : β → Prog Op α)

namespace Prog

variable {Op : Type → Type} {α β γ : Type}

/-- Sequential composition. -/
def bind : Prog Op α → (α → Prog Op β) → Prog Op β
  | ret a, f => f a
  | op o k, f => op o fun b => (k b).bind f

instance : Monad (Prog Op) where
  pure := ret
  bind := bind

/-- The program that performs one operation and returns its answer. -/
def perform (o : Op β) : Prog Op β := op o ret

/-- The program `p`, if `c` holds. -/
def when (c : Prop) [Decidable c] (p : Prog Op Unit) : Prog Op Unit := if c then p else ret ()

@[simp] lemma pure_eq (a : α) : (pure a : Prog Op α) = ret a := rfl

@[simp] lemma ret_bind (a : α) (f : α → Prog Op β) : (ret a >>= f) = f a := rfl

@[simp] lemma op_bind {δ : Type} (o : Op δ) (k : δ → Prog Op α) (f : α → Prog Op β) :
    (op o k >>= f) = op o fun b => k b >>= f := rfl

@[simp] lemma perform_bind (o : Op β) (f : β → Prog Op α) : (perform o >>= f) = op o f := rfl

lemma bind_assoc (p : Prog Op α) (f : α → Prog Op β) (g : β → Prog Op γ) :
    (p >>= f) >>= g = p >>= fun a => f a >>= g := by
  induction p with
  | ret a => rfl
  | op o k ih => exact congrArg (Prog.op o) (funext ih)

/-! ### Running alone -/

/-- The meaning of the operations: what thread `t` is answered, and the new state. -/
abbrev Handler (Op : Type → Type) (T S : Type) := {β : Type} → T → Op β → S → β × S

variable {T S : Type} (exec : Handler Op T S)

/-- The run of a program of thread `t` that is not interrupted by anybody. -/
def alone (t : T) : Prog Op α → S → α × S
  | ret a, s => (a, s)
  | op o k, s => alone t (k (exec t o s).1) (exec t o s).2

@[simp] lemma alone_ret (t : T) (a : α) (s : S) : alone exec t (ret a : Prog Op α) s = (a, s) := rfl

@[simp] lemma alone_op (t : T) (o : Op β) (k : β → Prog Op α) (s : S) :
    alone exec t (op o k) s = alone exec t (k (exec t o s).1) (exec t o s).2 := rfl

@[simp] lemma alone_perform (t : T) (o : Op β) (s : S) :
    alone exec t (perform o) s = exec t o s := rfl

@[simp] lemma alone_bind (t : T) (p : Prog Op α) (f : α → Prog Op β) (s : S) :
    alone exec t (p >>= f) s = alone exec t (f (alone exec t p s).1) (alone exec t p s).2 := by
  induction p generalizing s with
  | ret a => rfl
  | op o k ih => exact ih _ _

/-- What every operation keeps, an uninterrupted run keeps. -/
lemma alone_keeps {t : T} {I : S → Prop} (h : ∀ {β : Type} (o : Op β) s, I s → I (exec t o s).2)
    (p : Prog Op α) {s : S} (hs : I s) : I (alone exec t p s).2 := by
  induction p generalizing s with
  | ret a => exact hs
  | op o k ih => exact ih _ (h o s hs)

end Prog

/-! ### Disciplines -/

/-- A discipline over bookkeeping `L`: when an operation may be performed, and how
its answer changes the bookkeeping. -/
structure Discipline (Op : Type → Type) (L : Type) where
  /-- With this bookkeeping the operation may be performed. -/
  pre : {β : Type} → Op β → L → Prop
  /-- The bookkeeping after the operation was answered. -/
  post : {β : Type} → Op β → L → β → L → Prop

namespace Prog

variable {Op : Type → Type} {α β L : Type} (D : Discipline Op L)

/-- The program obeys the discipline from the bookkeeping `l` on, and when it returns
the value and the bookkeeping satisfy `Q`. -/
def Obeys : Prog Op α → L → (α → L → Prop) → Prop
  | ret a, l, Q => Q a l
  | op o k, l, Q => D.pre o l ∧ ∀ b l', D.post o l b l' → (k b).Obeys l' Q

@[simp] lemma obeys_ret (a : α) (l : L) (Q : α → L → Prop) :
    (ret a : Prog Op α).Obeys D l Q ↔ Q a l := Iff.rfl

lemma obeys_perform {o : Op β} {l : L} {Q : β → L → Prop} :
    (perform o).Obeys D l Q ↔ D.pre o l ∧ ∀ b l', D.post o l b l' → Q b l' := Iff.rfl

variable {D}

lemma obeys_when {c : Prop} [Decidable c] {p : Prog Op Unit} {l : L} {Q : Unit → L → Prop}
    (hp : c → p.Obeys D l Q) (hq : ¬c → Q () l) : (when c p).Obeys D l Q := by
  unfold when
  split
  · next hc => exact hp hc
  · next hc => exact hq hc

/-- The postcondition may be weakened. -/
lemma Obeys.mono {p : Prog Op α} {l : L} {Q Q' : α → L → Prop} (h : p.Obeys D l Q)
    (hQ : ∀ a l', Q a l' → Q' a l') : p.Obeys D l Q' := by
  induction p generalizing l with
  | ret a => exact hQ _ _ h
  | op o k ih => exact ⟨h.1, fun b l' hb => ih b (h.2 b l' hb)⟩

lemma obeys_bind {p : Prog Op α} {f : α → Prog Op β} {l : L} {Q : β → L → Prop} :
    (p >>= f).Obeys D l Q ↔ p.Obeys D l fun a l' => (f a).Obeys D l' Q := by
  induction p generalizing l with
  | ret a => exact Iff.rfl
  | op o k ih =>
    refine and_congr Iff.rfl ?_
    exact forall_congr' fun b => forall_congr' fun l' => imp_congr Iff.rfl (ih b)

/-- The rule for a program that begins with one operation. -/
lemma Obeys.step {o : Op α} {k : α → Prog Op β} {l : L} {Q : β → L → Prop} (hpre : D.pre o l)
    (hk : ∀ a l', D.post o l a l' → (k a).Obeys D l' Q) : (perform o >>= k).Obeys D l Q :=
  ⟨hpre, hk⟩

/-- The rule of sequential composition, with an intermediate assertion. -/
lemma Obeys.bind {p : Prog Op α} {f : α → Prog Op β} {l : L} {Q : β → L → Prop}
    (R : α → L → Prop) (hp : p.Obeys D l R) (hf : ∀ a l', R a l' → (f a).Obeys D l' Q) :
    (p >>= f).Obeys D l Q :=
  obeys_bind.2 (hp.mono hf)

end Prog

/-- **The rule of simulation.**  A program that obeys the discipline `D` obeys every discipline
that simulates it: `R` says which bookkeepings belong together, what `D` allows the other one
allows too, and what the other one learns `D` may learn.  So a program is followed once, through
a discipline that tells how far it has come, and every other discipline is proved operation by
operation. -/
lemma Prog.Obeys.simulate {Op : Type → Type} {α L M : Type} {D : Discipline Op L}
    {E : Discipline Op M} {R : L → M → Prop}
    (hop : ∀ {β : Type} (o : Op β) l m, R l m → D.pre o l →
      E.pre o m ∧ ∀ b m', E.post o m b m' → ∃ l', D.post o l b l' ∧ R l' m')
    {p : Prog Op α} {l : L} {m : M} {Q : α → L → Prop} (hp : p.Obeys D l Q) (hR : R l m) :
    p.Obeys E m fun a m' => ∃ l', Q a l' ∧ R l' m' := by
  induction p generalizing l m with
  | ret a => exact ⟨l, hp, hR⟩
  | op o k ih =>
    obtain ⟨hpre, hpost⟩ := hop o l m hR hp.1
    refine ⟨hpre, fun b m' hb => ?_⟩
    obtain ⟨l', hl', hR'⟩ := hpost b m' hb
    exact ih b (hp.2 b l' hl') hR'

/-- What a program that obeys the discipline leaves when it runs alone. -/
lemma Prog.Obeys.alone {Op : Type → Type} {α T S L : Type} [DecidableEq T] {D : Discipline Op L}
    {exec : Prog.Handler Op T S} {I : S → (T → L) → Prop}
    (hop : ∀ (β : Type) (t : T) (o : Op β) (s : S) (ls : T → L), I s ls → D.pre o (ls t) →
      ∃ l', D.post o (ls t) (exec t o s).1 l' ∧ I (exec t o s).2 (Function.update ls t l'))
    {p : Prog Op α} {t : T} {s : S} {ls : T → L} {Q : α → L → Prop} (hp : p.Obeys D (ls t) Q)
    (hI : I s ls) :
    ∃ l', Q (p.alone exec t s).1 l' ∧ I (p.alone exec t s).2 (Function.update ls t l') := by
  induction p generalizing s ls with
  | ret a => exact ⟨ls t, hp, by rwa [Function.update_eq_self]⟩
  | op o k ih =>
    obtain ⟨l₁, hpost, hI₁⟩ := hop _ t o s ls hI hp.1
    have hk := hp.2 _ _ hpost
    obtain ⟨l₂, hQ, hI₂⟩ := ih _ (by rwa [Function.update_self]) hI₁
    exact ⟨l₂, hQ, by rwa [Function.update_idem] at hI₂⟩

/-! ### Histories -/

/-- Every event of a history is admissible in the state in which it happens. -/
def Along {S E : Type*} (next : S → E → S) (ok : S → E → Prop) : S → List E → Prop
  | _, [] => True
  | s, e :: es => ok s e ∧ Along next ok (next s e) es

instance decidableAlong {S E : Type*} {next : S → E → S} {ok : S → E → Prop}
    [∀ s e, Decidable (ok s e)] : (s : S) → (es : List E) → Decidable (Along next ok s es)
  | _, [] => .isTrue trivial
  | s, e :: es => @instDecidableAnd _ _ _ (decidableAlong (next s e) es)

/-- What every admissible event keeps, every history of admissible events keeps. -/
lemma Along.foldl {S E : Type*} {next : S → E → S} {ok : S → E → Prop} {I : S → Prop}
    (hstep : ∀ s e, I s → ok s e → I (next s e)) {s : S} {es : List E}
    (hes : Along next ok s es) (hs : I s) : I (es.foldl next s) := by
  induction es generalizing s with
  | nil => exact hs
  | cons e es ih => exact ih hes.2 (hstep s e hs hes.1)

lemma along_append {S E : Type*} {next : S → E → S} {ok : S → E → Prop} {s : S} {es es' : List E} :
    Along next ok s (es ++ es') ↔ Along next ok s es ∧ Along next ok (es.foldl next s) es' := by
  induction es generalizing s with
  | nil => exact ⟨fun h => ⟨trivial, h⟩, fun h => h.2⟩
  | cons e es ih => exact (and_congr_right fun _ => ih).trans and_assoc.symm

/-- The event after the beginning `pre` of a history is admissible where it happens. -/
lemma Along.restrict {S E : Type*} {next : S → E → S} {ok : S → E → Prop} {s : S} {es pre : List E}
    {e : E} (hes : Along next ok s es) (hpre : pre ++ [e] <+: es) : ok (pre.foldl next s) e := by
  obtain ⟨rest, rfl⟩ := hpre
  exact (along_append.1 (along_append.1 hes).1).2.1

/-- Where all events are admissible in every state, so is the history. -/
lemma along_of_forall {S E : Type*} {next : S → E → S} {ok : S → E → Prop} {es : List E}
    (h : ∀ e ∈ es, ∀ s, ok s e) (s : S) : Along next ok s es := by
  induction es generalizing s with
  | nil => trivial
  | cons e es ih => exact ⟨h e List.mem_cons_self s, ih (fun d hd => h d (List.mem_cons_of_mem _ hd)) _⟩

/-- Where an invariant makes every event admissible, so is the history. -/
lemma along_of_invariant {S E : Type*} {next : S → E → S} {ok : S → E → Prop} {I : S → Prop}
    (hstep : ∀ s e, I s → I (next s e) ∧ ok s e) {s : S} (hs : I s) (es : List E) :
    Along next ok s es := by
  induction es generalizing s with
  | nil => trivial
  | cons e es ih => exact ⟨(hstep s e hs).2, ih (hstep s e hs).1⟩

/-! ### Interleaved runs -/

/-- The shared state and what every thread still has to do.  A thread whose code is
`ret true` starts over; one whose code is `ret false` is idle. -/
structure Pool (Op : Type → Type) (T S : Type) : Type 1 where
  /-- The state all threads share. -/
  shared : S
  /-- The rest of the code of every thread. -/
  code : T → Prog Op Bool

/-- One step of a schedule over threads `T` and calls `C`. -/
inductive Act (T C : Type)
  /-- Thread `t` performs its next operation. -/
  | step (t : T)
  /-- The idle thread `t` is asked to perform the call `c`. -/
  | call (t : T) (c : C)
deriving DecidableEq

/-- A system of threads: the meaning of the operations, the loop body a thread
repeats, which thread serves which call, and the code of a call. -/
structure System (Op : Type → Type) (T S C : Type) where
  /-- The meaning of the operations. -/
  exec : Prog.Handler Op T S
  /-- The body of the loop of a thread. -/
  body : T → Prog Op Bool
  /-- Whether a thread serves a call. -/
  serves : T → C → Bool
  /-- The code of a call. -/
  entry : C → Prog Op Bool

namespace System

variable {Op : Type → Type} {T S C L : Type} [DecidableEq T] (sys : System Op T S C)

/-- One step of a schedule. -/
def next (c : Pool Op T S) : Act T C → Pool Op T S
  | .step t =>
    match c.code t with
    | .ret true => { c with code := Function.update c.code t (sys.body t) }
    | .ret false => c
    | .op o k =>
      { shared := (sys.exec t o c.shared).2
        code := Function.update c.code t (k (sys.exec t o c.shared).1) }
  | .call t r =>
    match c.code t, sys.serves t r with
    | .ret false, true => { c with code := Function.update c.code t (sys.entry r) }
    | _, _ => c

/-- The pool after a schedule. -/
def run (c : Pool Op T S) (as : List (Act T C)) : Pool Op T S := as.foldl sys.next c

@[simp] lemma run_nil (c : Pool Op T S) : sys.run c [] = c := rfl

@[simp] lemma run_cons (c : Pool Op T S) (a : Act T C) (as : List (Act T C)) :
    sys.run c (a :: as) = sys.run (sys.next c a) as := rfl

/-- A step of a schedule moves the shared state by the operation of one thread, or not at
all. -/
lemma shared_next (c : Pool Op T S) (a : Act T C) :
    (sys.next c a).shared = c.shared ∨
      ∃ (t : T) (β : Type) (o : Op β) (k : β → Prog Op Bool),
        c.code t = .op o k ∧ (sys.next c a).shared = (sys.exec t o c.shared).2 := by
  cases a with
  | call t r =>
    left
    simp only [next]
    split <;> rfl
  | step t =>
    simp only [next]
    split
    · exact .inl rfl
    · exact .inl rfl
    · next o k hcode => exact .inr ⟨t, _, o, k, hcode, rfl⟩

/-- A guard on single steps: whether thread `t` may perform `o` in `s`. -/
abbrev Guard (Op : Type → Type) (T S : Type) := {β : Type} → T → Op β → S → Prop

/-- The next operation along the schedule meets the guard. -/
def Permits (G : Guard Op T S) (c : Pool Op T S) : Act T C → Prop
  | .step t =>
    match c.code t with
    | .ret _ => True
    | .op o _ => G t o c.shared
  | .call _ _ => True

/-- Every operation performed along the schedule meets the guard. -/
def Meets (G : Guard Op T S) : Pool Op T S → List (Act T C) → Prop := Along sys.next (Permits G)

instance decidablePermits {G : Guard Op T S} [∀ (β : Type) t (o : Op β) s, Decidable (G t o s)]
    (c : Pool Op T S) : (a : Act T C) → Decidable (Permits G c a)
  | .call _ _ => .isTrue trivial
  | .step t =>
    match h : c.code t with
    | .ret _ => .isTrue (by simp only [Permits, h])
    | .op o _ => decidable_of_iff (G t o c.shared) (by simp only [Permits, h])

instance decidableMeets {G : Guard Op T S} [∀ (β : Type) t (o : Op β) s, Decidable (G t o s)]
    (c : Pool Op T S) (as : List (Act T C)) : Decidable (sys.Meets G c as) :=
  inferInstanceAs (Decidable (Along _ _ c as))

/-- The guard that forbids nothing. -/
def noGuard : Guard Op T S := fun _ _ _ => True

/-- A guard that every operation meets is met along every schedule. -/
lemma meets_of_forall {G : Guard Op T S} (h : ∀ {β : Type} t (o : Op β) s, G t o s)
    (c : Pool Op T S) (as : List (Act T C)) : sys.Meets G c as := by
  induction as generalizing c with
  | nil => trivial
  | cons a as ih =>
    refine ⟨?_, ih _⟩
    cases a with
    | call t r => trivial
    | step t =>
      simp only [Permits]
      split
      · trivial
      · exact h _ _ _

lemma meets_noGuard (c : Pool Op T S) (as : List (Act T C)) : sys.Meets noGuard c as :=
  sys.meets_of_forall (fun _ _ _ => trivial) c as

variable {D : Discipline Op L} {sys}

/-- The state of the pool together with the bookkeeping of its threads: the
invariant holds and every thread obeys the discipline to the end of its code. -/
def Sound (D : Discipline Op L) (I : S → (T → L) → Prop) (Idle : T → L → Prop)
    (c : Pool Op T S) : Prop :=
  ∃ ls : T → L, I c.shared ls ∧ ∀ t, (c.code t).Obeys D (ls t) fun _ l => Idle t l

/-- A loop or a call that is entered keeps the pool sound. -/
lemma Sound.enter {I : S → (T → L) → Prop} {Idle : T → L → Prop} {c : Pool Op T S}
    (hc : Sound D I Idle c) {t : T} {b : Bool} (ht : c.code t = .ret b) {p : Prog Op Bool}
    (hp : ∀ l, Idle t l → p.Obeys D l fun _ l => Idle t l) :
    Sound D I Idle { c with code := Function.update c.code t p } := by
  obtain ⟨ls, hI, hcode⟩ := hc
  refine ⟨ls, hI, fun u => ?_⟩
  by_cases hu : u = t
  · subst hu
    have h := hcode u
    rw [ht] at h
    simpa using hp _ h
  · simpa [Function.update_of_ne hu] using hcode u

/-- **The invariant rule.**  If the loop bodies and the allowed calls obey the
discipline from idle to idle, and every operation that the discipline and the guard
allow keeps the invariant along with the bookkeeping it prescribes, then every
schedule that meets the guard keeps the pool sound. -/
theorem run_inv {I : S → (T → L) → Prop} {Idle : T → L → Prop} {G : Guard Op T S}
    {Allowed : C → Prop}
    (hbody : ∀ t l, Idle t l → (sys.body t).Obeys D l fun _ l => Idle t l)
    (hentry : ∀ t r l, Allowed r → sys.serves t r = true → Idle t l →
      (sys.entry r).Obeys D l fun _ l => Idle t l)
    (hop : ∀ (β : Type) (t : T) (o : Op β) (s : S) (ls : T → L), I s ls → D.pre o (ls t) →
      G t o s → ∃ l', D.post o (ls t) (sys.exec t o s).1 l' ∧
        I (sys.exec t o s).2 (Function.update ls t l'))
    {c : Pool Op T S} (hc : Sound D I Idle c) {as : List (Act T C)}
    (hG : sys.Meets G c as) (hA : ∀ t r, Act.call t r ∈ as → Allowed r) :
    Sound D I Idle (sys.run c as) := by
  -- by induction on the schedule; a call or a new turn of a loop moves no shared state
  induction as generalizing c with
  | nil => exact hc
  | cons a as ih =>
    refine ih ?_ hG.2 fun t r h => hA t r (List.mem_cons_of_mem _ h)
    cases a with
    | call t r =>
      simp only [next]
      split
      · next hcode hserves =>
        exact hc.enter hcode fun l hl => hentry t r l (hA t r List.mem_cons_self) hserves hl
      · exact hc
    | step t =>
      simp only [next]
      split
      · next hcode => exact hc.enter hcode (hbody t)
      · exact hc
      · next o k hcode =>
        obtain ⟨ls, hI, hls⟩ := hc
        have ht := hls t
        rw [hcode] at ht
        have hguard : G t o c.shared := by simpa only [Permits, hcode] using hG.1
        obtain ⟨l', hpost, hI'⟩ := hop _ t o c.shared ls hI ht.1 hguard
        refine ⟨Function.update ls t l', hI', fun u => ?_⟩
        by_cases hu : u = t
        · subst hu
          simpa using ht.2 _ _ hpost
        · simpa [Function.update_of_ne hu] using hls u

/-! ### Endless schedules -/

/-- A thread in the middle of its code moves only when it is scheduled. -/
lemma code_next_of_ne {c : Pool Op T S} {t : T} {β : Type} {o : Op β} {k : β → Prog Op Bool}
    (hcode : c.code t = .op o k) {a : Act T C} (ha : a ≠ .step t) :
    (sys.next c a).code t = .op o k := by
  cases a with
  | call u r =>
    simp only [next]
    split
    · next hret _ =>
      have hu : t ≠ u := by
        rintro rfl
        rw [hcode] at hret
        cases hret
      simpa only [Function.update_of_ne hu] using hcode
    · exact hcode
  | step u =>
    have hu : t ≠ u := by
      rintro rfl
      exact ha rfl
    simp only [next]
    split
    · simpa only [Function.update_of_ne hu] using hcode
    · exact hcode
    · simpa only [Function.update_of_ne hu] using hcode

/-- A thread that is scheduled again and again comes to the end of its code. -/
lemma exists_returned {σ : ℕ → Act T C} {t : T} (hfair : ∀ k, ∃ j, k ≤ j ∧ σ j = .step t)
    (c : Pool Op T S) (k : ℕ) :
    ∃ j, k ≤ j ∧ ∃ b, (sys.run c ((List.range j).map σ)).code t = .ret b := by
  have hsucc : ∀ k, sys.run c ((List.range (k + 1)).map σ) =
      sys.next (sys.run c ((List.range k).map σ)) (σ k) := by
    intro k
    simp [run, List.range_succ, List.foldl_append]
  -- by induction on the code that is left
  suffices hall : ∀ (p : Prog Op Bool) (k : ℕ),
      (sys.run c ((List.range k).map σ)).code t = p →
      ∃ j, k ≤ j ∧ ∃ b, (sys.run c ((List.range j).map σ)).code t = .ret b from hall _ k rfl
  intro p
  induction p with
  | ret b => exact fun k hcode => ⟨k, Nat.le_refl k, b, hcode⟩
  | op o f ih =>
    have hturn : ∀ k, (sys.run c ((List.range k).map σ)).code t = .op o f → σ k = .step t →
        ∃ j, k ≤ j ∧ ∃ b, (sys.run c ((List.range j).map σ)).code t = .ret b := by
      intro k hcode hk
      have hnext : (sys.run c ((List.range (k + 1)).map σ)).code t =
          f (sys.exec t o (sys.run c ((List.range k).map σ)).shared).1 := by
        rw [hsucc, hk]
        simp only [next, hcode, Function.update_self]
      obtain ⟨j, hle, hret⟩ := ih _ (k + 1) hnext
      exact ⟨j, by omega, hret⟩
    intro k hcode
    obtain ⟨j, hkj, hj⟩ := hfair k
    obtain ⟨d, rfl⟩ := Nat.exists_eq_add_of_le hkj
    -- and for one operation on how long the thread has to wait for its turn
    induction d generalizing k with
    | zero => exact hturn k hcode hj
    | succ d ihd =>
      by_cases hk : σ k = .step t
      · exact hturn k hcode hk
      · have hsame : (sys.run c ((List.range (k + 1)).map σ)).code t = .op o f := by
          rw [hsucc]
          exact code_next_of_ne hcode hk
        have hj' : σ (k + 1 + d) = .step t := by
          rw [← hj]
          congr 1
          omega
        obtain ⟨j, hle, hret⟩ := ihd (k + 1) hsame (by omega) hj'
        exact ⟨j, by omega, hret⟩

end System

end Gcos.Lib
