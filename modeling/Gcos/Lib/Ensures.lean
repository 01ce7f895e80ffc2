import Gcos.Lib.Prog
import Mathlib.Logic.Relation

/-!
# Pre- and postconditions under interference

`Prog.Under` are the runs of a program between whose operations others may move along a
relation `R`.  A *guard* says in which states the program performs which of its operations:
it picks the runs in which an operation finds what the guard asks for, whoever has brought
it about.

`Prog.Ensures` says of a program what holds when it returns, if a precondition held when
it was started.  The assertions between the operations must be *stable*: they survive every
move along `R`.  With an empty `R` the rules speak about the program running alone.

`Prog.lift` embeds the programs over one set of operations into those over a larger one;
what they ensure is carried over.
-/

namespace Gcos.Lib.Prog

open Relation

variable {Op : Type → Type} {α β T S : Type}

/-- `Under exec t R G p s a s'`: the program `p` of thread `t`, started in `s`, can
return `a` and leave `s'`, when between any two of its operations (and before the
first and after the last) the state may change along `R`, and each of its operations
meets the guard `G` when it is performed. -/
inductive Under (exec : Handler Op T S) (t : T) (R : S → S → Prop) (G : System.Guard Op T S) :
    Prog Op α → S → α → S → Prop
  /-- The program is over. -/
  | ret {a : α} {s : S} : Under exec t R G (ret a) s a s
  /-- Somebody else moves. -/
  | env {p : Prog Op α} {s s₁ s₂ : S} {a : α} :
      R s s₁ → Under exec t R G p s₁ a s₂ → Under exec t R G p s a s₂
  /-- The program moves. -/
  | op {β : Type} {o : Op β} {k : β → Prog Op α} {s s₂ : S} {a : α} :
      G t o s → Under exec t R G (k (exec t o s).1) (exec t o s).2 a s₂ →
        Under exec t R G (op o k) s a s₂

/-- The assertion survives every move of the others. -/
def Stable (R : S → S → Prop) (P : S → Prop) : Prop := ∀ s s', R s s' → P s → P s'

/-- If the program is started where `P` holds and returns `a`, then `Q a` holds. -/
def Ensures (exec : Handler Op T S) (t : T) (R : S → S → Prop) (G : System.Guard Op T S)
    (P : S → Prop) (p : Prog Op α) (Q : α → S → Prop) : Prop :=
  ∀ s a s', P s → Under exec t R G p s a s' → Q a s'

variable {exec : Handler Op T S} {t : T} {R R' : S → S → Prop} {G : System.Guard Op T S}

/-- With more moves of the others there are more runs. -/
lemma Under.mono {p : Prog Op α} {s s' : S} {a : α} (hR : ∀ s s', R s s' → R' s s')
    (h : Under exec t R G p s a s') : Under exec t R' G p s a s' := by
  induction h with
  | ret => exact .ret
  | env hmove _ ih => exact .env (hR _ _ hmove) ih
  | op hguard _ ih => exact .op hguard ih

/-- Several moves of the others. -/
lemma Under.envs {p : Prog Op α} {s s₁ s₂ : S} {a : α} (hmoves : ReflTransGen R s s₁)
    (h : Under exec t R G p s₁ a s₂) : Under exec t R G p s a s₂ := by
  induction hmoves using ReflTransGen.head_induction_on with
  | refl => exact h
  | head hmove _ ih => exact .env hmove ih

/-- A program has a run if the others can bring about whatever the guard asks for. -/
lemma exists_under (hguard : ∀ {β : Type} (o : Op β) s, ∃ s', ReflTransGen R s s' ∧ G t o s')
    (p : Prog Op α) (s : S) : ∃ a s', Under exec t R G p s a s' := by
  induction p generalizing s with
  | ret a => exact ⟨a, s, .ret⟩
  | op o k ih =>
    obtain ⟨s₁, hmoves, ho⟩ := hguard o s
    obtain ⟨a, s₂, hrest⟩ := ih (exec t o s₁).1 (exec t o s₁).2
    exact ⟨a, s₂, .envs hmoves (.op ho hrest)⟩

/-- The uninterrupted run is one of the runs under interference. -/
lemma under_alone (R : S → S → Prop) (p : Prog Op α) (s : S) :
    Under exec t R System.noGuard p s (p.alone exec t s).1 (p.alone exec t s).2 := by
  induction p generalizing s with
  | ret a => exact .ret
  | op o k ih => exact .op trivial (ih _ _)

/-- A run of a composition is a run of its first part, followed by one of its second. -/
lemma Under.of_bind {p : Prog Op α} {f : α → Prog Op β} {s s'' : S} {b : β}
    (h : Under exec t R G (p >>= f) s b s'') :
    ∃ a s', Under exec t R G p s a s' ∧ Under exec t R G (f a) s' b s'' := by
  -- by induction on the run, with the first part as what is left of it
  generalize hq : p >>= f = q at h
  induction h generalizing p with
  | @ret b s =>
    cases p with
    | ret a => exact ⟨a, s, .ret, by rw [show f a = .ret b from hq]; exact .ret⟩
    | op o k => cases hq
  | env hR _ ih =>
    obtain ⟨a, s', hp, hf⟩ := ih hq
    exact ⟨a, s', .env hR hp, hf⟩
  | @op γ o k s s₂ b hguard hrest ih =>
    cases p with
    | ret a => exact ⟨a, s, .ret, by rw [show f a = .op o k from hq]; exact .op hguard hrest⟩
    | op o' k' =>
      cases hq
      obtain ⟨a, s', hp, hf⟩ := ih rfl
      exact ⟨a, s', .op hguard hp, hf⟩

/-! ### The rules -/

lemma ensures_ret {P : S → Prop} {a : α} {Q : α → S → Prop} (hP : Stable R P)
    (h : ∀ s, P s → Q a s) : Ensures exec t R G P (ret a) Q := by
  intro s b s' hs hrun
  generalize hq : (ret a : Prog Op α) = q at hrun
  induction hrun with
  | ret => cases hq; exact h _ hs
  | env hR _ ih => exact ih (hP _ _ hR hs) hq
  | op => cases hq

/-- The rule for one operation, which meets the guard, and what follows it. -/
lemma ensures_op {P : S → Prop} {o : Op β} {k : β → Prog Op α} {Q : α → S → Prop}
    (M : β → S → Prop) (hP : Stable R P)
    (ho : ∀ s, P s → G t o s → M (exec t o s).1 (exec t o s).2)
    (hk : ∀ b, Ensures exec t R G (M b) (k b) Q) : Ensures exec t R G P (op o k) Q := by
  intro s a s' hs hrun
  generalize hq : op o k = q at hrun
  induction hrun with
  | ret => cases hq
  | env hR _ ih => exact ih (hP _ _ hR hs) hq
  | op hguard hrest =>
    cases hq
    exact hk _ _ _ _ (ho _ hs hguard) hrest

namespace Ensures

variable {P : S → Prop} {p : Prog Op α} {Q : α → S → Prop}

/-- The rule of sequential composition. -/
lemma bind {f : α → Prog Op β} {Q' : β → S → Prop} (M : α → S → Prop)
    (hp : Ensures exec t R G P p M) (hf : ∀ a, Ensures exec t R G (M a) (f a) Q') :
    Ensures exec t R G P (p >>= f) Q' := by
  intro s b s'' hs hrun
  obtain ⟨a, s', hrun₁, hrun₂⟩ := hrun.of_bind
  exact hf a s' b s'' (hp s a s' hs hrun₁) hrun₂

/-- The rule for a program that begins with one operation. -/
lemma step {o : Op α} {k : α → Prog Op β} {Q' : β → S → Prop} (M : α → S → Prop)
    (hP : Stable R P) (ho : ∀ s, P s → M (exec t o s).1 (exec t o s).2)
    (hk : ∀ a, Ensures exec t R G (M a) (k a) Q') : Ensures exec t R G P (perform o >>= k) Q' :=
  ensures_op M hP (fun s hs _ => ho s hs) hk

/-- The rule for one operation alone, which meets the guard. -/
lemma perform_of_guard {o : Op α} (hP : Stable R P) (hQ : ∀ a, Stable R (Q a))
    (ho : ∀ s, P s → G t o s → Q (exec t o s).1 (exec t o s).2) :
    Ensures exec t R G P (Prog.perform o) Q :=
  ensures_op Q hP ho fun a => ensures_ret (hQ a) fun _ h => h

/-- The rule for one operation alone. -/
lemma perform {o : Op α} (hP : Stable R P) (hQ : ∀ a, Stable R (Q a))
    (ho : ∀ s, P s → Q (exec t o s).1 (exec t o s).2) :
    Ensures exec t R G P (Prog.perform o) Q :=
  perform_of_guard hP hQ fun s hs _ => ho s hs

/-- The precondition may be strengthened and the postcondition weakened. -/
lemma conseq {P' : S → Prop} {Q' : α → S → Prop} (h : Ensures exec t R G P p Q)
    (hP : ∀ s, P' s → P s) (hQ : ∀ a s, Q a s → Q' a s) : Ensures exec t R G P' p Q' :=
  fun s a s' hs hrun => hQ a s' (h s a s' (hP s hs) hrun)

/-- What is ensured holds after the run alone. -/
lemma alone (h : Ensures exec t R System.noGuard P p Q) {s : S} (hs : P s) :
    Q (p.alone exec t s).1 (p.alone exec t s).2 :=
  h s _ _ hs (under_alone R p s)

end Ensures

lemma ensures_when {c : Prop} [Decidable c] {p : Prog Op Unit} {P : S → Prop}
    {Q : Unit → S → Prop} (hP : Stable R P) (hp : c → Ensures exec t R G P p Q)
    (hq : ¬c → ∀ s, P s → Q () s) : Ensures exec t R G P (when c p) Q := by
  unfold when
  split
  · next hc => exact hp hc
  · next hc => exact ensures_ret hP (hq hc)

/-- Where nobody else moves, there is only the run alone. -/
lemma Under.eq_alone {p : Prog Op α} {s s' : S} {a : α}
    (h : Under exec t (fun _ _ => False) G p s a s') : p.alone exec t s = (a, s') := by
  induction h with
  | ret => rfl
  | env hR => exact hR.elim
  | op _ _ ih => exact ih

lemma ensures_alone {P : S → Prop} {p : Prog Op α} {Q : α → S → Prop}
    (h : ∀ s, P s → Q (p.alone exec t s).1 (p.alone exec t s).2) :
    Ensures exec t (fun _ _ => False) G P p Q := by
  intro s a s' hs hrun
  have hQ := h s hs
  rwa [hrun.eq_alone] at hQ

/-! ### Larger sets of operations -/

variable {Op' : Type → Type}

/-- The same program over more operations. -/
def lift (emb : {β : Type} → Op β → Op' β) : Prog Op α → Prog Op' α
  | ret a => ret a
  | op o k => op (emb o) fun b => (k b).lift emb

/-- A program runs over more operations as it does over its own. -/
lemma alone_lift {exec' : Handler Op' T S} {emb : {β : Type} → Op β → Op' β}
    (hemb : ∀ {β : Type} (o : Op β) s, exec' t (emb o) s = exec t o s) (p : Prog Op α) (s : S) :
    (p.lift emb).alone exec' t s = p.alone exec t s := by
  induction p generalizing s with
  | ret a => rfl
  | op o k ih =>
    show ((k (exec' t (emb o) s).1).lift emb).alone exec' t (exec' t (emb o) s).2 = _
    rw [hemb, ih]
    rfl

lemma Under.of_lift {exec' : Handler Op' T S} {G' : System.Guard Op' T S}
    {emb : {β : Type} → Op β → Op' β}
    (hemb : ∀ {β : Type} (o : Op β) s, exec' t (emb o) s = exec t o s) {p : Prog Op α} {s s' : S}
    {a : α} (h : Under exec' t R G' (p.lift emb) s a s') :
    Under exec t R (fun t o s => G' t (emb o) s) p s a s' := by
  generalize hq : p.lift emb = q at h
  induction h generalizing p with
  | ret =>
    cases p with
    | ret a => cases hq; exact .ret
    | op o k => cases hq
  | env hR _ ih => exact .env hR (ih hq)
  | op hguard _ ih =>
    cases p with
    | ret a => cases hq
    | op o k =>
      cases hq
      have hk := ih rfl
      rw [hemb] at hk
      exact .op hguard hk

/-- What a program ensures, it ensures over more operations. -/
lemma Ensures.lift (exec' : Handler Op' T S) {G' : System.Guard Op' T S}
    (emb : {β : Type} → Op β → Op' β)
    (hemb : ∀ {β : Type} (o : Op β) s, exec' t (emb o) s = exec t o s) {P : S → Prop}
    {p : Prog Op α} {Q : α → S → Prop} (h : Ensures exec t R (fun t o s => G' t (emb o) s) P p Q) :
    Ensures exec' t R G' P (p.lift emb) Q :=
  fun s a s' hs hrun => h s a s' hs (hrun.of_lift hemb)

/-- A program obeys a discipline over more operations if it obeys what the discipline says
about its own. -/
lemma obeys_lift {L : Type} {D : Discipline Op' L} {emb : {β : Type} → Op β → Op' β}
    {p : Prog Op α} {l : L} {Q : α → L → Prop} :
    (p.lift emb).Obeys D l Q ↔
      p.Obeys ⟨fun o => D.pre (emb o), fun o => D.post (emb o)⟩ l Q := by
  induction p generalizing l with
  | ret a => exact Iff.rfl
  | op o k ih =>
    refine and_congr Iff.rfl ?_
    exact forall_congr' fun b => forall_congr' fun l' => imp_congr Iff.rfl (ih b)

/-! ### Operations that are programs -/

/-- The program in which every operation is replaced by a program over other operations. -/
def inline (f : {β : Type} → Op' β → Prog Op β) : Prog Op' α → Prog Op α
  | ret a => ret a
  | op o k => f o >>= fun b => (k b).inline f

section Inline

variable {f : {β : Type} → Op' β → Prog Op β}

@[simp] lemma inline_ret (a : α) : (ret a : Prog Op' α).inline f = ret a := rfl

@[simp] lemma inline_pure (a : α) : (pure a : Prog Op' α).inline f = pure a := rfl

@[simp] lemma inline_perform_bind (o : Op' β) (k : β → Prog Op' α) :
    (perform o >>= k).inline f = f o >>= fun b => (k b).inline f := rfl

@[simp] lemma inline_bind (p : Prog Op' α) (k : α → Prog Op' β) :
    (p >>= k).inline f = p.inline f >>= fun a => (k a).inline f := by
  induction p with
  | ret a => rfl
  | op o k' ih =>
    have hk : (fun b => (k' b >>= k).inline f) = fun b => (k' b).inline f >>= fun a => (k a).inline f :=
      funext ih
    change (f o >>= fun b => (k' b >>= k).inline f) = _
    rw [hk, inline, bind_assoc]

/-- The operations of a program that was taken over from fewer operations come back. -/
lemma inline_lift {emb : {β : Type} → Op β → Op' β}
    (hemb : ∀ {β : Type} (o : Op β), f (emb o) = perform o) (p : Prog Op α) :
    (p.lift emb).inline f = p := by
  induction p with
  | ret a => rfl
  | op o k ih =>
    change (f (emb o) >>= fun b => ((k b).lift emb).inline f) = op o k
    rw [hemb, funext ih]
    rfl

/-- If the operations mean what the programs do that replace them, so does the program. -/
lemma alone_inline {S' : Type} {exec' : Handler Op' T S'} (view : S' → S)
    (hf : ∀ {β : Type} (o : Op' β) s,
      (f o).alone exec t (view s) = ((exec' t o s).1, view (exec' t o s).2))
    (p : Prog Op' α) (s : S') :
    (p.inline f).alone exec t (view s) = ((p.alone exec' t s).1, view (p.alone exec' t s).2) := by
  induction p generalizing s with
  | ret a => rfl
  | op o k ih =>
    change (f o >>= fun b => (k b).inline f).alone exec t (view s) = _
    rw [alone_bind, hf, ih]
    rfl

end Inline

end Gcos.Lib.Prog
