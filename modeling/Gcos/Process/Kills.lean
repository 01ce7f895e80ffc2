import Gcos.Process.Child

/-!
# Reasoning about a dispatch among other threads

Rules of pre- and postconditions for the operations of a dispatch, with assertions about
the agent's block and whether it is in the queue.  An assertion is `Robust` if it survives a
kill of the agent at any moment, where kills are admitted, and the birth of a child.
-/

namespace Gcos.Process

open Lib Exec World

/-- A statement about the agent's block and whether the agent is in the queue. -/
abbrev Assertion := AgentControlBlock → Bool → Prop

/-- The assertion holds of the agent `p` in the world. -/
def Sees {n : ℕ} (p : Pid) (f : Assertion) (w : World n) : Prop :=
  f (w.pcbs p) (decide (p ∈ w.queue.q))

/-- The assertion survives the moves of the other threads. -/
structure Robust (kills : Prop) (f : Assertion) : Prop where
  zombie : kills → ∀ b queued now, f b queued → f (b.transition .zombie now) queued
  error : kills → ∀ b queued msg, msg ≠ quotaExhausted → b.isTerminal = true → f b queued →
    f { b with error := some msg } queued
  pop : kills → ∀ b queued, b.isTerminal = true → f b queued → f b false
  child : ∀ b queued children, f b queued → f { b with children := children } queued

variable {n : ℕ} {cfg : KernelConfig} {out : Outside} {child : Child} {t : Tid n} {kills : Prop}
  {v : Sight} {p : Pid} {f g : Assertion} {α β : Type}

/-- What becomes of an assertion is told by the block and by whether the agent is queued. -/
lemma sees_of {w w' : World n} {b : AgentControlBlock} (hblock : w'.pcbs p = b)
    (hqueue : p ∈ w'.queue.q ↔ p ∈ w.queue.q) (h : f b (decide (p ∈ w.queue.q))) :
    Sees p f w' := by
  unfold Sees
  rwa [hblock, decide_eq_decide.2 hqueue]

/-- An agent that is not where it was in the queue has left it. -/
lemma sees_erase {w : World n} (hout : f (w.pcbs p) false) (hsame : Sees p f w) :
    f (w.pcbs p) (decide (p ∈ w.queue.q.erase p)) := by
  cases hmem : decide (p ∈ w.queue.q.erase p) with
  | false => exact hout
  | true =>
    have hbefore : p ∈ w.queue.q := List.mem_of_mem_erase (of_decide_eq_true hmem)
    unfold Sees at hsame
    rwa [decide_eq_true hbefore] at hsame

/-- A move of a kill. -/
lemma Robust.kill {w w' : World n} (h : Robust kills f) (hkills : kills) (hmove : KillMove p w w')
    (hw : Sees p f w) : Sees p f w' := by
  cases hmove with
  | zombie now =>
    simp only [Sees, Function.update_self]
    exact h.zombie hkills _ _ now hw
  | error root hdead =>
    simp only [Sees, Function.update_self]
    refine h.error hkills _ _ _ ?_ hdead hw
    cases root with
    | none => decide
    | some root =>
      refine ne_quotaExhausted ':' ?_ (by decide)
      have hcolon : ':' ∈ (toString "reaped: killed by user (root=").toList := by decide
      simp only [String.toList_append, List.mem_append, hcolon, true_or]
  | pop hdead =>
    unfold Sees
    simp only [ReadyQueue.pop]
    split
    · exact sees_erase (h.pop hkills _ _ hdead hw) hw
    · exact hw
  | drop hdead => exact hw

lemma Robust.stable (h : Robust kills f) : Prog.Stable (Moves cfg out t kills p) (Sees p f) := by
  rintro w w' (⟨hkills, hmove⟩ | hmove) hw
  · exact h.kill hkills hmove hw
  · cases hmove with
    | mk u hu child o _ hblock hqueue =>
      obtain ⟨children, hblock⟩ := hblock
      exact sees_of hblock hqueue (h.child _ _ children hw)

/-! ### Robust assertions -/

namespace Robust

lemma and (hf : Robust kills f) (hg : Robust kills g) :
    Robust kills fun b queued => f b queued ∧ g b queued where
  zombie := fun hk b queued now h => ⟨hf.zombie hk b queued now h.1, hg.zombie hk b queued now h.2⟩
  error := fun hk b queued msg hm hd h =>
    ⟨hf.error hk b queued msg hm hd h.1, hg.error hk b queued msg hm hd h.2⟩
  pop := fun hk b queued hd h => ⟨hf.pop hk b queued hd h.1, hg.pop hk b queued hd h.2⟩
  child := fun b queued children h =>
    ⟨hf.child b queued children h.1, hg.child b queued children h.2⟩

lemma or (hf : Robust kills f) (hg : Robust kills g) :
    Robust kills fun b queued => f b queued ∨ g b queued where
  zombie := fun hk b queued now h => h.imp (hf.zombie hk b queued now) (hg.zombie hk b queued now)
  error := fun hk b queued msg hm hd h =>
    h.imp (hf.error hk b queued msg hm hd) (hg.error hk b queued msg hm hd)
  pop := fun hk b queued hd h => h.imp (hf.pop hk b queued hd) (hg.pop hk b queued hd)
  child := fun b queued children h =>
    h.imp (hf.child b queued children) (hg.child b queued children)

lemma const (φ : Prop) : Robust kills fun _ _ => φ :=
  ⟨fun _ _ _ _ h => h, fun _ _ _ _ _ _ h => h, fun _ _ _ _ h => h, fun _ _ _ h => h⟩

lemma ex {ι : Type} {h : ι → Assertion} (hh : ∀ i, Robust kills (h i)) :
    Robust kills fun b queued => ∃ i, h i b queued where
  zombie := fun hk b queued now ⟨i, hi⟩ => ⟨i, (hh i).zombie hk b queued now hi⟩
  error := fun hk b queued msg hm hd ⟨i, hi⟩ => ⟨i, (hh i).error hk b queued msg hm hd hi⟩
  pop := fun hk b queued hd ⟨i, hi⟩ => ⟨i, (hh i).pop hk b queued hd hi⟩
  child := fun b queued children ⟨i, hi⟩ => ⟨i, (hh i).child b queued children hi⟩

lemma imp (φ : Prop) (hf : Robust kills f) : Robust kills fun b queued => φ → f b queued where
  zombie := fun hk b queued now h hφ => hf.zombie hk b queued now (h hφ)
  error := fun hk b queued msg hm hd h hφ => hf.error hk b queued msg hm hd (h hφ)
  pop := fun hk b queued hd h hφ => hf.pop hk b queued hd (h hφ)
  child := fun b queued children h hφ => hf.child b queued children (h hφ)

/-- The agent is not in the queue. -/
lemma notQueued : Robust kills fun _ queued => queued = false :=
  ⟨fun _ _ _ _ h => h, fun _ _ _ _ _ _ h => h, fun _ _ _ _ _ => rfl, fun _ _ _ h => h⟩

/-- A statement about the block that does not read what a kill and a spawn write. -/
lemma onFrame {h : AgentControlBlock → Prop}
    (hframe : ∀ b st started finished error children, h b →
      h { b with
        state := st, startedAt := started, finishedAt := finished, error := error,
        children := children }) :
    Robust kills fun b _ => h b where
  zombie := fun _ b _ now hb => by
    rw [AgentControlBlock.transition_frame]
    exact hframe b _ _ _ b.error b.children hb
  error := fun _ b _ msg _ _ hb =>
    hframe b b.state b.startedAt b.finishedAt (some msg) b.children hb
  pop := fun _ _ _ _ hb => hb
  child := fun b _ children hb => hframe b b.state b.startedAt b.finishedAt b.error children hb

lemma terminal : Robust kills fun b _ => b.isTerminal = true where
  zombie := fun _ b _ now hb => by rw [AgentControlBlock.transition_of_isTerminal _ _ _ hb, hb]
  error := fun _ _ _ _ _ _ hb => hb
  pop := fun _ _ _ _ hb => hb
  child := fun _ _ _ hb => hb

/-- Only where something else holds is the agent live. -/
lemma ofLive (φ : Prop) : Robust kills fun b _ => b.isTerminal = false → φ where
  zombie := fun _ b _ now _ hlive => by
    rw [AgentControlBlock.isTerminal_transition] at hlive
    simp [AgentState.isTerminal] at hlive
  error := fun _ _ _ _ _ _ hb => hb
  pop := fun _ _ _ _ hb => hb
  child := fun _ _ _ hb => hb

lemma finished : Robust kills fun b _ => b.finishedAt.isSome = true where
  zombie := fun _ b _ now hb => by
    unfold AgentControlBlock.transition
    split
    · exact hb
    · split
      · exact hb
      · rfl
  error := fun _ _ _ _ _ _ hb => hb
  pop := fun _ _ _ _ hb => hb
  child := fun _ _ _ hb => hb

end Robust

/-! ### Rules -/

/-- What a kernel program leads to while the others move, if the dispatch finds what `v`
says. -/
def KLeads (cfg : KernelConfig) (out : Outside) (t : Tid n) (kills : Prop) (v : Sight) (p : Pid)
    (P : World n → Prop) (prog : Prog KOp α) (Q : α → World n → Prop) : Prop :=
  Prog.Ensures (World.exec cfg out) t (Moves cfg out t kills p) (fun t o w => v.guard t (.inl o) w)
    P prog Q

/-- What a program of the process backend leads to while the others move, if the dispatch
finds what `v` says. -/
def Leads (cfg : KernelConfig) (out : Outside) (child : Child) (t : Tid n) (kills : Prop)
    (v : Sight) (p : Pid) (P : World n → Prop) (prog : Prog POp α) (Q : α → World n → Prop) :
    Prop :=
  Prog.Ensures (Process.exec cfg out child) t (Moves cfg out t kills p) v.guard P prog Q

/-- A program of the kernel leads to the same in the process backend. -/
lemma KLeads.plain {P : World n → Prop} {prog : Prog KOp α} {Q : α → World n → Prop}
    (h : KLeads cfg out t kills v p P prog Q) :
    Leads cfg out child t kills v p P (plain prog) Q :=
  Prog.Ensures.lift (Process.exec cfg out child) Sum.inl (fun _ _ => rfl) h

/-- The rule for a dispatch that begins with an operation of the kernel. -/
lemma KLeads.kernel {P : World n → Prop} {o : KOp α} {M : α → World n → Prop}
    {k : α → Prog POp β} {Q : β → World n → Prop}
    (h : KLeads cfg out t kills v p P (.perform o) M)
    (hk : ∀ a, Leads cfg out child t kills v p (M a) (k a) Q) :
    Leads cfg out child t kills v p P (kernel o >>= k) Q :=
  Prog.Ensures.bind M h.plain hk

/-- A fact that the precondition gives. -/
lemma leads_fact {P : World n → Prop} {prog : Prog POp α} {Q : α → World n → Prop} {φ : Prop}
    (hP : ∀ w, P w → φ) (h : φ → Leads cfg out child t kills v p P prog Q) :
    Leads cfg out child t kills v p P prog Q :=
  fun s a s' hs hrun => h (hP s hs) s a s' hs hrun

lemma kleads_read {look : Look} {g : AgentControlBlock → Assertion} (hf : Robust kills f)
    (hg : ∀ pcb, Robust kills (g pcb)) (h : ∀ b queued, f b queued → g b b queued) :
    KLeads cfg out t kills v p (Sees p f) (.perform (.readPcb p look)) fun pcb => Sees p (g pcb) :=
  Prog.Ensures.perform hf.stable (fun pcb => (hg pcb).stable) fun _ hw => h _ _ hw

lemma kleads_write {c : Write} (hf : Robust kills f) (hg : Robust kills g)
    (h : ∀ clock b queued, f b queued → g (c.apply clock b) queued) :
    KLeads cfg out t kills v p (Sees p f) (.perform (.write p c)) fun _ => Sees p g := by
  refine Prog.Ensures.perform hf.stable (fun _ => hg.stable) fun w hw => ?_
  refine sees_of (w := w) (b := c.apply (w.clockFrom out) (w.pcbs p)) ?_ ?_ (h _ _ _ hw)
  · cases c <;> simp [World.exec, World.note]
  · cases c <;> rfl

/-- An operation that concerns neither the block nor the queue. -/
lemma kleads_quiet {o : KOp α} (hf : Robust kills f)
    (ho : ∀ w : World n, (World.exec cfg out t o w).2.pcbs = w.pcbs ∧
      (World.exec cfg out t o w).2.queue = w.queue) :
    KLeads cfg out t kills v p (Sees p f) (.perform o) fun _ => Sees p f := by
  refine Prog.Ensures.perform hf.stable (fun _ => hf.stable) fun w hw => ?_
  obtain ⟨hpcbs, hqueue⟩ := ho w
  exact sees_of (by rw [hpcbs]) (by rw [hqueue]) hw

/-- `put` keeps a terminal agent out of the queue and makes any other one `READY`. -/
lemma kleads_put (hf : Robust kills f) (hg : Robust kills g)
    (hdead : ∀ b queued, b.isTerminal = true → f b queued → g b queued)
    (hlive : ∀ b queued now, b.isTerminal = false → f b queued → g (b.transition .ready now) true) :
    KLeads cfg out t kills v p (Sees p f) (.perform (.put p)) fun _ => Sees p g := by
  refine Prog.Ensures.perform hf.stable (fun _ => hg.stable) fun w hw => ?_
  unfold Sees
  simp only [World.exec, World.put]
  split
  · next hterm => exact hdead _ _ hterm hw
  · next hterm =>
    simp only [World.note, Function.update_self, List.mem_append, List.mem_singleton, or_true,
      decide_true]
    exact hlive _ _ _ (by simpa using hterm) hw

lemma leads_assign {a : Assign} (hf : Robust kills f) (hg : Robust kills g)
    (h : ∀ b queued, f b queued → g (a.apply b) queued) :
    Leads cfg out child t kills v p (Sees p f) (proc (.assign p a)) fun _ => Sees p g := by
  refine Prog.Ensures.perform hf.stable (fun _ => hg.stable) fun w hw => ?_
  exact sees_of (Function.update_self _ _ _) Iff.rfl (h _ _ hw)

end Gcos.Process
