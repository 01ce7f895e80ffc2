import Gcos.Exec.Bounds
import Gcos.Process.Child

/-!
# Running an agent to its end

`executor.run_agent`: steps of an agent until one does not go on, and at most thirty-two of
them.  Plain chat and the coder end with their first step.  A multi-step agent may be given
more steps than the loop makes, and then it comes back as it is.
-/

namespace Gcos.Exec

open Lib Memory World Process

variable {n : ℕ}

/-! ### The loop -/

/-- `executor._pager_for`. -/
def pagerFor (pager : Option ContextPager) : ContextPager :=
  pager.getD ⟨4096, defaultPolicies false⟩

/-- `executor.run_step` of an agent with the given pager. -/
def runStepWith (cfg : KernelConfig) (pager : Option ContextPager) (p : Pid) :
    Prog KOp (Except Exn Bool) := do
  let pcb ← .perform (.readPcb p .fields)
  if pcb.capability.multiStep then runReactStepWith pager cfg.host p
  else if pcb.capability.canExecCode then runCoderStep { cfg with pager := pagerFor pager } p
  else runPlainStep { cfg with pager := pagerFor pager } p

/-- The loop of `run_agent`. -/
def runAgentLoop (cfg : KernelConfig) (pager : Option ContextPager) (p : Pid) :
    ℕ → Prog KOp (Except Exn Unit)
  | 0 => return .ok ()
  | safety + 1 => do
    let pcb ← .perform (.readPcb p .terminal)
    if pcb.isTerminal then return .ok ()
    else match ← runStepWith cfg pager p with
      | .error e => return .error e
      | .ok keepGoing => if keepGoing then runAgentLoop cfg pager p safety else return .ok ()

/-- `executor.run_agent`. -/
def runAgent (cfg : KernelConfig) (pager : Option ContextPager) (p : Pid) :
    Prog KOp (Except Exn Unit) := runAgentLoop cfg pager p 32

/-- With the kernel's pager this is the step that the workers run. -/
theorem runStepWith_kernel (cfg : KernelConfig) (p : Pid) :
    runStepWith cfg (some cfg.pager) p = runStep cfg p := by
  rw [runStepWith, runReactStepWith_kernel]
  rfl

/-! ### The steps that end an agent -/

section

variable {cfg cfg' : KernelConfig} {out : Outside} {t : Tid n} {p : Pid} {α : Type}

/-- The statement that says nothing. -/
abbrev Any (p : Pid) : World n → Prop := At p fun _ _ => True

/-- A step that does not go on, and if it returns the agent is done. -/
abbrev Closes (p : Pid) (answer : Except Exn Bool) : World n → Prop :=
  At p fun b _ => answer ≠ .ok true ∧ (answer = .ok false → b.isTerminal = true)

/-- Reading the block: the block is known. -/
lemma yields_look {look : Look} {f : AgentControlBlock → ℕ → Prop}
    {k : AgentControlBlock → Prog KOp α}
    {Q : α → World n → Prop}
    (hk : ∀ b m, f b m → Yields cfg out t (At p (Is b m)) (k b) Q) :
    Yields cfg out t (At p f) (Prog.perform (.readPcb p look) >>= k) Q := by
  refine Prog.Ensures.step (fun pcb w => At p f w ∧ pcb = w.pcbs p) (stable_nobody _)
    (fun _ h => ⟨h, rfl⟩) fun pcb => ?_
  rintro w a w' ⟨hw, rfl⟩ hrun
  exact hk _ w.chats hw w a w' ⟨rfl, rfl⟩ hrun

/-- What is done before does not matter. -/
lemma yields_after {P : World n → Prop} {prog : Prog KOp α} {k : α → Prog KOp (Except Exn Bool)}
    (hk : ∀ a, Yields cfg out t (Any p) (k a) (Closes p)) :
    Yields cfg out t P (prog >>= k) (Closes p) :=
  Prog.Ensures.bind (fun _ => Any p) (fun _ _ _ _ _ => trivial) hk

lemma yields_closing {st : AgentState} {P : World n → Prop} (hst : st.isTerminal = true) :
    Yields cfg out t P (Prog.perform (.write p (.transition st)) >>= fun _ => .ret (.ok false))
      (Closes p) := by
  have hclose : Yields cfg out t (Any p)
      (Prog.perform (.write p (.transition st)) >>= fun _ => .ret (.ok false)) (Closes p) := by
    refine yields_write (g := fun b _ => b.isTerminal = true) (fun clock b _ _ => ?_)
      (yields_ret fun w h => ⟨nofun, fun _ => h⟩)
    rw [Write.apply, AgentControlBlock.isTerminal_transition, hst, Bool.or_true]
  exact hclose.conseq (fun _ _ => trivial) fun _ _ h => h

lemma yields_failing {st : AgentState} {msg : String} {P : World n → Prop}
    (hst : st.isTerminal = true) :
    Yields cfg out t P (failWith p st msg >>= fun _ => .ret (.ok false)) (Closes p) := by
  have hclose : Yields cfg out t (Any p) (failWith p st msg) fun _ =>
      At p fun b _ => b.isTerminal = true := by
    refine yields_write (g := fun b _ => b.isTerminal = true) (fun clock b _ _ => ?_) ?_
    · rw [Write.apply, AgentControlBlock.isTerminal_transition, hst, Bool.or_true]
    · exact yields_write (k := .ret) (fun _ _ _ h => h) (yields_ret fun _ h => h)
  refine Prog.Ensures.bind _ (hclose.conseq (fun _ _ => trivial) fun _ _ h => h) fun _ =>
    yields_ret fun w h => ⟨?_, fun _ => h⟩
  intro hok
  cases hok

lemma yields_failingExn (e : Exn) {P : World n → Prop} :
    Yields cfg out t P (failWithExn p e >>= fun _ => .ret (.ok false)) (Closes p) := by
  cases e <;> exact yields_failing rfl

/-- An agent that is found dead. -/
lemma yields_dead {b : AgentControlBlock} {m : ℕ} (hdead : b.isTerminal = true) :
    Yields cfg out t (At p (Is b m)) (.ret (.ok false)) (Closes p) :=
  yields_ret fun _ h => ⟨nofun, fun _ => h.1 ▸ hdead⟩

lemma yields_finishPlain_closes (r : ChatResult) {P : World n → Prop} :
    Yields cfg out t P (finishPlain p r) (Closes p) := by
  refine yields_after fun _ => yields_look fun b _ _ => ?_
  split
  · next hzombie => exact yields_dead (AgentControlBlock.isTerminal_of_zombie hzombie)
  · exact yields_after fun _ => yields_after fun _ => yields_after fun _ => yields_closing rfl

lemma yields_runPlainStep_closes :
    Yields cfg out t (Any p) (runPlainStep cfg' p) (Closes p) := by
  refine yields_look fun b _ _ => ?_
  split
  · next hdead => exact yields_dead hdead
  split
  · exact yields_failing rfl
  refine yields_after fun _ => yields_after fun answer => ?_
  cases answer with
  | error e => exact yields_failingExn e
  | ok r => exact yields_finishPlain_closes r

lemma yields_runSandbox_closes (pcb : AgentControlBlock) (reply code : String)
    {P : World n → Prop} :
    Yields cfg out t P (runSandbox p pcb reply code) (Closes p) := by
  refine yields_after fun answer => ?_
  cases answer with
  | error e => exact yields_ret fun _ _ => ⟨nofun, nofun⟩
  | ok r =>
    refine yields_after fun _ => ?_
    split
    · exact yields_closing rfl
    · exact yields_after fun _ => yields_closing rfl

lemma yields_finishCoder_closes (r : ChatResult) {P : World n → Prop} :
    Yields cfg out t P (finishCoder cfg'.host p r) (Closes p) := by
  refine yields_after fun _ => yields_look fun b _ _ => ?_
  split
  · next hzombie => exact yields_dead (AgentControlBlock.isTerminal_of_zombie hzombie)
  refine yields_after fun _ => yields_after fun _ => ?_
  split
  · exact yields_after fun _ => yields_closing rfl
  split
  · exact yields_after fun _ => yields_closing rfl
  split
  · exact yields_after fun _ => yields_closing rfl
  split
  · exact yields_after fun _ => yields_after fun _ => yields_closing rfl
  · exact yields_runSandbox_closes _ _ _

lemma yields_runCoderStep_closes :
    Yields cfg out t (Any p) (runCoderStep cfg' p) (Closes p) := by
  refine yields_look fun b _ _ => ?_
  split
  · next hdead => exact yields_dead hdead
  split
  · exact yields_failing rfl
  split
  · exact yields_failing rfl
  refine yields_after fun _ => yields_after fun _ => yields_after fun pcb =>
    yields_after fun answer => ?_
  cases answer with
  | error e => exact yields_ret fun _ _ => ⟨nofun, nofun⟩
  | ok messages =>
    refine yields_after fun result => ?_
    cases result with
    | error e => exact yields_failingExn e
    | ok r => exact yields_finishCoder_closes r

end

/-! ### The loop of a multi-step agent -/

section

variable {cfg : KernelConfig} {out : Outside} {t : Tid n} {p : Pid} {pager : Option ContextPager}
  {w : World n}

/-- The agent is live, and the next steps all go on. -/
def Endless (cfg : KernelConfig) (out : Outside) (steps : ℕ) (b : AgentControlBlock) (m : ℕ) :
    Prop :=
  b.isTerminal = false ∧ Tools cfg out b.capability b.quotaRemaining b.react.step m steps

/-- **One step** of a multi-step agent goes on, or it is the last. -/
lemma reactStep_cases {Pages : List ContextPage → List ContextPage → Prop}
    {b b' : AgentControlBlock} {m m' : ℕ} {answer : Except Exn Bool}
    (hlive : b.isTerminal = false) (hmulti : b.capability.multiStep = true)
    (h : ReactStep cfg.host out.chat Pages b m answer b' m') :
    (answer = .ok true ∧ b'.capability = b.capability ∧
        ∀ steps, Endless cfg out (steps + 1) b m ↔ Endless cfg out steps b' m') ∨
      (answer = .ok false ∧ b'.isTerminal = true ∧
        ∀ steps, ¬Endless cfg out (steps + 1) b m) := by
  have hlast (hno : ¬GoesOn cfg out b.capability b.quotaRemaining b.react.step m) (steps : ℕ) :
      ¬Endless cfg out (steps + 1) b m := fun hall => hno (tools_succ.1 hall.2).1
  cases h with
  | dead hdead =>
    rw [hlive] at hdead
    cases hdead
  | refused _ hno hkept hpages hstate =>
    refine .inr ⟨rfl, ?_, hlast ?_⟩
    · rw [AgentControlBlock.isTerminal, hstate]
      rfl
    · rintro ⟨-, hquota, hstep, -⟩
      omega
  | raised hmay hchat hkept hpages hdead =>
    refine .inr ⟨rfl, hdead, hlast ?_⟩
    rintro ⟨-, -, -, hasks⟩
    rw [hchat] at hasks
    cases hasks
  | @acted b₁ _ r _ hmay hchat hkept hpages hstate hacted =>
    unfold Acted at hacted
    split at hacted
    · next arg hfinal =>
      obtain ⟨hanswer, hrec, hdone, -⟩ := hacted
      refine .inr ⟨hanswer, ?_, hlast ?_⟩
      · rw [AgentControlBlock.isTerminal, hdone]
        rfl
      · rintro ⟨-, -, -, hasks⟩
        rw [hchat, asksTool, hfinal] at hasks
        cases hasks
    · next name arg htool =>
      obtain ⟨hanswer, hrec, hsame⟩ := hacted
      have hcap : b'.capability = b.capability := hrec.capability.trans hkept.capability
      refine .inl ⟨hanswer, hcap, fun steps => ?_⟩
      have hgoes : GoesOn cfg out b.capability b.quotaRemaining b.react.step m := by
        refine ⟨hmulti, hmay.quota, hmay.step, ?_⟩
        rw [hchat, asksTool, htool]
      have hlive' : b'.isTerminal = false := by
        rw [AgentControlBlock.isTerminal, hsame, hstate]
        rfl
      rw [Endless, Endless, tools_succ, hcap, hrec.quota, hkept.quota, hrec.step, hkept.react]
      constructor
      · exact fun hall => ⟨hlive', hall.2.2⟩
      · exact fun hall => ⟨hlive, hgoes, hall.2⟩

/-- The loop with steps that are left. -/
lemma runs_runAgentLoop_succ (cfg : KernelConfig) (out : Outside) (t : Tid n) (p : Pid)
    (pager : Option ContextPager) (steps : ℕ) (w : World n) :
    runs cfg out t (runAgentLoop cfg pager p (steps + 1)) w =
      if (w.pcbs p).isTerminal then (.ok (), w)
      else match runs cfg out t (runStepWith cfg pager p) w with
        | (.error e, w') => (.error e, w')
        | (.ok keepGoing, w') =>
          if keepGoing then runs cfg out t (runAgentLoop cfg pager p steps) w' else (.ok (), w') := by
  have hread : ∀ look, World.exec cfg out t (.readPcb p look) w = (w.pcbs p, w) := fun _ => rfl
  simp only [runAgentLoop, Prog.perform_bind, runs_op, hread]
  split
  · rfl
  · rw [runs_bind]
    rcases runs cfg out t (runStepWith cfg pager p) w with ⟨_ | _ | _, w'⟩ <;> rfl

/-- The loop of a multi-step agent ends with a terminal agent, unless all of its steps go
on. -/
lemma runAgentLoop_multi (hquiet : Quiet pager) (steps : ℕ)
    (hmulti : (w.pcbs p).capability.multiStep = true) :
    ((runs cfg out t (runAgentLoop cfg pager p steps) w).2.pcbs p).isTerminal = true ↔
      ¬Endless cfg out steps (w.pcbs p) w.chats := by
  -- by induction on the steps that are left, one step at a time
  induction steps generalizing w with
  | zero =>
    have hend : (runs cfg out t (runAgentLoop cfg pager p 0) w).2 = w := rfl
    rw [hend, Endless, and_iff_left tools_zero]
    simp
  | succ steps ih =>
    rw [runs_runAgentLoop_succ]
    by_cases hdead : (w.pcbs p).isTerminal = true
    · rw [if_pos hdead]
      refine iff_of_true hdead fun hall => ?_
      rw [hall.1] at hdead
      cases hdead
    · rw [if_neg hdead]
      have hlive : (w.pcbs p).isTerminal = false := Bool.eq_false_iff.2 hdead
      have hrun : runs cfg out t (runStepWith cfg pager p) w =
          stepOnce cfg out t p cfg.host pager w := by
        show runs cfg out t (if (w.pcbs p).capability.multiStep = true then _ else _) w = _
        rw [if_pos hmulti]
        rfl
      have hstep := reactStep_stepOnce cfg.host (hquiet.assembles cfg out t p) w
      rw [hrun]
      generalize stepOnce cfg out t p cfg.host pager w = step at hstep
      obtain ⟨answer, w'⟩ := step
      rcases reactStep_cases hlive hmulti hstep with ⟨rfl, hcap, hall⟩ | ⟨rfl, hdone, hno⟩
      · rw [hall]
        refine ih ?_
        rw [hcap]
        exact hmulti
      · exact iff_of_true hdone (hno steps)

/-- The loop of any other agent ends with its first step. -/
lemma runAgentLoop_single (steps : ℕ) (hmulti : (w.pcbs p).capability.multiStep = false)
    (hreturns : (runs cfg out t (runAgentLoop cfg pager p (steps + 1)) w).1 = .ok ()) :
    ((runs cfg out t (runAgentLoop cfg pager p (steps + 1)) w).2.pcbs p).isTerminal = true := by
  rw [runs_runAgentLoop_succ] at hreturns ⊢
  by_cases hdead : (w.pcbs p).isTerminal = true
  · rwa [if_pos hdead]
  · rw [if_neg hdead] at hreturns ⊢
    have hcloses : Closes p (runs cfg out t (runStepWith cfg pager p) w).1
        (runs cfg out t (runStepWith cfg pager p) w).2 := by
      show Closes p (runs cfg out t (if (w.pcbs p).capability.multiStep = true then _ else _) w).1
        (runs cfg out t (if (w.pcbs p).capability.multiStep = true then _ else _) w).2
      rw [if_neg (by rw [hmulti]; exact Bool.false_ne_true)]
      split
      · exact Prog.Ensures.alone yields_runCoderStep_closes trivial
      · exact Prog.Ensures.alone yields_runPlainStep_closes trivial
    generalize runs cfg out t (runStepWith cfg pager p) w = step at hreturns hcloses
    obtain ⟨answer, w'⟩ := step
    obtain ⟨hlast, hdone⟩ := hcloses
    rcases answer with _ | _ | _
    · cases hreturns
    · exact hdone rfl
    · exact absurd rfl hlast

end

/-- **When `run_agent` runs an agent to its end.**  For every agent, without a pager or with
that of the kernel, and every client: whenever `run_agent` returns, the agent is terminal
exactly unless it is a live multi-step agent with thirty-two units, thirty-two steps below
its cap, and a client whose first thirty-two replies all ask for a tool. -/
theorem runAgent_terminal_iff (cfg : KernelConfig) (out : Outside) (t : Tid n) (p : Pid)
    {pager : Option ContextPager} (hquiet : Quiet pager) (w : World n)
    (hreturns : (runs cfg out t (runAgent cfg pager p) w).1 = .ok ()) :
    let b := w.pcbs p
    ((runs cfg out t (runAgent cfg pager p) w).2.pcbs p).isTerminal = true ↔
      ¬(b.isTerminal = false ∧ b.capability.multiStep = true ∧ 32 ≤ b.quotaRemaining ∧
        (b.react.step : ℤ) + 32 ≤ b.capability.maxToolCalls ∧
          ∀ i < 32, asksTool cfg.host (out.chat (w.chats + i)) = true) := by
  intro b
  by_cases hmulti : b.capability.multiStep = true
  · have htools : Tools cfg out b.capability b.quotaRemaining b.react.step w.chats 32 ↔ _ :=
      tools_iff (by decide)
    rw [runAgent, runAgentLoop_multi hquiet 32 hmulti, Endless, htools]
    exact Iff.rfl
  · refine iff_of_true (runAgentLoop_single 31 (Bool.eq_false_iff.2 hmulti) hreturns) ?_
    rintro ⟨-, htrue, -⟩
    exact hmulti htrue

/-- A step cap of eight ends the agent. -/
theorem runAgent_terminal_iff_eight :
    ((runs { pager := {}, host := .inert } (scripted 40) (.client 0)
      (runAgent { pager := {}, host := .inert } none 1) (newAgent 8 64)).2.pcbs 1).isTerminal =
        true := by
  refine (runAgent_terminal_iff { pager := {}, host := .inert } (scripted 40) (.client 0) 1 (.inl rfl)
    (newAgent 8 64) (by decide +kernel)).2 ?_
  rintro ⟨-, -, -, hcap, -⟩
  revert hcap
  decide

/-- An agent that may make forty steps and is asked for a tool each time: `run_agent` returns
it after thirty-two, still running. -/
theorem runAgent_returns_running :
    let run := runs { pager := {}, host := .inert } (scripted 40) (.client 0)
      (runAgent { pager := {}, host := .inert } none 1) (newAgent 40 64)
    run.1 = .ok () ∧ (run.2.pcbs 1).state = .running ∧ (run.2.pcbs 1).llmCallsUsed = 32 := by
  decide +kernel

end Gcos.Exec
