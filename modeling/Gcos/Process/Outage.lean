import Gcos.Lib.Footprint
import Gcos.Process.Dispatch

/-!
# When the operating system refuses a child

`os.pipe` and `os.fork` raise an `OSError` when there are no descriptors, no processes or no
memory left.  In `_run_in_process` they are called with the units of the agent already
reserved and its budget already overwritten, and nothing on the way out to `_loop` handles
an exception: the `finally` blocks of `_dispatch` and `_loop` restore their counters, and the
worker thread ends.
-/

namespace Gcos.Process.Outage

open Lib Exec Pool

/-- The calls of the operating system that may fail, answered by the exception that they
raise. -/
inductive OsOp : Type → Type
  | pipe : OsOp (Option Exn)
  | fork : OsOp (Option Exn)

/-- What the calls raise. -/
structure Os where
  pipe : Option Exn := none
  fork : Option Exn := none

/-- The operations of the process backend, with the calls that may fail. -/
abbrev OOp (β : Type) : Type := POp β ⊕ OsOp β

/-- A program that makes no such call. -/
def base {α : Type} (prog : Prog POp α) : Prog OOp α := prog.lift Sum.inl

/-- A call of the operating system. -/
def oscall {β : Type} (o : OsOp β) : Prog OOp β := .perform (.inr o)

/-! ### The worker -/

/-- `try: prog` with `finally: cleanup`, and what follows if nothing was raised. -/
def tryFinally {β : Type} (prog : Prog OOp (Except Exn Unit)) (cleanup : Prog POp Unit)
    (rest : Prog POp β) : Prog OOp (Except Exn β) := do
  let answer ← prog
  base cleanup
  match answer with
  | .error e => return .error e
  | .ok () => do
    let b ← base rest
    return .ok b

/-- The part of `_run_in_process` after units were granted. -/
def superviseChild (p : Pid) (origQuota reserve : ℤ) : Prog OOp (Except Exn Unit) := do
  base (proc (.assign p (.quotaRemaining reserve)))
  let before ← base (kernel (.readPcb p .fields))
  match ← oscall .pipe with
  | some e => return .error e
  | none =>
    match ← oscall .fork with
    | some e => return .error e
    | none => do
      let raw ← base (proc (.runChild p))
      let completed ← base (applyResult p raw)
      base (reconcile p origQuota reserve before.llmCallsUsed completed)
      return .ok ()

/-- The code of a worker, with the calls that may fail. -/
def refusable : Setting OOp (Except Exn) where
  part := base
  last := fun prog => do
    let a ← base prog
    return .ok a
  tryFinally := tryFinally

/-- `ProcessWorkerPool._run_in_process`. -/
def runInProcess (p : Pid) : Prog OOp (Except Exn Unit) :=
  refusable.runInProcess p (superviseChild p)

/-- The part of `_dispatch` after the input has been resolved. -/
def launch (cfg : KernelConfig) (p : Pid) : Prog OOp (Except Exn Unit) :=
  refusable.launch cfg p (runInProcess p)

/-- `ProcessWorkerPool._dispatch`. -/
def dispatch (cfg : KernelConfig) (p : Pid) : Prog OOp (Except Exn Unit) :=
  refusable.dispatch cfg p (launch cfg p)

/-- One turn of `ProcessWorkerPool._loop`: an exception ends the thread. -/
def loop (cfg : KernelConfig) : Prog OOp (Except Exn Bool) := refusable.loop (dispatch cfg)

@[simp] lemma refusable_part {α : Type} (prog : Prog POp α) : refusable.part prog = base prog := rfl

@[simp] lemma refusable_tryFinally {α : Type} (prog : Prog OOp (Except Exn Unit))
    (cleanup : Prog POp Unit) (rest : Prog POp α) :
    refusable.tryFinally prog cleanup rest = tryFinally prog cleanup rest := rfl

variable {n : ℕ}

/-- What thread `t` is answered, and what becomes of the world. -/
def exec (cfg : KernelConfig) (out : Outside) (child : Child) (os : Os) :
    Prog.Handler OOp (Tid n) (World n)
  | _, t, .inl o, w => Process.exec cfg out child t o w
  | _, _, .inr .pipe, w => (os.pipe, w)
  | _, _, .inr .fork, w => (os.fork, w)

/-- The failure of a call of the operating system. -/
def failure (os : Os) : {β : Type} → OOp β → Option Exn
  | _, .inl _ => none
  | _, .inr .pipe => os.pipe
  | _, .inr .fork => os.fork

section

variable {cfg : KernelConfig} {out : Outside} {child : Child} {os : Os} {t : Tid n} {α β : Type}

variable (cfg out child os t) in
/-- A run of a program that nobody interrupts. -/
def runs (prog : Prog OOp α) (w : World n) : α × World n := prog.alone (exec cfg out child os) t w

variable (cfg out child os t) in
/-- The failures that the program meets. -/
def failures (prog : Prog OOp α) (w : World n) : List Exn :=
  prog.seen (exec cfg out child os) t (failure os) w

lemma runs_base (prog : Prog POp α) (w : World n) :
    runs cfg out child os t (base prog) w = prog.alone (Process.exec cfg out child) t w := by
  have hinl : ∀ {β : Type} (o : POp β) (w : World n),
      exec cfg out child os t (.inl o) w = Process.exec cfg out child t o w := fun _ _ => rfl
  exact Prog.alone_lift hinl prog w

lemma runs_base_bind (prog : Prog POp α) (k : α → Prog OOp β) (w : World n) :
    runs cfg out child os t (base prog >>= k) w =
      runs cfg out child os t (k (prog.alone (Process.exec cfg out child) t w).1)
        (prog.alone (Process.exec cfg out child) t w).2 := by
  rw [runs, Prog.alone_bind]
  exact congrArg (fun r : α × World n => runs cfg out child os t (k r.1) r.2) (runs_base prog w)

lemma failures_base (prog : Prog POp α) (w : World n) :
    failures cfg out child os t (base prog) w = [] := by
  induction prog generalizing w with
  | ret a => rfl
  | op o k ih => exact ih _ _

lemma failures_base_bind (prog : Prog POp α) (k : α → Prog OOp β) (w : World n) :
    failures cfg out child os t (base prog >>= k) w =
      failures cfg out child os t (k (prog.alone (Process.exec cfg out child) t w).1)
        (prog.alone (Process.exec cfg out child) t w).2 := by
  rw [failures, Prog.seen_bind]
  have hnone : (base prog).seen (exec cfg out child os) t (failure os) w = [] :=
    failures_base prog w
  have hrun : (base prog).alone (exec cfg out child os) t w = _ := runs_base prog w
  rw [hnone, hrun, List.nil_append]
  rfl

/-- The cleanup runs in both cases, and what was raised is raised again. -/
lemma runs_tryFinally_error {prog : Prog OOp (Except Exn Unit)} {cleanup : Prog POp Unit}
    {rest : Prog POp β} {w : World n} {e : Exn} (h : (runs cfg out child os t prog w).1 = .error e) :
    runs cfg out child os t (tryFinally prog cleanup rest) w =
      (.error e,
        (cleanup.alone (Process.exec cfg out child) t (runs cfg out child os t prog w).2).2) := by
  rw [tryFinally, runs, Prog.alone_bind]
  change (Prog.alone (exec cfg out child os) t prog w).1 = _ at h
  rw [h]
  exact runs_base_bind cleanup _ _

lemma runs_tryFinally_ok {prog : Prog OOp (Except Exn Unit)} {cleanup : Prog POp Unit}
    {rest : Prog POp β} {w : World n} (h : (runs cfg out child os t prog w).1 = .ok ()) :
    runs cfg out child os t (tryFinally prog cleanup rest) w =
      let r := (cleanup >>= fun _ => rest).alone (Process.exec cfg out child) t
        (runs cfg out child os t prog w).2
      (.ok r.1, r.2) := by
  have hrest (w : World n) : runs cfg out child os t
      (base cleanup >>= fun _ => base rest >>= fun b => .ret (.ok b : Except Exn β)) w =
        let r := (cleanup >>= fun _ => rest).alone (Process.exec cfg out child) t w
        (.ok r.1, r.2) := by
    rw [runs_base_bind, runs_base_bind, Prog.alone_bind]
    rfl
  rw [tryFinally, runs, Prog.alone_bind]
  change (Prog.alone (exec cfg out child os) t prog w).1 = _ at h
  rw [h]
  exact hrest _

lemma failures_tryFinally (prog : Prog OOp (Except Exn Unit)) (cleanup : Prog POp Unit)
    (rest : Prog POp β) (w : World n) :
    failures cfg out child os t (tryFinally prog cleanup rest) w =
      failures cfg out child os t prog w := by
  have hrest : ∀ (answer : Except Exn Unit) (w : World n), failures cfg out child os t
      (base cleanup >>= fun _ => match answer with
        | .error e => .ret (.error e : Except Exn β)
        | .ok () => base rest >>= fun b => .ret (.ok b)) w = [] := by
    intro answer w
    rw [failures_base_bind]
    cases answer with
    | error e => rfl
    | ok u => exact failures_base_bind rest _ _
  rw [failures, tryFinally, Prog.seen_bind]
  exact (congrArg _ (hrest _ _)).trans (List.append_nil _)

end

/-! ### What a failure leaves -/

/-- Nothing has changed that the dispatch of `p` is to restore. -/
structure Untouched (p : Pid) (w w' : World n) : Prop where
  quota : w'.quota = w.quota
  queue : w'.queue = w.queue
  busy : w'.busy = w.busy
  units : (w'.pcbs p).quotaRemaining = (w.pcbs p).quotaRemaining
  terminal : (w'.pcbs p).isTerminal = (w.pcbs p).isTerminal

/-- The units of `p` are reserved, its budget is overwritten, and it is in no queue that it
was not in before. -/
structure Stranded (p : Pid) (w w' : World n) : Prop where
  quota : w'.quota = (w.quota.acquireUpTo (w.pcbs p).quotaRemaining).2
  queue : w'.queue = w.queue
  busy : w'.busy = w.busy
  units : (w'.pcbs p).quotaRemaining = (w.quota.acquireUpTo (w.pcbs p).quotaRemaining).1
  terminal : (w'.pcbs p).isTerminal = (w.pcbs p).isTerminal

lemma Untouched.trans {p : Pid} {w w₁ w₂ : World n} (h : Untouched p w w₁)
    (h' : Untouched p w₁ w₂) : Untouched p w w₂ :=
  ⟨h'.quota.trans h.quota, h'.queue.trans h.queue, h'.busy.trans h.busy, h'.units.trans h.units,
    h'.terminal.trans h.terminal⟩

lemma Untouched.stranded {p : Pid} {w w₁ w₂ : World n} (h : Untouched p w w₁)
    (h' : Stranded p w₁ w₂) : Stranded p w w₂ := by
  obtain ⟨hquota, hqueue, hbusy, hunits, hterminal⟩ := h'
  rw [h.quota, h.units] at hquota hunits
  exact ⟨hquota, hqueue.trans h.queue, hbusy.trans h.busy, hunits, hterminal.trans h.terminal⟩

section

variable {cfg : KernelConfig} {out : Outside} {child : Child} {os : Os} {t : Tid n} {p : Pid}
  {w : World n} {α : Type}

/-- The rule for a write that leaves the budget alone and does not end the agent. -/
lemma untouched_of_write {w' : World n} {b : AgentControlBlock} (hquota : w'.quota = w.quota)
    (hqueue : w'.queue = w.queue) (hbusy : w'.busy = w.busy)
    (hpcbs : w'.pcbs = Function.update w.pcbs p b)
    (hunits : b.quotaRemaining = (w.pcbs p).quotaRemaining)
    (hterminal : b.isTerminal = (w.pcbs p).isTerminal) : Untouched p w w' := by
  have hblock : w'.pcbs p = b := by rw [hpcbs, Function.update_self]
  refine ⟨hquota, hqueue, hbusy, ?_, ?_⟩
  · rw [hblock, hunits]
  · rw [hblock, hterminal]

/-- The rule for the write that overwrites the budget. -/
lemma stranded_of_write {w' : World n} {b : AgentControlBlock}
    (hquota : w'.quota = (w.quota.acquireUpTo (w.pcbs p).quotaRemaining).2)
    (hqueue : w'.queue = w.queue) (hbusy : w'.busy = w.busy)
    (hpcbs : w'.pcbs = Function.update w.pcbs p b)
    (hunits : b.quotaRemaining = (w.quota.acquireUpTo (w.pcbs p).quotaRemaining).1)
    (hterminal : b.isTerminal = (w.pcbs p).isTerminal) : Stranded p w w' := by
  have hblock : w'.pcbs p = b := by rw [hpcbs, Function.update_self]
  refine ⟨hquota, hqueue, hbusy, ?_, ?_⟩
  · rw [hblock, hunits]
  · rw [hblock, hterminal]

variable (cfg out child os t p) in
/-- The program meets no failure, or it meets one, raises it and leaves `p` stranded. -/
def Outcome (prog : Prog OOp (Except Exn Unit)) (w : World n) : Prop :=
  let run := runs cfg out child os t prog w
  failures cfg out child os t prog w = [] ∧ run.1 = .ok () ∨
    ∃ e, failures cfg out child os t prog w = [e] ∧ run.1 = .error e ∧ Stranded p w run.2

/-- The rule for what comes before. -/
lemma outcome_base {prog : Prog POp α} {k : α → Prog OOp (Except Exn Unit)}
    (huntouched : Untouched p w (prog.alone (Process.exec cfg out child) t w).2)
    (hk : Outcome cfg out child os t p (k (prog.alone (Process.exec cfg out child) t w).1)
      (prog.alone (Process.exec cfg out child) t w).2) :
    Outcome cfg out child os t p (base prog >>= k) w := by
  simp only [Outcome, failures_base_bind, runs_base_bind]
  exact hk.imp_right fun ⟨e, hfail, hraise, hleft⟩ => ⟨e, hfail, hraise, huntouched.stranded hleft⟩

/-- A program that makes no call returns. -/
lemma calm_base (prog : Prog POp α) :
    failures cfg out child os t (base prog >>= fun _ => .ret (.ok () : Except Exn Unit)) w = [] ∧
      (runs cfg out child os t (base prog >>= fun _ => .ret (.ok () : Except Exn Unit)) w).1 =
        .ok () := by
  rw [failures_base_bind, runs_base_bind]
  exact ⟨rfl, rfl⟩

lemma calm_last (prog : Prog POp Unit) : failures cfg out child os t (refusable.last prog) w = [] ∧
    (runs cfg out child os t (refusable.last prog) w).1 = .ok () := calm_base prog

/-- What follows the fork in the parent. -/
lemma calm_reported (p : Pid) (origQuota reserve calls : ℤ) (w : World n) :
    let rest : Prog OOp (Except Exn Unit) := do
      let raw ← base (proc (.runChild p))
      let completed ← base (applyResult p raw)
      base (reconcile p origQuota reserve calls completed)
      return .ok ()
    failures cfg out child os t rest w = [] ∧ (runs cfg out child os t rest w).1 = .ok () := by
  intro rest
  rw [failures_base_bind, failures_base_bind, runs_base_bind, runs_base_bind]
  exact calm_base _

variable (cfg out child os t p) in
/-- With the units granted, the first failure is raised with the budget overwritten. -/
lemma superviseChild_cases (origQuota reserve : ℤ) (w : World n) :
    let prog := superviseChild p origQuota reserve
    failures cfg out child os t prog w = [] ∧ (runs cfg out child os t prog w).1 = .ok () ∨
      ∃ e, failures cfg out child os t prog w = [e] ∧ runs cfg out child os t prog w =
        (.error e, { w with
          pcbs := Function.update w.pcbs p { w.pcbs p with quotaRemaining := reserve } }) := by
  intro prog
  obtain ⟨pipe, fork⟩ := os
  cases pipe with
  | some e => exact .inr ⟨e, rfl, rfl⟩
  | none =>
    cases fork with
    | some e => exact .inr ⟨e, rfl, rfl⟩
    | none => exact .inl (calm_reported p origQuota reserve _ _)

lemma outcome_runInProcess : Outcome cfg out child os t p (runInProcess p) w := by
  simp only [runInProcess, Setting.runInProcess, refusable_part]
  refine outcome_base ⟨rfl, rfl, rfl, rfl, rfl⟩ ?_
  unfold Outcome
  rw [failures_base_bind, runs_base_bind]
  split
  · exact .inl (calm_last _)
  · obtain ⟨w₁, hw⟩ : ∃ w₁, w₁ =
        { w with quota := (w.quota.acquireUpTo (w.pcbs p).quotaRemaining).2 } := ⟨_, rfl⟩
    have hcases := superviseChild_cases cfg out child os t p (w.pcbs p).quotaRemaining
      (w.quota.acquireUpTo (w.pcbs p).quotaRemaining).1 w₁
    subst hw
    rcases hcases with hcalm | ⟨e, hfail, hrun⟩
    · exact .inl hcalm
    · refine .inr ⟨e, hfail, congrArg Prod.fst hrun, ?_⟩
      have hleft := congrArg Prod.snd hrun
      exact (congrArg (Stranded p w) hleft).mpr (stranded_of_write rfl rfl rfl rfl rfl rfl)

/-- The counter of the busy workers is restored in both cases. -/
lemma outcome_busy : Outcome cfg out child os t p (base (kernel (.enterBusy p)) >>= fun _ =>
    tryFinally (runInProcess p) (kernel .leaveBusy) (plain (forwardResult cfg p))) w := by
  unfold Outcome
  rw [failures_base_bind, failures_tryFinally, runs_base_bind]
  obtain ⟨w₁, hw⟩ : ∃ w₁, (kernel (.enterBusy p)).alone (Process.exec cfg out child) t w = ((), w₁) :=
    ⟨_, rfl⟩
  have hpcbs : w₁.pcbs = w.pcbs ∧ w₁.quota = w.quota ∧ w₁.queue = w.queue ∧
      w₁.busy = w.busy + 1 := by
    cases hw
    exact ⟨rfl, rfl, rfl, rfl⟩
  obtain ⟨hpcbs, hquota, hqueue, hbusy⟩ := hpcbs
  rw [hw]
  have hrun : Outcome cfg out child os t p (runInProcess p) w₁ := outcome_runInProcess
  rcases hrun with ⟨hnone, hok⟩ | ⟨e, hfail, hraise, hleft⟩
  · refine .inl ⟨hnone, ?_⟩
    rw [runs_tryFinally_ok hok]
  · refine .inr ⟨e, hfail, ?_, ?_⟩
    · rw [runs_tryFinally_error hraise]
    · rw [runs_tryFinally_error hraise]
      obtain ⟨hquota', hqueue', hbusy', hunits, hterminal⟩ := hleft
      rw [hquota, hpcbs] at hquota' hunits
      rw [hpcbs] at hterminal
      refine ⟨hquota', hqueue'.trans hqueue, ?_, hunits, hterminal⟩
      show (runs cfg out child os t (runInProcess p) w₁).2.busy - 1 = w.busy
      rw [hbusy', hbusy, add_sub_cancel_right]

lemma outcome_launch : Outcome cfg out child os t p (launch cfg p) w := by
  simp only [launch, Setting.launch, refusable_part, refusable_tryFinally]
  refine outcome_base ⟨rfl, rfl, rfl, rfl, rfl⟩ ?_
  unfold Prog.when
  split
  · refine outcome_base (untouched_of_write rfl rfl rfl rfl ?_ ?_) outcome_busy
    · rw [Write.apply, AgentControlBlock.transition_frame]
    · rw [Write.apply, AgentControlBlock.isTerminal_transition]
      exact Bool.or_false _
  · exact outcome_busy

lemma outcome_dispatch : Outcome cfg out child os t p (dispatch cfg p) w := by
  simp only [dispatch, Setting.dispatch, refusable_part]
  refine outcome_base ⟨rfl, rfl, rfl, rfl, rfl⟩ ?_
  split
  · exact .inl (calm_last _)
  split
  · split
    · exact .inl (calm_last _)
    · refine outcome_base ⟨rfl, rfl, rfl, rfl, rfl⟩ ?_
      split
      · exact .inl (calm_last _)
      · refine outcome_base ?_ (outcome_base ?_ outcome_launch)
        · exact untouched_of_write rfl rfl rfl rfl rfl rfl
        · exact untouched_of_write rfl rfl rfl rfl rfl rfl
  · exact outcome_launch

/-! ### Without failures -/

/-- What follows the grant, in the process backend. -/
lemma runs_superviseChild_calm (origQuota reserve : ℤ) (w : World n) :
    runs cfg out child {} t (superviseChild p origQuota reserve) w =
      (.ok (), (Prog.alone (Process.exec cfg out child) t (do
        proc (.assign p (.quotaRemaining reserve))
        let before ← kernel (.readPcb p .fields)
        let raw ← proc (.runChild p)
        let completed ← applyResult p raw
        reconcile p origQuota reserve before.llmCallsUsed completed) w).2) := by
  rw [superviseChild, runs_base_bind, runs_base_bind, Prog.alone_bind, Prog.alone_bind]
  show runs cfg out child {} t (base _ >>= fun raw => base (applyResult p raw) >>= _) _ = _
  rw [runs_base_bind, runs_base_bind, runs_base_bind, Prog.alone_bind, Prog.alone_bind]
  rfl

lemma runs_last (prog : Prog POp Unit) : runs cfg out child os t (refusable.last prog) w =
    (.ok (), (prog.alone (Process.exec cfg out child) t w).2) := runs_base_bind prog _ w

lemma runs_runInProcess_calm : runs cfg out child {} t (runInProcess p) w =
    (.ok (), ((Process.runInProcess p).alone (Process.exec cfg out child) t w).2) := by
  simp only [runInProcess, Process.runInProcess, Setting.runInProcess, refusable_part, plainly]
  rw [runs_base_bind, runs_base_bind, Prog.alone_bind, Prog.alone_bind]
  split
  · exact runs_last _
  · exact runs_superviseChild_calm _ _ _

lemma runs_launch_calm : runs cfg out child {} t (launch cfg p) w =
    (.ok (), ((Process.launch cfg p).alone (Process.exec cfg out child) t w).2) := by
  have hwhen (c : Prop) [Decidable c] (o : KOp Unit) (k : Unit → Prog OOp (Except Exn Unit)) :
      (Prog.when c (base (kernel o)) >>= k) = base (Prog.when c (kernel o)) >>= k := by
    unfold Prog.when
    split <;> rfl
  simp only [launch, Process.launch, Setting.launch, refusable_part, refusable_tryFinally, plainly,
    hwhen]
  rw [runs_base_bind, runs_base_bind, runs_base_bind, runs_tryFinally_ok, runs_runInProcess_calm]
  · simp only [Prog.alone_bind]
  · rw [runs_runInProcess_calm]

/-- **Where nothing fails the dispatch is that of the process backend.** -/
theorem runs_dispatch_calm : runs cfg out child {} t (dispatch cfg p) w =
    (.ok (), ((Process.dispatch cfg p).alone (Process.exec cfg out child) t w).2) := by
  simp only [dispatch, Process.dispatch, Setting.dispatch, refusable_part, plainly]
  rw [runs_base_bind, Prog.alone_bind]
  split
  · rfl
  split
  · split
    · exact runs_last _
    · rw [runs_base_bind, Prog.alone_bind]
      cases hrecv : (Prog.alone (Process.exec cfg out child) t (plain (recv p))
          (Prog.alone (Process.exec cfg out child) t (kernel (.readPcb p .terminal)) w).2).1 with
      | none => exact runs_last _
      | some m =>
        rw [runs_base_bind, runs_base_bind, Prog.alone_bind, Prog.alone_bind]
        exact runs_launch_calm
  · exact runs_launch_calm

/-! ### The loop of the worker -/

/-- A dispatch of an agent that is done meets no failure. -/
lemma failures_dispatch_of_isTerminal (hdead : (w.pcbs p).isTerminal = true) :
    failures cfg out child os t (dispatch cfg p) w = [] := by
  simp only [dispatch, Setting.dispatch, refusable_part]
  rw [failures_base_bind]
  show failures cfg out child os t (if (w.pcbs p).isTerminal then _ else _) w = []
  rw [if_pos hdead]
  rfl

variable (cfg out t) in
/-- Waiting for the queue. -/
lemma wait_frame (w : World n) :
    let w' := (World.exec cfg out t .waitNonempty w).2
    w'.pcbs = w.pcbs ∧ w'.quota = w.quota ∧ w'.queue = w.queue ∧ w'.busy = w.busy ∧
      w'.ticks = w.ticks := by
  simp only [World.exec]
  split <;> exact ⟨rfl, rfl, rfl, rfl, rfl⟩

variable (cfg out child os t w) in
/-- A turn that meets a failure has picked an agent. -/
lemma loop_cases : failures cfg out child os t (loop cfg) w = [] ∨
    ∃ p queue, cfg.scheduler.pickNext w.pcbs (out.clock w.ticks) w.queue = (some p, queue) ∧
      ∃ w₁, w₁.pcbs = w.pcbs ∧ w₁.quota = w.quota ∧ w₁.queue = queue ∧ w₁.busy = w.busy ∧
        failures cfg out child os t (loop cfg) w =
          failures cfg out child os t (dispatch cfg p) w₁ ∧
        runs cfg out child os t (loop cfg) w = runs cfg out child os t
          (tryFinally (dispatch cfg p) (kernel .taskDone) (return true)) w₁ := by
  simp only [loop, Setting.loop, refusable_part, refusable_tryFinally]
  rw [failures_base_bind, runs_base_bind]
  split
  · exact .inl rfl
  rw [failures_base_bind, runs_base_bind]
  split
  · obtain ⟨hpcbs, hquota, hqueue, hbusy, hticks⟩ := wait_frame cfg out t w
    obtain ⟨w₁, hw⟩ : ∃ w₁, (World.exec cfg out t .waitNonempty w).2 = w₁ := ⟨_, rfl⟩
    have hwait : (Prog.alone (Process.exec cfg out child) t (kernel .waitNonempty)
      (Prog.alone (Process.exec cfg out child) t (kernel (.stopIsSet .loopHead)) w).2).2 = w₁ := hw
    rw [hwait]
    rw [hw] at hpcbs hquota hqueue hbusy hticks
    have hpick : (kernel .pickNext).alone (Process.exec cfg out child) t w₁ =
        World.exec cfg out t .pickNext w₁ := rfl
    have hsame : cfg.scheduler.pickNext w₁.pcbs (out.clock w₁.ticks) w₁.queue =
        cfg.scheduler.pickNext w.pcbs (out.clock w.ticks) w.queue := by
      rw [hpcbs, hqueue, hticks]
    rw [failures_base_bind, runs_base_bind, hpick, World.exec, hsame]
    rcases cfg.scheduler.pickNext w.pcbs (out.clock w.ticks) w.queue with ⟨_ | p, queue⟩
    · exact .inl rfl
    · refine .inr ⟨p, queue, rfl, { w₁ with queue := queue, ticks := w₁.ticks + 1 }.note t fun l =>
        { l with held := some p, flying := true }, hpcbs, hquota, rfl, hbusy, ?_, rfl⟩
      exact failures_tryFinally ..
  · exact .inl rfl

end

/-- **A dispatch that the operating system refuses is never atomic.**  For every world and
every worker: if `os.pipe` or `fork` fails in a turn of the worker's loop, the exception ends
the thread; the units that were reserved for the agent are gone from the quota, and they are
all that is left of its own budget; the agent is neither terminal nor back in the queue it
was picked from. -/
theorem outage_never_atomic (cfg : KernelConfig) (out : Outside) (child : Child) (os : Os)
    (t : Tid n) (w : World n) (hfails : failures cfg out child os t (loop cfg) w ≠ []) :
    ∃ p queue e, cfg.scheduler.pickNext w.pcbs (out.clock w.ticks) w.queue = (some p, queue) ∧
      let answer := (runs cfg out child os t (loop cfg) w).1
      let w' := (runs cfg out child os t (loop cfg) w).2
      let granted := max 0 (min (w.pcbs p).quotaRemaining w.quota.remaining)
      (answer = .error e ∧ w'.quota.remaining = w.quota.remaining - granted ∧
          (w'.pcbs p).quotaRemaining = granted ∧ (w'.pcbs p).isTerminal = false ∧
          w'.queue = queue.taskDone ∧ w'.busy = w.busy) ∧
        ¬(w'.quota.remaining = w.quota.remaining ∧
          (w'.pcbs p).quotaRemaining = (w.pcbs p).quotaRemaining ∧
          ((w'.pcbs p).isTerminal = true ∨ p ∈ w'.queue.q) ∧ answer = .ok true) := by
  rcases loop_cases cfg out child os t w with
    hnone | ⟨p, queue, hpick, w₁, hpcbs, hquota, hqueue, hbusy, hfailures, hruns⟩
  · exact absurd hnone hfails
  rw [hfailures] at hfails
  have houtcome : Outcome cfg out child os t p (dispatch cfg p) w₁ := outcome_dispatch
  rcases houtcome with ⟨hnone, -⟩ | ⟨e, hfail, hraise, hleft⟩
  · exact absurd hnone hfails
  have hlive : (w₁.pcbs p).isTerminal = false := by
    by_contra hdead
    exact hfails (failures_dispatch_of_isTerminal (Bool.eq_true_of_not_eq_false hdead))
  obtain ⟨hquota', hqueue', hbusy', hunits, hterminal⟩ := hleft
  rw [hquota, hpcbs] at hquota' hunits
  rw [hlive] at hterminal
  refine ⟨p, queue, e, hpick, ?_⟩
  rw [hruns, runs_tryFinally_error hraise]
  refine ⟨⟨rfl, ?_, hunits, hterminal, ?_, hbusy'.trans hbusy⟩, ?_⟩
  · exact congrArg Quota.remaining hquota'
  · rw [← hqueue, ← hqueue']
    rfl
  · rintro ⟨-, -, -, hserves⟩
    cases hserves

/-- A worker, and an agent with 64 units in the queue of a kernel that has ten. -/
def crowded : World 1 where
  pcbs := fun p => { pid := p, prompt := "task", createdAt := 0, state := .ready, quotaRemaining := 64 }
  queue := { q := [1] }
  quota := ⟨10, 10⟩

/-- `fork` fails: the worker thread is dead, the ten units are gone, and they are all that is
left of the budget of an agent that is live and in no queue. -/
theorem outage_never_atomic_fork :
    let cfg : KernelConfig := { pager := {}, host := .inert }
    let os : Os := { fork := some (.other "BlockingIOError" "[Errno 11] try again") }
    let outside := Outside.calm ⟨"", 0, 0, 0⟩
    let run := runs cfg outside { outside := outside } os (.worker 0) (loop cfg) crowded
    (∃ e, run.1 = .error e) ∧ run.2.quota.remaining = 0 ∧ (run.2.pcbs 1).quotaRemaining = 10 ∧
      (run.2.pcbs 1).isTerminal = false ∧ run.2.queue = { q := [], inFlight := 0 } ∧
      run.2.busy = crowded.busy := by
  intro cfg os outside run
  have hpicked : cfg.scheduler.pickNext crowded.pcbs (outside.clock crowded.ticks) crowded.queue =
      (some 1, { q := [], inFlight := 1 }) := by decide +kernel
  obtain ⟨p, queue, e, hpick, ⟨hraise, hquota, hunits, hlive, hqueue, hbusy⟩, -⟩ :=
    outage_never_atomic cfg outside { outside := outside } os (.worker 0) crowded (by decide +kernel)
  obtain ⟨hp, rfl⟩ := Prod.mk.inj (hpicked.symm.trans hpick)
  obtain rfl := Option.some.inj hp
  exact ⟨⟨e, hraise⟩, hquota, hunits, hlive, hqueue, hbusy⟩

/-- `os.pipe` fails: the worker thread is dead, nothing is left of the quota, and the agent
runs, with a budget of ten, in no queue. -/
theorem pipe_strands_agent :
    let cfg : KernelConfig := { pager := {}, host := .inert }
    let os : Os := { pipe := some (.other "OSError" "[Errno 24] Too many open files") }
    let outside := Outside.calm ⟨"", 0, 0, 0⟩
    let run := runs cfg outside { outside := outside } os (.worker 0) (loop cfg) crowded
    run.1 = .error (.other "OSError" "[Errno 24] Too many open files") ∧
      run.2.quota.remaining = 0 ∧ (run.2.pcbs 1).quotaRemaining = 10 ∧
      (run.2.pcbs 1).state = .running ∧ run.2.queue = { q := [], inFlight := 0 } := by
  decide +kernel

end Gcos.Process.Outage
