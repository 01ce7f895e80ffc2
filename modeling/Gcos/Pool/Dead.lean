import Gcos.Pool.Holder

/-!
# Killed means dead

What still happens to an agent after it has become terminal, whoever made it so and
wherever its worker is at that moment.  The transitions are absorbing and `put` refuses
the agent, so it stays where it is; a worker that has seen it live may have one call under
way, which it still counts, and at the next look the worker stops.
-/

namespace Gcos.Pool

open Lib World

variable {n : ℕ} {cfg : KernelConfig} {out : Outside} {rules : Rules} {m : Manner} {w : World n}
  {t : Tid n} {β : Type} {o : KOp β} {p : Pid}

/-- No write moves a terminal agent. -/
lemma apply_of_isTerminal {pcb : AgentControlBlock} (h : pcb.isTerminal = true)
    (clock : ℕ → Time) (c : Write) :
    (c.apply clock pcb).state = pcb.state ∧ (c.apply clock pcb).finishedAt = pcb.finishedAt := by
  cases c with
  | transition st =>
    rw [Write.apply, AgentControlBlock.transition_of_isTerminal pcb st _ h]
    exact ⟨rfl, rfl⟩
  | _ => exact ⟨rfl, rfl⟩

/-- No operation moves a terminal agent. -/
lemma state_exec_of_isTerminal (cfg : KernelConfig) (out : Outside) (t : Tid n) (o : KOp β)
    (h : (w.pcbs p).isTerminal = true) (hp : Allocated w.nextPid p) :
    ((exec cfg out t o w).2.pcbs p).state = (w.pcbs p).state ∧
      ((exec cfg out t o w).2.pcbs p).finishedAt = (w.pcbs p).finishedAt := by
  have hstep := pcb_exec cfg out t o hp.2.ne
  generalize (exec cfg out t o w).2.pcbs p = b at hstep ⊢
  cases hstep with
  | write c => exact apply_of_isTerminal h _ c
  | put hlive =>
    rw [h] at hlive
    cases hlive
  | same => exact ⟨rfl, rfl⟩

lemma isTerminal_exec (h : (w.pcbs p).isTerminal = true) (hp : Allocated w.nextPid p) :
    ((exec cfg out t o w).2.pcbs p).isTerminal = true := by
  rw [AgentControlBlock.isTerminal, (state_exec_of_isTerminal cfg out t o h hp).1]
  exact h

end Gcos.Pool
