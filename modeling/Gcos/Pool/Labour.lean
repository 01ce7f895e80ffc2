import Gcos.Pool.Worker
import Gcos.Exec.Footprint

/-!
# What the workers perform

A worker works on agents that exist.  It constructs none, registers none, takes none out of
the table or the queue other than by picking it, gives out no quota and drops no mailbox;
it moves no agent back to `NEW`, and it never sets the stop flag, which it only reads.
Those operations are left to the callers of the kernel, or to nobody.
-/

namespace Gcos

/-- The operations of the workers. -/
def KOp.labours : {β : Type} → KOp β → Bool
  | _, .setStop | _, .newPcb _ | _, .tableAdd _ | _, .tableHas _ | _, .tablePids
  | _, .tableRemove _ | _, .popQueued _ | _, .topup _ | _, .dropMailbox _ | _, .mailboxPids
  | _, .write _ (.addChild _) | _, .write _ (.transition .new) => false
  | _, _ => true

namespace Pool

open Lib Exec Memory

/-- The class of the workers' operations. -/
def KLabour : Prog.Class KOp := fun o => o.labours = true

variable {cfg : KernelConfig} {p : Pid}

/-! ### Steps -/

lemma labours_of_steps {sandboxed : Bool} {β : Type} (o : KOp β) (ho : Steps sandboxed p o) :
    o.labours = true := by
  cases o with
  | write q c =>
    obtain ⟨-, hc⟩ := ho
    cases c with
    | addChild child => cases hc
    | transition st =>
      cases st with
      | new => cases hc
      | _ => rfl
    | _ => rfl
  | setStop | newPcb args | tableAdd q | tableHas q | tablePids | tableRemove q | popQueued q
  | topup k | dropMailbox q | mailboxPids => exact ho.elim
  | _ => rfl

lemma labour_runStep : (runStep cfg p).Only KLabour := only_runStep.mono labours_of_steps

lemma labour_failWith {st : AgentState} (hst : st.isTerminal = true) (msg : String) :
    (failWith p st msg).Only KLabour := by
  refine Prog.Only.step ?_ fun _ => Prog.only_perform rfl
  cases st with
  | new => cases hst
  | _ => rfl

/-! ### The thread backend -/

lemma labour_settle (answer : Except Exn Bool) : (settle p answer).Only KLabour := by
  cases answer with
  | ok keepGoing => trivial
  | error e => exact (labour_failWith rfl _).bind fun _ => trivial

lemma labour_runHoldingUnit : (runHoldingUnit cfg p).Only KLabour := by
  refine Prog.Only.step rfl fun before => Prog.Only.step rfl fun _ => ?_
  refine labour_runStep.bind fun answer => (labour_settle answer).bind fun keepGoing => ?_
  refine Prog.Only.step rfl fun _ => Prog.Only.step rfl fun pcb => ?_
  split
  · exact Prog.Only.step rfl fun _ => trivial
  · trivial

lemma labour_runOneStep : (runOneStep cfg p).Only KLabour := by
  refine Prog.Only.step rfl fun granted => ?_
  split
  · exact labour_runHoldingUnit
  refine Prog.Only.step rfl fun _ => Prog.Only.step rfl fun got => Prog.Only.step rfl fun stop => ?_
  split
  · refine (Prog.only_when (Prog.only_perform rfl)).bind fun _ => ?_
    exact Prog.Only.step rfl fun _ => trivial
  split
  · exact labour_runHoldingUnit
  · exact Prog.Only.step rfl fun _ => trivial

lemma labour_stepLoop (limit : ℕ) (site : StopSite) (keepGoing : Bool) :
    (stepLoop cfg p limit site keepGoing).Only KLabour := by
  induction limit generalizing site keepGoing with
  | zero => trivial
  | succ limit ih =>
    refine Prog.Only.step rfl fun stop => ?_
    split
    · trivial
    refine labour_runOneStep.bind fun status => ?_
    cases status with
    | blocked => trivial
    | stopped => trivial
    | ran keepGoing =>
      refine Prog.Only.step rfl fun pcb => ?_
      split
      · trivial
      · exact ih _ _

lemma labours_of_forwards {β : Type} (o : KOp β) (ho : Forwards p o) : o.labours = true := by
  cases o with
  | readPcb q look | now | mailbox q | mailboxGet box | mailboxPut box msg => rfl
  | _ => exact ho.elim

lemma labour_recv : (recv p).Only KLabour :=
  only_recv.mono fun o ho => labours_of_forwards o (ho.forwards (p := p))

lemma labour_forwardResult : (forwardResult cfg p).Only KLabour :=
  only_forwardResult.mono labours_of_forwards

lemma labour_runQuantum : (runQuantum cfg p).Only KLabour := by
  refine (labour_stepLoop _ _ _).bind fun answer => ?_
  cases answer with
  | none => trivial
  | some keepGoing =>
    refine labour_forwardResult.bind fun _ => Prog.Only.step rfl fun pcb => ?_
    split
    · exact Prog.Only.step rfl fun _ => trivial
    · trivial

lemma labour_reparkWaiting : (reparkWaiting cfg p).Only KLabour := by
  refine Prog.Only.step rfl fun now => Prog.Only.step rfl fun pcb => ?_
  refine Prog.Only.step rfl fun _ => ?_
  dsimp only
  split
  · exact labour_failWith rfl _
  · exact Prog.Only.step rfl fun _ => Prog.Only.step rfl fun _ => trivial

lemma labour_dispatch : (dispatch cfg p).Only KLabour := by
  refine Prog.Only.step rfl fun pcb => ?_
  split
  · trivial
  split
  · split
    · exact labour_failWith rfl _
    · refine labour_recv.bind fun msg => ?_
      cases msg with
      | none => exact labour_reparkWaiting
      | some m => exact Prog.Only.step rfl fun _ => Prog.Only.step rfl fun _ => labour_runQuantum
  · exact labour_runQuantum

lemma labour_loopBody : (loopBody cfg).Only KLabour := by
  refine Prog.Only.step rfl fun stop => ?_
  split
  · trivial
  refine Prog.Only.step rfl fun woken => ?_
  split
  · refine Prog.Only.step rfl fun picked => ?_
    cases picked with
    | none => trivial
    | some p => exact labour_dispatch.bind fun _ => Prog.Only.step rfl fun _ => trivial
  · trivial

end Pool

end Gcos
