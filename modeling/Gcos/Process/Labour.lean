import Gcos.Process.Fleet
import Gcos.Pool.Labour

/-!
# What the workers of both backends perform

The workers of the process backend reserve quota and look after child processes as well;
they signal none of them.  No worker sets the stop flag.
-/

namespace Gcos.Process

open Lib Exec Pool Memory

/-- The operations of the workers of both backends. -/
def labours : {β : Type} → FOp β → Bool
  | _, .inl (.inl o) => o.labours
  | _, .inl (.inr _) => true
  | _, .inr (.lookup _) | _, .inr (.signal _) | _, .inr .signalAll | _, .inr (.childMoves _) => false
  | _, .inr _ => true

/-- The class of the workers' operations. -/
def Labour : Prog.Class FOp := fun o => labours o = true

/-- The class of the workers' operations, for the programs of the coarse model. -/
def PLabour : Prog.Class POp := fun o => labours (.inl o) = true

variable {cfg : KernelConfig} {p : Pid}

/-! ### The process backend -/

lemma labour_plain {α : Type} {prog : Prog KOp α} (h : prog.Only KLabour) :
    (plain prog).Only PLabour := Prog.Only.lift h

lemma labour_coarse {α : Type} {prog : Prog POp α} (h : prog.Only PLabour) :
    (coarse prog).Only Labour := Prog.Only.lift h

lemma labour_native {α : Type} {prog : Prog KOp α} (h : prog.Only KLabour) :
    (native prog).Only Labour := labour_coarse (labour_plain h)

lemma labour_proc {β : Type} (o : ChildOp β) : (coarse (proc o)).Only Labour := by
  have h : (proc o).Only PLabour := Prog.only_perform (rfl : labours (.inl (.inr o)) = true)
  exact labour_coarse h

lemma labours_of_applies {β : Type} (o : POp β) (ho : Applies p o) : labours (.inl o) = true := by
  rcases o with o | o
  · cases o with
    | readPcb q look | now => rfl
    | write q c =>
      cases c with
      | transition st =>
        cases st with
        | new => exact ho.elim
        | _ => rfl
      | error msg | result text => rfl
      | _ => exact ho.elim
    | _ => exact ho.elim
  · rfl

lemma labour_supervise : (supervise p).Only Labour := by
  refine Prog.Only.step rfl fun k => Prog.Only.step rfl fun _ => Prog.Only.step rfl fun raw => ?_
  refine (labour_coarse ((only_applyResult raw).mono labours_of_applies)).bind fun completed => ?_
  exact Prog.Only.step rfl fun _ => trivial

lemma labour_runForked : (runForked p).Only Labour := by
  refine Prog.Only.step rfl fun pcb => ?_
  refine (labour_proc _).bind fun reserve => ?_
  split
  · exact Prog.Only.step rfl fun _ => Prog.Only.step rfl fun _ => trivial
  refine (labour_proc _).bind fun _ => Prog.Only.step rfl fun before => ?_
  refine labour_supervise.bind fun completed => labour_coarse ?_
  exact (only_reconcile _ _ _ _).mono fun o ho => labours_of_applies o ho.applies

lemma labour_launchForked : (launchForked cfg p).Only Labour := by
  refine Prog.Only.step rfl fun pcb => ?_
  refine (Prog.only_when (Prog.only_perform rfl)).bind fun _ => Prog.Only.step rfl fun _ => ?_
  refine labour_runForked.bind fun _ => Prog.Only.step rfl fun _ => ?_
  exact labour_native labour_forwardResult

lemma labour_dispatchForked : (dispatchForked cfg p).Only Labour := by
  refine Prog.Only.step rfl fun pcb => ?_
  split
  · trivial
  split
  · split
    · exact labour_native (labour_failWith rfl _)
    · refine (labour_native labour_recv).bind fun msg => ?_
      cases msg with
      | none => exact labour_native labour_reparkWaiting
      | some m => exact Prog.Only.step rfl fun _ => Prog.Only.step rfl fun _ => labour_launchForked
  · exact labour_launchForked

lemma labour_loopForked : (loopForked cfg).Only Labour := by
  refine Prog.Only.step rfl fun stop => ?_
  split
  · trivial
  refine Prog.Only.step rfl fun woken => ?_
  split
  · refine Prog.Only.step rfl fun picked => ?_
    cases picked with
    | none => trivial
    | some p => exact labour_dispatchForked.bind fun _ => Prog.Only.step rfl fun _ => trivial
  · trivial

/-- **The loop of a worker**, with either backend. -/
lemma labour_body {n : ℕ} (backend : Backend) (out : Outside) (kids : ℕ → Offspring) (i : Fin n) :
    ((fleetSystem n backend cfg out kids).body (.worker i)).Only Labour := by
  cases backend with
  | thread => exact labour_native labour_loopBody
  | process => exact labour_loopForked

/-! ### The stop flag -/

/-- The operation that sets the stop flag. -/
def setsStop : {β : Type} → FOp β → Bool
  | _, .inl (.inl .setStop) => true
  | _, _ => false

lemma setsStop_of_labours {β : Type} {o : FOp β} (ho : labours o = true) : setsStop o = false := by
  cases o with
  | inl o =>
    cases o with
    | inl o =>
      cases o with
      | setStop => cases ho
      | _ => rfl
    | inr o => rfl
  | inr o => rfl

lemma stop_exec {n : ℕ} {out : Outside} {kids : ℕ → Offspring} {t : Tid n} {f : Fleet n}
    {β : Type} {o : FOp β} (ho : setsStop o = false) :
    (Fleet.exec cfg out kids t o f).2.world.stop = f.world.stop := by
  cases o with
  | inl o =>
    cases o with
    | inl o =>
      cases o with
      | setStop => cases ho
      | tableAdd q | waitNonempty | pickNext | acquire | swapOut q pages | write q c
      | chat purpose request =>
        simp only [Fleet.exec, Process.exec, World.exec]
        split <;> rfl
      | put q =>
        simp only [Fleet.exec, Process.exec, World.exec, World.put]
        split <;> rfl
      | _ => rfl
    | inr o => cases o <;> rfl
  | inr o => cases o <;> rfl

end Gcos.Process
