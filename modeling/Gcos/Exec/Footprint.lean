import Gcos.Exec.Course

/-!
# What the steps touch

A step of an agent looks at its block and writes to it, assembles the messages and makes the
call; the coder may run code.  It moves the agent to `RUNNING` and to the states in which a
step ends, and it changes neither its prompt nor its place in the process tree.
-/

namespace Gcos

open Lib Prog Memory

/-- The writes of a step. -/
def Write.isStep : Write → Bool
  | prompt _ | waitingSince _ | addChild _ => false
  | transition st => st == .running || st == .done || st == .error || st == .timeout
  | _ => true

namespace Exec

/-- The operations of a step after its call. -/
def Touches (p : Pid) : Class KOp
  | _, .readPcb q _ => q = p
  | _, .write q c => q = p ∧ c.isStep = true
  | _, _ => False

/-- The operations of a step.  Only the coder runs code. -/
def Steps (sandboxed : Bool) (p : Pid) : Class KOp
  | _, .chat _ _ | _, .now | _, .acquire | _, .refund | _, .swapOut _ _ => True
  | _, .runPython _ _ _ => sandboxed = true
  | _, o => Touches p o

variable {cfg : KernelConfig} {host : Host} {p : Pid} {sandboxed : Bool}

lemma steps_of_course {st : Point} {β : Type} (o : KOp β) (ho : st.allows p sandboxed True o) :
    Steps sandboxed p o := by
  cases o with
  | readPcb q look =>
    cases look with
    | fields => exact ho
    | terminal | zombie => exact ho.1
  | write q c =>
    have hwrite : st.allowsWrite c := ho.2
    refine ⟨ho.1, ?_⟩
    cases c with
    | transition st' =>
      cases st with
      | live able => rcases hwrite with rfl | rfl | rfl <;> rfl
      | drafted => rcases hwrite with rfl | rfl <;> rfl
      | _ => cases hwrite.1
    | prompt text | waitingSince since | addChild child => cases hwrite.1
    | _ => rfl
  | chat purpose request | acquire | swapOut q pages | now | refund => trivial
  | runPython code timeout priority => exact ho.2
  | _ => exact ho.elim

/-- After the call a step looks at its block and writes to it, and may run code. -/
lemma touches_of_course {st : Point} {β : Type} (o : KOp β) (ho : st.allows p false True o)
    (hst : st.called = true) : Touches p o := by
  have hsteps : Steps false p o := steps_of_course o ho
  cases o with
  | readPcb q look | write q c => exact hsteps
  | chat purpose request =>
    cases purpose with
    | step =>
      obtain rfl : st = .live true := ho
      cases hst
    | summarize metered =>
      cases metered with
      | true =>
        obtain rfl : st = .lent := ho
        cases hst
      | false =>
        obtain ⟨rfl, -⟩ : st = .live true ∧ True := ho
        cases hst
  | acquire | swapOut q pages | now =>
    obtain rfl : st = .live true := ho
    cases hst
  | refund =>
    obtain rfl : st = .lent := ho
    cases hst
  | runPython code timeout priority => cases ho.2
  | _ => exact ho.elim

lemma only_of_course {α : Type} {prog : Prog KOp α} {st : Point} {Q : α → Point → Prop}
    (h : prog.Obeys (course p sandboxed True) st Q) : prog.Only (Steps sandboxed p) := by
  refine Obeys.only (K := fun _ => True) ?_ h trivial
  exact fun o st _ hpre => ⟨steps_of_course o hpre, fun b => ⟨_, rfl, trivial⟩⟩

/-! ### The parts of a step -/

lemma only_failWith {st : AgentState} (hst : (Write.transition st).isStep = true) (msg : String) :
    (failWith p st msg).Only (Touches p) :=
  Only.step ⟨rfl, hst⟩ fun _ => only_perform ⟨rfl, rfl⟩

lemma only_failWithExn (e : Exn) : (failWithExn p e).Only (Touches p) := by
  cases e with
  | timeout msg => exact only_failWith rfl msg
  | other cls msg => exact only_failWith rfl _

lemma only_enterRunning : (enterRunning p).Only (Touches p) := by
  refine Only.step rfl fun pcb => ?_
  split
  · trivial
  · exact only_perform ⟨rfl, rfl⟩

lemma only_finishReact (r : ChatResult) : (finishReact host p r).Only (Touches p) := by
  have hcourse : (finishReact host p r).Obeys (course p false True) .replied Point.Ends :=
    course_finishReact r
  refine Obeys.only (K := fun st => st.called = true) ?_ hcourse rfl
  intro β o st hst ho
  exact ⟨touches_of_course o ho hst, fun b => ⟨_, rfl, Point.called_after ho hst b⟩⟩

/-! ### The steps -/

lemma only_runPlainStep : (runPlainStep cfg p).Only (Steps sandboxed p) :=
  only_of_course (course_runPlainStep fun _ _ _ => trivial)

lemma only_runReactStep : (runReactStep cfg p).Only (Steps sandboxed p) :=
  only_of_course (course_runReactStep fun _ _ _ => trivial)

/-- Only the coder runs code, and nobody but it touches more than a step does. -/
lemma only_runStep : (runStep cfg p).Only (Steps true p) :=
  only_of_course (course_runStep fun _ _ _ => trivial)

end Exec

end Gcos
