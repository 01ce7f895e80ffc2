import Gcos.Process.Marking
import Gcos.Process.Frozen

/-!
# What is told of the dispatches

An observer of the process backend remembers of every agent whether a dispatch of it was
blocked on the quota, and whether the outcome of its last child was settled.  With this the
mark of a dispatch says what the block of its agent is like: an agent that was never blocked
has no start time before it is launched and is `RUNNING` afterwards; one that was blocked has
a start time and is not `RUNNING` any more.
-/

namespace Gcos.Process

open Lib Pool World

variable {n : ℕ}

/-- What an observer of the dispatches remembers of every agent: whether a dispatch of it
was blocked on the quota, and whether the outcome of its last child was settled. -/
structure Chronicle where
  blocked : Pid → Bool := fun _ => false
  settled : Pid → Bool := fun _ => false

/-- What a transition tells. -/
def Chronicle.moved (g : Chronicle) (p : Pid) : AgentState → Chronicle
  | .blocked => { g with blocked := Function.update g.blocked p true }
  | .done | .timeout | .error => { g with settled := Function.update g.settled p true }
  | .new | .ready | .running | .waiting | .zombie => g

/-- The observer of the dispatches. -/
def chronicler : Observer FOp (Tid n) (Fleet n) Chronicle
  | _, _, .inl (.inl (.write p (.transition st))), _, _, g => g.moved p st
  | _, _, .inl (.inr (.assign p (.state _))), _, _, g =>
    { g with settled := Function.update g.settled p true }
  | _, _, .inr (.register p _), _, _, g =>
    { g with settled := Function.update g.settled p false }
  | _, _, _, _, _, g => g

/-- No agent that was blocked on the quota is given a child, unless it was killed. -/
def NeverBlocked : System.Guard FOp (Tid n) (Fleet n × Chronicle)
  | _, _, .inr (.register p _), s =>
    s.2.blocked p = false ∨ (s.1.world.pcbs p).state = .zombie
  | _, _, _, _ => True

variable {cfg : KernelConfig} {out : Outside} {kids : ℕ → Offspring} {t : Tid n} {β : Type}
  {o : FOp β} {f : Fleet n} {g : Chronicle} {m : Mark} {p : Pid} {b b' : AgentControlBlock}
  {blocked : Bool}

/-! ### What the mark says about the block -/

/-- The block of an agent that waits for a dispatch: it has a start time if it was blocked. -/
structure Rested (b : AgentControlBlock) (blocked : Bool) : Prop where
  live : b.isTerminal = false
  state : b.state ≠ .running
  started : b.startedAt.isSome = blocked

/-- The block of an agent that was launched: it is `RUNNING` unless it was blocked before. -/
structure Launched (b : AgentControlBlock) (blocked : Bool) : Prop where
  live : b.isTerminal = false
  started : b.startedAt.isSome = true
  state : b.state = .running ↔ blocked = false

/-- What the mark says about the block of the agent. -/
def Mark.Fits (b : AgentControlBlock) (blocked : Bool) : Mark → Prop
  | off => True
  -- nobody is dispatched by a caller
  | made _ => False
  | picked | .blocked => Rested b blocked
  | looked s => Rested b blocked ∧ s = blocked
  | launched => Launched b blocked
  | alive => b.state = .running

/-- The block is as the mark says, or the agent was killed. -/
def Mark.Agrees (b : AgentControlBlock) (blocked : Bool) (m : Mark) : Prop :=
  b.state = .zombie ∨ m.Fits b blocked

lemma Mark.agrees_looked (h : (Mark.looked true).Agrees b blocked) : Mark.launched.Agrees b blocked := by
  refine h.imp_right fun ⟨hrest, hblocked⟩ => ?_
  exact ⟨hrest.live, hrest.started.trans hblocked.symm, by simp [hrest.state, ← hblocked]⟩

/-- The block of an agent as others leave it: they may only kill the agent. -/
structure Unmoved (b b' : AgentControlBlock) : Prop where
  started : b'.startedAt = b.startedAt
  state : b'.state = b.state ∨ b'.state = .zombie

lemma Unmoved.refl (b : AgentControlBlock) : Unmoved b b := ⟨rfl, .inl rfl⟩

lemma unmoved_zombie (b : AgentControlBlock) (now : Time) : Unmoved b (b.transition .zombie now) := by
  unfold AgentControlBlock.transition
  split
  · exact .refl b
  · split
    · exact .refl b
    · exact ⟨rfl, .inr rfl⟩

lemma Mark.Agrees.unmoved (h : m.Agrees b blocked) (hb : Unmoved b b') : m.Agrees b' blocked := by
  rcases hb.state with hstate | hzombie
  · have hterm : b'.isTerminal = b.isTerminal := by
      rw [AgentControlBlock.isTerminal, hstate]
      rfl
    have hrested : Rested b blocked → Rested b' blocked := fun h =>
      ⟨hterm.trans h.live, hstate ▸ h.state, hb.started ▸ h.started⟩
    refine h.imp hstate.trans fun hfits => ?_
    cases m with
    | off => trivial
    | made q => exact hfits.elim
    | picked | blocked => exact hrested hfits
    | looked s => exact hfits.imp_left hrested
    | launched => exact ⟨hterm.trans hfits.live, hb.started ▸ hfits.started, hstate ▸ hfits.state⟩
    | alive => exact hstate.trans hfits
  · exact .inl hzombie

/-! ### What an operation is about -/

/-- The agent that an operation moves, but for kills. -/
def bears : {β : Type} → FOp β → Option Pid
  | _, .inl (.inl (.write _ (.transition .zombie))) => none
  | _, .inl (.inl (.write p (.transition _))) => some p
  | _, .inl (.inl (.put p)) => some p
  | _, .inl (.inr (.assign p (.state _))) => some p
  | _, .inr (.register p _) => some p
  | _, _ => none

/-- What a transition moves is its own agent, and it is no kill. -/
lemma bears_transition {q : Pid} {st : AgentState}
    (ho : bears (.inl (.inl (.write q (.transition st)))) = some p) : q = p ∧ st ≠ .zombie := by
  cases st <;> cases ho <;> exact ⟨rfl, by simp⟩

lemma unmoved_write (c : Write) (hc : bears (.inl (.inl (.write p c))) ≠ some p)
    (clock : ℕ → Time) : Unmoved b (c.apply clock b) := by
  cases c with
  | transition st =>
    cases st with
    | zombie => exact unmoved_zombie b _
    | _ => exact absurd rfl hc
  | _ => exact ⟨rfl, .inl rfl⟩

/-- The other agents are not moved. -/
lemma unmoved_exec (ho : bears o ≠ some p) (hp : Allocated f.world.nextPid p) :
    Unmoved (f.world.pcbs p) ((Fleet.exec cfg out kids t o f).2.world.pcbs p) := by
  rcases o with (o | o) | o
  · show Unmoved _ ((World.exec cfg out t o f.world).2.pcbs p)
    have hstep := pcb_exec cfg out t o hp.2.ne
    generalize (World.exec cfg out t o f.world).2.pcbs p = b at hstep ⊢
    cases hstep with
    | write c => exact unmoved_write c ho _
    | put _ => exact absurd rfl ho
    | same => exact .refl _
  · cases o with
    | assign q a =>
      show Unmoved _ (Function.update f.world.pcbs q (a.apply (f.world.pcbs q)) p)
      by_cases hq : p = q
      · subst hq
        rw [Function.update_self]
        cases a with
        | state st => exact absurd rfl ho
        | _ => exact ⟨rfl, .inl rfl⟩
      · rw [Function.update_of_ne hq]
        exact .refl _
    | _ => exact .refl _
  · cases o <;> exact .refl _

lemma moved_of_ne {q : Pid} (hq : p ≠ q) (st : AgentState) :
    (g.moved q st).blocked p = g.blocked p ∧ (g.moved q st).settled p = g.settled p := by
  cases st with
  | blocked => exact ⟨Function.update_of_ne hq _ _, rfl⟩
  | done | timeout | error => exact ⟨rfl, Function.update_of_ne hq _ _⟩
  | _ => exact ⟨rfl, rfl⟩

/-- Nothing is told about the other agents. -/
lemma chronicler_of_ne {answer : β} (ho : bears o ≠ some p) :
    (chronicler t o f answer g).blocked p = g.blocked p ∧
      (chronicler t o f answer g).settled p = g.settled p := by
  rcases o with (o | o) | o
  · cases o with
    | write q c =>
      cases c with
      | transition st =>
        by_cases hst : st = .zombie
        · subst hst
          exact ⟨rfl, rfl⟩
        · refine moved_of_ne ?_ st
          rintro rfl
          cases st with
          | zombie => exact hst rfl
          | _ => exact ho rfl
      | _ => exact ⟨rfl, rfl⟩
    | _ => exact ⟨rfl, rfl⟩
  · cases o with
    | assign q a =>
      cases a with
      | state st =>
        refine ⟨rfl, Function.update_of_ne ?_ _ _⟩
        rintro rfl
        exact ho rfl
      | _ => exact ⟨rfl, rfl⟩
    | _ => exact ⟨rfl, rfl⟩
  · cases o with
    | register q k =>
      refine ⟨rfl, Function.update_of_ne ?_ _ _⟩
      rintro rfl
      exact ho rfl
    | _ => exact ⟨rfl, rfl⟩

/-! ### The transitions -/

/-- A transition that starts nobody. -/
lemma Rested.transition (h : Rested b blocked) {st : AgentState} (hlive : st.isTerminal = false)
    (hst : st ≠ .running) (now : Time) : Rested (b.transition st now) blocked := by
  refine ⟨?_, ?_, ?_⟩
  · rw [AgentControlBlock.isTerminal_transition, h.live, hlive]
    rfl
  · rw [AgentControlBlock.state_transition_of_live b st now h.live]
    exact hst
  · by_cases hsame : st = b.state
    · rw [AgentControlBlock.transition, if_pos hsame]
      exact h.started
    · rw [AgentControlBlock.transition_of_live b st now h.live hsame, if_neg (by simp [hst])]
      exact h.started

lemma Mark.Agrees.transition (h : Mark.picked.Agrees b blocked) {st : AgentState}
    (hlive : st.isTerminal = false) (hst : st ≠ .running) (now : Time) :
    Mark.picked.Agrees (b.transition st now) blocked := by
  rcases h with hzombie | hrest
  · rw [AgentControlBlock.transition_of_zombie hzombie]
    exact .inl hzombie
  · exact .inr (Rested.transition hrest hlive hst now)

/-- An agent that was never started is `RUNNING` after the mark. -/
lemma agrees_running (h : (Mark.looked false).Agrees b blocked) (now : Time) :
    Mark.launched.Agrees (b.transition .running now) blocked := by
  rcases h with hzombie | ⟨hrest, hblocked⟩
  · rw [AgentControlBlock.transition_of_zombie hzombie]
    exact .inl hzombie
  · have hnone : b.startedAt = none := by
      simpa using hrest.started.trans hblocked.symm
    have hstate := AgentControlBlock.state_transition_of_live b .running now hrest.live
    refine .inr ⟨?_, ?_, ?_⟩
    · rw [AgentControlBlock.isTerminal_transition, hrest.live]
      rfl
    · rw [AgentControlBlock.transition_of_live b _ now hrest.live (Ne.symm hrest.state)]
      simp [hnone]
    · simp [hstate, ← hblocked]

/-- An agent that is blocked was started before. -/
lemma agrees_blocked (h : Mark.launched.Agrees b blocked) (now : Time) :
    Mark.blocked.Agrees (b.transition .blocked now) true := by
  rcases h with hzombie | hlaunched
  · rw [AgentControlBlock.transition_of_zombie hzombie]
    exact .inl hzombie
  · have hstate := AgentControlBlock.state_transition_of_live b .blocked now hlaunched.live
    refine .inr ⟨?_, ?_, ?_⟩
    · rw [AgentControlBlock.isTerminal_transition, hlaunched.live]
      rfl
    · simp [hstate]
    · by_cases hsame : AgentState.blocked = b.state
      · rw [AgentControlBlock.transition, if_pos hsame]
        exact hlaunched.started
      · rw [AgentControlBlock.transition_of_live b _ now hlaunched.live hsame]
        simpa using hlaunched.started

/-- An agent that waits for its input stays at rest. -/
lemma agrees_waiting (h : m.Agrees b blocked) (hm : m = .made p ∨ ∃ x, m = .looked x)
    (now : Time) : m.Agrees (b.transition .waiting now) blocked := by
  rcases h with hzombie | hfits
  · rw [AgentControlBlock.transition_of_zombie hzombie]
    exact .inl hzombie
  · rcases hm with rfl | ⟨x, rfl⟩
    · exact hfits.elim
    · exact .inr ⟨hfits.1.transition rfl (by simp) now, hfits.2⟩

/-- An agent that was never blocked is `RUNNING` when its child is registered. -/
lemma agrees_alive (h : Mark.launched.Agrees b blocked)
    (hguard : blocked = false ∨ b.state = .zombie) : Mark.alive.Agrees b blocked := by
  rcases h with hzombie | hlaunched
  · exact .inl hzombie
  · exact hguard.elim (fun hnever => .inr (hlaunched.state.2 hnever)) .inl

/-- Whoever may put an agent back has it at rest. -/
lemma Mark.Agrees.rested (h : m.Agrees b blocked)
    (hm : m = .made p ∨ m = .blocked ∨ ∃ x, m = .looked x) : Mark.picked.Agrees b blocked := by
  refine h.imp_right fun hfits => ?_
  rcases hm with rfl | rfl | ⟨x, rfl⟩
  · exact hfits.elim
  · exact hfits
  · exact hfits.1

/-- A look at the block. -/
lemma Mark.Agrees.look (h : Mark.picked.Agrees b blocked) :
    (Mark.looked b.startedAt.isSome).Agrees b blocked :=
  h.imp_right fun hrest => ⟨hrest, hrest.started⟩

end Gcos.Process
