import Gcos.Lib.Text
import Mathlib.Data.Rat.Defs
import Mathlib.Algebra.Order.Ring.Rat
import Mathlib.Tactic.Common

/-!
# The agent control block

`gcos/kernel/pcb.py`: the states of an agent, the record the kernel keeps for it, and
`transition`, the only writer of the state in the thread backend.  Times are exact
rationals; `time.time()` is an argument wherever the source reads the clock.

The capability bits that nothing checks are left out.
-/

namespace Gcos

/-- Process identifiers.  They are handed out from `1` on, but callers may name any
integer. -/
abbrev Pid := ℤ

/-- A reading of `time.time()`. -/
abbrev Time := ℚ

/-- `AgentState`. -/
inductive AgentState
  | new | ready | running | waiting | blocked | done | timeout | error | zombie
deriving DecidableEq, Repr

namespace AgentState

/-- Membership in `_TERMINAL_STATES`. -/
def isTerminal : AgentState → Bool
  | done | timeout | error | zombie => true
  | new | ready | running | waiting | blocked => false

/-- The edges of `_LEGAL_TRANSITIONS`. -/
def legal : AgentState → AgentState → Bool
  | new, s => s ∈ [ready, waiting, running, zombie]
  | ready, s => s ∈ [running, waiting, blocked, done, timeout, error, zombie]
  | running, s => s ∈ [ready, waiting, blocked, done, timeout, error, zombie]
  | waiting, s => s ∈ [ready, running, blocked, done, timeout, error, zombie]
  | blocked, s => s ∈ [ready, running, waiting, done, timeout, error, zombie]
  | done, _ | timeout, _ | error, _ | zombie, _ => false

end AgentState

/-- `CapabilitySet`, as far as the executor reads it. -/
structure CapabilitySet where
  canExecCode : Bool := false
  multiStep : Bool := false
  maxTokens : ℤ := 4096
  maxToolCalls : ℤ := 20
deriving DecidableEq, Repr

namespace CapabilitySet

/-- `CapabilitySet.default_user`. -/
def defaultUser : CapabilitySet := {}

/-- `CapabilitySet.coder`. -/
def coder : CapabilitySet := { canExecCode := true, maxTokens := 8192 }

/-- `CapabilitySet.agent`. -/
def agent (maxToolCalls : ℤ := 8) : CapabilitySet :=
  { multiStep := true, maxToolCalls := maxToolCalls, maxTokens := 8192 }

end CapabilitySet

/-- The role of a context page or of a chat message. -/
inductive Role
  | system | user | assistant
deriving DecidableEq, Repr

/-- `ContextPage`: one page of an agent's conversation. -/
structure ContextPage where
  role : Role
  content : String
  tokens : ℤ := 0
  lastAccess : Time
  pinned : Bool := false
  summarized : Bool := false
deriving DecidableEq, Repr

/-- The scratch state of the multi-step loop (`pcb.scratch["react"]`). -/
structure ReactState where
  step : ℕ := 0
  observations : List String := []
deriving DecidableEq, Repr

/-- `AgentControlBlock`. -/
structure AgentControlBlock where
  pid : Pid
  name : String := "anon"
  prompt : String
  state : AgentState := .new
  priority : ℤ := 5
  parentPid : Option Pid := none
  children : List Pid := []
  capability : CapabilitySet := {}
  quotaRemaining : ℤ := 10
  timeoutS : Time := 30
  contextPages : List ContextPage := []
  react : ReactState := {}
  pipeTo : Option Pid := none
  inputFrom : Option Pid := none
  waitingSince : Option Time := none
  createdAt : Time
  startedAt : Option Time := none
  finishedAt : Option Time := none
  result : Option String := none
  error : Option String := none
  llmCallsUsed : ℤ := 0
  tokensUsed : ℤ := 0
deriving DecidableEq, Repr

namespace AgentControlBlock

/-- `AgentControlBlock.is_terminal`. -/
def isTerminal (pcb : AgentControlBlock) : Bool := pcb.state.isTerminal

/-- `AgentControlBlock.transition` at time `now`.  The answer of the source, whether the
state changed, is used by none of its callers.  An edge outside `AgentState.legal` is
only logged. -/
def transition (pcb : AgentControlBlock) (newState : AgentState) (now : Time) :
    AgentControlBlock :=
  if newState = pcb.state then pcb
  else if pcb.isTerminal then pcb
  else
    { pcb with
      startedAt :=
        if newState = .running ∧ pcb.startedAt = none then some now else pcb.startedAt
      finishedAt := if newState.isTerminal then some now else pcb.finishedAt
      state := newState }

/-- `AgentControlBlock.wall_time` at time `now`. -/
def wallTime (pcb : AgentControlBlock) (now : Time) : Time :=
  match pcb.startedAt with
  | none => 0
  | some start =>
    match pcb.finishedAt with
    | none => now - start
    | some finish => (if finish = 0 then now else finish) - start

end AgentControlBlock

/-- One row of `AgentControlBlock.to_row`. -/
structure Row where
  pid : Pid
  name : String
  state : AgentState
  prio : ℤ
  parent : Option Pid
  quota : ℤ
  tokens : ℤ
  calls : ℤ
  wall : ℚ
deriving DecidableEq, Repr

namespace AgentControlBlock

/-- `AgentControlBlock.to_row` at time `now`. -/
def toRow (pcb : AgentControlBlock) (now : Time) : Row where
  pid := pcb.pid
  name := pcb.name
  state := pcb.state
  prio := pcb.priority
  parent := pcb.parentPid
  quota := pcb.quotaRemaining
  tokens := pcb.tokensUsed
  calls := pcb.llmCallsUsed
  wall := Lib.Text.roundHalfEven (pcb.wallTime now * 100) / 100

variable (pcb : AgentControlBlock) (st : AgentState) (now : Time)

/-! ### What `transition` can do -/

/-- Terminal states are absorbing. -/
lemma transition_of_isTerminal (h : pcb.isTerminal = true) : pcb.transition st now = pcb := by
  unfold transition
  by_cases hst : st = pcb.state
  · rw [if_pos hst]
  · rw [if_neg hst, if_pos h]

/-- The block that a transition to a new state leaves. -/
lemma transition_of_live (h : pcb.isTerminal = false) (hst : st ≠ pcb.state) :
    pcb.transition st now =
      { pcb with
        startedAt := if st = .running ∧ pcb.startedAt = none then some now else pcb.startedAt
        finishedAt := if st.isTerminal then some now else pcb.finishedAt
        state := st } := by
  rw [transition, if_neg hst, if_neg (by simp [h])]

/-- Outside the terminal states a transition always reaches its target. -/
lemma state_transition_of_live (h : pcb.isTerminal = false) :
    (pcb.transition st now).state = st := by
  by_cases hst : st = pcb.state
  · rw [transition, if_pos hst, hst]
  · rw [transition_of_live pcb st now h hst]

/-- A transition finalizes exactly when the block was final or the target is. -/
@[simp] lemma isTerminal_transition :
    (pcb.transition st now).isTerminal = (pcb.isTerminal || st.isTerminal) := by
  cases h : pcb.isTerminal with
  | true => rw [transition_of_isTerminal pcb st now h, h]; rfl
  | false => rw [isTerminal, state_transition_of_live pcb st now h]; rfl

/-- Everything but the state and its two timestamps survives a transition. -/
lemma transition_frame :
    pcb.transition st now =
      { pcb with
        state := (pcb.transition st now).state
        startedAt := (pcb.transition st now).startedAt
        finishedAt := (pcb.transition st now).finishedAt } := by
  unfold transition
  by_cases hst : st = pcb.state
  · rw [if_pos hst]
  · by_cases h : pcb.isTerminal = true
    · rw [if_neg hst, if_pos h]
    · rw [if_neg hst, if_neg h]

@[simp] lemma transition_llmCallsUsed :
    (pcb.transition st now).llmCallsUsed = pcb.llmCallsUsed := by rw [transition_frame]

/-- The finish time is set exactly on terminal blocks. -/
def Stamped (pcb : AgentControlBlock) : Prop :=
  pcb.finishedAt.isSome = pcb.isTerminal

lemma isTerminal_of_zombie {pcb : AgentControlBlock} (h : pcb.state = .zombie) :
    pcb.isTerminal = true := by
  rw [isTerminal, h]
  rfl

/-- A killed agent stays killed. -/
lemma transition_of_zombie {pcb : AgentControlBlock} (h : pcb.state = .zombie) (st : AgentState)
    (now : Time) : pcb.transition st now = pcb :=
  transition_of_isTerminal pcb st now (isTerminal_of_zombie h)

lemma Stamped.transition {pcb : AgentControlBlock} (h : pcb.Stamped) :
    (pcb.transition st now).Stamped := by
  cases hlive : pcb.isTerminal with
  | true => rwa [transition_of_isTerminal pcb st now hlive]
  | false =>
    by_cases hst : st = pcb.state
    · rwa [AgentControlBlock.transition, if_pos hst]
    · rw [Stamped, hlive] at h
      rw [transition_of_live pcb st now hlive hst]
      cases hfin : st.isTerminal <;> simp_all [Stamped, isTerminal]

end AgentControlBlock

end Gcos
