import Gcos.Pool.Discipline
import Gcos.Exec.Course

/-!
# The code obeys the discipline

The code of the workers and of the callers, followed through the discipline of
`Gcos.Pool.Discipline` one function after the other.  Each lemma says what note a
function may be entered with and what note it leaves.
-/

namespace Gcos.Pool

open Lib Memory Exec Note

variable {rules : Rules} {p : Pid} {busy replied dead : Bool} {units : ℕ} {calls : ℤ}

/-! ### Single operations of a worker that holds an agent -/

section

variable {α : Type} {Q : α → Note → Prop}

lemma obeys_read {look : Look} {k : AgentControlBlock → Prog KOp α}
    (hk : ∀ pcb : AgentControlBlock, pcb.llmCallsUsed = calls →
      (k pcb).Obeys (discipline rules)
        (.holding p busy units replied (dead || pcb.isTerminal) calls) Q) :
    (Prog.perform (.readPcb p look) >>= k).Obeys (discipline rules)
      (.holding p busy units replied dead calls) Q := by
  refine Prog.Obeys.step rfl ?_
  rintro pcb l ⟨hcalls, rfl⟩
  exact hk pcb hcalls

lemma obeys_transition {st : AgentState} {k : Unit → Prog KOp α}
    (hk : (k ()).Obeys (discipline rules)
      (.holding p busy units replied (dead || st.isTerminal) calls) Q) :
    (Prog.perform (.write p (.transition st)) >>= k).Obeys (discipline rules)
      (.holding p busy units replied dead calls) Q := by
  refine Prog.Obeys.step ⟨rfl, by simp, by simp [Write.countsCall]⟩ ?_
  rintro - l rfl
  exact hk

lemma obeys_plainWrite {w : Write} (hw : w.isPlain = true) {k : Unit → Prog KOp α}
    (hk : (k ()).Obeys (discipline rules) (.holding p busy units replied dead calls) Q) :
    (Prog.perform (.write p w) >>= k).Obeys (discipline rules)
      (.holding p busy units replied dead calls) Q := by
  cases w with
  | transition _ | countCall _ | addChild _ => cases hw
  | _ =>
    refine Prog.Obeys.step ⟨rfl, by simp, by simp [Write.countsCall]⟩ ?_
    rintro - l rfl
    exact hk

/-- Putting the agent back: either it is in the queue, or it is terminal. -/
lemma obeys_put {k : Bool → Prog KOp α}
    (hin : (k true).Obeys (discipline rules) .released Q)
    (hout : (k false).Obeys (discipline rules) (.holding p false 0 false true calls) Q) :
    (Prog.perform (.put p) >>= k).Obeys (discipline rules)
      (.holding p false 0 false dead calls) Q := by
  refine Prog.Obeys.step (.inr ⟨dead, calls, rfl⟩) ?_
  rintro (_ | _) l rfl
  · exact hout
  · exact hin

end

/-! ### One step -/

/-- A policy that does not make calls outside the kernel's quota. -/
def Metered : Policy → Prop
  | .summarize _ metered _ => metered = true
  | .lru _ | .swap _ _ => True

/-- The rules about metering are met by the policies. -/
def Rules.Fits (rules : Rules) (policies : List Policy) : Prop :=
  rules.metered = true → ∀ policy ∈ policies, Metered policy

/-- Where the rules are met, a call outside the quota is made only if the rules allow it. -/
lemma Rules.Fits.free {cfg : KernelConfig} (h : rules.Fits cfg.pager.policies) :
    Exec.Fits cfg (rules.metered = false) := by
  intro policy hpolicy hcalls
  cases hrules : rules.metered with
  | false => rfl
  | true =>
    have hmetered := h hrules policy hpolicy
    cases policy with
    | summarize batchSize metered maxSummaryTokens =>
      obtain rfl : metered = true := hmetered
      cases hcalls
    | lru minKeep | swap batchSize minKeep => cases hcalls

/-- A step that is over: either its unit is still in hand, or it is used up by one call
that was counted; and an agent that is not to be run again is terminal. -/
def StepEnds (p : Pid) (calls : ℤ) (answer : Except Exn Bool) (l : Note) : Prop :=
  ∃ dead, (l = .holding p true 1 false dead calls ∨ l = .holding p true 0 false dead (calls + 1)) ∧
    (answer = .ok false → dead = true)

lemma stepEnds_uncalled (answer : Except Exn Bool) :
    StepEnds p calls answer (.holding p true 1 false true calls) :=
  ⟨true, .inl rfl, fun _ => rfl⟩

lemma stepEnds_called (answer : Except Exn Bool) :
    StepEnds p calls answer (.holding p true 0 false true (calls + 1)) :=
  ⟨true, .inr rfl, fun _ => rfl⟩

lemma obeys_failWith {st : AgentState} (hst : st.isTerminal = true) (msg : String) :
    (failWith p st msg).Obeys (discipline rules) (.holding p busy units replied dead calls)
      fun _ l => l = .holding p busy units replied true calls := by
  refine obeys_transition
    (Prog.obeys_perform _ |>.2 ⟨⟨rfl, by simp, by simp [Write.countsCall]⟩, ?_⟩)
  rintro - l rfl
  simp [hst]

/-- The units in hand at a point of a step. -/
def handOf : Point → ℕ
  | .lent => 2
  | .start | .live _ | .failing | .replied | .ended false => 1
  | .counted | .met | .drafted | .ended true => 0

/-- The calls that the step has counted. -/
def countOf : Point → ℤ
  | .counted | .met | .drafted | .ended true => 1
  | .start | .live _ | .lent | .failing | .replied | .ended false => 0

/-- The note of a worker at a point of a step. -/
def Notes (p : Pid) (calls : ℤ) (st : Point) (l : Note) : Prop :=
  ∃ dead, l = .holding p true (handOf st) (st = .replied) dead (calls + countOf st) ∧
    (st.goes = false → dead = true)

lemma notes_of_goes {st : Point} {l : Note} (dead : Bool)
    (hl : l = .holding p true (handOf st) (st = .replied) dead (calls + countOf st))
    (hst : st.goes = true) : Notes p calls st l := by
  refine ⟨dead, hl, fun hends => ?_⟩
  rw [hst] at hends
  cases hends

/-- What a worker may write in the course of a step, and what it notes. -/
lemma obeys_course_write (rules : Rules) {st : Point} {c : Write} (hc : st.allowsWrite c) {l : Note}
    (hl : Notes p calls st l) :
    (discipline rules).pre (.write p c) l ∧ ∀ b l', (discipline rules).post (.write p c) l b l' →
      Notes p calls (st.write c) l' := by
  obtain ⟨dead, rfl, hdead⟩ := hl
  cases c with
  | transition st' =>
    refine ⟨⟨rfl, by simp, by simp [Write.countsCall]⟩, ?_⟩
    rintro - l' rfl
    cases st with
    | live able =>
      rcases hc with rfl | rfl | rfl
      · exact notes_of_goes dead (by simp [Point.write, handOf, countOf, AgentState.isTerminal]) rfl
      · exact ⟨true, by simp [Point.write, handOf, countOf, AgentState.isTerminal], fun _ => rfl⟩
      · exact ⟨true, by simp [Point.write, handOf, countOf, AgentState.isTerminal], fun _ => rfl⟩
    | drafted =>
      rcases hc with rfl | rfl
      · exact ⟨true, by simp [Point.write, handOf, countOf, AgentState.isTerminal], fun _ => rfl⟩
      · exact ⟨true, by simp [Point.write, handOf, countOf, AgentState.isTerminal], fun _ => rfl⟩
    | _ => cases hc.1
  | countCall tokens =>
    obtain rfl : st = .replied := hc
    refine ⟨⟨rfl, by simp, fun _ => ⟨rfl, rfl, by simp⟩⟩, ?_⟩
    rintro - l' rfl
    exact notes_of_goes dead (by simp [Point.write, handOf, countOf]) rfl
  | error msg =>
    refine ⟨⟨rfl, by simp, by simp [Write.countsCall]⟩, ?_⟩
    rintro - l' rfl
    rcases hc with rfl | rfl | rfl
    · exact ⟨dead, by simp [Point.write, handOf, countOf], fun _ => hdead rfl⟩
    · exact notes_of_goes dead (by simp [Point.write, handOf, countOf]) rfl
    · exact notes_of_goes dead (by simp [Point.write, handOf, countOf]) rfl
  | result text =>
    refine ⟨⟨rfl, by simp, by simp [Write.countsCall]⟩, ?_⟩
    rintro - l' rfl
    rcases hc with rfl | rfl <;> exact notes_of_goes dead (by simp [Point.write, handOf, countOf]) rfl
  | prompt text | waitingSince since | addChild child => cases hc.1
  | _ =>
    refine ⟨⟨rfl, by simp, by simp [Write.countsCall]⟩, ?_⟩
    rintro - l' rfl
    obtain ⟨-, rfl | rfl | rfl⟩ := hc <;> exact ⟨dead, rfl, hdead⟩

/-- Every operation of a step, at any point of its course. -/
lemma obeys_course {β : Type} (o : KOp β) (st : Point) (l : Note) (hl : Notes p calls st l)
    (ho : st.allows p true (rules.metered = false) o) :
    (discipline rules).pre o l ∧ ∀ b l', (discipline rules).post o l b l' →
      ∃ st', (course p true (rules.metered = false)).post o st b st' ∧ Notes p calls st' l' := by
  have hl' := hl
  obtain ⟨dead, rfl, hdead⟩ := hl'
  cases o with
  | readPcb q look =>
    cases look with
    | fields =>
      obtain rfl : q = p := ho
      refine ⟨rfl, ?_⟩
      rintro b l' ⟨-, rfl⟩
      exact ⟨st, rfl, _, rfl, fun h => by rw [hdead h, Bool.true_or]⟩
    | terminal =>
      obtain ⟨rfl, rfl⟩ := ho
      refine ⟨rfl, ?_⟩
      rintro b l' ⟨-, rfl⟩
      refine ⟨_, rfl, dead || b.isTerminal, ?_, fun h => ?_⟩
      · simp only [Point.after]
        split <;> simp [handOf, countOf]
      · simp only [Point.after] at h
        split at h
        · next hterm => rw [hterm, Bool.or_true]
        · cases h
    | zombie =>
      obtain ⟨rfl, rfl⟩ := ho
      refine ⟨rfl, ?_⟩
      rintro b l' ⟨-, rfl⟩
      refine ⟨_, rfl, dead || b.isTerminal, ?_, fun h => ?_⟩
      · simp only [Point.after]
        split <;> simp [handOf, countOf]
      · simp only [Point.after] at h
        split at h
        · next hzombie => rw [AgentControlBlock.isTerminal_of_zombie hzombie, Bool.or_true]
        · cases h
  | write q c =>
    obtain ⟨rfl, hc⟩ := ho
    obtain ⟨hpre, hpost⟩ := obeys_course_write rules hc hl
    exact ⟨hpre, fun b l' hb => ⟨_, rfl, hpost b l' hb⟩⟩
  | chat purpose request =>
    cases purpose with
    | step =>
      obtain rfl : st = .live true := ho
      refine ⟨⟨p, dead, _, rfl⟩, ?_⟩
      rintro (e | r) l' rfl
      · exact ⟨_, rfl, notes_of_goes dead rfl rfl⟩
      · exact ⟨_, rfl, notes_of_goes dead (by simp [Point.after, handOf, countOf, Except.toBool]) rfl⟩
    | summarize metered =>
      cases metered with
      | true =>
        obtain rfl : st = .lent := ho
        refine ⟨⟨p, dead, _, rfl⟩, ?_⟩
        rintro (e | r) l' rfl
        · exact ⟨_, rfl, notes_of_goes dead rfl rfl⟩
        · exact ⟨_, rfl, notes_of_goes dead (by simp [Point.after, handOf, countOf, Except.toBool]) rfl⟩
      | false =>
        refine ⟨ho.2, ?_⟩
        rintro b l' rfl
        exact ⟨_, rfl, hl⟩
  | acquire =>
    obtain rfl : st = .live true := ho
    refine ⟨⟨p, true, 1, dead, _, rfl⟩, ?_⟩
    rintro (_ | _) l' rfl
    · exact ⟨_, rfl, notes_of_goes dead rfl rfl⟩
    · exact ⟨_, rfl, notes_of_goes dead (by simp [Point.after, handOf, countOf]) rfl⟩
  | refund =>
    obtain rfl : st = .lent := ho
    refine ⟨⟨p, true, 1, dead, _, rfl⟩, ?_⟩
    rintro b l' rfl
    exact ⟨_, rfl, notes_of_goes dead (by simp [Point.after, handOf, countOf]) rfl⟩
  | now | swapOut q pages | runPython code timeout priority =>
    refine ⟨trivial, ?_⟩
    rintro b l' rfl
    exact ⟨_, rfl, hl⟩
  | _ => exact ho.elim

/-- **One step**, whatever the agent, its client and its sandbox do. -/
lemma obeys_runStep {cfg : KernelConfig} (hm : rules.Fits cfg.pager.policies) :
    (runStep cfg p).Obeys (discipline rules) (.holding p true 1 false dead calls)
      (StepEnds p calls) := by
  have hstart : Notes p calls .start (.holding p true 1 false dead calls) :=
    ⟨dead, by simp [handOf, countOf], nofun⟩
  refine ((course_runStep hm.free).simulate obeys_course hstart).mono ?_
  rintro answer l ⟨st, hends, dead', rfl, hdead⟩
  rcases answer with e | _ | _
  · rcases hends with rfl | rfl
    · exact ⟨dead', .inl (by simp [handOf, countOf]), nofun⟩
    · exact ⟨dead', .inr (by simp [handOf, countOf]), nofun⟩
  · obtain ⟨called, rfl⟩ := hends
    cases called with
    | false => exact ⟨dead', .inl (by simp [handOf, countOf]), fun _ => hdead rfl⟩
    | true => exact ⟨dead', .inr (by simp [handOf, countOf]), fun _ => hdead rfl⟩
  · obtain rfl : st = .met := hends
    exact ⟨dead', .inr (by simp [handOf, countOf]), nofun⟩

/-! ### One dispatch -/

/-- A step that was run: no unit is left in hand, and an agent that is not to be run
again is terminal. -/
def Ran (p : Pid) (keepGoing : Bool) (l : Note) : Prop :=
  ∃ dead calls, l = .holding p false 0 false dead calls ∧ (keepGoing = false → dead = true)

/-- The agent is out of the worker's hands: it was put back or is terminal. -/
def Off (p : Pid) (l : Note) : Prop :=
  l = .released ∨ ∃ calls, l = .holding p false 0 false true calls

lemma obeys_settle {answer : Except Exn Bool} {l : Note} (h : StepEnds p calls answer l) :
    (settle p answer).Obeys (discipline rules) l
      fun keepGoing l' => StepEnds p calls (.ok keepGoing) l' := by
  obtain ⟨dead', hl, hdead⟩ := h
  cases answer with
  | ok keepGoing => exact ⟨dead', hl, hdead⟩
  | error e =>
    rcases hl with rfl | rfl
    · refine (obeys_failWith rfl _).bind _ ?_
      rintro - l rfl
      exact stepEnds_uncalled _
    · refine (obeys_failWith rfl _).bind _ ?_
      rintro - l rfl
      exact stepEnds_called _

lemma obeys_runHoldingUnit {cfg : KernelConfig} (hm : rules.Fits cfg.pager.policies) :
    (runHoldingUnit cfg p).Obeys (discipline rules) (.holding p false 1 false dead calls)
      fun status l => ∃ keepGoing, status = .ran keepGoing ∧ Ran p keepGoing l := by
  refine obeys_read fun before hbefore => ?_
  refine Prog.Obeys.step ⟨1, _, calls, rfl⟩ ?_
  rintro - l rfl
  refine (obeys_runStep hm).bind _ ?_
  intro answer l hl
  refine (obeys_settle hl).bind _ ?_
  rintro keepGoing l ⟨dead', hl, hdead⟩
  -- the unit is refunded exactly when it was not used up
  rcases hl with rfl | rfl
  · refine Prog.Obeys.step ⟨p, 1, dead', calls, rfl⟩ ?_
    rintro - l rfl
    refine obeys_read fun pcb hpcb => ?_
    rw [if_pos (hpcb.trans hbefore.symm)]
    refine Prog.Obeys.step ⟨p, false, 0, _, calls, rfl⟩ ?_
    rintro - l rfl
    exact ⟨keepGoing, rfl, _, _, rfl, fun h => by simp [hdead (by rw [h])]⟩
  · refine Prog.Obeys.step ⟨p, 0, dead', calls + 1, rfl⟩ ?_
    rintro - l rfl
    refine obeys_read fun pcb hpcb => ?_
    rw [if_neg (by omega)]
    exact ⟨keepGoing, rfl, _, _, rfl, fun h => by simp [hdead (by rw [h])]⟩

/-- What `_run_one_step` leaves, by its answer. -/
def StatusEnds (p : Pid) : StepStatus → Note → Prop
  | .ran keepGoing, l => Ran p keepGoing l
  | .blocked, l | .stopped, l => Off p l

lemma obeys_runOneStep {cfg : KernelConfig} (hm : rules.Fits cfg.pager.policies) :
    (runOneStep cfg p).Obeys (discipline rules) (.holding p false 0 false dead calls)
      (StatusEnds p) := by
  have hrun : ∀ dead', (runHoldingUnit cfg p).Obeys (discipline rules)
      (.holding p false 1 false dead' calls) (StatusEnds p) := by
    intro dead'
    refine (obeys_runHoldingUnit hm).mono ?_
    rintro status l ⟨keepGoing, rfl, hl⟩
    exact hl
  refine Prog.Obeys.step ⟨p, false, 0, dead, calls, rfl⟩ ?_
  rintro got l rfl
  cases got with
  | true => exact hrun dead
  | false =>
    -- no unit at once: the agent is blocked while the worker waits for one
    refine obeys_transition (Prog.Obeys.step ⟨p, false, 0, _, calls, rfl⟩ ?_)
    rintro got l rfl
    refine Prog.Obeys.step trivial ?_
    rintro stop l ⟨-, rfl⟩
    cases stop with
    | true =>
      -- a unit that the wait has brought is handed back
      cases got with
      | true =>
        refine Prog.Obeys.step ⟨p, false, 0, _, calls, rfl⟩ ?_
        rintro - l rfl
        exact obeys_put (.inl rfl) (.inr ⟨calls, rfl⟩)
      | false => exact obeys_put (.inl rfl) (.inr ⟨calls, rfl⟩)
    | false =>
      cases got with
      | true => exact hrun _
      | false => exact obeys_put (.inl rfl) (.inr ⟨calls, rfl⟩)

/-- What the step loop leaves, by its answer. -/
def LoopEnds (rules : Rules) (p : Pid) : Option Bool → Note → Prop
  | none, l => Off p l
  | some keepGoing, l =>
    ∃ dead calls, l = .holding p false 0 false dead calls ∧
      (rules.lossless = true → keepGoing = false → dead = true)

/-- The step loop.  Only the first reading of the stop flag can end it with an agent that
was not run, and then the rules about losing agents say that it is terminal. -/
lemma obeys_stepLoop {cfg : KernelConfig} (hm : rules.Fits cfg.pager.policies) (limit : ℕ)
    (site : StopSite) (keepGoing : Bool) (hfirst : site = .firstStep → 0 < limit)
    (hlater : site ≠ .firstStep → keepGoing = true) :
    (stepLoop cfg p limit site keepGoing).Obeys (discipline rules)
      (.holding p false 0 false dead calls) (LoopEnds rules p) := by
  induction limit generalizing site keepGoing dead calls with
  -- by induction on the steps that are left in the quantum
  | zero =>
    refine ⟨dead, calls, rfl, fun _ hk => ?_⟩
    rw [hlater fun h => absurd (hfirst h) (lt_irrefl 0)] at hk
    cases hk
  | succ limit ih =>
    refine Prog.Obeys.step trivial ?_
    rintro stop l ⟨-, rfl⟩
    cases stop with
    | true =>
      refine ⟨_, calls, rfl, fun hloss hk => ?_⟩
      by_cases hsite : site = .firstStep
      -- at the first step the rules about losing agents say that the agent is terminal;
      -- later on the last step has said to go on
      · simp [hloss, hsite]
      · rw [hlater hsite] at hk
        cases hk
    | false =>
      refine (obeys_runOneStep hm).bind _ ?_
      intro status l hl
      cases status with
      | blocked => exact hl
      | stopped => exact hl
      | ran keepGoing =>
        obtain ⟨dead', calls', rfl, hdead⟩ := hl
        refine obeys_read fun pcb _ => ?_
        split
        · exact ⟨_, calls', rfl, fun _ hk => by simp [hdead hk]⟩
        · next hgo =>
          refine ih .laterStep keepGoing (by simp) fun _ => ?_
          simp only [Bool.or_eq_true, Bool.not_eq_true', not_or, Bool.not_eq_false] at hgo
          exact hgo.2

lemma obeys_mails {α : Type} {prog : Prog KOp α} (h : prog.Only Mails) {l : Note} :
    prog.Obeys (discipline rules) l fun _ l' => l' = l := by
  refine h.obeys ?_ rfl
  rintro β o _ ho rfl
  cases o with
  | now | mailbox q | mailboxGet box | mailboxPut box m => exact ⟨trivial, fun _ _ hl => hl⟩
  | _ => exact ho.elim

lemma obeys_forwardResult (cfg : KernelConfig) :
    (forwardResult cfg p).Obeys (discipline rules) (.holding p false 0 false dead calls)
      fun _ l => ∃ dead', l = .holding p false 0 false dead' calls ∧
        (dead = true → dead' = true) := by
  refine obeys_read fun pcb _ => ?_
  split
  · exact ⟨_, rfl, fun h => by simp [h]⟩
  · split
    · refine Prog.Obeys.step trivial ?_
      rintro now l rfl
      refine (obeys_mails (only_send _ _)).bind _ ?_
      rintro ok l rfl
      exact ⟨_, rfl, fun h => by simp [h]⟩
    · exact ⟨_, rfl, fun h => by simp [h]⟩

/-- What a dispatch leaves: the agent was put back, or may be dropped. -/
def DispatchEnds (rules : Rules) (p : Pid) (l : Note) : Prop :=
  l = .released ∨ ∃ dead calls, l = .holding p false 0 false dead calls ∧
    (rules.lossless = true → dead = true)

lemma Off.dispatchEnds {l : Note} (h : Off p l) : DispatchEnds rules p l :=
  h.imp_right fun ⟨calls, hl⟩ => ⟨true, calls, hl, fun _ => rfl⟩

lemma one_le_stepLimit (sched : Scheduler) : 0 < stepLimit sched := by
  unfold stepLimit
  split
  · decide
  · omega

lemma obeys_runQuantum {cfg : KernelConfig} (hm : rules.Fits cfg.pager.policies) :
    (runQuantum cfg p).Obeys (discipline rules) (.holding p false 0 false dead calls)
      fun _ l => DispatchEnds rules p l := by
  refine (obeys_stepLoop hm _ .firstStep false (fun _ => one_le_stepLimit _) (by simp)).bind _ ?_
  intro answer l hl
  cases answer with
  | none => exact Off.dispatchEnds hl
  | some keepGoing =>
    obtain ⟨dead', calls', rfl, hdead⟩ := hl
    refine (obeys_forwardResult cfg).bind _ ?_
    rintro - l ⟨dead'', rfl, hmono⟩
    refine obeys_read fun pcb _ => ?_
    split
    · exact obeys_put (.inl rfl) (.inr ⟨true, calls', rfl, fun _ => rfl⟩)
    · next hstop =>
      -- not put back: either the loop has ended it, or it is terminal by now
      refine .inr ⟨_, calls', rfl, fun hloss => ?_⟩
      cases keepGoing with
      | false => simp [hmono (hdead hloss rfl)]
      | true =>
        have hterm : pcb.isTerminal = true := by simpa using hstop
        simp [hterm]

lemma obeys_reparkWaiting (cfg : KernelConfig) :
    (reparkWaiting cfg p).Obeys (discipline rules) (.holding p false 0 false dead calls)
      fun _ l => DispatchEnds rules p l := by
  refine Prog.Obeys.step trivial ?_
  rintro now l rfl
  refine obeys_read fun pcb _ => obeys_plainWrite rfl ?_
  simp only
  split
  · refine (obeys_failWith rfl _).mono ?_
    rintro - l rfl
    exact .inr ⟨true, calls, rfl, fun _ => rfl⟩
  · exact obeys_transition (obeys_put (.inl rfl) (.inr ⟨true, calls, rfl, fun _ => rfl⟩))

/-- **One dispatch**, through every exit of the code. -/
lemma obeys_dispatch {cfg : KernelConfig} (hm : rules.Fits cfg.pager.policies) :
    (dispatch cfg p).Obeys (discipline rules) (.holding p false 0 false dead calls)
      fun _ l => DispatchEnds rules p l := by
  refine obeys_read fun pcb _ => ?_
  split
  · next hterm => exact .inr ⟨_, calls, rfl, fun _ => by simp [hterm]⟩
  · split
    · split
      · refine (obeys_failWith rfl _).mono ?_
        rintro - l rfl
        exact .inr ⟨true, calls, rfl, fun _ => rfl⟩
      · refine (obeys_mails only_recv).bind _ ?_
        rintro (_ | m) l rfl
        · exact obeys_reparkWaiting cfg
        · exact obeys_plainWrite rfl (obeys_plainWrite rfl (obeys_runQuantum hm))
    · exact obeys_runQuantum hm

/-- One turn of the loop of a worker. -/
lemma obeys_loopBody {cfg : KernelConfig} (hm : rules.Fits cfg.pager.policies) :
    (loopBody cfg).Obeys (discipline rules) .worker fun _ l => l = .worker := by
  refine Prog.Obeys.step trivial ?_
  rintro stop l ⟨-, rfl⟩
  split
  · rfl
  · refine Prog.Obeys.step trivial ?_
    rintro nonempty l rfl
    split
    · refine Prog.Obeys.step rfl ?_
      rintro (_ | p) l hl
      · exact hl
      · obtain ⟨calls, rfl⟩ := hl
        refine (obeys_dispatch hm).bind _ ?_
        intro _ l hl
        refine Prog.Obeys.step ?_ ?_
        · exact hl.imp_right fun ⟨dead, calls, hl, hdead⟩ => ⟨p, dead, calls, hl, hdead⟩
        · rintro - l rfl
          rfl
    · rfl

/-! ### The calls -/

/-- The notes between two calls. -/
def IsCaller (l : Note) : Prop := ∃ ps d, l = .caller ps d

/-- A caller that may have seen more agents in the table meanwhile. -/
def Looked (ps : List Pid) (d : Option Pid) (l : Note) : Prop :=
  ∃ ps', ps ⊆ ps' ∧ l = .caller ps' d

section

variable {ps : List Pid} {d : Option Pid}

lemma Looked.isCaller {l : Note} (h : Looked ps d l) : IsCaller l :=
  let ⟨ps', _, hl⟩ := h
  ⟨ps', d, hl⟩

lemma Looked.of_subset {ps' : List Pid} {l : Note} (hps : ps ⊆ ps') (h : Looked ps' d l) :
    Looked ps d l :=
  let ⟨ps'', hps', hl⟩ := h
  ⟨ps'', List.Subset.trans hps hps', hl⟩

lemma obeys_tableHas {α : Type} {Q : α → Note → Prop} {c : Pid} {k : Bool → Prog KOp α}
    (hk : ∀ b ps', ps ⊆ ps' → (b = true → c ∈ ps') →
      (k b).Obeys (discipline rules) (.caller ps' d) Q) :
    (Prog.perform (.tableHas c) >>= k).Obeys (discipline rules) (.caller ps d) Q := by
  refine Prog.Obeys.step trivial ?_
  rintro (_ | _) l rfl
  · exact hk false ps (List.Subset.refl ps) (by simp)
  · exact hk true (c :: ps) (List.subset_cons_self c ps) fun _ => List.mem_cons_self

lemma obeys_present (cs : List Pid) :
    (Kernel.present cs).Obeys (discipline rules) (.caller ps d) fun _ l => Looked ps d l := by
  induction cs generalizing ps with
  | nil => exact ⟨ps, List.Subset.refl ps, rfl⟩
  | cons c cs ih =>
    refine obeys_tableHas fun here ps' hps _ => ?_
    exact ih.bind _ fun _ _ => Looked.of_subset hps

lemma obeys_childrenOf (pid : Pid) :
    (Kernel.childrenOf pid).Obeys (discipline rules) (.caller ps d) fun _ l => Looked ps d l := by
  refine obeys_tableHas fun here ps' hps _ => ?_
  split
  · refine Prog.Obeys.step trivial ?_
    rintro parent l rfl
    exact (obeys_present _).mono fun _ _ => Looked.of_subset hps
  · exact ⟨ps', hps, rfl⟩

lemma obeys_descendantsLoop (fuel : ℕ) (stack out : List Pid) :
    (Kernel.descendantsLoop fuel stack out).Obeys (discipline rules) (.caller ps d)
      fun _ l => Looked ps d l := by
  induction fuel generalizing stack out ps with
  | zero => cases stack <;> exact ⟨ps, List.Subset.refl ps, rfl⟩
  | succ fuel ih =>
    cases stack with
    | nil => exact ⟨ps, List.Subset.refl ps, rfl⟩
    | cons cur stack =>
      refine (obeys_childrenOf cur).bind _ ?_
      rintro children l ⟨ps', hps, rfl⟩
      exact (ih _ _).mono fun _ _ => Looked.of_subset hps

lemma obeys_descendantsOf (fuel : ℕ) (pid : Pid) :
    (Kernel.descendantsOf fuel pid).Obeys (discipline rules) (.caller ps d)
      fun _ l => Looked ps d l := by
  refine (obeys_childrenOf pid).bind _ ?_
  rintro children l ⟨ps', hps, rfl⟩
  exact (obeys_descendantsLoop _ _ _).mono fun _ _ => Looked.of_subset hps

lemma obeys_reapAll {l : Note} (hl : IsCaller l) (root : Pid) (reason : String)
    (doomed : List Pid) :
    (Kernel.reapAll root reason doomed).Obeys (discipline rules) l fun _ l' => IsCaller l' := by
  induction doomed generalizing l with
  | nil => exact hl
  | cons child rest ih =>
    obtain ⟨ps, d, rfl⟩ := hl
    refine Prog.Obeys.step trivial ?_
    rintro pcb l rfl
    split
    · exact ih ⟨ps, d, rfl⟩
    · refine Prog.Obeys.step rfl ?_
      rintro - l rfl
      refine Prog.Obeys.step rfl ?_
      rintro - l rfl
      exact ih ⟨ps, _, rfl⟩

lemma obeys_dropMailboxes {l : Note} (pids : List Pid) :
    (Kernel.dropMailboxes pids).Obeys (discipline rules) l fun _ l' => l' = l := by
  induction pids with
  | nil => rfl
  | cons p rest ih =>
    refine Prog.Obeys.step trivial ?_
    rintro - l rfl
    exact ih

lemma obeys_linkParent (parentPid : Option Pid) :
    (Kernel.linkParent parentPid p).Obeys (discipline rules) (.spawning p)
      fun _ l => l = .spawning p := by
  cases parentPid with
  | none => rfl
  | some parent =>
    refine Prog.Obeys.step trivial ?_
    rintro here l rfl
    split
    · refine (Prog.obeys_perform _).2 ⟨rfl, ?_⟩
      rintro - l rfl
      rfl
    · rfl

lemma obeys_spawn (args : SpawnArgs) :
    (Kernel.spawn args).Obeys (discipline rules) (.caller ps d) fun _ l => IsCaller l := by
  refine Prog.Obeys.step ⟨ps, d, rfl⟩ ?_
  rintro pid l rfl
  refine Prog.Obeys.step rfl ?_
  rintro added l rfl
  cases added with
  | false => exact ⟨[], none, rfl⟩
  | true =>
    refine (obeys_linkParent _).bind _ ?_
    rintro - l rfl
    have hwait : (Prog.when (args.inputFrom.isSome = true)
        (.perform (.write pid (.transition .waiting)))).Obeys (discipline rules)
          (.spawning pid) fun _ l => l = .spawning pid := by
      refine Prog.obeys_when (fun _ => ?_) fun _ => rfl
      refine (Prog.obeys_perform _).2 ⟨rfl, ?_⟩
      rintro - l rfl
      rfl
    refine hwait.bind _ ?_
    rintro - l rfl
    refine Prog.Obeys.step (.inl rfl) ?_
    rintro ok l rfl
    exact ⟨[], none, rfl⟩

lemma obeys_kill (fuel : ℕ) (pid : Pid) :
    (Kernel.kill fuel pid).Obeys (discipline rules) (.caller ps d) fun _ l => IsCaller l := by
  refine obeys_tableHas fun here ps₁ _ hpid => ?_
  split
  · next hhere =>
    refine Prog.Obeys.step trivial ?_
    rintro pcb l rfl
    split
    · exact ⟨ps₁, d, rfl⟩
    · refine (obeys_descendantsOf fuel pid).bind _ ?_
      rintro (_ | victims) l ⟨ps₂, hps, rfl⟩
      · exact ⟨ps₂, d, rfl⟩
      · refine Prog.Obeys.step rfl ?_
        rintro - l rfl
        refine Prog.Obeys.step rfl ?_
        rintro - l rfl
        -- the agent that is taken out of the queue is known to be terminal
        refine Prog.Obeys.step ⟨ps₂, by rw [if_pos ⟨hps (hpid hhere), rfl⟩]⟩ ?_
        rintro popped l rfl
        refine (obeys_descendantsOf fuel pid).bind _ ?_
        rintro (_ | doomed) l hl
        · exact hl.isCaller
        · refine (obeys_reapAll hl.isCaller _ _ _).bind _ ?_
          intro _ l hl
          refine (obeys_dropMailboxes _).bind _ ?_
          rintro - l rfl
          exact hl
  · exact ⟨ps₁, d, rfl⟩

lemma obeys_reapFrom (pids : List Pid) :
    (Kernel.reapFrom pids).Obeys (discipline rules) (.caller ps d)
      fun _ l => l = .caller ps d := by
  induction pids with
  | nil => rfl
  | cons p rest ih =>
    refine Prog.Obeys.step trivial ?_
    rintro pcb l rfl
    split
    · refine Prog.Obeys.step ⟨ps, d, rfl⟩ ?_
      rintro - l rfl
      refine Prog.Obeys.step trivial ?_
      rintro - l rfl
      refine ih.bind _ ?_
      rintro reaped l rfl
      rfl
    · exact ih

/-- **The calls**, with a shutdown only where the rules admit one. -/
lemma obeys_code (c : KernelCall) (hc : rules.quiet = true → c ≠ .shutdown) :
    c.code.Obeys (discipline rules) (.caller ps d) fun _ l => IsCaller l := by
  cases c with
  | spawn args => exact (obeys_spawn args).bind _ fun _ _ h => h
  | kill fuel pid => exact (obeys_kill fuel pid).bind _ fun _ _ h => h
  | reapTerminal =>
    refine Prog.obeys_bind.2 (Prog.Obeys.step trivial ?_)
    rintro pids l rfl
    refine (obeys_reapFrom pids).mono ?_
    rintro reaped l rfl
    exact ⟨ps, d, rfl⟩
  | topup amount =>
    refine Prog.obeys_bind.2 ?_
    rw [Kernel.quotaTopup]
    split
    · exact ⟨ps, d, rfl⟩
    · refine Prog.Obeys.step ⟨rfl, by omega⟩ ?_
      rintro - l rfl
      exact ⟨ps, d, rfl⟩
  | shutdown =>
    have hquiet : rules.quiet = false := by
      cases h : rules.quiet with
      | true => exact absurd rfl (hc h)
      | false => rfl
    refine Prog.Obeys.step ⟨rfl, hquiet⟩ ?_
    rintro - l rfl
    refine Prog.Obeys.step trivial ?_
    rintro pids l rfl
    refine (obeys_dropMailboxes _).mono ?_
    rintro - l rfl
    exact ⟨ps, d, rfl⟩

end

end Gcos.Pool
