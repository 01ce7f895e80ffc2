import Gcos.Pool.Input
import Gcos.Pool.Dead

/-!
# First come, first served

With the FCFS scheduler a worker takes the oldest entry of the ready queue and stays with
it: the loop over the steps is left only when the agent has ended, when the quota refuses
a unit, or after `_NONPREEMPTIVE_STEP_CAP` steps.  An agent that is left for want of quota
goes to the end of the queue, and the others come before it.

The runs here are those of one worker in which nobody kills and nobody shuts down.
-/

namespace Gcos.Pool

open Lib World

/-- The agent whose step a thread is about to run. -/
def nextStep : Prog KOp Bool → Option Pid
  | .ret _ => none
  | .op o _ => o.starts

/-- The agent that a thread is about to put into the ready queue. -/
def nextPut : Prog KOp Bool → Option Pid
  | .ret _ => none
  | .op o _ => o.puts

/-- What somebody writes down who watches the worker. -/
structure Ledger where
  /-- The agents of which a step was run. -/
  began : List Pid := []
  /-- The steps of an agent since it was last put into the queue. -/
  streak : Pid → ℕ := fun _ => 0
  /-- The agents that were put back for want of quota. -/
  blocked : List Pid := []
  /-- The agents that were picked. -/
  picked : List Pid := []
  /-- The agents that were spawned to wait for input. -/
  wanting : List Pid := []

variable {n : ℕ}

/-- The observer of the worker. -/
def timekeeper : Observer KOp (Tid n) (World n) Ledger
  | _, _, .enterBusy p, _, _, g =>
    { g with began := p :: g.began, streak := Function.update g.streak p (g.streak p + 1) }
  | _, _, .put p, w, accepted, g =>
    if accepted = true then
      { g with
        streak := Function.update g.streak p 0
        blocked := if (w.pcbs p).state = .blocked then p :: g.blocked else g.blocked }
    else g
  | _, _, .pickNext, _, some p, g => { g with picked := p :: g.picked }
  | _, _, .newPcb args, _, p, g =>
    if args.inputFrom.isSome ∧ needsInput args.prompt then { g with wanting := p :: g.wanting }
    else g
  | _, _, _, _, _, g => g

/-- When a step is about to be run, every other agent of which a step was run has ended. -/
def NonPreemptive (pool : Lib.Pool KOp (Tid 1) (World 1)) (g : Ledger) : Prop :=
  ∀ b, nextStep (pool.code (.worker 0)) = some b → ∀ a ∈ g.began, a ≠ b →
    (pool.shared.pcbs a).isTerminal = true

/-- The first agent is sent back for want of quota after its first step, and the second
one runs before it has ended. -/
theorem blocked_agent_is_overtaken :
    ∃ as : List (Act (Tid 1) KernelCall), (∀ t c, Act.call t c ∈ as → calmCall c = true) ∧
      let sys := kernelSystem 1 { pager := {}, host := .inert }
        (.calm ⟨"TOOL: note x", 1, 1, 2⟩)
      ¬NonPreemptive (sys.run (boot 1 ⟨1, 1⟩) as)
        (sys.observed timekeeper (boot 1 ⟨1, 1⟩) {} as) := by
  refine ⟨Act.call (.client 0) (.spawn
      { prompt := "a", capability := some { CapabilitySet.defaultUser with multiStep := true } }) ::
    (steps 3 (.client 0) ++ Act.call (.client 0) (.spawn { prompt := "b" }) ::
      (steps 3 (.client 0) ++ steps 34 (.worker 0) ++ Act.call (.client 0) (.topup 5) ::
        (steps 1 (.client 0) ++ steps 9 (.worker 0)))), ?_, fun h => ?_⟩
  · intro t c hc
    simp [steps] at hc
    rcases hc with ⟨-, rfl⟩ | ⟨-, rfl⟩ | ⟨-, rfl⟩ <;> rfl
  · have hdead := h 2 (by decide +kernel) 1 (by decide +kernel) (by decide)
    revert hdead
    decide +kernel

/-! ### Staying with an agent -/

variable {cfg : KernelConfig} {out : Outside} {rules : Rules} {m : Manner} {w w' : World n}
  {ls : Tid n → Note} {ms : Tid n → Hold} {t : Tid n} {β : Type} {o : KOp β} {p : Pid}
  {g : Ledger} {l' : Hold}

/-- In a calm run nobody moves an agent that somebody else holds. -/
lemma state_exec_of_held (hI : Inv rules w ls) (hH : HoldInv w ms) (hcalm : m.calm = true)
    (hpre : (ms t).allows m o) {u : Tid n} {gr : Grip} (hu : ms u = .holding p gr) (hut : u ≠ t) :
    ((exec cfg out t o w).2.pcbs p).state = (w.pcbs p).state := by
  have hheld := (hH.held u p).2 ⟨gr, hu⟩
  have henq := (hI.owned.held u p hheld).1
  have hstep := pcb_exec cfg out t o (hI.owned.allocated p henq).2.ne
  generalize (exec cfg out t o w).2.pcbs p = b at hstep ⊢
  cases hstep with
  | write v =>
    cases hl : ms t with
    | idle | released =>
      rw [hl] at hpre
      exact hpre.elim
    | holding r gr' =>
      rw [hl] at hpre
      obtain ⟨rfl, -⟩ := hpre
      exact absurd (hI.owned.held_once u t r hheld ((hH.held t r).2 ⟨gr', hl⟩)) hut
    | client fresh =>
      rw [hl] at hpre
      cases v with
      | addChild child => rfl
      | error msg => rfl
      | transition st =>
        cases st with
        | waiting =>
          obtain rfl : fresh = some p := hpre
          exact absurd henq (hI.owned.fresh t p (hH.fresh t p hl)).1
        | zombie =>
          have hfalse : m.calm = false := hpre
          rw [hcalm] at hfalse
          cases hfalse
        | _ => exact hpre.elim
      | _ => exact hpre.elim
  | put _ =>
    rcases hpre with hl | ⟨gr', hl, -⟩
    · exact absurd henq (hI.owned.fresh t p (hH.fresh t p hl)).1
    · exact absurd (hI.owned.held_once u t p hheld ((hH.held t p).2 ⟨gr', hl⟩)) hut
  | same => rfl

/-- The steps of the agents, and what their holders know about them. -/
structure Streaks (w : World n) (g : Ledger) (ms : Tid n → Hold) : Prop where
  known : ∀ a, 0 < g.streak a → a ∈ w.enqueued
  /-- An agent that has begun a streak is held, unless it has ended. -/
  stays : ∀ a, 0 < g.streak a → (w.pcbs a).isTerminal = false → ∃ t gr, ms t = .holding a gr
  counted : ∀ t a gr, ms t = .holding a gr → gr.steps ≤ g.streak a
  anew : ∀ t a gr, ms t = .holding a gr → gr.steps = 0 →
    g.streak a = 0 ∨ (w.pcbs a).isTerminal = true
  halted : ∀ t a gr, ms t = .holding a gr → gr.blocked = true → (w.pcbs a).isTerminal = false →
    (w.pcbs a).state = .blocked

/-- Who is live after an operation was so before. -/
lemma live_of_exec (hp : Allocated w.nextPid p)
    (hlive : ((exec cfg out t o w).2.pcbs p).isTerminal = false) :
    (w.pcbs p).isTerminal = false := by
  by_contra hdead
  rw [isTerminal_exec (by simpa using hdead) hp] at hlive
  cases hlive

lemma steps_after {gr : Grip} {b : β} (ho : o.starts = none) : (gr.after o b).steps = gr.steps := by
  cases o with
  | enterBusy q => cases ho
  | write q v => cases v <;> rfl
  | _ => rfl

/-- A worker that believes its agent blocked is right, after its own operation too. -/
lemma halted_after (h : Streaks w g ms) (hpre : (ms t).allows m o) {gr : Grip}
    (hl : ms t = .holding p gr) (hput : o.releases = false) {b : β}
    (hblocked : (gr.after o b).blocked = true)
    (hlive : ((exec cfg out t o w).2.pcbs p).isTerminal = false)
    (hlive' : (w.pcbs p).isTerminal = false) :
    ((exec cfg out t o w).2.pcbs p).state = .blocked := by
  have hsame : gr.blocked = true → ((exec cfg out t o w).2.pcbs p).state = (w.pcbs p).state →
      ((exec cfg out t o w).2.pcbs p).state = .blocked :=
    fun hb hst => hst.trans (h.halted t p gr hl hb hlive')
  rw [hl] at hpre
  cases o with
  | write q v =>
    obtain ⟨rfl, -⟩ := hpre
    rw [pcb_write]
    cases v with
    | transition st =>
      obtain rfl : st = .blocked := by simpa [Grip.after, Grip.write] using hblocked
      exact AgentControlBlock.state_transition_of_live _ _ _ hlive'
    | _ => exact h.halted t p gr hl hblocked hlive'
  | newPcb args =>
    obtain ⟨_, hcl⟩ := hpre
    cases hcl
  | put q | taskDone => cases hput
  | _ => exact hsame hblocked (by rw [pcbs_exec rfl])

/-- An operation that neither begins a step nor changes hands. -/
lemma Streaks.frame (h : Streaks w g ms) (hI : Inv rules w ls) (hH : HoldInv w ms)
    (hcalm : m.calm = true) (hpre : (ms t).allows m o)
    (hlearn : (ms t).learns m o (exec cfg out t o w).1 l') (hstart : o.starts = none)
    (hput : o.releases = false) (hpick : o.picks = false) {g' : Ledger}
    (hg : g'.streak = g.streak) :
    Streaks (exec cfg out t o w).2 g' (Function.update ms t l') := by
  have halloc : ∀ u a gr, ms u = .holding a gr → Allocated w.nextPid a := by
    intro u a gr hu
    exact hI.owned.allocated a (hI.owned.held u a ((hH.held u a).2 ⟨gr, hu⟩)).1
  -- whoever holds an agent now held it before
  have hback : ∀ u a gr', Function.update ms t l' u = .holding a gr' → ∃ gr, ms u = .holding a gr ∧
      (u ≠ t ∧ gr' = gr ∨ u = t ∧ gr' = gr.after o (exec cfg out t o w).1) := by
    intro u a gr' hu
    refine (holding_after hlearn hu).resolve_left ?_
    rintro ⟨-, hp⟩
    rw [hpick] at hp
    cases hp
  refine ⟨fun a ha => ?_, fun a ha hlive => ?_, fun u a gr' hu => ?_, fun u a gr' hu hzero => ?_,
    fun u a gr' hu hblocked hlive => ?_⟩
  · rw [hg] at ha
    exact mem_enqueued_exec (h.known a ha)
  · rw [hg] at ha
    have hlive' := live_of_exec (hI.owned.allocated a (h.known a ha)) hlive
    obtain ⟨u, gr, hu⟩ := h.stays a ha hlive'
    by_cases hut : u = t
    · subst hut
      rw [hu] at hpre hlearn
      exact ⟨u, _, (Function.update_self ..).trans (Hold.holding_of_not_releases hpre hlearn hput)⟩
    · exact ⟨u, gr, by rwa [Function.update_of_ne hut]⟩
  · rw [hg]
    obtain ⟨gr, hgr, ⟨-, rfl⟩ | ⟨-, rfl⟩⟩ := hback u a gr' hu
    · exact h.counted u a gr' hgr
    · rw [steps_after hstart]
      exact h.counted u a gr hgr
  · rw [hg]
    obtain ⟨gr, hgr, hcase⟩ := hback u a gr' hu
    have hzero' : gr.steps = 0 := by
      rcases hcase with ⟨-, rfl⟩ | ⟨-, rfl⟩
      · exact hzero
      · rwa [steps_after hstart] at hzero
    refine (h.anew u a gr hgr hzero').imp id fun hdead => ?_
    exact isTerminal_exec hdead (halloc u a gr hgr)
  · obtain ⟨gr, hgr, ⟨hut, rfl⟩ | ⟨rfl, rfl⟩⟩ := hback u a gr' hu
    · rw [state_exec_of_held hI hH hcalm hpre hgr hut]
      exact h.halted u a gr' hgr hblocked (live_of_exec (halloc u a gr' hgr) hlive)
    · exact halted_after h hpre hgr hput hblocked hlive
        (live_of_exec (halloc u a gr hgr) hlive)

/-- The beginning of a step. -/
lemma Streaks.enterBusy (h : Streaks w g ms) (hI : Inv rules w ls) (hH : HoldInv w ms)
    (hpre : (ms t).allows m (.enterBusy p))
    (hlearn : (ms t).learns m (.enterBusy p) (exec cfg out t (.enterBusy p) w).1 l') :
    Streaks (exec cfg out t (.enterBusy p) w).2
      (timekeeper t (.enterBusy p) w (exec cfg out t (.enterBusy p) w).1 g)
      (Function.update ms t l') := by
  obtain ⟨gr₀, hl⟩ := hpre
  have hheld := (hH.held t p).2 ⟨gr₀, hl⟩
  have hl' : l' = .holding p { gr₀ with steps := gr₀.steps + 1 } := by
    rw [hl] at hlearn
    exact hlearn
  have hstreak : (timekeeper t (.enterBusy p) w (exec cfg out t (.enterBusy p) w).1 g).streak =
      Function.update g.streak p (g.streak p + 1) := rfl
  -- nobody else holds this agent
  have hother : ∀ u a gr, u ≠ t → ms u = .holding a gr → a ≠ p := by
    rintro u a gr hut hu rfl
    exact hut (hI.owned.held_once u t a ((hH.held u a).2 ⟨gr, hu⟩) hheld)
  rw [hl']
  refine ⟨fun a ha => ?_, fun a ha hlive => ?_, fun u a gr hu => ?_, fun u a gr hu hzero => ?_,
    fun u a gr hu hblocked hlive => ?_⟩
  · by_cases hap : a = p
    · rw [hap]
      exact (hI.owned.held t p hheld).1
    · rw [hstreak, Function.update_of_ne hap] at ha
      exact h.known a ha
  · by_cases hap : a = p
    · exact ⟨t, _, by rw [Function.update_self, hap]⟩
    · rw [hstreak, Function.update_of_ne hap] at ha
      obtain ⟨u, gr, hu⟩ := h.stays a ha hlive
      have hut : u ≠ t := by
        rintro rfl
        rw [hl] at hu
        cases hu
        exact hap rfl
      exact ⟨u, gr, by rwa [Function.update_of_ne hut]⟩
  · rw [hstreak]
    rcases update_eq_cases hu with ⟨rfl, hnow⟩ | ⟨hut, hu⟩
    · cases hnow
      rw [Function.update_self]
      exact Nat.succ_le_succ (h.counted u p gr₀ hl)
    · rw [Function.update_of_ne (hother u a gr hut hu)]
      exact h.counted u a gr hu
  · rw [hstreak]
    rcases update_eq_cases hu with ⟨rfl, hnow⟩ | ⟨hut, hu⟩
    · cases hnow
      cases hzero
    · rw [Function.update_of_ne (hother u a gr hut hu)]
      exact h.anew u a gr hu hzero
  · rcases update_eq_cases hu with ⟨rfl, hnow⟩ | ⟨-, hu⟩
    · cases hnow
      exact h.halted u p gr₀ hl hblocked hlive
    · exact h.halted u a gr hu hblocked hlive

/-- Picking an agent. -/
lemma Streaks.pickNext (h : Streaks w g ms) (hI : Inv rules w ls) (hH : HoldInv w ms)
    (hpre : (ms t).allows m .pickNext)
    (hlearn : (ms t).learns m .pickNext (exec cfg out t .pickNext w).1 l') :
    Streaks (exec cfg out t .pickNext w).2
      (timekeeper t .pickNext w (exec cfg out t .pickNext w).1 g) (Function.update ms t l') := by
  have hidle : ms t = .idle := hpre
  rcases Scheduler.pickNext_cases w.pcbs (out.clock w.ticks) w.queue cfg.scheduler with
    ⟨-, hnone⟩ | ⟨p, hp, hsome⟩
  · have hexec : exec cfg out t .pickNext w = (none, { w with ticks := w.ticks + 1 }) := by
      simp only [exec, hnone]
    rw [hexec] at hlearn ⊢
    obtain rfl : l' = ms t := hlearn
    rw [Function.update_eq_self]
    exact ⟨h.known, h.stays, h.counted, h.anew, h.halted⟩
  · have hexec : exec cfg out t .pickNext w = (some p,
        { w with
          queue := { q := w.queue.q.erase p, inFlight := w.queue.inFlight + 1 }
          ticks := w.ticks + 1 }.note t fun l => { l with held := some p, flying := true }) := by
      simp only [exec, hsome]
    rw [hexec] at hlearn ⊢
    obtain rfl : l' = .holding p {} := hlearn
    -- an agent in the queue is not in the middle of a streak
    have hfree : g.streak p = 0 ∨ (w.pcbs p).isTerminal = true := by
      by_contra hcon
      simp only [not_or, Bool.not_eq_true] at hcon
      obtain ⟨u, gr, hu⟩ := h.stays p (Nat.pos_of_ne_zero hcon.1) hcon.2
      exact (hI.owned.held u p ((hH.held u p).2 ⟨gr, hu⟩)).2 hp
    refine ⟨h.known, fun a ha hlive => ?_, fun u a gr hu => ?_, fun u a gr hu hzero => ?_,
      fun u a gr hu hblocked hlive => ?_⟩
    · obtain ⟨u, gr, hu⟩ := h.stays a ha hlive
      have hut : u ≠ t := by
        rintro rfl
        rw [hidle] at hu
        cases hu
      exact ⟨u, gr, by rwa [Function.update_of_ne hut]⟩
    · rcases update_eq_cases hu with ⟨rfl, hnow⟩ | ⟨-, hu⟩
      · cases hnow
        exact Nat.zero_le _
      · exact h.counted u a gr hu
    · rcases update_eq_cases hu with ⟨rfl, hnow⟩ | ⟨-, hu⟩
      · cases hnow
        exact hfree
      · exact h.anew u a gr hu hzero
    · rcases update_eq_cases hu with ⟨rfl, hnow⟩ | ⟨-, hu⟩
      · cases hnow
        cases hblocked
      · exact h.halted u a gr hu hblocked hlive

/-- The end of a dispatch: an agent that was not put back has ended. -/
lemma Streaks.taskDone (h : Streaks w g ms)
    (hended : ∀ a gr, ms t = .holding a gr → (w.pcbs a).isTerminal = true)
    (hlearn : (ms t).learns m .taskDone (exec cfg out t .taskDone w).1 l') :
    Streaks (exec cfg out t .taskDone w).2
      (timekeeper t .taskDone w (exec cfg out t .taskDone w).1 g) (Function.update ms t l') := by
  obtain rfl : l' = .idle := hlearn
  have hother : ∀ u a gr, Function.update ms t .idle u = .holding a gr → ms u = .holding a gr := by
    intro u a gr hu
    by_cases hut : u = t
    · subst hut
      rw [Function.update_self] at hu
      cases hu
    · rwa [Function.update_of_ne hut] at hu
  refine ⟨h.known, fun a ha hlive => ?_, fun u a gr hu => ?_, fun u a gr hu hzero => ?_,
    fun u a gr hu hblocked hlive => ?_⟩
  · obtain ⟨u, gr, hu⟩ := h.stays a ha hlive
    have hut : u ≠ t := by
      rintro rfl
      have hdead := hended a gr hu
      rw [show (w.pcbs a).isTerminal = false from hlive] at hdead
      cases hdead
    exact ⟨u, gr, by rwa [Function.update_of_ne hut]⟩
  · exact h.counted u a gr (hother u a gr hu)
  · exact h.anew u a gr (hother u a gr hu) hzero
  · exact h.halted u a gr (hother u a gr hu) hblocked hlive

/-- Putting an agent into the queue. -/
lemma Streaks.put (h : Streaks w g ms) (hI : Inv rules w ls) (hH : HoldInv w ms)
    (hpre : (ms t).allows m (.put p))
    (hlearn : (ms t).learns m (.put p) (exec cfg out t (.put p) w).1 l') :
    Streaks (exec cfg out t (.put p) w).2
      (timekeeper t (.put p) w (exec cfg out t (.put p) w).1 g) (Function.update ms t l') := by
  have hknown : ∀ a, 0 < g.streak a → a ∈ (exec cfg out t (.put p) w).2.enqueued :=
    fun a ha => mem_enqueued_exec (h.known a ha)
  rcases exec_put cfg out t w p with ⟨hdead, hb, hpcbs, -, -⟩ | ⟨hlive, hb, hpcbs, -, -⟩
  · -- a refused agent stays where it is
    have hg : timekeeper t (.put p) w (exec cfg out t (.put p) w).1 g = g := by
      simp [timekeeper, hb]
    rw [hg]
    have hms : ∀ u a gr, Function.update ms t l' u = .holding a gr ↔ ms u = .holding a gr := by
      intro u a gr
      by_cases hut : u = t
      · subst hut
        rw [Function.update_self]
        rcases hpre with hl | ⟨gr₀, hl, -⟩
        · rw [hl] at hlearn ⊢
          obtain rfl : l' = .client none := hlearn
          simp
        · rw [hl, hb] at hlearn
          rw [show l' = .holding p gr₀ from hlearn, hl]
      · rw [Function.update_of_ne hut]
    refine ⟨hknown, fun a ha hlive => ?_, fun u a gr hu => ?_, fun u a gr hu => ?_,
      fun u a gr hu => ?_⟩
    · rw [hpcbs] at hlive
      obtain ⟨u, gr, hu⟩ := h.stays a ha hlive
      exact ⟨u, gr, (hms u a gr).2 hu⟩
    · exact h.counted u a gr ((hms u a gr).1 hu)
    · rw [hpcbs]
      exact h.anew u a gr ((hms u a gr).1 hu)
    · rw [hpcbs]
      exact h.halted u a gr ((hms u a gr).1 hu)
  · -- the others hold other agents
    have hothers : ∀ u a gr, Function.update ms t l' u = .holding a gr →
        u ≠ t ∧ ms u = .holding a gr ∧ a ≠ p := by
      intro u a gr hu
      have hut : u ≠ t := by
        rintro rfl
        rw [Function.update_self] at hu
        rcases hpre with hl | ⟨gr₀, hl, -⟩
        · rw [hl] at hlearn
          rw [show l' = .client none from hlearn] at hu
          cases hu
        · rw [hl, hb] at hlearn
          rw [show l' = .released from hlearn] at hu
          cases hu
      rw [Function.update_of_ne hut] at hu
      refine ⟨hut, hu, ?_⟩
      rintro rfl
      have hheld := (hH.held u a).2 ⟨gr, hu⟩
      rcases hpre with hl | ⟨gr₀, hl, -⟩
      · exact (hI.owned.fresh t a (hH.fresh t a hl)).1 (hI.owned.held u a hheld).1
      · exact hut (hI.owned.held_once u t a hheld ((hH.held t a).2 ⟨gr₀, hl⟩))
    have hstreak : ∀ a ≠ p, (timekeeper t (.put p) w (exec cfg out t (.put p) w).1 g).streak a =
        g.streak a := by
      intro a ha
      simp only [timekeeper, hb, if_true]
      exact Function.update_of_ne ha _ _
    have hanew : (timekeeper t (.put p) w (exec cfg out t (.put p) w).1 g).streak p = 0 := by
      simp only [timekeeper, hb, if_true]
      exact Function.update_self ..
    have hne : ∀ a, 0 < (timekeeper t (.put p) w (exec cfg out t (.put p) w).1 g).streak a →
        a ≠ p := by
      rintro a ha rfl
      omega
    refine ⟨fun a ha => ?_, fun a ha hlive' => ?_, fun u a gr hu => ?_,
      fun u a gr hu hzero => ?_, fun u a gr hu hblocked hlive' => ?_⟩
    · rw [hstreak a (hne a ha)] at ha
      exact hknown a ha
    · have hap := hne a ha
      rw [hstreak a hap] at ha
      rw [hpcbs, Function.update_of_ne hap] at hlive'
      obtain ⟨u, gr, hu⟩ := h.stays a ha hlive'
      have hut : u ≠ t := by
        rintro rfl
        rcases hpre with hcl | ⟨gr₀, hl, -⟩
        · rw [hcl] at hu
          cases hu
        · rw [hl] at hu
          cases hu
          exact hap rfl
      exact ⟨u, gr, by rwa [Function.update_of_ne hut]⟩
    · obtain ⟨-, hu', hap⟩ := hothers u a gr hu
      rw [hstreak a hap]
      exact h.counted u a gr hu'
    · obtain ⟨-, hu', hap⟩ := hothers u a gr hu
      rw [hstreak a hap, hpcbs, Function.update_of_ne hap]
      exact h.anew u a gr hu' hzero
    · obtain ⟨-, hu', hap⟩ := hothers u a gr hu
      rw [hpcbs, Function.update_of_ne hap] at hlive' ⊢
      exact h.halted u a gr hu' hblocked hlive'

/-- No agent is lost, so one that is let go and not put back has ended. -/
lemma ended_of_taskDone (hI : Inv rules w ls) (hH : HoldInv w ms) (hloss : rules.lossless = true)
    {l : Note} (hI' : Inv rules (exec cfg out t .taskDone w).2 (Function.update ls t l)) {a : Pid}
    {gr : Grip} (hl : ms t = .holding a gr) : (w.pcbs a).isTerminal = true := by
  have hheld := (hH.held t a).2 ⟨gr, hl⟩
  obtain ⟨henq, hq⟩ := hI.owned.held t a hheld
  by_contra hdead
  have hlive : (w.pcbs a).isTerminal = false := by simpa using hdead
  rcases hI'.kept hloss a henq hlive with hmem | ⟨u, hu⟩
  · rw [entries_exec rfl] at hmem
    exact hq hmem
  · by_cases hut : u = t
    · subst hut
      simp [exec, note] at hu
    · rw [loc_exec_of_ne hut] at hu
      exact hut (hI.owned.held_once u t a hu hheld)

/-- The switches for a calm run under the FCFS scheduler. -/
def calmRules : Rules := { quiet := true, lossless := true }

/-- What the worker does in a calm run under the FCFS scheduler. -/
def calmManner : Manner := { calm := true, limit := nonpreemptiveStepCap }

/-- **The worker stays with an agent**, one operation at a time. -/
lemma upholds_streaks (cfg : KernelConfig) (out : Outside) :
    Upholds (n := n) cfg out calmRules calmManner timekeeper (fun w g _ ms => Streaks w g ms)
      System.noGuard := by
  intro β t o w g ls ms l l' hI hH h _ hpre _ _ hlearn hI' _
  cases o with
  | enterBusy p => exact h.enterBusy hI hH hpre hlearn
  | pickNext => exact h.pickNext hI hH hpre hlearn
  | taskDone => exact h.taskDone (fun a gr hl => ended_of_taskDone hI hH rfl hI' hl) hlearn
  | put p => exact h.put hI hH hpre hlearn
  | newPcb args =>
    refine h.frame hI hH rfl hpre hlearn rfl rfl rfl ?_
    simp only [timekeeper]
    split <;> rfl
  | _ => exact h.frame hI hH rfl hpre hlearn rfl rfl rfl rfl

end Gcos.Pool
