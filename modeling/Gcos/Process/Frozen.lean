import Gcos.Process.Signing
import Gcos.Kernel.Effects
import Gcos.Lib.Watch

/-!
# A finalized agent is frozen

Terminal states are absorbing for `transition`, but `result` and `error` are plain
attributes, and whoever has found an agent live some time ago goes on to assign them.  So
the texts of an agent that was killed can be overwritten by the worker that was in the
middle of a call, and those of an agent that was done by a kill that came late.

What goes wrong is the time between a test and an assignment: a thread is *late* when
another one has finalized its agent since its last test.  The texts are never overwritten
in the runs in which nobody assigns when late.  Everything else is the code's own
discipline: after a test that shows the end, and after having finalized the agent itself,
a thread assigns nothing.
-/

namespace Gcos.Process

open Lib Pool World

variable {n : ℕ}

/-- How far the finalization of an agent has come. -/
inductive Fate (n : ℕ)
  | alive
  /-- Thread `t` has moved it to a terminal state and has still to record the error. -/
  | closing (t : Tid n)
  /-- It is in a terminal state, and the thread that moved it there has recorded the texts. -/
  | final
deriving DecidableEq, Repr

/-- What a stroke of thread `t` leads to, which stands as `stand` says. -/
def Fate.stroke (t : Tid n) (stand : Stand) (terminal : Bool) (fate : Fate n) : Stroke → Fate n
  | .error => if fate = .closing t then .final else fate
  | .result => fate
  | .finish =>
    if terminal then fate
    else match stand with
      | .drafting _ => .final
      | _ => .closing t
  | .state st => if st.isTerminal then if terminal then fate else .final else .alive

/-- What an observer of the finalizations remembers. -/
structure Inquest (n : ℕ) where
  /-- How far the threads are with their agents. -/
  stand : Tid n → Stand := fun _ => .idle
  /-- The threads whose agent somebody else has finalized since their last test. -/
  late : Tid n → Bool := fun _ => false
  fate : Pid → Fate n := fun _ => .alive

/-- The observer of the finalizations. -/
def coroner : Observer FOp (Tid n) (Fleet n) (Inquest n) := fun t o f b g =>
  match Process.stroke o with
  | none =>
    { g with
      stand := Function.update g.stand t ((g.stand t).after o b)
      late := if (shown o b).isSome then Function.update g.late t false else g.late }
  | some (p, s) =>
    let stand := Function.update g.stand t ((g.stand t).signed p s)
    let fate := (g.fate p).stroke t (g.stand t) (f.world.pcbs p).isTerminal s
    { stand := stand
      late := fun u => g.late u || (fate = .final && (stand u).agent = some p)
      fate := Function.update g.fate p fate }

/-- What has been finalized does not change any more. -/
def Frozen (sys : System FOp (Tid n) (Fleet n) FleetCall) (start : Lib.Pool FOp (Tid n) (Fleet n))
    (as bs : List (Act (Tid n) FleetCall)) (p : Pid) : Prop :=
  (sys.observed coroner start {} as).fate p = .final →
    let before := (sys.run start as).shared.world.pcbs p
    let now := (sys.run (sys.run start as) bs).shared.world.pcbs p
    now.result = before.result ∧ now.error = before.error

/-- The stroke changes a finalized agent.  A transition to a terminal state does not. -/
def Stroke.alters : Stroke → Bool
  | .error | .result => true
  | .finish => false
  | .state st => !st.isTerminal

/-- Nobody assigns an agent that somebody else has finalized since the last test. -/
def InTime : System.Guard FOp (Tid n) (Fleet n × Inquest n) := fun t o s =>
  match Process.stroke o with
  | none => True
  | some (_, x) => x.alters = true → s.2.late t = false

/-- The agent is killed while its worker waits for a reply, and the call runs into its
timeout: the worker overwrites the error of the kill. -/
theorem killed_agent_gets_another_error :
    ∃ as bs : List (Act (Tid 1) FleetCall),
      let out : Outside :=
        { Outside.calm ⟨"hi", 1, 1, 2⟩ with chat := fun _ => .error (.timeout "timed out") }
      let sys := fleetSystem 1 .thread { pager := {}, host := .inert } out fun _ => ⟨none, out⟩
      ¬Frozen sys (launchFleet 1 ⟨5, 5⟩) as bs 1 := by
  refine ⟨Act.call (.client 0) (.kernel (.spawn { prompt := "hello" })) ::
    (List.replicate 3 (.step (.client 0)) ++ List.replicate 13 (.step (.worker 0)) ++
      Act.call (.client 0) (.kernel (.kill 9 1)) :: List.replicate 6 (.step (.client 0))),
    List.replicate 8 (.step (.worker 0)), fun h => ?_⟩
  have herror := (h (by decide +kernel)).2
  revert herror
  decide +kernel

/-! ### What an operation does to the texts -/

variable {cfg : KernelConfig} {out : Outside} {kids : ℕ → Offspring} {t : Tid n} {β : Type}
  {o : FOp β} {f : Fleet n} {p : Pid}

/-- The same end and the same texts. -/
structure SameEnd (pcb pcb' : AgentControlBlock) : Prop where
  terminal : pcb'.isTerminal = pcb.isTerminal
  result : pcb'.result = pcb.result
  error : pcb'.error = pcb.error

lemma SameEnd.refl (pcb : AgentControlBlock) : SameEnd pcb pcb := ⟨rfl, rfl, rfl⟩

/-- A transition that is no stroke. -/
lemma sameEnd_transition (pcb : AgentControlBlock) {st : AgentState} (hst : st.isTerminal = false)
    (now : Time) : SameEnd pcb (pcb.transition st now) := by
  refine ⟨?_, ?_, ?_⟩
  · rw [AgentControlBlock.isTerminal_transition, hst, Bool.or_false]
  · rw [AgentControlBlock.transition_frame]
  · rw [AgentControlBlock.transition_frame]

lemma sameEnd_write (pcb : AgentControlBlock) {c : Write} (hc : writeStroke c = none)
    (clock : ℕ → Time) : SameEnd pcb (c.apply clock pcb) := by
  cases c with
  | transition st =>
    refine sameEnd_transition pcb ?_ _
    simpa [writeStroke] using hc
  | error msg | result text => cases hc
  | _ => exact ⟨rfl, rfl, rfl⟩

/-- The handing out of pids. -/
lemma nextPid_le (cfg : KernelConfig) (out : Outside) (kids : ℕ → Offspring) (t : Tid n)
    (o : FOp β) (f : Fleet n) :
    f.world.nextPid ≤ (Fleet.exec cfg out kids t o f).2.world.nextPid := by
  rcases o with (o | o) | o
  · exact nextPid_le_exec
  · cases o <;> exact le_rfl
  · cases o <;> exact le_rfl

lemma allocated_fleet (hp : Allocated f.world.nextPid p) :
    Allocated (Fleet.exec cfg out kids t o f).2.world.nextPid p :=
  ⟨hp.1, hp.2.trans_le (by exact_mod_cast nextPid_le cfg out kids t o f)⟩

/-- An operation that is no stroke finalizes nobody and writes no texts. -/
lemma sameEnd_exec (ho : Process.stroke o = none) (hp : Allocated f.world.nextPid p) :
    SameEnd (f.world.pcbs p) ((Fleet.exec cfg out kids t o f).2.world.pcbs p) := by
  rcases o with (o | o) | o
  · show SameEnd _ ((World.exec cfg out t o f.world).2.pcbs p)
    have hstep := pcb_exec cfg out t o hp.2.ne
    generalize (World.exec cfg out t o f.world).2.pcbs p = b at hstep ⊢
    cases hstep with
    | write c =>
      refine sameEnd_write _ ?_ _
      simpa [Process.stroke, kernelStroke] using ho
    | put _ => exact sameEnd_transition _ rfl _
    | same => exact .refl _
  · cases o with
    | assign q a =>
      show SameEnd _ (Function.update f.world.pcbs q (a.apply (f.world.pcbs q)) p)
      by_cases hq : p = q
      · subst hq
        rw [Function.update_self]
        cases a with
        | state st => cases ho
        | _ => exact ⟨rfl, rfl, rfl⟩
      · rw [Function.update_of_ne hq]
        exact .refl _
    | _ => exact .refl _
  · cases o <;> exact .refl _

/-- A stroke touches one agent only. -/
lemma pcbs_stroke_of_ne {q : Pid} {s : Stroke} (ho : Process.stroke o = some (q, s)) (hq : p ≠ q) :
    (Fleet.exec cfg out kids t o f).2.world.pcbs p = f.world.pcbs p := by
  rcases o with (o | o) | o
  · show (World.exec cfg out t o f.world).2.pcbs p = _
    cases o with
    | write r c =>
      rw [(exec_write cfg out t f.world r c).1]
      obtain rfl : r = q := by
        simp only [Process.stroke, kernelStroke, Option.map_eq_some_iff, Prod.mk.injEq] at ho
        obtain ⟨_, -, h, -⟩ := ho
        exact h
      exact Function.update_of_ne hq _ _
    | _ => cases ho
  · cases o with
    | assign r a =>
      cases a with
      | state st =>
        cases ho
        exact Function.update_of_ne hq _ _
      | _ => cases ho
    | _ => cases ho
  · cases o <;> cases ho

/-- What a stroke does to the state of the agent. -/
lemma isTerminal_stroke {s : Stroke} (ho : Process.stroke o = some (p, s)) :
    ((Fleet.exec cfg out kids t o f).2.world.pcbs p).isTerminal =
      match s with
      | .error | .result => (f.world.pcbs p).isTerminal
      | .finish => true
      | .state st => st.isTerminal := by
  rcases o with (o | o) | o
  · show ((World.exec cfg out t o f.world).2.pcbs p).isTerminal = _
    cases o with
    | write r c =>
      rw [(exec_write cfg out t f.world r c).1]
      simp only [Process.stroke, kernelStroke, Option.map_eq_some_iff, Prod.mk.injEq] at ho
      obtain ⟨s', hs, rfl, rfl⟩ := ho
      rw [Function.update_self]
      cases c with
      | error msg | result text =>
        cases hs
        rfl
      | transition st =>
        simp only [writeStroke] at hs
        split at hs
        · next hst =>
          cases hs
          rw [Write.apply, AgentControlBlock.isTerminal_transition, hst, Bool.or_true]
        · cases hs
      | _ => cases hs
    | _ => cases ho
  · cases o with
    | assign r a =>
      cases a with
      | state st =>
        cases ho
        show (Function.update f.world.pcbs p _ p).isTerminal = _
        rw [Function.update_self]
        rfl
      | _ => cases ho
    | _ => cases ho
  · cases o <;> cases ho

/-! ### The agents that exist -/

variable {ls : Tid n → Pen}

/-- Only agents that exist are in the queue, in the table, and known to a thread. -/
structure Census (f : Fleet n) (ls : Tid n → Pen) : Prop where
  positive : 1 ≤ f.world.nextPid
  queue : ∀ p ∈ f.world.queue.q, Allocated f.world.nextPid p
  table : ∀ p ∈ f.world.table, Allocated f.world.nextPid p
  known : ∀ t, ∀ p ∈ (ls t).known, Allocated f.world.nextPid p

/-- What an answer shows to exist does exist. -/
lemma Census.found (h : Census f ls) (hp : p ∈ Process.found o (Fleet.exec cfg out kids t o f).1) :
    Allocated (Fleet.exec cfg out kids t o f).2.world.nextPid p := by
  rcases o with (o | o) | o
  · cases o with
    | pickNext =>
      refine allocated_fleet ?_
      rcases Scheduler.pickNext_cases f.world.pcbs (out.clock f.world.ticks) f.world.queue
        cfg.scheduler with ⟨-, hnone⟩ | ⟨q, hq, hsome⟩
      · simp [Process.found, Fleet.exec, Process.exec, World.exec, hnone] at hp
      · have hpq : p = q := by
          simpa [Process.found, Fleet.exec, Process.exec, World.exec, hsome] using hp
        exact hpq ▸ h.queue q hq
    | newPcb args =>
      have hnew : p = (f.world.nextPid : ℤ) := by
        simpa [Process.found, Fleet.exec, Process.exec, World.exec] using hp
      have hpos := h.positive
      refine ⟨?_, ?_⟩
      · rw [hnew]
        exact_mod_cast hpos
      · rw [hnew]
        show (f.world.nextPid : ℤ) < ((f.world.nextPid + 1 : ℕ) : ℤ)
        omega
    | tableHas q =>
      refine allocated_fleet ?_
      by_cases hq : q ∈ f.world.table
      · have hpq : p = q := by
          simpa [Process.found, Fleet.exec, Process.exec, World.exec, hq] using hp
        exact hpq ▸ h.table q hq
      · simp [Process.found, Fleet.exec, Process.exec, World.exec, hq] at hp
    | _ => simp [Process.found] at hp
  · simp [Process.found] at hp
  · simp [Process.found] at hp

lemma mem_table_exec {o : KOp β} {w : World n} (hp : p ∈ (World.exec cfg out t o w).2.table) :
    p ∈ w.table ∨ enters (.inl (.inl o)) = some p := by
  cases o with
  | tableAdd q =>
    simp only [World.exec] at hp
    split at hp
    · exact .inl hp
    · rcases List.mem_append.1 hp with hp | hp
      · exact .inl hp
      · exact .inr (by rw [List.mem_singleton.1 hp]; rfl)
  | tableRemove q => exact .inl (List.mem_of_mem_erase hp)
  | _ => exact .inl (by rwa [table_exec rfl] at hp)

/-- Every operation that the discipline allows keeps the census. -/
lemma Census.step (h : Census f ls) (hpre : (ls t).allows o) :
    Census (Fleet.exec cfg out kids t o f).2
      (Function.update ls t ((ls t).after o (Fleet.exec cfg out kids t o f).1)) where
  positive := h.positive.trans (nextPid_le cfg out kids t o f)
  queue := by
    intro p hp
    refine allocated_fleet ?_
    rcases o with (o | o) | o
    · rcases mem_entries_exec (show p ∈ (World.exec cfg out t o f.world).2.queue.q from hp) with
        hp | ⟨hput, -⟩
      · exact h.queue p hp
      · refine h.known t p (hpre.1 p ?_)
        cases o <;> cases hput
        rfl
    · cases o <;> exact h.queue p hp
    · cases o <;> exact h.queue p hp
  table := by
    intro p hp
    refine allocated_fleet ?_
    rcases o with (o | o) | o
    · rcases mem_table_exec (show p ∈ (World.exec cfg out t o f.world).2.table from hp) with
        hp | henters
      · exact h.table p hp
      · exact h.known t p (hpre.1 p henters)
    · cases o <;> exact h.table p hp
    · cases o <;> exact h.table p hp
  known := by
    intro u p hp
    by_cases hu : u = t
    · subst hu
      rw [Function.update_self] at hp
      rcases List.mem_append.1 hp with hp | hp
      · exact h.found hp
      · exact allocated_fleet (h.known u p hp)
    · rw [Function.update_of_ne hu] at hp
      exact allocated_fleet (h.known u p hp)

/-! ### Finalizing -/

variable {g : Inquest n}

/-- What has become of the agents, and where the threads stand with them. -/
structure Settling (f : Fleet n) (g : Inquest n) (ls : Tid n → Pen) : Prop where
  census : Census f ls
  stand : ∀ t, g.stand t = (ls t).stand
  /-- A thread is late with its agent when the agent is finalized. -/
  late : ∀ t p, (ls t).stand.agent = some p → (g.late t = true ↔ g.fate p = .final)
  closing : ∀ t p, g.fate p = .closing t →
    (ls t).stand = .sealed p ∧ Allocated f.world.nextPid p ∧ (f.world.pcbs p).isTerminal = true
  final : ∀ p, g.fate p = .final → Allocated f.world.nextPid p ∧ (f.world.pcbs p).isTerminal = true

/-- An agent that a test shows to be live is live. -/
lemma live_of_shown (h : shown o (Fleet.exec cfg out kids t o f).1 = some (p, false)) :
    (f.world.pcbs p).isTerminal = false := by
  rcases o with (o | o) | o
  · cases o with
    | readPcb q look =>
      obtain ⟨ended, hverdict, hpair⟩ := Option.map_eq_some_iff.1 h
      cases hpair
      cases look with
      | fields => cases hverdict
      | terminal => exact Option.some.inj hverdict
      | zombie =>
        simp only [verdict] at hverdict
        split at hverdict <;> cases hverdict
    | _ => cases h
  · cases h
  · cases h

/-- Somebody who has just tested an agent is not late with it. -/
lemma Settling.late_quiet (h : Settling f g ls) (ho : Process.stroke o = none)
    (hstand : ((ls t).stand.after o (Fleet.exec cfg out kids t o f).1).agent = some p) :
    (coroner t o f (Fleet.exec cfg out kids t o f).1 g).late t = true ↔ g.fate p = .final := by
  simp only [Stand.after, ho] at hstand
  simp only [coroner, ho]
  cases hshown : shown o (Fleet.exec cfg out kids t o f).1 with
  | none =>
    rw [hshown] at hstand
    exact h.late t p hstand
  | some answer =>
    obtain ⟨q, ended⟩ := answer
    rw [hshown] at hstand
    cases ended with
    | true => cases hstand
    | false =>
      obtain rfl : q = p := Option.some.inj hstand
      have hlive : (f.world.pcbs q).isTerminal = false := live_of_shown hshown
      rw [Option.isSome_some, if_pos rfl, Function.update_self]
      refine ⟨fun hlate => absurd hlate Bool.false_ne_true, fun hfinal => ?_⟩
      rw [(h.final q hfinal).2] at hlive
      cases hlive

/-- A thread that has still to record an error makes no test. -/
lemma stand_of_sealed {l : Pen} {b : β} (ho : Process.stroke o = none) (hpre : l.allows o)
    (hl : l.stand = .sealed p) : l.stand.after o b = .sealed p := by
  cases htests : tests o with
  | true => exact absurd hl (hpre.2.2 htests p)
  | false => rw [stand_after ho htests, hl]

/-- An operation that is no stroke. -/
lemma Settling.quiet (h : Settling f g ls) (ho : Process.stroke o = none)
    (hpre : (ls t).allows o) :
    Settling (Fleet.exec cfg out kids t o f).2
      (coroner t o f (Fleet.exec cfg out kids t o f).1 g)
      (Function.update ls t ((ls t).after o (Fleet.exec cfg out kids t o f).1)) := by
  have hfate : (coroner t o f (Fleet.exec cfg out kids t o f).1 g).fate = g.fate := by
    simp only [coroner, ho]
  have hdead : ∀ p, Allocated f.world.nextPid p → (f.world.pcbs p).isTerminal = true →
      Allocated (Fleet.exec cfg out kids t o f).2.world.nextPid p ∧
        ((Fleet.exec cfg out kids t o f).2.world.pcbs p).isTerminal = true := fun p halloc hdead =>
    ⟨allocated_fleet halloc, (sameEnd_exec ho halloc).terminal.trans hdead⟩
  refine ⟨h.census.step hpre, fun u => ?_, fun u p hagent => ?_, fun u p hclosing => ?_,
    fun p hfinal => ?_⟩
  · simp only [coroner, ho]
    by_cases hu : u = t
    · subst hu
      rw [Function.update_self, Function.update_self, h.stand u]
      rfl
    · rw [Function.update_of_ne hu, Function.update_of_ne hu, h.stand u]
  · rw [hfate]
    by_cases hu : u = t
    · subst hu
      rw [Function.update_self] at hagent
      exact h.late_quiet ho hagent
    · rw [Function.update_of_ne hu] at hagent
      rw [← h.late u p hagent]
      simp only [coroner, ho]
      split
      · rw [Function.update_of_ne hu]
      · rfl
  · rw [hfate] at hclosing
    obtain ⟨hsealed, halloc, hterm⟩ := h.closing u p hclosing
    refine ⟨?_, hdead p halloc hterm⟩
    by_cases hu : u = t
    · subst hu
      rw [Function.update_self]
      exact stand_of_sealed ho hpre hsealed
    · rw [Function.update_of_ne hu]
      exact hsealed
  · rw [hfate] at hfinal
    obtain ⟨halloc, hterm⟩ := h.final p hfinal
    exact hdead p halloc hterm

/-- A thread makes strokes on its own agent. -/
lemma Stand.agent_of_ready {s : Stroke} {stand : Stand} (h : stand.ready p s) :
    stand.agent = some p := by
  cases stand with
  | idle => exact h.elim
  | cleared q | drafting q => exact congrArg some h
  | sealed q => exact congrArg some h.1

/-- Afterwards it is at most with that agent. -/
lemma Stand.agent_signed {s : Stroke} {stand : Stand} {q : Pid}
    (h : (stand.signed p s).agent = some q) : q = p := by
  cases s <;> cases stand <;> first | cases h; rfl | cases h

/-- **What a stroke does to a finalized agent**: nothing, if it is made in time. -/
lemma Settling.final_stroke (h : Settling f g ls) {s : Stroke}
    (hready : (ls t).stand.ready p s) (htime : s.alters = true → g.late t = false)
    (hfinal : g.fate p = .final) :
    s.alters = false ∧
      (g.fate p).stroke t (g.stand t) (f.world.pcbs p).isTerminal s = .final := by
  have hlate : g.late t = true := (h.late t p (Stand.agent_of_ready hready)).2 hfinal
  have halters : s.alters = false := by
    by_contra hs
    rw [htime (by simpa using hs)] at hlate
    cases hlate
  refine ⟨halters, ?_⟩
  rw [(h.final p hfinal).2, hfinal]
  cases s with
  | error | result => cases halters
  | finish => rfl
  | state st =>
    have hst : st.isTerminal = true := by simpa [Stroke.alters] using halters
    simp [Fate.stroke, hst]

/-- An agent that is finalized by a stroke has ended with it. -/
lemma Settling.dead_of_final (h : Settling f g ls) {s : Stroke}
    (ho : Process.stroke o = some (p, s))
    (hfinal : (g.fate p).stroke t (g.stand t) (f.world.pcbs p).isTerminal s = .final) :
    ((Fleet.exec cfg out kids t o f).2.world.pcbs p).isTerminal = true := by
  rw [isTerminal_stroke ho]
  cases s with
  | error =>
    simp only [Fate.stroke] at hfinal
    split at hfinal
    · next hclosing => exact (h.closing t p hclosing).2.2
    · exact (h.final p hfinal).2
  | result => exact (h.final p hfinal).2
  | finish => rfl
  | state st =>
    simp only [Fate.stroke] at hfinal
    split at hfinal
    · assumption
    · cases hfinal

/-- An agent whose error is still to be recorded after a stroke: its thread has just moved
it, or had moved it before and is another one. -/
lemma Settling.closing_stroke (h : Settling f g ls) {s : Stroke}
    (ho : Process.stroke o = some (p, s)) (hready : (ls t).stand.ready p s) {u : Tid n}
    (hclosing : (g.fate p).stroke t (g.stand t) (f.world.pcbs p).isTerminal s = .closing u) :
    (Function.update ls t ((ls t).after o (Fleet.exec cfg out kids t o f).1) u).stand = .sealed p ∧
      ((Fleet.exec cfg out kids t o f).2.world.pcbs p).isTerminal = true := by
  -- it had been moved before
  have hold : g.fate p = .closing u → u ≠ t →
      (Function.update ls t ((ls t).after o (Fleet.exec cfg out kids t o f).1) u).stand =
        .sealed p ∧ (f.world.pcbs p).isTerminal = true := by
    intro hfate hu
    rw [Function.update_of_ne hu]
    exact ⟨(h.closing u p hfate).1, (h.closing u p hfate).2.2⟩
  have hother : g.fate p = .closing u → s ≠ .error → u ≠ t := by
    rintro hfate hs rfl
    rw [(h.closing u p hfate).1] at hready
    exact hs hready.2
  rw [isTerminal_stroke ho]
  cases s with
  | error =>
    simp only [Fate.stroke] at hclosing
    split at hclosing
    · cases hclosing
    · next hne => exact hold hclosing fun hu => hne (hu ▸ hclosing)
  | result => exact hold hclosing (hother hclosing (by simp))
  | finish =>
    refine ⟨?_, rfl⟩
    simp only [Fate.stroke] at hclosing
    split at hclosing
    · exact (hold hclosing (hother hclosing (by simp))).1
    · rw [h.stand t] at hclosing
      cases hstand : (ls t).stand with
      | drafting q =>
        rw [hstand] at hclosing
        cases hclosing
      | cleared q =>
        rw [hstand] at hclosing
        cases hclosing
        rw [Function.update_self]
        simp only [Pen.after, Stand.after, ho, hstand, Stand.signed]
      | idle | sealed q =>
        rw [hstand] at hready
        first | exact hready.elim | cases hready.2
  | state st =>
    simp only [Fate.stroke] at hclosing
    split at hclosing
    · next hst =>
      split at hclosing
      · exact ⟨(hold hclosing (hother hclosing (by simp))).1, hst⟩
      · cases hclosing
    · cases hclosing

/-- Who is late after a stroke that is made in time. -/
lemma Settling.late_sign (h : Settling f g ls) {s : Stroke} (ho : Process.stroke o = some (p, s))
    (hready : (ls t).stand.ready p s) (htime : s.alters = true → g.late t = false) {u : Tid n}
    {q : Pid}
    (hagent : (Function.update g.stand t ((g.stand t).signed p s) u).agent = some q) :
    (coroner t o f (Fleet.exec cfg out kids t o f).1 g).late u = true ↔
      (coroner t o f (Fleet.exec cfg out kids t o f).1 g).fate q = .final := by
  simp only [coroner, ho, hagent, Bool.or_eq_true, Bool.and_eq_true, decide_eq_true_eq,
    Option.some.injEq]
  by_cases hq : q = p
  · subst hq
    have hlate : g.late u = true ↔ g.fate q = .final := by
      by_cases hu : u = t
      · subst hu
        exact h.late u q (Stand.agent_of_ready hready)
      · rw [Function.update_of_ne hu, h.stand u] at hagent
        exact h.late u q hagent
    rw [Function.update_self, hlate]
    refine ⟨?_, fun hfinal => .inr ⟨hfinal, rfl⟩⟩
    rintro (hfinal | ⟨hfinal, -⟩)
    · exact (h.final_stroke hready htime hfinal).2
    · exact hfinal
  · have hu : u ≠ t := by
      rintro rfl
      rw [Function.update_self] at hagent
      exact hq (Stand.agent_signed hagent)
    rw [Function.update_of_ne hu, h.stand u] at hagent
    rw [Function.update_of_ne hq, ← h.late u q hagent]
    exact or_iff_left fun hpair => hq hpair.2

/-- A stroke that is made in time. -/
lemma Settling.sign (h : Settling f g ls) {s : Stroke} (ho : Process.stroke o = some (p, s))
    (hpre : (ls t).allows o) (htime : s.alters = true → g.late t = false) :
    Settling (Fleet.exec cfg out kids t o f).2
      (coroner t o f (Fleet.exec cfg out kids t o f).1 g)
      (Function.update ls t ((ls t).after o (Fleet.exec cfg out kids t o f).1)) := by
  obtain ⟨hknown, hready⟩ := hpre.2.1 p s ho
  have halloc : Allocated (Fleet.exec cfg out kids t o f).2.world.nextPid p :=
    allocated_fleet (h.census.known t p hknown)
  have hstand : ∀ u, (coroner t o f (Fleet.exec cfg out kids t o f).1 g).stand u =
      (Function.update ls t ((ls t).after o (Fleet.exec cfg out kids t o f).1) u).stand := by
    intro u
    simp only [coroner, ho]
    by_cases hu : u = t
    · subst hu
      rw [Function.update_self, Function.update_self, h.stand u]
      simp only [Pen.after, Stand.after, ho]
    · rw [Function.update_of_ne hu, Function.update_of_ne hu, h.stand u]
  refine ⟨h.census.step hpre, hstand, fun u q hagent => ?_, fun u q hclosing => ?_,
    fun q hfinal => ?_⟩
  · refine h.late_sign ho hready htime ?_
    have hu := hstand u
    simp only [coroner, ho] at hu
    rw [hu]
    exact hagent
  · by_cases hq : q = p
    · subst hq
      simp only [coroner, ho, Function.update_self] at hclosing
      obtain ⟨hsealed, hdead⟩ := h.closing_stroke ho hready hclosing
      exact ⟨hsealed, halloc, hdead⟩
    · simp only [coroner, ho, Function.update_of_ne hq] at hclosing
      obtain ⟨hsealed, hq', hdead⟩ := h.closing u q hclosing
      have hu : u ≠ t := by
        rintro rfl
        rw [hsealed] at hready
        exact hq hready.1
      rw [Function.update_of_ne hu, pcbs_stroke_of_ne ho hq]
      exact ⟨hsealed, allocated_fleet hq', hdead⟩
  · by_cases hq : q = p
    · subst hq
      simp only [coroner, ho, Function.update_self] at hfinal
      exact ⟨halloc, h.dead_of_final ho hfinal⟩
    · simp only [coroner, ho, Function.update_of_ne hq] at hfinal
      rw [pcbs_stroke_of_ne ho hq]
      exact ⟨allocated_fleet (h.final q hfinal).1, (h.final q hfinal).2⟩

/-! ### Runs -/

/-- **Every run in which all assignments are made in time is settled**, with one more
invariant of the state and the memory. -/
lemma settled_run {backend : Backend} {E : Fleet n → Inquest n → Prop}
    (hE : ∀ (β : Type) (t : Tid n) (o : FOp β) f g ls, Settling f g ls → E f g →
      (ls t).allows o → InTime t o (f, g) →
      E (Fleet.exec cfg out kids t o f).2 (coroner t o f (Fleet.exec cfg out kids t o f).1 g))
    {pool : Lib.Pool FOp (Tid n) (Fleet n × Inquest n)}
    (hpool : System.Sound signing (fun s ls => Settling s.1 s.2 ls ∧ E s.1 s.2)
      (fun _ l => l.Off) pool) {as : List (Act (Tid n) FleetCall)}
    (hK : ((fleetSystem n backend cfg out kids).watched coroner).Meets InTime pool as) :
    System.Sound signing (fun s ls => Settling s.1 s.2 ls ∧ E s.1 s.2) (fun _ l => l.Off)
      (((fleetSystem n backend cfg out kids).watched coroner).run pool as) := by
  have hcalls : ∀ t c, Act.call t c ∈ as → True := fun _ _ _ => trivial
  refine System.run_inv ?_ ?_ ?_ hpool hK hcalls
  · rintro (i | k) l hl
    · cases backend with
      | thread => exact obeys_native.2 (signs_loopBody hl)
      | process => exact signs_loopForked hl
    · exact hl
  · intro t c l _ _ hl
    exact (signs_fleetCode backend c hl).bind _ fun _ _ h => h
  · rintro β t o ⟨f, g⟩ ls ⟨hI, hEf⟩ hpre hguard
    refine ⟨(ls t).after o (Fleet.exec cfg out kids t o f).1, rfl, ?_,
      hE β t o f g ls hI hEf hpre hguard⟩
    cases hs : Process.stroke o with
    | none => exact hI.quiet hs hpre
    | some target =>
      obtain ⟨p, s⟩ := target
      refine hI.sign hs hpre ?_
      simpa only [InTime, hs] using hguard

/-- A kernel that has just been started. -/
lemma settling_fresh (quota : Quota) :
    Settling { world := freshWorld n quota } {} fun _ => {} where
  census := ⟨le_rfl, fun p hp => (by cases hp), fun p hp => (by cases hp),
    fun t p hp => (by cases hp)⟩
  stand := fun _ => rfl
  late := fun t p hagent => (by cases hagent)
  closing := fun t p hclosing => (by cases hclosing)
  final := fun p hfinal => (by cases hfinal)

/-- The agent has ended with these texts. -/
def EndedWith (p : Pid) (result error : Option String) (f : Fleet n) (g : Inquest n) : Prop :=
  g.fate p = .final ∧ (f.world.pcbs p).result = result ∧ (f.world.pcbs p).error = error

/-- A stroke that does not alter a finalized agent leaves the texts of every agent. -/
lemma texts_stroke {s : Stroke} (ho : Process.stroke o = some (p, s)) (hs : s.alters = false) :
    ((Fleet.exec cfg out kids t o f).2.world.pcbs p).result = (f.world.pcbs p).result ∧
      ((Fleet.exec cfg out kids t o f).2.world.pcbs p).error = (f.world.pcbs p).error := by
  rcases o with (o | o) | o
  · show ((World.exec cfg out t o f.world).2.pcbs p).result = _ ∧
      ((World.exec cfg out t o f.world).2.pcbs p).error = _
    cases o with
    | write r c =>
      rw [(exec_write cfg out t f.world r c).1]
      simp only [Process.stroke, kernelStroke, Option.map_eq_some_iff, Prod.mk.injEq] at ho
      obtain ⟨s', hwrite, rfl, rfl⟩ := ho
      rw [Function.update_self]
      cases c with
      | error msg | result text =>
        cases hwrite
        cases hs
      | transition st =>
        rw [Write.apply, AgentControlBlock.transition_frame]
        exact ⟨rfl, rfl⟩
      | _ => cases hwrite
    | _ => cases ho
  · cases o with
    | assign r a =>
      cases a with
      | state st =>
        cases ho
        show (Function.update f.world.pcbs p _ p).result = _ ∧
          (Function.update f.world.pcbs p _ p).error = _
        rw [Function.update_self]
        exact ⟨rfl, rfl⟩
      | _ => cases ho
    | _ => cases ho
  · cases o <;> cases ho

lemma EndedWith.step {result error : Option String} (h : EndedWith p result error f g)
    (hI : Settling f g ls) (hpre : (ls t).allows o) (htime : InTime t o (f, g)) :
    EndedWith p result error (Fleet.exec cfg out kids t o f).2
      (coroner t o f (Fleet.exec cfg out kids t o f).1 g) := by
  obtain ⟨hfate, hresult, herror⟩ := h
  cases hs : Process.stroke o with
  | none =>
    have hsame : SameEnd _ ((Fleet.exec cfg out kids t o f).2.world.pcbs p) :=
      sameEnd_exec hs (hI.final p hfate).1
    refine ⟨?_, hsame.result.trans hresult, hsame.error.trans herror⟩
    simp only [coroner, hs]
    exact hfate
  | some target =>
    obtain ⟨q, s⟩ := target
    simp only [InTime, hs] at htime
    by_cases hq : p = q
    · subst hq
      -- whoever is about to assign has tested the agent before it was finalized
      obtain ⟨halters, hfinal⟩ := hI.final_stroke (hpre.2.1 p s hs).2 htime hfate
      have htexts :
          ((Fleet.exec cfg out kids t o f).2.world.pcbs p).result = (f.world.pcbs p).result ∧
            ((Fleet.exec cfg out kids t o f).2.world.pcbs p).error = (f.world.pcbs p).error :=
        texts_stroke hs halters
      refine ⟨?_, htexts.1.trans hresult, htexts.2.trans herror⟩
      simp only [coroner, hs, Function.update_self]
      exact hfinal
    · rw [EndedWith, pcbs_stroke_of_ne hs hq]
      refine ⟨?_, hresult, herror⟩
      simp only [coroner, hs, Function.update_of_ne hq]
      exact hfate

/-- **A finalized agent is frozen** in every run in which nobody assigns it when late. -/
theorem frozen_of_inTime {n : ℕ} (backend : Backend) (cfg : KernelConfig) (out : Outside)
    (kids : ℕ → Offspring) (quota : Quota) (as bs : List (Act (Tid n) FleetCall)) (p : Pid)
    (hK : ((fleetSystem n backend cfg out kids).watched coroner).Meets InTime
      ((launchFleet n quota).beside {}) (as ++ bs)) :
    Frozen (fleetSystem n backend cfg out kids) (launchFleet n quota) as bs p := by
  intro hfate before now
  have hstart : System.Sound signing (fun s ls => Settling s.1 s.2 ls ∧ True) (fun _ l => l.Off)
      ((launchFleet n quota).beside ({} : Inquest n)) :=
    ⟨fun _ => {}, ⟨settling_fresh quota, trivial⟩,
      fun _ => ⟨fun _ => Stand.noConfusion, by simp⟩⟩
  -- the run up to the moment at which the agent is finalized, and the run from there on
  have hmiddle := settled_run (E := fun _ _ => True) (fun _ _ _ _ _ _ _ _ _ _ => trivial) hstart
    hK.left
  have hlast := hK.right
  rw [System.run_beside] at hmiddle hlast
  obtain ⟨ls, ⟨hI, -⟩, hcode⟩ := hmiddle
  have hmiddle' : System.Sound signing
      (fun s ls => Settling s.1 s.2 ls ∧ EndedWith p before.result before.error s.1 s.2)
      (fun _ l => l.Off) (((fleetSystem n backend cfg out kids).run (launchFleet n quota) as).beside
        ((fleetSystem n backend cfg out kids).observed coroner (launchFleet n quota) {} as)) :=
    ⟨ls, ⟨hI, hfate, rfl, rfl⟩, hcode⟩
  have hend := settled_run (fun _ _ _ _ _ _ hI hE hpre htime => hE.step hI hpre htime) hmiddle'
    hlast
  rw [System.run_beside] at hend
  obtain ⟨_, ⟨-, -, hresult, herror⟩, -⟩ := hend
  exact ⟨hresult, herror⟩

instance decidableInTime (t : Tid n) (o : FOp β) (s : Fleet n × Inquest n) :
    Decidable (InTime t o s) :=
  match h : Process.stroke o with
  | none => .isTrue (by simp only [InTime, h])
  | some (_, x) =>
    decidable_of_iff (x.alters = true → s.2.late t = false) (by simp only [InTime, h])

/-- An agent that is killed while its worker waits for a reply: the reply comes, the worker
sees the `ZOMBIE`, and the error stays. -/
theorem frozen_of_inTime_late_reply :
    ∃ as bs : List (Act (Tid 1) FleetCall),
      let out := Outside.calm ⟨"hi", 1, 1, 2⟩
      let sys := fleetSystem 1 .thread { pager := {}, host := .inert } out fun _ => ⟨none, out⟩
      ((sys.observed coroner (launchFleet 1 ⟨5, 5⟩) {} as).fate 1 = .final ∧
        ((sys.run (sys.run (launchFleet 1 ⟨5, 5⟩) as) bs).shared.world.pcbs 1).llmCallsUsed = 1) ∧
      Frozen sys (launchFleet 1 ⟨5, 5⟩) as bs 1 := by
  refine ⟨Act.call (.client 0) (.kernel (.spawn { prompt := "hello" })) ::
    (List.replicate 3 (.step (.client 0)) ++ List.replicate 13 (.step (.worker 0)) ++
      Act.call (.client 0) (.kernel (.kill 9 1)) :: List.replicate 6 (.step (.client 0))),
    List.replicate 8 (.step (.worker 0)), ⟨by decide +kernel, by decide +kernel⟩, ?_⟩
  exact frozen_of_inTime _ _ _ _ _ _ _ _ (by decide +kernel)

end Gcos.Process
