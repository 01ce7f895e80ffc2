import Gcos.Process.Chronicle
import Gcos.Process.Signal

/-!
# The marks of the dispatches are true

An agent is moved by the thread that has it in hand, and by others only to `ZOMBIE`.  So what
the mark of a dispatch says about the block of its agent stays true until the dispatch goes on,
and what is said about the agents in the queue until they are picked.  As long as no agent
that was blocked on the quota is given a child, every operation of the backend keeps this
(`Marked.step`).
-/

namespace Gcos.Process

open Lib Pool World

variable {n : ℕ} {cfg : KernelConfig} {out : Outside} {kids : ℕ → Offspring} {t : Tid n} {β : Type}
  {o : FOp β} {f : Fleet n} {g : Chronicle} {ls : Tid n → Desk} {ms : Tid n → Mark} {l' : Desk}
  {m : Mark} {p : Pid} {s s' : Stage} {blocked : Bool}

/-! ### The notes of the threads -/

/-- The agent is in the queue, or about to be put there for the first time. -/
def Resting (f : Fleet n) (ls : Tid n → Desk) (p : Pid) : Prop :=
  p ∈ f.world.queue.q ∨ ∃ t, ls t = .spawning p

/-- The marks agree with the blocks and with what was told. -/
structure Marked (f : Fleet n) (g : Chronicle) (ls : Tid n → Desk) (ms : Tid n → Mark) : Prop where
  callers : ∀ t, (ls t).isWorker = false → ms t = .off ∨ ∃ p, ms t = .made p ∧ ls t = .spawning p
  unborn : ∀ p, ¬Allocated f.world.nextPid p → g.blocked p = false ∧ g.settled p = false
  resting : ∀ p, Resting f ls p →
    g.settled p = false ∧ Mark.picked.Agrees (f.world.pcbs p) (g.blocked p)
  held : ∀ t p s, ls t = .holding p s → g.settled p = false →
    (ms t).Agrees (f.world.pcbs p) (g.blocked p)
  settled : ∀ t p s, ls t = .holding p s → g.settled p = true → ms t = .off ∨ ms t = .alive
  registered : ∀ p k, f.registry p = some k →
    ∃ t s b, ls t = .holding p s ∧ s.bond = some (k, b) ∧ ms t = .alive

lemma fresh_of_spawning (ht : ls t = .spawning p) : ((fun u => (ls u).hand) t).fresh = some p := by
  show (ls t).fresh = some p
  rw [ht]
  rfl

/-- An agent that is held rests nowhere. -/
lemma not_resting (hI : Custody f ls) (hl : ls t = .holding p s) : ¬Resting f ls p := by
  rintro (hq | ⟨u, hu⟩)
  · exact hI.not_mem hl hq
  · exact (hI.owned.fresh u p (fresh_of_spawning hu)).1 (hI.owned.held t p (held_of_holding hl)).1

lemma allocated_of_resting (hI : Custody f ls) (h : Resting f ls p) :
    Allocated f.world.nextPid p := by
  rcases h with hq | ⟨u, hu⟩
  · exact hI.owned.allocated p (hI.owned.queued p hq)
  · exact (hI.owned.fresh u p (fresh_of_spawning hu)).2

lemma Marked.caller (h : Marked f g ls ms) (hrole : (ls t).isWorker = false) :
    ms t = .off ∨ ∃ r, ms t = .made r :=
  (h.callers t hrole).imp_right fun ⟨r, hm, _⟩ => ⟨r, hm⟩

/-- A caller asks for nothing but kills, and for `WAITING` of the agent that it has made. -/
lemma waiting_of_caller {st : AgentState} (hm : m = .off ∨ ∃ r, m = .made r)
    (hcase : m.allowsTransition p st) (hst : st ≠ .zombie) : st = .waiting ∧ m = .made p := by
  rcases hm with rfl | ⟨r, rfl⟩
  · cases st <;> simp [Mark.allowsTransition] at hcase hst
  · cases st with
    | waiting => exact ⟨rfl, hcase.resolve_right (by simp)⟩
    | zombie => exact absurd rfl hst
    | _ => simp [Mark.allowsTransition] at hcase

/-- Whoever moves an agent holds it, or is about to enqueue it for the first time. -/
lemma bearer (h : Marked f g ls ms) (hpre : (ls t).allows o) (hmark : (ms t).allows o)
    (ho : bears o = some p) : (∃ s, ls t = .holding p s) ∨ ls t = .spawning p := by
  rcases o with (o | o) | o
  · cases o with
    | write q c =>
      cases c with
      | transition st =>
        obtain ⟨rfl, hst⟩ := bears_transition ho
        cases hrole : (ls t).isWorker with
        | true => exact .inl (hpre.2 hrole).1
        | false =>
          have hm := (waiting_of_caller (h.caller hrole) hmark hst).2
          rcases h.callers t hrole with hoff | ⟨r, hr, hl⟩
          · cases hm.symm.trans hoff
          · cases hm.symm.trans hr
            exact .inr hl
      | _ => cases ho
    | put q =>
      cases ho
      rcases hpre with hl | ⟨s, hl, -⟩
      · exact .inr hl
      · exact .inl ⟨s, hl⟩
    | _ => cases ho
  · cases o with
    | assign q a =>
      cases a with
      | state st =>
        cases ho
        obtain ⟨u, c, k, r, hl⟩ := hpre
        exact .inl ⟨_, hl⟩
      | _ => cases ho
    | _ => cases ho
  · cases o with
    | register q k =>
      cases ho
      obtain ⟨u, c, hl⟩ := hpre
      exact .inl ⟨_, hl⟩
    | _ => cases ho

/-- An agent has one mover. -/
lemma not_elsewhere (hI : Custody f ls) (hl : (∃ s, ls t = .holding p s) ∨ ls t = .spawning p)
    {u : Tid n} (hu : u ≠ t) : ls u ≠ .holding p s' := by
  intro hheld
  rcases hl with ⟨s, hl⟩ | hl
  · exact hu (hI.once hl hheld)
  · exact not_resting hI hheld (.inr ⟨t, hl⟩)

variable (cfg out kids) in
/-- Where a holder stands after an operation that does not move its agent. -/
lemma after_soft (hl : ls t = .holding p s) (hpre : (ls t).allows o) (hmark : m.allows o)
    (ho : bears o ≠ some p) :
    m.after o (Fleet.exec cfg out kids t o f).1 = m ∨
      (m = .picked ∨ ∃ x, m = .looked x) ∧
        m.after o (Fleet.exec cfg out kids t o f).1 =
          .looked (f.world.pcbs p).startedAt.isSome ∨
      (m = .looked true ∨ m = .launched) ∧
        m.after o (Fleet.exec cfg out kids t o f).1 = .launched := by
  rcases o with (o | o) | o
  · cases o with
    | readPcb q _ =>
      obtain rfl : p = q := hpre p s hl
      cases m with
      | picked => exact .inr (.inl ⟨.inl rfl, rfl⟩)
      | looked x => exact .inr (.inl ⟨.inr ⟨x, rfl⟩, rfl⟩)
      | _ => exact .inl rfl
    | write q c =>
      cases c with
      | transition st =>
        have hworker : (ls t).isWorker = true := by
          rw [hl]
          rfl
        obtain ⟨s', hl'⟩ := (hpre.2 hworker).1
        rw [hl] at hl'
        cases hl'
        cases st with
        | zombie => exact .inl rfl
        | _ => exact absurd rfl ho
      | _ => exact .inl rfl
    | newPcb args =>
      obtain ⟨seen, e, hcaller⟩ := hpre
      cases hl.symm.trans hcaller
    | tableAdd q => cases hl.symm.trans hpre
    | pickNext => cases hl.symm.trans hpre
    | enterBusy q => exact .inr (.inr ⟨hmark, rfl⟩)
    | put q =>
      rcases hpre with hq | ⟨s', hq, -⟩
      · cases hl.symm.trans hq
      · cases hl.symm.trans hq
        exact absurd rfl ho
    | _ => exact .inl rfl
  · cases o with
    | assign q a =>
      cases a with
      | state st =>
        obtain ⟨u, c, k, r, hq⟩ := hpre
        cases hl.symm.trans hq
        exact absurd rfl ho
      | _ => exact .inl rfl
    | _ => exact .inl rfl
  · cases o with
    | register q k =>
      obtain ⟨u, c, hq⟩ := hpre
      cases hl.symm.trans hq
      exact absurd rfl ho
    | _ => exact .inl rfl

/-- A thread that comes to hold an agent from the queue has picked it. -/
lemma after_pick (hq : p ∈ f.world.queue.q)
    (hq' : p ∉ (Fleet.exec cfg out kids t o f).2.world.queue.q) (hpre : (ls t).allows o)
    (hlearn : (ls t).learns o (Fleet.exec cfg out kids t o f).1 (.holding p s')) :
    m.after o (Fleet.exec cfg out kids t o f).1 = .picked := by
  rcases o with (o | o) | o
  · have hsame : o.movesEntries = true := by
      by_contra hstill
      refine hq' ?_
      show p ∈ (World.exec cfg out t o f.world).2.queue.q
      rw [entries_exec (by simpa using hstill)]
      exact hq
    cases o with
    | pickNext =>
      rcases cfg.scheduler.pickNext_cases f.world.pcbs (out.clock f.world.ticks) f.world.queue with
        ⟨-, hpick⟩ | ⟨q, -, hpick⟩
      · simp only [Fleet.exec, Process.exec, World.exec, hpick] at hq'
        exact absurd hq hq'
      · simp only [Fleet.exec, Process.exec, World.exec, hpick]
        rfl
    | put q =>
      refine absurd ?_ hq'
      simp only [Fleet.exec, Process.exec, World.exec, World.put]
      split
      · exact hq
      · exact List.mem_append_left _ hq
    | popQueued q =>
      obtain ⟨seen, hl⟩ := hpre
      rw [hl] at hlearn
      cases hlearn
    | _ => cases hsame
  · cases o <;> exact absurd hq hq'
  · cases o <;> exact absurd hq hq'

/-- The holder of an agent that is not moved. -/
lemma agrees_soft (h : m.Agrees (f.world.pcbs p) blocked) (hl : ls t = .holding p s)
    (hpre : (ls t).allows o) (hmark : m.allows o) (ho : bears o ≠ some p) :
    (m.after o (Fleet.exec cfg out kids t o f).1).Agrees (f.world.pcbs p) blocked := by
  rcases after_soft cfg out kids hl hpre hmark ho with
    hsame | ⟨hm, hlooked⟩ | ⟨hm, hlaunched⟩
  · rw [hsame]
    exact h
  · rw [hlooked]
    refine Mark.Agrees.look ?_
    rcases hm with rfl | ⟨x, rfl⟩
    · exact h
    · exact h.imp_right fun hfits => hfits.1
  · rw [hlaunched]
    rcases hm with rfl | rfl
    · exact Mark.agrees_looked h
    · exact h

lemma fixed_soft (h : m = .off ∨ m = .alive) (hl : ls t = .holding p s)
    (hpre : (ls t).allows o) (hmark : m.allows o) (ho : bears o ≠ some p) :
    m.after o (Fleet.exec cfg out kids t o f).1 = .off ∨
      m.after o (Fleet.exec cfg out kids t o f).1 = .alive := by
  rcases after_soft cfg out kids hl hpre hmark ho with
    hsame | ⟨hm, -⟩ | ⟨hm, -⟩
  · rwa [hsame]
  · rcases h with rfl | rfl <;> rcases hm with hm | ⟨x, hm⟩ <;> cases hm
  · rcases h with rfl | rfl <;> rcases hm with hm | hm <;> cases hm

/-! ### The operations -/

/-- What is told to an observer of the dispatches. -/
abbrev told (cfg : KernelConfig) (out : Outside) (kids : ℕ → Offspring) (t : Tid n) (o : FOp β)
    (f : Fleet n) (g : Chronicle) : Chronicle :=
  chronicler t o f (Fleet.exec cfg out kids t o f).1 g

/-- The outcome of an agent is settled only at the end of its dispatch. -/
lemma Marked.unsettled (h : Marked f g ls ms) (hl : ls t = .holding p s) (hoff : ms t ≠ .off)
    (halive : ms t ≠ .alive) : g.settled p = false := by
  by_contra hsettled
  rcases h.settled t p s hl (by simpa using hsettled) with hm | hm
  · exact hoff hm
  · exact halive hm

/-- A transition that the holder of an agent asks for. -/
lemma borne_transition {st : AgentState} (h : Marked f g ls ms) (hl : ls t = .holding p s)
    (hcase : (ms t).allowsTransition p st) (hst : st ≠ .zombie) (now : Time) :
    ((g.moved p st).settled p = false →
        ((ms t).moved st).Agrees ((f.world.pcbs p).transition st now) ((g.moved p st).blocked p)) ∧
      ((g.moved p st).settled p = true → (ms t).moved st = .off ∨ (ms t).moved st = .alive) := by
  have hopen : ∀ {A B : Prop}, g.settled p = false → A →
      (g.settled p = false → A) ∧ (g.settled p = true → B) := by
    intro A B hnot hA
    refine ⟨fun _ => hA, fun hyes => ?_⟩
    rw [hnot] at hyes
    cases hyes
  cases st with
  | running =>
    have hm : ms t = .looked false := hcase
    have hnot := h.unsettled hl (by simp [hm]) (by simp [hm])
    have hagrees := h.held t p s hl hnot
    rw [hm] at hagrees
    exact hopen hnot (agrees_running hagrees now)
  | blocked =>
    have hm : ms t = .launched := hcase
    have hnot := h.unsettled hl (by simp [hm]) (by simp [hm])
    have hagrees := h.held t p s hl hnot
    rw [hm] at hagrees
    refine hopen hnot ?_
    simp only [Chronicle.moved, Function.update_self]
    exact agrees_blocked hagrees now
  | waiting =>
    have hm : ms t = .made p ∨ ∃ x, ms t = .looked x := hcase
    have hnot : g.settled p = false := by
      refine h.unsettled hl ?_ ?_ <;> rcases hm with hm | ⟨x, hm⟩ <;> simp [hm]
    exact hopen hnot (agrees_waiting (h.held t p s hl hnot) hm now)
  | done | timeout | error =>
    refine ⟨fun hno => ?_, fun _ => ?_⟩
    · simp [Chronicle.moved] at hno
    · simp only [Mark.moved]
      split
      · exact .inr rfl
      · exact .inl rfl
  | new | ready => exact hcase.elim
  | zombie => exact absurd rfl hst

/-- The holder of an agent that is moved. -/
lemma held_borne (h : Marked f g ls ms) (hpre : (ls t).allows o) (hmark : (ms t).allows o)
    (hguard : NeverBlocked t o (f, g)) (ho : bears o = some p) (hl : ls t = .holding p s) :
    ((told cfg out kids t o f g).settled p = false →
        ((ms t).after o (Fleet.exec cfg out kids t o f).1).Agrees
          ((Fleet.exec cfg out kids t o f).2.world.pcbs p)
          ((told cfg out kids t o f g).blocked p)) ∧
      ((told cfg out kids t o f g).settled p = true →
        (ms t).after o (Fleet.exec cfg out kids t o f).1 = .off ∨
          (ms t).after o (Fleet.exec cfg out kids t o f).1 = .alive) := by
  rcases o with (o | o) | o
  · cases o with
    | write q c =>
      cases c with
      | transition st =>
        obtain ⟨rfl, hst⟩ := bears_transition ho
        have hblock : (World.exec cfg out t (.write q (.transition st)) f.world).2.pcbs q =
            (f.world.pcbs q).transition st (f.world.clockFrom out 0) :=
          pcb_write cfg out t f.world q _
        have hmoved := borne_transition h hl hmark hst (f.world.clockFrom out 0)
        rw [← hblock] at hmoved
        exact hmoved
      | _ => cases ho
    | put q => exact ⟨fun _ => .inr trivial, fun _ => .inl rfl⟩
    | _ => cases ho
  · cases o with
    | assign q a =>
      cases a with
      | state st =>
        cases ho
        refine ⟨fun hno => ?_, fun _ => .inr hmark⟩
        have hyes : (told cfg out kids t (.inl (.inr (.assign p (.state st)))) f g).settled p = true :=
          Function.update_self _ _ _
        rw [hyes] at hno
        cases hno
      | _ => cases ho
    | _ => cases ho
  · cases o with
    | register q k =>
      cases ho
      have hm : ms t = .launched := hmark
      have hnot := h.unsettled hl (by simp [hm]) (by simp [hm])
      have hagrees := h.held t p s hl hnot
      rw [hm] at hagrees
      exact ⟨fun _ => agrees_alive hagrees hguard, fun _ => .inr rfl⟩
    | _ => cases ho

/-- A worker does not become a caller, and no caller a worker. -/
lemma role_kept (hI : Custody f ls)
    (hI' : Custody (Fleet.exec cfg out kids t o f).2 (Function.update ls t l')) :
    l'.isWorker = (ls t).isWorker := by
  have hrole := (hI'.role t).trans (hI.role t).symm
  rwa [Function.update_self] at hrole

/-- An agent that is held does not come to rest without being put back. -/
lemma not_resting_after (hI : Custody f ls)
    (hI' : Custody (Fleet.exec cfg out kids t o f).2 (Function.update ls t l'))
    (hl : ls t = .holding p s)
    (hqueue : (Fleet.exec cfg out kids t o f).2.world.queue.q = f.world.queue.q) :
    ¬Resting (Fleet.exec cfg out kids t o f).2 (Function.update ls t l') p := by
  rintro (hq | ⟨u, hu⟩)
  · rw [hqueue] at hq
    exact hI.not_mem hl hq
  · rcases update_eq_cases hu with ⟨rfl, hnow⟩ | ⟨-, hu⟩
    · have hrole := role_kept hI hI'
      rw [hnow, hl] at hrole
      cases hrole
    · exact not_resting hI hl (.inr ⟨u, hu⟩)

/-- An agent that waits to be dispatched, after an operation that has moved it. -/
lemma resting_borne (hI : Custody f ls)
    (hI' : Custody (Fleet.exec cfg out kids t o f).2 (Function.update ls t l'))
    (h : Marked f g ls ms) (hpre : (ls t).allows o) (hmark : (ms t).allows o)
    (ho : bears o = some p)
    (hrest : Resting (Fleet.exec cfg out kids t o f).2 (Function.update ls t l') p) :
    (told cfg out kids t o f g).settled p = false ∧
      Mark.picked.Agrees ((Fleet.exec cfg out kids t o f).2.world.pcbs p)
        ((told cfg out kids t o f g).blocked p) := by
  rcases o with (o | o) | o
  · cases o with
    | write q c =>
      cases c with
      | transition st =>
        obtain ⟨rfl, hst⟩ := bears_transition ho
        rcases bearer h hpre hmark ho with ⟨s, hl⟩ | hl
        · exact absurd hrest (not_resting_after hI hI' hl (entries_exec rfl))
        · obtain ⟨rfl, -⟩ := waiting_of_caller (h.caller (by rw [hl]; rfl)) hmark hst
          obtain ⟨hsettled, hagrees⟩ := h.resting q (.inr ⟨t, hl⟩)
          have hblock : (World.exec cfg out t (.write q (.transition .waiting)) f.world).2.pcbs q =
              (f.world.pcbs q).transition .waiting (f.world.clockFrom out 0) :=
            pcb_write cfg out t f.world q _
          refine ⟨hsettled, ?_⟩
          show Mark.picked.Agrees ((World.exec cfg out t _ f.world).2.pcbs q) _
          rw [hblock]
          exact hagrees.transition rfl (by simp) _
      | _ => cases ho
    | put q =>
      cases ho
      obtain ⟨hsettled, hagrees⟩ :
          g.settled p = false ∧ Mark.picked.Agrees (f.world.pcbs p) (g.blocked p) := by
        rcases hpre with hl | ⟨s, hl, -⟩
        · exact h.resting p (.inr ⟨t, hl⟩)
        · have hm : ms t = .made p ∨ ms t = .blocked ∨ ∃ x, ms t = .looked x := hmark
          have hnot : g.settled p = false := by
            refine h.unsettled hl ?_ ?_ <;> rcases hm with hm | hm | ⟨x, hm⟩ <;> simp [hm]
          exact ⟨hnot, (h.held t p s hl hnot).rested hm⟩
      refine ⟨hsettled, ?_⟩
      show Mark.picked.Agrees ((World.exec cfg out t (.put p) f.world).2.pcbs p) (g.blocked p)
      simp only [World.exec, World.put]
      split
      · exact hagrees
      · simp only [note, Function.update_self]
        exact hagrees.transition rfl (by simp) _
    | _ => cases ho
  · rcases bearer h hpre hmark ho with ⟨s, hl⟩ | hl
    · exact absurd hrest (not_resting_after hI hI' hl (by cases o <;> rfl))
    · cases o with
      | assign q a =>
        cases a with
        | state st =>
          obtain ⟨u, c, k, r, hl'⟩ := hpre
          cases hl.symm.trans hl'
        | _ => cases ho
      | _ => cases ho
  · rcases bearer h hpre hmark ho with ⟨s, hl⟩ | hl
    · exact absurd hrest (not_resting_after hI hI' hl (by cases o <;> rfl))
    · cases o with
      | register q k =>
        obtain ⟨u, c, hl'⟩ := hpre
        cases hl.symm.trans hl'
      | _ => cases ho

/-- An agent that is made by the operation, or was about to be enqueued before. -/
lemma spawning_cases (hI : Custody f ls)
    (hI' : Custody (Fleet.exec cfg out kids t o f).2 (Function.update ls t (.spawning p))) :
    ls t = .spawning p ∨
      p = f.world.nextPid ∧ Rested ((Fleet.exec cfg out kids t o f).2.world.pcbs p) false := by
  have hspawning : (f.world.loc t).fresh = some p → ls t = .spawning p := by
    intro hfresh
    rw [hI.fresh t] at hfresh
    cases hl : ls t <;> rw [hl] at hfresh <;> cases hfresh
    rfl
  have hnow : ((Fleet.exec cfg out kids t o f).2.world.loc t).fresh = some p := by
    rw [hI'.fresh t, Function.update_self]
    rfl
  rcases o with (o | o) | o
  · cases o with
    | newPcb args =>
      have hp : (f.world.nextPid : ℤ) = p := by
        simpa [Fleet.exec, Process.exec, World.exec, note] using hnow
      subst hp
      refine .inr ⟨rfl, ?_⟩
      simp only [Fleet.exec, Process.exec, World.exec, note, Function.update_self]
      exact ⟨rfl, by simp [newBlock], rfl⟩
    | tableAdd q =>
      by_cases hq : q ∈ f.world.table
      · simp [Fleet.exec, Process.exec, World.exec, hq, note] at hnow
      · simp only [Fleet.exec, Process.exec, World.exec, hq, if_false] at hnow
        exact .inl (hspawning hnow)
    | pickNext =>
      refine .inl (hspawning ?_)
      rcases cfg.scheduler.pickNext_cases f.world.pcbs (out.clock f.world.ticks) f.world.queue with
        ⟨-, hpick⟩ | ⟨q, -, hpick⟩
      · simpa [Fleet.exec, Process.exec, World.exec, hpick] using hnow
      · simpa [Fleet.exec, Process.exec, World.exec, hpick, note] using hnow
    | put q =>
      simp only [Fleet.exec, Process.exec, World.exec, World.put] at hnow
      split at hnow <;> simp [note] at hnow
    | taskDone =>
      refine .inl (hspawning ?_)
      simpa [Fleet.exec, Process.exec, World.exec, note] using hnow
    | _ => exact .inl (hspawning ((hands_exec rfl).2.symm.trans hnow))
  · cases o <;> exact .inl (hspawning hnow)
  · cases o <;> exact .inl (hspawning hnow)

/-- An agent that waits to be dispatched, after an operation that has not moved it. -/
lemma resting_soft (hI : Custody f ls)
    (hI' : Custody (Fleet.exec cfg out kids t o f).2 (Function.update ls t l'))
    (h : Marked f g ls ms) (ho : bears o ≠ some p)
    (hrest : Resting (Fleet.exec cfg out kids t o f).2 (Function.update ls t l') p) :
    (told cfg out kids t o f g).settled p = false ∧
      Mark.picked.Agrees ((Fleet.exec cfg out kids t o f).2.world.pcbs p)
        ((told cfg out kids t o f g).blocked p) := by
  obtain ⟨hblocked, hsettled⟩ : (told cfg out kids t o f g).blocked p = g.blocked p ∧
    (told cfg out kids t o f g).settled p = g.settled p := chronicler_of_ne ho
  rw [hblocked, hsettled]
  have hold : Resting f ls p → g.settled p = false ∧
      Mark.picked.Agrees ((Fleet.exec cfg out kids t o f).2.world.pcbs p) (g.blocked p) := by
    intro hbefore
    obtain ⟨hnot, hagrees⟩ := h.resting p hbefore
    exact ⟨hnot, hagrees.unmoved (unmoved_exec ho (allocated_of_resting hI hbefore))⟩
  rcases hrest with hq | ⟨u, hu⟩
  · refine hold (.inl ?_)
    rcases o with (o | o) | o
    · rcases mem_entries_exec hq with hq | ⟨hputs, -, -⟩
      · exact hq
      · cases o with
        | put q => exact absurd hputs ho
        | _ => cases hputs
    · cases o <;> exact hq
    · cases o <;> exact hq
  · rcases update_eq_cases hu with ⟨rfl, rfl⟩ | ⟨-, hu⟩
    · rcases spawning_cases hI hI' with hl | ⟨hnew, hrested⟩
      · exact hold (.inr ⟨u, hl⟩)
      · have hunborn : ¬Allocated f.world.nextPid p := by
          rintro ⟨-, hlt⟩
          exact absurd hnew hlt.ne
        obtain ⟨hnever, hopen⟩ := h.unborn p hunborn
        exact ⟨hopen, .inr (hnever ▸ hrested)⟩
    · exact hold (.inr ⟨u, hu⟩)

/-- The agents that are held, after the operation. -/
lemma held_step (hI : Custody f ls)
    (hI' : Custody (Fleet.exec cfg out kids t o f).2 (Function.update ls t l'))
    (h : Marked f g ls ms) (hpre : (ls t).allows o) (hmark : (ms t).allows o)
    (hguard : NeverBlocked t o (f, g))
    (hlearn : (ls t).learns o (Fleet.exec cfg out kids t o f).1 l') {u : Tid n}
    (hu : Function.update ls t l' u = .holding p s') :
    let m' := Function.update ms t ((ms t).after o (Fleet.exec cfg out kids t o f).1) u
    let g' := told cfg out kids t o f g
    (g'.settled p = false →
        m'.Agrees ((Fleet.exec cfg out kids t o f).2.world.pcbs p) (g'.blocked p)) ∧
      (g'.settled p = true → m' = .off ∨ m' = .alive) := by
  intro m' g'
  have hsoft : bears o ≠ some p → g'.blocked p = g.blocked p ∧ g'.settled p = g.settled p :=
    chronicler_of_ne
  rcases update_eq_cases hu with ⟨rfl, rfl⟩ | ⟨hut, hl⟩
  · have hm' : m' = (ms u).after o (Fleet.exec cfg out kids u o f).1 := Function.update_self _ _ _
    rw [hm']
    rcases comesBy hpre hlearn with ⟨hq, -⟩ | ⟨s, hl, -⟩
    · -- the agent was picked from the queue
      have hq' := hI'.not_mem (Function.update_self u _ ls)
      have hrest : Resting f ls p := .inl hq
      have hpicked : (ms u).after o (Fleet.exec cfg out kids u o f).1 = .picked :=
        after_pick hq hq' hpre hlearn
      have ho : bears o ≠ some p := by
        intro ho
        rcases bearer h hpre hmark ho with ⟨s, hl⟩ | hl
        · exact not_resting hI hl hrest
        · have hrole := role_kept hI hI'
          rw [hl] at hrole
          cases hrole
      obtain ⟨hnot, hagrees⟩ := h.resting p hrest
      rw [(hsoft ho).1, (hsoft ho).2, hpicked]
      refine ⟨fun _ => hagrees.unmoved (unmoved_exec ho (allocated_of_resting hI hrest)), ?_⟩
      intro hyes
      rw [hnot] at hyes
      cases hyes
    · by_cases ho : bears o = some p
      · exact held_borne h hpre hmark hguard ho hl
      · rw [(hsoft ho).1, (hsoft ho).2]
        refine ⟨fun hnot => ?_, fun hyes => fixed_soft (h.settled u p s hl hyes) hl hpre hmark ho⟩
        exact (agrees_soft (h.held u p s hl hnot) hl hpre hmark ho).unmoved
          (unmoved_exec ho (hI.allocated hl))
  · have hm' : m' = ms u := Function.update_of_ne hut _ _
    have ho : bears o ≠ some p := fun ho =>
      not_elsewhere hI (bearer h hpre hmark ho) hut hl
    rw [hm', (hsoft ho).1, (hsoft ho).2]
    refine ⟨fun hnot => ?_, h.settled u p s' hl⟩
    exact (h.held u p s' hl hnot).unmoved (unmoved_exec ho (hI.allocated hl))

/-- A caller that makes nobody. -/
lemma after_off (hrole : (ls t).isWorker = false) (hpre : (ls t).allows o)
    (hmark : Mark.off.allows o)
    (hlearn : (ls t).learns o (Fleet.exec cfg out kids t o f).1 l') :
    Mark.off.after o (Fleet.exec cfg out kids t o f).1 = .off ∨
      ∃ p, Mark.off.after o (Fleet.exec cfg out kids t o f).1 = .made p ∧ l' = .spawning p := by
  rcases o with (o | o) | o
  · cases o with
    | write q c =>
      cases c with
      | transition st =>
        by_cases hst : st = .zombie
        · subst hst
          exact .inl rfl
        · cases (waiting_of_caller (.inl rfl) hmark hst).2
      | _ => exact .inl rfl
    | newPcb args => exact .inr ⟨_, rfl, hlearn⟩
    | pickNext =>
      rw [show ls t = .idle from hpre] at hrole
      cases hrole
    | enterBusy q => rcases hmark with hc | hc <;> cases hc
    | _ => exact .inl rfl
  · cases o <;> exact .inl rfl
  · cases o with
    | register q k => cases hmark
    | _ => exact .inl rfl

/-- A caller that has made an agent. -/
lemma after_made (hpre : (Desk.spawning p).allows o) (hmark : (Mark.made p).allows o)
    (hlearn : (Desk.spawning p).learns o (Fleet.exec cfg out kids t o f).1 l') :
    (Mark.made p).after o (Fleet.exec cfg out kids t o f).1 = .off ∨
      ∃ q, (Mark.made p).after o (Fleet.exec cfg out kids t o f).1 = .made q ∧ l' = .spawning q := by
  have hstay : l' = .spawning p → ∃ q, Mark.made p = .made q ∧ l' = .spawning q :=
    fun hl' => ⟨p, rfl, hl'⟩
  rcases o with (o | o) | o
  · cases o with
    | write q c =>
      cases c with
      | transition st =>
        by_cases hst : st = .zombie
        · subst hst
          exact .inr (hstay hlearn)
        · obtain ⟨rfl, -⟩ := waiting_of_caller (.inr ⟨p, rfl⟩) hmark hst
          exact .inr (hstay hlearn)
      | _ => exact .inr (hstay hlearn)
    | newPcb args =>
      obtain ⟨seen, e, hc⟩ := hpre
      cases hc
    | tableAdd q =>
      cases hpre
      by_cases hp : p ∈ f.world.table
      · refine .inl ?_
        simp [Fleet.exec, Process.exec, World.exec, hp, Mark.after]
      · refine .inr ⟨p, ?_, ?_⟩
        · simp [Fleet.exec, Process.exec, World.exec, hp, Mark.after]
        · simpa [Desk.learns, Desk.learnsKernel, Fleet.exec, Process.exec, World.exec, hp]
            using hlearn
    | pickNext => cases hpre
    | enterBusy q => rcases hmark with hc | hc <;> cases hc
    | put q => exact .inl rfl
    | taskDone => rcases hpre with hc | ⟨r, s, hc, -⟩ <;> cases hc
    | acquire | refund | chat purpose request | swapOut p pages | runPython code timeout priority =>
      exact hpre.elim
    | _ => exact .inr (hstay hlearn)
  · cases o with
    | assign q a =>
      refine .inr (hstay ?_)
      cases a <;> exact hlearn
    | runChild q => exact hpre.elim
    | acquireUpTo units =>
      obtain ⟨q, hc⟩ := hpre
      cases hc
    | refund units =>
      obtain ⟨q, u, c, k, r, hc, -⟩ := hpre
      cases hc
  · cases o with
    | fork q =>
      obtain ⟨u, c, hc⟩ := hpre
      cases hc
    | register q k => cases hmark
    | readAll k =>
      obtain ⟨q, u, c, hc⟩ := hpre
      cases hc
    | reap q k => rcases hpre with ⟨u, c, r, hc⟩ | ⟨u, c, r, hc⟩ <;> cases hc
    | lookup q | signal k =>
      obtain ⟨seen, e, hc, -⟩ := hpre
      cases hc
    | signalAll | childMoves k => exact .inr (hstay hlearn)

/-- Callers dispatch nobody. -/
lemma callers_step (hI : Custody f ls)
    (hI' : Custody (Fleet.exec cfg out kids t o f).2 (Function.update ls t l'))
    (h : Marked f g ls ms) (hpre : (ls t).allows o) (hmark : (ms t).allows o)
    (hlearn : (ls t).learns o (Fleet.exec cfg out kids t o f).1 l')
    (hrole' : l'.isWorker = false) :
    (ms t).after o (Fleet.exec cfg out kids t o f).1 = .off ∨
      ∃ p, (ms t).after o (Fleet.exec cfg out kids t o f).1 = .made p ∧ l' = .spawning p := by
  have hrole : (ls t).isWorker = false := (role_kept hI hI').symm.trans hrole'
  rcases h.callers t hrole with hm | ⟨p, hm, hl⟩
  · rw [hm] at hmark ⊢
    exact after_off hrole hpre hmark hlearn
  · rw [hm] at hmark ⊢
    rw [hl] at hpre hlearn
    exact after_made hpre hmark hlearn

/-- The worker of a live child does nothing to its mark. -/
lemma after_alive (hl : ls t = .holding p s) (hpre : (ls t).allows o) (hmark : Mark.alive.allows o) :
    Mark.alive.after o (Fleet.exec cfg out kids t o f).1 = .alive := by
  by_cases ho : bears o = some p
  · rcases o with (o | o) | o
    · cases o with
      | write q c =>
        cases c with
        | transition st =>
          cases st with
          | running | blocked => cases hmark
          | _ => rfl
        | _ => cases ho
      | put q => rcases hmark with hc | hc | ⟨x, hc⟩ <;> cases hc
      | _ => cases ho
    · cases o <;> rfl
    · cases o with
      | register q k => cases hmark
      | _ => rfl
  · rcases after_soft cfg out kids hl hpre hmark ho with hsame | ⟨hc, -⟩ | ⟨hc, -⟩
    · exact hsame
    · rcases hc with hc | ⟨x, hc⟩ <;> cases hc
    · rcases hc with hc | hc <;> cases hc

/-- The registry, after the operation. -/
lemma registered_step (h : Marked f g ls ms) (hpre : (ls t).allows o) (hmark : (ms t).allows o)
    (hlearn : (ls t).learns o (Fleet.exec cfg out kids t o f).1 l') {k : ℕ}
    (hk : (Fleet.exec cfg out kids t o f).2.registry p = some k) :
    ∃ u s b, Function.update ls t l' u = .holding p s ∧ s.bond = some (k, b) ∧
      Function.update ms t ((ms t).after o (Fleet.exec cfg out kids t o f).1) u = .alive := by
  -- a child that was there before, and that its worker still knows
  have hold : f.registry p = some k →
      (∀ s b, ls t = .holding p s → s.bond = some (k, b) →
        ∃ s' b', l' = .holding p s' ∧ s'.bond = some (k, b')) →
      ∃ u s b, Function.update ls t l' u = .holding p s ∧ s.bond = some (k, b) ∧
        Function.update ms t ((ms t).after o (Fleet.exec cfg out kids t o f).1) u = .alive := by
    intro hbefore hkept
    obtain ⟨u, s, b, hl, hb, hm⟩ := h.registered p k hbefore
    by_cases hut : u = t
    · subst hut
      obtain ⟨s', b', hl', hb'⟩ := hkept s b hl hb
      rw [hm] at hmark
      refine ⟨u, s', b', by rw [Function.update_self, hl'], hb', ?_⟩
      rw [Function.update_self, hm]
      exact after_alive hl hpre hmark
    · exact ⟨u, s, b, by rw [Function.update_of_ne hut, hl], hb, by rw [Function.update_of_ne hut, hm]⟩
  have hsame : SameBond (ls t) l' → ∀ s b, ls t = .holding p s → s.bond = some (k, b) →
      ∃ s' b', l' = .holding p s' ∧ s'.bond = some (k, b') := by
    intro hbond s b hl hb
    obtain ⟨s', hl', hb'⟩ := hbond.2 p s _ hl hb
    exact ⟨s', b, hl', hb'⟩
  rcases o with (o | o) | o
  · exact hold hk (hsame (sameBond_shift (Desk.shift_kernel hpre hlearn)))
  · refine hold ?_ (hsame (sameBond_child hpre hlearn))
    cases o <;> exact hk
  · cases o with
    | fork q =>
      obtain ⟨u, c, hl⟩ := hpre
      refine hold hk fun s b hs hb => ?_
      cases hl.symm.trans hs
      cases hb
    | register q j =>
      obtain ⟨u, c, hl⟩ := hpre
      have hnow : Function.update f.registry q (some j) p = some k := hk
      by_cases hp : p = q
      · subst hp
        rw [Function.update_self] at hnow
        cases hnow
        have hl' := hlearn p u c k hl
        exact ⟨t, _, .enrolled, by rw [Function.update_self, hl'], rfl, Function.update_self _ _ _⟩
      · rw [Function.update_of_ne hp] at hnow
        refine hold hnow fun s b hs _ => ?_
        cases hl.symm.trans hs
        exact absurd rfl hp
    | readAll j =>
      obtain ⟨q, u, c, hl⟩ := hpre
      refine hold hk fun s b hs hb => ?_
      cases hl.symm.trans hs
      cases hb
      exact ⟨_, .heard, hlearn p u c k hl, rfl⟩
    | reap q j =>
      have hnow : Function.update f.registry q none p = some k := hk
      have hq : p ≠ q := by
        rintro rfl
        rw [Function.update_self] at hnow
        cases hnow
      rw [Function.update_of_ne hq] at hnow
      refine hold hnow fun s b hs _ => ?_
      rcases hpre with ⟨u, c, raw, hl⟩ | ⟨u, c, r, hl⟩ <;>
      · cases hl.symm.trans hs
        exact absurd rfl hq
    | lookup q | signal j =>
      obtain ⟨seen, e, hl, -⟩ := hpre
      refine hold hk fun s b hs _ => ?_
      cases hl.symm.trans hs
    | signalAll | childMoves j =>
      refine hold hk fun s b hs hb => ⟨s, b, ?_, hb⟩
      rw [← hs]
      exact hlearn

/-- **The step lemma.** -/
lemma Marked.step (hI : Custody f ls)
    (hI' : Custody (Fleet.exec cfg out kids t o f).2 (Function.update ls t l'))
    (h : Marked f g ls ms) (hpre : (ls t).allows o) (hmark : (ms t).allows o)
    (hguard : NeverBlocked t o (f, g))
    (hlearn : (ls t).learns o (Fleet.exec cfg out kids t o f).1 l') :
    Marked (Fleet.exec cfg out kids t o f).2 (told cfg out kids t o f g) (Function.update ls t l')
      (Function.update ms t ((ms t).after o (Fleet.exec cfg out kids t o f).1)) where
  callers := by
    intro u hrole
    by_cases hut : u = t
    · subst hut
      rw [Function.update_self] at hrole ⊢
      rw [Function.update_self]
      exact callers_step hI hI' h hpre hmark hlearn hrole
    · rw [Function.update_of_ne hut] at hrole ⊢
      rw [Function.update_of_ne hut]
      exact h.callers u hrole
  unborn := by
    intro p hp
    have hbefore : ¬Allocated f.world.nextPid p := fun halloc => hp (allocated_fleet halloc)
    have ho : bears o ≠ some p := by
      intro ho
      rcases bearer h hpre hmark ho with ⟨s, hl⟩ | hl
      · exact hbefore (hI.allocated hl)
      · exact hbefore (allocated_of_resting hI (.inr ⟨t, hl⟩))
    obtain ⟨hblocked, hsettled⟩ : (told cfg out kids t o f g).blocked p = g.blocked p ∧
      (told cfg out kids t o f g).settled p = g.settled p := chronicler_of_ne ho
    rw [hblocked, hsettled]
    exact h.unborn p hbefore
  resting := by
    intro p hrest
    by_cases ho : bears o = some p
    · exact resting_borne hI hI' h hpre hmark ho hrest
    · exact resting_soft hI hI' h ho hrest
  held := fun _ _ _ hu => (held_step hI hI' h hpre hmark hguard hlearn hu).1
  settled := fun _ _ _ hu => (held_step hI hI' h hpre hmark hguard hlearn hu).2
  registered := fun _ _ hk => registered_step h hpre hmark hlearn hk

end Gcos.Process
