import Gcos.Process.Brood
import Gcos.Pool.Dead

/-!
# A kill and the child of its victim

`kill` asks the registry `_children` for the child of its victim and signals it.  The worker
that dispatches the victim has looked at its state once, at the beginning; after that it
reserves units, forks, and only then enters the child in the registry.  A kill that asks in
between finds nobody, and the child runs on.

A kill that does not ask in between is real: when it takes its victim out of the ready
queue, which is what `kill` does after the signals and before it answers `True`, every child
of the victim was signalled or had written its complete report, and there will never be
another one.
-/

namespace Gcos.Process

open Lib Pool World

variable {n : ℕ}

/-- What an observer of the kills remembers: which worker has picked which agent and not yet
entered its child in the registry, and whether it has found the agent live; whom a caller
has made a `ZOMBIE` and not yet looked up; and whose kill is through with the signals. -/
structure Sights (n : ℕ) where
  launching : Tid n → Option (Pid × Bool) := fun _ => none
  slain : Tid n → Option Pid := fun _ => none
  killed : Pid → Bool := fun _ => false

/-- The observer of the kills. -/
def sentry : Observer FOp (Tid n) (Fleet n) (Sights n)
  | _, t, .inl (.inl .pickNext), _, some p, g =>
    { g with launching := Function.update g.launching t (some (p, false)) }
  | _, t, .inl (.inl (.readPcb p _)), _, pcb, g =>
    -- the first look at the agent that was picked
    if g.launching t = some (p, false) ∧ pcb.isTerminal = false then
      { g with launching := Function.update g.launching t (some (p, true)) }
    else g
  | _, t, .inr (.register _ _), _, _, g | _, t, .inl (.inl (.put _)), _, _, g
  | _, t, .inl (.inl .taskDone), _, _, g =>
    { g with launching := Function.update g.launching t none }
  | _, t, .inl (.inl (.write p (.transition .zombie))), _, _, g =>
    { g with slain := Function.update g.slain t (some p) }
  | _, t, .inr (.lookup _), _, _, g => { g with slain := Function.update g.slain t none }
  | _, _, .inl (.inl (.popQueued p)), _, _, g => { g with killed := Function.update g.killed p true }
  | _, _, _, _, _, g => g

/-- When the kill of `p` is through with its signals, every child that `p` will ever have is
there and was signalled or has written its complete report. -/
def KillIsReal (sys : System FOp (Tid n) (Fleet n) FleetCall)
    (start : Lib.Pool FOp (Tid n) (Fleet n)) (as bs : List (Act (Tid n) FleetCall)) (p : Pid) :
    Prop :=
  (sys.observed sentry start {} as).killed p = true →
    ∀ (k : ℕ) (c : ChildProc n),
      (sys.run (sys.run start as) bs).shared.procs[k]? = some c → c.agent = p →
        ∃ c₀, (sys.run start as).shared.procs[k]? = some c₀ ∧
          (c₀.signalled = true ∨ c₀.phase = .reported)

/-- A kill asks for the child of its victim only while no worker is between the look at the
victim's state and the entry in the registry. -/
def AsksOutside : System.Guard FOp (Tid n) (Fleet n × Sights n)
  | _, t, .inr (.lookup p), s =>
    s.2.slain t = some p → ∀ i : Fin n, s.2.launching (.worker i) ≠ some (p, true)
  | _, _, _, _ => True

variable {cfg : KernelConfig} {out : Outside} {kids : ℕ → Offspring} {t : Tid n} {β : Type}
  {o : FOp β} {f : Fleet n} {ls : Tid n → Desk} {l' : Desk} {p : Pid} {s s' : Stage}

/-! ### The way of an agent through a dispatch -/

/-- From one stage to the next: nothing leads back to the time before the launch, and only
a look at a live agent leads into the time between the look and the launch. -/
structure Stage.Onward (live : Bool) (s s' : Stage) : Prop where
  launched : s.launched = true → s'.launched = true
  window : s.window = false → s'.window = true → live = true

lemma Stage.Onward.refl (live : Bool) (s : Stage) : s.Onward live s where
  launched := id
  window := fun h h' => by
    rw [h] at h'
    cases h'

lemma Stage.onward_read (s : Stage) (b : AgentControlBlock) : s.Onward (!b.isTerminal) (s.read b) := by
  cases s with
  | picked =>
    simp only [Stage.read]
    split
    · exact .refl _ _
    · next hlive => exact ⟨id, fun _ _ => by simpa using hlive⟩
  | granted units => exact ⟨id, fun h => by cases h⟩
  | _ => exact .refl _ _

/-- How a thread comes to hold an agent: it has picked it, or goes on with it. -/
def ComesBy (f : Fleet n) (l : Desk) (p : Pid) (s' : Stage) : Prop :=
  (p ∈ f.world.queue.q ∧ s' = .picked) ∨
    ∃ s, l = .holding p s ∧ s.Onward (!(f.world.pcbs p).isTerminal) s'

lemma comesBy_kernel {o : KOp β} (hpre : (ls t).allowsKernel o)
    (hlearn : (ls t).learnsKernel o (World.exec cfg out t o f.world).1 (.holding p s')) :
    ComesBy f (ls t) p s' := by
  have hsame : ls t = .holding p s' → ComesBy f (ls t) p s' := fun h => .inr ⟨s', h, .refl _ _⟩
  cases o with
  | readPcb q _ =>
    cases hl : ls t with
    | holding r s =>
      rw [hl] at hpre hlearn
      obtain rfl : r = q := hpre r s rfl
      obtain ⟨-, heq⟩ := hlearn
      cases heq
      exact .inr ⟨s, rfl, s.onward_read _⟩
    | idle | released | caller _ _ | spawning _ =>
      rw [hl] at hlearn
      cases hlearn
  | write q c =>
    cases hl : ls t with
    | caller seen e =>
      rw [hl] at hlearn
      have heq : Desk.holding p s' = Desk.wrote q c (.caller seen e) := hlearn
      simp only [Desk.wrote] at heq
      split at heq <;> cases heq
    | idle | released | spawning _ | holding _ _ =>
      rw [hl] at hlearn
      rw [← hl]
      exact hsame (hl.trans (Eq.symm hlearn))
  | newPcb args => cases hlearn
  | tableHas q =>
    cases hl : ls t with
    | caller seen e =>
      rw [hl] at hlearn
      cases hlearn
    | idle | released | spawning _ | holding _ _ =>
      rw [hl] at hlearn
      rw [← hl]
      exact hsame (hl.trans (Eq.symm hlearn))
  | tableAdd q =>
    have hl : ls t = .spawning q := hpre
    rw [hl] at hlearn
    have heq : Desk.holding p s' = if _ then Desk.spawning q else .caller [] .none := hlearn
    split at heq <;> cases heq
  | pickNext =>
    have hl : ls t = .idle := hpre
    rw [hl] at hlearn
    rcases cfg.scheduler.pickNext_cases f.world.pcbs (out.clock f.world.ticks) f.world.queue with
      ⟨-, hpick⟩ | ⟨q, hq, hpick⟩
    · simp only [World.exec, hpick] at hlearn
      cases hlearn
    · simp only [World.exec, hpick] at hlearn
      cases hlearn
      exact .inl ⟨hq, rfl⟩
  | put q =>
    rcases hpre with hl | ⟨s, hl, -, -⟩
    · rw [hl] at hlearn
      cases hlearn
    · rw [hl] at hlearn ⊢
      have heq : Desk.holding p s' = if _ then Desk.released else .holding q .closed := hlearn
      split at heq
      · cases heq
      · cases heq
        exact .inr ⟨s, rfl, fun _ => rfl, fun _ h => by cases h⟩
  | taskDone => cases hlearn
  | acquire | refund | chat purpose request | swapOut p pages | runPython code timeout priority =>
    exact hpre.elim
  | _ => exact hsame (Eq.symm hlearn)

lemma comesBy_child {o : ChildOp β} {b : β} (hpre : (ls t).allows (.inl (.inr o)))
    (hlearn : (ls t).learns (.inl (.inr o)) b (.holding p s')) : ComesBy f (ls t) p s' := by
  have hon : ∀ {s s' : Stage}, s.window = true ∨ s'.window = false →
      (s.launched = true → s'.launched = true) → s.Onward (!(f.world.pcbs p).isTerminal) s' := by
    intro s s' hwindow hlaunched
    refine ⟨hlaunched, fun h h' => ?_⟩
    rcases hwindow with hw | hw
    · rw [hw] at h
      cases h
    · rw [hw] at h'
      cases h'
  cases o with
  | acquireUpTo units =>
    obtain ⟨q, hl⟩ := hpre
    cases hlearn.2 q hl
    exact .inr ⟨_, hl, hon (.inl rfl) id⟩
  | refund units =>
    obtain ⟨q, u, c, k, r, hl, -⟩ := hpre
    cases hlearn q u c k r hl
    exact .inr ⟨_, hl, hon (.inr rfl) id⟩
  | assign q a =>
    have heq : Desk.holding p s' = (ls t).assigned a := hlearn
    cases a with
    | quotaRemaining units =>
      rcases hpre with hl | hl | ⟨u, c, k, r, hl⟩
      · rw [hl] at heq
        cases heq
        exact .inr ⟨_, hl, hon (.inl rfl) id⟩
      · rw [hl] at heq
        cases heq
        exact .inr ⟨_, hl, .refl _ _⟩
      · rw [hl] at heq
        cases heq
        exact .inr ⟨_, hl, .refl _ _⟩
    | llmCallsUsed calls =>
      obtain ⟨u, c, k, payload, hl, -⟩ := hpre
      rw [hl] at heq
      cases heq
      exact .inr ⟨_, hl, hon (.inr rfl) fun _ => rfl⟩
    | state st | tokensUsed tokens | finishedAt time => exact .inr ⟨s', heq.symm, .refl _ _⟩
  | runChild q => exact hpre.elim

lemma comesBy_fleet {o : FleetOp β} {b : β} (hpre : (ls t).allows (.inr o))
    (hlearn : (ls t).learns (.inr o) b (.holding p s')) : ComesBy f (ls t) p s' := by
  cases o with
  | fork q =>
    obtain ⟨u, c, hl⟩ := hpre
    cases hlearn q u c hl
    exact .inr ⟨_, hl, id, fun h => by cases h⟩
  | register q k =>
    obtain ⟨u, c, hl⟩ := hpre
    cases hlearn q u c k hl
    exact .inr ⟨_, hl, fun _ => rfl, fun h => by cases h⟩
  | readAll k =>
    obtain ⟨q, u, c, hl⟩ := hpre
    cases hlearn q u c k hl
    exact .inr ⟨_, hl, fun _ => rfl, fun _ h => by cases h⟩
  | reap q k =>
    rcases hpre with ⟨u, c, raw, hl⟩ | ⟨u, c, r, hl⟩
    · cases hlearn.1 q u c k raw hl
      exact .inr ⟨_, hl, fun _ => rfl, fun _ h => by cases h⟩
    · cases hlearn.2 q u c k r hl
      exact .inr ⟨_, hl, fun _ => rfl, fun _ h => by cases h⟩
  | lookup q =>
    obtain ⟨seen, e, hl, -⟩ := hpre
    cases hlearn seen e hl
  | signal k =>
    obtain ⟨seen, e, hl, -⟩ := hpre
    cases hlearn seen e hl
  | signalAll | childMoves k => exact .inr ⟨s', Eq.symm hlearn, .refl _ _⟩

lemma comesBy (hpre : (ls t).allows o)
    (hlearn : (ls t).learns o (Fleet.exec cfg out kids t o f).1 (.holding p s')) :
    ComesBy f (ls t) p s' := by
  rcases o with (o | o) | o
  · exact comesBy_kernel hpre hlearn
  · exact comesBy_child hpre hlearn
  · exact comesBy_fleet hpre hlearn

/-! ### An agent that will have no more children -/

/-- The child of the agent was launched, and the agent will not come back. -/
structure Past (f : Fleet n) (ls : Tid n → Desk) (p : Pid) : Prop where
  enqueued : p ∈ f.world.enqueued
  queue : p ∉ f.world.queue.q
  launched : ∀ t s, ls t = .holding p s → s.launched = true

/-- The agent is terminal, or was launched before it could be finalized. -/
structure Doomed (f : Fleet n) (ls : Tid n → Desk) (p : Pid) : Prop where
  allocated : Allocated f.world.nextPid p
  gone : (f.world.pcbs p).isTerminal = true ∨ Past f ls p

/-- The agent will have no more children. -/
structure Barred (f : Fleet n) (ls : Tid n → Desk) (p : Pid) : Prop extends Doomed f ls p where
  window : ∀ t s, ls t = .holding p s → s.window = false

lemma Past.step (hI : Custody f ls) (h : Past f ls p) (hpre : (ls t).allows o)
    (hlearn : (ls t).learns o (Fleet.exec cfg out kids t o f).1 l') :
    Past (Fleet.exec cfg out kids t o f).2 (Function.update ls t l') p := by
  constructor
  case enqueued =>
    rcases o with (o | o) | o
    · exact mem_enqueued_exec h.enqueued
    · cases o <;> exact h.enqueued
    · cases o <;> exact h.enqueued
  case queue =>
    rcases o with (o | o) | o
    · intro hmem
      rcases mem_entries_exec hmem with hq | ⟨hputs, -, -⟩
      · exact h.queue hq
      · cases o with
        | put q =>
          cases hputs
          rcases hpre with hl | ⟨s, hl, hwindow, -⟩
          · have hfresh : ((fun u => (ls u).hand) t).fresh = some p := by
              show (ls t).fresh = some p
              rw [hl]
              rfl
            exact (hI.owned.fresh t p hfresh).1 h.enqueued
          · have hlaunched := h.launched t s hl
            cases s <;> simp_all [Stage.window, Stage.launched]
        | _ => cases hputs
    · cases o <;> exact h.queue
    · cases o <;> exact h.queue
  case launched =>
    intro u s' hu
    rcases update_eq_cases hu with ⟨rfl, hnow⟩ | ⟨-, hu⟩
    · rw [hnow] at hlearn
      rcases comesBy hpre hlearn with ⟨hq, -⟩ | ⟨s, hl, hon⟩
      · exact absurd hq h.queue
      · exact hon.launched (h.launched u s hl)
    · exact h.launched u s' hu

/-- Who is being reconciled with the report of its child is past its launch. -/
lemma past_of_counted (hI : Custody f ls) {u c : ℤ} {k : ℕ} {r : ℤ}
    (hl : ls t = .holding p (.counted u c k r)) : Past f ls p where
  enqueued := (hI.owned.held t p (held_of_holding hl)).1
  queue := hI.not_mem hl
  launched := by
    intro v s hv
    obtain rfl := hI.once hl hv
    rw [hl] at hv
    cases hv
    rfl

lemma Doomed.step (hI : Custody f ls) (h : Doomed f ls p) (hpre : (ls t).allows o)
    (hlearn : (ls t).learns o (Fleet.exec cfg out kids t o f).1 l') :
    Doomed (Fleet.exec cfg out kids t o f).2 (Function.update ls t l') p := by
  constructor
  case allocated =>
    rcases o with (o | o) | o
    · exact allocated_exec h.allocated
    · cases o <;> exact h.allocated
    · cases o <;> exact h.allocated
  case gone =>
    rcases h.gone with hterm | hpast
    · rcases o with (o | o) | o
      · exact .inl (isTerminal_exec hterm h.allocated)
      · cases o with
        | assign q a =>
          by_cases hq : p = q
          · subst hq
            cases a with
            | state st =>
              obtain ⟨u, c, k, r, hl⟩ := hpre
              exact .inr ((past_of_counted hI hl).step hI ⟨u, c, k, r, hl⟩ hlearn)
            | quotaRemaining units | tokensUsed tokens | llmCallsUsed calls | finishedAt time =>
              left
              simp only [Fleet.exec, Process.exec, Function.update_self]
              exact hterm
          · left
            simp only [Fleet.exec, Process.exec, Function.update_of_ne hq]
            exact hterm
        | acquireUpTo units | refund units => exact .inl hterm
        | runChild q => exact hpre.elim
      · cases o <;> exact .inl hterm
    · exact .inr (hpast.step hI hpre hlearn)

lemma Barred.step (hI : Custody f ls) (h : Barred f ls p) (hpre : (ls t).allows o)
    (hlearn : (ls t).learns o (Fleet.exec cfg out kids t o f).1 l') :
    Barred (Fleet.exec cfg out kids t o f).2 (Function.update ls t l') p where
  toDoomed := h.toDoomed.step hI hpre hlearn
  window := by
    intro u s' hu
    rcases update_eq_cases hu with ⟨rfl, hnow⟩ | ⟨-, hu⟩
    · rw [hnow] at hlearn
      rcases comesBy hpre hlearn with ⟨-, rfl⟩ | ⟨s, hl, hon⟩
      · rfl
      · -- only a live agent could be launched, and one that is past its launch is not
        by_contra hwindow
        have hlive := hon.window (h.window u s hl) (by simpa using hwindow)
        rcases h.gone with hterm | hpast
        · simp [hterm] at hlive
        · have hlaunched := hon.launched (hpast.launched u s hl)
          cases s' <;> simp_all [Stage.window, Stage.launched]
    · exact h.window u s' hu

/-! ### Its children -/

/-- The child was signalled or has written its complete report. -/
def ChildProc.Settled (c : ChildProc n) : Prop := c.signalled = true ∨ c.phase = .reported

lemma ChildProc.Settled.later {c c' : ChildProc n} (h : c.Settled) (hlater : c.Later c') :
    c'.Settled := by
  rcases h with hsignal | hreport
  · exact .inl (hlater.signalled hsignal)
  · have hended : c.ended = true := by rw [ChildProc.ended, hreport]
    exact .inr ((hlater.ended hended).1.trans hreport)

/-- A child at its end has reported, or was ended by a signal. -/
lemma Brood.settled (h : Brood f ls) {j : ℕ} {c : ChildProc n} (hc : f.procs[j]? = some c)
    (hended : c.ended = true) : c.Settled := by
  cases hphase : c.phase with
  | reported => exact .inr hphase
  | dead torn => exact .inl (h.dead j c hc torn hphase)
  | running | writing =>
    rw [ChildProc.ended, hphase] at hended
    cases hended

/-- All children of the agent are settled, but for child `k` perhaps. -/
def SettledBut (f : Fleet n) (p : Pid) (k : Option ℕ) : Prop :=
  ∀ (j : ℕ) (c : ChildProc n), f.procs[j]? = some c → c.agent = p → some j = k ∨ c.Settled

/-- The agent has no child that is not settled, and will have no other. -/
def Finished (f : Fleet n) (ls : Tid n → Desk) (p : Pid) (k : Option ℕ) : Prop :=
  Barred f ls p ∧ SettledBut f p k

/-- A child that the agent has after an operation it had before. -/
lemma Barred.child (h : Barred f ls p) (hpre : (ls t).allows o) {j : ℕ} {c' : ChildProc n}
    (hc' : (Fleet.exec cfg out kids t o f).2.procs[j]? = some c') (hagent : c'.agent = p) :
    ∃ c, f.procs[j]? = some c ∧ c.agent = p ∧ c.Later c' := by
  rcases Fleet.child_cases hc' with ⟨c, hc, hturn⟩ | ⟨q, hfork, -, rfl⟩
  · exact ⟨c, hc, hturn.later.agent.symm.trans hagent, hturn.later⟩
  · obtain rfl : q = p := hagent
    rcases o with o | o
    · cases hfork
    · cases o with
      | fork r =>
        cases hfork
        obtain ⟨u, calls, hl⟩ := hpre
        cases h.window t _ hl
      | _ => cases hfork

lemma Finished.step (hI : Custody f ls) {k : Option ℕ} (h : Finished f ls p k)
    (hpre : (ls t).allows o) (hlearn : (ls t).learns o (Fleet.exec cfg out kids t o f).1 l') :
    Finished (Fleet.exec cfg out kids t o f).2 (Function.update ls t l') p k := by
  refine ⟨h.1.step hI hpre hlearn, fun j c' hc' hagent => ?_⟩
  obtain ⟨c, hc, hagent, hlater⟩ := h.1.child hpre hc' hagent
  exact (h.2 j c hc hagent).imp_right fun hsettled => hsettled.later hlater

/-! ### What the observer sees -/

variable {g : Sights n}

/-- What the observer has noted about a worker at this stage. -/
def Desk.launching : Desk → Option (Pid × Bool)
  | holding p .picked => some (p, false)
  | holding p s => if s.window then some (p, true) else none
  | _ => none

lemma launching_of_window (h : s.window = true) : (Desk.holding p s).launching = some (p, true) := by
  cases s <;> simp_all [Stage.window, Desk.launching]

/-- A look at the agent. -/
lemma launching_readPcb {look : Look} {q : Pid} (hpre : (ls t).allowsKernel (.readPcb q look))
    (hlearn : (ls t).learnsKernel (.readPcb q look) (f.world.pcbs q) l')
    (hg : g.launching t = (ls t).launching) :
    (sentry t (.inl (.inl (.readPcb q look))) f (f.world.pcbs q) g).launching t = l'.launching := by
  have hother : (ls t).launching ≠ some (q, false) → l'.launching = (ls t).launching →
      (sentry t (.inl (.inl (.readPcb q look))) f (f.world.pcbs q) g).launching t = l'.launching := by
    intro hne hl'
    simp only [sentry]
    rw [if_neg fun h => hne (hg ▸ h.1), hg, hl']
  cases hl : ls t with
  | holding r s =>
    rw [hl] at hpre hlearn hg hother
    obtain rfl : r = q := hpre r s rfl
    obtain ⟨-, rfl⟩ := hlearn
    cases s with
    | picked =>
      simp only [sentry, Stage.read]
      cases hterm : (f.world.pcbs r).isTerminal with
      | true =>
        rw [if_neg (by simp), if_pos rfl]
        exact hg
      | false =>
        rw [if_pos ⟨hg, rfl⟩, if_neg (by simp)]
        exact Function.update_self t _ _
    | _ => exact hother (by simp [Desk.launching, Stage.window]) rfl
  | idle | released | caller seen e | spawning r =>
    rw [hl] at hlearn hother
    obtain rfl : l' = _ := hlearn
    exact hother (by simp [Desk.launching]) rfl

lemma launching_kernel {o : KOp β} (hpre : (ls t).allowsKernel o)
    (hlearn : (ls t).learnsKernel o (World.exec cfg out t o f.world).1 l')
    (hg : g.launching t = (ls t).launching) :
    (sentry t (.inl (.inl o)) f (World.exec cfg out t o f.world).1 g).launching t = l'.launching := by
  cases o with
  | readPcb q _ => exact launching_readPcb hpre hlearn hg
  | write q c =>
    have hkept : (sentry t (.inl (.inl (.write q c))) f () g).launching = g.launching := by
      cases c with
      | transition st => cases st <;> rfl
      | _ => rfl
    obtain rfl : l' = (ls t).wrote q c := hlearn
    have hwrote : ((ls t).wrote q c).launching = (ls t).launching := by
      cases ls t with
      | caller seen e =>
        simp only [Desk.wrote]
        split <;> rfl
      | _ => rfl
    rw [hwrote, ← hg]
    exact congrFun hkept t
  | newPcb args =>
    obtain ⟨seen, e, hl⟩ := hpre
    rw [hl] at hg
    obtain rfl : l' = .spawning _ := hlearn
    exact hg
  | tableHas q =>
    cases hl : ls t with
    | caller seen e =>
      rw [hl] at hlearn hg
      obtain rfl : l' = .caller _ e := hlearn
      exact hg
    | idle | released | spawning _ | holding _ _ =>
      rw [hl] at hlearn hg
      obtain rfl : l' = _ := hlearn
      exact hg
  | tableAdd q =>
    have hl : ls t = .spawning q := hpre
    rw [hl] at hlearn hg
    have heq : l' = if _ then Desk.spawning q else .caller [] .none := hlearn
    split at heq
    · rw [heq]
      exact hg
    · rw [heq]
      exact hg
  | pickNext =>
    have hl : ls t = .idle := hpre
    rw [hl] at hlearn hg
    rcases cfg.scheduler.pickNext_cases f.world.pcbs (out.clock f.world.ticks) f.world.queue with
      ⟨-, hpick⟩ | ⟨q, hq, hpick⟩
    · simp only [World.exec, hpick] at hlearn ⊢
      obtain rfl : l' = .idle := hlearn
      exact hg
    · simp only [World.exec, hpick] at hlearn ⊢
      obtain rfl : l' = .holding q .picked := hlearn
      simp only [sentry, Function.update_self]
      rfl
  | put q =>
    simp only [sentry, Function.update_self]
    rcases hpre with hl | ⟨s, hl, -, -⟩
    · rw [hl] at hlearn
      obtain rfl : l' = .caller [] .none := hlearn
      rfl
    · rw [hl] at hlearn
      have heq : l' = if _ then Desk.released else .holding q .closed := hlearn
      split at heq
      · rw [heq]
        rfl
      · rw [heq]
        rfl
  | taskDone =>
    obtain rfl : l' = .idle := hlearn
    simp only [sentry, Function.update_self]
    rfl
  | acquire | refund | chat purpose request | swapOut p pages | runPython code timeout priority =>
    exact hpre.elim
  | _ =>
    obtain rfl : l' = ls t := hlearn
    exact hg

lemma launching_child {o : ChildOp β} {b : β} (hpre : (ls t).allows (.inl (.inr o)))
    (hlearn : (ls t).learns (.inl (.inr o)) b l') : l'.launching = (ls t).launching := by
  cases o with
  | acquireUpTo units =>
    obtain ⟨q, hl⟩ := hpre
    rw [hlearn.2 q hl, hl]
    rfl
  | refund units =>
    obtain ⟨q, u, c, k, r, hl, -⟩ := hpre
    rw [hlearn q u c k r hl, hl]
    rfl
  | assign q a =>
    obtain rfl : l' = (ls t).assigned a := hlearn
    cases a with
    | quotaRemaining units =>
      rcases hpre with hl | hl | ⟨u, c, k, r, hl⟩ <;> rw [hl] <;> rfl
    | llmCallsUsed calls =>
      obtain ⟨u, c, k, payload, hl, -⟩ := hpre
      rw [hl]
      rfl
    | state st | tokensUsed tokens | finishedAt time => rfl
  | runChild q => exact hpre.elim

lemma launching_fleet {o : FleetOp β} {b : β} (hpre : (ls t).allows (.inr o))
    (hlearn : (ls t).learns (.inr o) b l') (hg : g.launching t = (ls t).launching) :
    (sentry t (.inr o) f b g).launching t = l'.launching := by
  cases o with
  | fork q =>
    obtain ⟨u, c, hl⟩ := hpre
    rw [hlearn q u c hl]
    rw [hl] at hg
    exact hg
  | register q k =>
    obtain ⟨u, c, hl⟩ := hpre
    rw [hlearn q u c k hl]
    exact Function.update_self t _ _
  | readAll k =>
    obtain ⟨q, u, c, hl⟩ := hpre
    rw [hlearn q u c k hl]
    rw [hl] at hg
    exact hg
  | reap q k =>
    rcases hpre with ⟨u, c, raw, hl⟩ | ⟨u, c, r, hl⟩
    · rw [hlearn.1 q u c k raw hl]
      rw [hl] at hg
      exact hg
    · rw [hlearn.2 q u c k r hl]
      rw [hl] at hg
      exact hg
  | lookup q =>
    obtain ⟨seen, e, hl, -⟩ := hpre
    rw [hlearn seen e hl]
    rw [hl] at hg
    exact hg
  | signal k =>
    obtain ⟨seen, e, hl, -⟩ := hpre
    rw [hlearn seen e hl]
    rw [hl] at hg
    exact hg
  | signalAll | childMoves k =>
    obtain rfl : l' = ls t := hlearn
    exact hg

/-- What the observer has noted about the other threads. -/
lemma sentry_of_ne {u : Tid n} (hu : u ≠ t) (b : β) :
    (sentry t o f b g).launching u = g.launching u ∧ (sentry t o f b g).slain u = g.slain u := by
  rcases o with (o | o) | o
  · cases o with
    | pickNext =>
      cases b with
      | none => exact ⟨rfl, rfl⟩
      | some q => exact ⟨Function.update_of_ne hu _ _, rfl⟩
    | readPcb q _ =>
      simp only [sentry]
      split
      · exact ⟨Function.update_of_ne hu _ _, rfl⟩
      · exact ⟨rfl, rfl⟩
    | write q c =>
      cases c with
      | transition st =>
        cases st with
        | zombie => exact ⟨rfl, Function.update_of_ne hu _ _⟩
        | _ => exact ⟨rfl, rfl⟩
      | _ => exact ⟨rfl, rfl⟩
    | put q | taskDone => exact ⟨Function.update_of_ne hu _ _, rfl⟩
    | _ => exact ⟨rfl, rfl⟩
  · exact ⟨rfl, rfl⟩
  · cases o with
    | register q k => exact ⟨Function.update_of_ne hu _ _, rfl⟩
    | lookup q => exact ⟨rfl, Function.update_of_ne hu _ _⟩
    | _ => exact ⟨rfl, rfl⟩

/-- The observer sees how far the worker has come. -/
lemma launching_step (hpre : (ls t).allows o)
    (hlearn : (ls t).learns o (Fleet.exec cfg out kids t o f).1 l')
    (hg : ∀ u, g.launching u = (ls u).launching) (u : Tid n) :
    (sentry t o f (Fleet.exec cfg out kids t o f).1 g).launching u =
      (Function.update ls t l' u).launching := by
  by_cases hut : u = t
  · subst hut
    rw [Function.update_self]
    rcases o with (o | o) | o
    · exact launching_kernel hpre hlearn (hg u)
    · rw [launching_child hpre hlearn]
      exact hg u
    · exact launching_fleet hpre hlearn (hg u)
  · rw [Function.update_of_ne hut, ← hg u]
    exact (sentry_of_ne hut _).1

/-! ### The errands of the callers -/

/-- What holds of the victim when its killer has come so far. -/
def Errand.Holds (f : Fleet n) (ls : Tid n → Desk) (slain : Option Pid) : Errand → Prop
  | none => True
  | slaying p => slain = some p ∧ Doomed f ls p
  | aiming p k => Finished f ls p (some k)
  | struck p => Finished f ls p Option.none

lemma Errand.Holds.step (hI : Custody f ls) {e : Errand} {slain : Option Pid}
    (h : e.Holds f ls slain) (hpre : (ls t).allows o)
    (hlearn : (ls t).learns o (Fleet.exec cfg out kids t o f).1 l') :
    e.Holds (Fleet.exec cfg out kids t o f).2 (Function.update ls t l') slain := by
  cases e with
  | none => trivial
  | slaying p => exact ⟨h.1, h.2.step hI hpre hlearn⟩
  | aiming p k => exact Finished.step hI h hpre hlearn
  | struck p => exact Finished.step hI h hpre hlearn

/-- The registry knows the child of an agent that is in no dispatch before its launch. -/
lemma Brood.settledBut (h : Brood f ls) (hbarred : Barred f ls p) :
    SettledBut f p (f.registry p) := by
  intro j c hc hagent
  rcases h.owner j c hc with hended | ⟨u, s, b, hu, hbond⟩
  · exact .inr (h.settled hc hended)
  · rw [hagent] at hu
    have hborn : b ≠ .born := by
      rintro rfl
      have hwindow := hbarred.window u s hu
      cases s <;> simp_all [Stage.bond, Stage.window]
    exact .inl (h.registered u p s j b hu hbond hborn).symm

/-- The signal reaches the child, or the child was at its end. -/
lemma Finished.strike (hB : Brood f ls) {k : ℕ} (h : Finished f ls p (some k)) :
    SettledBut (f.adjust k ChildProc.strike) p none := by
  intro j c' hc' hagent
  right
  rw [Fleet.getElem_adjust] at hc'
  split at hc'
  · next hk =>
    subst hk
    obtain ⟨c, hc, rfl⟩ := Option.map_eq_some_iff.1 hc'
    unfold ChildProc.strike
    split
    · next hreaped => exact hB.settled hc (hB.reaped k c hc hreaped)
    · exact .inl rfl
  · next hk =>
    have hne : some j ≠ some k := fun heq => hk (Option.some.inj heq).symm
    exact (h.2 j c' hc' hagent).resolve_left hne

/-- What the observer has seen agrees with the notes, and every kill is where its killer
thinks it is. -/
structure Vigil (f : Fleet n) (g : Sights n) (ls : Tid n → Desk) : Prop where
  launching : ∀ t, g.launching t = (ls t).launching
  errands : ∀ t seen e, ls t = .caller seen e → e.Holds f ls (g.slain t)
  killed : ∀ p, g.killed p = true → Finished f ls p none

/-- A write: whoever makes an agent a `ZOMBIE` is after its child from then on. -/
lemma errand_write (hI : Custody f ls) (h : Vigil f g ls) {q : Pid} {c : Write}
    (hpre : (ls t).allows (.inl (.inl (.write q c)))) {seen : List Pid} {e : Errand}
    (hl' : .caller seen e = (ls t).wrote q c) :
    e.Holds (Fleet.exec cfg out kids t (.inl (.inl (.write q c))) f).2
      (Function.update ls t (.caller seen e))
      ((sentry t (.inl (.inl (.write q c))) f () g).slain t) := by
  cases hl : ls t with
  | idle | released | spawning r | holding r s =>
    rw [hl] at hl'
    cases hl'
  | caller seen₀ e₀ =>
    rw [hl] at hl'
    simp only [Desk.wrote] at hl'
    split at hl'
    · next hzombie =>
      subst hzombie
      cases hl'
      split
      · next hmem =>
        refine ⟨Function.update_self t _ _, allocated_exec (hI.seen t _ _ hl q hmem), .inl ?_⟩
        have hpcbs := (exec_write cfg out t f.world q (.transition .zombie)).1
        change ((World.exec cfg out t (.write q (.transition .zombie)) f.world).2.pcbs q).isTerminal = true
        rw [hpcbs, Function.update_self, Write.apply, AgentControlBlock.isTerminal_transition]
        simp [AgentState.isTerminal]
      · trivial
    · next hother =>
      cases hl'
      have hslain : (sentry t (.inl (.inl (.write q c))) f () g).slain = g.slain := by
        cases c with
        | transition st =>
          cases st with
          | zombie => exact absurd rfl hother
          | _ => rfl
        | _ => rfl
      rw [hslain]
      refine (h.errands t seen e hl).step hI hpre ?_
      show Desk.caller seen e = (ls t).wrote q c
      rw [hl, Desk.wrote, if_neg hother]

/-- The operations of the kernel. -/
lemma errand_kernel {o : KOp β} (hI : Custody f ls) (h : Vigil f g ls)
    (hpre : (ls t).allows (.inl (.inl o))) {seen : List Pid} {e : Errand}
    (hlearn : (ls t).learns (.inl (.inl o)) (World.exec cfg out t o f.world).1 (.caller seen e)) :
    e.Holds (Fleet.exec cfg out kids t (.inl (.inl o)) f).2 (Function.update ls t (.caller seen e))
      ((sentry t (.inl (.inl o)) f (World.exec cfg out t o f.world).1 g).slain t) := by
  have hsame : ∀ {seen₀}, ls t = .caller seen₀ e →
      e.Holds (Fleet.exec cfg out kids t (.inl (.inl o)) f).2 (Function.update ls t (.caller seen e))
        (g.slain t) :=
    fun hl => (h.errands t _ e hl).step hI hpre hlearn
  cases o with
  | write q c => exact errand_write hI h hpre hlearn
  | readPcb q look =>
    have hslain : (sentry t (.inl (.inl (.readPcb q look))) f
        (World.exec cfg out t (.readPcb q look) f.world).1 g).slain = g.slain := by
      simp only [sentry]
      split <;> rfl
    cases hl : ls t with
    | caller seen₀ e₀ =>
      have heq : Desk.caller seen e = .caller seen₀ e₀ := by
        rw [hl] at hlearn
        exact hlearn
      cases heq
      rw [hslain]
      exact hsame hl
    | holding r s =>
      rw [hl] at hlearn
      cases hlearn.2
    | idle | released | spawning r =>
      rw [hl] at hlearn
      cases hlearn
  | newPcb args => cases hlearn
  | tableHas q =>
    cases hl : ls t with
    | caller seen₀ e₀ =>
      have heq : e = e₀ := by
        rw [hl] at hlearn
        exact (Desk.caller.inj hlearn).2
      subst heq
      exact hsame hl
    | idle | released | spawning r | holding r s =>
      rw [hl] at hlearn
      cases hlearn
  | tableAdd q =>
    have hl : ls t = .spawning q := hpre
    rw [hl] at hlearn
    have heq : Desk.caller seen e = if _ then Desk.spawning q else .caller [] .none := hlearn
    split at heq <;> cases heq
    trivial
  | pickNext =>
    have hl : ls t = .idle := hpre
    rw [hl] at hlearn
    rcases cfg.scheduler.pickNext_cases f.world.pcbs (out.clock f.world.ticks) f.world.queue with
      ⟨-, hpick⟩ | ⟨q, hq, hpick⟩ <;>
      · simp only [Desk.learns, World.exec, hpick] at hlearn
        cases hlearn
  | put q =>
    rcases hpre with hl | ⟨s, hl, -, -⟩
    · rw [hl] at hlearn
      cases hlearn
      trivial
    · rw [hl] at hlearn
      have heq : Desk.caller seen e = if _ then Desk.released else .holding q .closed := hlearn
      split at heq <;> cases heq
  | taskDone => cases hlearn
  | acquire | refund | chat purpose request | swapOut p pages | runPython code timeout priority =>
    exact hpre.elim
  | _ => exact hsame (Eq.symm hlearn)

/-- The look at the registry, at a time when no worker is about to launch the victim. -/
lemma errand_lookup (hI : Custody f ls) (hB : Brood f ls) (h : Vigil f g ls) {q : Pid}
    (hpre : (ls t).allows (.inr (.lookup q))) (hguard : AsksOutside t (.inr (.lookup q)) (f, g))
    {seen : List Pid} {e : Errand}
    (hlearn : (ls t).learns (.inr (.lookup q)) (f.registry q) (.caller seen e)) :
    e.Holds (Fleet.exec cfg out kids t (.inr (.lookup q)) f).2 (Function.update ls t (.caller seen e))
      ((sentry t (.inr (.lookup q)) f (f.registry q) g).slain t) := by
  obtain ⟨seen₀, e₀, hl, haim⟩ := hpre
  have hpre' : (ls t).allows (.inr (.lookup q)) := ⟨seen₀, e₀, hl, haim⟩
  obtain heq := hlearn seen₀ e₀ hl
  have hold := h.errands t seen₀ e₀ hl
  cases e₀ with
  | slaying p =>
    obtain rfl : p = q := haim p rfl
    obtain ⟨hslain, hdoomed⟩ := hold
    have hbarred : Barred f ls p := by
      refine ⟨hdoomed, fun u s hu => ?_⟩
      by_contra hwindow
      have hrole := hI.role u
      rw [hu] at hrole
      cases u with
      | client k => cases hrole
      | worker i =>
        have hlaunch := h.launching (.worker i)
        rw [hu, launching_of_window (by simpa using hwindow)] at hlaunch
        exact hguard hslain i hlaunch
    have hsettled : Finished f ls p (f.registry p) := ⟨hbarred, hB.settledBut hbarred⟩
    cases hreg : f.registry p with
    | none =>
      rw [hreg] at heq hsettled
      cases heq
      exact Finished.step hI hsettled hpre' hlearn
    | some k =>
      rw [hreg] at heq hsettled
      cases heq
      exact Finished.step hI hsettled hpre' hlearn
  | none =>
    cases heq
    trivial
  | aiming p k =>
    cases heq
    exact Errand.Holds.step hI hold hpre' hlearn
  | struck p =>
    cases heq
    exact Errand.Holds.step hI hold hpre' hlearn

/-- The operations on the children. -/
lemma errand_fleet {o : FleetOp β} (hI : Custody f ls) (hB : Brood f ls) (h : Vigil f g ls)
    (hpre : (ls t).allows (.inr o)) (hguard : AsksOutside t (.inr o) (f, g)) {seen : List Pid}
    {e : Errand}
    (hlearn : (ls t).learns (.inr o) (Fleet.exec cfg out kids t (.inr o) f).1 (.caller seen e)) :
    e.Holds (Fleet.exec cfg out kids t (.inr o) f).2 (Function.update ls t (.caller seen e))
      ((sentry t (.inr o) f (Fleet.exec cfg out kids t (.inr o) f).1 g).slain t) := by
  cases o with
  | fork q =>
    obtain ⟨u, c, hl⟩ := hpre
    cases hlearn q u c hl
  | register q k =>
    obtain ⟨u, c, hl⟩ := hpre
    cases hlearn q u c k hl
  | readAll k =>
    obtain ⟨q, u, c, hl⟩ := hpre
    cases hlearn q u c k hl
  | reap q k =>
    rcases hpre with ⟨u, c, raw, hl⟩ | ⟨u, c, r, hl⟩
    · cases hlearn.1 q u c k raw hl
    · cases hlearn.2 q u c k r hl
  | lookup q => exact errand_lookup hI hB h hpre hguard hlearn
  | signal k =>
    obtain ⟨seen₀, e₀, hl, haim⟩ := hpre
    have hpre' : (ls t).allows (.inr (.signal k)) := ⟨seen₀, e₀, hl, haim⟩
    have heq := hlearn seen₀ e₀ hl
    have hold := h.errands t seen₀ e₀ hl
    cases e₀ with
    | aiming p j =>
      obtain rfl : j = k := haim p j rfl
      cases heq
      exact ⟨hold.1.step hI hpre' hlearn, Finished.strike hB hold⟩
    | none | slaying p | struck p =>
      cases heq
      exact Errand.Holds.step hI hold hpre' hlearn
  | signalAll | childMoves k => exact (h.errands t seen e (Eq.symm hlearn)).step hI hpre hlearn

/-- The quota and the assignments are the business of the workers. -/
lemma not_learns_caller {o : ChildOp β} {b : β} (hpre : (ls t).allows (.inl (.inr o)))
    {seen : List Pid} {e : Errand} : ¬(ls t).learns (.inl (.inr o)) b (.caller seen e) := by
  intro hlearn
  cases o with
  | acquireUpTo units =>
    obtain ⟨q, hl⟩ := hpre
    cases hlearn.2 q hl
  | refund units =>
    obtain ⟨q, u, c, k, r, hl, -⟩ := hpre
    cases hlearn q u c k r hl
  | assign q a =>
    have heq : Desk.caller seen e = (ls t).assigned a := hlearn
    cases a with
    | quotaRemaining units =>
      rcases hpre with hl | hl | ⟨u, c, k, r, hl⟩ <;> rw [hl] at heq <;> cases heq
    | llmCallsUsed calls =>
      obtain ⟨u, c, k, payload, hl, -⟩ := hpre
      rw [hl] at heq
      cases heq
    | state st =>
      obtain ⟨u, c, k, r, hl⟩ := hpre
      rw [hl] at heq
      cases heq
    | tokensUsed tokens | finishedAt time =>
      obtain ⟨s, hl⟩ := hpre
      rw [hl] at heq
      cases heq
  | runChild q => exact hpre.elim

/-- The kills that the observer has seen to their end. -/
lemma killed_step (hI : Custody f ls) (h : Vigil f g ls) (hpre : (ls t).allows o)
    (hlearn : (ls t).learns o (Fleet.exec cfg out kids t o f).1 l') {p : Pid}
    (hkilled : (sentry t o f (Fleet.exec cfg out kids t o f).1 g).killed p = true) :
    Finished (Fleet.exec cfg out kids t o f).2 (Function.update ls t l') p none := by
  suffices hbefore : Finished f ls p none from hbefore.step hI hpre hlearn
  have hold : g.killed p = true → Finished f ls p none := h.killed p
  rcases o with (o | o) | o
  · cases o with
    | popQueued q =>
      by_cases hq : p = q
      · subst hq
        obtain ⟨seen, hl⟩ := hpre
        exact h.errands t seen _ hl
      · refine hold ?_
        have hkept : Function.update g.killed q true p = true := hkilled
        rwa [Function.update_of_ne hq] at hkept
    | readPcb q _ =>
      simp only [sentry] at hkilled
      split at hkilled <;> exact hold hkilled
    | pickNext =>
      rcases cfg.scheduler.pickNext_cases f.world.pcbs (out.clock f.world.ticks) f.world.queue with
        ⟨-, hpick⟩ | ⟨q, hq, hpick⟩ <;>
        · simp only [Fleet.exec, Process.exec, World.exec, hpick, sentry] at hkilled
          exact hold hkilled
    | write q c =>
      cases c with
      | transition st => cases st <;> exact hold hkilled
      | _ => exact hold hkilled
    | _ => exact hold hkilled
  · exact hold hkilled
  · cases o <;> exact hold hkilled

/-- **The step lemma.** -/
lemma Vigil.step (hI : Custody f ls) (hB : Brood f ls) (h : Vigil f g ls) (hpre : (ls t).allows o)
    (hguard : AsksOutside t o (f, g))
    (hlearn : (ls t).learns o (Fleet.exec cfg out kids t o f).1 l') :
    Vigil (Fleet.exec cfg out kids t o f).2 (sentry t o f (Fleet.exec cfg out kids t o f).1 g)
      (Function.update ls t l') where
  launching := launching_step hpre hlearn h.launching
  errands := by
    intro u seen e hu
    rcases update_eq_cases hu with ⟨rfl, hnow⟩ | ⟨hut, hu⟩
    · subst hnow
      rcases o with (o | o) | o
      · exact errand_kernel hI h hpre hlearn
      · exact absurd hlearn (not_learns_caller hpre)
      · exact errand_fleet hI hB h hpre hguard hlearn
    · rw [(sentry_of_ne hut _).2]
      exact (h.errands u seen e hu).step hI hpre hlearn
  killed := fun p hp => killed_step hI h hpre hlearn hp

lemma vigil_fresh (quota : Quota) :
    Vigil { world := freshWorld n quota } {} (Desk.start : Tid n → Desk) where
  launching := by
    intro t
    cases t <;> rfl
  errands := by
    intro t seen e ht
    cases t with
    | worker i => cases ht
    | client k =>
      cases ht
      trivial
  killed := fun p hp => by cases hp

/-! ### Whole runs -/

/-- A kill that was seen to its end stays so. -/
lemma killed_mono {b : β} (h : g.killed p = true) : (sentry t o f b g).killed p = true := by
  rcases o with (o | o) | o
  · cases o with
    | popQueued q =>
      show Function.update g.killed q true p = true
      by_cases hq : p = q
      · subst hq
        exact Function.update_self p _ _
      · rw [Function.update_of_ne hq]
        exact h
    | readPcb q _ =>
      simp only [sentry]
      split
      · exact h
      · exact h
    | pickNext =>
      cases b with
      | none => exact h
      | some q => exact h
    | write q c =>
      cases c with
      | transition st => cases st <;> exact h
      | _ => exact h
    | _ => exact h
  · exact h
  · cases o <;> exact h

section Run

variable {quota : Quota} {as bs : List (Act (Tid n) FleetCall)}

/-- The state, what the observer has seen and the notes of the threads. -/
def Watchful (s : Fleet n × Sights n) (ls : Tid n → Desk) : Prop :=
  Custody s.1 ls ∧ Brood s.1 ls ∧ Vigil s.1 s.2 ls

lemma watchful_run
    (hguard : ((fleetSystem n .process cfg out kids).watched sentry).Meets AsksOutside
      ((launchFleet n quota).beside {}) as) :
    System.Sound managing Watchful (fun t l => l.Rest t)
      (((fleetSystem n .process cfg out kids).watched sentry).run
        ((launchFleet n quota).beside {}) as) := by
  refine managed_sound (E := fun f g ls => Brood f ls ∧ Vigil f g ls)
    (fun β t o f g ls l' hI hE hpre hK hlearn => ?_) ⟨brood_fresh quota, vigil_fresh quota⟩ hguard
  exact ⟨hE.1.step hI hpre hlearn, hE.2.step hI hE.1 hpre hK hlearn⟩

/-- After the end of a kill nobody comes to the children of its victim. -/
lemma child_before
    (hguard : ((fleetSystem n .process cfg out kids).watched sentry).Meets AsksOutside
      ((launchFleet n quota).beside {}) (as ++ bs))
    (hkilled : (((fleetSystem n .process cfg out kids).watched sentry).run
      ((launchFleet n quota).beside {}) as).shared.2.killed p = true) :
    (((fleetSystem n .process cfg out kids).watched sentry).run
      ((launchFleet n quota).beside {}) (as ++ bs)).shared.2.killed p = true ∧
    ∀ (k : ℕ) (c : ChildProc n), (((fleetSystem n .process cfg out kids).watched sentry).run
        ((launchFleet n quota).beside {}) (as ++ bs)).shared.1.procs[k]? = some c → c.agent = p →
      ∃ c₀, (((fleetSystem n .process cfg out kids).watched sentry).run
        ((launchFleet n quota).beside {}) as).shared.1.procs[k]? = some c₀ ∧ c₀.agent = p := by
  induction bs using List.reverseRecOn with
  | nil =>
    rw [List.append_nil]
    exact ⟨hkilled, fun k c hc hagent => ⟨c, hc, hagent⟩⟩
  | append_singleton bs a ih =>
    rw [← List.append_assoc] at hguard ⊢
    have hbefore := ih hguard.left
    have hsound := watchful_run hguard.left
    rw [System.run_append]
    generalize ((fleetSystem n .process cfg out kids).watched sentry).run
      ((launchFleet n quota).beside {}) (as ++ bs) = c at hbefore hsound ⊢
    obtain ⟨hkilled, hchild⟩ := hbefore
    obtain ⟨ls, ⟨-, -, hV⟩, hcode⟩ := hsound
    have hnext := System.shared_next ((fleetSystem n .process cfg out kids).watched sentry) c a
    rw [System.run_cons, System.run_nil]
    rcases hnext with hsame | ⟨t, β, o, k, hop, hstep⟩
    · rw [hsame]
      exact ⟨hkilled, hchild⟩
    · have hpre : (ls t).allows o := by
        have hobeys := hcode t
        rw [hop] at hobeys
        exact hobeys.1
      rw [hstep]
      refine ⟨killed_mono hkilled, fun j c' hc' hagent => ?_⟩
      obtain ⟨c₁, hc₁, hagent₁, -⟩ := (hV.killed p hkilled).1.child hpre hc' hagent
      exact hchild j c₁ hc₁ hagent₁

end Run

/-- **A kill is real** in every run in which no kill asks for the child of its victim while
a worker is about to launch it. -/
theorem killIsReal_of_asksOutside {n : ℕ} (cfg : KernelConfig) (out : Outside)
    (kids : ℕ → Offspring) (quota : Quota) (as bs : List (Act (Tid n) FleetCall)) (p : Pid)
    (hguard : ((fleetSystem n .process cfg out kids).watched sentry).Meets AsksOutside
      ((launchFleet n quota).beside {}) (as ++ bs)) :
    KillIsReal (fleetSystem n .process cfg out kids) (launchFleet n quota) as bs p := by
  intro hkilled k c hc hagent
  have hbefore := (child_before hguard hkilled).2 k c
  have hsound := watchful_run hguard.left
  rw [System.run_append, System.run_beside, System.run_beside] at hbefore
  rw [System.run_beside] at hsound
  obtain ⟨c₀, hc₀, hagent₀⟩ := hbefore hc hagent
  obtain ⟨ls, ⟨-, -, hV⟩, -⟩ := hsound
  refine ⟨c₀, hc₀, ?_⟩
  exact ((hV.killed p hkilled).2 k c₀ hc₀ hagent₀).resolve_left (by simp)

instance decidableAsksOutside {γ : Type} (t : Tid n) : (o : FOp γ) → (s : Fleet n × Sights n) →
    Decidable (AsksOutside t o s)
  | .inr (.lookup p), s =>
    inferInstanceAs (Decidable (s.2.slain t = some p →
      ∀ i : Fin n, s.2.launching (.worker i) ≠ some (p, true)))
  | .inl _, _ | .inr (.fork _), _ | .inr (.register _ _), _ | .inr (.readAll _), _
  | .inr (.reap _ _), _ | .inr (.signal _), _ | .inr .signalAll, _ | .inr (.childMoves _), _ =>
    .isTrue trivial

/-- A kill that comes when the child is in the registry: the child dies of it. -/
theorem killIsReal_of_asksOutside_registered :
    ∃ as bs : List (Act (Tid 1) FleetCall),
      let out := Outside.calm ⟨"hi", 1, 1, 2⟩
      let sys := fleetSystem 1 .process { pager := {}, host := .inert } out fun _ => ⟨none, out⟩
      ((sys.observed sentry (launchFleet 1 ⟨5, 5⟩) {} as).killed 1 = true ∧
        (sys.run (sys.run (launchFleet 1 ⟨5, 5⟩) as) bs).shared.procs.map
          (fun c => (c.agent, c.phase)) = [(1, .dead false)]) ∧
      KillIsReal sys (launchFleet 1 ⟨5, 5⟩) as bs 1 := by
  refine ⟨Act.call (.client 0) (.kernel (.spawn { prompt := "hello" })) ::
    (List.replicate 3 (.step (.client 0)) ++ List.replicate 14 (.step (.worker 0)) ++
      Act.call (.client 0) (.kernel (.kill 9 1)) :: List.replicate 12 (.step (.client 0))),
    List.replicate 8 (.step (.worker 0)), ⟨by decide +kernel, by decide +kernel⟩, ?_⟩
  exact killIsReal_of_asksOutside _ _ _ _ _ _ _ (by decide +kernel)

/-- A kill that comes when the child is forked and not yet in the registry answers `True`;
the child, which nobody has signalled, goes on to the reply of its call. -/
theorem killed_child_runs_on :
    ∃ as bs : List (Act (Tid 1) FleetCall),
      let out := Outside.calm ⟨"hi", 1, 1, 2⟩
      let cfg : KernelConfig := { pager := {}, host := .inert }
      let sys := fleetSystem 1 .process cfg out fun _ => ⟨none, out⟩
      let c := sys.run (sys.run (launchFleet 1 ⟨5, 5⟩) as) bs
      (c.shared.procs.map fun c => (c.agent, c.signalled, c.phase, c.replies cfg ⟨none, out⟩)) =
          [(1, false, .running, 1)] ∧
        ¬ KillIsReal sys (launchFleet 1 ⟨5, 5⟩) as bs 1 := by
  refine ⟨Act.call (.client 0) (.kernel (.spawn { prompt := "hello" })) ::
    (List.replicate 3 (.step (.client 0)) ++ List.replicate 13 (.step (.worker 0)) ++
      Act.call (.client 0) (.kernel (.kill 9 1)) :: List.replicate 12 (.step (.client 0))),
    (List.replicate 9 [.call (.client 0) (.childMoves 0), .step (.client 0)]).flatten,
    by decide +kernel, ?_⟩
  intro hreal
  obtain ⟨c₀, hc₀, hsettled⟩ := hreal (by decide +kernel) 0 _ rfl (by decide +kernel)
  have hbefore : c₀.signalled = false ∧ c₀.phase = .running := by
    cases hc₀
    decide +kernel
  rw [hbefore.1, hbefore.2] at hsettled
  rcases hsettled with h | h <;> cases h

end Gcos.Process
