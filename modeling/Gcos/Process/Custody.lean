import Gcos.Process.Desk
import Gcos.Process.Frozen

/-!
# Who has which agent in hand

The notes of the threads of the process backend agree with the state: an agent is in the
queue, in the hands of one worker or in those of its spawner, never in two places, and
what a worker has written down about the block of its agent is still there.  Every
operation that the discipline allows keeps this (`Custody.step`), so it can be used in
the proof of any further invariant (`managed_sound`).
-/

namespace Gcos.Process

open Lib Pool World

variable {n : ℕ} {cfg : KernelConfig} {out : Outside} {kids : ℕ → Offspring} {t : Tid n} {β : Type}
  {f f' : Fleet n} {ls : Tid n → Desk} {l' : Desk} {p : Pid} {s : Stage}

/-- What the thread has in hand, as its note says. -/
def Desk.hand (l : Desk) : Local := { held := l.held, fresh := l.fresh }

lemma hand_update (ls : Tid n → Desk) (t : Tid n) (l' : Desk) :
    (fun u => (Function.update ls t l' u).hand) =
      Function.update (fun u => (ls u).hand) t l'.hand :=
  Function.comp_update Desk.hand ls t l'

/-- The notes of the threads agree with the state. -/
structure Custody (f : Fleet n) (ls : Tid n → Desk) : Prop where
  positive : 1 ≤ f.world.nextPid
  table : ∀ p ∈ f.world.table, Allocated f.world.nextPid p
  seen : ∀ t seen e, ls t = .caller seen e → ∀ p ∈ seen, Allocated f.world.nextPid p
  fresh : ∀ t, (f.world.loc t).fresh = (ls t).fresh
  role : ∀ t, (ls t).isWorker = t.isWorker
  owned : Owned f.world.queue.q f.world.enqueued f.world.nextPid fun t => (ls t).hand
  fits : ∀ t p s, ls t = .holding p s → s.Fits (f.world.pcbs p)

lemma held_of_holding (ht : ls t = .holding p s) : ((fun u => (ls u).hand) t).held = some p := by
  show (ls t).held = some p
  rw [ht]
  rfl

lemma Custody.allocated (h : Custody f ls) (ht : ls t = .holding p s) :
    Allocated f.world.nextPid p :=
  h.owned.allocated p (h.owned.held t p (held_of_holding ht)).1

/-- An agent has one holder. -/
lemma Custody.once (h : Custody f ls) {u : Tid n} {s' : Stage} (ht : ls t = .holding p s)
    (hu : ls u = .holding p s') : u = t :=
  h.owned.held_once u t p (held_of_holding hu) (held_of_holding ht)

/-- An agent that is held is not in the queue. -/
lemma Custody.not_mem (h : Custody f ls) (ht : ls t = .holding p s) : p ∉ f.world.queue.q :=
  (h.owned.held t p (held_of_holding ht)).2

/-! ### What an operation does to the counters of an agent -/

/-- The units and the calls of the agent are the same. -/
structure SameCounts (b b' : AgentControlBlock) : Prop where
  units : b'.quotaRemaining = b.quotaRemaining
  calls : b'.llmCallsUsed = b.llmCallsUsed

lemma SameCounts.refl (b : AgentControlBlock) : SameCounts b b := ⟨rfl, rfl⟩

/-- A note about the counters is still true. -/
lemma Stage.Fits.congr {b b' : AgentControlBlock} (h : s.Fits b) (hsame : SameCounts b b') :
    s.Fits b' := by
  obtain ⟨hunits, hcalls⟩ := hsame
  cases s <;> simp_all [Stage.Fits]

lemma sameCounts_write (b : AgentControlBlock) {c : Write} (hc : c.countsCall = false)
    (clock : ℕ → Time) : SameCounts b (c.apply clock b) := by
  cases c with
  | countCall tokens => cases hc
  | transition st =>
    rw [Write.apply, AgentControlBlock.transition_frame]
    exact ⟨rfl, rfl⟩
  | _ => exact ⟨rfl, rfl⟩

/-- The operations of the kernel leave the counters of the agents alone. -/
lemma sameCounts_exec {o : KOp β} {l : Desk} (hpre : l.allowsKernel o) {w : World n}
    (hp : Allocated w.nextPid p) :
    SameCounts (w.pcbs p) ((World.exec cfg out t o w).2.pcbs p) := by
  have hstep := pcb_exec cfg out t o hp.2.ne
  generalize (World.exec cfg out t o w).2.pcbs p = b at hstep ⊢
  cases hstep with
  | write c => exact sameCounts_write _ hpre.1 _
  | put _ =>
    rw [AgentControlBlock.transition_frame]
    exact ⟨rfl, rfl⟩
  | same => exact .refl _

/-- What the worker knows after it has read the block is true of the block. -/
lemma Stage.fits_read {b : AgentControlBlock} (h : s.Fits b) : (s.read b).Fits b := by
  cases s with
  | picked =>
    simp only [Stage.read]
    split <;> trivial
  | granted units => exact ⟨h, rfl⟩
  | _ => exact h

/-! ### The operations -/

/-- What is to be shown when thread `t` moves on to the note `l'`. -/
lemma Custody.move (h : Custody f ls) (hnext : f.world.nextPid ≤ f'.world.nextPid)
    (htable : ∀ p ∈ f'.world.table, Allocated f'.world.nextPid p)
    (hseen : ∀ seen e, l' = .caller seen e → ∀ p ∈ seen, Allocated f'.world.nextPid p)
    (hother : ∀ u, u ≠ t → f'.world.loc u = f.world.loc u)
    (hfresh : (f'.world.loc t).fresh = l'.fresh) (hrole : l'.isWorker = (ls t).isWorker)
    (howned : Owned f'.world.queue.q f'.world.enqueued f'.world.nextPid
      (Function.update (fun u => (ls u).hand) t l'.hand))
    (hcounts : ∀ u, u ≠ t → ∀ p s, ls u = .holding p s →
      SameCounts (f.world.pcbs p) (f'.world.pcbs p))
    (hfits : ∀ p s, l' = .holding p s → s.Fits (f'.world.pcbs p)) :
    Custody f' (Function.update ls t l') := by
  refine ⟨h.positive.trans hnext, htable, fun u seen e hu => ?_, fun u => ?_, fun u => ?_, ?_,
    fun u p s hu => ?_⟩
  · rcases update_eq_cases hu with ⟨rfl, hnow⟩ | ⟨-, hu⟩
    · exact hseen seen e hnow
    · intro p hp
      obtain ⟨hpos, hlt⟩ := h.seen u seen e hu p hp
      exact ⟨hpos, hlt.trans_le (by exact_mod_cast hnext)⟩
  · by_cases hut : u = t
    · subst hut
      rw [Function.update_self, hfresh]
    · rw [Function.update_of_ne hut, hother u hut, h.fresh u]
  · by_cases hut : u = t
    · subst hut
      rw [Function.update_self, hrole, h.role u]
    · rw [Function.update_of_ne hut, h.role u]
  · rw [hand_update]
    exact howned
  · rcases update_eq_cases hu with ⟨rfl, hnow⟩ | ⟨hut, hu⟩
    · exact hfits p s hnow
    · exact (h.fits u p s hu).congr (hcounts u hut p s hu)

/-- An operation on the children or on the quota, with a note that goes along with it. -/
lemma Custody.aside (h : Custody f ls) {quota : Quota}
    (hworld : f'.world = { f.world with quota := quota })
    (hheld : l'.held = (ls t).held) (hfresh : l'.fresh = (ls t).fresh)
    (hrole : l'.isWorker = (ls t).isWorker)
    (hseen : ∀ seen e, l' = .caller seen e → ∃ e₀, ls t = .caller seen e₀)
    (hfits : ∀ p s, l' = .holding p s → s.Fits (f.world.pcbs p)) :
    Custody f' (Function.update ls t l') := by
  refine h.move (by rw [hworld]) (by rw [hworld]; exact h.table) ?_ (fun _ _ => by rw [hworld])
    (by rw [hworld, hfresh, ← h.fresh t]) hrole ?_ (fun _ _ _ _ _ => by rw [hworld]; exact .refl _)
    (by rw [hworld]; exact hfits)
  · intro seen e hl
    obtain ⟨e₀, ht⟩ := hseen seen e hl
    rw [hworld]
    exact h.seen t seen e₀ ht
  · rw [hworld]
    refine h.owned.relax (fun p hp => ?_) fun p hp => ?_
    · exact hheld.symm.trans hp
    · exact hfresh.symm.trans hp

section

variable {o : KOp β}

/-- The fleet after an operation of the kernel. -/
def Fleet.after (cfg : KernelConfig) (out : Outside) (t : Tid n) (o : KOp β) (f : Fleet n) :
    Fleet n :=
  { f with world := (World.exec cfg out t o f.world).2 }

/-- What is to be shown for an operation of the kernel. -/
def Tended (cfg : KernelConfig) (out : Outside) (f : Fleet n) (ls : Tid n → Desk) (t : Tid n)
    (o : KOp β) : Prop :=
  ∃ l', (ls t).learnsKernel o (World.exec cfg out t o f.world).1 l' ∧
    Custody (f.after cfg out t o) (Function.update ls t l')

/-- The counters of the agents of the other threads are as they were. -/
lemma Custody.counts (h : Custody f ls) (hpre : (ls t).allowsKernel o) (u : Tid n) (_ : u ≠ t)
    (p : Pid) (s : Stage) (hu : ls u = .holding p s) :
    SameCounts (f.world.pcbs p) ((f.after cfg out t o).world.pcbs p) :=
  sameCounts_exec hpre (h.allocated hu)

/-- An operation that changes no hands, with a note that goes along with it. -/
lemma Custody.still (h : Custody f ls) (hpre : (ls t).allowsKernel o)
    (hhands : o.movesHands = false)
    (hentries : ∃ p, (f.after cfg out t o).world.queue.q = f.world.queue.q ∨
      (f.after cfg out t o).world.queue.q = f.world.queue.q.erase p)
    (henqueued : (f.after cfg out t o).world.enqueued = f.world.enqueued)
    (hheld : l'.held = (ls t).held) (hfresh : l'.fresh = (ls t).fresh)
    (hrole : l'.isWorker = (ls t).isWorker)
    (hseen : ∀ seen e, l' = .caller seen e → ∀ p ∈ seen, Allocated f.world.nextPid p)
    (hfits : ∀ p s, l' = .holding p s → s.Fits ((f.after cfg out t o).world.pcbs p)) :
    Custody (f.after cfg out t o) (Function.update ls t l') := by
  have hpids : (f.after cfg out t o).world.nextPid = f.world.nextPid := by
    refine nextPid_exec ?_
    cases o <;> first | rfl | cases hhands
  have howned : Owned f.world.queue.q f.world.enqueued f.world.nextPid
      (Function.update (fun u => (ls u).hand) t l'.hand) :=
    h.owned.relax (fun _ hp => hheld.symm.trans hp) fun _ hp => hfresh.symm.trans hp
  refine h.move hpids.ge ?_ ?_ (fun u hu => loc_exec_of_ne hu) ?_ hrole ?_ (h.counts hpre) hfits
  · intro p hp
    rw [hpids]
    refine h.table p ?_
    rcases mem_table_exec (show p ∈ (World.exec cfg out t o f.world).2.table from hp) with hp | hp
    · exact hp
    · cases o <;> cases hp <;> cases hhands
  · rw [hpids]
    exact hseen
  · rw [hfresh, ← h.fresh t]
    exact (hands_exec hhands).2
  · rw [henqueued, hpids]
    obtain ⟨p, hq | hq⟩ := hentries
    · rw [hq]
      exact howned
    · rw [hq]
      exact howned.erase

/-- An operation that changes neither hands nor the queue. -/
lemma Custody.rest (h : Custody f ls) (hpre : (ls t).allowsKernel o)
    (hhands : o.movesHands = false) (hentries : o.movesEntries = false)
    (hheld : l'.held = (ls t).held) (hfresh : l'.fresh = (ls t).fresh)
    (hrole : l'.isWorker = (ls t).isWorker)
    (hseen : ∀ seen e, l' = .caller seen e → ∀ p ∈ seen, Allocated f.world.nextPid p)
    (hfits : ∀ p s, l' = .holding p s → s.Fits ((f.after cfg out t o).world.pcbs p)) :
    Custody (f.after cfg out t o) (Function.update ls t l') :=
  h.still hpre hhands ⟨0, .inl (entries_exec hentries)⟩ (enqueued_exec hentries) hheld hfresh hrole
    hseen hfits

/-- An operation that teaches the thread nothing. -/
lemma Custody.same (h : Custody f ls) (hpre : (ls t).allowsKernel o)
    (hhands : o.movesHands = false) (hentries : o.movesEntries = false) :
    Custody (f.after cfg out t o) (Function.update ls t (ls t)) :=
  h.rest hpre hhands hentries rfl rfl rfl (h.seen t) fun p s ht =>
    (h.fits t p s ht).congr (sameCounts_exec hpre (h.allocated ht))

lemma tended_readPcb {look : Look} (h : Custody f ls)
    (hpre : (ls t).allowsKernel (.readPcb p look)) :
    Tended cfg out f ls t (.readPcb p look) := by
  cases hl : ls t with
  | holding q s =>
    rw [hl] at hpre
    obtain rfl : q = p := hpre q s rfl
    have hfits := h.fits t q s hl
    refine ⟨.holding q (s.read (f.world.pcbs q)), by rw [hl]; exact ⟨hfits, rfl⟩, ?_⟩
    refine h.rest (by rw [hl]; exact hpre) rfl rfl (by rw [hl]; rfl) (by rw [hl]; rfl)
      (by rw [hl]; rfl) (fun _ _ hc => by cases hc) fun r s' hs' => ?_
    cases hs'
    exact Stage.fits_read hfits
  | idle | released | caller _ _ | spawning _ =>
    exact ⟨ls t, by rw [hl]; rfl, h.same hpre rfl rfl⟩

lemma tended_write (h : Custody f ls) {c : Write} (hpre : (ls t).allowsKernel (.write p c)) :
    Tended cfg out f ls t (.write p c) := by
  refine ⟨(ls t).wrote p c, rfl, ?_⟩
  cases hl : ls t with
  | caller seen e =>
    have hwrote : ∃ e', (Desk.caller seen e).wrote p c = .caller seen e' := by
      simp only [Desk.wrote]
      split <;> exact ⟨_, rfl⟩
    obtain ⟨e', hwrote⟩ := hwrote
    rw [hwrote]
    refine h.rest hpre rfl rfl (by rw [hl]; rfl) (by rw [hl]; rfl) (by rw [hl]; rfl) ?_
      fun _ _ hc => by cases hc
    intro seen' e'' hc
    cases hc
    exact h.seen t seen e hl
  | idle | released | spawning _ | holding _ _ =>
    have hsame : Custody (f.after cfg out t (.write p c)) (Function.update ls t (ls t)) :=
      h.same hpre rfl rfl
    rw [hl] at hsame
    exact hsame

lemma tended_newPcb (h : Custody f ls) {args : SpawnArgs}
    (hpre : (ls t).allowsKernel (.newPcb args)) : Tended cfg out f ls t (.newPcb args) := by
  obtain ⟨seen, e, hl⟩ := id hpre
  have hgrow : ∀ r : ℤ, Allocated f.world.nextPid r → Allocated (f.world.nextPid + 1) r := by
    intro r hr
    exact ⟨hr.1, by push_cast; linarith [hr.2]⟩
  refine ⟨.spawning f.world.nextPid, rfl, ?_⟩
  refine h.move (Nat.le_succ _) (fun p hp => hgrow p (h.table p hp)) (fun _ _ hc => by cases hc)
    (fun u hu => loc_exec_of_ne hu) ?_ (by rw [hl]; rfl) ?_ (h.counts hpre)
    fun _ _ hc => by cases hc
  · simp [Fleet.after, World.exec, note, Desk.fresh]
  · exact h.owned.allocate h.positive rfl rfl

lemma tended_tableHas (h : Custody f ls) : Tended cfg out f ls t (.tableHas p) := by
  cases hl : ls t with
  | caller seen e =>
    refine ⟨_, by rw [hl]; rfl, ?_⟩
    refine h.rest trivial rfl rfl (by rw [hl]; rfl) (by rw [hl]; rfl) (by rw [hl]; rfl) ?_
      fun _ _ hc => by cases hc
    intro seen' e' hc
    cases hc
    intro q hq
    by_cases hp : p ∈ f.world.table
    · simp only [World.exec, hp, decide_true, if_true, List.mem_cons] at hq
      rcases hq with rfl | hq
      · exact h.table q hp
      · exact h.seen t seen e hl q hq
    · simp only [World.exec, hp, decide_false, Bool.false_eq_true, if_false] at hq
      exact h.seen t seen e hl q hq
  | idle | released | spawning _ | holding _ _ =>
    exact ⟨ls t, by rw [hl]; rfl, h.same trivial rfl rfl⟩

lemma tended_tableAdd (h : Custody f ls) (hpre : (ls t).allowsKernel (.tableAdd p)) :
    Tended cfg out f ls t (.tableAdd p) := by
  have hl : ls t = .spawning p := hpre
  have hfresh : (f.world.loc t).fresh = some p := by
    rw [h.fresh t, hl]
    rfl
  by_cases hp : p ∈ f.world.table
  · refine ⟨.caller [] .none, by simp [Desk.learnsKernel, World.exec, hp], ?_⟩
    refine h.move nextPid_le_exec ?_ (fun _ _ hc => by cases hc; simp) (fun u hu => loc_exec_of_ne hu)
      ?_ (by rw [hl]; rfl) ?_ (h.counts hpre) fun _ _ hc => by cases hc
    · simp only [Fleet.after, World.exec, hp, if_true, note]
      exact h.table
    · simp [Fleet.after, World.exec, hp, note, Desk.fresh]
    · simp only [Fleet.after, World.exec, hp, if_true, note]
      exact h.owned.relax (fun _ hp => by cases hp) fun _ hp => by cases hp
  · refine ⟨ls t, by simp [Desk.learnsKernel, World.exec, hp], ?_⟩
    have halloc : Allocated f.world.nextPid p := by
      refine (h.owned.fresh t p ?_).2
      show (ls t).fresh = some p
      rw [hl]
      rfl
    refine h.move nextPid_le_exec ?_ ?_ (fun u hu => loc_exec_of_ne hu) ?_ rfl ?_ (h.counts hpre)
      fun _ _ hc => by rw [hl] at hc; cases hc
    · intro q hq
      simp only [Fleet.after, World.exec, hp, if_false, List.mem_append, List.mem_singleton] at hq ⊢
      rcases hq with hq | rfl
      · exact h.table q hq
      · exact halloc
    · intro seen e hc
      rw [hl] at hc
      cases hc
    · simp only [Fleet.after, World.exec, hp, if_false]
      exact h.fresh t
    · simp only [Fleet.after, World.exec, hp, if_false]
      exact h.owned.relax (fun _ hp => hp) fun _ hp => hp

lemma tended_pickNext (h : Custody f ls) (hpre : (ls t).allowsKernel .pickNext) :
    Tended cfg out f ls t .pickNext := by
  have hl : ls t = .idle := hpre
  have hfresh : (f.world.loc t).fresh = none := by
    rw [h.fresh t, hl]
    rfl
  rcases Scheduler.pickNext_cases f.world.pcbs (out.clock f.world.ticks) f.world.queue
    cfg.scheduler with ⟨-, hpick⟩ | ⟨q, hq, hpick⟩
  · refine ⟨ls t, by simp [Desk.learnsKernel, World.exec, hpick], ?_⟩
    refine h.move nextPid_le_exec ?_ ?_ (fun u hu => loc_exec_of_ne hu) ?_ rfl ?_ (h.counts hpre)
      fun _ _ hc => by rw [hl] at hc; cases hc
    · simp only [Fleet.after, World.exec, hpick]
      exact h.table
    · intro seen e hc
      rw [hl] at hc
      cases hc
    · simp only [Fleet.after, World.exec, hpick]
      exact h.fresh t
    · simp only [Fleet.after, World.exec, hpick]
      exact h.owned.relax (fun _ hp => hp) fun _ hp => hp
  · refine ⟨.holding q .picked, by simp [Desk.learnsKernel, World.exec, hpick], ?_⟩
    refine h.move nextPid_le_exec ?_ (fun _ _ hc => by cases hc) (fun u hu => loc_exec_of_ne hu) ?_
      (by rw [hl]; rfl) ?_ (h.counts hpre) fun _ _ hc => by cases hc; trivial
    · simp only [Fleet.after, World.exec, hpick, note]
      exact h.table
    · simp [Fleet.after, World.exec, hpick, note, hfresh, Desk.fresh]
    · simp only [Fleet.after, World.exec, hpick, note]
      exact h.owned.take hq rfl rfl

lemma tended_popQueued (h : Custody f ls) (hpre : (ls t).allowsKernel (.popQueued p)) :
    Tended cfg out f ls t (.popQueued p) := by
  obtain ⟨seen, hl⟩ := id hpre
  refine ⟨ls t, rfl, h.still hpre rfl ⟨p, ?_⟩ rfl rfl rfl rfl (h.seen t) ?_⟩
  · simp only [Fleet.after, World.exec, ReadyQueue.pop]
    split
    · exact .inr rfl
    · exact .inl rfl
  · intro q s hc
    rw [hl] at hc
    cases hc

lemma tended_taskDone (h : Custody f ls) (hpre : (ls t).allowsKernel .taskDone) :
    Tended cfg out f ls t .taskDone := by
  have hrole : (ls t).isWorker = true ∧ (ls t).fresh = none := by
    rcases hpre with hl | ⟨p, s, hl, -⟩
    · rw [hl]
      exact ⟨rfl, rfl⟩
    · rw [hl]
      exact ⟨rfl, rfl⟩
  refine ⟨.idle, rfl, ?_⟩
  refine h.move nextPid_le_exec h.table (fun _ _ hc => by cases hc) (fun u hu => loc_exec_of_ne hu)
    ?_ hrole.1.symm ?_ (h.counts hpre) fun _ _ hc => by cases hc
  · simp only [Fleet.after, World.exec, note, Function.update_self]
    rw [h.fresh t]
    exact hrole.2
  · have hq : (f.after cfg out t .taskDone).world.queue.q = f.world.queue.q := entries_exec rfl
    rw [hq]
    exact h.owned.relax (fun _ hp => by cases hp) fun _ hp => by cases hp

/-- What is to be shown when an agent is put into the queue. -/
lemma Custody.handOver (h : Custody f ls) (hpre : (ls t).allowsKernel (.put p))
    (hseen : ∀ seen e, l' = .caller seen e → seen = []) (hfresh : l'.fresh = none)
    (hrole : l'.isWorker = (ls t).isWorker)
    (howned : Owned (f.after cfg out t (.put p)).world.queue.q
      (f.after cfg out t (.put p)).world.enqueued f.world.nextPid
      (Function.update (fun u => (ls u).hand) t l'.hand))
    (hfits : ∀ q s, l' = .holding q s → s.Fits ((f.after cfg out t (.put p)).world.pcbs q)) :
    Custody (f.after cfg out t (.put p)) (Function.update ls t l') := by
  have hpids : (f.after cfg out t (.put p)).world.nextPid = f.world.nextPid := nextPid_exec rfl
  have htable : (f.after cfg out t (.put p)).world.table = f.world.table := table_exec rfl
  refine h.move hpids.ge ?_ ?_ (fun u hu => loc_exec_of_ne hu) ?_ hrole (by rwa [hpids])
    (h.counts hpre) hfits
  · rw [htable, hpids]
    exact h.table
  · intro seen e hc
    rw [hseen seen e hc]
    simp
  · rw [hfresh]
    simp only [Fleet.after, World.exec, World.put]
    split <;> simp [note]

lemma tended_put (h : Custody f ls) (hpre : (ls t).allowsKernel (.put p)) :
    Tended cfg out f ls t (.put p) := by
  by_cases hdead : (f.world.pcbs p).isTerminal = true
  · -- the agent is refused
    have hq : (f.after cfg out t (.put p)).world.queue.q = f.world.queue.q ∧
        (f.after cfg out t (.put p)).world.enqueued = f.world.enqueued := by
      simp [Fleet.after, World.exec, World.put, hdead, note]
    rcases id hpre with hl | ⟨s, hl, -, -⟩
    · refine ⟨.caller [] .none, by rw [hl]; rfl, h.handOver hpre ?_ rfl (by rw [hl]; rfl) ?_ ?_⟩
      · intro seen e hc
        cases hc
        rfl
      · rw [hq.1, hq.2]
        exact h.owned.relax (fun _ hp => by cases hp) fun _ hp => by cases hp
      · exact fun _ _ hc => by cases hc
    · refine ⟨.holding p .closed, ?_, h.handOver hpre ?_ rfl (by rw [hl]; rfl) ?_ ?_⟩
      · rw [hl]
        simp [Desk.learnsKernel, World.exec, World.put, hdead]
      · exact fun _ _ hc => by cases hc
      · rw [hq.1, hq.2]
        refine h.owned.relax (fun r hr => ?_) fun _ hp => by cases hp
        cases hr
        exact held_of_holding hl
      · intro q s hc
        cases hc
        trivial
  · have hq : (f.after cfg out t (.put p)).world.queue.q = f.world.queue.q ++ [p] ∧
        (f.after cfg out t (.put p)).world.enqueued =
          if (ls t).fresh = some p then f.world.enqueued ++ [p] else f.world.enqueued := by
      simp [Fleet.after, World.exec, World.put, hdead, note, h.fresh t]
    rcases id hpre with hl | ⟨s, hl, -, -⟩
    · refine ⟨.caller [] .none, by rw [hl]; rfl, h.handOver hpre ?_ rfl (by rw [hl]; rfl) ?_ ?_⟩
      · intro seen e hc
        cases hc
        rfl
      · have hfresh : (ls t).fresh = some p := by
          rw [hl]
          rfl
        rw [hq.1, hq.2, if_pos hfresh]
        exact h.owned.enqueue hfresh rfl rfl
      · exact fun _ _ hc => by cases hc
    · refine ⟨.released, ?_, h.handOver hpre ?_ rfl (by rw [hl]; rfl) ?_ ?_⟩
      · rw [hl]
        simp [Desk.learnsKernel, World.exec, World.put, hdead]
      · exact fun _ _ hc => by cases hc
      · have hfresh : (ls t).fresh ≠ some p := by
          rw [hl]
          exact fun hc => by cases hc
        rw [hq.1, hq.2, if_neg hfresh]
        exact h.owned.putBack (held_of_holding hl) rfl rfl
      · exact fun _ _ hc => by cases hc

/-- Every operation of the kernel. -/
lemma tended_kernel (h : Custody f ls) (hpre : (ls t).allowsKernel o) :
    Tended cfg out f ls t o := by
  cases o with
  | readPcb p _ => exact tended_readPcb h hpre
  | write p c => exact tended_write h hpre
  | newPcb args => exact tended_newPcb h hpre
  | tableHas p => exact tended_tableHas h
  | tableAdd p => exact tended_tableAdd h hpre
  | pickNext => exact tended_pickNext h hpre
  | put p => exact tended_put h hpre
  | popQueued p => exact tended_popQueued h hpre
  | taskDone => exact tended_taskDone h hpre
  | acquire | refund | chat purpose request | swapOut p pages | runPython code timeout priority =>
    exact hpre.elim
  | _ => exact ⟨ls t, rfl, h.same hpre rfl rfl⟩

end

/-- What is to be shown for an operation. -/
def Minded (cfg : KernelConfig) (out : Outside) (kids : ℕ → Offspring) (f : Fleet n)
    (ls : Tid n → Desk) (t : Tid n) (o : FOp β) : Prop :=
  ∃ l', (ls t).learns o (Fleet.exec cfg out kids t o f).1 l' ∧
    Custody (Fleet.exec cfg out kids t o f).2 (Function.update ls t l')

/-- A thread that moves on within its dispatch. -/
lemma Custody.advance (h : Custody f ls) {quota : Quota} {s' : Stage}
    (ht : ls t = .holding p s) (hworld : f'.world = { f.world with quota := quota })
    (hfits : s'.Fits (f.world.pcbs p)) :
    Custody f' (Function.update ls t (.holding p s')) := by
  refine h.aside hworld (by rw [ht]; rfl) (by rw [ht]; rfl) (by rw [ht]; rfl)
    (fun _ _ hc => by cases hc) fun q r hc => ?_
  cases hc
  exact hfits

/-- A caller that moves on within its errand. -/
lemma Custody.onward (h : Custody f ls) {seen : List Pid} {e e' : Errand}
    (ht : ls t = .caller seen e) (hworld : f'.world = f.world) :
    Custody f' (Function.update ls t (.caller seen e')) := by
  refine h.aside hworld (by rw [ht]; rfl) (by rw [ht]; rfl) (by rw [ht]; rfl) (fun _ _ hc => ?_)
    fun _ _ hc => by cases hc
  cases hc
  exact ⟨e, ht⟩

/-- A thread that learns nothing from what happens to the children. -/
lemma Custody.apart (h : Custody f ls) (hworld : f'.world = f.world) :
    Custody f' (Function.update ls t (ls t)) :=
  h.aside hworld rfl rfl rfl (fun _ e hl => ⟨e, hl⟩) (h.fits t)

lemma minded_assign (h : Custody f ls) {a : Assign} (hpre : (ls t).allowsAssign p a) :
    Minded cfg out kids f ls t (.inl (.inr (.assign p a))) := by
  refine ⟨(ls t).assigned a, rfl, ?_⟩
  obtain ⟨s, s', hl, hl', hfits⟩ : ∃ s s', ls t = .holding p s ∧
      (ls t).assigned a = .holding p s' ∧ s'.Fits (a.apply (f.world.pcbs p)) := by
    cases a with
    | quotaRemaining units =>
      rcases hpre with hl | hl | ⟨u, c, k, r, hl⟩
      · exact ⟨_, .granted units, hl, by rw [hl]; rfl, rfl⟩
      · exact ⟨_, .closed, hl, by rw [hl]; rfl, trivial⟩
      · have hcalls : (f.world.pcbs p).llmCallsUsed = r := h.fits t p _ hl
        exact ⟨_, .due u c k r, hl, by rw [hl]; rfl, hcalls⟩
    | llmCallsUsed calls =>
      obtain ⟨u, c, k, payload, hl, rfl⟩ := hpre
      exact ⟨_, .counted u c k payload.llmCallsUsed, hl, by rw [hl]; rfl, rfl⟩
    | state st =>
      obtain ⟨u, c, k, r, hl⟩ := hpre
      have hcalls : (f.world.pcbs p).llmCallsUsed = r := h.fits t p _ hl
      exact ⟨_, .counted u c k r, hl, by rw [hl]; rfl, hcalls⟩
    | tokensUsed tokens | finishedAt time =>
      obtain ⟨s, hl⟩ := hpre
      exact ⟨s, s, hl, by rw [hl]; rfl, (h.fits t p s hl).congr ⟨rfl, rfl⟩⟩
  rw [hl']
  refine h.move le_rfl h.table (fun _ _ hc => by cases hc) (fun _ _ => rfl) ?_ (by rw [hl]; rfl) ?_
    (fun u hu q r hr => ?_) fun q r hr => ?_
  · show (f.world.loc t).fresh = none
    rw [h.fresh t, hl]
    rfl
  · refine h.owned.relax (fun r hr => ?_) fun r hr => by cases hr
    exact hr ▸ held_of_holding hl
  · -- nobody else holds this agent
    have hq : q ≠ p := by
      rintro rfl
      exact hu (h.once hl hr)
    have hsame : (Fleet.exec cfg out kids t (.inl (.inr (.assign p a))) f).2.world.pcbs q =
        f.world.pcbs q := Function.update_of_ne hq _ _
    rw [hsame]
    exact .refl _
  · cases hr
    have hself : (Fleet.exec cfg out kids t (.inl (.inr (.assign p a))) f).2.world.pcbs p =
        a.apply (f.world.pcbs p) := Function.update_self _ _ _
    rw [hself]
    exact hfits

/-- **Every operation that the discipline allows** keeps the notes true. -/
lemma Custody.step (h : Custody f ls) {o : FOp β} (hpre : (ls t).allows o) :
    Minded cfg out kids f ls t o := by
  rcases o with (o | o) | o
  · exact tended_kernel h hpre
  · cases o with
    | acquireUpTo units =>
      obtain ⟨p, hl⟩ := hpre
      refine ⟨.holding p (.reserved (f.world.quota.acquireUpTo units).1),
        ⟨le_max_left _ _, fun q hq => ?_⟩, h.advance hl rfl trivial⟩
      rw [hl] at hq
      cases hq
      rfl
    | refund units =>
      obtain ⟨p, u, c, k, r, hl, -⟩ := hpre
      refine ⟨.holding p .closed, fun q u' c' k' r' hq => ?_, h.advance hl rfl trivial⟩
      rw [hl] at hq
      cases hq
      rfl
    | assign p a => exact minded_assign h hpre
    | runChild p => exact hpre.elim
  · cases o with
    | fork p =>
      obtain ⟨u, c, hl⟩ := hpre
      refine ⟨.holding p (.forked u c f.procs.length), fun q u' c' hq => ?_,
        h.advance hl rfl trivial⟩
      rw [hl] at hq
      cases hq
      rfl
    | register p k =>
      obtain ⟨u, c, hl⟩ := hpre
      refine ⟨.holding p (.registered u c k), fun q u' c' k' hq => ?_, h.advance hl rfl trivial⟩
      rw [hl] at hq
      cases hq
      rfl
    | readAll k =>
      obtain ⟨p, u, c, hl⟩ := hpre
      refine ⟨.holding p (.heard u c k
        (Fleet.exec cfg out kids t (.inr (.readAll k)) f).1), fun q u' c' k' hq => ?_, h.advance hl rfl trivial⟩
      rw [hl] at hq
      cases hq
      rfl
    | reap p k =>
      rcases hpre with ⟨u, c, raw, hl⟩ | ⟨u, c, r, hl⟩
      · refine ⟨.holding p .closed, ⟨fun q u' c' k' raw' hq => ?_, fun q u' c' k' r' hq => ?_⟩,
          h.advance hl rfl trivial⟩
        · rw [hl] at hq
          cases hq
          rfl
        · rw [hl] at hq
          cases hq
      · have hcalls : (f.world.pcbs p).llmCallsUsed = r := h.fits t p _ hl
        refine ⟨.holding p (.due u c k r), ⟨fun q u' c' k' raw' hq => ?_,
          fun q u' c' k' r' hq => ?_⟩, h.advance hl rfl hcalls⟩
        · rw [hl] at hq
          cases hq
        · rw [hl] at hq
          cases hq
          rfl
    | lookup p =>
      obtain ⟨seen, e, hl, -⟩ := hpre
      refine ⟨.caller seen (e.looked (f.registry p)), fun seen' e' hc => ?_, h.onward hl rfl⟩
      rw [hl] at hc
      cases hc
      rfl
    | signal k =>
      obtain ⟨seen, e, hl, -⟩ := hpre
      refine ⟨.caller seen e.signalled, fun seen' e' hc => ?_, h.onward hl rfl⟩
      rw [hl] at hc
      cases hc
      rfl
    | signalAll => exact ⟨ls t, rfl, h.apart rfl⟩
    | childMoves k => exact ⟨ls t, rfl, h.apart rfl⟩

/-! ### Runs -/

/-- A kernel that has just been started. -/
def Desk.start (t : Tid n) : Desk := if t.isWorker then .idle else .caller [] .none

lemma custody_fresh (quota : Quota) :
    Custody { world := freshWorld n quota } (Desk.start : Tid n → Desk) := by
  have hstart : ∀ t : Tid n, Desk.start t = .idle ∨ Desk.start t = .caller [] .none := by
    intro t
    unfold Desk.start
    split
    · exact .inl rfl
    · exact .inr rfl
  refine ⟨le_rfl, fun p hp => (by cases hp), fun t seen e ht p hp => ?_, fun t => ?_, fun t => ?_,
    ?_, fun t p s ht => ?_⟩
  · rcases hstart t with hs | hs <;> rw [hs] at ht <;> cases ht
    cases hp
  · rcases hstart t with hs | hs <;> rw [hs] <;> rfl
  · cases t <;> rfl
  · have hnone : ∀ t : Tid n, (Desk.start t).hand = {} := by
      intro t
      rcases hstart t with hs | hs <;> rw [hs] <;> rfl
    simp only [hnone]
    exact ⟨List.nodup_nil, fun p hp => (by cases hp), fun t p ht => (by cases ht),
      fun t u p ht => (by cases ht), fun t p ht => (by cases ht), fun t u p ht => (by cases ht),
      fun p hp => (by cases hp)⟩
  · rcases hstart t with hs | hs <;> rw [hs] at ht <;> cases ht

section Managed

variable {G : Type} {obs : Observer FOp (Tid n) (Fleet n) G} {E : Fleet n → G → (Tid n → Desk) → Prop}
  {K : System.Guard FOp (Tid n) (Fleet n × G)}

/-- **The rule for runs of the process backend.**  One more invariant of the state, of what
an observer remembers and of the notes, to be shown for one operation at a time. -/
lemma managed_sound
    (hE : ∀ (β : Type) (t : Tid n) (o : FOp β) f g ls l', Custody f ls → E f g ls →
      (ls t).allows o → K t o (f, g) → (ls t).learns o (Fleet.exec cfg out kids t o f).1 l' →
      E (Fleet.exec cfg out kids t o f).2 (obs t o f (Fleet.exec cfg out kids t o f).1 g)
        (Function.update ls t l'))
    {quota : Quota} {g : G} (hstart : E { world := freshWorld n quota } g Desk.start)
    {as : List (Act (Tid n) FleetCall)}
    (hK : ((fleetSystem n .process cfg out kids).watched obs).Meets K
      ((launchFleet n quota).beside g) as) :
    System.Sound managing (fun s ls => Custody s.1 ls ∧ E s.1 s.2 ls) (fun t l => l.Rest t)
      (((fleetSystem n .process cfg out kids).watched obs).run ((launchFleet n quota).beside g)
        as) := by
  have hpool : System.Sound managing (fun s ls => Custody s.1 ls ∧ E s.1 s.2 ls)
      (fun t l => l.Rest t) ((launchFleet n quota).beside g) := by
    refine ⟨Desk.start, ⟨custody_fresh quota, hstart⟩, fun t => ?_⟩
    cases t with
    | worker i => exact rfl
    | client k => exact ⟨[], .none, rfl⟩
  have hcalls : ∀ t c, Act.call t c ∈ as → True := fun _ _ _ => trivial
  have hop : ∀ (β : Type) (t : Tid n) (o : FOp β) (s : Fleet n × G) ls,
      (Custody s.1 ls ∧ E s.1 s.2 ls) → (ls t).allows o → K t o s →
      ∃ l', (ls t).learns o (((fleetSystem n .process cfg out kids).watched obs).exec t o s).1 l' ∧
        Custody (((fleetSystem n .process cfg out kids).watched obs).exec t o s).2.1
          (Function.update ls t l') ∧
        E (((fleetSystem n .process cfg out kids).watched obs).exec t o s).2.1
          (((fleetSystem n .process cfg out kids).watched obs).exec t o s).2.2
          (Function.update ls t l') := by
    rintro β t o ⟨f, g⟩ ls ⟨hI, hEf⟩ hpre hguard
    obtain ⟨l', hlearn, hI'⟩ : Minded cfg out kids f ls t o := hI.step hpre
    exact ⟨l', hlearn, hI', hE β t o f g ls l' hI hEf hpre hguard hlearn⟩
  refine System.run_inv ?_ ?_ hop hpool hK hcalls
  · exact fun t l hl => manages_fleet cfg out kids t hl
  · exact fun t c l _ ht hl => manages_entry cfg out kids ht hl

end Managed

end Gcos.Process
