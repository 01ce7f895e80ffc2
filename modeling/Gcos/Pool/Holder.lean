import Gcos.Pool.Following
import Gcos.Pool.Runs
import Gcos.Kernel.Effects
import Gcos.Lib.Watch

/-!
# What the holder of an agent believes is so

The knowledge of a `Grip` stays true while other threads move: only the worker that holds
an agent changes its prompt, its result and its number of calls, and nobody else brings it
to `DONE`.  What the others can do to the block meanwhile is `Aside`: they link children
to it, and they kill it.
-/

namespace Gcos.Pool

open Lib World

variable {n : ℕ} {cfg : KernelConfig} {out : Outside} {rules : Rules} {m : Manner} {w w' : World n}
  {ls : Tid n → Note} {ms : Tid n → Hold} {t : Tid n} {β : Type} {o : KOp β}

/-- What the threads that do not hold an agent do to its block. -/
structure Aside (pcb pcb' : AgentControlBlock) : Prop where
  prompt : pcb'.prompt = pcb.prompt
  result : pcb'.result = pcb.result
  pipeTo : pcb'.pipeTo = pcb.pipeTo
  inputFrom : pcb'.inputFrom = pcb.inputFrom
  calls : pcb'.llmCallsUsed = pcb.llmCallsUsed
  done : pcb'.state = .done ↔ pcb.state = .done
  terminal : pcb.isTerminal = true → pcb' = { pcb with children := pcb'.children, error := pcb'.error }

lemma Aside.refl (pcb : AgentControlBlock) : Aside pcb pcb :=
  ⟨rfl, rfl, rfl, rfl, rfl, Iff.rfl, fun _ => rfl⟩

lemma Aside.isTerminal {pcb pcb' : AgentControlBlock} (h : Aside pcb pcb')
    (hterm : pcb.isTerminal = true) : pcb'.isTerminal = true := by
  rw [h.terminal hterm]
  exact hterm

lemma aside_zombie (pcb : AgentControlBlock) (now : Time) :
    Aside pcb (pcb.transition .zombie now) := by
  cases hterm : pcb.isTerminal with
  | true =>
    rw [AgentControlBlock.transition_of_isTerminal pcb _ now hterm]
    exact .refl pcb
  | false =>
    have hstate := AgentControlBlock.state_transition_of_live pcb .zombie now hterm
    have hframe := AgentControlBlock.transition_frame pcb .zombie now
    have hdone : pcb.state ≠ .done := by
      intro h
      rw [AgentControlBlock.isTerminal, h] at hterm
      cases hterm
    refine ⟨?_, ?_, ?_, ?_, ?_, ?_, fun h => ?_⟩
    · rw [hframe]
    · rw [hframe]
    · rw [hframe]
    · rw [hframe]
    · rw [hframe]
    · rw [hstate]
      exact ⟨fun h => (by cases h), fun h => absurd h hdone⟩
    · rw [hterm] at h
      cases h

/-- What a worker knows is so. -/
structure Grip.Fits (g : Grip) (pcb : AgentControlBlock) : Prop where
  seen : ∀ b, g.seen = some b → pcb.prompt = b.prompt ∧ pcb.result = b.result ∧
    pcb.pipeTo = b.pipeTo ∧ pcb.inputFrom = b.inputFrom ∧ (b.state = .done → pcb.state = .done)
  dead : g.dead = true → pcb.isTerminal = true
  wants : g.wants = true → pcb.inputFrom.isSome = true ∧ needsInput pcb.prompt = true
  undone : g.undone = true → pcb.state ≠ .done
  noPipe : g.noPipe = true → pcb.pipeTo = none

lemma Grip.Fits.aside {g : Grip} {pcb pcb' : AgentControlBlock} (h : g.Fits pcb)
    (ha : Aside pcb pcb') : g.Fits pcb' where
  seen := by
    intro b hb
    obtain ⟨h₁, h₂, h₃, h₄, h₅⟩ := h.seen b hb
    exact ⟨ha.prompt.trans h₁, ha.result.trans h₂, ha.pipeTo.trans h₃, ha.inputFrom.trans h₄,
      fun hd => ha.done.2 (h₅ hd)⟩
  dead := fun hd => ha.isTerminal (h.dead hd)
  wants := fun hw => by rw [ha.inputFrom, ha.prompt]; exact h.wants hw
  undone := fun hu hd => h.undone hu (ha.done.1 hd)
  noPipe := fun hp => by rw [ha.pipeTo]; exact h.noPipe hp

/-- Reading a block teaches what is so. -/
lemma Grip.Fits.read {g : Grip} {pcb : AgentControlBlock} (h : g.Fits pcb) :
    (g.read pcb).Fits pcb where
  seen := by
    rintro b ⟨⟩
    exact ⟨rfl, rfl, rfl, rfl, id⟩
  dead := by
    intro hd
    rcases Bool.or_eq_true_iff.1 hd with hd | hd
    · exact h.dead hd
    · exact hd
  wants := by
    intro hw
    rcases Bool.or_eq_true_iff.1 hw with hw | hw
    · exact h.wants hw
    · exact Bool.and_eq_true_iff.1 hw
  undone := by
    intro hu
    rcases Bool.or_eq_true_iff.1 hu with hu | hu
    · exact h.undone hu
    · simpa using hu
  noPipe := by
    intro hp
    rcases Bool.or_eq_true_iff.1 hp with hp | hp
    · exact h.noPipe hp
    · simpa using hp

/-- The knowledge of a worker that has just picked an agent. -/
lemma fits_picked {pcb : AgentControlBlock} (h : pcb.state ≠ .done) : ({} : Grip).Fits pcb :=
  ⟨fun _ hb => (by cases hb), fun hd => (by cases hd), fun hw => (by cases hw), fun _ => h,
    fun hp => (by cases hp)⟩

lemma Grip.Fits.write {g : Grip} {pcb : AgentControlBlock} (h : g.Fits pcb) (c : Write)
    (hc : g.mayWrite c) (clock : ℕ → Time) : (g.write c).Fits (c.apply clock pcb) := by
  cases c with
  | transition st =>
    have hframe := AgentControlBlock.transition_frame pcb st (clock 0)
    refine ⟨fun b hb => (by cases hb), fun hd => ?_, fun hw => ?_, fun hu => ?_, fun hp => ?_⟩
    · simp only [Grip.write, Bool.or_eq_true] at hd
      rw [Write.isTerminal_apply]
      exact hd.imp h.dead fun hst => ⟨st, rfl, hst⟩
    · rw [Write.apply, hframe]
      exact h.wants hw
    · simp only [Grip.write, Bool.and_eq_true, decide_eq_true_eq] at hu
      rw [Write.apply]
      cases hterm : pcb.isTerminal with
      | true =>
        rw [AgentControlBlock.transition_of_isTerminal pcb st _ hterm]
        exact h.undone hu.1
      | false =>
        rw [AgentControlBlock.state_transition_of_live pcb st _ hterm]
        exact hu.2
    · rw [Write.apply, hframe]
      exact h.noPipe hp
  | prompt text =>
    exact ⟨fun b hb => (by cases hb), h.dead, fun hw => (by cases hw), h.undone, h.noPipe⟩
  | addChild child => exact hc.elim
  | _ => exact ⟨fun b hb => (by cases hb), h.dead, h.wants, h.undone, h.noPipe⟩

/-- The holders know what is so, and no agent in the queue is `DONE`. -/
structure HoldInv (w : World n) (ms : Tid n → Hold) : Prop where
  held : ∀ t p, (w.loc t).held = some p ↔ ∃ g, ms t = .holding p g
  fits : ∀ t p g, ms t = .holding p g → g.Fits (w.pcbs p)
  fresh : ∀ t p, ms t = .client (some p) → (w.loc t).fresh = some p
  queued : ∀ p ∈ w.queue.q, (w.pcbs p).state ≠ .done

/-- What a thread does to an agent that it neither holds nor spawns. -/
lemma aside_exec (h : HoldInv w ms) (hpre : (ms t).allows m o) {p : Pid}
    (hheld : (w.loc t).held ≠ some p) (hfresh : (w.loc t).fresh ≠ some p)
    (hnew : p ≠ (w.nextPid : ℤ)) : Aside (w.pcbs p) ((exec cfg out t o w).2.pcbs p) := by
  have hstep := pcb_exec cfg out t o hnew
  generalize (exec cfg out t o w).2.pcbs p = b at hstep ⊢
  cases hstep with
  | write c =>
    cases hl : ms t with
    | idle | released =>
      rw [hl] at hpre
      exact hpre.elim
    | holding r g =>
      rw [hl] at hpre
      obtain ⟨rfl, -⟩ := hpre
      exact absurd ((h.held t r).2 ⟨g, hl⟩) hheld
    | client fresh =>
      rw [hl] at hpre
      cases c with
      | addChild child => exact ⟨rfl, rfl, rfl, rfl, rfl, Iff.rfl, fun _ => rfl⟩
      | error msg => exact ⟨rfl, rfl, rfl, rfl, rfl, Iff.rfl, fun _ => rfl⟩
      | transition st =>
        cases st with
        | waiting =>
          obtain rfl : fresh = some p := hpre
          exact absurd (h.fresh t p hl) hfresh
        | zombie => exact aside_zombie _ _
        | _ => exact hpre.elim
      | _ => exact hpre.elim
  | put _ =>
    rcases hpre with hl | ⟨g, hl, -⟩
    · exact absurd (h.fresh t p hl) hfresh
    · exact absurd ((h.held t p).2 ⟨g, hl⟩) hheld
  | same => exact .refl _

/-- An agent that somebody else holds. -/
lemma aside_held (hI : Inv rules w ls) (h : HoldInv w ms) (hpre : (ms t).allows m o) {u : Tid n}
    (hu : u ≠ t) {p : Pid} (hp : (w.loc u).held = some p) :
    Aside (w.pcbs p) ((exec cfg out t o w).2.pcbs p) := by
  have henq := (hI.owned.held u p hp).1
  refine aside_exec h hpre (fun ht => hu (hI.owned.held_once u t p hp ht)) (fun ht => ?_) ?_
  · exact (hI.owned.fresh t p ht).1 henq
  · exact (hI.owned.allocated p henq).2.ne

/-- An agent that waits in the queue. -/
lemma aside_queued (hI : Inv rules w ls) (h : HoldInv w ms) (hpre : (ms t).allows m o) {p : Pid}
    (hp : p ∈ w.queue.q) : Aside (w.pcbs p) ((exec cfg out t o w).2.pcbs p) := by
  have henq := hI.owned.queued p hp
  refine aside_exec h hpre (fun ht => (hI.owned.held t p ht).2 hp) (fun ht => ?_) ?_
  · exact (hI.owned.fresh t p ht).1 henq
  · exact (hI.owned.allocated p henq).2.ne

lemma allocated_exec {p : Pid} (hp : Allocated w.nextPid p) :
    Allocated (exec cfg out t o w).2.nextPid p :=
  ⟨hp.1, hp.2.trans_le (by exact_mod_cast nextPid_le_exec)⟩

/-- Who holds an agent after an operation. -/
lemma holding_after {l' : Hold} {b : β} (hlearn : (ms t).learns m o b l') {u : Tid n} {p : Pid}
    {g' : Grip} (hu : Function.update ms t l' u = .holding p g') :
    g' = {} ∧ o.picks = true ∨
      ∃ g, ms u = .holding p g ∧ (u ≠ t ∧ g' = g ∨ u = t ∧ g' = g.after o b) := by
  rcases update_eq_cases hu with ⟨rfl, hnow⟩ | ⟨hut, hu⟩
  · refine (Hold.holding_of_learns hlearn hnow).imp id ?_
    rintro ⟨g, hg, rfl⟩
    exact ⟨g, hg, .inr ⟨rfl, rfl⟩⟩
  · exact .inr ⟨g', hu, .inl ⟨hut, rfl⟩⟩

/-- A thread moves: the others keep what they know. -/
lemma HoldInv.move (hI : Inv rules w ls) (h : HoldInv w ms) (hpre : (ms t).allows m o) {l' : Hold}
    (hheld : ∀ p, ((exec cfg out t o w).2.loc t).held = some p ↔ ∃ g, l' = .holding p g)
    (hfits : ∀ p g, l' = .holding p g → g.Fits ((exec cfg out t o w).2.pcbs p))
    (hfresh : ∀ p, l' = .client (some p) → ((exec cfg out t o w).2.loc t).fresh = some p) :
    HoldInv (exec cfg out t o w).2 (Function.update ms t l') where
  held := by
    intro u p
    by_cases hu : u = t
    · subst hu
      rw [Function.update_self]
      exact hheld p
    · rw [Function.update_of_ne hu, loc_exec_of_ne hu]
      exact h.held u p
  fits := by
    intro u p g hl
    rcases update_eq_cases hl with ⟨rfl, hnow⟩ | ⟨hu, hl⟩
    · exact hfits p g hnow
    · exact (h.fits u p g hl).aside (aside_held hI h hpre hu ((h.held u p).2 ⟨g, hl⟩))
  fresh := by
    intro u p hl
    by_cases hu : u = t
    · subst hu
      rw [Function.update_self] at hl
      exact hfresh p hl
    · rw [Function.update_of_ne hu] at hl
      rw [loc_exec_of_ne hu]
      exact h.fresh u p hl
  queued := by
    intro p hp
    rcases mem_entries_exec hp with hp | ⟨-, -, hready⟩
    · exact fun hd => h.queued p hp ((aside_queued hI h hpre hp).done.1 hd)
    · rw [hready]
      intro hd
      cases hd

/-- The worker's own block is left alone, and its knowledge changes at most in what it is
not about. -/
lemma HoldInv.tune (hI : Inv rules w ls) (h : HoldInv w ms) (hpre : (ms t).allows m o)
    (hhands : o.movesHands = false) (hblocks : o.movesBlocks = false) (f : Grip → Grip)
    (hf : ∀ g pcb, Grip.Fits g pcb → (f g).Fits pcb) :
    HoldInv (exec cfg out t o w).2 (Function.update ms t ((ms t).adjust f)) := by
  obtain ⟨hheld, hfresh⟩ : ((exec cfg out t o w).2.loc t).held = (w.loc t).held ∧
      ((exec cfg out t o w).2.loc t).fresh = (w.loc t).fresh := hands_exec hhands
  refine h.move hI hpre (fun p => ?_) (fun p g hl => ?_) fun p hl => ?_
  · rw [hheld, h.held]
    cases hl : ms t <;> simp [Hold.adjust]
  · rw [pcbs_exec hblocks]
    cases hm : ms t with
    | holding q g' =>
      rw [hm] at hl
      cases hl
      exact hf g' _ (h.fits t p g' hm)
    | idle | released | client _ =>
      rw [hm] at hl
      cases hl
  · rw [hfresh]
    cases hm : ms t with
    | holding q g' | idle | released =>
      rw [hm] at hl
      cases hl
    | client fresh =>
      rw [hm] at hl
      cases hl
      exact h.fresh t p hm

/-- What a thread does when it changes hands, and what it then knows. -/
def StillHolds (cfg : KernelConfig) (out : Outside) (m : Manner) (w : World n) (ms : Tid n → Hold)
    (t : Tid n) {β : Type} (o : KOp β) : Prop :=
  ∃ l', (ms t).learns m o (exec cfg out t o w).1 l' ∧
    HoldInv (exec cfg out t o w).2 (Function.update ms t l')

lemma adjust_id (l : Hold) : l.adjust id = l := by
  cases l <;> rfl

/-- An operation from which the thread learns nothing. -/
lemma HoldInv.same (hI : Inv rules w ls) (h : HoldInv w ms) (hpre : (ms t).allows m o)
    (hhands : o.movesHands = false) (hblocks : o.movesBlocks = false) :
    HoldInv (exec cfg out t o w).2 (Function.update ms t (ms t)) := by
  have hsame : HoldInv (exec cfg out t o w).2 (Function.update ms t ((ms t).adjust id)) :=
    h.tune hI hpre hhands hblocks id fun _ _ hg => hg
  rwa [adjust_id] at hsame

lemma holds_readPcb {look : Look} (hI : Inv rules w ls) (h : HoldInv w ms) {p : Pid}
    (hpre : (ms t).allows m (.readPcb p look)) : StillHolds cfg out m w ms t (.readPcb p look) := by
  refine ⟨_, ⟨fun q g hl hdead => ?_, rfl⟩, ?_⟩
  · rw [hl] at hpre
    obtain rfl : q = p := hpre
    exact (h.fits t q g hl).dead hdead
  · refine h.move hI hpre (fun q => ?_) (fun q g hl => ?_) fun q hl => ?_
    · change (w.loc t).held = some q ↔ _
      rw [h.held]
      cases ms t <;> simp [Hold.adjust]
    · cases hm : ms t with
      | holding r g' =>
        rw [hm] at hl hpre
        obtain rfl : r = p := hpre
        cases hl
        exact (h.fits t _ g' hm).read
      | idle | released | client _ =>
        rw [hm] at hl
        cases hl
    · cases hm : ms t with
      | holding r g' | idle | released =>
        rw [hm] at hl
        cases hl
      | client fresh =>
        rw [hm] at hl
        cases hl
        exact h.fresh t q hm

lemma holds_write (hI : Inv rules w ls) (h : HoldInv w ms) {p : Pid} {c : Write}
    (hpre : (ms t).allows m (.write p c)) : StillHolds cfg out m w ms t (.write p c) := by
  obtain ⟨hheld, hfresh⟩ : ((exec cfg out t (.write p c) w).2.loc t).held = (w.loc t).held ∧
      ((exec cfg out t (.write p c) w).2.loc t).fresh = (w.loc t).fresh := hands_exec rfl
  refine ⟨_, rfl, h.move hI hpre (fun q => ?_) (fun q g hl => ?_) fun q hl => ?_⟩
  · rw [hheld, h.held]
    cases ms t <;> simp [Hold.adjust]
  · cases hm : ms t with
    | holding r g' =>
      rw [hm] at hl hpre
      obtain ⟨rfl, hmay⟩ := hpre
      cases hl
      rw [pcb_write]
      exact (h.fits t _ g' hm).write c hmay _
    | idle | released | client _ =>
      rw [hm] at hl
      cases hl
  · rw [hfresh]
    cases hm : ms t with
    | holding r g' | idle | released =>
      rw [hm] at hl
      cases hl
    | client fresh =>
      rw [hm] at hl
      cases hl
      exact h.fresh t q hm

lemma holds_newPcb (hI : Inv rules w ls) (h : HoldInv w ms) {args : SpawnArgs}
    (hpre : (ms t).allows m (.newPcb args)) : StillHolds cfg out m w ms t (.newPcb args) := by
  have hclient := hpre
  obtain ⟨fresh, hl⟩ := hclient
  refine ⟨_, rfl, h.move hI hpre (fun q => ?_) (fun q g hq => ?_) fun q hq => ?_⟩
  · simp only [exec, note, Function.update_self]
    rw [h.held, hl]
    simp
  · cases hq
  · cases hq
    simp [exec, note]

lemma holds_tableAdd (hI : Inv rules w ls) (h : HoldInv w ms) {p : Pid}
    (hpre : (ms t).allows m (.tableAdd p)) : StillHolds cfg out m w ms t (.tableAdd p) := by
  have hl : ms t = .client (some p) := hpre
  have hnone : ∀ q, (w.loc t).held ≠ some q := by
    intro q hq
    obtain ⟨g, hg⟩ := (h.held t q).1 hq
    rw [hl] at hg
    cases hg
  refine ⟨_, rfl, h.move hI hpre (fun q => ?_) (fun q g hq => ?_) fun q hq => ?_⟩
  · rw [hl]
    simp only [exec]
    split <;> simp [note, hnone q]
  · rw [hl] at hq
    split at hq <;> cases hq
  · rw [hl] at hq
    simp only [exec] at hq ⊢
    split at hq
    · cases hq
    · next hin =>
      rw [if_neg hin]
      simp only [if_true] at hq
      rw [← hl] at hq
      exact h.fresh t q hq

lemma holds_pickNext (hI : Inv rules w ls) (h : HoldInv w ms)
    (hpre : (ms t).allows m .pickNext) : StillHolds cfg out m w ms t .pickNext := by
  have hl : ms t = .idle := hpre
  rcases Scheduler.pickNext_cases w.pcbs (out.clock w.ticks) w.queue cfg.scheduler with
    ⟨-, hpick⟩ | ⟨p, hp, hpick⟩
  · have hexec : exec cfg out t .pickNext w = (none, { w with ticks := w.ticks + 1 }) := by
      simp only [exec, hpick]
    refine ⟨ms t, by rw [hexec]; rfl, h.move hI hpre (fun q => ?_) (fun q g hq => ?_) fun q hq => ?_⟩
    · rw [hexec]
      exact h.held t q
    · rw [hl] at hq
      cases hq
    · rw [hl] at hq
      cases hq
  · have hexec : exec cfg out t .pickNext w = (some p,
        { w with
          queue := { q := w.queue.q.erase p, inFlight := w.queue.inFlight + 1 }
          ticks := w.ticks + 1 }.note t fun l => { l with held := some p, flying := true }) := by
      simp only [exec, hpick]
    refine ⟨.holding p {}, by rw [hexec]; rfl,
      h.move hI hpre (fun q => ?_) (fun q g hq => ?_) fun q hq => ?_⟩
    · rw [hexec]
      simp [note, eq_comm]
    · cases hq
      rw [hexec]
      exact fits_picked (h.queued p hp)
    · cases hq

lemma holds_put (hI : Inv rules w ls) (h : HoldInv w ms) {p : Pid}
    (hpre : (ms t).allows m (.put p)) : StillHolds cfg out m w ms t (.put p) := by
  have hcases := hpre
  rcases hcases with hl | ⟨g, hl, -⟩
  · -- a caller puts the agent that it has spawned
    have hnone : ∀ q, (w.loc t).held ≠ some q := by
      intro q hq
      obtain ⟨g, hg⟩ := (h.held t q).1 hq
      rw [hl] at hg
      cases hg
    refine ⟨.client none, by rw [hl]; rfl,
      h.move hI hpre (fun q => ?_) (fun q g hq => ?_) fun q hq => ?_⟩
    · simp only [exec, World.put]
      split <;> simp [note, hnone q]
    · cases hq
    · cases hq
  · have hlive := (h.held t p).2 ⟨g, hl⟩
    cases hterm : (w.pcbs p).isTerminal with
    | true =>
      have hexec : exec cfg out t (.put p) w =
          (false, w.note t fun l => { l with fresh := none }) := by
        simp only [exec, World.put, hterm, if_true]
      refine ⟨.holding p g, by rw [hl, hexec]; rfl,
        h.move hI hpre (fun q => ?_) (fun q g' hq => ?_) fun q hq => ?_⟩
      · rw [hexec]
        simp [note, hlive]
      · cases hq
        rw [hexec]
        exact h.fits t p g hl
      · cases hq
    | false =>
      refine ⟨.released, ?_,
        h.move hI hpre (fun q => ?_) (fun q g' hq => ?_) fun q hq => ?_⟩
      · rw [hl]
        simp [exec, World.put, hterm, Hold.learns]
      · simp [exec, World.put, hterm, note]
      · cases hq
      · cases hq

lemma holds_taskDone (hI : Inv rules w ls) (h : HoldInv w ms)
    (hpre : (ms t).allows m .taskDone) : StillHolds cfg out m w ms t .taskDone := by
  refine ⟨.idle, rfl, h.move hI hpre (fun q => ?_) (fun q g hq => ?_) fun q hq => ?_⟩
  · simp [exec, note]
  · cases hq
  · cases hq

/-- **Every operation leaves the holders with true knowledge.** -/
lemma hold_step (hI : Inv rules w ls) (h : HoldInv w ms) (hcalm : m.calm = true → rules.quiet = true)
    {β : Type} (o : KOp β) (hpre : (ms t).allows m o) : StillHolds cfg out m w ms t o := by
  cases o with
  | readPcb p _ => exact holds_readPcb hI h hpre
  | write p c => exact holds_write hI h hpre
  | newPcb args => exact holds_newPcb hI h hpre
  | tableAdd p => exact holds_tableAdd hI h hpre
  | pickNext => exact holds_pickNext hI h hpre
  | put p => exact holds_put hI h hpre
  | taskDone => exact holds_taskDone hI h hpre
  | stopIsSet site =>
    refine ⟨_, ⟨fun hc => ?_, rfl⟩, h.same hI hpre rfl rfl⟩
    exact hI.stop (hcalm hc)
  | enterBusy p =>
    exact ⟨_, rfl, h.tune hI hpre rfl rfl _ fun g pcb hg =>
      ⟨hg.seen, hg.dead, hg.wants, hg.undone, hg.noPipe⟩⟩
  | mailbox target =>
    exact ⟨_, rfl, h.tune hI hpre rfl rfl _ fun g pcb hg =>
      ⟨hg.seen, hg.dead, hg.wants, hg.undone, hg.noPipe⟩⟩
  | mailboxGet box =>
    exact ⟨_, rfl, h.tune hI hpre rfl rfl _ fun g pcb hg =>
      ⟨hg.seen, hg.dead, hg.wants, hg.undone, hg.noPipe⟩⟩
  | mailboxPut box msg =>
    exact ⟨_, rfl, h.tune hI hpre rfl rfl _ fun g pcb hg =>
      ⟨hg.seen, hg.dead, hg.wants, hg.undone, hg.noPipe⟩⟩
  | _ => exact ⟨_, rfl, h.same hI hpre rfl rfl⟩

/-! ### Runs -/

/-- The knowledge of a thread that is not in the middle of anything. -/
def Rest (t : Tid n) (l : Hold) : Prop := l = if t.isWorker then .idle else .client none

/-- The switches of the two disciplines suit each other and the kernel. -/
structure Suits (rules : Rules) (m : Manner) (cfg : KernelConfig) : Prop where
  metered : rules.metered = false
  lossless : rules.lossless = true → rules.quiet = true
  calm : m.calm = true → rules.quiet = true
  bus : m.bus = true → cfg.hasBus = true
  limit : m.limit ≤ stepLimit cfg.scheduler

/-- The calls that the switches admit. -/
def Admits (rules : Rules) (m : Manner) (c : KernelCall) : Prop :=
  (rules.quiet = true → c ≠ .shutdown) ∧ (m.calm = true → calmCall c = true)

section

variable {G : Type} {obs : Observer KOp (Tid n) (World n) G}
  {E : World n → G → (Tid n → Note) → (Tid n → Hold) → Prop}
  {K : System.Guard KOp (Tid n) (World n × G)}

/-- A pool with a memory beside it that is sound for both disciplines, with one more
invariant `E` of the world and the memory. -/
def Holds (rules : Rules) (m : Manner)
    (E : World n → G → (Tid n → Note) → (Tid n → Hold) → Prop) :
    Lib.Pool KOp (Tid n) (World n × G) → Prop :=
  System.SoundOver (discipline rules) (handling m) (fun s ls => Inv rules s.1 ls)
    (fun s ls ms => HoldInv s.1 ms ∧ E s.1 s.2 ls ms) Idle Rest

/-- What is to be shown of the further invariant: every operation keeps it. -/
def Upholds (cfg : KernelConfig) (out : Outside) (rules : Rules) (m : Manner)
    (obs : Observer KOp (Tid n) (World n) G)
    (E : World n → G → (Tid n → Note) → (Tid n → Hold) → Prop)
    (K : System.Guard KOp (Tid n) (World n × G)) : Prop :=
  ∀ (β : Type) (t : Tid n) (o : KOp β) (w : World n) (g : G) (ls : Tid n → Note)
    (ms : Tid n → Hold) (l : Note) (l' : Hold), Inv rules w ls → HoldInv w ms → E w g ls ms →
    (ls t).allows rules o → (ms t).allows m o → K t o (w, g) →
    (ls t).learns rules o (exec cfg out t o w).1 l →
    (ms t).learns m o (exec cfg out t o w).1 l' →
    Inv rules (exec cfg out t o w).2 (Function.update ls t l) →
    HoldInv (exec cfg out t o w).2 (Function.update ms t l') →
    E (exec cfg out t o w).2 (obs t o w (exec cfg out t o w).1 g) (Function.update ls t l)
      (Function.update ms t l')

/-- **The runs of the thread backend, with what the holders know.** -/
theorem holds_run (hs : Suits rules m cfg) (hE : Upholds cfg out rules m obs E K)
    {pool : Lib.Pool KOp (Tid n) (World n × G)} (hpool : Holds rules m E pool)
    {as : List (Act (Tid n) KernelCall)}
    (hK : ((kernelSystem n cfg out).watched obs).Meets K pool as)
    (has : ∀ t c, Act.call t c ∈ as → Admits rules m c) :
    Holds rules m E (((kernelSystem n cfg out).watched obs).run pool as) := by
  have hfits : rules.Fits cfg.pager.policies := by
    intro h
    rw [hs.metered] at h
    cases h
  have hbody : ∀ (t : Tid n) l, Idle t l →
      (((kernelSystem n cfg out).watched obs).body t).Obeys (discipline rules) l
        fun _ l => Idle t l := by
    intro t l hl
    have hobeys : ((kernelSystem n cfg out).body t).Obeys (discipline rules) l fun _ l => Idle t l :=
      obeys_body hfits t hl
    exact hobeys
  have hbody' : ∀ (t : Tid n) l, Rest t l →
      (((kernelSystem n cfg out).watched obs).body t).Obeys (handling m) l
        fun _ l => Rest t l := by
    rintro (i | k) l rfl
    · exact follows_loopBody cfg hs.bus hs.limit
    · rfl
  have hentry : ∀ (t : Tid n) c l, Admits rules m c →
      ((kernelSystem n cfg out).watched obs).serves t c = true → Idle t l →
      (((kernelSystem n cfg out).watched obs).entry c).Obeys (discipline rules) l
        fun _ l => Idle t l :=
    fun t c _ hc hserves hl => obeys_entry cfg out t c hc.1 hserves hl
  have hentry' : ∀ (t : Tid n) c l, Admits rules m c →
      ((kernelSystem n cfg out).watched obs).serves t c = true → Rest t l →
      (((kernelSystem n cfg out).watched obs).entry c).Obeys (handling m) l
        fun _ l => Rest t l := by
    rintro (i | k) c l hc hserves rfl
    · cases hserves
    · exact (follows_code c hc.2).bind _ fun _ _ h => h
  refine System.run_inv_over hbody hbody' hentry hentry' ?_ ?_ hpool hK has
  · intro β t o s ls hI hpre _
    refine inv_step hI o hpre fun hloss => ?_
    exact noLateStop_of_running (hI.stop (hs.lossless hloss))
  · rintro β t o ⟨w, g⟩ ls ms l hI ⟨hH, hEw⟩ hpre hpre' hguard hlearn hI'
    obtain ⟨l', hlearn', hH'⟩ := hold_step hI hH hs.calm o hpre'
    exact ⟨l', hlearn', hH', hE β t o w g ls ms l l' hI hH hEw hpre hpre' hguard hlearn hlearn'
      hI' hH'⟩

/-- A kernel that has just been started. -/
lemma holds_boot (hs : rules.metered = false) {quota : Quota} {g : G}
    (hE : E (freshWorld n quota) g (fun t => if t.isWorker then .worker else .caller [] none)
      fun t => if t.isWorker then .idle else .client none) :
    Holds rules m E ((boot n quota).beside g) := by
  refine System.SoundOver.intro (inv_fresh (by simp [hs])) ⟨⟨fun t p => ?_, fun t p g hl => ?_,
    fun t p hl => ?_, fun p hp => ?_⟩, hE⟩ (fun t => ?_) fun t => ?_
  · cases t <;> simp [Lib.Pool.beside, boot, freshWorld, Tid.isWorker]
  · cases t <;> cases hl
  · cases t <;> cases hl
  · cases hp
  · cases t with
    | worker i => exact rfl
    | client k => exact ⟨[], none, rfl⟩
  · cases t <;> rfl

/-- The runs from a pool with a memory beside it. -/
lemma Holds.run {pool : Lib.Pool KOp (Tid n) (World n)} {g : G}
    (hpool : Holds rules m E (pool.beside g)) (hs : Suits rules m cfg)
    (hE : Upholds cfg out rules m obs E K) {as : List (Act (Tid n) KernelCall)}
    (hK : ((kernelSystem n cfg out).watched obs).Meets K (pool.beside g) as)
    (has : ∀ t c, Act.call t c ∈ as → Admits rules m c) :
    Holds rules m E (((kernelSystem n cfg out).run pool as).beside
      ((kernelSystem n cfg out).observed obs pool g as)) := by
  have hrun := holds_run hs hE hpool hK has
  rwa [System.run_beside] at hrun

/-- One more invariant, if it holds now. -/
lemma Holds.strengthen {E' : World n → G → (Tid n → Note) → (Tid n → Hold) → Prop}
    {pool : Lib.Pool KOp (Tid n) (World n × G)} (h : Holds rules m E pool)
    (hE : ∀ ls ms, Inv rules pool.shared.1 ls → HoldInv pool.shared.1 ms →
      E pool.shared.1 pool.shared.2 ls ms → E' pool.shared.1 pool.shared.2 ls ms) :
    Holds rules m E' pool := by
  obtain ⟨xs, ⟨hI, hH, hEw⟩, hcode⟩ := h
  exact ⟨xs, ⟨hI, hH, hE _ _ hI hH hEw⟩, hcode⟩

/-- The observer that sees nothing. -/
def blind : Observer KOp (Tid n) (World n) Unit := fun _ _ _ _ g => g

/-- The invariants of a sound pool. -/
lemma Holds.elim {pool : Lib.Pool KOp (Tid n) (World n)} {g : G}
    (h : Holds rules m E (pool.beside g)) :
    ∃ ls ms, Inv rules pool.shared ls ∧ HoldInv pool.shared ms ∧ E pool.shared g ls ms ∧
      ∀ (t : Tid n) (β : Type) (o : KOp β) k, pool.code t = .op o k →
        (ls t).allows rules o ∧ (ms t).allows m o := by
  obtain ⟨xs, ⟨hI, hH, hE⟩, hcode⟩ := h
  refine ⟨_, _, hI, hH, hE, fun t β o k hk => ?_⟩
  have hobey := hcode t
  rw [show (pool.beside g).code t = .op o k from hk] at hobey
  exact hobey.1

/-- The invariants of a sound pool, with what the threads know that are not in the middle
of anything. -/
lemma Holds.returned {pool : Lib.Pool KOp (Tid n) (World n)} {g : G}
    (h : Holds rules m E (pool.beside g)) :
    ∃ ls ms, Inv rules pool.shared ls ∧ HoldInv pool.shared ms ∧ E pool.shared g ls ms ∧
      ∀ (t : Tid n) (b : Bool), pool.code t = .ret b → Rest t (ms t) := by
  obtain ⟨xs, ⟨hI, hH, hE⟩, hcode⟩ := h
  refine ⟨_, _, hI, hH, hE, fun t b hb => ?_⟩
  have hobey := hcode t
  rw [show (pool.beside g).code t = .ret b from hb] at hobey
  exact hobey.2

/-- Only workers hold agents. -/
lemma HoldInv.worker_of_holding (hI : Inv rules w ls) (hH : HoldInv w ms) {p : Pid} {g : Grip}
    (hl : ms t = .holding p g) : ∃ i, t = .worker i := by
  have hheld := (hH.held t p).2 ⟨g, hl⟩
  have hrole := hI.role t
  rw [hI.hand] at hheld
  cases t with
  | worker i => exact ⟨i, rfl⟩
  | client k =>
    cases hnote : ls (.client k) <;> rw [hnote] at hheld hrole
    · cases hheld
    · cases hheld
    · cases hheld
    · cases hrole
    · cases hheld

end

end Gcos.Pool
