import Gcos.Lib.Lists
import Gcos.Pool.Convoy

/-!
# The order of the first steps

With the FCFS scheduler the agents that were never picked stand in the ready queue in the
order in which they came, so they are picked for the first time in that order.  With one
worker the first dispatch of an agent ends before that of the next begins, and it ends with
a step unless the agent waits for input or the quota refuses the unit.
-/

namespace Gcos.Pool

open Lib World

variable {n : ℕ} {cfg : KernelConfig} {out : Outside} {rules : Rules} {m : Manner} {w w' : World n}
  {ls : Tid n → Note} {ms : Tid n → Hold} {t : Tid n} {β : Type} {o : KOp β} {p : Pid}
  {g : Ledger} {l' : Hold}

/-- The agents in the order in which they were enqueued, against those that were picked and
those that began. -/
structure Queueing (w : World n) (g : Ledger) (ms : Tid n → Hold) : Prop where
  nodup : w.enqueued.Nodup
  picked : ∀ a ∈ g.picked, a ∈ w.enqueued
  held : ∀ t a gr, ms t = .holding a gr → a ∈ g.picked ∧ (0 < gr.steps → a ∈ g.began)
  began : ∀ a ∈ g.began, a ∈ g.picked
  /-- The agents that were never picked wait in the order in which they came. -/
  inOrder : w.queue.q.filter (· ∉ g.picked) = w.enqueued.filter (· ∉ g.picked)
  first : ∀ a b, [a, b].Sublist w.enqueued → b ∈ g.picked → a ∈ g.picked
  /-- An agent that needs no input is either held in its first dispatch, or has begun, or
  was put back for want of quota. -/
  turn : ∀ a ∈ g.picked, a ∉ g.wanting → a ∈ g.began ∨ a ∈ g.blocked ∨
    ∃ t gr, ms t = .holding a gr
  later : ∀ a b, [a, b].Sublist w.enqueued → b ∈ g.began → a ∉ g.wanting →
    a ∈ g.began ∨ a ∈ g.blocked
  content : ∀ a, Allocated w.nextPid a → a ∉ g.wanting →
    ¬((w.pcbs a).inputFrom.isSome = true ∧ needsInput (w.pcbs a).prompt = true)
  alive : ∀ a ∈ w.enqueued, a ∉ g.wanting → a ∉ g.began → (w.pcbs a).isTerminal = false

/-- Who needs no input goes on needing none. -/
lemma Queueing.content_exec (h : Queueing w g ms) (hH : HoldInv w ms)
    (hpre : (ms t).allows m o) (hp : Allocated w.nextPid p) (hwant : p ∉ g.wanting) :
    ¬(((exec cfg out t o w).2.pcbs p).inputFrom.isSome = true ∧
      needsInput ((exec cfg out t o w).2.pcbs p).prompt = true) := by
  rw [(wiring_exec hp).2]
  by_cases hwrite : ∃ text, opDeed o = some (.complete p text)
  · -- a prompt is completed only while it has a placeholder
    exfalso
    obtain ⟨text, hdeed⟩ := hwrite
    cases o with
    | mailboxGet box => cases hdeed
    | write c v =>
      have hc : c = p := by
        simp only [opDeed, writeDeed] at hdeed
        split at hdeed <;> cases hdeed
        rfl
      subst hc
      rcases wants_of_writeDeed hdeed hpre with ⟨gr, hl, hwants⟩ | ⟨hpark, -⟩
      · exact h.content c hp hwant ((hH.fits t c gr hl).wants hwants)
      · cases hpark
    | _ => cases hdeed
  · rw [prompt_exec hp fun text hdeed => hwrite ⟨text, hdeed⟩]
    exact h.content p hp hwant

/-- An agent that needs no input ends in a step. -/
lemma Queueing.alive_exec (h : Queueing w g ms) (hI : Inv rules w ls) (hH : HoldInv w ms)
    (hcalm : m.calm = true) (hpre : (ms t).allows m o) (hp : p ∈ w.enqueued)
    (hwant : p ∉ g.wanting) (hbegan : p ∉ g.began) :
    ((exec cfg out t o w).2.pcbs p).isTerminal = false := by
  have hlive := h.alive p hp hwant hbegan
  have halloc := hI.owned.allocated p hp
  have hstep := pcb_exec cfg out t o halloc.2.ne
  generalize (exec cfg out t o w).2.pcbs p = b at hstep ⊢
  cases hstep with
  | write v =>
    by_contra hdead
    rw [Bool.not_eq_false, Write.isTerminal_apply] at hdead
    rcases hdead with hdead | ⟨st, rfl, hst⟩
    · rw [hlive] at hdead
      cases hdead
    · cases hl : ms t with
      | idle | released =>
        rw [hl] at hpre
        exact hpre.elim
      | client fresh =>
        rw [hl] at hpre
        cases st with
        | zombie =>
          have hfalse : m.calm = false := hpre
          rw [hcalm] at hfalse
          cases hfalse
        | waiting => cases hst
        | _ => exact hpre.elim
      | holding r gr =>
        rw [hl] at hpre
        obtain ⟨rfl, hmay⟩ := hpre
        have hcause : gr.wants = true ∨ 0 < gr.steps := by
          cases st with
          | waiting => cases hst
          | _ => exact hmay hst
        rcases hcause with hwants | hsteps
        · exact h.content r halloc hwant ((hH.fits t r gr hl).wants hwants)
        · exact hbegan ((h.held t r gr hl).2 hsteps)
  | put hlive' =>
    rw [AgentControlBlock.isTerminal, AgentControlBlock.state_transition_of_live _ _ _ hlive']
    rfl
  | same => exact hlive

/-- An operation that leaves the queue and the hands alone. -/
lemma Queueing.frame (h : Queueing w g ms) (hI : Inv rules w ls) (hH : HoldInv w ms)
    (hcalm : m.calm = true) (hpre : (ms t).allows m o)
    (hlearn : (ms t).learns m o (exec cfg out t o w).1 l') (hstart : o.starts = none)
    (hput : o.releases = false) (hpick : o.picks = false) (hentries : o.movesEntries = false)
    {wanting : List Pid} (hwanting : g.wanting ⊆ wanting)
    (hcontent : ∀ a, Allocated (exec cfg out t o w).2.nextPid a → a ∉ wanting →
      ¬(((exec cfg out t o w).2.pcbs a).inputFrom.isSome = true ∧
        needsInput ((exec cfg out t o w).2.pcbs a).prompt = true)) :
    Queueing (exec cfg out t o w).2 { g with wanting := wanting } (Function.update ms t l') where
  nodup := by
    rw [enqueued_exec hentries]
    exact h.nodup
  picked := by
    rw [enqueued_exec hentries]
    exact h.picked
  held := by
    intro u a gr' hu
    rcases holding_after hlearn hu with ⟨-, hp⟩ | ⟨gr, hgr, ⟨-, rfl⟩ | ⟨-, rfl⟩⟩
    · rw [hpick] at hp
      cases hp
    · exact h.held u a gr' hgr
    · rw [steps_after hstart]
      exact h.held u a gr hgr
  began := h.began
  inOrder := by
    rw [entries_exec hentries, enqueued_exec hentries]
    exact h.inOrder
  first := by
    rw [enqueued_exec hentries]
    exact h.first
  turn := by
    intro a ha hwant
    refine (h.turn a ha fun hw => hwant (hwanting hw)).imp id (Or.imp id ?_)
    rintro ⟨u, gr, hu⟩
    by_cases hut : u = t
    · subst hut
      rw [hu] at hpre hlearn
      exact ⟨u, _, (Function.update_self ..).trans (Hold.holding_of_not_releases hpre hlearn hput)⟩
    · exact ⟨u, gr, by rwa [Function.update_of_ne hut]⟩
  later := by
    rw [enqueued_exec hentries]
    exact fun a b hab hb hwant => h.later a b hab hb fun hw => hwant (hwanting hw)
  content := hcontent
  alive := by
    intro a ha hwant hbegan
    rw [enqueued_exec hentries] at ha
    exact h.alive_exec hI hH hcalm hpre ha (fun hw => hwant (hwanting hw)) hbegan

/-- The construction of an agent. -/
lemma Queueing.newPcb (h : Queueing w g ms) (hI : Inv rules w ls) (hH : HoldInv w ms)
    (hcalm : m.calm = true) {args : SpawnArgs} (hpre : (ms t).allows m (.newPcb args))
    (hlearn : (ms t).learns m (.newPcb args) (exec cfg out t (.newPcb args) w).1 l') :
    Queueing (exec cfg out t (.newPcb args) w).2
      (timekeeper t (.newPcb args) w (exec cfg out t (.newPcb args) w).1 g)
      (Function.update ms t l') := by
  -- the old agents need no more than before, and of the new one the observer takes note
  have hcontent : ∀ wanting, g.wanting ⊆ wanting →
      (args.inputFrom.isSome = true ∧ needsInput args.prompt = true → (w.nextPid : ℤ) ∈ wanting) →
      ∀ a, Allocated (exec cfg out t (.newPcb args) w).2.nextPid a → a ∉ wanting →
        ¬(((exec cfg out t (.newPcb args) w).2.pcbs a).inputFrom.isSome = true ∧
          needsInput ((exec cfg out t (.newPcb args) w).2.pcbs a).prompt = true) := by
    intro wanting hwanting hnew (a : ℤ) ha hwant
    by_cases hold : Allocated w.nextPid a
    · exact h.content_exec hH hpre hold fun hw => hwant (hwanting hw)
    · have hnext : a = (w.nextPid : ℤ) := by
        obtain ⟨hge, hlt⟩ := ha
        simp only [exec, note, Nat.cast_add, Nat.cast_one] at hlt
        simp only [Allocated, not_and, not_lt] at hold
        have := hold hge
        omega
      subst hnext
      simp only [exec, note, Function.update_self, newBlock]
      exact fun hneeds => hwant (hnew hneeds)
  have hg : timekeeper t (.newPcb args) w (exec cfg out t (.newPcb args) w).1 g =
      { g with
        wanting :=
          if args.inputFrom.isSome ∧ needsInput args.prompt then
            (exec cfg out t (.newPcb args) w).1 :: g.wanting
          else g.wanting } := by
    simp only [timekeeper]
    split <;> rfl
  rw [hg]
  refine h.frame hI hH hcalm hpre hlearn rfl rfl rfl rfl ?_ (hcontent _ ?_ ?_)
  · split
    · exact List.subset_cons_self ..
    · exact List.Subset.refl _
  · split
    · exact List.subset_cons_self ..
    · exact List.Subset.refl _
  · intro hneeds
    rw [if_pos hneeds]
    exact List.mem_cons_self

/-- The beginning of a step, when nobody else holds an agent. -/
lemma Queueing.enterBusy (h : Queueing w g ms) (hI : Inv rules w ls) (hH : HoldInv w ms)
    (hcalm : m.calm = true) (hpre : (ms t).allows m (.enterBusy p))
    (hlearn : (ms t).learns m (.enterBusy p) (exec cfg out t (.enterBusy p) w).1 l')
    (hsole : ∀ u a gr, ms u = .holding a gr → u = t) :
    Queueing (exec cfg out t (.enterBusy p) w).2
      (timekeeper t (.enterBusy p) w (exec cfg out t (.enterBusy p) w).1 g)
      (Function.update ms t l') := by
  obtain ⟨gr₀, hl⟩ := id hpre
  have hl' : l' = .holding p { gr₀ with steps := gr₀.steps + 1 } := by
    rw [hl] at hlearn
    exact hlearn
  have hheld : ∀ u a gr, Function.update ms t l' u = .holding a gr →
      a = p ∨ ms u = .holding a gr := by
    intro u a gr hu
    by_cases hut : u = t
    · subst hut
      rw [Function.update_self, hl'] at hu
      cases hu
      exact .inl rfl
    · exact .inr (by rwa [Function.update_of_ne hut] at hu)
  have hpicked := (h.held t p gr₀ hl).1
  exact
    { nodup := h.nodup
      picked := h.picked
      held := by
        intro u a gr hu
        rcases hheld u a gr hu with rfl | hgr
        · exact ⟨hpicked, fun _ => List.mem_cons_self⟩
        · exact (h.held u a gr hgr).imp id fun hsteps hpos => List.mem_cons_of_mem _ (hsteps hpos)
      began := by
        intro a ha
        rcases List.mem_cons.1 ha with rfl | ha
        · exact hpicked
        · exact h.began a ha
      inOrder := h.inOrder
      first := h.first
      turn := by
        intro a ha hwant
        by_cases hap : a = p
        · exact .inl (hap ▸ List.mem_cons_self)
        · rcases h.turn a ha hwant with hbegan | hblocked | ⟨u, gr, hu⟩
          · exact .inl (List.mem_cons_of_mem _ hbegan)
          · exact .inr (.inl hblocked)
          · obtain rfl := hsole u a gr hu
            rw [hl] at hu
            cases hu
            exact absurd rfl hap
      later := by
        intro a b hab hb hwant
        rcases List.mem_cons.1 hb with rfl | hb
        · -- whoever came before was picked before, and is not held any more
          rcases h.turn a (h.first a b hab hpicked) hwant with hbegan | hblocked | ⟨u, gr, hu⟩
          · exact .inl (List.mem_cons_of_mem _ hbegan)
          · exact .inr hblocked
          · obtain rfl := hsole u a gr hu
            rw [hl] at hu
            cases hu
            exact absurd (h.nodup.sublist hab) (by simp)
        · exact (h.later a b hab hb hwant).imp (List.mem_cons_of_mem _) id
      content := fun a ha hwant => h.content_exec hH hpre ha hwant
      alive := by
        intro a ha hwant hbegan
        exact h.alive_exec hI hH hcalm hpre ha hwant fun hb => hbegan (List.mem_cons_of_mem _ hb) }

/-- The first entry of the queue. -/
lemma pickNext_fcfs (cfg : KernelConfig) (out : Outside) (t : Tid n) (w : World n)
    (hfcfs : cfg.scheduler = .fcfs) :
    (w.queue.q = [] ∧ (exec cfg out t .pickNext w).1 = none) ∨
      ∃ a rest, w.queue.q = a :: rest ∧ (exec cfg out t .pickNext w).1 = some a ∧
        (exec cfg out t .pickNext w).2.queue.q = rest := by
  cases hq : w.queue.q with
  | nil =>
    left
    simp [exec, hfcfs, Scheduler.pickNext, ReadyQueue.popleft, hq]
  | cons a rest =>
    right
    exact ⟨a, rest, rfl, by simp [exec, hfcfs, Scheduler.pickNext, ReadyQueue.popleft, hq, note]⟩

/-- Who heads those that wait in order comes before them all. -/
lemma head_of_waiting {picked enqueued rest : List Pid} {a b : Pid} (hnodup : enqueued.Nodup)
    (hrest : enqueued.filter (· ∉ picked) = b :: rest) (hab : [a, b].Sublist enqueued) :
    a ∈ picked := by
  by_contra ha
  have hb : b ∉ picked := by
    have hmem : b ∈ enqueued.filter (· ∉ picked) := hrest ▸ List.mem_cons_self
    simpa using (List.mem_filter.1 hmem).2
  have hsub : [a, b].Sublist (b :: rest) := by
    have hfilter := hab.filter fun x => decide (x ∉ picked)
    rwa [hrest, List.filter_cons_of_pos (by simpa using ha),
      List.filter_cons_of_pos (by simpa using hb), List.filter_nil] at hfilter
  have hwait : (b :: rest).Nodup := hrest ▸ hnodup.filter _
  have hne : a ≠ b := by
    rintro rfl
    exact absurd (hnodup.sublist hab) (by simp)
  cases hsub with
  | cons _ hsub => exact (List.nodup_cons.1 hwait).1 (hsub.subset (by simp))
  | cons_cons _ _ => exact hne rfl

/-- Picking an agent: the queue loses its first entry. -/
lemma Queueing.pickNext (h : Queueing w g ms) (hI : Inv rules w ls) (hH : HoldInv w ms)
    (hcalm : m.calm = true) (hfcfs : cfg.scheduler = .fcfs) (hpre : (ms t).allows m .pickNext)
    (hlearn : (ms t).learns m .pickNext (exec cfg out t .pickNext w).1 l') :
    Queueing (exec cfg out t .pickNext w).2
      (timekeeper t .pickNext w (exec cfg out t .pickNext w).1 g) (Function.update ms t l') := by
  have hidle : ms t = .idle := hpre
  have henq : (exec cfg out t .pickNext w).2.enqueued = w.enqueued := by
    simp only [exec]
    split <;> rfl
  have hcontent : ∀ a, Allocated (exec cfg out t .pickNext w).2.nextPid a → a ∉ g.wanting →
      ¬(((exec cfg out t .pickNext w).2.pcbs a).inputFrom.isSome = true ∧
        needsInput ((exec cfg out t .pickNext w).2.pcbs a).prompt = true) := by
    intro a ha hwant
    rw [nextPid_exec rfl] at ha
    exact h.content_exec hH hpre ha hwant
  have halive : ∀ a ∈ (exec cfg out t .pickNext w).2.enqueued, a ∉ g.wanting → a ∉ g.began →
      ((exec cfg out t .pickNext w).2.pcbs a).isTerminal = false := by
    intro a ha hwant hbegan
    rw [henq] at ha
    exact h.alive_exec hI hH hcalm hpre ha hwant hbegan
  rcases pickNext_fcfs cfg out t w hfcfs with ⟨hq, hnone⟩ | ⟨p, rest, hq, hsome, hrest⟩
  · have hq' : (exec cfg out t .pickNext w).2.queue.q = w.queue.q := by
      simp [exec, hfcfs, Scheduler.pickNext, ReadyQueue.popleft, hq]
    rw [hnone] at hlearn ⊢
    rw [show l' = ms t from hlearn, Function.update_eq_self]
    exact
      { nodup := henq ▸ h.nodup
        picked := henq ▸ h.picked
        held := h.held
        began := h.began
        inOrder := by
          rw [henq, hq']
          exact h.inOrder
        first := henq ▸ h.first
        turn := h.turn
        later := henq ▸ h.later
        content := hcontent
        alive := halive }
  · rw [hsome] at hlearn ⊢
    obtain rfl : l' = .holding p {} := hlearn
    have hp : p ∈ w.enqueued := hI.owned.queued p (hq ▸ List.mem_cons_self)
    have hshrink : ∀ l : List Pid, l.filter (· ∉ p :: g.picked) =
        (l.filter (· ∉ g.picked)).filter (· ≠ p) := by
      intro l
      rw [List.filter_filter]
      exact List.filter_congr fun a _ => by simp [not_or]
    exact
      { nodup := henq ▸ h.nodup
        picked := by
          intro a ha
          rw [henq]
          rcases List.mem_cons.1 ha with rfl | ha
          · exact hp
          · exact h.picked a ha
        held := by
          intro u a gr hu
          rcases update_eq_cases hu with ⟨rfl, hnow⟩ | ⟨-, hu⟩
          · cases hnow
            exact ⟨List.mem_cons_self, fun hpos => absurd hpos (lt_irrefl 0)⟩
          · exact (h.held u a gr hu).imp (List.mem_cons_of_mem _) id
        began := fun a ha => List.mem_cons_of_mem _ (h.began a ha)
        inOrder := by
          have hold := congrArg (List.filter (· ≠ p)) h.inOrder
          rw [← hshrink, ← hshrink, hq, List.filter_cons_of_neg (by simp)] at hold
          rw [henq, hrest]
          exact hold
        first := by
          intro a b hab hb
          rw [henq] at hab
          refine List.mem_cons_of_mem _ ?_
          by_cases hold : b ∈ g.picked
          · exact h.first a b hab hold
          · -- the new one heads those that were never picked
            obtain rfl : b = p := (List.mem_cons.1 hb).resolve_right hold
            have hhead : w.enqueued.filter (· ∉ g.picked) = b :: rest.filter (· ∉ g.picked) := by
              rw [← h.inOrder, hq, List.filter_cons_of_pos (by simpa using hold)]
            exact head_of_waiting h.nodup hhead hab
        turn := by
          intro a ha hwant
          rcases List.mem_cons.1 ha with rfl | ha
          · exact .inr (.inr ⟨t, {}, Function.update_self ..⟩)
          · refine (h.turn a ha hwant).imp id (Or.imp id ?_)
            rintro ⟨u, gr, hu⟩
            have hut : u ≠ t := by
              rintro rfl
              rw [hidle] at hu
              cases hu
            exact ⟨u, gr, by rwa [Function.update_of_ne hut]⟩
        later := henq ▸ h.later
        content := hcontent
        alive := halive }

/-- The end of a dispatch. -/
lemma Queueing.taskDone (h : Queueing w g ms)
    (hended : ∀ a gr, ms t = .holding a gr → (w.pcbs a).isTerminal = true)
    (hlearn : (ms t).learns m .taskDone (exec cfg out t .taskDone w).1 l') :
    Queueing (exec cfg out t .taskDone w).2 g (Function.update ms t l') := by
  obtain rfl : l' = .idle := hlearn
  refine ⟨h.nodup, h.picked, fun u a gr hu => ?_, h.began, ?_, h.first, fun a ha hwant => ?_,
    h.later, h.content, h.alive⟩
  · have hut : u ≠ t := by
      rintro rfl
      rw [Function.update_self] at hu
      cases hu
    rw [Function.update_of_ne hut] at hu
    exact h.held u a gr hu
  · rw [entries_exec rfl]
    exact h.inOrder
  · rcases h.turn a ha hwant with hbegan | hblocked | ⟨u, gr, hu⟩
    · exact .inl hbegan
    · exact .inr (.inl hblocked)
    · by_cases hut : u = t
      · -- it has ended, and before its first step it could not end
        subst hut
        by_contra hno
        have hbegan : a ∉ g.began := fun hb => hno (.inl hb)
        have hlive := h.alive a (h.picked a ha) hwant hbegan
        rw [hended a gr hu] at hlive
        cases hlive
      · exact .inr (.inr ⟨u, gr, by rwa [Function.update_of_ne hut]⟩)

/-- A refused `put` changes nothing but that a caller has no agent in hand any more. -/
lemma Queueing.refused (h : Queueing w g ms) (hI : Inv rules w ls) (hH : HoldInv w ms)
    (hcalm : m.calm = true) (hpre : (ms t).allows m (.put p))
    (hlearn : (ms t).learns m (.put p) (exec cfg out t (.put p) w).1 l')
    (hb : (exec cfg out t (.put p) w).1 = false)
    (hq : (exec cfg out t (.put p) w).2.queue.q = w.queue.q)
    (henq : (exec cfg out t (.put p) w).2.enqueued = w.enqueued) :
    Queueing (exec cfg out t (.put p) w).2 g (Function.update ms t l') := by
  have hms : ∀ u a gr, Function.update ms t l' u = .holding a gr ↔ ms u = .holding a gr := by
    intro u a gr
    by_cases hut : u = t
    · subst hut
      rw [Function.update_self]
      rcases id hpre with hl | ⟨gr₀, hl, -⟩
      · rw [hl] at hlearn ⊢
        obtain rfl : l' = .client none := hlearn
        simp
      · rw [hl, hb] at hlearn
        rw [show l' = .holding p gr₀ from hlearn, hl]
    · rw [Function.update_of_ne hut]
  exact
    { nodup := henq ▸ h.nodup
      picked := henq ▸ h.picked
      held := fun u a gr hu => h.held u a gr ((hms u a gr).1 hu)
      began := h.began
      inOrder := by
        rw [henq, hq]
        exact h.inOrder
      first := henq ▸ h.first
      turn := by
        intro a ha hwant
        refine (h.turn a ha hwant).imp id (Or.imp id ?_)
        rintro ⟨u, gr, hu⟩
        exact ⟨u, gr, (hms u a gr).2 hu⟩
      later := henq ▸ h.later
      content := by
        intro a ha hwant
        rw [nextPid_exec rfl] at ha
        exact h.content_exec hH hpre ha hwant
      alive := by
        intro a ha hwant hbegan
        rw [henq] at ha
        exact h.alive_exec hI hH hcalm hpre ha hwant hbegan }

/-- What the observer of a `put` keeps. -/
lemma timekeeper_put (t : Tid n) (p : Pid) (w : World n) (accepted : Bool) (g : Ledger) :
    (timekeeper t (.put p) w accepted g).began = g.began ∧
      (timekeeper t (.put p) w accepted g).picked = g.picked ∧
      (timekeeper t (.put p) w accepted g).wanting = g.wanting ∧
      ∀ a ∈ g.blocked, a ∈ (timekeeper t (.put p) w accepted g).blocked := by
  simp only [timekeeper]
  split
  · refine ⟨rfl, rfl, rfl, fun a ha => ?_⟩
    show a ∈ if (w.pcbs p).state = .blocked then p :: g.blocked else g.blocked
    split
    · exact List.mem_cons_of_mem _ ha
    · exact ha
  · exact ⟨rfl, rfl, rfl, fun a ha => ha⟩

/-- A new agent is put at the end of the queue. -/
lemma Queueing.spawned (h : Queueing w g ms) (hI : Inv rules w ls) (hH : HoldInv w ms)
    (hcalm : m.calm = true) (hl : ms t = .client (some p))
    (hlearn : (ms t).learns m (.put p) (exec cfg out t (.put p) w).1 l')
    (hlive : (w.pcbs p).isTerminal = false)
    (hpcbs : (exec cfg out t (.put p) w).2.pcbs =
      Function.update w.pcbs p ((w.pcbs p).transition .ready (out.clock w.ticks)))
    (hq : (exec cfg out t (.put p) w).2.queue.q = w.queue.q ++ [p])
    (henq : (exec cfg out t (.put p) w).2.enqueued = w.enqueued ++ [p]) :
    Queueing (exec cfg out t (.put p) w).2
      (timekeeper t (.put p) w (exec cfg out t (.put p) w).1 g) (Function.update ms t l') := by
  have hpre : (ms t).allows m (.put p) := .inl hl
  obtain rfl : l' = .client none := by
    rw [hl] at hlearn
    exact hlearn
  have hnew : p ∉ w.enqueued := (hI.owned.fresh t p (hH.fresh t p hl)).1
  have hnpicked : p ∉ g.picked := fun hp => hnew (h.picked p hp)
  have hms : ∀ u a gr, Function.update ms t (.client none) u = .holding a gr ↔
      ms u = .holding a gr := by
    intro u a gr
    by_cases hut : u = t
    · subst hut
      simp [hl]
    · rw [Function.update_of_ne hut]
  obtain ⟨hbegan, hpk, hwant, hblocked⟩ :=
    timekeeper_put t p w (exec cfg out t (.put p) w).1 g
  -- the new one comes after all the others
  have hlast : ∀ a b, [a, b].Sublist (w.enqueued ++ [p]) → b ≠ p → [a, b].Sublist w.enqueued := by
    intro a b hab hb
    have hsplit := (@sublist_concat_iff _ [a] w.enqueued b p).1 hab
    exact hsplit.resolve_right fun hend => hb hend.1
  exact
    { nodup := by
        rw [henq, List.nodup_append]
        refine ⟨h.nodup, List.nodup_singleton p, fun a ha b hb hab => ?_⟩
        rw [List.mem_singleton.1 hb] at hab
        exact hnew (hab ▸ ha)
      picked := by
        intro a ha
        rw [hpk] at ha
        exact henq ▸ List.mem_append_left _ (h.picked a ha)
      held := by
        intro u a gr hu
        rw [hpk, hbegan]
        exact h.held u a gr ((hms u a gr).1 hu)
      began := by
        rw [hpk, hbegan]
        exact h.began
      inOrder := by
        rw [hpk, henq, hq, List.filter_append, List.filter_append, h.inOrder]
      first := by
        intro a b hab hb
        rw [henq] at hab
        rw [hpk] at hb ⊢
        exact h.first a b (hlast a b hab fun hbp => hnpicked (hbp ▸ hb)) hb
      turn := by
        intro a ha haw
        rw [hpk] at ha
        rw [hwant] at haw
        rw [hbegan]
        refine (h.turn a ha haw).imp id (Or.imp (hblocked a) ?_)
        rintro ⟨u, gr, hu⟩
        exact ⟨u, gr, (hms u a gr).2 hu⟩
      later := by
        intro a b hab hb haw
        rw [henq] at hab
        rw [hbegan] at hb ⊢
        rw [hwant] at haw
        have hab' := hlast a b hab fun hbp => hnpicked (h.began p (hbp ▸ hb))
        exact (h.later a b hab' hb haw).imp id (hblocked a)
      content := by
        intro a ha haw
        rw [nextPid_exec rfl] at ha
        rw [hwant] at haw
        exact h.content_exec hH hpre ha haw
      alive := by
        intro a ha haw hab
        rw [henq] at ha
        rw [hwant] at haw
        rw [hbegan] at hab
        rcases List.mem_append.1 ha with ha | ha
        · exact h.alive_exec hI hH hcalm hpre ha haw hab
        · rw [List.mem_singleton.1 ha, hpcbs, Function.update_self, AgentControlBlock.isTerminal,
            AgentControlBlock.state_transition_of_live _ _ _ hlive]
          rfl }

/-- A worker puts its agent back at the end of the queue. -/
lemma Queueing.putBack (h : Queueing w g ms) (hS : Streaks w g ms) (hI : Inv rules w ls)
    (hH : HoldInv w ms) (hcalm : m.calm = true) (hlimit : m.limit = nonpreemptiveStepCap)
    {gr₀ : Grip} (hl : ms t = .holding p gr₀) (hpre : (ms t).allows m (.put p))
    (hlearn : (ms t).learns m (.put p) (exec cfg out t (.put p) w).1 l')
    (hlive : (w.pcbs p).isTerminal = false) (hb : (exec cfg out t (.put p) w).1 = true)
    (hq : (exec cfg out t (.put p) w).2.queue.q = w.queue.q ++ [p])
    (henq : (exec cfg out t (.put p) w).2.enqueued = w.enqueued) :
    Queueing (exec cfg out t (.put p) w).2
      (timekeeper t (.put p) w (exec cfg out t (.put p) w).1 g) (Function.update ms t l') := by
  obtain rfl : l' = .released := by
    rw [hl, hb] at hlearn
    exact hlearn
  have hms : ∀ u a gr, Function.update ms t .released u = .holding a gr → ms u = .holding a gr := by
    intro u a gr hu
    have hut : u ≠ t := by
      rintro rfl
      rw [Function.update_self] at hu
      cases hu
    rwa [Function.update_of_ne hut] at hu
  have hpicked := (h.held t p gr₀ hl).1
  obtain ⟨hbegan, hpk, hwant, hblocked⟩ :=
    timekeeper_put t p w (exec cfg out t (.put p) w).1 g
  -- the reasons for which an agent that needs no input is put back
  have hwhy : p ∉ g.wanting → p ∈ g.began ∨
      p ∈ (timekeeper t (.put p) w (exec cfg out t (.put p) w).1 g).blocked := by
    intro hpw
    rcases id hpre with hcl | ⟨gr, hgr, -, hyields⟩
    · rw [hl] at hcl
      cases hcl
    · obtain rfl : gr₀ = gr := by simpa [hl] using hgr
      rcases hyields hcalm with hblk | hsteps | ⟨hwants, -⟩
      · right
        simp [timekeeper, hb, hS.halted t p gr₀ hl hblk hlive]
      · refine .inl ((h.held t p gr₀ hl).2 (lt_of_lt_of_le ?_ hsteps))
        rw [hlimit]
        decide
      · have halloc := hI.owned.allocated p (h.picked p hpicked)
        exact absurd ((hH.fits t p gr₀ hl).wants hwants) (h.content p halloc hpw)
  exact
    { nodup := henq ▸ h.nodup
      picked := by
        rw [hpk, henq]
        exact h.picked
      held := by
        intro u a gr hu
        rw [hpk, hbegan]
        exact h.held u a gr (hms u a gr hu)
      began := by
        rw [hpk, hbegan]
        exact h.began
      inOrder := by
        rw [hpk, henq, hq, List.filter_append, List.filter_cons_of_neg (by simpa using hpicked),
          List.filter_nil, List.append_nil]
        exact h.inOrder
      first := by
        rw [hpk, henq]
        exact h.first
      turn := by
        intro a ha haw
        rw [hpk] at ha
        rw [hwant] at haw
        rw [hbegan]
        rcases h.turn a ha haw with hbg | hbl | ⟨u, gr, hu⟩
        · exact .inl hbg
        · exact .inr (.inl (hblocked a hbl))
        · by_cases hut : u = t
          · subst hut
            rw [hl] at hu
            cases hu
            exact (hwhy haw).imp id .inl
          · exact .inr (.inr ⟨u, gr, by rwa [Function.update_of_ne hut]⟩)
      later := by
        intro a b hab hbb haw
        rw [henq] at hab
        rw [hbegan] at hbb ⊢
        rw [hwant] at haw
        exact (h.later a b hab hbb haw).imp id (hblocked a)
      content := by
        intro a ha haw
        rw [nextPid_exec rfl] at ha
        rw [hwant] at haw
        exact h.content_exec hH hpre ha haw
      alive := by
        intro a ha haw hab
        rw [henq] at ha
        rw [hwant] at haw
        rw [hbegan] at hab
        exact h.alive_exec hI hH hcalm hpre ha haw hab }

/-- Putting an agent into the queue. -/
lemma Queueing.put (h : Queueing w g ms) (hS : Streaks w g ms) (hI : Inv rules w ls)
    (hH : HoldInv w ms) (hcalm : m.calm = true) (hlimit : m.limit = nonpreemptiveStepCap)
    (hpre : (ms t).allows m (.put p))
    (hlearn : (ms t).learns m (.put p) (exec cfg out t (.put p) w).1 l') :
    Queueing (exec cfg out t (.put p) w).2
      (timekeeper t (.put p) w (exec cfg out t (.put p) w).1 g) (Function.update ms t l') := by
  rcases exec_put cfg out t w p with ⟨-, hb, -, hq, henq⟩ | ⟨hlive, hb, hpcbs, hq, henq⟩
  · have hg : timekeeper t (.put p) w (exec cfg out t (.put p) w).1 g = g := by
      simp [timekeeper, hb]
    rw [hg]
    exact h.refused hI hH hcalm hpre hlearn hb hq henq
  · rcases id hpre with hl | ⟨gr₀, hl, -⟩
    · have hfresh := hH.fresh t p hl
      rw [if_pos hfresh] at henq
      exact h.spawned hI hH hcalm hl hlearn hlive hpcbs hq henq
    · have hfresh : (w.loc t).fresh ≠ some p := by
        intro hfresh
        have hheld := (hI.owned.held t p ((hH.held t p).2 ⟨gr₀, hl⟩)).1
        exact (hI.owned.fresh t p hfresh).1 hheld
      rw [if_neg hfresh] at henq
      exact h.putBack hS hI hH hcalm hlimit hl hpre hlearn hlive hb hq henq

/-- **First come, first served**, one operation of one of the threads at a time. -/
lemma upholds_queueing (cfg : KernelConfig) (out : Outside) (hfcfs : cfg.scheduler = .fcfs) :
    Upholds (n := 1) cfg out calmRules calmManner timekeeper
      (fun w g _ ms => Streaks w g ms ∧ Queueing w g ms) System.noGuard := by
  rintro β t o w g ls ms l l' hI hH ⟨hS, hQ⟩ hguard hpre hk hnote hlearn hI' hH'
  refine ⟨upholds_streaks cfg out β t o w g ls ms l l' hI hH hS hguard hpre hk hnote hlearn hI' hH',
    ?_⟩
  have hcontent : o.movesPids = false → ∀ a, Allocated (exec cfg out t o w).2.nextPid a →
      a ∉ g.wanting → ¬(((exec cfg out t o w).2.pcbs a).inputFrom.isSome = true ∧
        needsInput ((exec cfg out t o w).2.pcbs a).prompt = true) := by
    intro hpids a ha hwant
    rw [nextPid_exec hpids] at ha
    exact hQ.content_exec hH hpre ha hwant
  cases o with
  | enterBusy p =>
    refine hQ.enterBusy hI hH rfl hpre hlearn fun u a gr hu => ?_
    -- there is only one worker
    obtain ⟨gr₀, hl⟩ := hpre
    obtain ⟨i, rfl⟩ := HoldInv.worker_of_holding hI hH hu
    obtain ⟨j, rfl⟩ := HoldInv.worker_of_holding hI hH hl
    rw [Subsingleton.elim i j]
  | pickNext => exact hQ.pickNext hI hH rfl hfcfs hpre hlearn
  | taskDone => exact hQ.taskDone (fun a gr hl => ended_of_taskDone hI hH rfl hI' hl) hlearn
  | put p => exact hQ.put hS hI hH rfl rfl hpre hlearn
  | newPcb args => exact hQ.newPcb hI hH rfl hpre hlearn
  | popQueued p =>
    obtain ⟨-, hfalse⟩ := hpre
    cases hfalse
  | _ =>
    exact hQ.frame hI hH rfl hpre hlearn rfl rfl rfl rfl (List.Subset.refl _) (hcontent rfl)

lemma code_of_nextStep {prog : Prog KOp Bool} {b : Pid} (h : nextStep prog = some b) :
    ∃ k, prog = .op (.enterBusy b) k := by
  cases prog with
  | ret a => cases h
  | op o k =>
    cases o <;> cases h
    exact ⟨k, rfl⟩

lemma code_of_nextPut {prog : Prog KOp Bool} {b : Pid} (h : nextPut prog = some b) :
    ∃ k, prog = .op (.put b) k := by
  cases prog with
  | ret a => cases h
  | op o k =>
    cases o <;> cases h
    exact ⟨k, rfl⟩

/-- Before the first call. -/
lemma streaks_fresh {quota : Quota} (hms : ∀ t a gr, ms t ≠ .holding a gr) :
    Streaks (freshWorld n quota) {} ms := by
  refine ⟨fun a ha => ?_, fun a ha _ => ?_, fun t a gr hl => ?_, fun t a gr hl => ?_,
    fun t a gr hl => ?_⟩
  · exact absurd ha (lt_irrefl 0)
  · exact absurd ha (lt_irrefl 0)
  · exact absurd hl (hms t a gr)
  · exact absurd hl (hms t a gr)
  · exact absurd hl (hms t a gr)

lemma queueing_fresh {quota : Quota} (hms : ∀ t a gr, ms t ≠ .holding a gr) :
    Queueing (freshWorld n quota) {} ms where
  nodup := List.nodup_nil
  picked := fun a ha => (by cases ha)
  held := fun t a gr hl => absurd hl (hms t a gr)
  began := fun a ha => (by cases ha)
  inOrder := rfl
  first := fun a b hab => (by cases hab)
  turn := fun a ha => (by cases ha)
  later := fun a b hab => (by cases hab)
  content := by
    rintro (a : ℤ) ⟨hge, hlt⟩
    exact absurd hlt (not_lt.2 hge)
  alive := fun a ha => (by cases ha)

/-- When a step is about to be run, every other agent has ended, or has run no step since
it was put into the queue. -/
def StaysWithOne (pool : Lib.Pool KOp (Tid 1) (World 1)) (g : Ledger) : Prop :=
  ∀ b, nextStep (pool.code (.worker 0)) = some b → ∀ a ≠ b, 0 < g.streak a →
    (pool.shared.pcbs a).isTerminal = true

/-- An agent that has run a step since it was put into the queue is put back only if the
quota has refused a unit, or after `_NONPREEMPTIVE_STEP_CAP` steps. -/
def PutBackWithCause (pool : Lib.Pool KOp (Tid 1) (World 1)) (g : Ledger) : Prop :=
  ∀ a, nextPut (pool.code (.worker 0)) = some a → 0 < g.streak a →
    (pool.shared.pcbs a).isTerminal = true ∨ (pool.shared.pcbs a).state = .blocked ∨
      nonpreemptiveStepCap ≤ g.streak a

/-- When an agent has begun, everybody who came before it and needs no input has begun, or
was put back for want of quota. -/
def BeginInOrder (pool : Lib.Pool KOp (Tid 1) (World 1)) (g : Ledger) : Prop :=
  ∀ a b, [a, b].Sublist pool.shared.enqueued → b ∈ g.began → a ∉ g.wanting →
    a ∈ g.began ∨ a ∈ g.blocked

/-- **FCFS does not preempt.**  With one worker, and as long as nobody kills and nobody
shuts down, the worker stays with an agent until it has ended or is put back, it is put
back only for want of quota or at the cap, and the first steps are run in the order in
which the agents came. -/
theorem stays_and_begins_in_order (cfg : KernelConfig) (out : Outside) (quota : Quota)
    (hfcfs : cfg.scheduler = .fcfs) (as : List (Act (Tid 1) KernelCall))
    (hcalm : ∀ t c, Act.call t c ∈ as → calmCall c = true) :
    let pool := (kernelSystem 1 cfg out).run (boot 1 quota) as
    let g := (kernelSystem 1 cfg out).observed timekeeper (boot 1 quota) {} as
    StaysWithOne pool g ∧ PutBackWithCause pool g ∧ BeginInOrder pool g := by
  intro pool g
  have hs : Suits calmRules calmManner cfg :=
    ⟨rfl, fun _ => rfl, fun _ => rfl, fun h => (by cases h), by rw [hfcfs]; exact le_rfl⟩
  have hadmits : ∀ t c, Act.call t c ∈ as → Admits calmRules calmManner c := by
    intro t c hc
    refine ⟨fun _ => ?_, fun _ => hcalm t c hc⟩
    rintro rfl
    have hfalse := hcalm t _ hc
    cases hfalse
  have hstart : Holds (n := 1) calmRules calmManner
      (fun w g _ ms => Streaks w g ms ∧ Queueing w g ms) ((boot 1 quota).beside {}) := by
    refine holds_boot rfl ⟨streaks_fresh fun t a gr => ?_, queueing_fresh fun t a gr => ?_⟩
    · split <;> exact fun h => (by cases h)
    · split <;> exact fun h => (by cases h)
  have hrun := hstart.run hs (upholds_queueing cfg out hfcfs) (System.meets_noGuard _ _ as) hadmits
  obtain ⟨ls, ms, hI, hH, ⟨hS, hQ⟩, hcode⟩ := hrun.elim
  refine ⟨fun b hb a hab hpos => ?_, fun a ha hpos => ?_, hQ.later⟩
  · -- the worker holds the one agent, so it does not hold the other
    obtain ⟨k, hk⟩ := code_of_nextStep hb
    obtain ⟨gr₀, hl⟩ := (hcode _ _ _ k hk).2
    by_contra hdead
    obtain ⟨u, gr, hu⟩ := hS.stays a hpos (by simpa using hdead)
    obtain ⟨i, rfl⟩ := HoldInv.worker_of_holding hI hH hu
    rw [Subsingleton.elim i 0, hl] at hu
    cases hu
    exact hab rfl
  · obtain ⟨k, hk⟩ := code_of_nextPut ha
    rcases (hcode _ _ _ k hk).2 with hl | ⟨gr, hl, -, hyields⟩
    · exact absurd (hS.known a hpos) (hI.owned.fresh _ a (hH.fresh _ a hl)).1
    · by_contra hno
      simp only [not_or, Bool.not_eq_true] at hno
      rcases hyields rfl with hblocked | hsteps | ⟨-, hzero⟩
      · exact hno.2.1 (hS.halted _ a gr hl hblocked hno.1)
      · exact hno.2.2 (le_trans hsteps (hS.counted _ a gr hl))
      · rcases hS.anew _ a gr hl hzero with hnil | hdead
        · exact hpos.ne' hnil
        · exact absurd (hno.1.symm.trans hdead) (by simp)

/-- Two agents with quota enough: the second one begins when the first one has ended. -/
theorem stays_and_begins_in_order_two_agents :
    ∃ as : List (Act (Tid 1) KernelCall),
      let sys := kernelSystem 1 { pager := {}, host := .inert } (.calm ⟨"hi", 1, 1, 2⟩)
      let pool := sys.run (boot 1 ⟨5, 5⟩) as
      let g := sys.observed timekeeper (boot 1 ⟨5, 5⟩) {} as
      nextStep (pool.code (.worker 0)) = some 2 ∧ 0 < g.streak 1 ∧ StaysWithOne pool g ∧
        PutBackWithCause pool g ∧ BeginInOrder pool g := by
  refine ⟨Act.call (.client 0) (.spawn { prompt := "a" }) ::
    (steps 3 (.client 0) ++ Act.call (.client 0) (.spawn { prompt := "b" }) ::
      (steps 3 (.client 0) ++ steps 38 (.worker 0))), by decide +kernel, by decide +kernel,
    stays_and_begins_in_order _ _ _ rfl _ ?_⟩
  intro t c hc
  simp [steps] at hc
  rcases hc with ⟨-, rfl⟩ | ⟨-, rfl⟩ <;> rfl

end Gcos.Pool
