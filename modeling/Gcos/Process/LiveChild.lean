import Gcos.Process.Marked

/-!
# A live child and the state of its agent

The registry `_children` names the process that runs an agent, and the state of the agent is
to say so: a dispatch moves its agent to `RUNNING` before it asks for units, but only if the
block has no start time yet.  A dispatch that finds no units has set the start time before it
puts the agent back as `READY`, so the next one forks a child for an agent that stays `READY`.

In the runs in which no agent that was blocked on the quota is given a child, unless it was
killed meanwhile, an agent with a live child is `RUNNING` or was killed; and in no others.
-/

namespace Gcos.Process

open Lib Pool World

variable {n : ℕ}

/-- An agent with a child in the registry whose outcome is not settled yet is `RUNNING`, or
was killed. -/
def LiveMeansRunning (f : Fleet n) (g : Chronicle) : Prop :=
  ∀ p k, f.registry p = some k → g.settled p = false →
    (f.world.pcbs p).state = .running ∨ (f.world.pcbs p).state = .zombie

/-- So it is in every state along a schedule. -/
def LiveMeansRunningAlong (sys : System FOp (Tid n) (Fleet n) FleetCall)
    (start : Lib.Pool FOp (Tid n) (Fleet n)) (as : List (Act (Tid n) FleetCall)) : Prop :=
  ∀ bs, bs <+: as → LiveMeansRunning (sys.run start bs).shared (sys.observed chronicler start {} bs)

/-- An agent finds no units, is put back, and gets a child after the topup: it is `READY`
while the child is live. -/
theorem blocked_agent_runs_ready :
    ∃ as : List (Act (Tid 1) FleetCall),
      let out := Outside.calm ⟨"hi", 1, 1, 2⟩
      let sys := fleetSystem 1 .process { pager := {}, host := .inert } out fun _ => ⟨none, out⟩
      let c := sys.run (launchFleet 1 ⟨0, 0⟩) as
      (c.shared.registry 1 = some 0 ∧ (c.shared.world.pcbs 1).state = .ready) ∧
        ¬LiveMeansRunningAlong sys (launchFleet 1 ⟨0, 0⟩) as := by
  refine ⟨Act.call (.client 0) (.kernel (.spawn { prompt := "hello" })) ::
    (List.replicate 3 (.step (.client 0)) ++ List.replicate 15 (.step (.worker 0)) ++
      [.call (.client 0) (.kernel (.topup 5)), .step (.client 0)] ++
      List.replicate 15 (.step (.worker 0))), by decide +kernel, fun h => ?_⟩
  have hlive := h _ (List.prefix_refl _) 1 0 (by decide +kernel) (by decide +kernel)
  revert hlive
  decide +kernel

variable {cfg : KernelConfig} {out : Outside} {kids : ℕ → Offspring} {t : Tid n} {f : Fleet n}
  {g : Chronicle} {ls : Tid n → Desk} {ms : Tid n → Mark} {p : Pid}

/-! ### Whole runs -/

lemma marked_fresh (quota : Quota) :
    Marked { world := freshWorld n quota } {} (Desk.start : Tid n → Desk) fun _ => .off := by
  have hidle : ∀ t : Tid n, Desk.start t = .idle ∨ Desk.start t = .caller [] .none := by
    intro t
    unfold Desk.start
    split
    · exact .inl rfl
    · exact .inr rfl
  have hholds : ∀ (t : Tid n) p s, Desk.start t ≠ .holding p s := by
    intro t p s hl
    rcases hidle t with h | h <;> cases h.symm.trans hl
  refine ⟨fun t _ => .inl rfl, fun p _ => ⟨rfl, rfl⟩, fun p hrest => ?_,
    fun t p s hl => absurd hl (hholds t p s), fun t p s hl => absurd hl (hholds t p s),
    fun p k hk => by cases hk⟩
  rcases hrest with hq | ⟨t, hl⟩
  · cases hq
  · rcases hidle t with h | h <;> cases h.symm.trans hl

/-- In a state that the marks agree with, a live child means `RUNNING`. -/
lemma Marked.live (h : Marked f g ls ms) : LiveMeansRunning f g := by
  intro p k hk hnot
  obtain ⟨t, s, b, hl, -, hm⟩ := h.registered p k hk
  have hagrees := h.held t p s hl hnot
  rw [hm] at hagrees
  exact hagrees.symm

/-- Between two calls a caller stands nowhere. -/
def Mark.Rest (t : Tid n) (m : Mark) : Prop := t.isWorker = false → m = .off

section Run

variable {quota : Quota} {as : List (Act (Tid n) FleetCall)}

lemma marked_run
    (hguard : ((fleetSystem n .process cfg out kids).watched chronicler).Meets NeverBlocked
      ((launchFleet n quota).beside {}) as) :
    System.SoundOver managing marking (fun s ls => Custody s.1 ls)
      (fun s ls ms => Marked s.1 s.2 ls ms) (fun t l => l.Rest t) Mark.Rest
      (((fleetSystem n .process cfg out kids).watched chronicler).run
        ((launchFleet n quota).beside {}) as) := by
  have hstart : System.SoundOver managing marking (fun s ls => Custody s.1 ls)
      (fun s ls ms => Marked s.1 s.2 ls ms) (fun t l => l.Rest t) Mark.Rest
      ((launchFleet n quota).beside {}) := by
    refine System.SoundOver.intro (custody_fresh quota) (marked_fresh quota) (fun t => ?_)
      fun t _ => rfl
    cases t with
    | worker i => exact rfl
    | client k => exact ⟨[], .none, rfl⟩
  refine System.run_inv_over ?_ ?_ ?_ ?_ ?_ ?_ hstart hguard fun _ _ _ => (trivial : True)
  · exact fun t l hl => manages_fleet cfg out kids t hl
  · rintro (i | k) m hm
    · exact (marks_loopForked m).mono fun _ _ _ hc => by cases hc
    · exact hm
  · exact fun t c l _ ht hl => manages_entry cfg out kids ht hl
  · rintro (i | k) c m _ ht hm
    · cases ht
    · rw [hm rfl]
      exact (marks_fleetCode c).bind _ fun _ m hm _ => hm
  · rintro β t o ⟨f, g⟩ ls hI hpre -
    exact hI.step hpre
  · rintro β t o ⟨f, g⟩ ls ms l' hI hM hpre hmark hguard hlearn hI'
    exact ⟨_, rfl, hM.step hI hI' hpre hmark hguard hlearn⟩

/-- A child that is registered for an agent that was blocked: its agent is not `RUNNING`. -/
lemma not_live_of_blocked {k : ℕ} (h : Marked f g ls ms)
    (hpre : (ls t).allows (.inr (.register p k))) (hmark : (ms t).allows (.inr (.register p k)))
    (hblocked : ¬NeverBlocked t (.inr (.register p k)) (f, g)) :
    ¬LiveMeansRunning { f with registry := Function.update f.registry p (some k) }
      { g with settled := Function.update g.settled p false } := by
  intro hlive
  obtain ⟨u, c, hl⟩ := hpre
  have hm : ms t = .launched := hmark
  have hagrees := h.held t p _ hl (h.unsettled hl (by simp [hm]) (by simp [hm]))
  rw [hm] at hagrees
  obtain ⟨hb, hzombie⟩ := not_or.1 hblocked
  have hstate := (hagrees.resolve_left hzombie).state
  rcases hlive p k (Function.update_self _ _ _) (Function.update_self _ _ _) with hrun | hdead
  · exact hb (hstate.1 hrun)
  · exact hzombie hdead

end Run

/-- **A live child means `RUNNING`** in every state of a run if and only if no agent that
was blocked on the quota is given a child along the run, unless it was killed. -/
theorem liveMeansRunningAlong_iff {n : ℕ} (cfg : KernelConfig) (out : Outside)
    (kids : ℕ → Offspring) (quota : Quota) (as : List (Act (Tid n) FleetCall)) :
    LiveMeansRunningAlong (fleetSystem n .process cfg out kids) (launchFleet n quota) as ↔
      ((fleetSystem n .process cfg out kids).watched chronicler).Meets NeverBlocked
        ((launchFleet n quota).beside {}) as := by
  have hstate : ∀ bs, LiveMeansRunning
      ((fleetSystem n .process cfg out kids).run (launchFleet n quota) bs).shared
      ((fleetSystem n .process cfg out kids).observed chronicler (launchFleet n quota) {} bs) ↔
      LiveMeansRunning
        (((fleetSystem n .process cfg out kids).watched chronicler).run
          ((launchFleet n quota).beside {}) bs).shared.1
        (((fleetSystem n .process cfg out kids).watched chronicler).run
          ((launchFleet n quota).beside {}) bs).shared.2 := by
    intro bs
    rw [System.run_beside]
    exact Iff.rfl
  constructor
  · -- by induction on the schedule: the first registration that the guard forbids would be seen
    induction as using List.reverseRecOn with
    | nil => exact fun _ => trivial
    | append_singleton as a ih =>
      intro h
      have hmeets := ih fun bs hbs => h bs (hbs.trans (List.prefix_append as [a]))
      refine along_append.2 ⟨hmeets, ?_, trivial⟩
      have hlast := (hstate _).1 (h _ (List.prefix_refl _))
      obtain ⟨xs, ⟨hI, hM⟩, hcode⟩ := marked_run hmeets
      rw [System.run_append, System.run_cons, System.run_nil] at hlast
      change System.Permits _ (((fleetSystem n .process cfg out kids).watched chronicler).run
        ((launchFleet n quota).beside {}) as) a
      generalize ((fleetSystem n .process cfg out kids).watched chronicler).run
        ((launchFleet n quota).beside {}) as = c at hlast hI hM hcode ⊢
      cases a with
      | call t r => trivial
      | step t =>
        have hobeys := hcode t
        simp only [System.Permits]
        split
        · trivial
        · next o k hop =>
          rw [hop] at hobeys
          simp only [System.next, hop] at hlast
          obtain ⟨⟨hpre, hmark⟩, -⟩ := hobeys
          rcases o with o | o
          · trivial
          · cases o with
            | register p j =>
              by_contra hblocked
              exact not_live_of_blocked (p := p) (k := j) hM hpre hmark hblocked hlast
            | _ => trivial
  · rintro h bs ⟨cs, rfl⟩
    obtain ⟨xs, ⟨-, hM⟩, -⟩ := marked_run h.left
    exact (hstate bs).2 hM.live

end Gcos.Process
