import Gcos.Pool.Gating
import Gcos.Pool.Lives
import Gcos.Pool.Runs
import Gcos.Kernel.Effects

/-!
# Code in the sandbox

In every run of the thread backend the sandbox is entered at most once in the life of an
agent, and then with code that has passed all the gates on its way.
-/

namespace Gcos.Pool

open Lib World Memory

variable {n : ℕ} {cfg : KernelConfig} {out : Outside} {w : World n} {t : Tid n} {β : Type}
  {o : KOp β} {p : Pid} {c : Write} {host : Host}

/-! ### The invariant -/

/-- The lives of the agents are lawful, and what the workers know is so. -/
structure Supervised (host : Host) (w : World n) (g : Pid → List LifeEvent) (ms : Tid n → Pass) :
    Prop where
  role : ∀ t, (ms t).stage = .caller ↔ t.isWorker = false
  lawful : ∀ p, Lawful host (w.pcbs p) (g p)
  fits : ∀ t p, (w.loc t).held = some p → (ms t).Fits host (w.pcbs p) (g p)
  free : ∀ p, (∀ t, (w.loc t).held ≠ some p) → Untouched (w.pcbs p) (g p)
  hands : ∀ t, (w.loc t).held = none → (ms t).stage = .caller ∨ (ms t).stage = .unknown

variable {rules : Rules} {w' : World n} {ls : Tid n → Note} {ms : Tid n → Pass}
  {g g' : Pid → List LifeEvent} {m' : Pass}

/-- Thread `t` moves, and the agents that it does not hold drift, or are new. -/
lemma Supervised.move (hI : Inv rules w ls) (h : Supervised host w g ms)
    (hrole : m'.stage = .caller ↔ (ms t).stage = .caller)
    (hloc : ∀ u, u ≠ t → w'.loc u = w.loc u)
    (hothers : ∀ p, (w.loc t).held ≠ some p → Drifts (w.pcbs p) (g p) (w'.pcbs p) (g' p) ∨
      p = w.nextPid ∧ g' p = [] ∧ (w'.pcbs p).llmCallsUsed = 0)
    (hown : ∀ p, (w.loc t).held = some p → Lawful host (w'.pcbs p) (g' p) ∧
      ((w'.loc t).held = some p → m'.Fits host (w'.pcbs p) (g' p)) ∧
      ((w'.loc t).held ≠ some p → Untouched (w'.pcbs p) (g' p)))
    (hnew : ∀ p, (w.loc t).held ≠ some p → (w'.loc t).held = some p →
      m'.Fits host (w'.pcbs p) (g' p))
    (hhands : (w'.loc t).held = none → m'.stage = .caller ∨ m'.stage = .unknown) :
    Supervised host w' g' (Function.update ms t m') where
  role := by
    intro u
    by_cases hu : u = t
    · subst hu
      rw [Function.update_self, hrole, h.role]
    · rw [Function.update_of_ne hu, h.role]
  lawful := by
    intro p
    by_cases hheld : (w.loc t).held = some p
    · exact (hown p hheld).1
    · rcases hothers p hheld with hdrift | ⟨-, hnil, -⟩
      · exact hdrift.lawful (h.lawful p)
      · rw [hnil]
        exact ⟨fun hmem => (by cases hmem), .inl kills_nil.unrun⟩
  fits := by
    intro u p hp
    by_cases hu : u = t
    · subst hu
      rw [Function.update_self]
      by_cases hheld : (w.loc u).held = some p
      · exact (hown p hheld).2.1 hp
      · exact hnew p hheld hp
    · rw [hloc u hu] at hp
      rw [Function.update_of_ne hu]
      have hheld : (w.loc t).held ≠ some p := fun ht => hu (hI.owned.held_once u t p hp ht)
      rcases hothers p hheld with hdrift | ⟨rfl, -⟩
      · exact hdrift.fits (h.fits u p hp)
      · have halloc := hI.owned.allocated _ (hI.owned.held u _ hp).1
        exact absurd halloc.2 (lt_irrefl _)
  free := by
    intro p hp
    by_cases hheld : (w.loc t).held = some p
    · exact (hown p hheld).2.2 (hp t)
    · rcases hothers p hheld with hdrift | ⟨-, hnil, hcalls⟩
      · refine hdrift.untouched (h.free p fun u => ?_)
        by_cases hu : u = t
        · rwa [hu]
        · rw [← hloc u hu]
          exact hp u
      · exact fun _ _ => ⟨hcalls, hnil⟩
  hands := by
    intro u hu
    by_cases hut : u = t
    · subst hut
      rw [Function.update_self]
      exact hhands hu
    · rw [hloc u hut] at hu
      rw [Function.update_of_ne hut]
      exact h.hands u hu

/-- Thread `t` moves, but neither its agent nor the life of it. -/
lemma Supervised.stay (hI : Inv rules w ls) (h : Supervised host w g ms)
    (hrole : m'.stage = .caller ↔ (ms t).stage = .caller)
    (hloc : ∀ u, u ≠ t → w'.loc u = w.loc u)
    (hothers : ∀ p, (w.loc t).held ≠ some p → Drifts (w.pcbs p) (g p) (w'.pcbs p) (g' p) ∨
      p = w.nextPid ∧ g' p = [] ∧ (w'.pcbs p).llmCallsUsed = 0)
    (hheld : (w'.loc t).held = (w.loc t).held)
    (hsame : ∀ p, (w.loc t).held = some p → w'.pcbs p = w.pcbs p ∧ g' p = g p)
    (hfits : ∀ p, (w.loc t).held = some p → m'.Fits host (w.pcbs p) (g p))
    (hhands : (w.loc t).held = none → m'.stage = .caller ∨ m'.stage = .unknown) :
    Supervised host w' g' (Function.update ms t m') := by
  refine h.move hI hrole hloc hothers (fun p hp => ?_) (fun p hp hp' => ?_) ?_
  · obtain ⟨hpcb, hlife⟩ := hsame p hp
    rw [hpcb, hlife, hheld]
    exact ⟨h.lawful p, fun _ => hfits p hp, fun hne => absurd hp hne⟩
  · rw [hheld] at hp'
    exact absurd hp' hp
  · rwa [hheld]

/-- A worker moves, and keeps its agent or lets go of it. -/
lemma Supervised.work (hI : Inv rules w ls) (h : Supervised host w g ms)
    (hp : (w.loc t).held = some p) (hrole : m'.stage = .caller ↔ (ms t).stage = .caller)
    (hloc : ∀ u, u ≠ t → w'.loc u = w.loc u)
    (hothers : ∀ q, (w.loc t).held ≠ some q → Drifts (w.pcbs q) (g q) (w'.pcbs q) (g' q) ∨
      q = w.nextPid ∧ g' q = [] ∧ (w'.pcbs q).llmCallsUsed = 0)
    (hlawful : Lawful host (w'.pcbs p) (g' p))
    (hends : (w'.loc t).held = some p ∧ m'.Fits host (w'.pcbs p) (g' p) ∨
      (w'.loc t).held = none ∧ Untouched (w'.pcbs p) (g' p) ∧ m'.stage = .unknown) :
    Supervised host w' g' (Function.update ms t m') := by
  have hone : ∀ q, (w.loc t).held = some q → p = q := fun q hq => Option.some.inj (hp.symm.trans hq)
  rcases hends with ⟨hheld, hfits⟩ | ⟨hheld, hfree, hstage⟩
  · refine h.move hI hrole hloc hothers (fun q hq => ?_) (fun q hq hq' => ?_) fun hnone => ?_
    · obtain rfl := hone q hq
      exact ⟨hlawful, fun _ => hfits, fun hlost => absurd hheld hlost⟩
    · rw [hheld, ← hp] at hq'
      exact absurd hq' hq
    · rw [hheld] at hnone
      cases hnone
  · refine h.move hI hrole hloc hothers (fun q hq => ?_) (fun q _ hq' => ?_) fun _ => .inr hstage
    · obtain rfl := hone q hq
      refine ⟨hlawful, fun hkept => ?_, fun _ => hfree⟩
      rw [hheld] at hkept
      cases hkept
    · rw [hheld] at hq'
      cases hq'

/-- A thread that holds nothing moves, and picks nothing up. -/
lemma Supervised.idle (hI : Inv rules w ls) (h : Supervised host w g ms)
    (hnone : (w.loc t).held = none) (hrole : m'.stage = .caller ↔ (ms t).stage = .caller)
    (hloc : ∀ u, u ≠ t → w'.loc u = w.loc u)
    (hothers : ∀ q, (w.loc t).held ≠ some q → Drifts (w.pcbs q) (g q) (w'.pcbs q) (g' q) ∨
      q = w.nextPid ∧ g' q = [] ∧ (w'.pcbs q).llmCallsUsed = 0)
    (hheld : (w'.loc t).held = none) (hhands : m'.stage = .caller ∨ m'.stage = .unknown) :
    Supervised host w' g' (Function.update ms t m') := by
  have hlost : ∀ q, (w.loc t).held ≠ some q := fun q hq => by
    rw [hnone] at hq
    cases hq
  exact h.stay hI hrole hloc hothers (hheld.trans hnone.symm) (fun q hq => absurd hq (hlost q))
    (fun q hq => absurd hq (hlost q)) fun _ => hhands

/-- Whoever looks at an agent holds it, or is a caller, who holds nothing. -/
lemma held_of_read {look : Look} (hI : Inv rules w ls)
    (hpre : (ls t).allows rules (.readPcb p look)) :
    (w.loc t).held = some p ∨ t.isWorker = false ∧ (w.loc t).held = none := by
  rw [← hI.role t, hI.hand t]
  cases hl : ls t with
  | holding q busy units replied dead calls =>
    rw [hl] at hpre
    obtain rfl : q = p := hpre
    exact .inl rfl
  | worker | released =>
    rw [hl] at hpre
    exact hpre.elim
  | caller ps d | spawning q => exact .inr ⟨rfl, rfl⟩

/-- And so does whoever writes to it. -/
lemma held_of_write (hI : Inv rules w ls) (hpre : (ls t).allows rules (.write p c)) :
    (w.loc t).held = some p ∨ t.isWorker = false ∧ (w.loc t).held = none := by
  suffices hread : (ls t).allows rules (.readPcb p .fields) from held_of_read hI hread
  cases hl : ls t with
  | holding q busy units replied dead calls =>
    rw [hl] at hpre
    exact hpre.1
  | worker | released =>
    rw [hl] at hpre
    exact hpre
  | caller ps d | spawning q => trivial

lemma held_of_put (hI : Inv rules w ls) (hpre : (ls t).allows rules (.put p)) :
    (w.loc t).held = some p ∨ t.isWorker = false ∧ (w.loc t).held = none := by
  rw [← hI.role t, hI.hand t]
  rcases hpre with hl | ⟨dead, calls, hl⟩
  · rw [hl]
    exact .inr ⟨rfl, rfl⟩
  · rw [hl]
    exact .inl rfl

/-- A caller ends an agent only by killing it. -/
lemma drifts_caller (hmay : Stage.mayWrite c .caller) :
    Drifts (w.pcbs p) (g p) (c.apply (w.clockFrom out) (w.pcbs p))
      (biographer t (.write p c) w () g p) := by
  cases c with
  | addChild child | error msg => exact drifts_write trivial
  | transition st =>
    rcases hmay with rfl | rfl
    · exact drifts_write rfl
    · refine drifts_transition (.inr rfl) _ (.inr ⟨?_, rfl⟩)
      exact Function.update_self _ _ _
  | _ => exact hmay.elim

variable (cfg out) in
/-- What becomes of an agent that the thread does not hold. -/
lemma others_drift (hI : Inv rules w ls) (h : Supervised host w g ms)
    (hpre : (ls t).allows rules o) (hgate : (ms t).allows host o)
    (hp : (w.loc t).held ≠ some p) :
    Drifts (w.pcbs p) (g p) ((exec cfg out t o w).2.pcbs p)
        (biographer t o w (exec cfg out t o w).1 g p) ∨
      p = w.nextPid ∧ biographer t o w (exec cfg out t o w).1 g p = [] ∧
        ((exec cfg out t o w).2.pcbs p).llmCallsUsed = 0 := by
  cases o with
  | newPcb args =>
    by_cases hnew : p = w.nextPid
    · right
      subst hnew
      simp [exec, note, biographer, newBlock]
    · left
      simp only [exec, note, biographer, Function.update_of_ne hnew]
      exact .refl _ _
  | write q c =>
    left
    rw [(exec_write cfg out t w q c).1]
    by_cases hq : p = q
    · subst hq
      rw [Function.update_self]
      rcases held_of_write hI hpre with hheld | ⟨hclient, -⟩
      · exact absurd hheld hp
      · have hmay : (ms t).stage.mayWrite c := hgate
        rw [(h.role t).2 hclient] at hmay
        exact drifts_caller hmay
    · have hlife : biographer t (.write q c) w () g p = g p := by
        cases c with
        | transition st =>
          cases st with
          | zombie => exact Function.update_of_ne hq _ _
          | _ => rfl
        | _ => rfl
      rw [Function.update_of_ne hq, hlife]
      exact .refl _ _
  | put q =>
    left
    rcases exec_put cfg out t w q with ⟨-, -, hpcbs, -⟩ | ⟨-, -, hpcbs, -⟩
    · rw [hpcbs]
      exact .refl _ _
    · rw [hpcbs]
      by_cases hq : p = q
      · subst hq
        rw [Function.update_self]
        exact drifts_transition (.inl rfl) _ (.inl rfl)
      · rw [Function.update_of_ne hq]
        exact .refl _ _
  | chat purpose request =>
    left
    rw [pcbs_exec rfl]
    cases purpose with
    | summarize metered => exact .refl _ _
    | step =>
      have hlife : biographer t (.chat .step request) w (exec cfg out t (.chat .step request) w).1
          g p = g p := writeDown_held_of_ne hp _
      rw [hlife]
      exact .refl _ _
  | runPython code timeout priority =>
    left
    have hlife : biographer t (.runPython code timeout priority) w
        (exec cfg out t (.runPython code timeout priority) w).1 g p = g p :=
      writeDown_held_of_ne hp fun q => .ran code (w.pcbs q)
    rw [pcbs_exec rfl, hlife]
    exact .refl _ _
  | _ =>
    left
    rw [pcbs_exec rfl]
    exact .refl _ _

/-- Whoever holds an agent is a worker. -/
lemma Supervised.works (hI : Inv rules w ls) (h : Supervised host w g ms)
    (hp : (w.loc t).held = some p) : (ms t).Works := by
  obtain ⟨i, rfl⟩ := hI.worker_of_held hp
  exact fun hcaller => nomatch (h.role (.worker i)).1 hcaller

/-- A worker that may run code holds an agent. -/
lemma Supervised.held_of_cleared {prompt : String} {messages : List ChatMessage} {r : ChatResult}
    (h : Supervised host w g ms) (hstage : (ms t).stage = .cleared prompt messages r) :
    ∃ p, (w.loc t).held = some p := by
  cases hheld : (w.loc t).held with
  | some p => exact ⟨p, rfl⟩
  | none =>
    have hhands := h.hands t hheld
    rw [hstage] at hhands
    rcases hhands with hcaller | hunknown
    · cases hcaller
    · cases hunknown

section

variable (cfg out) (hI : Inv rules w ls) (h : Supervised host w g ms)

include hI h

/-- A worker writes to its agent, or a caller to any. -/
lemma supervised_write (hpre : (ls t).allows rules (.write p c))
    (hgate : (ms t).stage.mayWrite c) :
    Supervised host (exec cfg out t (.write p c) w).2 (biographer t (.write p c) w () g)
      (Function.update ms t ((ms t).write c)) := by
  have hothers : ∀ q, (w.loc t).held ≠ some q → _ := fun q hq =>
    others_drift cfg out hI h hpre hgate hq
  have hheld : ((exec cfg out t (.write p c) w).2.loc t).held = (w.loc t).held :=
    (hands_exec rfl).1
  have hrole : ((ms t).write c).stage = .caller ↔ (ms t).stage = .caller :=
    Stage.write_eq_caller c _
  rcases held_of_write hI hpre with hp | ⟨hclient, hnone⟩
  · have hworks := h.works hI hp
    have hlife : biographer t (.write p c) w () g = g :=
      biographer_write (Stage.ne_zombie_of_mayWrite hworks hgate)
    have hpcb : (exec cfg out t (.write p c) w).2.pcbs p =
        c.apply (w.clockFrom out) (w.pcbs p) := pcb_write cfg out t w p c
    refine h.work hI hp hrole (fun u hu => loc_exec_of_ne hu) hothers ?_ (.inl ⟨hheld.trans hp, ?_⟩)
    · rw [hpcb, hlife]
      refine ⟨fun hmem => ?_, (h.lawful p).gated⟩
      rw [Write.isTerminal_apply]
      exact .inl ((h.lawful p).killed hmem)
    · rw [hpcb, hlife]
      exact (h.fits t p hp).write (w.clockFrom out) hworks hgate
  · exact h.idle hI hnone hrole (fun u hu => loc_exec_of_ne hu) hothers (hheld.trans hnone)
      (.inl (hrole.2 ((h.role t).2 hclient)))

/-- An operation that moves neither a block, nor what a thread holds, nor a life. -/
lemma supervised_quiet (hpre : (ls t).allows rules o) (hgate : (ms t).allows host o)
    (hmoves : o.movesBlocks = false)
    (hheld : ((exec cfg out t o w).2.loc t).held = (w.loc t).held)
    (hlife : biographer t o w (exec cfg out t o w).1 g = g) (hrole : m'.stage = .caller ↔
      (ms t).stage = .caller)
    (hfits : ∀ p, (w.loc t).held = some p → m'.Fits host (w.pcbs p) (g p))
    (hhands : (w.loc t).held = none → m'.stage = .caller ∨ m'.stage = .unknown) :
    Supervised host (exec cfg out t o w).2 (biographer t o w (exec cfg out t o w).1 g)
      (Function.update ms t m') := by
  refine h.stay hI hrole (fun u hu => loc_exec_of_ne hu)
    (fun q hq => others_drift cfg out hI h hpre hgate hq) hheld (fun q _ => ?_) hfits hhands
  rw [pcbs_exec hmoves, hlife]
  exact ⟨rfl, rfl⟩

/-- Looking at a block. -/
lemma supervised_readPcb {look : Look} (hpre : (ls t).allows rules (.readPcb p look)) :
    (ms t).stage.Agrees (w.pcbs p) ∧
      Supervised host (exec cfg out t (.readPcb p look) w).2
        (biographer t (.readPcb p look) w (w.pcbs p) g)
        (Function.update ms t ((ms t).read host (w.pcbs p))) := by
  have hrole : ((ms t).read host (w.pcbs p)).stage = .caller ↔ (ms t).stage = .caller :=
    Stage.read_eq_caller host (w.pcbs p) _
  rcases held_of_read hI hpre with hp | ⟨hclient, hnone⟩
  · refine ⟨(h.fits t p hp).agrees,
      supervised_quiet cfg out hI h hpre trivial rfl rfl rfl hrole (fun q hq => ?_) fun hnone => ?_⟩
    · obtain rfl : p = q := Option.some.inj (hp.symm.trans hq)
      exact (h.fits t p hp).read (h.lawful p)
    · rw [hp] at hnone
      cases hnone
  · have hcaller := (h.role t).2 hclient
    refine ⟨?_, supervised_quiet cfg out hI h hpre trivial rfl rfl rfl hrole (fun q hq => ?_)
      fun _ => .inl (hrole.2 hcaller)⟩
    · rw [hcaller]
      trivial
    · rw [hnone] at hq
      cases hq

/-- A worker picks an agent that nobody holds. -/
lemma supervised_pickNext (hpre : (ls t).allows rules .pickNext) :
    ∃ m', (ms t).learns host .pickNext (exec cfg out t .pickNext w).1 m' ∧
      Supervised host (exec cfg out t .pickNext w).2
        (biographer t .pickNext w (exec cfg out t .pickNext w).1 g) (Function.update ms t m') := by
  have hnone : (w.loc t).held = none := by
    rw [hI.hand t, show ls t = .worker from hpre]
    rfl
  have hworks : (ms t).Works := by
    intro hcaller
    have hclient := (h.role t).1 hcaller
    rw [← hI.role t, show ls t = .worker from hpre] at hclient
    cases hclient
  have hlost : ∀ q, (w.loc t).held ≠ some q := fun q hq => by
    rw [hnone] at hq
    cases hq
  rcases Scheduler.pickNext_cases w.pcbs (out.clock w.ticks) w.queue cfg.scheduler with
    ⟨-, hpick⟩ | ⟨p, hp, hpick⟩
  · refine ⟨ms t, ?_, supervised_quiet cfg out hI h hpre trivial rfl ?_ rfl Iff.rfl
      (fun q hq => absurd hq (hlost q)) (h.hands t)⟩
    · simp only [exec, hpick, Pass.learns, Option.isSome_none, Bool.false_eq_true, if_false]
    · simp only [exec, hpick]
  · have hheld : ((exec cfg out t .pickNext w).2.loc t).held = some p := by
      simp only [exec, hpick, note, Function.update_self]
    have hfree : ∀ u, (w.loc u).held ≠ some p := fun u hu => (hI.owned.held u p hu).2 hp
    refine ⟨⟨.unknown, false⟩, ?_, h.move hI (iff_of_false ?_ hworks)
      (fun u hu => loc_exec_of_ne hu)
      (fun q hq => others_drift cfg out hI h hpre trivial hq)
      (fun q hq => absurd hq (hlost q)) ?_ fun _ => .inr rfl⟩
    · simp only [exec, hpick, Pass.learns, Option.isSome_some, if_true]
    · intro hcaller
      cases hcaller
    · intro q _ hq
      obtain rfl : p = q := Option.some.inj (hheld.symm.trans hq)
      rw [pcbs_exec rfl]
      refine ⟨?_, fun _ => h.free p hfree, trivial⟩
      intro hdead
      cases hdead

/-- A worker puts its agent back, or a caller a new one into the queue. -/
lemma supervised_put (hpre : (ls t).allows rules (.put p)) (hfree : (ms t).Free) :
    Supervised host (exec cfg out t (.put p) w).2
      (biographer t (.put p) w (exec cfg out t (.put p) w).1 g)
      (Function.update ms t (if (exec cfg out t (.put p) w).1 then (ms t).release else ms t)) := by
  have hothers : ∀ q, (w.loc t).held ≠ some q → _ := fun q hq =>
    others_drift cfg out hI h hpre hfree hq
  have hloc : ∀ u, u ≠ t → (exec cfg out t (.put p) w).2.loc u = w.loc u :=
    fun u hu => loc_exec_of_ne hu
  have hheld : ((exec cfg out t (.put p) w).2.loc t).held =
      if (w.pcbs p).isTerminal then (w.loc t).held else none := by
    simp only [exec, put]
    split <;> simp only [note, Function.update_self]
  rcases held_of_put hI hpre with hp | ⟨hclient, hnone⟩
  · have hworks := h.works hI hp
    rcases exec_put cfg out t w p with ⟨hdead, hanswer, hpcbs, -⟩ | ⟨hlive, hanswer, hpcbs, -⟩
    · rw [hdead, if_pos rfl] at hheld
      rw [hanswer, if_neg Bool.false_ne_true]
      refine h.stay hI Iff.rfl hloc hothers hheld (fun q _ => ?_) (fun q hq => h.fits t q hq)
        (h.hands t)
      rw [hpcbs]
      exact ⟨rfl, rfl⟩
    · rw [hlive, if_neg Bool.false_ne_true] at hheld
      have hpcb : (exec cfg out t (.put p) w).2.pcbs p =
          (w.pcbs p).transition .ready (out.clock w.ticks) := by
        rw [hpcbs, Function.update_self]
      have hdrift : Drifts (w.pcbs p) (g p) ((exec cfg out t (.put p) w).2.pcbs p) (g p) := by
        rw [hpcb]
        exact drifts_transition (.inl rfl) _ (.inl rfl)
      rw [hanswer, if_pos rfl]
      exact h.work hI hp (iff_of_false (Pass.open_release hworks).1 hworks) hloc hothers
        (hdrift.lawful (h.lawful p)) (.inr ⟨hheld, hdrift.untouched ((h.fits t p hp).release hfree),
          Pass.stage_release hworks⟩)
  · have hcaller := (h.role t).2 hclient
    have hsame : (if (exec cfg out t (.put p) w).1 then (ms t).release else ms t) = ms t := by
      rw [Pass.release_of_caller hcaller, ite_self]
    rw [hsame]
    refine h.idle hI hnone Iff.rfl hloc hothers ?_ (.inl hcaller)
    rw [hheld, hnone, ite_self]

/-- A worker is through with its agent. -/
lemma supervised_taskDone (hpre : (ls t).allows rules .taskDone) (hfree : (ms t).Free) :
    Supervised host (exec cfg out t .taskDone w).2 (biographer t .taskDone w () g)
      (Function.update ms t (ms t).release) := by
  have hworks : (ms t).Works := by
    intro hcaller
    have hclient := (h.role t).1 hcaller
    rw [← hI.role t] at hclient
    rcases hpre with hl | ⟨q, dead, calls, hl, -⟩ <;> rw [hl] at hclient <;> cases hclient
  have hheld : ((exec cfg out t .taskDone w).2.loc t).held = none := by
    simp only [exec, note, Function.update_self]
  refine h.move hI (iff_of_false (Pass.open_release hworks).1 hworks)
    (fun u hu => loc_exec_of_ne hu) (fun q hq => others_drift cfg out hI h hpre hfree hq) ?_ ?_ ?_
  · intro q hq
    rw [pcbs_exec rfl, hheld]
    refine ⟨h.lawful q, ?_, fun _ => (h.fits t q hq).release hfree⟩
    intro hsome
    cases hsome
  · intro q _ hq
    rw [hheld] at hq
    cases hq
  · exact fun _ => .inr (Pass.stage_release hworks)

/-- The call of a step. -/
lemma supervised_chat {request : ChatRequest} (hpre : (ls t).allows rules (.chat .step request))
    (hgate : (ms t).allows host (.chat .step request)) :
    Supervised host (exec cfg out t (.chat .step request) w).2
      (biographer t (.chat .step request) w (exec cfg out t (.chat .step request) w).1 g)
      (Function.update ms t
        ((ms t).ask request.messages (exec cfg out t (.chat .step request) w).1)) := by
  have hp : ∃ p, (w.loc t).held = some p := by
    obtain ⟨p, dead, calls, hl⟩ := hpre
    rw [hI.hand t, hl]
    exact ⟨p, rfl⟩
  obtain ⟨p, hp⟩ := hp
  have hworks := h.works hI hp
  have hheld : ((exec cfg out t (.chat .step request) w).2.loc t).held = some p :=
    (hands_exec rfl).1.trans hp
  have hallow : (ms t).stage = .other ∨
      ∃ prompt, (ms t).stage = .screened prompt ∧ Carries prompt request.messages := by
    rcases hgate with hother | ⟨prompt, pages, hscreened, hmessages⟩
    · exact .inl hother
    · exact .inr ⟨prompt, hscreened, pages, hmessages⟩
  have hlife : biographer t (.chat .step request) w (exec cfg out t (.chat .step request) w).1 g p =
      g p ++ [.replied request.messages (exec cfg out t (.chat .step request) w).1] :=
    writeDown_held hp _
  refine h.work hI hp (iff_of_false (Pass.works_ask hworks _ _) hworks)
    (fun u hu => loc_exec_of_ne hu) (fun q hq => others_drift cfg out hI h hpre hgate hq) ?_
    (.inl ⟨hheld, ?_⟩)
  · rw [pcbs_exec rfl, hlife]
    refine ⟨fun hmem => ?_, (h.lawful p).gated.append rfl⟩
    refine (h.lawful p).killed ((List.mem_append.1 hmem).resolve_right fun hreply => ?_)
    cases List.mem_singleton.1 hreply
  · rw [pcbs_exec rfl, hlife]
    exact (h.fits t p hp).ask hallow _

/-- Code gets to the sandbox. -/
lemma supervised_runPython {code : String} {timeout : Time} {priority : ℤ}
    (hpre : (ls t).allows rules (.runPython code timeout priority))
    (hgate : (ms t).allows host (.runPython code timeout priority)) :
    Supervised host (exec cfg out t (.runPython code timeout priority) w).2
      (biographer t (.runPython code timeout priority) w
        (exec cfg out t (.runPython code timeout priority) w).1 g)
      (Function.update ms t ⟨.spent, (ms t).dead⟩) := by
  obtain ⟨prompt, messages, r, hstage, hextract, hcode, hscan⟩ := id hgate
  obtain ⟨p, hp⟩ := h.held_of_cleared hstage
  have hworks := h.works hI hp
  have hlife : biographer t (.runPython code timeout priority) w
      (exec cfg out t (.runPython code timeout priority) w).1 g p =
        g p ++ [.ran code (w.pcbs p)] :=
    writeDown_held hp fun q => .ran code (w.pcbs q)
  refine h.work hI hp (iff_of_false nofun hworks) (fun u hu => loc_exec_of_ne hu)
    (fun q hq => others_drift cfg out hI h hpre hgate hq) ?_ (.inl ⟨hp, ?_⟩)
  · rw [pcbs_exec rfl, hlife]
    refine ⟨fun hmem => ?_, (h.fits t p hp).ran hstage hextract hcode hscan⟩
    refine (h.lawful p).killed ((List.mem_append.1 hmem).resolve_right fun hran => ?_)
    cases List.mem_singleton.1 hran
  · rw [pcbs_exec rfl]
    exact ⟨(h.fits t p hp).dead, nofun, trivial⟩

/-- A caller makes a new agent. -/
lemma supervised_newPcb {args : SpawnArgs} (hpre : (ls t).allows rules (.newPcb args))
    (hgate : (ms t).allows host (.newPcb args)) :
    Supervised host (exec cfg out t (.newPcb args) w).2
      (biographer t (.newPcb args) w (exec cfg out t (.newPcb args) w).1 g)
      (Function.update ms t (ms t)) := by
  have hnone : (w.loc t).held = none := by
    obtain ⟨ps, d, hl⟩ := hpre
    rw [hI.hand t, hl]
    rfl
  have hhands := h.hands t hnone
  refine h.idle hI hnone Iff.rfl (fun u hu => loc_exec_of_ne hu)
    (fun q hq => others_drift cfg out hI h hpre hgate hq) ?_ hhands
  simp only [exec, note, Function.update_self]
  exact hnone

/-- **The step lemma.** -/
lemma supervised_exec (o : KOp β) (hpre : (ls t).allows rules o) (hgate : (ms t).allows host o) :
    ∃ m', (ms t).learns host o (exec cfg out t o w).1 m' ∧
      Supervised host (exec cfg out t o w).2 (biographer t o w (exec cfg out t o w).1 g)
        (Function.update ms t m') := by
  cases o with
  | readPcb p _ =>
    obtain ⟨hagrees, hnext⟩ := supervised_readPcb cfg out hI h hpre
    exact ⟨_, ⟨hagrees, rfl⟩, hnext⟩
  | write p c =>
    have hnext := supervised_write cfg out hI h hpre hgate
    exact ⟨_, rfl, hnext⟩
  | newPcb args => exact ⟨_, rfl, supervised_newPcb cfg out hI h hpre hgate⟩
  | put p => exact ⟨_, rfl, supervised_put cfg out hI h hpre hgate⟩
  | taskDone => exact ⟨_, rfl, supervised_taskDone cfg out hI h hpre hgate⟩
  | pickNext => exact supervised_pickNext cfg out hI h hpre
  | runPython code timeout priority =>
    exact ⟨_, rfl, supervised_runPython cfg out hI h hpre hgate⟩
  | chat purpose request =>
    cases purpose with
    | step => exact ⟨_, rfl, supervised_chat cfg out hI h hpre hgate⟩
    | summarize metered =>
      exact ⟨ms t, rfl, supervised_quiet cfg out hI h hpre hgate rfl (hands_exec rfl).1 rfl Iff.rfl
        (h.fits t) (h.hands t)⟩
  | tableAdd p =>
    refine ⟨ms t, rfl, supervised_quiet cfg out hI h hpre hgate rfl ?_ rfl Iff.rfl
      (h.fits t) (h.hands t)⟩
    simp only [exec]
    split
    · simp only [note, Function.update_self]
    · rfl
  | _ =>
    exact ⟨ms t, rfl, supervised_quiet cfg out hI h hpre hgate rfl (hands_exec rfl).1 rfl Iff.rfl
      (h.fits t) (h.hands t)⟩

end

/-! ### Runs -/

/-- What is known of a thread that is not in the middle of anything. -/
def AtRest (t : Tid n) (l : Pass) : Prop := if t.isWorker then l.Open else l.stage = .caller

lemma supervised_fresh {quota : Quota} : Supervised host (freshWorld n quota) (fun _ => [])
    fun t => ⟨if t.isWorker then .unknown else .caller, false⟩ where
  role := by
    intro t
    cases t.isWorker with
    | true => exact iff_of_false nofun nofun
    | false => exact iff_of_true rfl rfl
  lawful := fun p => ⟨fun hmem => (by cases hmem), .inl kills_nil.unrun⟩
  fits := fun t p hp => by cases hp
  free := fun p _ _ _ => ⟨rfl, rfl⟩
  hands := by
    intro t _
    cases t.isWorker with
    | true => exact .inr rfl
    | false => exact .inl rfl

/-- What matters in the lives of the agents, after a schedule. -/
def lives (n : ℕ) (cfg : KernelConfig) (out : Outside) (quota : Quota)
    (as : List (Act (Tid n) KernelCall)) : Pid → List LifeEvent :=
  (kernelSystem n cfg out).observed biographer (boot n quota) (fun _ => []) as

/-- The run lemma. -/
lemma supervised_run (cfg : KernelConfig) (out : Outside) (quota : Quota)
    (as : List (Act (Tid n) KernelCall)) :
    System.SoundOver (discipline {}) (gating cfg.host) (fun s ls => Inv {} s.1 ls)
      (fun s _ ms => Supervised cfg.host s.1 s.2 ms) Idle AtRest
      (((kernelSystem n cfg out).watched biographer).run
        ((boot n quota).beside fun _ => []) as) := by
  have hstart : System.SoundOver (discipline {}) (gating cfg.host) (fun s ls => Inv {} s.1 ls)
      (fun s _ ms => Supervised cfg.host s.1 s.2 ms) Idle AtRest
      ((boot n quota).beside fun _ => []) := by
    refine System.SoundOver.intro (inv_fresh (by simp)) supervised_fresh (fun t => ?_) fun t => ?_
    · cases t with
      | worker i => exact rfl
      | client k => exact ⟨[], none, rfl⟩
    · cases t with
      | worker i => exact ⟨nofun, rfl⟩
      | client k => exact rfl
  have hfits : ({} : Rules).Fits cfg.pager.policies := fun h => by cases h
  have hbody : ∀ (t : Tid n) l, Idle t l →
      (((kernelSystem n cfg out).watched biographer).body t).Obeys (discipline {}) l
        fun _ l => Idle t l := by
    intro t l hl
    have hobeys : ((kernelSystem n cfg out).body t).Obeys (discipline {}) l fun _ l => Idle t l :=
      obeys_body hfits t hl
    exact hobeys
  have hbody' : ∀ (t : Tid n) l, AtRest t l →
      (((kernelSystem n cfg out).watched biographer).body t).Obeys (gating cfg.host) l
        fun _ l => AtRest t l := by
    rintro (i | k) l hl
    · exact gates_loopBody hl
    · exact hl
  have hentry : ∀ (t : Tid n) c l, True →
      ((kernelSystem n cfg out).watched biographer).serves t c = true → Idle t l →
      (((kernelSystem n cfg out).watched biographer).entry c).Obeys (discipline {}) l
        fun _ l => Idle t l :=
    fun t c _ _ hserves hl => obeys_entry cfg out t c (by simp) hserves hl
  have hentry' : ∀ (t : Tid n) c l, True →
      ((kernelSystem n cfg out).watched biographer).serves t c = true → AtRest t l →
      (((kernelSystem n cfg out).watched biographer).entry c).Obeys (gating cfg.host) l
        fun _ l => AtRest t l := by
    rintro (i | k) c l _ hserves hl
    · cases hserves
    · exact (gates_code c hl).bind _ fun _ _ hl => hl
  refine System.run_inv_over hbody hbody' hentry hentry' ?_ ?_ hstart (System.meets_noGuard _ _ _)
    fun _ _ _ => trivial
  · rintro β t o ⟨w, g⟩ ls hI hpre -
    exact inv_step hI o hpre fun h => by cases h
  · rintro β t o ⟨w, g⟩ ls ms l' hI hJ hpre hgate - - -
    exact supervised_exec cfg out hI hJ o hpre hgate

/-- **No ungated code reaches the sandbox.**  Whatever the prompts, the capabilities, the
replies and the text functions of the host are, and in whatever order the workers dispatch
and the callers spawn and kill: code is run at most once in the life of an agent, after its
one call and only past every gate, and whoever is about to run code holds an agent. -/
theorem only_gated_code_is_run {n : ℕ} (cfg : KernelConfig) (out : Outside) (quota : Quota)
    (as : List (Act (Tid n) KernelCall)) :
    (∀ p, Gated cfg.host (lives n cfg out quota as p)) ∧
      ∀ t code timeout priority k,
        ((kernelSystem n cfg out).run (boot n quota) as).code t =
          .op (.runPython code timeout priority) k →
        ∃ p, (((kernelSystem n cfg out).run (boot n quota) as).shared.loc t).held = some p := by
  obtain ⟨xs, ⟨hI, hsupervised⟩, hcode⟩ := supervised_run cfg out quota as
  rw [System.run_beside] at hI hsupervised hcode
  refine ⟨fun p => (hsupervised.lawful p).gated, fun t code timeout priority k hk => ?_⟩
  have hobeys := hcode t
  rw [show ((((kernelSystem n cfg out).run (boot n quota) as).beside _).code t) = _ from hk]
    at hobeys
  obtain ⟨⟨-, prompt, messages, r, hstage, -⟩, -⟩ := hobeys
  exact hsupervised.held_of_cleared hstage

end Gcos.Pool
