import Gcos.Pool.Grip
import Gcos.Exec.Course

/-!
# The workers know what they do

The code of the workers and of the callers obeys the discipline `handling`: an agent is
asked for input only while its prompt has a placeholder, a call is counted only after the
agent was seen live, a result is sent only for an agent that was read `DONE`, and no
dispatch ends with a result left to be forwarded.
-/

namespace Gcos.Pool

open Lib Memory Exec Prog

variable {m : Manner} {p : Pid} {g : Grip} {α : Type} {Q : α → Hold → Prop}

/-! ### Single operations of a worker that holds an agent -/

lemma follows_read {look : Look} {k : AgentControlBlock → Prog KOp α}
    (hk : ∀ pcb : AgentControlBlock, (g.dead = true → pcb.isTerminal = true) →
      (k pcb).Obeys (handling m) (.holding p (g.read pcb)) Q) :
    (perform (.readPcb p look) >>= k).Obeys (handling m) (.holding p g) Q := by
  refine Obeys.step rfl ?_
  rintro pcb l ⟨hdead, rfl⟩
  exact hk pcb (hdead p g rfl)

lemma follows_write {c : Write} (hc : g.mayWrite c) {k : Unit → Prog KOp α}
    (hk : (k ()).Obeys (handling m) (.holding p (g.write c)) Q) :
    (perform (.write p c) >>= k).Obeys (handling m) (.holding p g) Q := by
  refine Obeys.step ⟨rfl, hc⟩ ?_
  rintro - l rfl
  exact hk

/-- Putting the agent back. -/
lemma follows_put (hs : m.bus = true → g.settled = true) (hy : m.calm = true → g.Yields m.limit)
    {k : Bool → Prog KOp α} (hin : (k true).Obeys (handling m) .released Q)
    (hout : (k false).Obeys (handling m) (.holding p g) Q) :
    (perform (.put p) >>= k).Obeys (handling m) (.holding p g) Q := by
  refine Obeys.step (.inr ⟨g, rfl, hs, hy⟩) ?_
  rintro (_ | _) l rfl
  · exact hout
  · exact hin

/-! ### One step -/

/-- A worker with an agent that is not `DONE`, in its `steps`-th step. -/
def Going (p : Pid) (steps : ℕ) (l : Hold) : Prop :=
  ∃ g, l = .holding p g ∧ g.undone = true ∧ g.sent = false ∧ g.steps = steps

/-- How a worker holds its agent at a point of its `steps`-th step: before the call is counted
the agent was seen live, and until it is ended it is not `DONE`. -/
def Treads (p : Pid) (steps : ℕ) (st : Point) (l : Hold) : Prop :=
  ∃ g, l = .holding p g ∧ (st.asks = true → g.armed = true) ∧
    (st.goes = true → g.undone = true) ∧ g.sent = false ∧ g.steps = steps

/-- At the end of a step: an agent that is to go on, or whose step crashed, is not `DONE`. -/
def Stepped (p : Pid) (steps : ℕ) (answer : Except Exn Bool) (l : Hold) : Prop :=
  ∃ g, l = .holding p g ∧ g.sent = false ∧ g.steps = steps ∧ (answer ≠ .ok false → g.undone = true)

section

variable {steps : ℕ} {l : Hold}

/-- Reading a block leaves everything as it is. -/
lemma follows_look {look : Look} (hl : Going p steps l) {k : AgentControlBlock → Prog KOp α}
    (hk : ∀ pcb l', Going p steps l' → (k pcb).Obeys (handling m) l' Q) :
    (perform (.readPcb p look) >>= k).Obeys (handling m) l Q := by
  obtain ⟨g, rfl, hundone, hsent, hsteps⟩ := hl
  exact follows_read fun pcb _ => hk pcb _ ⟨_, rfl, by simp [Grip.read, hundone], hsent, hsteps⟩

/-- An agent ends for want of its input, or in a step. -/
lemma mayWrite_of_isTerminal {st : AgentState} (hst : st.isTerminal = true)
    (hg : g.wants = true ∨ 0 < g.steps) : g.mayWrite (.transition st) := by
  cases st with
  | waiting => cases hst
  | _ => exact fun _ => hg

/-- What a worker may write in the course of a step, and what it knows then. -/
lemma follows_course_write {st : Point} {c : Write} (hc : st.allowsWrite c)
    (harmed : st.asks = true → g.armed = true) (hundone : st.goes = true → g.undone = true)
    (hsteps : 0 < g.steps) :
    g.mayWrite c ∧ ((st.write c).asks = true → (g.write c).armed = true) ∧
      ((st.write c).goes = true → (g.write c).undone = true) ∧
      (g.write c).sent = g.sent ∧ (g.write c).steps = g.steps := by
  cases c with
  | transition st' =>
    cases st with
    | live able =>
      have hlive := hundone rfl
      rcases hc with rfl | rfl | rfl
      · exact ⟨nofun, fun _ => harmed rfl, fun _ => by simp [Grip.write, hlive], rfl, rfl⟩
      · exact ⟨fun _ => .inr hsteps, nofun, nofun, rfl, rfl⟩
      · exact ⟨fun _ => .inr hsteps, nofun, nofun, rfl, rfl⟩
    | drafted =>
      rcases hc with rfl | rfl <;> exact ⟨fun _ => .inr hsteps, nofun, nofun, rfl, rfl⟩
    | _ => cases hc.1
  | error msg =>
    rcases hc with rfl | rfl | rfl
    · exact ⟨trivial, nofun, nofun, rfl, rfl⟩
    · exact ⟨trivial, nofun, fun _ => hundone rfl, rfl, rfl⟩
    · exact ⟨trivial, nofun, fun _ => hundone rfl, rfl, rfl⟩
  | result text =>
    rcases hc with rfl | rfl <;> exact ⟨hundone rfl, nofun, fun _ => hundone rfl, rfl, rfl⟩
  | countCall tokens =>
    obtain rfl := hc
    exact ⟨harmed rfl, nofun, fun _ => hundone rfl, rfl, rfl⟩
  | prompt text | waitingSince since | addChild child => cases hc.1
  | _ =>
    obtain ⟨-, rfl | rfl | rfl⟩ := hc <;> exact ⟨trivial, harmed, hundone, rfl, rfl⟩

/-- Every operation of a step, at any point of its course. -/
lemma follows_course {β : Type} (o : KOp β) (st : Point) (l : Hold) (hl : Treads p (steps + 1) st l)
    (ho : st.allows p true True o) : (handling m).pre o l ∧ ∀ b l', (handling m).post o l b l' →
      ∃ st', (course p true True).post o st b st' ∧ Treads p (steps + 1) st' l' := by
  obtain ⟨g, rfl, harmed, hundone, hsent, hsteps⟩ := hl
  have hstay (st' : Point) (hasks : st'.asks = true → st.asks = true)
      (hgoes : st'.goes = true → st.goes = true) : Treads p (steps + 1) st' (.holding p g) :=
    ⟨g, rfl, fun h => harmed (hasks h), fun h => hundone (hgoes h), hsent, hsteps⟩
  cases o with
  | readPcb q look =>
    cases look with
    | fields =>
      obtain rfl : q = p := ho
      refine ⟨rfl, ?_⟩
      rintro b l' ⟨-, rfl⟩
      refine ⟨st, rfl, _, rfl, fun h => ?_, fun h => ?_, hsent, hsteps⟩
      · simp [Grip.read, harmed h]
      · simp [Grip.read, hundone h]
    | terminal =>
      obtain ⟨rfl, rfl⟩ := ho
      refine ⟨rfl, ?_⟩
      rintro b l' ⟨-, rfl⟩
      refine ⟨_, rfl, _, rfl, fun h => ?_, fun h => ?_, hsent, hsteps⟩
      · simp only [Point.after] at h
        split at h
        · cases h
        · next hlive => simp [Grip.read, hlive]
      · simp [Grip.read, hundone rfl]
    | zombie =>
      obtain ⟨rfl, rfl⟩ := ho
      refine ⟨rfl, ?_⟩
      rintro b l' ⟨-, rfl⟩
      refine ⟨_, rfl, _, rfl, fun h => ?_, fun h => ?_, hsent, hsteps⟩
      · simp only [Point.after] at h
        split at h <;> cases h
      · simp [Grip.read, hundone rfl]
  | write q c =>
    obtain ⟨rfl, hc⟩ := ho
    obtain ⟨hmay, hasks, hgoes, hsent', hsteps'⟩ :=
      follows_course_write hc harmed hundone (by omega)
    refine ⟨⟨rfl, hmay⟩, ?_⟩
    rintro b l' rfl
    exact ⟨_, rfl, _, rfl, hasks, hgoes, hsent'.trans hsent, hsteps'.trans hsteps⟩
  | chat purpose request =>
    refine ⟨⟨p, g, rfl⟩, ?_⟩
    rintro b l' rfl
    refine ⟨_, rfl, hstay _ ?_ ?_⟩
    all_goals
      cases purpose with
      | step =>
        obtain rfl : st = .live true := ho
        exact fun _ => rfl
      | summarize metered =>
        cases metered with
        | true =>
          obtain rfl : st = .lent := ho
          exact fun _ => rfl
        | false => exact fun h => h
  | acquire =>
    obtain rfl : st = .live true := ho
    refine ⟨⟨p, g, rfl⟩, ?_⟩
    rintro b l' rfl
    exact ⟨_, rfl, hstay _ (fun _ => rfl) fun _ => rfl⟩
  | refund =>
    obtain rfl : st = .lent := ho
    refine ⟨⟨p, g, rfl⟩, ?_⟩
    rintro b l' rfl
    exact ⟨_, rfl, hstay _ (fun _ => rfl) fun _ => rfl⟩
  | now =>
    refine ⟨trivial, ?_⟩
    rintro b l' rfl
    exact ⟨_, rfl, hstay _ id id⟩
  | swapOut q pages | runPython code timeout priority =>
    refine ⟨⟨p, g, rfl⟩, ?_⟩
    rintro b l' rfl
    exact ⟨_, rfl, hstay _ id id⟩
  | _ => exact ho.elim

variable (cfg : KernelConfig)

/-- **One step**, whatever the agent, its client and its sandbox do. -/
lemma follows_runStep (hl : Going p (steps + 1) l) :
    (runStep cfg p).Obeys (handling m) l (Stepped p (steps + 1)) := by
  obtain ⟨g, rfl, hundone, hsent, hsteps⟩ := hl
  have hstep : (runStep cfg p).Obeys (course p true True) .start Point.Ends :=
    course_runStep fun _ _ _ => trivial
  refine (hstep.simulate follows_course ⟨g, rfl, nofun, fun _ => hundone, hsent, hsteps⟩).mono ?_
  rintro answer l ⟨st, hends, g', rfl, -, hundone', hsent', hsteps'⟩
  refine ⟨g', rfl, hsent', hsteps', fun hanswer => hundone' ?_⟩
  rcases answer with e | _ | _
  · rcases hends with rfl | rfl <;> rfl
  · exact absurd rfl hanswer
  · obtain rfl : st = .met := hends
    rfl

end

/-! ### One dispatch -/

section

variable {steps : ℕ} {l : Hold} (cfg : KernelConfig)

lemma Stepped.look {look : Look} {answer : Except Exn Bool} (hl : Stepped p steps answer l)
    {k : AgentControlBlock → Prog KOp α}
    (hk : ∀ pcb g, Stepped p steps answer (.holding p g) → (pcb.isTerminal = true → g.dead = true) →
      (k pcb).Obeys (handling m) (.holding p g) Q) :
    (perform (.readPcb p look) >>= k).Obeys (handling m) l Q := by
  obtain ⟨g, rfl, hsent, hsteps, hundone⟩ := hl
  refine follows_read fun pcb _ => hk pcb _ ?_ fun hdead => ?_
  · exact ⟨_, rfl, hsent, hsteps, fun h => by simp [Grip.read, hundone h]⟩
  · simp [Grip.read, hdead]

lemma Stepped.going (hl : Stepped p steps (.ok true) l) : Going p steps l := by
  obtain ⟨g, rfl, hsent, hsteps, hundone⟩ := hl
  exact ⟨g, rfl, hundone (by simp), hsent, hsteps⟩

lemma follows_settle {answer : Except Exn Bool} (hl : Stepped p (steps + 1) answer l) :
    (settle p answer).Obeys (handling m) l
      fun keepGoing l' => Stepped p (steps + 1) (.ok keepGoing) l' := by
  cases answer with
  | ok keepGoing => exact hl
  | error e =>
    obtain ⟨g, rfl, hsent, hsteps, -⟩ := hl
    refine follows_write (mayWrite_of_isTerminal rfl (.inr (by omega))) (follows_write ?_ ?_)
    · trivial
    · exact ⟨_, rfl, hsent, hsteps, fun h => absurd rfl h⟩

/-- The agent is out of the worker's hands, or nothing is left to be done for it. -/
def Through (m : Manner) (p : Pid) (l : Hold) : Prop :=
  l = .released ∨ ∃ g, l = .holding p g ∧ (m.bus = true → g.settled = true)

/-- What one step leaves, by its status. -/
def StatusOf (m : Manner) (p : Pid) (steps : ℕ) : StepStatus → Hold → Prop
  | .ran keepGoing, l => Stepped p steps (.ok keepGoing) l
  | .blocked, l | .stopped, l => Through m p l

lemma follows_runHoldingUnit (hl : Going p steps l) :
    (runHoldingUnit cfg p).Obeys (handling m) l (StatusOf m p (steps + 1)) := by
  refine follows_look hl fun before l hl => ?_
  obtain ⟨g, rfl, hundone, hsent, hsteps⟩ := hl
  refine Obeys.step ⟨g, rfl⟩ ?_
  rintro - l rfl
  have hgoing : Going p (steps + 1) (.holding p { g with steps := g.steps + 1 }) :=
    ⟨_, rfl, hundone, hsent, congrArg (· + 1) hsteps⟩
  refine (follows_runStep cfg hgoing).bind _ fun answer l hl => ?_
  refine (follows_settle hl).bind _ fun keepGoing l hl => ?_
  have hl' := hl
  obtain ⟨g', rfl, -⟩ := hl'
  refine Obeys.step ⟨p, g', rfl⟩ ?_
  rintro - l rfl
  refine hl.look fun pcb g'' hl _ => ?_
  split
  · refine Obeys.step ⟨p, g'', rfl⟩ ?_
    rintro - l rfl
    exact hl
  · exact hl

lemma follows_runOneStep (hl : Going p steps l) :
    (runOneStep cfg p).Obeys (handling m) l (StatusOf m p (steps + 1)) := by
  have hl' := hl
  obtain ⟨g, rfl, hundone, hsent, hsteps⟩ := hl'
  refine Obeys.step ⟨p, g, rfl⟩ ?_
  rintro got l rfl
  cases got with
  | true => exact follows_runHoldingUnit cfg hl
  | false =>
    -- the agent is blocked: it is put back unless a unit turns up in time
    let g' := g.write (.transition .blocked)
    have hundone' : g'.undone = true := by simp [g', Grip.write, hundone]
    have hsettled : g'.settled = true := by simp [Grip.settled, hundone']
    have hback : ∀ status, status = .blocked ∨ status = .stopped →
        (perform (.put p) >>= fun _ => pure status).Obeys (handling m) (.holding p g')
          (StatusOf m p (steps + 1)) := by
      rintro status (rfl | rfl)
      · refine follows_put (fun _ => hsettled) (fun _ => .inl rfl) (.inl rfl) (.inr ⟨g', rfl, ?_⟩)
        exact fun _ => hsettled
      · refine follows_put (fun _ => hsettled) (fun _ => .inl rfl) (.inl rfl) (.inr ⟨g', rfl, ?_⟩)
        exact fun _ => hsettled
    have hmay : g.mayWrite (.transition .blocked) := fun h => by cases h
    refine follows_write hmay (Obeys.step ⟨p, g', rfl⟩ ?_)
    rintro got l rfl
    refine Obeys.step trivial ?_
    rintro stop l ⟨-, rfl⟩
    cases stop with
    | true =>
      refine (obeys_when (c := got = true) (Q := fun _ l => l = .holding p g') ?_ ?_).bind _ ?_
      · intro _
        refine (obeys_perform _).2 ⟨⟨p, g', rfl⟩, ?_⟩
        rintro - l rfl
        rfl
      · exact fun _ => rfl
      · rintro - l rfl
        exact hback _ (.inr rfl)
    | false =>
      cases got with
      | true => exact follows_runHoldingUnit cfg ⟨g', rfl, hundone', hsent, hsteps⟩
      | false => exact hback _ (.inl rfl)

/-- After the loop over the steps. -/
def LoopOf (m : Manner) (p : Pid) : Option Bool → Hold → Prop
  | none, l => Through m p l
  | some keepGoing, l =>
    ∃ g, l = .holding p g ∧ g.sent = false ∧ (keepGoing = true → g.undone = true ∧
      (m.calm = true → g.dead = true ∨ m.limit ≤ g.steps))

lemma follows_stepLoop (rest : ℕ) (site : StopSite) (keepGoing : Bool)
    (hrest : m.limit ≤ steps + rest) (hl : Going p steps l) :
    (stepLoop cfg p rest site keepGoing).Obeys (handling m) l (LoopOf m p) := by
  -- the steps so far and those that are left make up the limit
  induction rest generalizing steps site keepGoing l with
  | zero =>
    obtain ⟨g, rfl, hundone, hsent, hsteps⟩ := hl
    refine ⟨g, rfl, hsent, fun _ => ⟨hundone, fun _ => .inr ?_⟩⟩
    omega
  | succ rest ih =>
    refine Obeys.step trivial ?_
    rintro stop l' ⟨hcalm, rfl⟩
    cases stop with
    | true =>
      obtain ⟨g, rfl, hundone, hsent, hsteps⟩ := hl
      refine ⟨g, rfl, hsent, fun _ => ⟨hundone, fun h => ?_⟩⟩
      have hfalse := hcalm h
      cases hfalse
    | false =>
      refine (follows_runOneStep cfg hl).bind _ fun status l hl => ?_
      cases status with
      | blocked => exact hl
      | stopped => exact hl
      | ran keepGoing' =>
        refine hl.look fun pcb g hl hdead => ?_
        split
        · next hend =>
          have hl' := hl
          obtain ⟨_, ⟨⟩, hsent, -, hundone⟩ := hl'
          refine ⟨g, rfl, hsent, ?_⟩
          rintro rfl
          refine ⟨hundone (by simp), fun _ => .inl (hdead ?_)⟩
          simpa using hend
        · next hgo =>
          obtain rfl : keepGoing' = true := by
            cases keepGoing' with
            | true => rfl
            | false => simp at hgo
          exact ih .laterStep true (by omega) hl.going

/-- The forwarding of a result leaves nothing to be forwarded. -/
lemma follows_forwardResult (hbus : m.bus = true → cfg.hasBus = true) (hsent : g.sent = false) :
    (forwardResult cfg p).Obeys (handling m) (.holding p g) fun _ l =>
      ∃ g', l = .holding p g' ∧ (m.bus = true → g'.settled = true) ∧
        (g.undone = true → g'.undone = true) ∧ (g.dead = true → g'.dead = true) ∧
        g'.steps = g.steps := by
  refine follows_read fun pcb _ => ?_
  have hkeep : (g.undone = true → (g.read pcb).undone = true) ∧
      (g.dead = true → (g.read pcb).dead = true) ∧ (g.read pcb).steps = g.steps := by
    refine ⟨fun h => ?_, fun h => ?_, rfl⟩
    · simp [Grip.read, h]
    · simp [Grip.read, h]
  split
  · next hpipe =>
    refine ⟨_, rfl, fun _ => ?_, hkeep⟩
    simp [Grip.settled, Grip.read, hpipe]
  · next target hpipe =>
    split
    · next hdone =>
      refine Obeys.step trivial ?_
      rintro now l rfl
      have hfwd : (g.read pcb).Forwards pcb target := ⟨rfl, hdone.1, hpipe, hsent⟩
      refine obeys_bind.2 (Obeys.step ⟨p, _, rfl, .inr ⟨pcb, hfwd⟩⟩ ?_)
      rintro box l rfl
      refine (obeys_perform _).2 ⟨⟨_, pcb, target, rfl, hfwd, rfl, rfl⟩, ?_⟩
      rintro - l rfl
      refine ⟨_, rfl, fun _ => ?_, hkeep⟩
      simp [Grip.settled]
    · next hdone =>
      refine ⟨_, rfl, fun hm => ?_, hkeep⟩
      have hstate : pcb.state ≠ .done := fun h => hdone ⟨h, hbus hm⟩
      simp [Grip.settled, Grip.read, hstate]

lemma follows_runQuantum (hbus : m.bus = true → cfg.hasBus = true)
    (hlimit : m.limit ≤ stepLimit cfg.scheduler) (hl : Going p 0 l) :
    (runQuantum cfg p).Obeys (handling m) l fun _ l' => Through m p l' := by
  refine (follows_stepLoop cfg _ _ _ (by omega) hl).bind _ fun answer l hl => ?_
  cases answer with
  | none => exact hl
  | some keepGoing =>
    obtain ⟨g, rfl, hsent, hgo⟩ := hl
    refine (follows_forwardResult cfg hbus hsent).bind _ ?_
    rintro - l ⟨g', rfl, hsettled, hundone, hdead, hsteps⟩
    refine follows_read fun pcb hpcb => ?_
    have hsettled' : m.bus = true → (g'.read pcb).settled = true := by
      intro hm
      have h := hsettled hm
      simp only [Grip.settled, Grip.read, Bool.or_eq_true] at h ⊢
      tauto
    split
    · next hback =>
      simp only [Bool.and_eq_true, Bool.not_eq_true'] at hback
      refine follows_put hsettled' (fun hcalm => ?_) (.inl rfl) (.inr ⟨_, rfl, hsettled'⟩)
      rcases (hgo hback.1).2 hcalm with hd | hs
      · have hterm := hpcb (hdead hd)
        rw [hback.2] at hterm
        cases hterm
      · refine .inr (.inl ?_)
        change m.limit ≤ g'.steps
        omega
    · exact .inr ⟨_, rfl, hsettled'⟩

lemma follows_reparkWaiting (hwants : g.wants = true) (hundone : g.undone = true)
    (hsteps : g.steps = 0) :
    (reparkWaiting cfg p).Obeys (handling m) (.holding p g) fun _ l => Through m p l := by
  refine Obeys.step trivial ?_
  rintro now l rfl
  refine follows_read fun pcb _ => ?_
  have hwants' : (g.read pcb).wants = true := by simp [Grip.read, hwants]
  have hundone' : (g.read pcb).undone = true := by simp [Grip.read, hundone]
  refine follows_write ?_ ?_
  · exact hwants'
  · dsimp only
    split
    · refine follows_write ?_ ((obeys_perform _).2 ⟨⟨rfl, trivial⟩, ?_⟩)
      · exact mayWrite_of_isTerminal rfl (.inl hwants')
      · rintro - l rfl
        refine .inr ⟨_, rfl, fun _ => ?_⟩
        simp [Grip.settled, Grip.write, hundone']
    · refine follows_write ?_ (follows_put (fun _ => ?_) (fun _ => ?_) ?_ ?_)
      · exact hwants'
      · simp [Grip.settled, Grip.write, hundone']
      · exact .inr (.inr ⟨hwants', hsteps⟩)
      · exact .inl rfl
      · refine .inr ⟨_, rfl, fun _ => ?_⟩
        simp [Grip.settled, Grip.write, hundone']

lemma follows_dispatch (hbus : m.bus = true → cfg.hasBus = true)
    (hlimit : m.limit ≤ stepLimit cfg.scheduler) :
    (dispatch cfg p).Obeys (handling m) (.holding p {}) fun _ l => Through m p l := by
  refine follows_read fun pcb _ => ?_
  split
  · exact .inr ⟨_, rfl, fun _ => rfl⟩
  · split
    · next hneeds =>
      have hwants : (({} : Grip).read pcb).wants = true := by simpa [Grip.read] using hneeds
      split
      · refine follows_write (mayWrite_of_isTerminal rfl (.inl hwants))
          ((obeys_perform _).2 ⟨⟨rfl, trivial⟩, ?_⟩)
        rintro - l rfl
        exact .inr ⟨_, rfl, fun _ => rfl⟩
      · -- the mailbox is looked up and asked
        refine obeys_bind.2 (Obeys.step ⟨p, _, rfl, .inl ⟨rfl, hwants⟩⟩ ?_)
        rintro box l rfl
        refine (obeys_perform _).2 ⟨⟨p, _, rfl, hwants, rfl⟩, ?_⟩
        rintro answer l rfl
        cases answer with
        | none => exact follows_reparkWaiting cfg hwants rfl rfl
        | some msg =>
          refine follows_write ?_ (follows_write ?_ ?_)
          · exact ⟨hwants, pcb, msg, rfl, rfl, rfl⟩
          · trivial
          · exact follows_runQuantum cfg hbus hlimit ⟨_, rfl, rfl, rfl, rfl⟩
    · exact follows_runQuantum cfg hbus hlimit ⟨_, rfl, rfl, rfl, rfl⟩

/-- **One turn of the loop of a worker.** -/
lemma follows_loopBody (hbus : m.bus = true → cfg.hasBus = true)
    (hlimit : m.limit ≤ stepLimit cfg.scheduler) :
    (loopBody cfg).Obeys (handling m) .idle fun _ l => l = .idle := by
  refine Obeys.step trivial ?_
  rintro stop l ⟨-, rfl⟩
  cases stop with
  | true => rfl
  | false =>
    refine Obeys.step trivial ?_
    rintro nonempty l rfl
    cases nonempty with
    | false => rfl
    | true =>
      refine Obeys.step rfl ?_
      rintro (_ | p) l hl
      · exact hl
      · obtain rfl : l = .holding p {} := hl
        refine (follows_dispatch cfg hbus hlimit).bind _ fun _ l hl => ?_
        refine Obeys.step ?_ ?_
        · exact hl.imp id fun ⟨g, hg⟩ => ⟨p, g, hg⟩
        · rintro - l rfl
          rfl

end

/-! ### Callers -/

/-- The operations of the calls other than `spawn`. -/
def CallOp (calm : Bool) : Class KOp
  | _, .readPcb _ _ | _, .tableHas _ | _, .tablePids | _, .tableRemove _ | _, .dropMailbox _
  | _, .mailboxPids => True
  | _, .topup k => 0 < k
  | _, .write _ (.transition .zombie) | _, .write _ (.error _) | _, .popQueued _
  | _, .setStop => calm = false
  | _, _ => False

lemma follows_calls {prog : Prog KOp α} (h : prog.Only (CallOp m.calm)) :
    prog.Obeys (handling m) (.client none) fun _ l => l = .client none := by
  refine h.obeys ?_ rfl
  rintro β o l ho rfl
  cases o with
  | readPcb q _ =>
    refine ⟨trivial, ?_⟩
    rintro pcb l' ⟨-, rfl⟩
    rfl
  | tableHas _ | tablePids | tableRemove _ | dropMailbox _ | mailboxPids | topup _ =>
    refine ⟨⟨none, rfl⟩, ?_⟩
    rintro - l' rfl
    rfl
  | popQueued _ | setStop =>
    refine ⟨⟨⟨none, rfl⟩, ho⟩, ?_⟩
    rintro - l' rfl
    rfl
  | write q c =>
    cases c with
    | error msg =>
      refine ⟨ho, ?_⟩
      rintro - l' rfl
      rfl
    | transition st =>
      cases st with
      | zombie =>
        refine ⟨ho, ?_⟩
        rintro - l' rfl
        rfl
      | _ => exact ho.elim
    | _ => exact ho.elim
  | _ => exact ho.elim

section

variable {calm : Bool}

lemma only_present (cs : List Pid) : (Kernel.present cs).Only (CallOp calm) := by
  induction cs with
  | nil => trivial
  | cons c cs ih => exact Only.step trivial fun _ => ih.bind fun _ => trivial

lemma only_childrenOf (pid : Pid) : (Kernel.childrenOf pid).Only (CallOp calm) := by
  refine Only.step trivial fun here => ?_
  split
  · exact Only.step trivial fun parent => only_present _
  · trivial

lemma only_descendantsLoop (fuel : ℕ) (stack out : List Pid) :
    (Kernel.descendantsLoop fuel stack out).Only (CallOp calm) := by
  induction fuel generalizing stack out with
  | zero => cases stack <;> trivial
  | succ fuel ih =>
    cases stack with
    | nil => trivial
    | cons cur stack => exact (only_childrenOf cur).bind fun _ => ih _ _

lemma only_descendantsOf (fuel : ℕ) (pid : Pid) :
    (Kernel.descendantsOf fuel pid).Only (CallOp calm) :=
  (only_childrenOf pid).bind fun _ => only_descendantsLoop _ _ _

lemma only_dropAll (pids : List Pid) : (Kernel.dropMailboxes pids).Only (CallOp calm) := by
  induction pids with
  | nil => trivial
  | cons p rest ih => exact Only.step trivial fun _ => ih

lemma only_reap (root : Pid) (reason : String) (doomed : List Pid) :
    (Kernel.reapAll root reason doomed).Only (CallOp false) := by
  induction doomed with
  | nil => trivial
  | cons child rest ih =>
    refine Only.step trivial fun pcb => ?_
    split
    · exact ih
    · exact Only.step rfl fun _ => Only.step rfl fun _ => ih

lemma only_kill (fuel : ℕ) (pid : Pid) : (Kernel.kill fuel pid).Only (CallOp false) := by
  refine Only.step trivial fun here => ?_
  split
  · refine Only.step trivial fun pcb => ?_
    split
    · trivial
    · refine (only_descendantsOf fuel pid).bind fun victims => ?_
      split
      · trivial
      · refine Only.step rfl fun _ => Only.step rfl fun _ => Only.step rfl fun _ => ?_
        refine (only_descendantsOf fuel pid).bind fun doomed => ?_
        split
        · trivial
        · exact (only_reap _ _ _).bind fun _ => (only_dropAll _).bind fun _ => trivial
  · trivial

lemma only_reapFrom (pids : List Pid) : (Kernel.reapFrom pids).Only (CallOp calm) := by
  induction pids with
  | nil => trivial
  | cons p rest ih =>
    refine Only.step trivial fun pcb => ?_
    split
    · exact Only.step trivial fun _ => Only.step trivial fun _ => ih.bind fun _ => trivial
    · exact ih

lemma only_reapTerminal : Kernel.reapTerminal.Only (CallOp calm) :=
  Only.step trivial fun pids => only_reapFrom pids

lemma only_quotaTopup (amount : ℤ) : (Kernel.quotaTopup amount).Only (CallOp calm) := by
  unfold Kernel.quotaTopup
  split
  · trivial
  · next hpos => exact Only.step (not_le.1 hpos) fun _ => trivial

end

lemma follows_linkParent (parentPid : Option Pid) (pid : Pid) {fresh : Option Pid} :
    (Kernel.linkParent parentPid pid).Obeys (handling m) (.client fresh)
      fun _ l => l = .client fresh := by
  cases parentPid with
  | none => rfl
  | some parent =>
    refine Obeys.step ⟨fresh, rfl⟩ ?_
    rintro here l rfl
    cases here with
    | true =>
      refine (obeys_perform _).2 ⟨trivial, ?_⟩
      rintro - l rfl
      rfl
    | false => rfl

lemma follows_spawn (args : SpawnArgs) :
    (Kernel.spawn args).Obeys (handling m) (.client none) fun _ l => l = .client none := by
  refine Obeys.step ⟨none, rfl⟩ ?_
  rintro pid l rfl
  refine Obeys.step rfl ?_
  rintro added l rfl
  cases added with
  | false => rfl
  | true =>
    refine (follows_linkParent args.parentPid pid).bind _ ?_
    rintro - l rfl
    refine (obeys_when (Q := fun _ l => l = .client (some pid)) (fun _ => ?_) fun _ => rfl).bind _ ?_
    · refine (obeys_perform _).2 ⟨rfl, ?_⟩
      rintro - l rfl
      rfl
    · rintro - l rfl
      refine Obeys.step (.inl rfl) ?_
      rintro - l rfl
      rfl

/-- The calls of a calm run. -/
def calmCall : KernelCall → Bool
  | .spawn _ | .reapTerminal | .topup _ => true
  | .kill _ _ | .shutdown => false

/-- **Every call.** -/
lemma follows_code (c : KernelCall) (hc : m.calm = true → calmCall c = true) :
    c.code.Obeys (handling m) (.client none) fun _ l => l = .client none := by
  have hnot : calmCall c = false → m.calm = false := by
    intro h
    by_contra hcalm
    rw [hc (by simpa using hcalm)] at h
    cases h
  cases c with
  | spawn args => exact (follows_spawn args).bind _ fun _ _ hl => hl
  | kill fuel pid =>
    refine follows_calls ?_
    rw [hnot rfl]
    exact (only_kill fuel pid).bind fun _ => trivial
  | reapTerminal => exact follows_calls (only_reapTerminal.bind fun _ => trivial)
  | topup amount => exact follows_calls ((only_quotaTopup amount).bind fun _ => trivial)
  | shutdown =>
    refine follows_calls ?_
    rw [hnot rfl]
    exact Only.step rfl fun _ => Only.step trivial fun pids => only_dropAll pids

end Gcos.Pool
