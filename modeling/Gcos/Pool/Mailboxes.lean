import Gcos.Pool.Runs
import Gcos.Pool.Dead
import Gcos.Kernel.Effects
import Gcos.Lib.Answers

/-!
# Mailboxes of dead agents

`kill` and `reap_terminal` drop the mailboxes of the agents that they end or remove.
Whether a dropped mailbox stays away is another matter: `send` and `recv` make a mailbox
for whatever pid they are given.  The statements here are about calls that are over and
have answered, so the callers tell their answers.
-/

namespace Gcos.Pool

open Lib World

variable {n : ℕ} {cfg : KernelConfig} {out : Outside} {w : World n} {t : Tid n} {β : Type}
  {o : KOp β} {p : Pid}

/-! ### What the callers are answered -/

/-- The answer of a call, as far as it matters here. -/
inductive Answer
  | killed (pid : Pid) (answer : Option Bool)
  | reaped (count : ℕ)
  | other
deriving DecidableEq, Repr

/-- The code of a call, with its answer. -/
def answering : KernelCall → Prog KOp Answer
  | .kill fuel pid => do
    let answer ← Kernel.kill fuel pid
    return .killed pid answer
  | .reapTerminal => do
    let count ← Kernel.reapTerminal
    return .reaped count
  | c => do
    c.code
    return .other

lemma entry_eq_answering (c : KernelCall) :
    (kernelSystem n cfg out).entry c = answering c >>= fun _ => .ret false := by
  cases c <;> simp only [kernelSystem, KernelCall.code, answering, Prog.bind_assoc] <;> rfl

/-- What is remembered of the ends of agents. -/
structure Closing (n : ℕ) where
  /-- The agents whose mailbox was dropped. -/
  dropped : List Pid := []
  /-- The agents that a thread has removed from the table in the call that it is making. -/
  removing : Tid n → List Pid := fun _ => []
  /-- The agents that a `kill` that is over has killed, or a `reap_terminal` that is over
  has removed. -/
  closed : List Pid := []

/-- The observer of the drops and removals. -/
def closer : Observer KOp (Tid n) (World n) (Closing n)
  | _, _, .dropMailbox p, _, _, g => { g with dropped := p :: g.dropped }
  | _, t, .tableRemove p, _, _, g =>
    { g with removing := Function.update g.removing t (p :: g.removing t) }
  | _, _, _, _, _, g => g

/-- The agents that are done with when thread `t` is given its answer. -/
def closes (g : Closing n) (t : Tid n) : Answer → List Pid
  | .killed pid (some true) => [pid]
  | .reaped _ => g.removing t
  | _ => []

/-- What is remembered when thread `t` is given its answer. -/
def closeCall (t : Tid n) (a : Answer) (_ : World n) (g : Closing n) : Closing n :=
  { g with
    removing := Function.update g.removing t []
    closed := closes g t a ++ g.closed }

/-- The kernel, whose callers tell their answers. -/
def answeringSystem (n : ℕ) (cfg : KernelConfig) (out : Outside) :
    System (Told KOp Answer) (Tid n) (World n × Closing n) KernelCall :=
  (kernelSystem n cfg out).telling answering closer closeCall

/-- The kernel as it is when it has been started. -/
def answeringBoot (n : ℕ) (quota : Quota) :
    Lib.Pool (Told KOp Answer) (Tid n) (World n × Closing n) :=
  { shared := (freshWorld n quota, {}), code := fun t => ((boot n quota).code t).told }

/-- The runs of this system are the runs of the kernel. -/
theorem exists_run_of_answering (cfg : KernelConfig) (out : Outside) (quota : Quota)
    (as : List (Act (Tid n) KernelCall)) :
    ∃ bs, ((kernelSystem n cfg out).run (boot n quota) bs).shared =
      ((answeringSystem n cfg out).run (answeringBoot n quota) as).shared.1 := by
  have hstart : System.Follows (boot n quota) (answeringBoot n quota) :=
    ⟨rfl, fun t => .inl rfl⟩
  obtain ⟨bs, hbs⟩ := System.exists_run_of_telling entry_eq_answering hstart as
  exact ⟨bs, hbs.shared.symm⟩

/-- Until the kernel is shut down, there is no mailbox for an agent that is done with. -/
def StaysClosed (s : World n × Closing n) : Prop :=
  s.1.stop = false → ∀ p ∈ s.2.closed, p ∉ s.1.bus.pids

/-- Until the kernel is shut down, whoever looks up the mailbox of a terminal agent whose
mailbox was dropped finds one. -/
def NoRevival : System.Guard (Told KOp Answer) (Tid n) (World n × Closing n) := fun _ o s =>
  match o with
  | .op o => ∀ p ∈ o.looksUp, s.1.stop = false → p ∈ s.2.dropped →
      (s.1.pcbs p).isTerminal = true → p ∈ s.1.bus.pids
  | .answer _ _ => True

instance (β : Type) (t : Tid n) (o : Told KOp Answer β) (s : World n × Closing n) :
    Decidable (NoRevival t o s) :=
  match o with
  | .op o => inferInstanceAs (Decidable (∀ p ∈ o.looksUp, _ → _ → _ → _))
  | .answer _ _ => .isTrue trivial

/-- A producer finishes after its consumer was killed: the send makes a mailbox for the
dead agent. -/
theorem mailbox_comes_back :
    ∃ as : List (Act (Tid 1) KernelCall), ¬StaysClosed
      ((answeringSystem 1 { pager := {}, host := .inert } (.calm ⟨"hi", 1, 1, 2⟩)).run
        (answeringBoot 1 ⟨5, 5⟩) as).shared := by
  refine ⟨Act.call (.client 0) (.spawn { prompt := "a", pipeTo := some 2 }) ::
    (steps 4 (.client 0) ++ Act.call (.client 0) (.spawn { prompt := "b" }) ::
      (steps 4 (.client 0) ++ Act.call (.client 0) (.kill 9 2) ::
        (steps 11 (.client 0) ++ steps 30 (.worker 0)))), fun h => ?_⟩
  refine h ?_ 2 ?_ ?_
  · decide +kernel
  · decide +kernel
  · decide +kernel

/-! ### What the callers know -/

/-- What a caller has found out in its call. -/
structure Sight where
  /-- Agents that were in the table. -/
  listed : List Pid := []
  /-- Agents of these that are terminal. -/
  dead : List Pid := []
  /-- Agents that were removed from the table. -/
  removed : List Pid := []
  /-- Terminal agents whose mailbox was dropped. -/
  gone : List Pid := []

namespace Sight

/-- What a caller knows after a write. -/
def write (l : Sight) (p : Pid) : Write → Sight
  | .transition st => if st.isTerminal ∧ p ∈ l.listed then { l with dead := p :: l.dead } else l
  | _ => l

/-- What a caller knows after an operation. -/
def after : {β : Type} → KOp β → β → Sight → Sight
  | _, .tableHas p, here, l => if here then { l with listed := p :: l.listed } else l
  | _, .tablePids, ps, l => { l with listed := ps ++ l.listed }
  | _, .readPcb p _, pcb, l =>
    if pcb.isTerminal ∧ p ∈ l.listed then { l with dead := p :: l.dead } else l
  | _, .write p c, _, l => l.write p c
  | _, .tableRemove p, _, l => { l with removed := p :: l.removed }
  | _, .dropMailbox p, _, l => if p ∈ l.dead then { l with gone := p :: l.gone } else l
  | _, _, _, l => l

/-- A caller that knows more. -/
structure Le (l l' : Sight) : Prop where
  listed : l.listed ⊆ l'.listed
  dead : l.dead ⊆ l'.dead
  gone : l.gone ⊆ l'.gone

lemma Le.refl (l : Sight) : l.Le l := ⟨fun _ h => h, fun _ h => h, fun _ h => h⟩

lemma Le.trans {l l' l'' : Sight} (h : l.Le l') (h' : l'.Le l'') : l.Le l'' :=
  ⟨List.Subset.trans h.listed h'.listed, List.Subset.trans h.dead h'.dead,
    List.Subset.trans h.gone h'.gone⟩

/-- A caller forgets nothing. -/
lemma le_after (o : KOp β) (b : β) (l : Sight) : l.Le (l.after o b) := by
  cases o with
  | tableHas p =>
    cases b with
    | true => exact ⟨List.subset_cons_self _ _, fun _ h => h, fun _ h => h⟩
    | false => exact .refl l
  | tablePids => exact ⟨List.subset_append_right _ _, fun _ h => h, fun _ h => h⟩
  | readPcb p _ =>
    simp only [after]
    split
    · exact ⟨fun _ h => h, List.subset_cons_self _ _, fun _ h => h⟩
    · exact .refl l
  | write p c =>
    cases c with
    | transition st =>
      simp only [after, write]
      split
      · exact ⟨fun _ h => h, List.subset_cons_self _ _, fun _ h => h⟩
      · exact .refl l
    | _ => exact .refl l
  | tableRemove p => exact ⟨fun _ h => h, fun _ h => h, fun _ h => h⟩
  | dropMailbox p =>
    simp only [after]
    split
    · exact ⟨fun _ h => h, fun _ h => h, List.subset_cons_self _ _⟩
    · exact .refl l
  | _ => exact .refl l

end Sight

/-- The discipline that forbids nothing and takes notes. -/
def sighting : Discipline KOp Sight :=
  { pre := fun _ _ => True, post := fun o l b l' => l' = l.after o b }

/-- What is to be known when a call is answered: what it has killed or removed is gone. -/
def mayAnswer (a : Answer) (l : Sight) : Prop :=
  match a with
  | .killed pid (some true) => pid ∈ l.gone
  | .reaped _ => l.removed ⊆ l.gone
  | _ => True

/-- The discipline of the callers. -/
def reporting : Discipline (Told KOp Answer) Sight :=
  sighting.telling mayAnswer fun _ _ l' => l' = {}

lemma sighting_mono {α : Type} (prog : Prog KOp α) (l : Sight) :
    prog.Obeys sighting l fun _ l' => l.Le l' := by
  induction prog generalizing l with
  | ret a => exact .refl l
  | op o k ih =>
    refine ⟨trivial, ?_⟩
    rintro b _ rfl
    exact (ih b _).mono fun _ l' h => (l.le_after o b).trans h

/-- The rule for a program that begins with one operation. -/
lemma sighting_step {α γ : Type} {o : KOp α} {k : α → Prog KOp γ} {l : Sight}
    {Q : γ → Sight → Prop} (hk : ∀ a, (k a).Obeys sighting (l.after o a) Q) :
    (Prog.perform o >>= k).Obeys sighting l Q := by
  refine ⟨trivial, ?_⟩
  rintro a _ rfl
  exact hk a

lemma sights_dropMailboxes {l : Sight} {p : Pid} (hp : p ∈ l.dead) (ps : List Pid) :
    (Kernel.dropMailboxes (p :: ps)).Obeys sighting l fun _ l' => p ∈ l'.gone := by
  refine sighting_step fun _ => ?_
  refine (sighting_mono _ _).mono fun _ l' hle => hle.gone ?_
  simp [Sight.after, hp]

/-- A `kill` that answers `True` has seen the mailbox of the agent go. -/
lemma sights_kill (fuel : ℕ) (pid : Pid) (l : Sight) :
    (Kernel.kill fuel pid).Obeys sighting l fun a l' => a = some true → pid ∈ l'.gone := by
  refine sighting_step fun here => ?_
  cases here with
  | false => exact fun h => by cases h
  | true =>
    refine sighting_step fun pcb => ?_
    have hlisted :
        pid ∈ (Sight.after (.readPcb pid .terminal) pcb (l.after (.tableHas pid) true)).listed :=
      (Sight.le_after _ _ _).listed List.mem_cons_self
    generalize Sight.after (.readPcb pid .terminal) pcb (l.after (.tableHas pid) true) = l₁ at hlisted
    split
    · exact fun h => by cases h
    · refine (sighting_mono _ l₁).bind _ fun victims l₂ hle₂ => ?_
      cases victims with
      | none => exact fun h => by cases h
      | some victims =>
        refine sighting_step fun _ => ?_
        -- from here on the caller knows that the agent is terminal
        have hdead : pid ∈ (Sight.after (.write pid (.transition .zombie)) () l₂).dead := by
          simp [Sight.after, Sight.write, hle₂.listed hlisted, AgentState.isTerminal]
        generalize Sight.after (.write pid (.transition .zombie)) () l₂ = l₃ at hdead
        refine sighting_step fun _ => sighting_step fun _ => ?_
        have hdead' : pid ∈ (Sight.after (.popQueued pid) ‹_›
            (Sight.after (.write pid (.error "killed by user")) () l₃)).dead := hdead
        refine (sighting_mono _ _).bind _ fun doomed l₄ hle₄ => ?_
        cases doomed with
        | none => exact fun h => by cases h
        | some doomed =>
          refine (sighting_mono _ l₄).bind _ fun _ l₅ hle₅ => ?_
          refine (sights_dropMailboxes (hle₅.dead (hle₄.dead hdead)) victims).bind _ fun _ l₆ h => ?_
          exact fun _ => h

/-- What `reap_terminal` has removed is gone. -/
lemma sights_reapFrom (ps : List Pid) {l : Sight} (hps : ps ⊆ l.listed)
    (hl : l.removed ⊆ l.gone) :
    (Kernel.reapFrom ps).Obeys sighting l fun _ l' => l'.removed ⊆ l'.gone := by
  induction ps generalizing l with
  | nil => exact hl
  | cons p ps ih =>
    refine sighting_step fun pcb => ?_
    have hp : p ∈ l.listed := hps List.mem_cons_self
    have hrest : ps ⊆ l.listed := fun q hq => hps (List.mem_cons_of_mem _ hq)
    split
    · next hdead =>
      refine sighting_step fun _ => sighting_step fun _ => ?_
      let l₁ : Sight :=
        { l with dead := p :: l.dead, removed := p :: l.removed, gone := p :: l.gone }
      have hafter : Sight.after (.dropMailbox p) () (Sight.after (.tableRemove p) ()
          (Sight.after (.readPcb p .terminal) pcb l)) = l₁ := by
        simp [Sight.after, hdead, hp, l₁]
      rw [hafter]
      have hnext : (Kernel.reapFrom ps).Obeys sighting l₁ fun _ l' => l'.removed ⊆ l'.gone :=
        ih hrest (List.cons_subset_cons p hl)
      exact Prog.obeys_bind.2 (hnext.mono fun _ l' h => h)
    · next hlive =>
      have hafter : Sight.after (.readPcb p .terminal) pcb l = l := by
        simp [Sight.after, hlive]
      rw [hafter]
      exact ih hrest hl

lemma sights_reapTerminal : Kernel.reapTerminal.Obeys sighting {} fun _ l' => l'.removed ⊆ l'.gone :=
  sighting_step fun ps => sights_reapFrom ps (List.subset_append_left _ _) fun _ h => h

/-- Every call obeys the discipline of the callers. -/
lemma reports_answering (c : KernelCall) :
    (answering c).telling.Obeys reporting {} fun _ l' => l' = {} := by
  refine Prog.Obeys.telling ?_
  cases c with
  | kill fuel pid =>
    refine (sights_kill fuel pid {}).bind _ fun a l' h => ⟨?_, fun _ h => h⟩
    unfold mayAnswer
    split
    · next heq =>
      cases heq
      exact h rfl
    · next heq => cases heq
    · trivial
  | reapTerminal => exact sights_reapTerminal.bind _ fun a l' h => ⟨h, fun _ h => h⟩
  | spawn args | topup amount | shutdown =>
    exact (sighting_mono _ _).bind _ fun a l' _ => ⟨trivial, fun _ h => h⟩

/-! ### The invariant -/

/-- A terminal agent whose mailbox was dropped and has not come back. -/
structure Shut (w : World n) (g : Closing n) (p : Pid) : Prop where
  allocated : Allocated w.nextPid p
  terminal : (w.pcbs p).isTerminal = true
  dropped : p ∈ g.dropped
  absent : w.stop = false → p ∉ w.bus.pids

/-- What the callers know is so. -/
structure Sighted (w : World n) (g : Closing n) (ms : Tid n → Sight) : Prop where
  listed : ∀ t, ∀ p ∈ (ms t).listed, Allocated w.nextPid p
  dead : ∀ t, ∀ p ∈ (ms t).dead, Allocated w.nextPid p ∧ (w.pcbs p).isTerminal = true
  removing : ∀ t, ∀ p ∈ g.removing t, p ∈ (ms t).removed
  gone : ∀ t, ∀ p ∈ (ms t).gone, Shut w g p
  closed : ∀ p ∈ g.closed, Shut w g p

lemma mem_dropped_closer {b : β} {g : Closing n} (hp : p ∈ g.dropped) :
    p ∈ (closer t o w b g).dropped := by
  cases o with
  | dropMailbox q => exact List.mem_cons_of_mem _ hp
  | _ => exact hp

/-- A mailbox that is gone stays away. -/
lemma Shut.exec {g : Closing n} (h : Shut w g p)
    (hguard : NoRevival t (Told.op o) (w, g)) {b : β} :
    Shut (exec cfg out t o w).2 (closer t o w b g) p where
  allocated := allocated_exec h.allocated
  terminal := isTerminal_exec h.terminal h.allocated
  dropped := mem_dropped_closer h.dropped
  absent := by
    intro hstop hmem
    have hrun := stop_of_exec hstop
    rcases mem_pids_exec hmem with hmem | hlook
    · exact h.absent hrun hmem
    · exact h.absent hrun (hguard p hlook hrun h.dropped h.terminal)

/-- What a caller is told when it looks at the table is so. -/
lemma listed_after {g : Closing n} {ms : Tid n → Sight} (h : Sighted w g ms)
    (htable : ∀ q ∈ w.table, Allocated w.nextPid q)
    (hp : p ∈ ((ms t).after o (exec cfg out t o w).1).listed) : Allocated w.nextPid p := by
  cases o with
  | tableHas q =>
    simp only [Sight.after, exec, decide_eq_true_eq] at hp
    split at hp
    · next hq =>
      rcases List.mem_cons.1 hp with rfl | hp
      · exact htable p hq
      · exact h.listed t p hp
    · exact h.listed t p hp
  | tablePids =>
    rcases List.mem_append.1 hp with hp | hp
    · exact htable p ((List.mem_insertionSort _).1 hp)
    · exact h.listed t p hp
  | readPcb q _ =>
    simp only [Sight.after] at hp
    split at hp <;> exact h.listed t p hp
  | write q c =>
    cases c with
    | transition st =>
      simp only [Sight.after, Sight.write] at hp
      split at hp <;> exact h.listed t p hp
    | _ => exact h.listed t p hp
  | dropMailbox q =>
    simp only [Sight.after] at hp
    split at hp <;> exact h.listed t p hp
  | _ => exact h.listed t p hp

/-- An agent that a caller has seen end is terminal. -/
lemma dead_after {g : Closing n} {ms : Tid n → Sight} (h : Sighted w g ms)
    (hp : p ∈ ((ms t).after o (exec cfg out t o w).1).dead) :
    Allocated w.nextPid p ∧ ((exec cfg out t o w).2.pcbs p).isTerminal = true := by
  have hold : p ∈ (ms t).dead →
      Allocated w.nextPid p ∧ ((exec cfg out t o w).2.pcbs p).isTerminal = true := by
    intro hp
    obtain ⟨halloc, hterm⟩ := h.dead t p hp
    exact ⟨halloc, isTerminal_exec hterm halloc⟩
  cases o with
  | readPcb q _ =>
    simp only [Sight.after] at hp
    split at hp
    · next hq =>
      rcases List.mem_cons.1 hp with rfl | hp
      · exact ⟨h.listed t p hq.2, hq.1⟩
      · exact hold hp
    · exact hold hp
  | write q c =>
    cases c with
    | transition st =>
      simp only [Sight.after, Sight.write] at hp
      split at hp
      · next hq =>
        rcases List.mem_cons.1 hp with rfl | hp
        · refine ⟨h.listed t p hq.2, ?_⟩
          rw [pcb_write, Write.isTerminal_apply]
          exact .inr ⟨st, rfl, hq.1⟩
        · exact hold hp
      · exact hold hp
    | _ => exact hold hp
  | tableHas q =>
    simp only [Sight.after] at hp
    split at hp <;> exact hold hp
  | dropMailbox q =>
    simp only [Sight.after] at hp
    split at hp <;> exact hold hp
  | _ => exact hold hp

/-- An agent that a caller has seen go is gone. -/
lemma gone_after {g : Closing n} {ms : Tid n → Sight} (h : Sighted w g ms)
    (hguard : NoRevival t (Told.op o) (w, g))
    (hp : p ∈ ((ms t).after o (exec cfg out t o w).1).gone) :
    Shut (exec cfg out t o w).2 (closer t o w (exec cfg out t o w).1 g) p := by
  cases o with
  | dropMailbox q =>
    simp only [Sight.after] at hp
    split at hp
    · next hq =>
      rcases List.mem_cons.1 hp with rfl | hp
      · obtain ⟨halloc, hterm⟩ := h.dead t p hq
        refine ⟨halloc, hterm, List.mem_cons_self, fun _ hmem => ?_⟩
        obtain ⟨x, hx, hpx⟩ := List.mem_map.1 hmem
        simpa [hpx] using List.of_mem_filter hx
      · exact (h.gone t p hp).exec hguard
    · exact (h.gone t p hp).exec hguard
  | readPcb q _ =>
    simp only [Sight.after] at hp
    split at hp <;> exact (h.gone t p hp).exec hguard
  | write q c =>
    cases c with
    | transition st =>
      simp only [Sight.after, Sight.write] at hp
      split at hp <;> exact (h.gone t p hp).exec hguard
    | _ => exact (h.gone t p hp).exec hguard
  | tableHas q =>
    simp only [Sight.after] at hp
    split at hp <;> exact (h.gone t p hp).exec hguard
  | _ => exact (h.gone t p hp).exec hguard

/-- A caller does not forget what it has removed. -/
lemma removed_after (o : KOp β) (b : β) (l : Sight) : l.removed ⊆ (l.after o b).removed := by
  intro q hq
  cases o with
  | tableRemove r => exact List.mem_cons_of_mem _ hq
  | tableHas r | readPcb r _ | dropMailbox r =>
    simp only [Sight.after]
    split <;> exact hq
  | write r c =>
    cases c with
    | transition st =>
      simp only [Sight.after, Sight.write]
      split <;> exact hq
    | _ => exact hq
  | _ => exact hq

lemma removing_closer {g : Closing n} {ms : Tid n → Sight} (h : Sighted w g ms) {b : β} {u : Tid n}
    (hp : p ∈ (closer t o w b g).removing u) :
    p ∈ (Function.update ms t ((ms t).after o b) u).removed := by
  by_cases hu : u = t
  · subst hu
    rw [Function.update_self]
    cases o with
    | tableRemove q =>
      simp only [closer, Function.update_self] at hp
      rcases List.mem_cons.1 hp with rfl | hp
      · exact List.mem_cons_self
      · exact List.mem_cons_of_mem _ (h.removing u p hp)
    | _ => exact removed_after _ b _ (h.removing u p hp)
  · rw [Function.update_of_ne hu]
    refine h.removing u p ?_
    cases o with
    | tableRemove q => simpa only [closer, Function.update_of_ne hu] using hp
    | _ => exact hp

/-- What the callers know stays so, one operation at a time. -/
lemma Sighted.exec {g : Closing n} {ms : Tid n → Sight} (h : Sighted w g ms)
    (htable : ∀ q ∈ w.table, Allocated w.nextPid q)
    (hguard : NoRevival t (Told.op o) (w, g)) :
    Sighted (World.exec cfg out t o w).2 (closer t o w (World.exec cfg out t o w).1 g)
      (Function.update ms t ((ms t).after o (World.exec cfg out t o w).1)) where
  listed := by
    intro u p hp
    have halloc : Allocated w.nextPid p := by
      by_cases hu : u = t
      · subst hu
        rw [Function.update_self] at hp
        exact listed_after h htable hp
      · rw [Function.update_of_ne hu] at hp
        exact h.listed u p hp
    exact allocated_exec halloc
  dead := by
    intro u p hp
    have hdead : Allocated w.nextPid p ∧ ((World.exec cfg out t o w).2.pcbs p).isTerminal = true := by
      by_cases hu : u = t
      · subst hu
        rw [Function.update_self] at hp
        exact dead_after h hp
      · rw [Function.update_of_ne hu] at hp
        obtain ⟨halloc, hterm⟩ := h.dead u p hp
        exact ⟨halloc, isTerminal_exec hterm halloc⟩
    exact ⟨allocated_exec hdead.1, hdead.2⟩
  removing := fun u p hp => removing_closer h hp
  gone := by
    intro u p hp
    by_cases hu : u = t
    · subst hu
      rw [Function.update_self] at hp
      exact gone_after h hguard hp
    · rw [Function.update_of_ne hu] at hp
      exact (h.gone u p hp).exec hguard
  closed := by
    intro p hp
    have hclosed : (closer t o w (World.exec cfg out t o w).1 g).closed = g.closed := by
      cases o <;> rfl
    rw [hclosed] at hp
    exact (h.closed p hp).exec hguard

/-- What is told to be over is gone. -/
lemma Sighted.answer {g : Closing n} {ms : Tid n → Sight} (h : Sighted w g ms) {a : Answer}
    (hpre : mayAnswer a (ms t)) : Sighted w (closeCall t a w g) (Function.update ms t {}) := by
  have hshut : ∀ p, Shut w g p → Shut w (closeCall t a w g) p :=
    fun p hp => ⟨hp.allocated, hp.terminal, hp.dropped, hp.absent⟩
  refine ⟨fun u p hp => ?_, fun u p hp => ?_, fun u p hp => ?_, fun u p hp => ?_, fun p hp => ?_⟩
  · by_cases hu : u = t
    · subst hu
      simp at hp
    · rw [Function.update_of_ne hu] at hp
      exact h.listed u p hp
  · by_cases hu : u = t
    · subst hu
      simp at hp
    · rw [Function.update_of_ne hu] at hp
      exact h.dead u p hp
  · by_cases hu : u = t
    · subst hu
      simp [closeCall] at hp
    · simp only [closeCall, Function.update_of_ne hu] at hp
      rw [Function.update_of_ne hu]
      exact h.removing u p hp
  · by_cases hu : u = t
    · subst hu
      simp at hp
    · rw [Function.update_of_ne hu] at hp
      exact hshut p (h.gone u p hp)
  · rcases List.mem_append.1 hp with hp | hp
    · refine hshut p (h.gone t p ?_)
      unfold closes at hp
      split at hp
      · obtain rfl := List.mem_singleton.1 hp
        exact hpre
      · exact hpre (h.removing t p hp)
      · cases hp
    · exact hshut p (h.closed p hp)

lemma sighted_fresh {quota : Quota} : Sighted (freshWorld n quota) {} fun _ => {} where
  listed := fun t p hp => (by cases hp)
  dead := fun t p hp => (by cases hp)
  removing := fun t p hp => (by cases hp)
  gone := fun t p hp => (by cases hp)
  closed := fun p hp => (by cases hp)

/-- A caller that is not making a call knows nothing. -/
def Unseeing (t : Tid n) (l : Sight) : Prop := t.isWorker = false → l = {}

/-- The runs of the kernel with the answers of its calls. -/
lemma sighted_run (cfg : KernelConfig) (out : Outside) (quota : Quota)
    (as : List (Act (Tid n) KernelCall))
    (hmeets : (answeringSystem n cfg out).Meets NoRevival (answeringBoot n quota) as) :
    System.SoundOver (discipline {}).told reporting (fun s ls => Inv {} s.1 ls)
      (fun s _ ms => Sighted s.1 s.2 ms) Idle Unseeing
      ((answeringSystem n cfg out).run (answeringBoot n quota) as) := by
  have hstart : System.SoundOver (discipline {}).told reporting (fun s ls => Inv {} s.1 ls)
      (fun s _ ms => Sighted s.1 s.2 ms) Idle Unseeing (answeringBoot n quota) := by
    refine System.SoundOver.intro (inv_fresh (by simp)) sighted_fresh (fun t => ?_) fun t _ => rfl
    cases t with
    | worker i => exact rfl
    | client k => exact ⟨[], none, rfl⟩
  have hfits : ({} : Rules).Fits cfg.pager.policies := fun h => by cases h
  have hbody : ∀ (t : Tid n) l, Idle t l →
      ((answeringSystem n cfg out).body t).Obeys (discipline {}).told l fun _ l => Idle t l := by
    intro t l hl
    have hobeys : ((kernelSystem n cfg out).body t).Obeys (discipline {}) l fun _ l => Idle t l :=
      obeys_body hfits t hl
    exact hobeys.told
  have hbody' : ∀ (t : Tid n) l, Unseeing t l →
      ((answeringSystem n cfg out).body t).Obeys reporting l fun _ l => Unseeing t l := by
    rintro (i | k) l hl
    · exact (sighting_mono _ l).told.mono fun _ l' _ h => by cases h
    · exact hl
  have hentry : ∀ (t : Tid n) c l, True → (answeringSystem n cfg out).serves t c = true →
      Idle t l →
      ((answeringSystem n cfg out).entry c).Obeys (discipline {}).told l fun _ l => Idle t l := by
    intro t c l _ hserves hl
    have hcode : ((kernelSystem n cfg out).entry c).Obeys (discipline {}) l fun _ l => Idle t l :=
      obeys_entry cfg out t c (by simp) hserves hl
    rw [entry_eq_answering, Prog.obeys_bind] at hcode
    refine Prog.Obeys.telling (hcode.mono fun a l' hl' => ⟨trivial, ?_⟩)
    rintro _ rfl
    exact hl'
  have hentry' : ∀ (t : Tid n) c l, True → (answeringSystem n cfg out).serves t c = true →
      Unseeing t l →
      ((answeringSystem n cfg out).entry c).Obeys reporting l fun _ l => Unseeing t l := by
    rintro (i | k) c l _ hserves hl
    · cases hserves
    · rw [hl rfl]
      exact (reports_answering c).mono fun _ l' h _ => h
  refine System.run_inv_over hbody hbody' hentry hentry' ?_ ?_ hstart hmeets fun _ _ _ => trivial
  · rintro β t (o | ⟨a, b⟩) ⟨w, g⟩ ls hI hpre -
    · exact inv_step hI o hpre fun h => by cases h
    · exact ⟨ls t, rfl, by rwa [Function.update_eq_self]⟩
  · rintro β t (o | ⟨a, b⟩) ⟨w, g⟩ ls ms l' hI hJ - hpre hguard - -
    · exact ⟨_, rfl, hJ.exec hI.table hguard⟩
    · exact ⟨_, rfl, hJ.answer hpre⟩

/-- **Mailboxes of dead agents do not come back**, in every run in which, until the kernel
is shut down, whoever looks up the mailbox of a terminal agent after it was dropped finds
one. -/
theorem staysClosed_of_noRevival {n : ℕ} (cfg : KernelConfig) (out : Outside) (quota : Quota)
    (as : List (Act (Tid n) KernelCall))
    (hmeets : (answeringSystem n cfg out).Meets NoRevival (answeringBoot n quota) as) :
    StaysClosed ((answeringSystem n cfg out).run (answeringBoot n quota) as).shared := by
  obtain ⟨xs, ⟨-, hsighted⟩, -⟩ := sighted_run cfg out quota as hmeets
  exact fun hstop p hp => (hsighted.closed p hp).absent hstop

/-- The message is sent while its consumer is alive; the consumer is then killed, and its
mailbox stays away while the worker goes on. -/
theorem staysClosed_of_noRevival_sent_before :
    ∃ as : List (Act (Tid 1) KernelCall),
      let s := ((answeringSystem 1 { pager := {}, host := .inert } (.calm ⟨"hi", 1, 1, 2⟩)).run
        (answeringBoot 1 ⟨5, 5⟩) as).shared
      s.2.closed = [2] ∧ s.1.stop = false ∧ StaysClosed s := by
  refine ⟨Act.call (.client 0) (.spawn { prompt := "a", pipeTo := some 2 }) ::
    (steps 4 (.client 0) ++ Act.call (.client 0) (.spawn { prompt := "b" }) ::
      (steps 4 (.client 0) ++ steps 31 (.worker 0) ++ Act.call (.client 0) (.kill 9 2) ::
        (steps 11 (.client 0) ++ steps 6 (.worker 0)))), by decide +kernel, by decide +kernel, ?_⟩
  exact staysClosed_of_noRevival _ _ _ _ (by decide +kernel)

end Gcos.Pool
