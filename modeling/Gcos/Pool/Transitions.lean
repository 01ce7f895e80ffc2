import Gcos.Pool.Labour
import Gcos.Pool.Following
import Gcos.Pool.Runs

/-!
# Which transitions happen

`transition` performs every transition that it is asked for, and only logs those outside
`_LEGAL_TRANSITIONS`.  No run of the thread backend comes to that.  From a live state other
than `NEW` every other state but `NEW` may be reached, and nobody asks for `NEW`; so it is
enough that the workers, who ask for all the rest, never see an agent that is still `NEW`.
They work on agents that were put into the ready queue, and `put` has moved those to
`READY`.  The callers may meet a `NEW` agent, but they only ask for `READY`, `WAITING` and
`ZOMBIE`.
-/

namespace Gcos

open Lib

/-- The transition that an operation asks for. -/
def KOp.moves : {β : Type} → KOp β → Option (Pid × AgentState)
  | _, .write p (.transition st) => some (p, st)
  | _, .put p => some (p, .ready)
  | _, _ => none

namespace AgentState

/-- From a live state that is not `NEW` everything is legal but `NEW`. -/
lemma legal_of_ne_new {s st : AgentState} (hlive : s.isTerminal = false) (hs : s ≠ .new)
    (hst : st ≠ .new) (hne : st ≠ s) : legal s st = true := by
  cases s <;> cases st <;> simp_all [legal, isTerminal]

/-- The states that the callers ask for may be reached from every live state. -/
lemma legal_of_called {s st : AgentState} (hlive : s.isTerminal = false)
    (hst : st = .ready ∨ st = .waiting ∨ st = .zombie) (hne : st ≠ s) : legal s st = true := by
  cases s <;> cases st <;> simp_all [legal, isTerminal]

end AgentState

namespace Pool

open World AgentControlBlock

variable {n : ℕ} {cfg : KernelConfig} {out : Outside} {t : Tid n} {w : World n} {β : Type}

/-! ### The life of a block -/

/-- What a transition changes. -/
def life (pcb : AgentControlBlock) : AgentState × Option Time × Option Time :=
  (pcb.state, pcb.startedAt, pcb.finishedAt)

lemma life_apply {c : Write} (hc : ∀ st, c ≠ .transition st) (clock : ℕ → Time)
    (pcb : AgentControlBlock) : life (c.apply clock pcb) = life pcb := by
  cases c with
  | transition st => exact absurd rfl (hc st)
  | _ => rfl

/-- The life of a block that exists is changed by the transitions that are asked for. -/
lemma life_exec (cfg : KernelConfig) (out : Outside) (t : Tid n) {p : Pid}
    (hp : Allocated w.nextPid p) (o : KOp β) :
    life ((exec cfg out t o w).2.pcbs p) = life (w.pcbs p) ∨
      ∃ st now, o.moves = some (p, st) ∧
        life ((exec cfg out t o w).2.pcbs p) = life ((w.pcbs p).transition st now) := by
  have hstep := pcb_exec cfg out t o hp.2.ne
  generalize (exec cfg out t o w).2.pcbs p = b at hstep ⊢
  cases hstep with
  | write c =>
    by_cases hc : ∃ st, c = .transition st
    · obtain ⟨st, rfl⟩ := hc
      exact .inr ⟨st, _, rfl, rfl⟩
    · exact .inl (life_apply (fun st hst => hc ⟨st, hst⟩) _ _)
  | put _ => exact .inr ⟨.ready, out.clock w.ticks, rfl, rfl⟩
  | same => exact .inl rfl

/-- The start time is set by the first transition to `RUNNING`. -/
lemma startedAt_transition (pcb : AgentControlBlock) (st : AgentState) (now : Time) :
    (pcb.transition st now).startedAt.isSome = true ↔
      pcb.startedAt.isSome = true ∨
        (pcb.transition st now).state = .running ∧ pcb.state ≠ .running := by
  cases hlive : pcb.isTerminal with
  | true =>
    rw [transition_of_isTerminal pcb st now hlive]
    simp
  | false =>
    by_cases hst : st = pcb.state
    · rw [transition, if_pos hst]
      simp
    · rw [transition_of_live pcb st now hlive hst]
      by_cases hrun : st = .running
      · subst hrun
        cases hstart : pcb.startedAt with
        | none => simpa using Ne.symm hst
        | some time => simp
      · simp [hrun]

/-- What one operation may do to a block that exists. -/
structure Lives (b b' : AgentControlBlock) : Prop where
  legal : b'.state = b.state ∨ AgentState.legal b.state b'.state = true
  started : b'.startedAt.isSome = true ↔
    b.startedAt.isSome = true ∨ b'.state = .running ∧ b.state ≠ .running
  stamped : b.Stamped → b'.Stamped

lemma lives_of_life_eq {b b' b'' : AgentControlBlock} (h : Lives b b') (heq : life b'' = life b') :
    Lives b b'' := by
  obtain ⟨hstate, htimes⟩ := Prod.mk.inj heq
  obtain ⟨hstart, hfinish⟩ := Prod.mk.inj htimes
  refine ⟨?_, ?_, fun hb => ?_⟩
  · rw [hstate]
    exact h.legal
  · rw [hstart, hstate]
    exact h.started
  · have hstamp := h.stamped hb
    unfold Stamped isTerminal at hstamp ⊢
    rwa [hfinish, hstate]

lemma Lives.refl (b : AgentControlBlock) : Lives b b := ⟨.inl rfl, by simp, fun h => h⟩

/-- A transition whose target is legal wherever it leads. -/
lemma lives_transition {b : AgentControlBlock} {st : AgentState} {now : Time}
    (h : b.isTerminal = false → st ≠ b.state → AgentState.legal b.state st = true) :
    Lives b (b.transition st now) := by
  refine ⟨?_, startedAt_transition b st now, fun hb => hb.transition st now⟩
  cases hlive : b.isTerminal with
  | true => exact .inl (by rw [transition_of_isTerminal b st now hlive])
  | false =>
    rw [state_transition_of_live b st now hlive]
    by_cases hst : st = b.state
    · exact .inl hst
    · exact .inr (h hlive hst)

/-! ### Who asks for what -/

/-- Nobody asks for `NEW`, and callers ask for three states only. -/
def Asks (t : Tid n) : Prog.Class KOp := fun o =>
  ∀ p st, o.moves = some (p, st) →
    st ≠ .new ∧ (t.isWorker = false → st = .ready ∨ st = .waiting ∨ st = .zombie)

lemma asks_of_labours {i : Fin n} (o : KOp β) (ho : o.labours = true) :
    Asks (.worker i : Tid n) o := by
  rintro p st hmoves
  refine ⟨?_, fun h => by cases h⟩
  rintro rfl
  cases o with
  | write q c =>
    cases c with
    | transition st =>
      cases hmoves
      cases ho
    | _ => cases hmoves
  | put q => cases hmoves
  | _ => cases hmoves

/-- The calls other than `spawn` only kill. -/
lemma asks_of_callOp {k : ℕ} (o : KOp β) (ho : CallOp false o) : Asks (.client k : Tid n) o := by
  intro p st hmoves
  cases o with
  | write q c =>
    cases c with
    | transition st' =>
      cases hmoves
      cases st with
      | zombie => exact ⟨by simp, by simp⟩
      | _ => exact ho.elim
    | _ => cases hmoves
  | put q => exact ho.elim
  | _ => cases hmoves

lemma asks_spawn (k : ℕ) (args : SpawnArgs) :
    (Kernel.spawn args).Only (Asks (.client k : Tid n)) := by
  have hmute : ∀ {β : Type} (o : KOp β), o.moves = none → Asks (.client k : Tid n) o := by
    intro β o ho p st hmoves
    rw [ho] at hmoves
    cases hmoves
  have hwait : ∀ p, Asks (.client k : Tid n) (.write p (.transition .waiting)) := by
    rintro p q st ⟨⟩
    exact ⟨by simp, by simp⟩
  have hput : ∀ p, Asks (.client k : Tid n) (.put p) := by
    rintro p q st ⟨⟩
    exact ⟨by simp, by simp⟩
  refine Prog.Only.step (hmute _ rfl) fun pid => Prog.Only.step (hmute _ rfl) fun added => ?_
  split
  · refine Prog.Only.bind ?_ fun _ => ?_
    · unfold Kernel.linkParent
      split
      · trivial
      · refine Prog.Only.step (hmute _ rfl) fun found => ?_
        split
        · exact Prog.only_perform (hmute _ rfl)
        · trivial
    · refine (Prog.only_when (Prog.only_perform (hwait pid))).bind fun _ => ?_
      exact Prog.Only.step (hput pid) fun _ => trivial
  · trivial

lemma asks_code (k : ℕ) (c : KernelCall) : c.code.Only (Asks (.client k : Tid n)) := by
  cases c with
  | spawn args => exact (asks_spawn k args).bind fun _ => trivial
  | kill fuel pid => exact ((only_kill fuel pid).mono asks_of_callOp).bind fun _ => trivial
  | reapTerminal => exact (only_reapTerminal.mono asks_of_callOp).bind fun _ => trivial
  | topup amount => exact ((only_quotaTopup amount).mono asks_of_callOp).bind fun _ => trivial
  | shutdown =>
    have h : Kernel.shutdown.Only (CallOp false) :=
      Prog.Only.step rfl fun _ => Prog.Only.step trivial fun pids => only_dropAll pids
    exact h.mono asks_of_callOp

/-- The threads of a run ask for nothing else. -/
lemma asks_run (cfg : KernelConfig) (out : Outside) (quota : Quota)
    (as : List (Act (Tid n) KernelCall)) (t : Tid n) :
    (((kernelSystem n cfg out).run (boot n quota) as).code t).Only (Asks t) := by
  have hstart : ∀ t, ((boot n quota).code t).Only (Asks t) := fun _ => trivial
  refine System.only_run ?_ ?_ hstart as t
  · intro t
    cases t with
    | worker i => exact labour_loopBody.mono fun o ho => asks_of_labours o ho
    | client k => trivial
  · intro t c hserves
    cases t with
    | worker i => cases hserves
    | client k => exact (asks_code k c).bind fun _ => trivial

/-! ### One operation -/

/-- No agent that was put into the ready queue is still `NEW`. -/
def Roused (w : World n) : Prop := ∀ p ∈ w.enqueued, (w.pcbs p).state ≠ .new

/-- A worker asks for transitions of the agent that it holds, or puts it back. -/
lemma held_of_moves {rules : Rules} {ls : Tid n → Note} {o : KOp β} {p : Pid} {st : AgentState}
    (hI : Inv rules w ls) (hpre : (ls t).allows rules o) (hmoves : o.moves = some (p, st)) :
    t.isWorker = false ∨ p ∈ w.enqueued := by
  rw [← hI.role t]
  have hheld : (w.loc t).held = some p → p ∈ w.enqueued := fun h => (hI.owned.held t p h).1
  rw [hI.hand t] at hheld
  cases o with
  | write q c =>
    cases c with
    | transition st' =>
      cases hmoves
      cases hl : ls t with
      | holding q busy units replied dead calls =>
        rw [hl] at hpre hheld
        obtain rfl : q = p := hpre.1
        exact .inr (hheld rfl)
      | worker => rw [hl] at hpre; exact hpre.elim
      | released => rw [hl] at hpre; exact hpre.elim
      | caller ps d => exact .inl rfl
      | spawning q => exact .inl rfl
    | _ => cases hmoves
  | put q =>
    cases hmoves
    rcases hpre with hl | ⟨dead, calls, hl⟩
    · rw [hl]
      exact .inl rfl
    · rw [hl] at hheld
      exact .inr (hheld rfl)
  | _ => cases hmoves

/-- **The step lemma.**  Whatever the next operation is, the blocks that exist follow
`_LEGAL_TRANSITIONS`. -/
lemma lives_exec {rules : Rules} {ls : Tid n → Note} {o : KOp β} (hI : Inv rules w ls)
    (hw : Roused w) (hpre : (ls t).allows rules o) (hasks : Asks t o) {p : Pid}
    (hp : Allocated w.nextPid p) : Lives (w.pcbs p) ((exec cfg out t o w).2.pcbs p) := by
  rcases life_exec cfg out t hp o with hlife | ⟨st, now, hmoves, hlife⟩
  · exact lives_of_life_eq (.refl _) hlife
  · refine lives_of_life_eq (lives_transition fun hlive hne => ?_) hlife
    obtain ⟨hnew, hcaller⟩ := hasks p st hmoves
    rcases held_of_moves hI hpre hmoves with hclient | henq
    · exact AgentState.legal_of_called hlive (hcaller hclient) hne
    · exact AgentState.legal_of_ne_new hlive (hw p henq) hnew hne

/-- Outside the queue only a `put` of a new agent makes a difference, and that one wakes it. -/
lemma roused_exec {rules : Rules} {ls : Tid n → Note} {o : KOp β} (hI : Inv rules w ls)
    (hw : Roused w) (hasks : Asks t o) : Roused (exec cfg out t o w).2 := by
  intro p hp
  have hold : p ∈ w.enqueued → ((exec cfg out t o w).2.pcbs p).state ≠ .new := by
    intro henq
    rcases life_exec cfg out t (hI.owned.allocated p henq) o with hlife | ⟨st, now, hmoves, hlife⟩
    · rw [(Prod.mk.inj hlife).1]
      exact hw p henq
    · rw [(Prod.mk.inj hlife).1]
      cases hlive : (w.pcbs p).isTerminal with
      | true =>
        rw [transition_of_isTerminal _ _ _ hlive]
        exact hw p henq
      | false =>
        rw [state_transition_of_live _ _ _ hlive]
        exact (hasks p st hmoves).1
  cases o with
  | put q =>
    rcases exec_put cfg out t w q with ⟨-, -, -, -, henq⟩ | ⟨hlive, -, hpcbs, -, henq⟩
    · rw [henq] at hp
      exact hold hp
    · by_cases hq : p = q
      · subst hq
        rw [hpcbs, Function.update_self, state_transition_of_live _ _ _ hlive]
        simp
      · refine hold ?_
        rw [henq] at hp
        split at hp
        · exact (List.mem_append.1 hp).resolve_right fun h => hq (List.mem_singleton.1 h)
        · exact hp
  | popQueued q => exact hold hp
  | pickNext =>
    refine hold ?_
    simp only [exec] at hp
    split at hp <;> exact hp
  | _ =>
    rw [enqueued_exec rfl] at hp
    exact hold hp

/-- A block that an operation has created. -/
lemma life_of_created {o : KOp β} {p : Pid} (hp : ¬Allocated w.nextPid p)
    (hp' : Allocated (exec cfg out t o w).2.nextPid p) :
    life ((exec cfg out t o w).2.pcbs p) = (.new, none, none) := by
  cases o with
  | newPcb args =>
    have hle : p < (w.nextPid : ℤ) + 1 := by exact_mod_cast hp'.2
    have hge : (w.nextPid : ℤ) ≤ p := not_lt.1 fun hlt => hp ⟨hp'.1, hlt⟩
    obtain rfl : p = (w.nextPid : ℤ) := le_antisymm (Int.lt_add_one_iff.1 hle) hge
    simp only [exec, note, Function.update_self]
    rfl
  | _ =>
    rw [nextPid_exec rfl] at hp'
    exact absurd hp' hp

/-! ### Runs -/

/-- The world after a schedule. -/
def worldAfter (cfg : KernelConfig) (out : Outside) (quota : Quota)
    (as : List (Act (Tid n) KernelCall)) : World n :=
  ((kernelSystem n cfg out).run (boot n quota) as).shared

section Runs

variable (cfg : KernelConfig) (out : Outside) (quota : Quota) (as : List (Act (Tid n) KernelCall))
  (a : Act (Tid n) KernelCall)

/-- What a schedule does to the world, one operation further. -/
lemma worldAfter_concat :
    worldAfter cfg out quota (as ++ [a]) = worldAfter cfg out quota as ∨
      ∃ (t : Tid n) (β : Type) (o : KOp β) (ls : Tid n → Note),
        Inv {} (worldAfter cfg out quota as) ls ∧ (ls t).allows {} o ∧ Asks t o ∧
          worldAfter cfg out quota (as ++ [a]) =
            (exec cfg out t o (worldAfter cfg out quota as)).2 := by
  set pool := (kernelSystem n cfg out).run (boot n quota) as with hpool
  have hnext : worldAfter cfg out quota (as ++ [a]) =
      ((kernelSystem n cfg out).next pool a).shared := by
    simp only [worldAfter, System.run, List.foldl_append, List.foldl_cons, List.foldl_nil, hpool]
  rw [hnext]
  rcases (kernelSystem n cfg out).shared_next pool a with heq | ⟨t, β, o, k, hcode, heq⟩
  · exact .inl heq
  · obtain ⟨ls, hI, hobeys⟩ := sound_run (n := n) {} cfg out quota (by simp [Rules.Fits]) (by simp)
      as (by simp) (by simp)
    have ht := hobeys t
    have honly := asks_run cfg out quota as t
    rw [← hpool, hcode] at ht honly
    exact .inr ⟨t, β, o, ls, hI, ht.1, honly.1, heq⟩

lemma roused_run : Roused (worldAfter cfg out quota as) := by
  induction as using List.reverseRecOn with
  | nil => exact fun p hp => nomatch hp
  | append_singleton as a ih =>
    rcases worldAfter_concat cfg out quota as a with heq | ⟨t, β, o, ls, hI, -, hasks, heq⟩
    · rwa [heq]
    · rw [heq]
      exact roused_exec hI ih hasks

lemma lives_run {p : Pid} (hp : Allocated (worldAfter cfg out quota as).nextPid p) :
    Lives ((worldAfter cfg out quota as).pcbs p) ((worldAfter cfg out quota (as ++ [a])).pcbs p) := by
  rcases worldAfter_concat cfg out quota as a with heq | ⟨t, β, o, ls, hI, hpre, hasks, heq⟩
  · rw [heq]
    exact .refl _
  · rw [heq]
    exact lives_exec hI (roused_run cfg out quota as) hpre hasks hp

/-- What was created in the last step of a schedule. -/
lemma life_of_created_run {p : Pid} (hp : ¬Allocated (worldAfter cfg out quota as).nextPid p)
    (hp' : Allocated (worldAfter cfg out quota (as ++ [a])).nextPid p) :
    life ((worldAfter cfg out quota (as ++ [a])).pcbs p) = (.new, none, none) := by
  rcases worldAfter_concat cfg out quota as a with heq | ⟨t, β, o, ls, -, -, -, heq⟩
  · rw [heq] at hp'
    exact absurd hp' hp
  · rw [heq] at hp' ⊢
    exact life_of_created hp hp'

lemma allocated_run {pre : List (Act (Tid n) KernelCall)} (hpre : pre <+: as) {p : Pid}
    (hp : Allocated (worldAfter cfg out quota pre).nextPid p) :
    Allocated (worldAfter cfg out quota as).nextPid p := by
  induction as using List.reverseRecOn with
  | nil => rwa [List.prefix_nil.1 hpre] at hp
  | append_singleton as a ih =>
    rcases List.prefix_concat_iff.1 hpre with rfl | hpre
    · exact hp
    · rcases worldAfter_concat cfg out quota as a with heq | ⟨t, β, o, ls, -, -, -, heq⟩
      · rw [heq]
        exact ih hpre
      · rw [heq]
        exact ⟨(ih hpre).1, (ih hpre).2.trans_le (by exact_mod_cast nextPid_le_exec)⟩

/-- The blocks of a run are stamped with the end of their agents. -/
lemma stamped_run {p : Pid} (hp : Allocated (worldAfter cfg out quota as).nextPid p) :
    ((worldAfter cfg out quota as).pcbs p).Stamped := by
  induction as using List.reverseRecOn with
  | nil => exact rfl
  | append_singleton as a ih =>
    by_cases hold : Allocated (worldAfter cfg out quota as).nextPid p
    · exact (lives_run cfg out quota as a hold).stamped (ih hold)
    · have hlife := life_of_created_run cfg out quota as a hold hp
      obtain ⟨hstate, htimes⟩ := Prod.mk.inj hlife
      rw [Stamped, isTerminal, hstate, (Prod.mk.inj htimes).2]
      rfl

/-- The agent `p` was `RUNNING` at some time of the schedule. -/
def HasRun (p : Pid) : Prop :=
  ∃ pre, pre <+: as ∧ Allocated (worldAfter cfg out quota pre).nextPid p ∧
    ((worldAfter cfg out quota pre).pcbs p).state = .running

lemma hasRun_concat {p : Pid} (hp : Allocated (worldAfter cfg out quota (as ++ [a])).nextPid p) :
    HasRun cfg out quota (as ++ [a]) p ↔
      HasRun cfg out quota as p ∨
        ((worldAfter cfg out quota (as ++ [a])).pcbs p).state = .running := by
  constructor
  · rintro ⟨pre, hpre, halloc, hrun⟩
    rcases List.prefix_concat_iff.1 hpre with rfl | hpre
    · exact .inr hrun
    · exact .inl ⟨pre, hpre, halloc, hrun⟩
  · rintro (⟨pre, hpre, halloc, hrun⟩ | hrun)
    · exact ⟨pre, hpre.trans (List.prefix_append as [a]), halloc, hrun⟩
    · exact ⟨as ++ [a], List.prefix_rfl, hp, hrun⟩

/-- The start time of a block is set exactly when its agent has been `RUNNING`. -/
lemma startedAt_run {p : Pid} (hp : Allocated (worldAfter cfg out quota as).nextPid p) :
    ((worldAfter cfg out quota as).pcbs p).startedAt.isSome = true ↔ HasRun cfg out quota as p := by
  -- by induction on the schedule; only a step to `RUNNING` makes a difference on either side
  induction as using List.reverseRecOn with
  | nil =>
    have hlt : p < (1 : ℤ) := by exact_mod_cast hp.2
    exact absurd hp.1 (not_le.2 hlt)
  | append_singleton as a ih =>
    rw [hasRun_concat cfg out quota as a hp]
    by_cases hold : Allocated (worldAfter cfg out quota as).nextPid p
    · rw [(lives_run cfg out quota as a hold).started, ih hold]
      refine ⟨fun h => h.imp_right And.left, fun h => ?_⟩
      rcases h with h | hrun
      · exact .inl h
      · by_cases hran : ((worldAfter cfg out quota as).pcbs p).state = .running
        · exact .inl ⟨as, List.prefix_rfl, hold, hran⟩
        · exact .inr ⟨hrun, hran⟩
    · obtain ⟨hstate, htimes⟩ := Prod.mk.inj (life_of_created_run cfg out quota as a hold hp)
      have hnever : ¬HasRun cfg out quota as p := by
        rintro ⟨pre, hpre, halloc, -⟩
        exact hold (allocated_run cfg out quota as hpre halloc)
      rw [(Prod.mk.inj htimes).1, hstate]
      simp [hnever]

end Runs

/-- **Only legal transitions happen.**  In every run of the thread backend, whatever the
scheduler, the outside world, the callers and the interleaving, every change of the state
of a block follows an edge of `_LEGAL_TRANSITIONS`; and at any time the start time of a
block is set exactly when its agent has been `RUNNING`, the end time exactly when it is
terminal. -/
theorem legal_of_run (cfg : KernelConfig) (out : Outside) (quota : Quota)
    (as : List (Act (Tid n) KernelCall)) :
    (∀ pre a p, pre ++ [a] <+: as →
      let before := worldAfter cfg out quota pre
      let after := worldAfter cfg out quota (pre ++ [a])
      Allocated before.nextPid p → (after.pcbs p).state ≠ (before.pcbs p).state →
        AgentState.legal (before.pcbs p).state (after.pcbs p).state = true) ∧
    ∀ p, Allocated (worldAfter cfg out quota as).nextPid p →
      let pcb := (worldAfter cfg out quota as).pcbs p
      (pcb.startedAt.isSome = true ↔ HasRun cfg out quota as p) ∧
        (pcb.finishedAt.isSome = true ↔ pcb.isTerminal = true) := by
  constructor
  · intro pre a p _ before after hp hne
    exact (lives_run cfg out quota pre a hp).legal.resolve_left hne
  · intro p hp pcb
    refine ⟨startedAt_run cfg out quota as hp, ?_⟩
    rw [show pcb.finishedAt.isSome = pcb.isTerminal from stamped_run cfg out quota as hp]

end Pool

end Gcos
