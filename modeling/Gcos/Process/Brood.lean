import Gcos.Process.Custody

/-!
# The child processes and their workers

What the operations can do to a child process, and what the notes of the workers say about
the children.  A child that is not at its end belongs to a worker: the one that has forked
it and holds its agent.  Once it is in the registry it stays there until it is reaped, and
a child is reaped only after its pipe was read to the end, so only at its own end.
-/

namespace Gcos.Process

open Lib Pool World

variable {n : ℕ} {cfg : KernelConfig} {out : Outside} {kids : ℕ → Offspring} {t : Tid n} {β : Type}
  {o : FOp β} {f : Fleet n} {ls : Tid n → Desk} {l l' : Desk} {p : Pid} {s s' : Stage}
  {c c' : ChildProc n} {k : ℕ}

/-! ### What can become of a child -/

/-- The child performs no more operations. -/
def ChildProc.ended (c : ChildProc n) : Bool :=
  match c.phase with
  | .running | .writing => false
  | .reported | .dead _ => true

/-- What one operation of anybody makes of a child. -/
structure ChildProc.Later (c c' : ChildProc n) : Prop where
  agent : c'.agent = c.agent
  worker : c'.worker = c.worker
  memory : c'.memory = c.memory
  ended : c.ended = true → c'.phase = c.phase ∧ c'.ops = c.ops
  signalled : c.signalled = true → c'.signalled = true
  killed : c.ended = false → ∀ torn, c'.phase = .dead torn → c'.signalled = true

namespace ChildProc

lemma Later.refl (c : ChildProc n) : c.Later c where
  agent := rfl
  worker := rfl
  memory := rfl
  ended := fun _ => ⟨rfl, rfl⟩
  signalled := id
  killed := by
    intro h torn hdead
    rw [ChildProc.ended, hdead] at h
    cases h

lemma Later.of_ended (h : c.Later c') (hc : c.ended = true) : c'.ended = true := by
  rw [ChildProc.ended, (h.ended hc).1]
  exact hc

lemma later_move (kid : Offspring) (c : ChildProc n) : c.Later (c.move cfg kid) := by
  cases hphase : c.phase with
  | running =>
    simp only [move, hphase]
    split
    · exact ⟨rfl, rfl, rfl, fun h => by simp [ended, hphase] at h, id, fun _ _ h => by cases h⟩
    · exact ⟨rfl, rfl, rfl, fun h => by simp [ended, hphase] at h, id, fun _ _ h => by cases h⟩
  | writing =>
    simp only [move, hphase]
    exact ⟨rfl, rfl, rfl, fun h => by simp [ended, hphase] at h, id, fun _ _ h => by cases h⟩
  | reported | dead torn =>
    simp only [move, hphase]
    exact .refl c

lemma later_finish (kid : Offspring) (c : ChildProc n) : c.Later (c.finish cfg kid) := by
  cases hphase : c.phase with
  | running | writing =>
    simp only [finish, hphase]
    exact ⟨rfl, rfl, rfl, fun h => by simp [ended, hphase] at h, id, fun _ _ h => by cases h⟩
  | reported | dead torn =>
    simp only [finish, hphase]
    exact .refl c

lemma ended_finish (kid : Offspring) (c : ChildProc n) : (c.finish cfg kid).ended = true := by
  cases hphase : c.phase <;> simp [finish, ended, hphase]

lemma later_strike (c : ChildProc n) : c.Later c.strike := by
  unfold strike
  split
  · exact .refl c
  · refine ⟨rfl, rfl, rfl, fun h => ?_, fun _ => rfl, fun _ _ _ => rfl⟩
    cases hphase : c.phase with
    | running | writing => simp [ended, hphase] at h
    | reported | dead torn => exact ⟨by simp, rfl⟩

lemma later_reaped (c : ChildProc n) : c.Later { c with reaped := true } :=
  ⟨rfl, rfl, rfl, fun _ => ⟨rfl, rfl⟩, id, (Later.refl c).killed⟩

lemma reaped_strike (c : ChildProc n) : c.strike.reaped = c.reaped := by
  unfold strike
  split <;> rfl

lemma reaped_move (kid : Offspring) (c : ChildProc n) : (c.move cfg kid).reaped = c.reaped := by
  unfold move
  split
  · split <;> rfl
  · rfl
  · rfl
  · rfl

lemma reaped_finish (kid : Offspring) (c : ChildProc n) :
    (c.finish cfg kid).reaped = c.reaped := by
  unfold finish
  split <;> rfl

end ChildProc

namespace Fleet

lemma getElem_adjust (f : Fleet n) (k : ℕ) (g : ChildProc n → ChildProc n) (j : ℕ) :
    (f.adjust k g).procs[j]? = if k = j then f.procs[j]?.map g else f.procs[j]? := by
  rw [adjust, List.getElem?_modify]
  split
  · rfl
  · simp

/-- What an operation makes of child `j`. -/
inductive Turn (cfg : KernelConfig) (kids : ℕ → Offspring) (j : ℕ) (c : ChildProc n) :
    {β : Type} → FOp β → ChildProc n → Prop
  | same {β : Type} (o : FOp β) : Turn cfg kids j c o c
  | struck {β : Type} (o : FOp β) : Turn cfg kids j c o c.strike
  | reaped (p : Pid) : Turn cfg kids j c (.inr (.reap p j)) { c with reaped := true }
  | heard : Turn cfg kids j c (.inr (.readAll j)) (c.finish cfg (kids j))
  | moved : Turn cfg kids j c (.inr (.childMoves j)) (c.move cfg (kids j))

/-- One child changes. -/
lemma turn_adjust {g : ChildProc n → ChildProc n} {j : ℕ} (hc : f.procs[j]? = some c)
    (hturn : k = j → Turn cfg kids j c o (g c)) :
    ∃ c', (f.adjust k g).procs[j]? = some c' ∧ Turn cfg kids j c o c' := by
  rw [getElem_adjust, hc]
  split
  · next hk => exact ⟨g c, rfl, hturn hk⟩
  · exact ⟨c, rfl, .same o⟩

/-- **What an operation makes of a child.** -/
lemma turn_exec {j : ℕ} (hc : f.procs[j]? = some c) :
    ∃ c', (exec cfg out kids t o f).2.procs[j]? = some c' ∧ Turn cfg kids j c o c' := by
  rcases o with o | o
  · exact ⟨c, hc, .same _⟩
  · cases o with
    | fork p =>
      have hj : j < f.procs.length := (List.getElem?_eq_some_iff.1 hc).1
      exact ⟨c, by rw [← hc]; exact List.getElem?_append_left hj, .same _⟩
    | register p k | lookup p => exact ⟨c, hc, .same _⟩
    | readAll k =>
      refine turn_adjust hc ?_
      rintro rfl
      exact .heard
    | reap p k =>
      refine turn_adjust (g := fun c => { c with reaped := true }) hc ?_
      rintro rfl
      exact .reaped p
    | signal k => exact turn_adjust hc fun _ => .struck _
    | signalAll =>
      simp only [exec, List.getElem?_mapIdx, hc, Option.map_some]
      refine ⟨_, rfl, ?_⟩
      split
      · exact .struck _
      · exact .same _
    | childMoves k =>
      refine turn_adjust hc ?_
      rintro rfl
      exact .moved

lemma Turn.later {j : ℕ} (h : Turn cfg kids j c o c') : c.Later c' := by
  cases h with
  | same => exact .refl c
  | struck => exact c.later_strike
  | reaped p => exact c.later_reaped
  | heard => exact c.later_finish (kids j)
  | moved => exact c.later_move (kids j)

/-- The child that is waited for. -/
def reaps : {β : Type} → FOp β → Option ℕ
  | _, .inr (.reap _ k) => some k
  | _, _ => none

lemma Turn.reaped_cases {j : ℕ} (h : Turn cfg kids j c o c') (hr : c'.reaped = true) :
    c.reaped = true ∨ reaps o = some j := by
  cases h with
  | same => exact .inl hr
  | struck => exact .inl (c.reaped_strike.symm.trans hr)
  | reaped p => exact .inr rfl
  | heard => exact .inl ((c.reaped_finish (kids j)).symm.trans hr)
  | moved => exact .inl ((c.reaped_move (kids j)).symm.trans hr)

/-- The children are where they were. -/
lemma later_exec {j : ℕ} (hc : f.procs[j]? = some c) :
    ∃ c', (exec cfg out kids t o f).2.procs[j]? = some c' ∧ c.Later c' := by
  obtain ⟨c', hc', hturn⟩ : ∃ c', (exec cfg out kids t o f).2.procs[j]? = some c' ∧
    Turn cfg kids j c o c' := turn_exec hc
  exact ⟨c', hc', hturn.later⟩

/-- The agent that is given a child. -/
def forks : {β : Type} → FOp β → Option Pid
  | _, .inr (.fork p) => some p
  | _, _ => none

/-- A new child is one that was just forked. -/
lemma born_exec {j : ℕ} (hc : f.procs[j]? = none)
    (hc' : (exec cfg out kids t o f).2.procs[j]? = some c') :
    ∃ p, forks o = some p ∧ j = f.procs.length ∧
      c' = { agent := p, worker := t, memory := f.world } := by
  have hadjust : ∀ {k : ℕ} {g : ChildProc n → ChildProc n},
      (f.adjust k g).procs[j]? ≠ some c' := by
    intro k g h
    rw [getElem_adjust, hc] at h
    split at h <;> cases h
  rcases o with o | o
  · exact absurd (hc.symm.trans hc') (by simp)
  · cases o with
    | fork p =>
      have hj : f.procs.length ≤ j := List.getElem?_eq_none_iff.1 hc
      have hnew : [({ agent := p, worker := t, memory := f.world } : ChildProc n)][j -
          f.procs.length]? = some c' := by
        rw [← hc']
        exact (List.getElem?_append_right hj).symm
      obtain ⟨hlt, heq⟩ := List.getElem?_eq_some_iff.1 hnew
      have hzero : j - f.procs.length = 0 := by simpa using hlt
      refine ⟨p, rfl, by omega, ?_⟩
      rw [← heq]
      simp [hzero]
    | register p k | lookup p => exact absurd (hc.symm.trans hc') (by simp)
    | readAll k => exact absurd hc' hadjust
    | reap p k => exact absurd hc' hadjust
    | signal k => exact absurd hc' hadjust
    | signalAll => simp [exec, hc] at hc'
    | childMoves k => exact absurd hc' hadjust

/-- A child that is there now was there before, or was just forked. -/
lemma child_cases {j : ℕ} (hc' : (exec cfg out kids t o f).2.procs[j]? = some c') :
    (∃ c, f.procs[j]? = some c ∧ Turn cfg kids j c o c') ∨
      ∃ p, forks o = some p ∧ j = f.procs.length ∧
        c' = { agent := p, worker := t, memory := f.world } := by
  cases hc : f.procs[j]? with
  | none => exact .inr (born_exec hc hc')
  | some c =>
    obtain ⟨c₁, hc₁, hturn⟩ : ∃ c₁, (exec cfg out kids t o f).2.procs[j]? = some c₁ ∧
      Turn cfg kids j c o c₁ := turn_exec hc
    rw [hc'] at hc₁
    cases hc₁
    exact .inl ⟨c, rfl, hturn⟩

end Fleet

/-! ### What the workers know of the children -/

lemma Stage.bond_read (s : Stage) (b : AgentControlBlock) : (s.read b).bond = s.bond := by
  cases s with
  | picked =>
    simp only [Stage.read]
    split <;> rfl
  | _ => rfl

/-- The thread knows the same child as before. -/
def SameBond (l l' : Desk) : Prop :=
  (∀ p s x, l' = .holding p s → s.bond = some x → ∃ s₀, l = .holding p s₀ ∧ s₀.bond = some x) ∧
    ∀ p s x, l = .holding p s → s.bond = some x → ∃ s', l' = .holding p s' ∧ s'.bond = some x

lemma SameBond.refl (l : Desk) : SameBond l l :=
  ⟨fun _ s _ h hs => ⟨s, h, hs⟩, fun _ s _ h hs => ⟨s, h, hs⟩⟩

/-- A thread that knows no child. -/
lemma SameBond.of_none (hl : ∀ p s, l = .holding p s → s.bond = none)
    (hl' : ∀ p s, l' = .holding p s → s.bond = none) : SameBond l l' := by
  refine ⟨fun p s x h hs => ?_, fun p s x h hs => ?_⟩
  · rw [hl' p s h] at hs
    cases hs
  · rw [hl p s h] at hs
    cases hs

lemma SameBond.of_eq (h : s'.bond = s.bond) : SameBond (.holding p s) (.holding p s') := by
  refine ⟨fun q r x hq hx => ?_, fun q r x hq hx => ?_⟩
  · cases hq
    exact ⟨s, rfl, by rw [← h, hx]⟩
  · cases hq
    exact ⟨s', rfl, by rw [h, hx]⟩

/-- What an operation of the kernel makes of the note of a thread. -/
inductive Desk.Shift : Desk → Desk → Prop
  | same (l : Desk) : Shift l l
  | read (p : Pid) (s : Stage) (b : AgentControlBlock) : Shift (holding p s) (holding p (s.read b))
  | call (l l' : Desk) (hl : l.isWorker = false) (hl' : l'.isWorker = false) : Shift l l'
  | picked (p : Pid) : Shift idle (holding p .picked)
  | putBack (p : Pid) (s : Stage) (hlight : s.Light) : Shift (holding p s) released
  | refused (p : Pid) (s : Stage) (hlight : s.Light) : Shift (holding p s) (holding p .closed)
  | done (p : Pid) (s : Stage) (hlight : s.Light) : Shift (holding p s) idle
  | rests : Shift released idle

lemma Desk.shift_kernel {o : KOp β} {b : β} (hpre : l.allowsKernel o)
    (hlearn : l.learnsKernel o b l') : l.Shift l' := by
  cases o with
  | readPcb q _ =>
    cases l with
    | holding p s =>
      obtain ⟨-, rfl⟩ := hlearn
      exact .read p s b
    | idle | released | caller _ _ | spawning _ =>
      obtain rfl : l' = _ := hlearn
      exact .same _
  | write q c =>
    obtain rfl : l' = l.wrote q c := hlearn
    cases l with
    | caller seen e =>
      refine .call _ _ rfl ?_
      simp only [Desk.wrote]
      split <;> rfl
    | idle | released | spawning _ | holding _ _ => exact .same _
  | newPcb args =>
    obtain ⟨seen, e, rfl⟩ := hpre
    obtain rfl : l' = .spawning b := hlearn
    exact .call _ _ rfl rfl
  | tableHas q =>
    cases l with
    | caller seen e =>
      obtain rfl : l' = .caller (if b then q :: seen else seen) e := hlearn
      exact .call _ _ rfl rfl
    | idle | released | spawning _ | holding _ _ =>
      obtain rfl : l' = _ := hlearn
      exact .same _
  | tableAdd q =>
    obtain rfl : l = .spawning q := hpre
    obtain rfl : l' = if b then .spawning q else .caller [] .none := hlearn
    refine .call _ _ rfl ?_
    split <;> rfl
  | pickNext =>
    obtain rfl : l = .idle := hpre
    cases b with
    | none =>
      obtain rfl : l' = _ := hlearn
      exact .same _
    | some q =>
      obtain rfl : l' = .holding q .picked := hlearn
      exact .picked q
  | put q =>
    rcases hpre with rfl | ⟨s, rfl, -, hlight⟩
    · obtain rfl : l' = .caller [] .none := hlearn
      exact .call _ _ rfl rfl
    · obtain rfl : l' = if b then .released else .holding q .closed := hlearn
      split
      · exact .putBack q s hlight
      · exact .refused q s hlight
  | taskDone =>
    obtain rfl : l' = .idle := hlearn
    rcases hpre with rfl | ⟨p, s, rfl, hlight⟩
    · exact .rests
    · exact .done p s hlight
  | acquire | refund | chat purpose request | swapOut p pages | runPython code timeout priority =>
    exact hpre.elim
  | _ =>
    obtain rfl : l' = l := hlearn
    exact .same _

/-- Callers know no child. -/
lemma bond_of_caller (hl : l.isWorker = false) : ∀ p s, l = .holding p s → s.bond = none := by
  rintro p s rfl
  cases hl

/-- The operations of the kernel. -/
lemma sameBond_shift (h : l.Shift l') : SameBond l l' := by
  cases h with
  | same => exact .refl l
  | read p s b => exact .of_eq (s.bond_read b)
  | call _ _ hl hl' => exact .of_none (bond_of_caller hl) (bond_of_caller hl')
  | picked p =>
    refine .of_none (fun _ _ h => by cases h) fun _ _ h => ?_
    cases h
    rfl
  | refused p s hlight => exact .of_eq hlight.2.symm
  | putBack p s hlight | done p s hlight =>
    refine .of_none (fun _ _ h => ?_) fun _ _ h => by cases h
    cases h
    exact hlight.2
  | rests => exact .of_none (fun _ _ h => by cases h) fun _ _ h => by cases h

/-- The operations on the quota and the assignments. -/
lemma sameBond_child {o : ChildOp β} {b : β} (hpre : l.allows (.inl (.inr o)))
    (hlearn : l.learns (.inl (.inr o)) b l') : SameBond l l' := by
  cases o with
  | acquireUpTo units =>
    obtain ⟨p, rfl⟩ := hpre
    obtain rfl := hlearn.2 p rfl
    exact .of_eq rfl
  | refund units =>
    obtain ⟨p, u, c, k, r, rfl, -⟩ := hpre
    obtain rfl := hlearn p u c k r rfl
    exact .of_eq rfl
  | assign p a =>
    obtain rfl : l' = l.assigned a := hlearn
    cases a with
    | quotaRemaining units =>
      rcases hpre with rfl | rfl | ⟨u, c, k, r, rfl⟩
      · exact .of_eq rfl
      · exact .refl _
      · exact .refl _
    | llmCallsUsed calls =>
      obtain ⟨u, c, k, payload, rfl, -⟩ := hpre
      exact .of_eq rfl
    | state st | tokensUsed tokens | finishedAt time => exact .refl _
  | runChild p => exact hpre.elim

/-- What the notes of the workers say about the children. -/
structure Brood (f : Fleet n) (ls : Tid n → Desk) : Prop where
  dead : ∀ (j : ℕ) (c : ChildProc n), f.procs[j]? = some c → ∀ torn, c.phase = .dead torn →
    c.signalled = true
  reaped : ∀ (j : ℕ) (c : ChildProc n), f.procs[j]? = some c → c.reaped = true → c.ended = true
  owner : ∀ (j : ℕ) (c : ChildProc n), f.procs[j]? = some c → c.ended = true ∨
    ∃ t s b, ls t = .holding c.agent s ∧ s.bond = some (j, b)
  known : ∀ t p s k b, ls t = .holding p s → s.bond = some (k, b) →
    ∃ c, f.procs[k]? = some c ∧ c.agent = p ∧ (b = .heard → c.ended = true)
  registered : ∀ t p s k b, ls t = .holding p s → s.bond = some (k, b) → b ≠ .born →
    f.registry p = some k

/-- What is to be shown when thread `t` moves on to the note `l'`. -/
lemma Brood.move (h : Brood f ls)
    (hregistry : ∀ u, u ≠ t → ∀ p s, ls u = .holding p s →
      (Fleet.exec cfg out kids t o f).2.registry p = f.registry p)
    (hreaped : ∀ j, Fleet.reaps o = some j → ∀ c, f.procs[j]? = some c → c.ended = true)
    (hborn : ∀ p, Fleet.forks o = some p → ∃ s b, l' = .holding p s ∧
      s.bond = some (f.procs.length, b))
    (hforth : ∀ p s k b, ls t = .holding p s → s.bond = some (k, b) →
      (∃ s' b', l' = .holding p s' ∧ s'.bond = some (k, b')) ∨
        ∀ c, f.procs[k]? = some c → c.ended = true)
    (hback : ∀ p s k b, l' = .holding p s → s.bond = some (k, b) →
      (∃ c, (Fleet.exec cfg out kids t o f).2.procs[k]? = some c ∧ c.agent = p ∧
        (b = .heard → c.ended = true)) ∧
      (b ≠ .born → (Fleet.exec cfg out kids t o f).2.registry p = some k)) :
    Brood (Fleet.exec cfg out kids t o f).2 (Function.update ls t l') := by
  refine ⟨fun j c' hc' torn hdead => ?_, fun j c' hc' hr => ?_, fun j c' hc' => ?_,
    fun u p s k b hu hs => ?_, fun u p s k b hu hs hb => ?_⟩
  · rcases Fleet.child_cases hc' with ⟨c, hc, hturn⟩ | ⟨p, -, -, rfl⟩
    · have hlater := hturn.later
      cases hended : c.ended with
      | false => exact hlater.killed hended torn hdead
      | true =>
        rw [(hlater.ended hended).1] at hdead
        exact hlater.signalled (h.dead j c hc torn hdead)
    · cases hdead
  · rcases Fleet.child_cases hc' with ⟨c, hc, hturn⟩ | ⟨p, -, -, rfl⟩
    · refine hturn.later.of_ended ?_
      rcases hturn.reaped_cases hr with hr | hreap
      · exact h.reaped j c hc hr
      · exact hreaped j hreap c hc
    · cases hr
  · rcases Fleet.child_cases hc' with ⟨c, hc, hturn⟩ | ⟨p, hfork, rfl, rfl⟩
    · have hlater := hturn.later
      rcases h.owner j c hc with hended | ⟨u, s, b, hu, hs⟩
      · exact .inl (hlater.of_ended hended)
      · rw [← hlater.agent] at hu
        by_cases hut : u = t
        · subst hut
          rcases hforth _ s j b hu hs with ⟨s', b', hl', hs'⟩ | hended
          · exact .inr ⟨u, s', b', by rw [Function.update_self, hl'], hs'⟩
          · exact .inl (hlater.of_ended (hended c hc))
        · exact .inr ⟨u, s, b, by rw [Function.update_of_ne hut, hu], hs⟩
    · obtain ⟨s, b, hl', hs⟩ := hborn p hfork
      exact .inr ⟨t, s, b, by rw [Function.update_self, hl'], hs⟩
  · rcases update_eq_cases hu with ⟨rfl, hnow⟩ | ⟨-, hu⟩
    · exact (hback p s k b hnow hs).1
    · obtain ⟨c, hc, hagent, hended⟩ := h.known u p s k b hu hs
      obtain ⟨c', hc', hlater⟩ : ∃ c', (Fleet.exec cfg out kids t o f).2.procs[k]? = some c' ∧
        c.Later c' := Fleet.later_exec hc
      exact ⟨c', hc', hlater.agent.trans hagent, fun hb => hlater.of_ended (hended hb)⟩
  · rcases update_eq_cases hu with ⟨rfl, hnow⟩ | ⟨hut, hu⟩
    · exact (hback p s k b hnow hs).2 hb
    · rw [hregistry u hut p s hu]
      exact h.registered u p s k b hu hs hb

/-- An operation that forks and reaps nobody and leaves the registry alone. -/
lemma Brood.same (h : Brood f ls) (hbond : SameBond (ls t) l') (hfork : Fleet.forks o = none)
    (hreap : Fleet.reaps o = none)
    (hregistry : (Fleet.exec cfg out kids t o f).2.registry = f.registry) :
    Brood (Fleet.exec cfg out kids t o f).2 (Function.update ls t l') := by
  refine h.move (fun _ _ _ _ _ => by rw [hregistry]) (fun j hj => ?_)
    (fun p hp => ?_) (fun p s k b hl hs => .inl ?_) fun p s k b hl' hs => ?_
  · rw [hreap] at hj
    cases hj
  · rw [hfork] at hp
    cases hp
  · obtain ⟨s', hl', hs'⟩ := hbond.2 p s _ hl hs
    exact ⟨s', b, hl', hs'⟩
  · obtain ⟨s₀, hl, hs₀⟩ := hbond.1 p s _ hl' hs
    obtain ⟨c, hc, hagent, hended⟩ := h.known t p s₀ k b hl hs₀
    obtain ⟨c', hc', hlater⟩ : ∃ c', (Fleet.exec cfg out kids t o f).2.procs[k]? = some c' ∧
      c.Later c' := Fleet.later_exec hc
    refine ⟨⟨c', hc', hlater.agent.trans hagent, fun hb => hlater.of_ended (hended hb)⟩, fun hb => ?_⟩
    rw [hregistry]
    exact h.registered t p s₀ k b hl hs₀ hb

lemma brood_fork (h : Brood f ls) (hpre : (ls t).allows (.inr (.fork p)))
    (hlearn : (ls t).learns (.inr (.fork p)) f.procs.length l') :
    Brood (Fleet.exec cfg out kids t (.inr (.fork p)) f).2 (Function.update ls t l') := by
  obtain ⟨u, c, hl⟩ := hpre
  obtain rfl := hlearn p u c hl
  refine h.move (fun _ _ _ _ _ => rfl) (fun j hj => by cases hj) (fun q hq => ?_)
    (fun q s k b hq hs => ?_) fun q s k b hq hs => ?_
  · cases hq
    exact ⟨_, .born, rfl, rfl⟩
  · rw [hl] at hq
    cases hq
    cases hs
  · cases hq
    cases hs
    exact ⟨⟨_, List.getElem?_concat_length, rfl, fun hb => by cases hb⟩, fun hb => absurd rfl hb⟩

lemma brood_register (hI : Custody f ls) (h : Brood f ls)
    (hpre : (ls t).allows (.inr (.register p k)))
    (hlearn : (ls t).learns (.inr (.register p k)) () l') :
    Brood (Fleet.exec cfg out kids t (.inr (.register p k)) f).2 (Function.update ls t l') := by
  obtain ⟨u, c, hl⟩ := hpre
  obtain rfl := hlearn p u c k hl
  refine h.move (fun v hv q s hq => ?_) (fun j hj => by cases hj) (fun q hq => by cases hq)
    (fun q s j b hq hs => ?_) fun q s j b hq hs => ?_
  · refine Function.update_of_ne ?_ _ _
    rintro rfl
    exact hv (hI.once hl hq)
  · rw [hl] at hq
    cases hq
    cases hs
    exact .inl ⟨_, .enrolled, rfl, rfl⟩
  · cases hq
    cases hs
    obtain ⟨c₀, hc₀, hagent, -⟩ := h.known t p _ k .born hl rfl
    exact ⟨⟨c₀, hc₀, hagent, fun hb => by cases hb⟩, fun _ => Function.update_self _ _ _⟩

lemma brood_readAll (h : Brood f ls) {raw : Raw} (hpre : (ls t).allows (.inr (.readAll k)))
    (hlearn : (ls t).learns (.inr (.readAll k)) raw l') :
    Brood (Fleet.exec cfg out kids t (.inr (.readAll k)) f).2 (Function.update ls t l') := by
  obtain ⟨p, u, c, hl⟩ := hpre
  obtain rfl := hlearn p u c k hl
  refine h.move (fun _ _ _ _ _ => rfl) (fun j hj => by cases hj) (fun q hq => by cases hq)
    (fun q s j b hq hs => ?_) fun q s j b hq hs => ?_
  · rw [hl] at hq
    cases hq
    cases hs
    exact .inl ⟨_, .heard, rfl, rfl⟩
  · cases hq
    cases hs
    obtain ⟨c₀, hc₀, hagent, -⟩ := h.known t p _ k .enrolled hl rfl
    refine ⟨⟨c₀.finish cfg (kids k), ?_, ?_, fun _ => c₀.ended_finish (kids k)⟩, fun _ => ?_⟩
    · show (f.adjust k _).procs[k]? = _
      rw [Fleet.getElem_adjust, if_pos rfl, hc₀]
      rfl
    · rw [(c₀.later_finish (kids k)).agent, hagent]
    · exact h.registered t p _ k .enrolled hl rfl (by simp)

lemma brood_reap (hI : Custody f ls) (h : Brood f ls) (hpre : (ls t).allows (.inr (.reap p k)))
    (hlearn : (ls t).learns (.inr (.reap p k)) () l') :
    Brood (Fleet.exec cfg out kids t (.inr (.reap p k)) f).2 (Function.update ls t l') := by
  obtain ⟨s, s', hl, hl', hs, hs'⟩ : ∃ s s', ls t = .holding p s ∧ l' = .holding p s' ∧
      s.bond = some (k, .heard) ∧ s'.bond = none := by
    rcases hpre with ⟨u, c, raw, hl⟩ | ⟨u, c, r, hl⟩
    · exact ⟨_, _, hl, hlearn.1 p u c k raw hl, rfl, rfl⟩
    · exact ⟨_, _, hl, hlearn.2 p u c k r hl, rfl, rfl⟩
  subst hl'
  have hended : ∀ c, f.procs[k]? = some c → c.ended = true := by
    intro c hc
    obtain ⟨c₀, hc₀, -, hended⟩ := h.known t p s k .heard hl hs
    rw [hc] at hc₀
    cases hc₀
    exact hended rfl
  refine h.move (fun v hv q r hq => ?_) (fun j hj => ?_) (fun q hq => by cases hq)
    (fun q r j b hq hr => ?_) fun q r j b hq hr => ?_
  · refine Function.update_of_ne ?_ _ _
    rintro rfl
    exact hv (hI.once hl hq)
  · cases hj
    exact hended
  · rw [hl] at hq
    cases hq
    rw [hs] at hr
    cases hr
    exact .inr hended
  · cases hq
    rw [hs'] at hr
    cases hr

/-- **Every operation that the discipline allows** keeps what is known of the children. -/
lemma Brood.step (hI : Custody f ls) (h : Brood f ls) (hpre : (ls t).allows o)
    (hlearn : (ls t).learns o (Fleet.exec cfg out kids t o f).1 l') :
    Brood (Fleet.exec cfg out kids t o f).2 (Function.update ls t l') := by
  rcases o with (o | o) | o
  · exact h.same (sameBond_shift (Desk.shift_kernel hpre hlearn)) rfl rfl rfl
  · exact h.same (sameBond_child hpre hlearn) rfl rfl rfl
  · cases o with
    | fork p => exact brood_fork h hpre hlearn
    | register p k => exact brood_register hI h hpre hlearn
    | readAll k => exact brood_readAll h hpre hlearn
    | reap p k => exact brood_reap hI h hpre hlearn
    | lookup p =>
      obtain ⟨seen, e, hl, -⟩ := hpre
      obtain rfl := hlearn seen e hl
      refine h.same ?_ rfl rfl rfl
      rw [hl]
      exact .of_none (fun _ _ hc => by cases hc) fun _ _ hc => by cases hc
    | signal k =>
      obtain ⟨seen, e, hl, -⟩ := hpre
      obtain rfl := hlearn seen e hl
      refine h.same ?_ rfl rfl rfl
      rw [hl]
      exact .of_none (fun _ _ hc => by cases hc) fun _ _ hc => by cases hc
    | signalAll | childMoves k =>
      obtain rfl : l' = ls t := hlearn
      exact h.same (.refl _) rfl rfl rfl

lemma brood_fresh (quota : Quota) :
    Brood { world := freshWorld n quota } (Desk.start : Tid n → Desk) := by
  have hstart : ∀ (t : Tid n) p s, Desk.start t ≠ .holding p s := by
    intro t p s h
    unfold Desk.start at h
    split at h <;> cases h
  exact ⟨fun j c hc => (by cases hc), fun j c hc => (by cases hc), fun j c hc => (by cases hc),
    fun t p s k b ht => absurd ht (hstart t p s), fun t p s k b ht => absurd ht (hstart t p s)⟩

end Gcos.Process
