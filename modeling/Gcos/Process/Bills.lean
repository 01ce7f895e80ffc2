import Gcos.Process.Brood
import Gcos.Process.Meter

/-!
# The bills of the children

A dispatch takes the units for a child from the shared quota before it forks, and gives
back what the child has not used when it has heard from it.  So for every child there is a
*bill*: the units that were taken for it and not given back.  The calls of the agent that
have returned in the child are always on its bill, and the bills of all children together
with the units that belong to no child yet were taken from the quota.
-/

namespace Gcos.Process

open Lib Exec Pool World

variable {n : ℕ} {cfg : KernelConfig} {out : Outside} {kids : ℕ → Offspring} {t : Tid n} {β : Type}
  {o : FOp β} {f : Fleet n} {ls : Tid n → Desk} {l l' : Desk} {p : Pid} {c c' : ChildProc n} {k : ℕ}

/-! ### A child and its report -/

/-- A child without a client performs nothing, and a child that writes its report has left
its loop. -/
structure ChildProc.Straight (cfg : KernelConfig) (kid : Offspring) (c : ChildProc n) : Prop where
  barren : ∀ e, kid.factory = some e → c.ops = 0
  atEnd : c.phase = .writing ∨ c.phase = .reported → c.atEnd cfg kid = true

namespace ChildProc

variable {kid : Offspring}

lemma progress_congr (hagent : c'.agent = c.agent) (hworker : c'.worker = c.worker)
    (hmemory : c'.memory = c.memory) (hops : c'.ops = c.ops) :
    c'.progress cfg kid = c.progress cfg kid := by
  simp only [progress, hagent, hworker, hmemory, hops]

lemma Straight.move (h : c.Straight cfg kid) : (c.move cfg kid).Straight cfg kid := by
  cases hphase : c.phase with
  | running =>
    by_cases hend : c.atEnd cfg kid = true
    · simp only [ChildProc.move, hphase, if_pos hend]
      exact ⟨h.barren, fun _ => hend⟩
    · simp only [ChildProc.move, hphase, if_neg hend]
      refine ⟨fun e he => ?_, fun hlate => ?_⟩
      · exact absurd (by simp only [ChildProc.atEnd, he]) hend
      · simp at hlate
  | writing =>
    simp only [ChildProc.move, hphase]
    exact ⟨h.barren, fun _ => h.atEnd (.inl hphase)⟩
  | reported | dead torn =>
    simp only [ChildProc.move, hphase]
    exact h

/-- A child that goes on to the end of its loop gets there. -/
lemma atEnd_total (kid : Offspring) (c : ChildProc n) :
    ({ c with ops := c.total cfg kid, phase := .reported } : ChildProc n).atEnd cfg kid = true := by
  cases hfac : kid.factory with
  | some e => simp only [atEnd, hfac]
  | none =>
    have hret := Prog.advance_duration (World.exec cfg kid.outside) c.worker
      (childLoop cfg c.agent childStepCap) (forked c.memory)
    simp only [atEnd, progress, total, hfac, hret]

lemma Straight.finish (h : c.Straight cfg kid) : (c.finish cfg kid).Straight cfg kid := by
  cases hphase : c.phase with
  | running =>
    simp only [ChildProc.finish, hphase]
    refine ⟨fun e he => ?_, fun _ => c.atEnd_total kid⟩
    simp only [total, he]
    exact h.barren e he
  | writing =>
    simp only [ChildProc.finish, hphase]
    exact ⟨h.barren, fun _ => h.atEnd (.inl hphase)⟩
  | reported | dead torn =>
    simp only [ChildProc.finish, hphase]
    exact h

lemma Straight.strike (h : c.Straight cfg kid) : c.strike.Straight cfg kid := by
  unfold ChildProc.strike
  split
  · exact h
  · refine ⟨h.barren, fun hlate => ?_⟩
    cases hphase : c.phase with
    | running | writing | dead torn => simp [hphase] at hlate
    | reported => exact h.atEnd (.inr hphase)

/-- **The report of a child** tells all its calls. -/
lemma replies_le_report (h : c.Straight cfg kid) (hunits : 0 ≤ c.units)
    (hphase : c.phase = .reported) :
    (c.replies cfg kid : ℤ) ≤
      (report cfg kid.whole c.worker c.agent c.memory).llmCallsUsed - c.callsBefore := by
  have hend := h.atEnd (.inr hphase)
  cases hfac : kid.factory with
  | some e =>
    have hzero : c.replies cfg kid = 0 := by
      simp [replies, progress, h.barren e hfac, Prog.advance, forked]
    have hreport : (report cfg kid.whole c.worker c.agent c.memory).llmCallsUsed =
        c.callsBefore := by
      simp only [report, Offspring.whole, hfac]
      rfl
    rw [hzero, hreport]
    simp
  | none =>
    cases hret : (c.progress cfg kid).1 with
    | op o k => simp [atEnd, hfac, hret] at hend
    | ret a =>
      have hrun : World.runs cfg kid.outside c.worker (childLoop cfg c.agent childStepCap)
          (forked c.memory) = (a, (c.progress cfg kid).2) :=
        Prog.alone_of_advance (World.exec cfg kid.outside) c.worker (j := c.ops)
          (Prod.ext hret rfl)
      have hreport : (report cfg kid.whole c.worker c.agent c.memory).llmCallsUsed =
          ((c.progress cfg kid).2.pcbs c.agent).llmCallsUsed := by
        simp only [report, Offspring.whole, hfac, hrun]
        cases a <;> rfl
      rw [hreport]
      exact replies_of_returned kid hunits hret

end ChildProc

/-- A child that has changed, or one that was just forked. -/
lemma Fleet.straight_exec
    (h : ∀ (k : ℕ) (c : ChildProc n), f.procs[k]? = some c → c.Straight cfg (kids k)) {j : ℕ}
    (hc' : (Fleet.exec cfg out kids t o f).2.procs[j]? = some c') : c'.Straight cfg (kids j) := by
  rcases Fleet.child_cases hc' with ⟨c, hc, hturn⟩ | ⟨p, -, -, rfl⟩
  · have hstraight := h j c hc
    cases hturn with
    | same => exact hstraight
    | struck => exact hstraight.strike
    | reaped p => exact ⟨hstraight.barren, hstraight.atEnd⟩
    | heard => exact hstraight.finish
    | moved => exact hstraight.move
  · exact ⟨fun _ _ => rfl, fun hlate => by simp at hlate⟩

/-! ### What the workers have taken -/

/-- Units that a worker has taken for a child: its agent, the units, the calls that the
agent had made before, and the child. -/
structure Deposit where
  agent : Pid
  units : ℤ
  calls : ℤ
  child : ℕ

/-- The number of calls that a child has reported. -/
structure Tally where
  calls : ℤ
  child : ℕ
  reported : ℤ

namespace Desk

/-- The units that the thread has taken for a child and may give back. -/
def deposit : Desk → Option Deposit
  | holding p (.forked u c k) | holding p (.registered u c k) | holding p (.heard u c k _)
  | holding p (.counted u c k _) | holding p (.due u c k _) => some ⟨p, u, c, k⟩
  | _ => none

/-- What the thread knows about the calls of a child. -/
def tally : Desk → Option Tally
  | holding _ (.heard _ c k (.json payload)) => some ⟨c, k, payload.llmCallsUsed⟩
  | holding _ (.counted _ c k r) | holding _ (.due _ c k r) => some ⟨c, k, r⟩
  | _ => none

end Desk

/-- Whoever has a child has taken units for it. -/
lemma deposit_of_bond {s : Stage} {b : Bond} (hbond : s.bond = some (k, b)) :
    ∃ u c, (Desk.holding p s).deposit = some ⟨p, u, c, k⟩ := by
  cases s with
  | forked u c j | registered u c j | heard u c j raw | counted u c j r =>
    cases hbond
    exact ⟨u, c, rfl⟩
  | _ => cases hbond

/-- The thread takes nothing, and learns nothing about the calls of a child. -/
structure SameDues (l l' : Desk) : Prop where
  pending : l'.pending = l.pending
  deposit : ∀ x, l'.deposit = some x → l.deposit = some x
  tally : ∀ x, l'.tally = some x → l.tally = some x

lemma SameDues.refl (l : Desk) : SameDues l l := ⟨rfl, fun _ h => h, fun _ h => h⟩

/-- A thread that has no units, no child and no report afterwards. -/
lemma SameDues.of_none (hl : l.pending = 0) (hl' : l'.pending = 0) (hdeposit : l'.deposit = none)
    (htally : l'.tally = none) : SameDues l l' := by
  refine ⟨hl'.trans hl.symm, fun x hx => ?_, fun x hx => ?_⟩
  · rw [hdeposit] at hx
    cases hx
  · rw [htally] at hx
    cases hx

lemma sameDues_read (s : Stage) (b : AgentControlBlock) :
    SameDues (.holding p s) (.holding p (s.read b)) := by
  cases s with
  | picked =>
    simp only [Stage.read]
    split
    · exact .refl _
    · exact .of_none rfl rfl rfl rfl
  | granted units => exact ⟨rfl, fun x hx => (by cases hx), fun x hx => (by cases hx)⟩
  | _ => exact .refl _

/-- The operations of the kernel. -/
lemma sameDues_shift (h : l.Shift l') : SameDues l l' := by
  cases h with
  | same => exact .refl l
  | read p s b => exact sameDues_read s b
  | call _ _ hl hl' =>
    have hnone : ∀ l : Desk, l.isWorker = false →
        l.pending = 0 ∧ l.deposit = none ∧ l.tally = none := by
      intro l hl
      cases l with
      | caller seen e | spawning q => exact ⟨rfl, rfl, rfl⟩
      | idle | released | holding q s => cases hl
    obtain ⟨hpending, hdeposit, htally⟩ := hnone l' hl'
    exact .of_none (hnone l hl).1 hpending hdeposit htally
  | picked p | rests => exact .of_none rfl rfl rfl rfl
  | putBack p s hlight | refused p s hlight | done p s hlight =>
    exact .of_none hlight.1 rfl rfl rfl

/-- The assignments. -/
lemma sameDues_assign {a : Assign} (hpre : l.allowsAssign p a) : SameDues l (l.assigned a) := by
  cases a with
  | quotaRemaining units =>
    rcases hpre with rfl | rfl | ⟨u, c, k, r, rfl⟩
    · exact ⟨rfl, fun x hx => (by cases hx), fun x hx => (by cases hx)⟩
    · exact .refl _
    · exact .refl _
  | llmCallsUsed calls =>
    obtain ⟨u, c, k, payload, rfl, rfl⟩ := hpre
    exact ⟨rfl, fun x hx => hx, fun x hx => hx⟩
  | state st | tokensUsed tokens | finishedAt time => exact .refl _

/-- The operations on the quota and on a child that change what a worker has taken. -/
def deals : {β : Type} → FOp β → Bool
  | _, .inl (.inr (.acquireUpTo _)) | _, .inl (.inr (.refund _)) | _, .inr (.fork _)
  | _, .inr (.readAll _) => true
  | _, _ => false

/-- All other operations leave it as it is. -/
lemma sameDues {b : β} (ho : deals o = false) (hpre : l.allows o) (hlearn : l.learns o b l') :
    SameDues l l' := by
  rcases o with (o | o) | o
  · exact sameDues_shift (Desk.shift_kernel hpre hlearn)
  · cases o with
    | acquireUpTo units | refund units => cases ho
    | assign q a =>
      obtain rfl : l' = l.assigned a := hlearn
      exact sameDues_assign hpre
    | runChild q => exact hpre.elim
  · cases o with
    | fork q | readAll j => cases ho
    | register q j =>
      obtain ⟨u, c, rfl⟩ := hpre
      obtain rfl := hlearn q u c j rfl
      exact ⟨rfl, fun x hx => hx, fun x hx => hx⟩
    | reap q j =>
      rcases hpre with ⟨u, c, raw, rfl⟩ | ⟨u, c, r, rfl⟩
      · obtain rfl := hlearn.1 q u c j raw rfl
        exact .of_none rfl rfl rfl rfl
      · obtain rfl := hlearn.2 q u c j r rfl
        exact ⟨rfl, fun x hx => hx, fun x hx => hx⟩
    | lookup q =>
      obtain ⟨seen, e, rfl, -⟩ := hpre
      obtain rfl := hlearn seen e rfl
      exact .of_none rfl rfl rfl rfl
    | signal j =>
      obtain ⟨seen, e, rfl, -⟩ := hpre
      obtain rfl := hlearn seen e rfl
      exact .of_none rfl rfl rfl rfl
    | signalAll | childMoves j =>
      obtain rfl : l' = l := hlearn
      exact .refl _

/-! ### The bills -/

namespace ChildProc

/-- A child that performs no more operations makes no more calls. -/
lemma Later.progress (h : c.Later c') (hended : c.ended = true) (kid : Offspring) :
    c'.progress cfg kid = c.progress cfg kid :=
  progress_congr h.agent h.worker h.memory (h.ended hended).2

lemma Later.replies (h : c.Later c') (hended : c.ended = true) (kid : Offspring) :
    c'.replies cfg kid = c.replies cfg kid := by
  rw [ChildProc.replies, ChildProc.replies, h.progress hended, h.memory]

lemma Later.units (h : c.Later c') : c'.units = c.units := by
  rw [ChildProc.units, ChildProc.units, h.memory, h.agent]

lemma Later.callsBefore (h : c.Later c') : c'.callsBefore = c.callsBefore := by
  rw [ChildProc.callsBefore, ChildProc.callsBefore, h.memory, h.agent]

end ChildProc

/-- The child for which a deposit was made. -/
structure Deposit.Covers (d : Deposit) (f : Fleet n) (bill : ℕ → ℤ) : Prop where
  child : ∃ c, f.procs[d.child]? = some c ∧ c.agent = d.agent ∧ c.units = d.units ∧
    c.callsBefore = d.calls
  bill : bill d.child = d.units

/-- The child has reported at least the calls that it has made. -/
def Tally.Sound (cfg : KernelConfig) (kids : ℕ → Offspring) (x : Tally) (f : Fleet n) : Prop :=
  ∃ c, f.procs[x.child]? = some c ∧ c.ended = true ∧
    (c.replies cfg (kids x.child) : ℤ) ≤ x.reported - x.calls

/-- The bills of the children and the units that belong to no child yet were taken from the
quota, and the calls of every child are on its bill. -/
structure Account (cfg : KernelConfig) (kids : ℕ → Offspring) (bill : ℕ → ℤ) (f : Fleet n)
    (ls : Tid n → Desk) : Prop where
  straight : ∀ (k : ℕ) (c : ChildProc n), f.procs[k]? = some c → c.Straight cfg (kids k)
  units : ∀ (k : ℕ) (c : ChildProc n), f.procs[k]? = some c → 0 ≤ c.units
  covered : ∀ (k : ℕ) (c : ChildProc n), f.procs[k]? = some c →
    (c.replies cfg (kids k) : ℤ) ≤ bill k
  deposit : ∀ t x, (ls t).deposit = some x → x.Covers f bill
  tally : ∀ t x, (ls t).tally = some x → x.Sound cfg kids f
  pending : ∀ t, 0 ≤ (ls t).pending
  spent : ∑ k ∈ Finset.range f.procs.length, bill k + ∑ i : Fin n, (ls (.worker i)).pending ≤
    f.world.quota.used
  remaining : 0 ≤ f.world.quota.remaining
  total : 0 ≤ f.world.quota.total

section

variable {bill : ℕ → ℤ} {x : Deposit} {y : Tally}

lemma Deposit.Covers.later (h : x.Covers f bill) :
    x.Covers (Fleet.exec cfg out kids t o f).2 bill := by
  obtain ⟨c, hc, hagent, hunits, hcalls⟩ := h.child
  obtain ⟨c', hc', hlater⟩ : ∃ c', (Fleet.exec cfg out kids t o f).2.procs[x.child]? = some c' ∧
    c.Later c' := Fleet.later_exec hc
  exact ⟨⟨c', hc', hlater.agent.trans hagent, hlater.units.trans hunits,
    hlater.callsBefore.trans hcalls⟩, h.bill⟩

lemma Tally.Sound.later (h : y.Sound cfg kids f) :
    y.Sound cfg kids (Fleet.exec cfg out kids t o f).2 := by
  obtain ⟨c, hc, hended, hle⟩ := h
  obtain ⟨c', hc', hlater⟩ : ∃ c', (Fleet.exec cfg out kids t o f).2.procs[y.child]? = some c' ∧
    c.Later c' := Fleet.later_exec hc
  refine ⟨c', hc', hlater.of_ended hended, ?_⟩
  rw [hlater.replies hended]
  exact hle

/-- The bill of a child covers what it does next: either it is at its end, or the units of
its worker are still on the bill. -/
lemma Account.covered_later (h : Account cfg kids bill f ls) (hB : Brood f ls)
    (hc : f.procs[k]? = some c) (hlater : c.Later c') :
    (c'.replies cfg (kids k) : ℤ) ≤ bill k := by
  rcases hB.owner k c hc with hended | ⟨t, s, b, ht, hbond⟩
  · rw [hlater.replies hended]
    exact h.covered k c hc
  · obtain ⟨u, calls, hdeposit⟩ := deposit_of_bond (p := c.agent) hbond
    rw [← ht] at hdeposit
    obtain ⟨⟨c₁, hc₁, -, hunits, -⟩, hbill⟩ := h.deposit t _ hdeposit
    obtain rfl : c₁ = c := Option.some.inj (hc₁.symm.trans hc)
    have hnonneg : 0 ≤ c'.units := by
      rw [hlater.units]
      exact h.units k c₁ hc
    calc (c'.replies cfg (kids k) : ℤ)
        ≤ c'.units := ChildProc.replies_le_units _ hnonneg
      _ = bill k := by rw [hlater.units, hunits, hbill]

/-- No two workers have taken units for one child. -/
lemma Account.deposit_once (h : Account cfg kids bill f ls) (hI : Custody f ls) {u : Tid n}
    {x' : Deposit} (ht : (ls t).deposit = some x) (hu : (ls u).deposit = some x')
    (hchild : x'.child = x.child) : u = t := by
  have hholds : ∀ {v : Tid n} {d : Deposit}, (ls v).deposit = some d →
      ∃ s, ls v = .holding d.agent s := by
    intro v d hd
    cases hl : ls v with
    | holding q s =>
      rw [hl] at hd
      cases s with
      | forked _ _ _ | registered _ _ _ | heard _ _ _ _ | counted _ _ _ _ | due _ _ _ _ =>
        cases hd
        exact ⟨_, rfl⟩
      | _ => cases hd
    | _ =>
      rw [hl] at hd
      cases hd
  obtain ⟨s, hs⟩ := hholds ht
  obtain ⟨s', hs'⟩ := hholds hu
  obtain ⟨c, hc, hagent, -⟩ := (h.deposit t x ht).child
  obtain ⟨c', hc', hagent', -⟩ := (h.deposit u x' hu).child
  rw [hchild, hc] at hc'
  cases hc'
  rw [hagent] at hagent'
  rw [← hagent'] at hs'
  exact hI.once hs hs'

/-- What is to be shown when thread `t` moves on to the note `l'` and the bills change. -/
lemma Account.move (h : Account cfg kids bill f ls) {bill' : ℕ → ℤ}
    (hborn : ∀ p, Fleet.forks o = some p → 0 ≤ (f.world.pcbs p).quotaRemaining)
    (hkept : ∀ u x, u ≠ t → (ls u).deposit = some x → bill' x.child = bill x.child)
    (hcovered : ∀ (j : ℕ) (c' : ChildProc n),
      (Fleet.exec cfg out kids t o f).2.procs[j]? = some c' →
      (c'.replies cfg (kids j) : ℤ) ≤ bill' j)
    (hdeposit : ∀ x, l'.deposit = some x → x.Covers (Fleet.exec cfg out kids t o f).2 bill')
    (htally : ∀ x, l'.tally = some x → x.Sound cfg kids (Fleet.exec cfg out kids t o f).2)
    (hpending : 0 ≤ l'.pending)
    (hspent : ∑ j ∈ Finset.range (Fleet.exec cfg out kids t o f).2.procs.length, bill' j +
        ∑ i : Fin n, (Function.update ls t l' (.worker i)).pending ≤
      (Fleet.exec cfg out kids t o f).2.world.quota.used)
    (hremaining : 0 ≤ (Fleet.exec cfg out kids t o f).2.world.quota.remaining)
    (htotal : 0 ≤ (Fleet.exec cfg out kids t o f).2.world.quota.total) :
    Account cfg kids bill' (Fleet.exec cfg out kids t o f).2 (Function.update ls t l') where
  straight := fun j c' hc' => Fleet.straight_exec h.straight hc'
  units := by
    intro j c' hc'
    rcases Fleet.child_cases hc' with ⟨c, hc, hturn⟩ | ⟨p, hfork, -, rfl⟩
    · rw [hturn.later.units]
      exact h.units j c hc
    · exact hborn p hfork
  covered := hcovered
  deposit := by
    intro u x hu
    rcases update_cases Desk.deposit hu with ⟨rfl, hnow⟩ | ⟨hut, hu⟩
    · exact hdeposit x hnow
    · have hlater : x.Covers (Fleet.exec cfg out kids t o f).2 bill := (h.deposit u x hu).later
      exact ⟨hlater.child, (hkept u x hut hu).trans hlater.bill⟩
  tally := by
    intro u x hu
    rcases update_cases Desk.tally hu with ⟨rfl, hnow⟩ | ⟨-, hu⟩
    · exact htally x hnow
    · exact (h.tally u x hu).later
  pending := by
    intro u
    by_cases hut : u = t
    · subst hut
      rw [Function.update_self]
      exact hpending
    · rw [Function.update_of_ne hut]
      exact h.pending u
  spent := hspent
  remaining := hremaining
  total := htotal

/-- The quota under an operation that deals with no child: only a topup moves it. -/
lemma quota_same (ho : deals o = false) (hpre : l.allows o) :
    (Fleet.exec cfg out kids t o f).2.world.quota.used = f.world.quota.used ∧
      f.world.quota.remaining ≤ (Fleet.exec cfg out kids t o f).2.world.quota.remaining ∧
      f.world.quota.total ≤ (Fleet.exec cfg out kids t o f).2.world.quota.total := by
  rcases o with (o | o) | o
  · change (World.exec cfg out t o f.world).2.quota.used = f.world.quota.used ∧
      f.world.quota.remaining ≤ (World.exec cfg out t o f.world).2.quota.remaining ∧
      f.world.quota.total ≤ (World.exec cfg out t o f.world).2.quota.total
    cases o with
    | acquire | refund => exact hpre.elim
    | topup j =>
      have hj : 0 < j := hpre.2
      simp only [World.exec, Quota.topup, Quota.used]
      omega
    | _ =>
      rw [quota_exec rfl]
      exact ⟨rfl, le_rfl, le_rfl⟩
  · cases o with
    | acquireUpTo units | refund units => cases ho
    | assign q a => exact ⟨rfl, le_rfl, le_rfl⟩
    | runChild q => exact hpre.elim
  · cases o <;> exact ⟨rfl, le_rfl, le_rfl⟩

/-- No child comes or goes, unless one is forked. -/
lemma length_procs (ho : Fleet.forks o = none) :
    (Fleet.exec cfg out kids t o f).2.procs.length = f.procs.length := by
  rcases o with o | o
  · rfl
  · cases o with
    | fork q => cases ho
    | _ => simp [Fleet.exec, Fleet.adjust]

/-- The bills stay as they are, and nobody new is there. -/
lemma Account.covered_exec (h : Account cfg kids bill f ls) (hB : Brood f ls)
    (ho : Fleet.forks o = none) {j : ℕ}
    (hc' : (Fleet.exec cfg out kids t o f).2.procs[j]? = some c') :
    (c'.replies cfg (kids j) : ℤ) ≤ bill j := by
  rcases Fleet.child_cases hc' with ⟨c, hc, hturn⟩ | ⟨p, hfork, -⟩
  · exact h.covered_later hB hc hturn.later
  · rw [ho] at hfork
    cases hfork

/-- The operations that deal with no child. -/
lemma Account.same (h : Account cfg kids bill f ls) (hB : Brood f ls) (ho : deals o = false)
    (hpre : (ls t).allows o) (hlearn : (ls t).learns o (Fleet.exec cfg out kids t o f).1 l') :
    Account cfg kids bill (Fleet.exec cfg out kids t o f).2 (Function.update ls t l') := by
  have hdues : SameDues (ls t) l' := sameDues ho hpre hlearn
  have hforks : Fleet.forks o = none := by
    rcases o with o | o
    · rfl
    · cases o <;> first | rfl | cases ho
  obtain ⟨hused, hrem, htot⟩ :
      (Fleet.exec cfg out kids t o f).2.world.quota.used = f.world.quota.used ∧
        f.world.quota.remaining ≤ (Fleet.exec cfg out kids t o f).2.world.quota.remaining ∧
        f.world.quota.total ≤ (Fleet.exec cfg out kids t o f).2.world.quota.total :=
    quota_same ho hpre
  refine h.move ?_ (fun _ _ _ _ => rfl) (fun j c' hc' => h.covered_exec hB hforks hc') ?_ ?_ ?_ ?_
    (h.remaining.trans hrem) (h.total.trans htot)
  · intro p hp
    rw [hforks] at hp
    cases hp
  · exact fun x hx => (h.deposit t x (hdues.deposit x hx)).later
  · exact fun x hx => (h.tally t x (hdues.tally x hx)).later
  · rw [hdues.pending]
    exact h.pending t
  · rw [length_procs hforks, sum_workers_update_of_eq Desk.pending ls t hdues.pending, hused]
    exact h.spent

/-- Units are reserved. -/
lemma Account.acquire (h : Account cfg kids bill f ls) (hI : Custody f ls) (hB : Brood f ls)
    {units : ℤ} (hpre : (ls t).allows (.inl (.inr (.acquireUpTo units))))
    (hlearn : (ls t).learns (.inl (.inr (.acquireUpTo units)))
      (Fleet.exec cfg out kids t (.inl (.inr (.acquireUpTo units))) f).1 l') :
    Account cfg kids bill (Fleet.exec cfg out kids t (.inl (.inr (.acquireUpTo units))) f).2
      (Function.update ls t l') := by
  obtain ⟨p, hl⟩ := hpre
  rw [hl] at hlearn
  obtain ⟨hnonneg, hlearn⟩ := hlearn
  obtain rfl := hlearn p rfl
  have hworker : t.isWorker = true := by rw [← hI.role t, hl]; rfl
  have hspent := h.spent
  have hrem := h.remaining
  have hnone : (ls t).pending = 0 := by rw [hl]; rfl
  refine h.move (fun _ hp => by cases hp) (fun _ _ _ _ => rfl)
    (fun j c' hc' => h.covered_exec hB rfl hc') (fun x hx => by cases hx) (fun x hx => by cases hx)
    hnonneg ?_ ?_ h.total
  · rw [length_procs rfl, sum_workers_update Desk.pending ls hworker, hnone]
    simp only [Fleet.exec, Process.exec, Quota.acquireUpTo, Quota.used, Desk.pending,
      Stage.pending] at hspent ⊢
    omega
  · simp only [Fleet.exec, Process.exec, Quota.acquireUpTo]
    omega

/-- Units are given back. -/
lemma Account.refund (h : Account cfg kids bill f ls) (hI : Custody f ls)
    {units : ℤ} (hpre : (ls t).allows (.inl (.inr (.refund units))))
    (hlearn : (ls t).learns (.inl (.inr (.refund units)))
      (Fleet.exec cfg out kids t (.inl (.inr (.refund units))) f).1 l') :
    ∃ bill', Account cfg kids bill' (Fleet.exec cfg out kids t (.inl (.inr (.refund units))) f).2
      (Function.update ls t l') := by
  obtain ⟨p, u, c₀, k, r, hl, hunits, hle, -⟩ := hpre
  rw [hl] at hlearn
  obtain rfl := hlearn p u c₀ k r rfl
  have hdeposit : (ls t).deposit = some ⟨p, u, c₀, k⟩ := by rw [hl]; rfl
  have htally : (ls t).tally = some ⟨c₀, k, r⟩ := by rw [hl]; rfl
  obtain ⟨⟨c, hc, -⟩, hbill⟩ := h.deposit t _ hdeposit
  obtain ⟨c₁, hc₁, -, hreplies⟩ := h.tally t _ htally
  obtain rfl : c₁ = c := Option.some.inj (hc₁.symm.trans hc)
  have hk : k ∈ Finset.range f.procs.length :=
    Finset.mem_range.2 (List.getElem?_eq_some_iff.1 hc).1
  have hspent := h.spent
  have hrem := h.remaining
  have htot := h.total
  -- the bill of the child is cut by what is given back
  refine ⟨Function.update bill k (u - units), ?_⟩
  refine h.move (fun _ hp => by cases hp) ?_ ?_ (fun x hx => by cases hx)
    (fun x hx => by cases hx) le_rfl ?_ ?_ h.total
  · intro v x hv hx
    refine Function.update_of_ne (fun hchild => hv ?_) _ _
    exact h.deposit_once hI hdeposit hx hchild
  · intro j c' hc'
    by_cases hj : j = k
    · subst hj
      rw [Function.update_self]
      obtain rfl : c' = c₁ := Option.some.inj (hc'.symm.trans hc)
      simp only at hreplies
      omega
    · rw [Function.update_of_ne hj]
      exact h.covered j c' hc'
  · have hsum : ∑ j ∈ Finset.range f.procs.length, Function.update bill k (u - units) j =
        ∑ j ∈ Finset.range f.procs.length, bill j - units := by
      rw [Finset.sum_update_of_mem hk, Finset.sdiff_singleton_eq_erase,
        ← Finset.add_sum_erase _ _ hk, show bill k = u from hbill]
      ring
    have hnone : (Desk.holding p .closed).pending = (ls t).pending := by rw [hl]; rfl
    rw [length_procs rfl, sum_workers_update_of_eq Desk.pending ls t hnone, hsum]
    simp only [Fleet.exec, Process.exec, Quota.refund, Quota.used] at hspent ⊢
    omega
  · simp only [Fleet.exec, Process.exec, Quota.refund]
    omega

/-- A child is forked: the reserved units go on its bill. -/
lemma Account.fork (h : Account cfg kids bill f ls) (hI : Custody f ls) (hB : Brood f ls)
    (hpre : (ls t).allows (.inr (.fork p)))
    (hlearn : (ls t).learns (.inr (.fork p))
      (Fleet.exec cfg out kids t (.inr (.fork p)) f).1 l') :
    ∃ bill', Account cfg kids bill' (Fleet.exec cfg out kids t (.inr (.fork p)) f).2
      (Function.update ls t l') := by
  obtain ⟨u, c₀, hl⟩ := hpre
  rw [hl] at hlearn
  obtain rfl := hlearn p u c₀ rfl
  obtain ⟨hunits, hcalls⟩ : (f.world.pcbs p).quotaRemaining = u ∧
      (f.world.pcbs p).llmCallsUsed = c₀ := hI.fits t p _ hl
  have hworker : t.isWorker = true := by rw [← hI.role t, hl]; rfl
  have hpending : (ls t).pending = u := by rw [hl]; rfl
  have hnonneg : 0 ≤ u := hpending ▸ h.pending t
  have hnew : (Fleet.exec cfg out kids t (.inr (.fork p)) f).2.procs[f.procs.length]? =
      some { agent := p, worker := t, memory := f.world } := by simp [Fleet.exec]
  refine ⟨Function.update bill f.procs.length u, ?_⟩
  refine h.move ?_ ?_ ?_ ?_ (fun x hx => by cases hx) le_rfl ?_ h.remaining h.total
  · rintro q ⟨⟩
    rw [hunits]
    exact hnonneg
  · intro v x hv hx
    obtain ⟨c, hc, -⟩ := (h.deposit v x hx).child
    exact Function.update_of_ne (List.getElem?_eq_some_iff.1 hc).1.ne _ _
  · intro j c' hc'
    rcases Fleet.child_cases hc' with ⟨c, hc, hturn⟩ | ⟨q, hq, rfl, rfl⟩
    · have hj : j ≠ f.procs.length := (List.getElem?_eq_some_iff.1 hc).1.ne
      rw [Function.update_of_ne hj]
      exact h.covered_later hB hc hturn.later
    · cases hq
      rw [Function.update_self]
      refine (ChildProc.replies_le_units _ ?_).trans_eq hunits
      exact hnonneg.trans_eq hunits.symm
  · rintro x ⟨⟩
    exact ⟨⟨_, hnew, rfl, hunits, hcalls⟩, Function.update_self _ _ _⟩
  · have hlength : (Fleet.exec cfg out kids t (.inr (.fork p)) f).2.procs.length =
        f.procs.length + 1 := by simp [Fleet.exec]
    have hspent := h.spent
    rw [hlength, Finset.sum_range_succ, Function.update_self,
      Finset.sum_update_of_notMem (by simp), sum_workers_update Desk.pending ls hworker, hpending]
    simp only [Fleet.exec, Desk.pending, Stage.pending] at hspent ⊢
    omega

/-- The pipe of a child is read to its end: a report tells all its calls. -/
lemma Account.readAll (h : Account cfg kids bill f ls) (hB : Brood f ls)
    (hpre : (ls t).allows (.inr (.readAll k)))
    (hlearn : (ls t).learns (.inr (.readAll k))
      (Fleet.exec cfg out kids t (.inr (.readAll k)) f).1 l') :
    Account cfg kids bill (Fleet.exec cfg out kids t (.inr (.readAll k)) f).2
      (Function.update ls t l') := by
  obtain ⟨p, u, c₀, hl⟩ := hpre
  rw [hl] at hlearn
  obtain rfl := hlearn p u c₀ k rfl
  have hdeposit : (ls t).deposit = some ⟨p, u, c₀, k⟩ := by rw [hl]; rfl
  have hcovers := h.deposit t _ hdeposit
  obtain ⟨c, hc, -, -, hcalls⟩ := hcovers.child
  have hc' : (Fleet.exec cfg out kids t (.inr (.readAll k)) f).2.procs[k]? =
      some (c.finish cfg (kids k)) := by
    simp only [Fleet.exec, Fleet.getElem_adjust, if_true, hc, Option.map_some]
  have hlater : c.Later (c.finish cfg (kids k)) := c.later_finish (kids k)
  refine h.move (fun _ hp => by cases hp) (fun _ _ _ _ => rfl)
    (fun j c' hc' => h.covered_exec hB rfl hc') ?_ ?_ le_rfl ?_ h.remaining h.total
  · rintro x ⟨⟩
    exact hcovers.later
  · intro x hx
    have hraw : (Fleet.exec cfg out kids t (.inr (.readAll k)) f).1 =
        (c.finish cfg (kids k)).received cfg (kids k) := by
      have hget : (f.adjust k fun c => c.finish cfg (kids k)).procs[k]? =
          some (c.finish cfg (kids k)) := hc'
      simp only [Fleet.exec, Fleet.receivedFrom, hget]
    rw [hraw] at hx
    cases hphase : (c.finish cfg (kids k)).phase with
    | reported =>
      simp only [ChildProc.received, hphase, Desk.tally] at hx
      cases hx
      refine ⟨_, hc', c.ended_finish (kids k), ?_⟩
      have hunits : 0 ≤ (c.finish cfg (kids k)).units := by
        rw [hlater.units]
        exact h.units k c hc
      have hreport := ChildProc.replies_le_report (h.straight k c hc).finish hunits hphase
      rw [hlater.callsBefore, hcalls] at hreport
      exact hreport
    | dead torn =>
      cases torn <;> simp [ChildProc.received, hphase, Desk.tally] at hx
    | running | writing => simp [ChildProc.received, hphase, Desk.tally] at hx
  · have hnone : (Desk.holding p (.heard u c₀ k
        (Fleet.exec cfg out kids t (.inr (.readAll k)) f).1)).pending = (ls t).pending := by
      rw [hl]
      rfl
    rw [length_procs rfl, sum_workers_update_of_eq Desk.pending ls t hnone]
    exact h.spent

/-- **The step lemma.** -/
lemma Account.step (h : Account cfg kids bill f ls) (hI : Custody f ls) (hB : Brood f ls)
    (hpre : (ls t).allows o) (hlearn : (ls t).learns o (Fleet.exec cfg out kids t o f).1 l') :
    ∃ bill', Account cfg kids bill' (Fleet.exec cfg out kids t o f).2 (Function.update ls t l') := by
  cases ho : deals o with
  | false => exact ⟨bill, h.same hB ho hpre hlearn⟩
  | true =>
    rcases o with (o | o) | o
    · cases ho
    · cases o with
      | acquireUpTo units => exact ⟨bill, h.acquire hI hB hpre hlearn⟩
      | refund units => exact h.refund hI hpre hlearn
      | assign q a | runChild q => cases ho
    · cases o with
      | fork q => exact h.fork hI hB hpre hlearn
      | readAll k => exact ⟨bill, h.readAll hB hpre hlearn⟩
      | _ => cases ho

end

/-! ### The beginning -/

lemma account_fresh {quota : Quota} (hquota : quota.remaining = quota.total)
    (htotal : 0 ≤ quota.total) :
    Account cfg kids 0 { world := freshWorld n quota } (Desk.start : Tid n → Desk) := by
  have hidle : ∀ t : Tid n, (Desk.start t).deposit = none ∧ (Desk.start t).tally = none ∧
      (Desk.start t).pending = 0 := by
    intro t
    cases t <;> exact ⟨rfl, rfl, rfl⟩
  constructor
  case straight => exact fun k c hc => by cases hc
  case units => exact fun k c hc => by cases hc
  case covered => exact fun k c hc => by cases hc
  case deposit =>
    intro t x hx
    rw [(hidle t).1] at hx
    cases hx
  case tally =>
    intro t x hx
    rw [(hidle t).2.1] at hx
    cases hx
  case pending => exact fun t => (hidle t).2.2.ge
  case spent =>
    have hnone : ∑ i : Fin n, (Desk.start (.worker i : Tid n)).pending = 0 :=
      Finset.sum_eq_zero fun i _ => (hidle (.worker i)).2.2
    rw [hnone]
    simp [freshWorld, Quota.used, hquota]
  case remaining => exact hquota.symm ▸ htotal
  case total => exact htotal

end Gcos.Process
