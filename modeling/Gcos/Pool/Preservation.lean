import Gcos.Pool.Invariant

/-!
# Every operation keeps the invariant

One lemma for each kind of operation, and `inv_step`, which collects them: whatever
operation the discipline lets a thread perform, the thread can be given a note that
agrees with the answer, and the invariant holds again.
-/

namespace Gcos.Pool

open Lib Note World

variable {n : ℕ}

/-! ### Ownership -/

section Ownership

variable {q enqueued : List Pid} {next : ℕ} {loc : Tid n → Local} {t : Tid n} {x : Local}
  {pcbs : Pid → AgentControlBlock} {p : Pid}

/-- An agent that is in a field of at most one thread still is if nobody else has what
thread `t` puts there. -/
lemma once_update (f : Local → Option Pid)
    (honce : ∀ u v p, f (loc u) = some p → f (loc v) = some p → u = v)
    (hfree : ∀ p, f x = some p → ∀ u, u ≠ t → f (loc u) ≠ some p) (u v : Tid n) (p : Pid)
    (hu : f (Function.update loc t x u) = some p) (hv : f (Function.update loc t x v) = some p) :
    u = v := by
  rcases update_cases f hu with ⟨rfl, hxu⟩ | ⟨hut, hu'⟩
  · rcases update_cases f hv with ⟨rfl, -⟩ | ⟨hvt, hv'⟩
    · rfl
    · exact absurd hv' (hfree p hxu v hvt)
  · rcases update_cases f hv with ⟨rfl, hxv⟩ | ⟨-, hv'⟩
    · exact absurd hu' (hfree p hxv u hut)
    · exact honce u v p hu' hv'

/-- Nobody comes to have more in hand. -/
lemma Owned.relax (h : Owned q enqueued next loc)
    (hheld : ∀ p, x.held = some p → (loc t).held = some p)
    (hfresh : ∀ p, x.fresh = some p → (loc t).fresh = some p) :
    Owned q enqueued next (Function.update loc t x) := by
  have hheld' : ∀ u p, (Function.update loc t x u).held = some p → (loc u).held = some p := by
    intro u p hu
    rcases update_cases Local.held hu with ⟨rfl, hx⟩ | ⟨-, hu⟩
    · exact hheld p hx
    · exact hu
  have hfresh' : ∀ u p, (Function.update loc t x u).fresh = some p → (loc u).fresh = some p := by
    intro u p hu
    rcases update_cases Local.fresh hu with ⟨rfl, hx⟩ | ⟨-, hu⟩
    · exact hfresh p hx
    · exact hu
  exact ⟨h.nodup, h.queued, fun u p hu => h.held u p (hheld' u p hu),
    fun u v p hu hv => h.held_once u v p (hheld' u p hu) (hheld' v p hv),
    fun u p hu => h.fresh u p (hfresh' u p hu),
    fun u v p hu hv => h.fresh_once u v p (hfresh' u p hu) (hfresh' v p hv), h.allocated⟩

/-- An entry leaves the queue. -/
lemma Owned.erase (h : Owned q enqueued next loc) : Owned (q.erase p) enqueued next loc :=
  ⟨h.nodup.erase p, fun r hr => h.queued r (List.mem_of_mem_erase hr),
    fun u r hu => ⟨(h.held u r hu).1, fun hr => (h.held u r hu).2 (List.mem_of_mem_erase hr)⟩,
    h.held_once, h.fresh, h.fresh_once, h.allocated⟩

/-- An entry leaves the queue for the hands of a thread that holds nothing. -/
lemma Owned.take (h : Owned q enqueued next loc) (hp : p ∈ q) (hx : x.held = some p)
    (hfresh : x.fresh = none) : Owned (q.erase p) enqueued next (Function.update loc t x) := by
  have hpq : p ∉ q.erase p := fun hmem => (h.nodup.mem_erase_iff.1 hmem).1 rfl
  have hnone : ∀ r, x.fresh ≠ some r := by simp [hfresh]
  have herased := h.erase (p := p)
  refine ⟨herased.nodup, herased.queued, fun u r hu => ?_,
    once_update Local.held h.held_once fun r hr u _ hu => ?_, fun u r hu => ?_,
    once_update Local.fresh h.fresh_once fun r hr => absurd hr (hnone r), h.allocated⟩
  · rcases update_cases Local.held hu with ⟨-, hr⟩ | ⟨-, hu⟩
    · rw [hx] at hr
      cases hr
      exact ⟨h.queued p hp, hpq⟩
    · exact herased.held u r hu
  · -- what is in the queue is in nobody's hands
    rw [hx] at hr
    cases hr
    exact (h.held u p hu).2 hp
  · rcases update_cases Local.fresh hu with ⟨-, hr⟩ | ⟨-, hu⟩
    · exact absurd hr (hnone r)
    · exact h.fresh u r hu

/-- Once `p` is out of everybody's hands it may be appended to the queue. -/
lemma Owned.append (h : Owned q enqueued next loc) (hq : p ∉ q) (hp : p ∈ enqueued)
    (hheld : ∀ u, (loc u).held ≠ some p) : Owned (q ++ [p]) enqueued next loc := by
  refine ⟨h.nodup.append (List.nodup_singleton p) (by simpa using hq), fun r hr => ?_,
    fun u r hu => ⟨(h.held u r hu).1, fun hr => ?_⟩, h.held_once, h.fresh, h.fresh_once,
    h.allocated⟩
  · rcases List.mem_append.1 hr with hr | hr
    · exact h.queued r hr
    · rwa [List.mem_singleton.1 hr]
  · rcases List.mem_append.1 hr with hr | hr
    · exact (h.held u r hu).2 hr
    · exact hheld u (by rw [hu, List.mem_singleton.1 hr])

/-- The holder puts its agent back. -/
lemma Owned.putBack (h : Owned q enqueued next loc) (hp : (loc t).held = some p)
    (hheld : x.held = none) (hfresh : x.fresh = none) :
    Owned (q ++ [p]) enqueued next (Function.update loc t x) := by
  have hrelax : Owned q enqueued next (Function.update loc t x) :=
    h.relax (by simp [hheld]) (by simp [hfresh])
  refine hrelax.append (h.held t p hp).2 (h.held t p hp).1 fun u hu => ?_
  rcases update_cases Local.held hu with ⟨-, hx⟩ | ⟨hut, hu⟩
  · rw [hheld] at hx
    cases hx
  · exact hut (h.held_once u t p hu hp)

/-- The spawner enqueues its agent. -/
lemma Owned.enqueue (h : Owned q enqueued next loc) (hp : (loc t).fresh = some p)
    (hheld : x.held = none) (hfresh : x.fresh = none) :
    Owned (q ++ [p]) (enqueued ++ [p]) next (Function.update loc t x) := by
  obtain ⟨hnew, halloc⟩ := h.fresh t p hp
  have hrelax : Owned q enqueued next (Function.update loc t x) :=
    h.relax (by simp [hheld]) (by simp [hfresh])
  have hold : ∀ r ∈ enqueued, r ∈ enqueued ++ [p] := fun r hr => List.mem_append_left _ hr
  have hgrown : Owned q (enqueued ++ [p]) next (Function.update loc t x) := by
    refine ⟨hrelax.nodup, fun r hr => hold r (hrelax.queued r hr), fun u r hu =>
      ⟨hold r (hrelax.held u r hu).1, (hrelax.held u r hu).2⟩, hrelax.held_once, fun u r hu => ?_,
      hrelax.fresh_once, fun r hr => ?_⟩
    · refine ⟨fun hr => ?_, (hrelax.fresh u r hu).2⟩
      rcases List.mem_append.1 hr with hr | hr
      · exact (hrelax.fresh u r hu).1 hr
      · -- the spawner was the only one who had it
        rw [List.mem_singleton.1 hr] at hu
        rcases update_cases Local.fresh hu with ⟨-, hx⟩ | ⟨hut, hu⟩
        · rw [hfresh] at hx
          cases hx
        · exact hut (h.fresh_once u t p hu hp)
    · rcases List.mem_append.1 hr with hr | hr
      · exact h.allocated r hr
      · rwa [List.mem_singleton.1 hr]
  refine hgrown.append (fun hq => hnew (h.queued p hq)) (by simp) fun u hu => ?_
  exact hnew (hrelax.held u p hu).1

/-- A new pid is handed out. -/
lemma Owned.allocate (h : Owned q enqueued next loc) (hnext : 1 ≤ next)
    (hx : x.fresh = some (next : ℤ)) (hheld : x.held = none) :
    Owned q enqueued (next + 1) (Function.update loc t x) := by
  have hmono : ∀ r : ℤ, Allocated next r → Allocated (next + 1) r := by
    intro r hr
    exact ⟨hr.1, by push_cast; linarith [hr.2]⟩
  have hnew : ¬Allocated next next := fun hr => lt_irrefl _ hr.2
  have hnone : ∀ r, x.held ≠ some r := by simp [hheld]
  refine ⟨h.nodup, h.queued, fun u r hu => ?_,
    once_update Local.held h.held_once fun r hr => absurd hr (hnone r), fun u r hu => ?_,
    once_update Local.fresh h.fresh_once fun r hr u _ hu => ?_,
    fun r hr => hmono r (h.allocated r hr)⟩
  · rcases update_cases Local.held hu with ⟨-, hr⟩ | ⟨-, hu⟩
    · exact absurd hr (hnone r)
    · exact h.held u r hu
  · rcases update_cases Local.fresh hu with ⟨-, hr⟩ | ⟨-, hu⟩
    · rw [hx] at hr
      cases hr
      refine ⟨fun hmem => hnew (h.allocated _ hmem), by exact_mod_cast hnext, ?_⟩
      push_cast
      exact Int.lt_succ _
    · exact ⟨(h.fresh u r hu).1, hmono r (h.fresh u r hu).2⟩
  · -- nobody has a pid that has not been handed out
    rw [hx] at hr
    cases hr
    exact hnew (h.fresh u _ hu).2

end Ownership

/-! ### Keeping and conservation -/

section

variable {q q' enqueued : List Pid} {loc loc' : Tid n → Local}
  {pcbs pcbs' : Pid → AgentControlBlock} {w w' : World n} {t : Tid n} {x : Local}

/-- Nothing leaves the queue or the hands of a thread, and nothing is revived. -/
lemma Kept.mono (h : Kept q enqueued pcbs loc) (hq : q ⊆ q')
    (hloc : ∀ u p, (loc u).held = some p → (loc' u).held = some p)
    (hterm : ∀ p ∈ enqueued, (pcbs p).isTerminal = true → (pcbs' p).isTerminal = true) :
    Kept q' enqueued pcbs' loc' := by
  intro p hp hlive
  have hlive' : (pcbs p).isTerminal = false := by
    by_contra hdead
    rw [hterm p hp (by simpa using hdead)] at hlive
    cases hlive
  rcases h p hp hlive' with hp | ⟨u, hu⟩
  · exact .inl (hq hp)
  · exact .inr ⟨u, hloc u p hu⟩

lemma held_update (hx : x.held = (loc t).held) (u : Tid n) (p : Pid)
    (hu : (loc u).held = some p) : (Function.update loc t x u).held = some p := by
  by_cases hut : u = t
  · subst hut
    rw [Function.update_self, hx, hu]
  · rwa [Function.update_of_ne hut]

/-- A step that moves no unit. -/
lemma Conserved.keep (h : Conserved w) (hquota : w'.quota = w.quota)
    (hmade : callsMade w'.nextPid w'.pcbs = callsMade w.nextPid w.pcbs)
    (hsum : w'.summaries = w.summaries) (hrep : w'.replies = w.replies)
    (hloc : w'.loc = Function.update w.loc t x) (hunits : x.units = (w.loc t).units)
    (hreplied : x.replied = (w.loc t).replied) : Conserved w' := by
  have hu : overWorkers unitsOf w'.loc = overWorkers unitsOf w.loc := by
    rw [hloc]
    exact overWorkers_update_of_eq _ _ _ (by simp [unitsOf, hunits])
  have hr : overWorkers replyOf w'.loc = overWorkers replyOf w.loc := by
    rw [hloc]
    exact overWorkers_update_of_eq _ _ _ (by simp [replyOf, hreplied])
  refine ⟨?_, ?_, ?_, ?_⟩
  · rw [hquota, hmade, hsum, hu]
    exact h.spent
  · rw [hrep, hmade, hr]
    exact h.replies
  · rw [hquota]
    exact h.remaining
  · rw [hmade]
    exact h.made

lemma flights_keep (h : (w.queue.inFlight : ℤ) = overWorkers flight w.loc)
    (hq : w'.queue.inFlight = w.queue.inFlight) (hloc : w'.loc = Function.update w.loc t x)
    (hx : x.flying = (w.loc t).flying) :
    (w'.queue.inFlight : ℤ) = overWorkers flight w'.loc := by
  rw [hloc, overWorkers_update_of_eq _ _ _ (by simp [flight, hx]), hq]
  exact h

variable {rules : Rules} {ls : Tid n → Note} {l' : Note}

/-- The fields of the world that the invariant speaks about, but for what the threads
have in hand. -/
def core (w : World n) :=
  (w.nextPid, w.pcbs, w.table, w.queue, w.quota, w.stop, w.enqueued, w.replies, w.summaries)

/-- A thread that changes nothing still has in hand what its note says. -/
lemma Inv.loc_eq (h : Inv rules w ls) (t : Tid n) :
    w.loc = Function.update w.loc t (ls t).hand := by
  rw [← h.hand t, Function.update_eq_self]

/-- A note of a held agent says who it is. -/
lemma Inv.held_eq (h : Inv rules w ls) {p : Pid} {busy replied dead : Bool} {units : ℕ} {calls : ℤ}
    (hl : ls t = .holding p busy units replied dead calls) : (w.loc t).held = some p := by
  rw [h.hand t, hl]
  rfl

/-- A thread changes what it has in hand, but neither agents nor units. -/
lemma Inv.rehand (h : Inv rules w ls) (hcore : core w' = core w)
    (hloc : w'.loc = Function.update w.loc t l'.hand)
    (hheld : l'.hand.held = (ls t).hand.held)
    (hfresh : ∀ p, l'.hand.fresh = some p → (ls t).hand.fresh = some p)
    (hflying : l'.hand.flying = (ls t).hand.flying) (hunits : l'.hand.units = (ls t).hand.units)
    (hreplied : l'.hand.replied = (ls t).hand.replied)
    (hrole : l'.isWorker = (ls t).isWorker) (hseen : ∀ p ∈ l'.seen, Allocated w.nextPid p)
    (hdead : ∀ p, l'.dead = some p → Allocated w.nextPid p ∧ (w.pcbs p).isTerminal = true)
    (hcalls : ∀ p c, l'.calls = some (p, c) → (w.pcbs p).llmCallsUsed = c) :
    Inv rules w' (Function.update ls t l') := by
  simp only [core, Prod.mk.injEq] at hcore
  obtain ⟨h₁, h₂, h₃, h₄, h₅, h₆, h₇, h₈, h₉⟩ := hcore
  rw [← h.hand t] at hheld hfresh hflying hunits hreplied
  refine h.move hloc hrole h₁.ge ?_ ?_ ?_ ?_ ?_ ?_ ?_ ?_ ?_ ?_ fun hm => ?_
  · rw [h₁, h₃]
    exact h.table
  · rw [h₁]
    exact hseen
  · rw [h₁, h₄, h₇, hloc]
    exact h.owned.relax (by simp [hheld]) hfresh
  · rw [h₂]
    exact fun _ _ hp => hp
  · rw [h₁, h₂]
    exact hdead
  · rw [h₂, h₄, h₇, hloc]
    exact fun hloss => (h.kept hloss).mono (List.Subset.refl _) (held_update hheld) fun _ _ hp => hp
  · exact flights_keep h.flights (by rw [h₄]) hloc hflying
  · rw [h₆]
    exact h.stop
  · rw [h₂]
    exact fun _ _ _ _ => rfl
  · rw [h₂]
    exact hcalls
  · exact (h.conserved hm).keep h₅ (by rw [h₁, h₂]) h₉ h₈ hloc hunits hreplied

/-- A thread learns something. -/
lemma Inv.learn (h : Inv rules w ls) (hcore : core w' = core w) (hsame : w'.loc = w.loc)
    (hhand : l'.hand = (ls t).hand) (hrole : l'.isWorker = (ls t).isWorker)
    (hseen : ∀ p ∈ l'.seen, Allocated w.nextPid p)
    (hdead : ∀ p, l'.dead = some p → Allocated w.nextPid p ∧ (w.pcbs p).isTerminal = true)
    (hcalls : ∀ p c, l'.calls = some (p, c) → (w.pcbs p).llmCallsUsed = c) :
    Inv rules w' (Function.update ls t l') := by
  refine h.rehand hcore ?_ (by rw [hhand]) (by rw [hhand]; exact fun _ hp => hp) (by rw [hhand])
    (by rw [hhand]) (by rw [hhand]) hrole hseen hdead hcalls
  rw [hsame, hhand]
  exact h.loc_eq t

/-- Nothing is learned, and the world changes at most outside of what the invariant
speaks about. -/
lemma Inv.frame (h : Inv rules w ls) (hcore : core w' = core w) (hsame : w'.loc = w.loc) :
    Inv rules w' (Function.update ls t (ls t)) :=
  h.learn hcore hsame rfl rfl (h.seen t) (h.dead t) (h.calls t)

end

/-! ### The operations -/

section Operations

variable {cfg : KernelConfig} {out : Outside} {rules : Rules} {w : World n} {ls : Tid n → Note}
  {t : Tid n}

/-- What is to be shown for an operation. -/
def Keeps (cfg : KernelConfig) (out : Outside) (rules : Rules) (w : World n)
    (ls : Tid n → Note) (t : Tid n) {β : Type} (o : KOp β) : Prop :=
  ∃ l', (ls t).learns rules o (exec cfg out t o w).1 l' ∧
    Inv rules (exec cfg out t o w).2 (Function.update ls t l')

lemma isWorker_of_note (h : Inv rules w ls) (hl : (ls t).isWorker = true) : t.isWorker = true := by
  rw [← h.role t, hl]

lemma inv_stopIsSet (h : Inv rules w ls) {site : StopSite}
    (hG : rules.lossless = true → site = .firstStep → w.stop = true →
      ∀ p, (w.loc t).held = some p → (w.pcbs p).isTerminal = true) :
    Keeps cfg out rules w ls t (.stopIsSet site) := by
  have hquiet : rules.quiet = true → w.stop = false := h.stop
  cases hl : ls t with
  | holding p busy units replied dead calls =>
    refine ⟨_, by rw [hl]; exact ⟨hquiet, rfl⟩, ?_⟩
    have hheld : (w.loc t).held = some p := h.held_eq hl
    refine h.learn rfl rfl (by rw [hl]; rfl) (by rw [hl]; rfl) (by simp [Note.seen]) ?_ ?_
    · intro r hr
      have hd : (dead || (rules.lossless && site == .firstStep && w.stop)) = true ∧ p = r := by
        simp only [exec] at hr
        cases hb : (dead || (rules.lossless && site == .firstStep && w.stop)) <;>
          rw [hb] at hr <;> cases hr
        exact ⟨rfl, rfl⟩
      obtain ⟨hd, rfl⟩ := hd
      cases hdead : dead with
      | true => exact h.dead t p (by rw [hl, hdead]; rfl)
      | false =>
        simp only [hdead, Bool.false_or, Bool.and_eq_true, beq_iff_eq] at hd
        exact ⟨h.owned.allocated p (h.owned.held t p hheld).1, hG hd.1.1 hd.1.2 hd.2 p hheld⟩
    · intro r c hr
      exact h.calls t r c (by rw [hl]; exact hr)
  | worker | caller _ _ | spawning _ | released =>
    refine ⟨ls t, by rw [hl]; exact ⟨hquiet, rfl⟩, h.frame rfl rfl⟩

lemma inv_setStop (h : Inv rules w ls) (hpre : (ls t).allows rules .setStop) :
    Keeps cfg out rules w ls t .setStop := by
  refine ⟨ls t, rfl, ?_⟩
  have hloc := h.loc_eq t
  exact h.move hloc rfl le_rfl h.table (h.seen t) h.owned (fun _ _ hp => hp) (h.dead t) h.kept
    h.flights (fun hq => by rw [hpre.2] at hq; cases hq) (fun _ _ _ _ => rfl) (h.calls t)
    fun hm => (h.conserved hm).keep rfl rfl rfl rfl hloc (by rw [h.hand t]) (by rw [h.hand t])

lemma inv_readPcb {look : Look} (h : Inv rules w ls) {p : Pid}
    (hpre : (ls t).allows rules (.readPcb p look)) :
    Keeps cfg out rules w ls t (.readPcb p look) := by
  cases hl : ls t with
  | holding q busy units replied dead calls =>
    rw [hl] at hpre
    obtain rfl : q = p := hpre
    have hheld : (w.loc t).held = some q := h.held_eq hl
    have hcalls := h.calls t q calls (by rw [hl]; rfl)
    refine ⟨_, by rw [hl]; exact ⟨hcalls, rfl⟩, ?_⟩
    refine h.learn rfl rfl (by rw [hl]; rfl) (by rw [hl]; rfl) (by simp [Note.seen]) ?_ ?_
    · intro r hr
      have halloc := h.owned.allocated q (h.owned.held t q hheld).1
      cases hdead : dead with
      | true =>
        simp only [exec, hdead, Bool.true_or, Note.dead, Option.some.injEq] at hr
        exact h.dead t r (by rw [hl, hdead, ← hr]; rfl)
      | false =>
        cases hterm : (w.pcbs q).isTerminal with
        | true =>
          simp only [exec, hterm, Bool.or_true, Note.dead, Option.some.injEq] at hr
          exact hr ▸ ⟨halloc, hterm⟩
        | false =>
          simp only [exec, hterm, hdead, Bool.or_false, Note.dead] at hr
          cases hr
    · intro r c hr
      exact h.calls t r c (by rw [hl]; exact hr)
  | caller _ _ | spawning _ =>
    exact ⟨ls t, by rw [hl]; rfl, h.frame rfl rfl⟩
  | worker | released =>
    rw [hl] at hpre
    exact hpre.elim

lemma inv_tableHas (h : Inv rules w ls) {p : Pid} : Keeps cfg out rules w ls t (.tableHas p) := by
  cases hl : ls t with
  | caller ps d =>
    refine ⟨_, by rw [hl]; rfl, ?_⟩
    have hseen := h.seen t
    have hdead := h.dead t
    rw [hl] at hseen hdead
    refine h.learn rfl rfl (by rw [hl]; rfl) (by rw [hl]; rfl) ?_ hdead (by simp [Note.calls])
    intro r hr
    by_cases hp : p ∈ w.table
    · simp only [exec, hp, decide_true, if_true, Note.seen, List.mem_cons] at hr
      rcases hr with rfl | hr
      · exact h.table r hp
      · exact hseen r hr
    · simp only [exec, hp, decide_false, Note.seen] at hr
      exact hseen r hr
  | worker | spawning _ | holding _ _ _ _ _ _ | released =>
    exact ⟨ls t, by rw [hl]; rfl, h.frame rfl rfl⟩

/-! #### Writing -/

lemma exec_plainWrite {p : Pid} {c : Write} (hc : c.countsCall = false) :
    exec cfg out t (.write p c) w = ((),
      { w with
        pcbs := Function.update w.pcbs p (c.apply (w.clockFrom out) (w.pcbs p))
        ticks := w.ticks + c.ticks (w.pcbs p) }) := by
  cases c <;> first | rfl | cases hc

/-- No write revives an agent. -/
lemma isTerminal_write (pcbs : Pid → AgentControlBlock) (p : Pid) (c : Write) (clock : ℕ → Time)
    (r : Pid) (hr : (pcbs r).isTerminal = true) :
    (Function.update pcbs p (c.apply clock (pcbs p)) r).isTerminal = true := by
  by_cases hrp : r = p
  · subst hrp
    rw [Function.update_self, Write.isTerminal_apply]
    exact .inl hr
  · rwa [Function.update_of_ne hrp]

/-- A write that counts no call.  The writer may learn that the block is terminal. -/
lemma inv_writeOf (h : Inv rules w ls) {p : Pid} {c : Write} (hc : c.countsCall = false)
    {l' : Note} (hhand : l'.hand = (ls t).hand) (hrole : l'.isWorker = (ls t).isWorker)
    (hseen : l'.seen = (ls t).seen) (hcalls : l'.calls = (ls t).calls)
    (hdead : ∀ r, l'.dead = some r → (ls t).dead = some r ∨
      r = p ∧ Allocated w.nextPid p ∧ ∃ st, c = .transition st ∧ st.isTerminal = true) :
    Inv rules (exec cfg out t (.write p c) w).2 (Function.update ls t l') := by
  have hcount : ∀ r,
      (Function.update w.pcbs p (c.apply (w.clockFrom out) (w.pcbs p)) r).llmCallsUsed =
        (w.pcbs r).llmCallsUsed := by
    intro r
    by_cases hr : r = p
    · subst hr
      rw [Function.update_self, Write.llmCallsUsed_apply, hc]
      simp
    · rw [Function.update_of_ne hr]
  have hterm := isTerminal_write w.pcbs p c (w.clockFrom out)
  have hloc : w.loc = Function.update w.loc t l'.hand := by
    rw [hhand]
    exact h.loc_eq t
  rw [exec_plainWrite hc]
  refine h.move hloc hrole le_rfl h.table (by rw [hseen]; exact h.seen t) h.owned
    (fun r _ => hterm r) (fun r hr => ?_) (fun hloss => (h.kept hloss).mono (List.Subset.refl _)
    (fun _ _ hu => hu) fun r _ => hterm r) h.flights h.stop (fun _ r _ _ => hcount r)
    (fun r k hr => ?_) fun hm => ?_
  · rcases hdead r hr with hr | ⟨rfl, halloc, st, rfl, hst⟩
    · exact ⟨(h.dead t r hr).1, hterm r (h.dead t r hr).2⟩
    · refine ⟨halloc, ?_⟩
      simp only [Function.update_self]
      rw [Write.isTerminal_apply]
      exact .inr ⟨st, rfl, hst⟩
  · rw [hcalls] at hr
    exact (hcount r).trans (h.calls t r k hr)
  · exact (h.conserved hm).keep rfl (callsMade_congr hcount) rfl rfl hloc (by rw [hhand, h.hand t])
      (by rw [hhand, h.hand t])

/-- The holder counts a call: the unit in hand is used up. -/
lemma inv_countCall (h : Inv rules w ls) {p : Pid} {tokens : ℤ} {dead : Bool} {calls : ℤ}
    (hl : ls t = .holding p true 1 true dead calls) :
    Keeps cfg out rules w ls t (.write p (.countCall tokens)) := by
  have hheld : (w.loc t).held = some p := h.held_eq hl
  have halloc := h.owned.allocated p (h.owned.held t p hheld).1
  have hworker := isWorker_of_note h (by rw [hl]; rfl)
  have hcalls := h.calls t p calls (by rw [hl]; rfl)
  set pcb := Write.apply (w.clockFrom out) (w.pcbs p) (.countCall tokens) with hpcb
  have hcount : pcb.llmCallsUsed = (w.pcbs p).llmCallsUsed + 1 := rfl
  have hother : ∀ r, r ≠ p → Function.update w.pcbs p pcb r = w.pcbs r :=
    fun r hr => Function.update_of_ne hr _ _
  have hterm : ∀ r, (w.pcbs r).isTerminal = true →
      (Function.update w.pcbs p pcb r).isTerminal = true :=
    isTerminal_write w.pcbs p (.countCall tokens) (w.clockFrom out)
  refine ⟨.holding p true 0 false dead (calls + 1), by rw [hl]; rfl, ?_⟩
  have hloc :
      Function.update w.loc t { w.loc t with units := (w.loc t).units - 1, replied := false } =
        Function.update w.loc t (Note.holding p true 0 false dead (calls + 1)).hand := by
    rw [h.hand t, hl]
    rfl
  refine h.move hloc (by rw [hl]; rfl) le_rfl h.table (by simp [Note.seen]) ?_ (fun r _ => hterm r)
    ?_ ?_ ?_ h.stop ?_ ?_ ?_
  · exact h.owned.relax (fun r hr => hr) fun r hr => hr
  · intro r hr
    cases dead with
    | false => cases hr
    | true =>
      obtain rfl : p = r := by simpa [Note.dead] using hr
      exact ⟨halloc, hterm p (h.dead t p (by rw [hl]; rfl)).2⟩
  · intro hloss
    exact (h.kept hloss).mono (List.Subset.refl _) (held_update rfl) fun r _ => hterm r
  · exact flights_keep h.flights rfl rfl rfl
  · intro u r hu hr
    have hrp : r ≠ p := by
      rintro rfl
      exact hu (h.owned.held_once u t r hr hheld)
    exact congrArg _ (hother r hrp)
  · intro r c hr
    cases hr
    change (Function.update w.pcbs p pcb p).llmCallsUsed = calls + 1
    rw [Function.update_self, hcount, hcalls]
  · intro hm
    obtain ⟨hspent, hreplies, hrem, hnonneg⟩ := h.conserved hm
    have hmade := callsMade_count halloc.1 halloc.2 hcount
    have hlt : w.loc t = (Note.holding p true 1 true dead calls).hand := by rw [h.hand t, hl]
    refine ⟨?_, ?_, hrem, hmade.symm ▸ by linarith⟩
    · change w.quota.total - w.quota.remaining =
        callsMade w.nextPid (Function.update w.pcbs p pcb) + w.summaries +
          overWorkers unitsOf (Function.update w.loc t _)
      rw [hmade, overWorkers_update _ _ hworker, hlt, hspent]
      simp only [unitsOf, Note.hand]
      push_cast
      ring
    · change (w.replies : ℤ) = callsMade w.nextPid (Function.update w.pcbs p pcb) +
        overWorkers replyOf (Function.update w.loc t _)
      rw [hmade, overWorkers_update _ _ hworker, hlt, hreplies]
      simp only [replyOf, Note.hand, if_true, Bool.false_eq_true, if_false]
      ring

lemma inv_write (h : Inv rules w ls) {p : Pid} {c : Write}
    (hpre : (ls t).allows rules (.write p c)) : Keeps cfg out rules w ls t (.write p c) := by
  cases hl : ls t with
  | holding q busy units replied dead calls =>
    rw [hl] at hpre
    obtain ⟨rfl, -, hcount⟩ := hpre
    have hheld : (w.loc t).held = some q := h.held_eq hl
    cases c with
    | countCall tokens =>
      obtain ⟨rfl, rfl, rfl⟩ := hcount rfl
      exact inv_countCall h hl
    | transition st =>
      refine ⟨.holding q busy units replied (dead || st.isTerminal) calls, by rw [hl]; rfl, ?_⟩
      refine inv_writeOf h rfl (by rw [hl]; rfl) (by rw [hl]; rfl) (by rw [hl]; rfl)
        (by rw [hl]; rfl) fun r hr => ?_
      cases dead with
      | true => exact .inl (by rw [hl]; exact hr)
      | false =>
        cases hst : st.isTerminal with
        | false =>
          rw [hst] at hr
          cases hr
        | true =>
          rw [hst] at hr
          cases hr
          exact .inr ⟨rfl, h.owned.allocated q (h.owned.held t q hheld).1, st, rfl, hst⟩
    | _ =>
      refine ⟨ls t, by rw [hl]; rfl, ?_⟩
      exact inv_writeOf h rfl rfl rfl rfl rfl fun r hr => .inl hr
  | caller ps d =>
    rw [hl] at hpre
    have hcount : c.countsCall = false := hpre
    cases c with
    | transition st =>
      refine ⟨.caller ps (if p ∈ ps ∧ st.isTerminal = true then some p else d),
        by rw [hl]; rfl, ?_⟩
      refine inv_writeOf h rfl (by rw [hl]; rfl) (by rw [hl]; rfl) (by rw [hl]; rfl)
        (by rw [hl]; rfl) fun r hr => ?_
      by_cases hp : p ∈ ps ∧ st.isTerminal = true
      · simp only [Note.dead, if_pos hp, Option.some.injEq] at hr
        exact .inr ⟨hr.symm, h.seen t p (by rw [hl]; exact hp.1), st, rfl, hp.2⟩
      · simp only [Note.dead, if_neg hp] at hr
        exact .inl (by rw [hl]; exact hr)
    | countCall tokens => cases hcount
    | _ =>
      refine ⟨ls t, by rw [hl]; rfl, ?_⟩
      exact inv_writeOf h rfl rfl rfl rfl rfl fun r hr => .inl hr
  | spawning q =>
    rw [hl] at hpre
    have hcount : c.countsCall = false := hpre
    refine ⟨ls t, ?_, inv_writeOf h hcount rfl rfl rfl rfl fun r hr => .inl hr⟩
    rw [hl]
    cases c <;> rfl
  | worker | released =>
    rw [hl] at hpre
    exact hpre.elim

/-! #### Spawning -/

lemma inv_newPcb (h : Inv rules w ls) {args : SpawnArgs}
    (hpre : (ls t).allows rules (.newPcb args)) : Keeps cfg out rules w ls t (.newPcb args) := by
  obtain ⟨ps, d, hl⟩ := hpre
  have hnew : ∀ r : ℤ, Allocated w.nextPid r → r ≠ w.nextPid := fun r hr => hr.2.ne
  have hother : ∀ r : ℤ, Allocated w.nextPid r → Function.update w.pcbs (w.nextPid : ℤ)
      (newBlock cfg args w.nextPid (out.clock w.ticks)) r = w.pcbs r :=
    fun r hr => Function.update_of_ne (hnew r hr) _ _
  have hmono : ∀ r : ℤ, Allocated w.nextPid r → Allocated (w.nextPid + 1) r := by
    intro r hr
    exact ⟨hr.1, by push_cast; linarith [hr.2]⟩
  refine ⟨.spawning w.nextPid, rfl, ?_⟩
  have hlt : w.loc t = (Note.caller ps d).hand := by rw [h.hand t, hl]
  have hloc : Function.update w.loc t { w.loc t with fresh := some (w.nextPid : ℤ) } =
      Function.update w.loc t (Note.spawning w.nextPid).hand := by
    rw [hlt]
    rfl
  refine h.move hloc (by rw [hl]; rfl) (Nat.le_succ _) (fun r hr => hmono r (h.table r hr))
    (by simp [Note.seen]) ?_ ?_ (by simp [Note.dead]) ?_ ?_ h.stop ?_ (by simp [Note.calls]) ?_
  · exact h.owned.allocate h.positive rfl (by rw [hlt]; rfl)
  · intro r hr hterm
    exact (congrArg _ (hother r hr)).trans hterm
  · intro hloss
    refine (h.kept hloss).mono (List.Subset.refl _) (held_update rfl) fun r hr hterm => ?_
    exact (congrArg _ (hother r (h.owned.allocated r hr))).trans hterm
  · exact flights_keep h.flights rfl rfl rfl
  · intro u r _ hr
    exact congrArg _ (hother r (h.owned.allocated r (h.owned.held u r hr).1))
  · intro hm
    -- the sum over all agents gets a new term, which is zero
    have hmade : callsMade (w.nextPid + 1) (Function.update w.pcbs (w.nextPid : ℤ)
        (newBlock cfg args w.nextPid (out.clock w.ticks))) = callsMade w.nextPid w.pcbs :=
      callsMade_spawn h.positive rfl
    exact (h.conserved hm).keep rfl hmade rfl rfl rfl rfl rfl

/-- A spawner gives up. -/
lemma inv_forget (h : Inv rules w ls) {p : Pid} (hl : ls t = .spawning p) :
    Inv rules (w.note t fun l => { l with fresh := none })
      (Function.update ls t (.caller [] none)) := by
  have hloc : Function.update w.loc t { w.loc t with fresh := none } =
      Function.update w.loc t (Note.caller [] none).hand := by
    rw [h.hand t, hl]
    rfl
  refine h.rehand rfl hloc ?_ (by simp [Note.hand]) ?_ ?_ ?_ ?_ (by simp [Note.seen])
    (by simp [Note.dead]) (by simp [Note.calls])
  all_goals
    rw [hl]
    rfl

lemma inv_tableAdd (h : Inv rules w ls) {p : Pid} (hl : ls t = .spawning p) :
    Keeps cfg out rules w ls t (.tableAdd p) := by
  have halloc : Allocated w.nextPid p :=
    (h.owned.fresh t p (by rw [h.hand t, hl]; rfl)).2
  by_cases hp : p ∈ w.table
  · refine ⟨.caller [] none, by simp [Note.learns, exec, hp], ?_⟩
    simp only [exec, hp, if_true]
    exact inv_forget h hl
  · refine ⟨ls t, by simp [Note.learns, exec, hp], ?_⟩
    simp only [exec, hp, if_false]
    have hloc := h.loc_eq t
    refine h.move hloc rfl le_rfl ?_ (h.seen t) h.owned (fun _ _ hr => hr) (h.dead t) h.kept
      h.flights h.stop (fun _ _ _ _ => rfl) (h.calls t) fun hm => ?_
    · intro r hr
      rcases List.mem_append.1 hr with hr | hr
      · exact h.table r hr
      · rwa [List.mem_singleton.1 hr]
    · exact (h.conserved hm).keep rfl rfl rfl rfl hloc (by rw [h.hand t]) (by rw [h.hand t])

lemma inv_tableRemove (h : Inv rules w ls) {p : Pid} :
    Keeps cfg out rules w ls t (.tableRemove p) := by
  refine ⟨ls t, rfl, ?_⟩
  have hloc := h.loc_eq t
  refine h.move hloc rfl le_rfl (fun r hr => h.table r (List.mem_of_mem_erase hr)) (h.seen t)
    h.owned (fun _ _ hr => hr) (h.dead t) h.kept h.flights h.stop (fun _ _ _ _ => rfl) (h.calls t)
    fun hm => ?_
  exact (h.conserved hm).keep rfl rfl rfl rfl hloc (by rw [h.hand t]) (by rw [h.hand t])

/-! #### The queue -/

lemma inv_pickNext (h : Inv rules w ls) (hl : ls t = .worker) :
    Keeps cfg out rules w ls t .pickNext := by
  have hlt : w.loc t = (Note.worker).hand := by rw [h.hand t, hl]
  have hworker := isWorker_of_note h (by rw [hl]; rfl)
  rcases Scheduler.pickNext_cases w.pcbs (out.clock w.ticks) w.queue cfg.scheduler with
    ⟨-, hpick⟩ | ⟨p, hp, hpick⟩
  · refine ⟨ls t, by simp [Note.learns, exec, hpick], ?_⟩
    simp only [exec, hpick]
    exact h.frame rfl rfl
  · refine ⟨.holding p false 0 false false (w.pcbs p).llmCallsUsed,
      by simp [Note.learns, exec, hpick], ?_⟩
    simp only [exec, hpick]
    have hloc : Function.update w.loc t { w.loc t with held := some p, flying := true } =
        Function.update w.loc t
          (Note.holding p false 0 false false (w.pcbs p).llmCallsUsed).hand := by
      rw [hlt]
      rfl
    refine h.move hloc (by rw [hl]; rfl) le_rfl h.table (by simp [Note.seen]) ?_
      (fun _ _ hr => hr) (by simp [Note.dead]) ?_ ?_ h.stop (fun _ _ _ _ => rfl) ?_ ?_
    · exact h.owned.take hp rfl (by rw [hlt]; rfl)
    · -- the picked agent is now held; the others are where they were
      intro hloss r hr hlive
      by_cases hrp : r = p
      · subst hrp
        exact .inr ⟨t, by simp [note]⟩
      · rcases h.kept hloss r hr hlive with hq | ⟨u, hu⟩
        · exact .inl ((List.mem_erase_of_ne hrp).2 hq)
        · refine .inr ⟨u, ?_⟩
          have hut : u ≠ t := by
            rintro rfl
            rw [hlt] at hu
            cases hu
          simpa [note, Function.update_of_ne hut] using hu
    · change ((w.queue.inFlight + 1 : ℕ) : ℤ) = overWorkers flight (Function.update w.loc t _)
      rw [overWorkers_update _ _ hworker, hlt, ← h.flights]
      simp [flight, Note.hand]
    · intro r c hr
      cases hr
      rfl
    · intro hm
      exact (h.conserved hm).keep rfl rfl rfl rfl rfl rfl rfl

/-- The effect of the transition inside a successful `put`. -/
lemma transition_ready (pcbs : Pid → AgentControlBlock) (p : Pid) (now : Time) (r : Pid) :
    (Function.update pcbs p ((pcbs p).transition .ready now) r).isTerminal = (pcbs r).isTerminal ∧
      (Function.update pcbs p ((pcbs p).transition .ready now) r).llmCallsUsed =
        (pcbs r).llmCallsUsed := by
  by_cases hr : r = p
  · subst hr
    simp [AgentState.isTerminal]
  · simp [Function.update_of_ne hr]

/-- A worker puts its agent back, unless it has become terminal. -/
lemma inv_putHeld (h : Inv rules w ls) {p : Pid} {dead : Bool} {calls : ℤ}
    (hl : ls t = .holding p false 0 false dead calls) : Keeps cfg out rules w ls t (.put p) := by
  have hlt : w.loc t = (Note.holding p false 0 false dead calls).hand := by rw [h.hand t, hl]
  have hheld : (w.loc t).held = some p := h.held_eq hl
  have halloc := h.owned.allocated p (h.owned.held t p hheld).1
  cases hterm : (w.pcbs p).isTerminal with
  | true =>
    -- a refused agent stays in hand, and the worker knows that it is terminal
    refine ⟨.holding p false 0 false true calls, by simp [Note.learns, exec, put, hterm, hl], ?_⟩
    have hself : { w.loc t with fresh := none } = w.loc t := by
      rw [hlt]
      rfl
    have hsame : (w.note t fun l => { l with fresh := none }).loc = w.loc := by
      rw [note, hself, Function.update_eq_self]
    simp only [exec, put, hterm, if_true]
    refine h.learn rfl hsame (by rw [hl]; rfl) (by rw [hl]; rfl) (by simp [Note.seen]) ?_ ?_
    · rintro r hr
      cases hr
      exact ⟨halloc, hterm⟩
    · rintro r c hr
      exact h.calls t r c (by rw [hl]; exact hr)
  | false =>
    refine ⟨.released, by simp [Note.learns, exec, put, hterm, hl], ?_⟩
    have hready := transition_ready w.pcbs p (out.clock w.ticks)
    have hloc : Function.update w.loc t { w.loc t with held := none, fresh := none } =
        Function.update w.loc t Note.released.hand := by
      rw [hlt]
      rfl
    have hfresh : (w.loc t).fresh ≠ some p := by
      rw [hlt]
      simp [Note.hand]
    simp only [exec, put, hterm, Bool.false_eq_true, if_false, if_neg hfresh]
    refine h.move hloc (by rw [hl]; rfl) le_rfl h.table (by simp [Note.seen]) ?_
      (fun r _ hr => (hready r).1.trans hr) (by simp [Note.dead]) ?_ ?_ h.stop
      (fun _ r _ _ => (hready r).2) (by simp [Note.calls]) ?_
    · exact h.owned.putBack hheld rfl rfl
    · intro hloss r hr hlive
      rcases h.kept hloss r hr ((hready r).1.symm.trans hlive) with hq | ⟨u, hu⟩
      · exact .inl (List.mem_append_left _ hq)
      -- the agent that was held here is the one that is queued now
      · by_cases hut : u = t
        · subst hut
          rw [hheld] at hu
          cases hu
          exact .inl (by simp [note])
        · exact .inr ⟨u, by simpa [note, Function.update_of_ne hut] using hu⟩
    · exact flights_keep h.flights rfl rfl rfl
    · intro hm
      exact (h.conserved hm).keep rfl (callsMade_congr fun r => (hready r).2) rfl rfl rfl rfl rfl

/-- A spawner enqueues its agent, unless it was killed meanwhile. -/
lemma inv_putFresh (h : Inv rules w ls) {p : Pid} (hl : ls t = .spawning p) :
    Keeps cfg out rules w ls t (.put p) := by
  have hlt : w.loc t = (Note.spawning p).hand := by rw [h.hand t, hl]
  have hfresh : (w.loc t).fresh = some p := by rw [hlt]; rfl
  cases hterm : (w.pcbs p).isTerminal with
  | true =>
    refine ⟨.caller [] none, by simp [Note.learns, hl], ?_⟩
    simp only [exec, put, hterm, if_true]
    exact inv_forget h hl
  | false =>
    refine ⟨.caller [] none, by simp [Note.learns, hl], ?_⟩
    have hready := transition_ready w.pcbs p (out.clock w.ticks)
    have hloc : Function.update w.loc t { w.loc t with held := none, fresh := none } =
        Function.update w.loc t (Note.caller [] none).hand := by
      rw [hlt]
      rfl
    simp only [exec, put, hterm, Bool.false_eq_true, if_false, if_pos hfresh]
    refine h.move hloc (by rw [hl]; rfl) le_rfl h.table (by simp [Note.seen]) ?_
      (fun r _ hr => (hready r).1.trans hr) (by simp [Note.dead]) ?_ ?_ h.stop
      (fun _ r _ _ => (hready r).2) (by simp [Note.calls]) ?_
    · exact h.owned.enqueue hfresh rfl rfl
    · intro hloss r hr hlive
      rcases List.mem_append.1 hr with hr | hr
      · rcases h.kept hloss r hr ((hready r).1.symm.trans hlive) with hq | ⟨u, hu⟩
        · exact .inl (List.mem_append_left _ hq)
        · have hut : u ≠ t := by
            rintro rfl
            rw [hlt] at hu
            cases hu
          exact .inr ⟨u, by simpa [note, Function.update_of_ne hut] using hu⟩
      · exact .inl (List.mem_append_right _ hr)
    · exact flights_keep h.flights rfl rfl rfl
    · intro hm
      exact (h.conserved hm).keep rfl (callsMade_congr fun r => (hready r).2) rfl rfl rfl rfl rfl

lemma inv_put (h : Inv rules w ls) {p : Pid} (hpre : (ls t).allows rules (.put p)) :
    Keeps cfg out rules w ls t (.put p) := by
  rcases hpre with hl | ⟨dead, calls, hl⟩
  · exact inv_putFresh h hl
  · exact inv_putHeld h hl

lemma inv_popQueued (h : Inv rules w ls) {p : Pid}
    (hpre : (ls t).allows rules (.popQueued p)) : Keeps cfg out rules w ls t (.popQueued p) := by
  obtain ⟨ps, hl⟩ := hpre
  refine ⟨ls t, rfl, ?_⟩
  by_cases hp : p ∈ w.queue.q
  · have hdead := (h.dead t p (by rw [hl]; rfl)).2
    have hloc := h.loc_eq t
    simp only [exec, ReadyQueue.pop, if_pos hp]
    refine h.move hloc rfl le_rfl h.table (h.seen t) h.owned.erase (fun _ _ hr => hr) (h.dead t)
      ?_ h.flights h.stop (fun _ _ _ _ => rfl) (h.calls t) fun hm => ?_
    · -- the entry that leaves the queue is terminal
      intro hloss r hr hlive
      refine (h.kept hloss r hr hlive).imp_left fun hq => (List.mem_erase_of_ne ?_).2 hq
      rintro rfl
      rw [hdead] at hlive
      cases hlive
    · exact (h.conserved hm).keep rfl rfl rfl rfl hloc (by rw [h.hand t]) (by rw [h.hand t])
  · simp only [exec, ReadyQueue.pop, if_neg hp]
    exact h.frame rfl rfl

lemma flight_nonneg (l : Local) : 0 ≤ flight l := by
  unfold flight
  split <;> norm_num

/-- A worker that owes a `task_done` is counted as in flight. -/
lemma inFlight_pos (h : Inv rules w ls) (hl : (ls t).hand.flying = true)
    (hw : (ls t).isWorker = true) : 0 < w.queue.inFlight := by
  have hworker := isWorker_of_note h hw
  cases t with
  | client k => cases hworker
  | worker i =>
    have hone : flight (w.loc (.worker i)) = 1 := by simp [flight, h.hand, hl]
    have hle : flight (w.loc (.worker i)) ≤ overWorkers flight w.loc :=
      Finset.single_le_sum (fun j _ => flight_nonneg (w.loc (.worker j))) (Finset.mem_univ i)
    have := h.flights
    omega

lemma inv_taskDone (h : Inv rules w ls) (hpre : (ls t).allows rules .taskDone) :
    Keeps cfg out rules w ls t .taskDone := by
  have hfly : (ls t).hand.flying = true := by
    rcases hpre with hl | ⟨p, dead, calls, hl, -⟩ <;> rw [hl] <;> rfl
  have hrole : (ls t).isWorker = true := by
    rcases hpre with hl | ⟨p, dead, calls, hl, -⟩ <;> rw [hl] <;> rfl
  have hrest : { w.loc t with held := none, flying := false } = Note.worker.hand := by
    rcases hpre with hl | ⟨p, dead, calls, hl, -⟩ <;> rw [h.hand t, hl] <;> rfl
  have hpos := inFlight_pos h hfly hrole
  have hworker := isWorker_of_note h hrole
  refine ⟨.worker, rfl, ?_⟩
  have hdone : w.queue.taskDone = { w.queue with inFlight := w.queue.inFlight - 1 } := by
    rw [ReadyQueue.taskDone, if_pos hpos]
  have hloc : Function.update w.loc t { w.loc t with held := none, flying := false } =
      Function.update w.loc t Note.worker.hand := by rw [hrest]
  simp only [exec, hdone]
  refine h.move hloc (by rw [hrole]; rfl) le_rfl h.table (by simp [Note.seen]) ?_ (fun _ _ hr => hr)
    (by simp [Note.dead]) ?_ ?_ h.stop (fun _ _ _ _ => rfl) (by simp [Note.calls]) ?_
  · exact h.owned.relax (by simp) fun r hr => hr
  · -- an agent that is dropped is terminal
    intro hloss r hr hlive
    refine (h.kept hloss r hr hlive).imp_right ?_
    rintro ⟨u, hu⟩
    refine ⟨u, ?_⟩
    have hut : u ≠ t := by
      rintro rfl
      rw [h.hand u] at hu
      rcases hpre with hl | ⟨p, dead, calls, hl, hdead⟩
      · rw [hl] at hu
        cases hu
      · rw [hl] at hu
        cases hu
        have hterm := (h.dead u r (by rw [hl, hdead hloss]; rfl)).2
        change (w.pcbs r).isTerminal = false at hlive
        rw [hterm] at hlive
        cases hlive
    simpa [note, Function.update_of_ne hut] using hu
  · have hfl := h.flights
    change ((w.queue.inFlight - 1 : ℕ) : ℤ) = overWorkers flight (Function.update w.loc t _)
    rw [overWorkers_update _ _ hworker, ← h.flights]
    have hone : flight (w.loc t) = 1 := by simp [flight, h.hand, hfly]
    have hzero : flight { w.loc t with held := none, flying := false } = 0 := by simp [flight]
    simp only
    rw [hone, hzero]
    omega
  · intro hm
    exact (h.conserved hm).keep rfl rfl rfl rfl rfl rfl rfl

/-! #### The step runner -/

/-- A worker that holds an agent enters or leaves the counter of busy workers. -/
lemma Inv.setBusy (h : Inv rules w ls) {p : Pid} {busy busy' dead : Bool} {units : ℕ} {calls : ℤ}
    (hl : ls t = .holding p busy units false dead calls) {w' : World n} (hcore : core w' = core w)
    (hloc : w'.loc = Function.update w.loc t
      (Note.holding p busy' units false dead calls).hand) :
    Inv rules w' (Function.update ls t (.holding p busy' units false dead calls)) := by
  have hdead := h.dead t
  have hcalls := h.calls t
  rw [hl] at hdead hcalls
  refine h.rehand hcore hloc ?_ (by simp [Note.hand]) ?_ ?_ ?_ ?_ (by simp [Note.seen]) ?_ hcalls
  · rw [hl]; rfl
  · rw [hl]; rfl
  · rw [hl]; rfl
  · rw [hl]; rfl
  · rw [hl]; rfl
  · cases dead <;> exact hdead

lemma inv_enterBusy (h : Inv rules w ls) {p : Pid} (hpre : (ls t).allows rules (.enterBusy p)) :
    Keeps cfg out rules w ls t (.enterBusy p) := by
  obtain ⟨units, dead, calls, hl⟩ := hpre
  have hloc : Function.update w.loc t { w.loc t with running := some p } =
      Function.update w.loc t (Note.holding p true units false dead calls).hand := by
    rw [h.hand t, hl]
    rfl
  exact ⟨.holding p true units false dead calls, by rw [hl]; rfl, h.setBusy hl rfl hloc⟩

lemma inv_leaveBusy (h : Inv rules w ls) (hpre : (ls t).allows rules .leaveBusy) :
    Keeps cfg out rules w ls t .leaveBusy := by
  obtain ⟨p, units, dead, calls, hl⟩ := hpre
  have hloc : Function.update w.loc t { w.loc t with running := none } =
      Function.update w.loc t (Note.holding p false units false dead calls).hand := by
    rw [h.hand t, hl]
    rfl
  exact ⟨.holding p false units false dead calls, by rw [hl]; rfl, h.setBusy hl rfl hloc⟩

/-! #### The quota -/

/-- A worker that holds an agent moves units between the quota, its hand and the
counters. -/
lemma inv_units (h : Inv rules w ls) {p : Pid} {busy replied replied' dead : Bool}
    {units units' : ℕ} {calls : ℤ} (hl : ls t = .holding p busy units replied dead calls)
    {w' : World n}
    (hcore : (w'.nextPid, w'.pcbs, w'.table, w'.queue, w'.stop, w'.enqueued) =
      (w.nextPid, w.pcbs, w.table, w.queue, w.stop, w.enqueued))
    (hloc : w'.loc = Function.update w.loc t
      (Note.holding p busy units' replied' dead calls).hand)
    (hspent : rules.metered = true → w'.quota.total - w'.quota.remaining - w'.summaries =
      w.quota.total - w.quota.remaining - w.summaries + (units' - units))
    (hreplies : (w'.replies : ℤ) = w.replies +
      (replyOf (Note.holding p busy units' replied' dead calls).hand -
        replyOf (Note.holding p busy units replied dead calls).hand))
    (hrem : rules.metered = true → 0 ≤ w'.quota.remaining) :
    Inv rules w' (Function.update ls t (.holding p busy units' replied' dead calls)) := by
  simp only [Prod.mk.injEq] at hcore
  obtain ⟨h₁, h₂, h₃, h₄, h₅, h₆⟩ := hcore
  have hlt : w.loc t = (Note.holding p busy units replied dead calls).hand := by
    rw [h.hand t, hl]
  have hworker := isWorker_of_note h (by rw [hl]; rfl)
  have hdead := h.dead t
  have hcalls := h.calls t
  rw [hl] at hdead hcalls
  refine h.move hloc (by rw [hl]; rfl) h₁.ge ?_ (by simp [Note.seen]) ?_ ?_ ?_ ?_ ?_ ?_ ?_ ?_
    fun hm => ⟨?_, ?_, hrem hm, ?_⟩
  · rw [h₁, h₃]
    exact h.table
  · rw [h₁, h₄, h₆, hloc]
    exact h.owned.relax (by rw [hlt]; exact fun _ hr => hr) (by simp [Note.hand])
  · rw [h₂]
    exact fun _ _ hr => hr
  · rw [h₁, h₂]
    cases dead <;> exact hdead
  · rw [h₂, h₄, h₆, hloc]
    exact fun hloss => (h.kept hloss).mono (List.Subset.refl _) (held_update (by rw [hlt]; rfl))
      fun _ _ hr => hr
  · exact flights_keep h.flights (by rw [h₄]) hloc (by rw [hlt]; rfl)
  · rw [h₅]
    exact h.stop
  · rw [h₂]
    exact fun _ _ _ _ => rfl
  · rw [h₂]
    exact hcalls
  · have hsum := (h.conserved hm).spent
    have hmoved := hspent hm
    rw [h₁, h₂, hloc, overWorkers_update _ _ hworker, hlt]
    simp only [unitsOf, Note.hand] at hmoved ⊢
    linarith
  · have hrep := (h.conserved hm).replies
    rw [h₁, h₂, hloc, overWorkers_update _ _ hworker, hlt]
    linarith
  · rw [h₁, h₂]
    exact (h.conserved hm).made

lemma inv_acquire (h : Inv rules w ls) (hpre : (ls t).allows rules .acquire) :
    Keeps cfg out rules w ls t .acquire := by
  obtain ⟨p, busy, units, dead, calls, hl⟩ := hpre
  by_cases hlow : w.quota.remaining < 1
  · refine ⟨ls t, by simp [Note.learns, exec, Quota.acquire, hlow, hl], ?_⟩
    simp only [exec, Quota.acquire, if_pos hlow]
    exact h.frame rfl rfl
  · refine ⟨.holding p busy (units + 1) false dead calls,
      by simp [Note.learns, exec, Quota.acquire, hlow, hl], ?_⟩
    simp only [exec, Quota.acquire, if_neg hlow]
    refine inv_units h hl rfl ?_ (fun _ => ?_) ?_ fun _ => ?_
    · change Function.update w.loc t { w.loc t with units := (w.loc t).units + 1 } = _
      rw [h.hand t, hl]
      rfl
    · simp only [note]
      push_cast
      ring
    · simp [note, replyOf, Note.hand]
    · simp only [note]
      omega

lemma unitsOf_nonneg (l : Local) : 0 ≤ unitsOf l := Nat.cast_nonneg _

/-- What is left and what a worker has in hand is below the total. -/
lemma remaining_add_units_le (h : Inv rules w ls) (hm : rules.metered = true)
    (ht : t.isWorker = true) : w.quota.remaining + (w.loc t).units ≤ w.quota.total := by
  cases t with
  | client k => cases ht
  | worker i =>
    have hle : unitsOf (w.loc (.worker i)) ≤ overWorkers unitsOf w.loc :=
      Finset.single_le_sum (fun j _ => unitsOf_nonneg (w.loc (.worker j))) (Finset.mem_univ i)
    have hspent := (h.conserved hm).spent
    have hmade := (h.conserved hm).made
    have hsum : (0 : ℤ) ≤ w.summaries := Nat.cast_nonneg _
    simp only [unitsOf] at hle
    linarith

/-- A refund of a unit that is in hand is not cut off. -/
lemma refund_whole (h : Inv rules w ls) (hm : rules.metered = true)
    (hpre : (ls t).allows rules .refund) :
    w.quota.refund 1 = { w.quota with remaining := w.quota.remaining + 1 } := by
  obtain ⟨p, busy, units, dead, calls, hl⟩ := hpre
  have hle := remaining_add_units_le h hm (isWorker_of_note h (by rw [hl]; rfl))
  rw [h.hand t, hl] at hle
  simp only [Note.hand] at hle
  push_cast at hle
  exact Quota.refund_of_le (by omega)

lemma inv_refund (h : Inv rules w ls) (hpre : (ls t).allows rules .refund) :
    Keeps cfg out rules w ls t .refund := by
  have hwhole := fun hm => refund_whole h hm hpre
  obtain ⟨p, busy, units, dead, calls, hl⟩ := hpre
  refine ⟨.holding p busy units false dead calls, by simp [Note.learns, hl], ?_⟩
  refine inv_units h hl rfl ?_ (fun hm => ?_) ?_ fun hm => ?_
  · change Function.update w.loc t { w.loc t with units := (w.loc t).units - 1 } = _
    rw [h.hand t, hl]
    rfl
  · simp only [exec, note, hwhole hm]
    push_cast
    ring
  · simp [exec, note, replyOf, Note.hand]
  · have hrem := (h.conserved hm).remaining
    simp only [exec, note, hwhole hm]
    omega

lemma inv_topup (h : Inv rules w ls) {k : ℤ} (hpre : (ls t).allows rules (.topup k)) :
    Keeps cfg out rules w ls t (.topup k) := by
  refine ⟨ls t, rfl, ?_⟩
  have hloc := h.loc_eq t
  refine h.move hloc rfl le_rfl h.table (h.seen t) h.owned (fun _ _ hr => hr) (h.dead t) h.kept
    h.flights h.stop (fun _ _ _ _ => rfl) (h.calls t) fun hm => ?_
  obtain ⟨hspent, hreplies, hrem, hmade⟩ := h.conserved hm
  refine ⟨?_, hreplies, ?_, hmade⟩
  · simp only [exec, Quota.topup]
    linarith
  · have hk : 0 < k := hpre.2
    simp only [exec, Quota.topup]
    omega

/-! #### Chat calls -/

lemma inv_chat (h : Inv rules w ls) {purpose : ChatPurpose} {request : ChatRequest}
    (hpre : (ls t).allows rules (.chat purpose request)) :
    Keeps cfg out rules w ls t (.chat purpose request) := by
  cases hout : out.chat w.chats with
  | error e =>
    refine ⟨ls t, ?_, ?_⟩
    · cases purpose with
      | step =>
        obtain ⟨p, dead, calls, hl⟩ := hpre
        simp [Note.learns, exec, hout, hl]
      | summarize metered =>
        cases metered with
        | true =>
          obtain ⟨p, dead, calls, hl⟩ := hpre
          simp [Note.learns, exec, hout, hl]
        | false => rfl
    · simp only [exec, hout]
      exact h.frame rfl rfl
  | ok r =>
    cases purpose with
    | step =>
      obtain ⟨p, dead, calls, hl⟩ := hpre
      refine ⟨.holding p true 1 true dead calls, by simp [Note.learns, exec, hout, hl], ?_⟩
      simp only [exec, hout]
      refine inv_units h hl rfl ?_ (fun _ => ?_) ?_ fun hm => (h.conserved hm).remaining
      · change Function.update w.loc t { w.loc t with replied := true } = _
        rw [h.hand t, hl]
        rfl
      · simp [note]
      · simp [note, replyOf, Note.hand]
    | summarize metered =>
      cases metered with
      | true =>
        obtain ⟨p, dead, calls, hl⟩ := hpre
        refine ⟨.holding p true 1 false dead calls, by simp [Note.learns, exec, hout, hl], ?_⟩
        simp only [exec, hout]
        refine inv_units h hl rfl ?_ (fun _ => ?_) ?_ fun hm => (h.conserved hm).remaining
        · change Function.update w.loc t { w.loc t with units := (w.loc t).units - 1 } = _
          rw [h.hand t, hl]
          rfl
        · simp only [note]
          push_cast
          ring
        · simp [note, replyOf, Note.hand]
      | false =>
        -- a call outside the quota is excluded where units are counted
        have hfree : rules.metered = false := hpre
        refine ⟨ls t, rfl, ?_⟩
        have hloc := h.loc_eq t
        simp only [exec, hout]
        exact h.move hloc rfl le_rfl h.table (h.seen t) h.owned (fun _ _ hr => hr) (h.dead t)
          h.kept h.flights h.stop (fun _ _ _ _ => rfl) (h.calls t)
          fun hm => by rw [hfree] at hm; cases hm

/-! #### All of them -/

/-- The first reading of the stop flag in a dispatch answers `True` only for a terminal
agent. -/
def NoLateStop : System.Guard KOp (Tid n) (World n)
  | _, t, .stopIsSet site, w =>
    site = .firstStep → w.stop = true →
      ∀ p, (w.loc t).held = some p → (w.pcbs p).isTerminal = true
  | _, _, _, _ => True

lemma noLateStop_of_running {β : Type} {o : KOp β} (hstop : w.stop = false) :
    NoLateStop t o w := by
  cases o with
  | stopIsSet site =>
    intro _ hset
    rw [hstop] at hset
    cases hset
  | _ => trivial

/-- **Every operation keeps the invariant**, under the guard where agents must not be
lost. -/
lemma inv_step (h : Inv rules w ls) {β : Type} (o : KOp β) (hpre : (ls t).allows rules o)
    (hG : rules.lossless = true → NoLateStop t o w) : Keeps cfg out rules w ls t o := by
  cases o with
  | stopIsSet site => exact inv_stopIsSet h hG
  | setStop => exact inv_setStop h hpre
  | readPcb p _ => exact inv_readPcb h hpre
  | write p c => exact inv_write h hpre
  | newPcb args => exact inv_newPcb h hpre
  | tableAdd p => exact inv_tableAdd h hpre
  | tableHas p => exact inv_tableHas h
  | tableRemove p => exact inv_tableRemove h
  | pickNext => exact inv_pickNext h hpre
  | put p => exact inv_put h hpre
  | popQueued p => exact inv_popQueued h hpre
  | taskDone => exact inv_taskDone h hpre
  | enterBusy p => exact inv_enterBusy h hpre
  | leaveBusy => exact inv_leaveBusy h hpre
  | acquire => exact inv_acquire h hpre
  | refund => exact inv_refund h hpre
  | topup k => exact inv_topup h hpre
  | chat purpose request => exact inv_chat h hpre
  | waitNonempty =>
    refine ⟨ls t, rfl, ?_⟩
    simp only [exec]
    split
    · exact h.frame rfl rfl
    · exact h.frame rfl rfl
  | swapOut p pages =>
    refine ⟨ls t, rfl, ?_⟩
    simp only [exec]
    split
    · exact h.frame rfl rfl
    · exact h.frame rfl rfl
    · exact h.frame rfl rfl
  | now | tablePids | mailbox p | mailboxGet box | mailboxPut box m | dropMailbox p
  | mailboxPids | runPython code timeout priority =>
    exact ⟨ls t, rfl, h.frame rfl rfl⟩

end Operations

end Gcos.Pool
