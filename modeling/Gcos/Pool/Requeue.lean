import Gcos.Pool.Dead

/-!
# An agent that is killed while it is put back

`ReadyQueue.put` has the lock of the queue from its look at the agent to the append.  For
the other methods of the queue, which wait for this lock, it is one step, as in
`World.put`.  `transition` takes no lock of the queue: a kill can come between the look
and the append, and then the append puts a terminal agent into the queue.

Here `put` is taken apart into its look, its transition and its append (`Locked.next`).
Whatever happens in between, the pool in which `put` is one step can follow
(`Settles.next`): there the agent has been appended when it is killed.  Only the moment of
the append differs, and what a caller reads meanwhile of the state of the agent.
-/

namespace Gcos

open Lib

namespace KOp

/-- The operations that take the lock of the ready queue. -/
def locksQueue : {β : Type} → KOp β → Bool
  | _, .waitNonempty | _, .pickNext | _, .put _ | _, .popQueued _ | _, .taskDone => true
  | _, _ => false

/-- The agent whose block is read. -/
def looksAt : {β : Type} → KOp β → Option Pid
  | _, .readPcb p _ => some p
  | _, _ => none

/-- The agent that is brought to a terminal state. -/
def finalizes : {β : Type} → KOp β → Option Pid
  | _, .write p (.transition st) => if st.isTerminal then some p else none
  | _, _ => none

end KOp

namespace Pool

open World

variable {n : ℕ} {cfg : KernelConfig} {out : Outside} {rules : Rules} {m : Manner}

/-! ### The steps of `put` -/

/-- A `put` that has found its agent live: its thread, which has the lock of the queue, the
agent, and whether the transition to `READY` is made. -/
structure Putting (n : ℕ) where
  thread : Tid n
  pid : Pid
  marked : Bool := false

/-- The pool, and the `put` that is under way. -/
structure Locked (n : ℕ) : Type 1 where
  pool : Lib.Pool KOp (Tid n) (World n)
  putting : Option (Putting n) := none

/-- `pcb.transition(AgentState.READY)` in `put`, which stamps no time. -/
def markReady (p : Pid) (w : World n) : World n :=
  { w with pcbs := Function.update w.pcbs p ((w.pcbs p).transition .ready 0) }

/-- `self._q.append(pcb)`. -/
def appendReady (t : Tid n) (p : Pid) (w : World n) : World n :=
  { w with
    queue := { w.queue with q := w.queue.q ++ [p] }
    enqueued := if (w.loc t).fresh = some p then w.enqueued ++ [p] else w.enqueued }.note t
    fun l => { l with held := none, fresh := none }

namespace Locked

/-- A kernel that has just been started. -/
def boot (n : ℕ) (quota : Quota) : Locked n := { pool := Pool.boot n quota }

/-- One step of a schedule. -/
def next (cfg : KernelConfig) (out : Outside) (c : Locked n) : Act (Tid n) KernelCall → Locked n
  | .call t r => { c with pool := (kernelSystem n cfg out).next c.pool (.call t r) }
  | .step t =>
    let moved : Locked n := { c with pool := (kernelSystem n cfg out).next c.pool (.step t) }
    match c.pool.code t with
    | .ret _ => moved
    | .op (.put p) k =>
      match c.putting with
      | none =>
        -- `is_terminal()`; the refusal is the whole call
        if (c.pool.shared.pcbs p).isTerminal then moved
        else
          -- the reading of the clock that a transition may take is set aside here
          { pool :=
              { c.pool with shared := { c.pool.shared with ticks := c.pool.shared.ticks + 1 } }
            putting := some { thread := t, pid := p } }
      | some e =>
        if e.thread ≠ t then c
        else if e.marked then
          { pool :=
              { shared := appendReady t p c.pool.shared
                code := Function.update c.pool.code t (k true) } }
        else
          { pool := { c.pool with shared := markReady p c.pool.shared }
            putting := some { e with marked := true } }
    | .op o _ =>
      -- the lock of the queue may be taken
      if c.putting.isSome ∧ o.locksQueue then c else moved

/-- The pool after a schedule. -/
def run (cfg : KernelConfig) (out : Outside) (c : Locked n)
    (as : List (Act (Tid n) KernelCall)) : Locked n :=
  as.foldl (next cfg out) c

end Locked

/-! ### The pool that follows -/

namespace Putting

/-- The blocks, once the transition is made. -/
def ready (e : Putting n) (pcbs : Pid → AgentControlBlock) : Pid → AgentControlBlock :=
  if e.marked then pcbs else Function.update pcbs e.pid ((pcbs e.pid).transition .ready 0)

/-- What a `put` under way still does. -/
def finish (e : Putting n) (w : World n) : World n :=
  appendReady e.thread e.pid { w with pcbs := e.ready w.pcbs }

variable {e : Putting n} {pcbs : Pid → AgentControlBlock} {q : Pid}

lemma ready_of_ne (hq : q ≠ e.pid) : e.ready pcbs q = pcbs q := by
  unfold ready
  split
  · rfl
  · exact Function.update_of_ne hq _ _

lemma ready_update (hq : q ≠ e.pid) (b : AgentControlBlock) :
    e.ready (Function.update pcbs q b) = Function.update (e.ready pcbs) q b := by
  unfold ready
  split
  · rfl
  · rw [Function.update_of_ne hq.symm, Function.update_comm hq]

/-- A write that is no transition to a live state comes to the same before the transition to
`READY` and after it. -/
lemma apply_ready (clock : ℕ → Time) {c : Write}
    (hc : ∀ st, c = .transition st → st.isTerminal = true) (b : AgentControlBlock) :
    c.apply clock (b.transition .ready 0) = (c.apply clock b).transition .ready 0 := by
  cases c with
  | transition st =>
    have hst := hc st rfl
    simp only [Write.apply]
    rw [AgentControlBlock.transition_of_isTerminal (b.transition st (clock 0)) .ready 0 (by simp [hst])]
    cases hb : b.isTerminal with
    | true => rw [AgentControlBlock.transition_of_isTerminal b .ready 0 hb]
    | false =>
      have hne : ∀ b' : AgentControlBlock, b'.isTerminal = false → st ≠ b'.state := by
        rintro b' hb' rfl
        exact Bool.noConfusion (hb'.symm.trans hst)
      have hlive : (b.transition .ready 0).isTerminal = false := by simp [hb, AgentState.isTerminal]
      rw [AgentControlBlock.transition_of_live _ st _ hlive (hne _ hlive),
        AgentControlBlock.transition_of_live b st _ hb (hne b hb)]
      unfold AgentControlBlock.transition
      split <;> [rfl; simp [hb, AgentState.isTerminal]]
  | _ =>
    simp only [Write.apply, AgentControlBlock.transition, AgentControlBlock.isTerminal]
    split_ifs <;> rfl

lemma ready_write (clock : ℕ → Time) {c : Write}
    (hc : ∀ st, c = .transition st → st.isTerminal = true) :
    e.ready (Function.update pcbs e.pid (c.apply clock (pcbs e.pid))) =
      Function.update (e.ready pcbs) e.pid (c.apply clock (e.ready pcbs e.pid)) := by
  unfold ready
  split
  · rfl
  · simp only [Function.update_self, Function.update_idem, apply_ready clock hc]

/-- The number of readings of the clock is not changed by the transition. -/
lemma ticks_ready (c : Write) : c.ticks (e.ready pcbs q) = c.ticks (pcbs q) := by
  unfold ready
  split
  · rfl
  · by_cases hq : q = e.pid
    · subst hq
      rw [Function.update_self, AgentControlBlock.transition_frame]
      cases c <;> rfl
    · rw [Function.update_of_ne hq]

/-- Another thread notes what it has in hand. -/
lemma note_finish {u : Tid n} (hu : u ≠ e.thread) (w : World n) (f : Local → Local) :
    (e.finish w).note u f = e.finish (w.note u f) := by
  simp [finish, appendReady, note, Function.update_of_ne hu, Function.update_of_ne hu.symm,
    Function.update_comm hu.symm]

end Putting

/-- What comes to the same whether the agent `p` is put back already or not. -/
def Beside (p : Pid) : {β : Type} → KOp β → Prop
  | _, .readPcb q _ => q ≠ p
  | _, .write q c => q = p → ∀ st, c = .transition st → st.isTerminal = true
  | _, o => o.locksQueue = false

/-- Such an operation of another thread does not see a `put` under way. -/
lemma exec_finish {e : Putting n} {u : Tid n} (hu : u ≠ e.thread) {β : Type} {o : KOp β}
    (ho : Beside e.pid o) {w : World n} (hnew : (w.nextPid : ℤ) ≠ e.pid) :
    exec cfg out u o (e.finish w) =
      ((exec cfg out u o w).1, e.finish (exec cfg out u o w).2) := by
  cases o with
  | waitNonempty | pickNext | put q | popQueued q | taskDone => cases ho
  | readPcb q _ =>
    have hread : (e.finish w).pcbs q = w.pcbs q := Putting.ready_of_ne ho
    simp only [exec, hread]
  | write q c =>
    have hpcbs : Function.update (e.finish w).pcbs q
        (c.apply ((e.finish w).clockFrom out) ((e.finish w).pcbs q)) =
          e.ready (Function.update w.pcbs q (c.apply (w.clockFrom out) (w.pcbs q))) := by
      by_cases hq : q = e.pid
      · subst hq
        exact (Putting.ready_write _ (ho rfl)).symm
      · have hb : (e.finish w).pcbs q = w.pcbs q := Putting.ready_of_ne hq
        rw [hb, Putting.ready_update hq]
        rfl
    have hticks : c.ticks ((e.finish w).pcbs q) = c.ticks (w.pcbs q) := Putting.ticks_ready c
    cases c with
    | countCall tokens =>
      simp only [exec, hpcbs, hticks, ← Putting.note_finish hu]
      rfl
    | _ =>
      simp only [exec, hpcbs, hticks]
      rfl
  | newPcb args =>
    have hpcbs : e.ready (Function.update w.pcbs w.nextPid
        (newBlock cfg args w.nextPid (out.clock w.ticks))) =
          Function.update (e.ready w.pcbs) w.nextPid
            (newBlock cfg args w.nextPid (out.clock w.ticks)) :=
      Putting.ready_update hnew _
    simp only [exec, ← Putting.note_finish hu]
    simp only [Putting.finish, hpcbs]
    rfl
  | enterBusy q | leaveBusy | refund =>
    simp only [exec, ← Putting.note_finish hu]
    rfl
  | tableAdd q =>
    by_cases hq : q ∈ w.table
    · have hq' : q ∈ (e.finish w).table := hq
      simp only [exec, if_pos hq, if_pos hq', Putting.note_finish hu]
    · have hq' : q ∉ (e.finish w).table := hq
      simp only [exec, if_neg hq, if_neg hq']
      rfl
  | acquire =>
    have hquota : (e.finish w).quota = w.quota := rfl
    rcases hacq : w.quota.acquire 1 with ⟨_ | _, quota⟩
    · simp only [exec, hquota, hacq]
    · simp only [exec, hquota, hacq, ← Putting.note_finish hu]
      rfl
  | chat purpose request =>
    have hchats : (e.finish w).chats = w.chats := rfl
    simp only [exec, hchats]
    rcases out.chat w.chats with _ | r
    · rfl
    · rcases purpose with _ | _ | _
      · simp only [← Putting.note_finish hu]
        rfl
      · rfl
      · simp only [← Putting.note_finish hu]
        rfl
  | swapOut q pages =>
    have hswaps : (e.finish w).swaps = w.swaps := rfl
    simp only [exec, hswaps]
    rcases out.swapWrite w.swaps with _ | ⟨_, _ | _⟩ <;> rfl
  | _ => rfl

/-- The pool in which `put` is one step has come as far: a `put` under way is over there. -/
inductive Settles : Locked n → Lib.Pool KOp (Tid n) (World n) → Prop
  | free (pool : Lib.Pool KOp (Tid n) (World n)) : Settles { pool := pool } pool
  | put {pool : Lib.Pool KOp (Tid n) (World n)} (e : Putting n) (k : Bool → Prog KOp Bool)
      (hcode : pool.code e.thread = .op (.put e.pid) k) :
      Settles { pool := pool, putting := some e }
        { shared := e.finish pool.shared
          code := Function.update pool.code e.thread (k true) }

/-- Finding an agent live and finishing the `put` is the `put` in one step. -/
lemma exec_put_of_live {w : World n} {p : Pid} (hlive : (w.pcbs p).isTerminal = false)
    (cfg : KernelConfig) (out : Outside) (t : Tid n) :
    exec cfg out t (.put p) w =
      (true, Putting.finish { thread := t, pid := p } { w with ticks := w.ticks + 1 }) := by
  have hstamp : (w.pcbs p).transition .ready (out.clock w.ticks) =
      (w.pcbs p).transition .ready 0 := by
    simp [AgentControlBlock.transition, AgentState.isTerminal]
  simp [exec, World.put, hlive, Putting.finish, Putting.ready, appendReady, note, hstamp]

/-- The thread that a step of a schedule moves. -/
def mover : Act (Tid n) KernelCall → Tid n
  | .step t | .call t _ => t

/-- A step of another thread leaves the code of a thread alone. -/
lemma code_next_of_ne {pool : Lib.Pool KOp (Tid n) (World n)} {a : Act (Tid n) KernelCall}
    {t : Tid n} (ht : mover a ≠ t) :
    ((kernelSystem n cfg out).next pool a).code t = pool.code t := by
  cases a with
  | call u r =>
    simp only [System.next]
    split
    · exact Function.update_of_ne ht.symm _ _
    · rfl
  | step u =>
    simp only [System.next]
    split
    · exact Function.update_of_ne ht.symm _ _
    · rfl
    · exact Function.update_of_ne ht.symm _ _

/-- A step of another thread, with the `put` over already. -/
lemma next_finish {pool : Lib.Pool KOp (Tid n) (World n)} {e : Putting n} {x : Prog KOp Bool}
    {a : Act (Tid n) KernelCall} (ha : mover a ≠ e.thread)
    (hop : ∀ (u : Tid n) (β : Type) (o : KOp β) k, a = .step u → pool.code u = .op o k →
      Beside e.pid o) (hnew : (pool.shared.nextPid : ℤ) ≠ e.pid) :
    (kernelSystem n cfg out).next
        { shared := e.finish pool.shared, code := Function.update pool.code e.thread x } a =
      { shared := e.finish ((kernelSystem n cfg out).next pool a).shared
        code := Function.update ((kernelSystem n cfg out).next pool a).code e.thread x } := by
  cases a with
  | call u r =>
    have hu : u ≠ e.thread := ha
    simp only [System.next, Function.update_of_ne hu]
    split
    · rw [Function.update_comm hu.symm]
    · rfl
  | step u =>
    have hu : u ≠ e.thread := ha
    simp only [System.next, Function.update_of_ne hu]
    split
    · rw [Function.update_comm hu.symm]
    · rfl
    · next o k hcode =>
      have hexec : exec cfg out u o (e.finish pool.shared) =
          ((exec cfg out u o pool.shared).1, e.finish (exec cfg out u o pool.shared).2) :=
        exec_finish hu (hop u _ o k rfl hcode) hnew
      simp only [kernelSystem, hexec, Function.update_comm hu.symm]

section

variable {w : World n} {ls : Tid n → Note} {ms : Tid n → Hold} {t : Tid n} {p : Pid}

/-- A queued agent is brought to a terminal state, if to any. -/
lemma isTerminal_of_allows (hI : Inv rules w ls) (hH : HoldInv w ms) (hp : p ∈ w.queue.q)
    {st : AgentState} (hpre : (ms t).allows m (.write p (.transition st))) :
    st.isTerminal = true := by
  cases hl : ms t with
  | idle | released =>
    rw [hl] at hpre
    exact hpre.elim
  | holding r g =>
    rw [hl] at hpre
    obtain ⟨rfl, -⟩ := hpre
    exact absurd hp (hI.owned.held t r ((hH.held t r).2 ⟨g, hl⟩)).2
  | client fresh =>
    rw [hl] at hpre
    cases st with
    | waiting =>
      obtain rfl : fresh = some p := hpre
      exact absurd (hI.owned.queued p hp) (hI.owned.fresh t p (hH.fresh t p hl)).1
    | zombie => rfl
    | _ => exact hpre.elim

/-- A caller that looks at a queued agent may see it in another state. -/
lemma Holds.lookAside {look : Look} {G : Type} {g : G}
    {E : World n → G → (Tid n → Note) → (Tid n → Hold) → Prop}
    {pool : Lib.Pool KOp (Tid n) (World n)} (h : Holds rules m E (pool.beside g))
    {k : AgentControlBlock → Prog KOp Bool} (hcode : pool.code t = .op (.readPcb p look) k)
    (hp : p ∈ pool.shared.queue.q) (b : AgentControlBlock) :
    Holds rules m E
      (Lib.Pool.beside { pool with code := Function.update pool.code t (k b) } g) := by
  obtain ⟨xs, ⟨hI, hH, hE⟩, hobeys⟩ := h
  refine ⟨xs, ⟨hI, hH, hE⟩, fun u => ?_⟩
  by_cases hu : u = t
  · subst hu
    have hobey := hobeys u
    rw [show (pool.beside g).code u = .op (.readPcb p look) k from hcode] at hobey
    have hnot : (pool.shared.loc u).held ≠ some p := fun hq => (hI.owned.held u p hq).2 hp
    obtain ⟨⟨hnote, hhold⟩, hrest⟩ := hobey
    rw [show (Lib.Pool.beside { pool with code := Function.update pool.code u (k b) } g).code u =
      k b from Function.update_self ..]
    refine hrest b (xs u) ⟨?_, ?_⟩
    · have hhand : pool.shared.loc u = (xs u).1.hand := hI.hand u
      change (xs u).1.learns rules (.readPcb p look) b (xs u).1
      change (xs u).1.allows rules (.readPcb p look) at hnote
      cases hl : (xs u).1 with
      | holding q busy units replied dead calls =>
        rw [hl] at hnote hhand
        obtain rfl : q = p := hnote
        rw [hhand] at hnot
        exact absurd rfl hnot
      | caller _ _ | spawning _ => exact rfl
      | worker | released =>
        rw [hl] at hnote
        exact hnote.elim
    · change (xs u).2.learns m (.readPcb p look) b (xs u).2
      change (xs u).2.allows m (.readPcb p look) at hhold
      cases hl : (xs u).2 with
      | holding q g =>
        rw [hl] at hhold
        obtain rfl : q = p := hhold
        have hheld : (pool.shared.loc u).held = some q := (hH.held u q).2 ⟨g, hl⟩
        exact absurd hheld hnot
      | client fresh => exact ⟨fun q g hq => (by cases hq), rfl⟩
      | idle | released =>
        rw [hl] at hhold
        exact hhold.elim
  · rw [show (Lib.Pool.beside { pool with code := Function.update pool.code t (k b) } g).code u =
      (pool.beside g).code u from Function.update_of_ne hu ..]
    exact hobeys u

end

/-! ### Following -/

namespace Locked

/-- Away from `put`, a step is one of the pool, unless it waits for the lock of the queue. -/
lemma next_of_not_puts {c : Locked n} {t : Tid n} {β : Type} {o : KOp β} {k : β → Prog KOp Bool}
    (hcode : c.pool.code t = .op o k) (ho : o.puts = none) :
    c.next cfg out (.step t) =
      if c.putting.isSome ∧ o.locksQueue then c
      else { c with pool := (kernelSystem n cfg out).next c.pool (.step t) } := by
  simp only [next, hcode]
  cases o with
  | put p => cases ho
  | _ => rfl

/-- A method of the queue waits for the lock. -/
lemma next_of_locked {c : Locked n} {e : Putting n} (he : c.putting = some e) {t : Tid n}
    (ht : t ≠ e.thread) {β : Type} {o : KOp β} {k : β → Prog KOp Bool}
    (hcode : c.pool.code t = .op o k) (ho : o.locksQueue = true) :
    c.next cfg out (.step t) = c := by
  simp only [next, hcode]
  cases o with
  | put p => simp only [he, ne_eq, ht.symm, not_false_eq_true, if_true]
  | waitNonempty | pickNext | popQueued p | taskDone => simp [he, KOp.locksQueue]
  | _ => cases ho

/-- All else goes on beside a `put`. -/
lemma next_of_not_locks {c : Locked n} {t : Tid n} {β : Type} {o : KOp β} {k : β → Prog KOp Bool}
    (hcode : c.pool.code t = .op o k) (ho : o.locksQueue = false) :
    c.next cfg out (.step t) =
      { c with pool := (kernelSystem n cfg out).next c.pool (.step t) } := by
  simp only [next, hcode]
  cases o with
  | put p => cases ho
  | _ => simp [ho]

lemma next_of_ret {c : Locked n} {t : Tid n} {b : Bool} (hcode : c.pool.code t = .ret b) :
    c.next cfg out (.step t) =
      { c with pool := (kernelSystem n cfg out).next c.pool (.step t) } := by
  simp only [next, hcode]

end Locked

section

variable {E : World n → Unit → (Tid n → Note) → (Tid n → Hold) → Prop}

/-- One step of the pool. -/
lemma Holds.next {pool : Lib.Pool KOp (Tid n) (World n)} (h : Holds rules m E (pool.beside ()))
    (hs : Suits rules m cfg) (hE : Upholds cfg out rules m blind E System.noGuard)
    {a : Act (Tid n) KernelCall} (ha : ∀ t r, a = .call t r → Admits rules m r) :
    Holds rules m E (((kernelSystem n cfg out).next pool a).beside ()) := by
  refine h.run hs hE (System.meets_noGuard _ (pool.beside ()) [a]) fun t r hr => ?_
  exact ha t r (List.mem_singleton.1 hr).symm

/-- A thread comes to a `put` when nobody has the lock of the queue. -/
lemma settles_look (pool : Lib.Pool KOp (Tid n) (World n)) {t : Tid n} {p : Pid}
    {k : Bool → Prog KOp Bool} (hcode : pool.code t = .op (.put p) k) :
    Settles (Locked.next cfg out { pool := pool } (.step t))
      ((kernelSystem n cfg out).next pool (.step t)) := by
  simp only [Locked.next, hcode]
  split
  · exact .free _
  · next hlive =>
    have hexec := exec_put_of_live (by simpa using hlive) cfg out t
    simp only [System.next, hcode, kernelSystem, hexec]
    exact .put { thread := t, pid := p } k hcode

/-- A thread goes on with its `put`. -/
lemma settles_put {pool : Lib.Pool KOp (Tid n) (World n)} {e : Putting n}
    {k : Bool → Prog KOp Bool} (hcode : pool.code e.thread = .op (.put e.pid) k) :
    Settles (Locked.next cfg out { pool := pool, putting := some e } (.step e.thread))
      { shared := e.finish pool.shared, code := Function.update pool.code e.thread (k true) } := by
  obtain ⟨t, p, marked⟩ := e
  simp only [Locked.next, hcode, ne_eq, not_true_eq_false, if_false]
  cases marked with
  | true => exact .free _
  | false => exact .put { thread := t, pid := p, marked := true } k hcode

/-- Another thread moves meanwhile. -/
lemma settles_aside {pool : Lib.Pool KOp (Tid n) (World n)} {e : Putting n}
    {k : Bool → Prog KOp Bool} (hcode : pool.code e.thread = .op (.put e.pid) k)
    {a : Act (Tid n) KernelCall} (ha : mover a ≠ e.thread)
    (hop : ∀ (u : Tid n) (β : Type) (o : KOp β) k, a = .step u → pool.code u = .op o k →
      Beside e.pid o) (hnew : (pool.shared.nextPid : ℤ) ≠ e.pid) :
    Settles { pool := (kernelSystem n cfg out).next pool a, putting := some e }
      ((kernelSystem n cfg out).next
        { shared := e.finish pool.shared, code := Function.update pool.code e.thread (k true) }
        a) := by
  rw [next_finish ha hop hnew]
  exact .put e k ((code_next_of_ne ha).trans hcode)

/-- **The pool in which `put` is one step follows.** -/
theorem Settles.next {c : Locked n} {pool : Lib.Pool KOp (Tid n) (World n)} (h : Settles c pool)
    (hpool : Holds rules m E (pool.beside ())) (hs : Suits rules m cfg)
    (hE : Upholds cfg out rules m blind E System.noGuard) {a : Act (Tid n) KernelCall}
    (ha : ∀ t r, a = .call t r → Admits rules m r) :
    ∃ pool', Settles (c.next cfg out a) pool' ∧ Holds rules m E (pool'.beside ()) := by
  cases h with
  | free =>
    refine ⟨_, ?_, hpool.next hs hE ha⟩
    cases a with
    | call t r => exact .free _
    | step t =>
      cases hcode : pool.code t with
      | ret b =>
        rw [Locked.next_of_ret hcode]
        exact .free _
      | op o k =>
        cases o with
        | put p => exact settles_look pool hcode
        | _ =>
          rw [Locked.next_of_not_puts hcode rfl]
          exact .free _
  | @put pool e k hcode =>
    obtain ⟨ls, ms, hI, hH, -, hallows⟩ := hpool.elim
    have hp : e.pid ∈ (e.finish pool.shared).queue.q := List.mem_append_right _ (by simp)
    have hnew : (pool.shared.nextPid : ℤ) ≠ e.pid :=
      ((hI.owned.allocated _ (hI.owned.queued _ hp)).2.ne).symm
    by_cases hmover : mover a = e.thread
    · -- the thread that has the lock: its `put` is over in the other pool
      refine ⟨_, ?_, hpool⟩
      cases a with
      | call t r =>
        obtain rfl : t = e.thread := hmover
        have hsame : (kernelSystem n cfg out).next pool (.call e.thread r) = pool := by
          simp only [System.next, hcode]
        simp only [Locked.next, hsame]
        exact .put e k hcode
      | step t =>
        obtain rfl : t = e.thread := hmover
        exact settles_put hcode
    · cases a with
      | call t r =>
        exact ⟨_, settles_aside hcode hmover (fun _ _ _ _ h => by cases h) hnew,
          hpool.next hs hE ha⟩
      | step t =>
        have ht : t ≠ e.thread := hmover
        cases hcode' : pool.code t with
        | ret b =>
          rw [Locked.next_of_ret hcode']
          refine ⟨_, settles_aside hcode hmover (fun u β o k' hu hk => ?_) hnew, hpool.next hs hE ha⟩
          cases hu
          rw [hcode'] at hk
          cases hk
        | op o k' =>
          by_cases hlock : o.locksQueue = true
          · -- it waits for the lock
            refine ⟨_, ?_, hpool⟩
            rw [Locked.next_of_locked rfl ht hcode' hlock]
            exact .put e k hcode
          · have hfree : o.locksQueue = false := by simpa using hlock
            rw [Locked.next_of_not_locks hcode' hfree]
            have hcode'' : (Function.update pool.code e.thread (k true)) t = .op o k' := by
              rw [Function.update_of_ne ht, hcode']
            by_cases hread : o.looksAt = some e.pid
            · -- a caller reads the block before the transition to `READY`
              cases o with
              | readPcb q _ =>
                obtain rfl : q = e.pid := Option.some.inj hread
                refine ⟨_, ?_, hpool.lookAside hcode'' hp (pool.shared.pcbs e.pid)⟩
                simp only [System.next, hcode', Function.update_comm ht.symm]
                exact .put e k ((Function.update_of_ne ht.symm _ _).trans hcode)
              | _ => cases hread
            · refine ⟨_, settles_aside hcode hmover (fun u β o' k'' hu hk => ?_) hnew,
                hpool.next hs hE ha⟩
              cases hu
              rw [hcode'] at hk
              cases hk
              cases o with
              | readPcb q _ => exact fun hq => hread (congrArg some hq)
              | write q c =>
                rintro rfl st rfl
                exact isTerminal_of_allows hI hH hp (hallows t _ _ _ hcode'').2
              | _ => exact hfree

end

section

variable {E : World n → Unit → (Tid n → Note) → (Tid n → Hold) → Prop} {c : Locked n}
  {pool : Lib.Pool KOp (Tid n) (World n)} {p : Pid}

/-- A whole run can be followed. -/
lemma Settles.run (h : Settles c pool) (hpool : Holds rules m E (pool.beside ()))
    (hs : Suits rules m cfg) (hE : Upholds cfg out rules m blind E System.noGuard)
    (as : List (Act (Tid n) KernelCall)) (has : ∀ t r, Act.call t r ∈ as → Admits rules m r) :
    ∃ pool', Settles (c.run cfg out as) pool' ∧ Holds rules m E (pool'.beside ()) := by
  induction as generalizing c pool with
  | nil => exact ⟨pool, h, hpool⟩
  | cons a as ih =>
    obtain ⟨pool', h', hpool'⟩ := h.next hpool hs hE (a := a) fun t r ha =>
      has t r (ha ▸ List.mem_cons_self)
    exact ih h' hpool' fun t r hr => has t r (List.mem_cons_of_mem a hr)

end

/-! ### Sparing an agent -/

section

variable {w : World n} {t : Tid n} {p : Pid}

namespace Locked

end Locked

end

/-! ### Dead agents -/

section

variable {quota : Quota} {as : List (Act (Tid n) KernelCall)} {p : Pid}

end

end Pool

end Gcos
