import Gcos.Process.Labour
import Gcos.Lib.Lists

/-!
# Starting and stopping a kernel

`Kernel.start` and `Kernel.shutdown` with the pools of both backends.  Whether a kernel runs
is recorded in three places: `_started` of the kernel, `_threads` of its pool, and the stop
flag.  `shutdown` sets the flag, and nothing clears it; a pool that is started again creates
threads that find it set and leave `_loop` before they look at the queue.
-/

namespace Gcos

open Lib World

namespace Process

/-- A kernel and its pool.  A thread is named by the start that created it and by its index;
the code of a thread that was not created is over. -/
structure Machine (n : ℕ) where
  pool : Lib.Pool FOp (ℕ × Fin n) (Fleet n)
  /-- `Kernel._started`. -/
  started : Bool := false
  /-- The pool's `_threads`. -/
  threads : List (ℕ × Fin n) := []
  /-- How often the pool has created its threads. -/
  boots : ℕ := 0

/-- The threads of all starts of one pool. -/
def crew (n : ℕ) (backend : Backend) (cfg : KernelConfig) (out : Outside) (kids : ℕ → Offspring) :
    System FOp (ℕ × Fin n) (Fleet n) Empty where
  exec := fun t o f => Fleet.exec cfg out kids (.worker t.2) o f
  body := fun t => (fleetSystem n backend cfg out kids).body (.worker t.2)
  serves := fun _ _ => false
  entry := fun e => e.elim

namespace Machine

variable {n : ℕ}

/-- A kernel that has just been constructed. -/
def fresh (n : ℕ) (quota : Quota) : Machine n where
  pool := { shared := { world := Pool.freshWorld n quota }, code := fun _ => .ret false }

/-- The text of the error of a pool that has its threads already. -/
def alreadyStarted : Backend → String
  | .thread => "WorkerPool already started"
  | .process => "ProcessWorkerPool already started"

/-- `WorkerPool.start` and `ProcessWorkerPool.start`.  Only the former calls `client_factory`,
and `factory` is what that raises. -/
def poolStart (backend : Backend) (factory : Option Exn) (m : Machine n) :
    Except Exn Unit × Machine n :=
  if m.threads ≠ [] then (.error (.other "RuntimeError" (alreadyStarted backend)), m)
  else match backend, factory with
    | .thread, some e => (.error e, m)
    | _, _ =>
      (.ok (),
        { m with
          pool := { m.pool with
            code := fun t => if t.1 = m.boots then .ret true else m.pool.code t }
          threads := (List.finRange n).map fun i => (m.boots, i)
          boots := m.boots + 1 })

/-- `Kernel.start`. -/
def start (backend : Backend) (factory : Option Exn) (m : Machine n) :
    Except Exn Unit × Machine n :=
  if m.started then (.ok (), m)
  else match m.poolStart backend factory with
    | (.error e, m') => (.error e, m')
    | (.ok (), m') => (.ok (), { m' with started := true })

section

variable (backend : Backend) (cfg : KernelConfig) (out : Outside) (kids : ℕ → Offspring)

/-- A caller runs a program. -/
def calls (prog : Prog FOp Unit) (m : Machine n) : Machine n :=
  { m with
    pool := { m.pool with
      shared := (Prog.alone (Fleet.exec cfg out kids) (.client 0) prog m.pool.shared).2 } }

/-- Threads perform their next operations, one after the other. -/
def work (ts : List (ℕ × Fin n)) (m : Machine n) : Machine n :=
  { m with pool := (crew n backend cfg out kids).run m.pool (ts.map .step) }

/-- The part of the pools' `shutdown` before the threads are joined. -/
def raiseStop : Backend → Prog FOp Unit
  | .thread => base .setStop
  | .process => do
    base .setStop
    fleet .signalAll

/-- The part of `Kernel.shutdown` after the pool was shut down. -/
def dropAll : Prog FOp Unit := do
  let pids ← base .mailboxPids
  native (Kernel.dropMailboxes pids)

/-- `Kernel.shutdown`.  The threads are joined with a timeout; `during` is what they do until
then, and they need not be at their ends. -/
def shutdown (during : List (ℕ × Fin n)) (m : Machine n) : Machine n :=
  if m.started then
    let m₁ := (m.calls cfg out kids (raiseStop backend)).work backend cfg out kids during
    { { m₁ with threads := [] }.calls cfg out kids dropAll with started := false }
  else m

end

end Machine

/-- What happens to a kernel: a call, or a move of one of its threads. -/
inductive LifeEvent (n : ℕ)
  | start (factory : Option Exn)
  | shutdown (during : List (ℕ × Fin n))
  | spawn (args : SpawnArgs)
  | work (t : ℕ × Fin n)
deriving DecidableEq, Repr

namespace LifeEvent

variable {n : ℕ} (backend : Backend) (cfg : KernelConfig) (out : Outside) (kids : ℕ → Offspring)

/-- The kernel after an event. -/
def next (m : Machine n) : LifeEvent n → Machine n
  | start factory => (m.start backend factory).2
  | shutdown during => m.shutdown backend cfg out kids during
  | spawn args => m.calls cfg out kids ((FleetCall.kernel (.spawn args)).code backend)
  | work t => m.work backend cfg out kids [t]

end LifeEvent

/-- The kernel after a sequence of events. -/
def lifetime {n : ℕ} (backend : Backend) (cfg : KernelConfig) (out : Outside)
    (kids : ℕ → Offspring) (quota : Quota) (es : List (LifeEvent n)) : Machine n :=
  es.foldl (LifeEvent.next backend cfg out kids) (.fresh n quota)

variable {n : ℕ} {backend : Backend} {cfg : KernelConfig} {out : Outside} {kids : ℕ → Offspring}

/-! ### Who changes the flags -/

/-- What holds of every machine: the threads do the work of workers, and a pool with threads
belongs to a kernel that was started. -/
structure Manned (m : Machine n) : Prop where
  labours : ∀ t, (m.pool.code t).Only Labour
  started : m.threads ≠ [] → m.started = true

lemma crew_next (backend : Backend) (cfg : KernelConfig) (out : Outside) (kids : ℕ → Offspring)
    (pool : Lib.Pool FOp (ℕ × Fin n) (Fleet n)) (h : ∀ t, (pool.code t).Only Labour)
    (t : ℕ × Fin n) :
    let pool' := (crew n backend cfg out kids).next pool (.step t)
    (∀ t, (pool'.code t).Only Labour) ∧ pool'.shared.world.stop = pool.shared.world.stop := by
  refine ⟨fun u => ?_, ?_⟩
  · refine System.only_next (fun u => labour_body backend out kids u.2) ?_ h (.step t) u
    intro v r hserves
    cases hserves
  · rcases System.shared_next (crew n backend cfg out kids) pool (.step t) with
      hsame | ⟨u, β, o, k, hop, hshared⟩
    · rw [hsame]
    · have hu := h u
      rw [hop] at hu
      rw [hshared]
      exact stop_exec (setsStop_of_labours hu.1)

/-- The threads do not touch the stop flag. -/
lemma crew_run (backend : Backend) (cfg : KernelConfig) (out : Outside) (kids : ℕ → Offspring)
    (pool : Lib.Pool FOp (ℕ × Fin n) (Fleet n)) (h : ∀ t, (pool.code t).Only Labour)
    (ts : List (ℕ × Fin n)) :
    let pool' := (crew n backend cfg out kids).run pool (ts.map .step)
    (∀ t, (pool'.code t).Only Labour) ∧ pool'.shared.world.stop = pool.shared.world.stop := by
  induction ts generalizing pool with
  | nil => exact ⟨h, rfl⟩
  | cons t ts ih =>
    obtain ⟨hcode, hstop⟩ := crew_next backend cfg out kids pool h t
    obtain ⟨hcode', hstop'⟩ := ih _ hcode
    exact ⟨hcode', hstop'.trans hstop⟩

/-- The operations that spare the stop flag. -/
abbrev SparesStop : Prog.Class FOp := fun o => setsStop o = false

lemma stop_calls (cfg : KernelConfig) (out : Outside) (kids : ℕ → Offspring) (m : Machine n)
    {prog : Prog FOp Unit} (h : prog.Only SparesStop) :
    (m.calls cfg out kids prog).pool.shared.world.stop = m.pool.shared.world.stop := by
  let R : Fleet n → Fleet n → Prop := fun f f' => f'.world.stop = f.world.stop
  have hR : R m.pool.shared (m.calls cfg out kids prog).pool.shared := by
    refine h.alone (R := R) (fun _ => rfl) (fun f f' f'' h h' => Eq.trans h' h) ?_ _
    exact fun o f ho => stop_exec ho
  exact hR

lemma sparesStop_dropMailboxes (pids : List Pid) :
    (native (Kernel.dropMailboxes pids)).Only SparesStop := by
  induction pids with
  | nil => trivial
  | cons p pids ih => exact ⟨rfl, fun _ => ih⟩

lemma sparesStop_dropAll : Machine.dropAll.Only SparesStop :=
  Prog.Only.step rfl fun pids => sparesStop_dropMailboxes pids

lemma sparesStop_spawn (args : SpawnArgs) :
    ((FleetCall.kernel (.spawn args)).code backend).Only SparesStop := by
  have hspawn : (Kernel.spawn args).Only fun o => setsStop (.inl (.inl o)) = false := by
    refine Prog.Only.step rfl fun pid => Prog.Only.step rfl fun added => ?_
    split
    · refine Prog.Only.bind ?_ fun _ => (Prog.only_when (Prog.only_perform rfl)).bind fun _ => ?_
      · unfold Kernel.linkParent
        split
        · trivial
        · refine Prog.Only.step rfl fun found => ?_
          split
          · exact Prog.only_perform rfl
          · trivial
      · exact Prog.Only.step rfl fun _ => trivial
    · trivial
  have hcode : (KernelCall.spawn args).code.Only fun o => setsStop (.inl (.inl o)) = false :=
    hspawn.bind fun _ => trivial
  have hnative : (native (KernelCall.spawn args).code).Only SparesStop :=
    Prog.Only.lift (Prog.Only.lift hcode)
  cases backend <;> exact hnative

/-! ### Started and stopped -/

/-- `_started` and the stop flag. -/
def Machine.flags (m : Machine n) : Bool × Bool := (m.started, m.pool.shared.world.stop)

/-- The events that turn the flags. -/
inductive Switch
  | start | shutdown
deriving DecidableEq, Repr

/-- What an event does to the flags: a start whose `client_factory` raises does nothing. -/
def LifeEvent.switch (backend : Backend) : LifeEvent n → Option Switch
  | start factory => if backend = .process ∨ factory = none then some .start else none
  | shutdown _ => some .shutdown
  | spawn _ | work _ => none

/-- The flags after a switch. -/
def turn (flags : Bool × Bool) : Switch → Bool × Bool
  | .start => (true, flags.2)
  | .shutdown => (false, flags.1 || flags.2)

lemma manned_fresh (quota : Quota) : Manned (Machine.fresh n quota) :=
  ⟨fun _ => trivial, fun h => absurd rfl h⟩

lemma Manned.calls {m : Machine n} (h : Manned m) (prog : Prog FOp Unit) :
    Manned (m.calls cfg out kids prog) := ⟨h.labours, h.started⟩

lemma Manned.work {m : Machine n} (h : Manned m) (ts : List (ℕ × Fin n)) :
    Manned (m.work backend cfg out kids ts) ∧
      (m.work backend cfg out kids ts).flags = m.flags := by
  obtain ⟨hcode, hstop⟩ := crew_run backend cfg out kids m.pool h.labours ts
  exact ⟨⟨hcode, h.started⟩, Prod.ext rfl hstop⟩

/-- `start` of a kernel that is not started. -/
lemma Manned.start {m : Machine n} (h : Manned m) (factory : Option Exn) :
    Manned (m.start backend factory).2 ∧
      (m.start backend factory).2.flags =
        ((LifeEvent.start factory : LifeEvent n).switch backend).elim m.flags (turn m.flags) := by
  unfold Machine.start
  split
  · next hstarted =>
    refine ⟨h, ?_⟩
    by_cases hsw : backend = .process ∨ factory = none
    · simp [LifeEvent.switch, hsw, turn, Machine.flags, hstarted]
    · simp [LifeEvent.switch, hsw]
  · next hstarted =>
    have hnone : m.threads = [] := by
      by_contra hne
      exact hstarted (h.started hne)
    unfold Machine.poolStart
    rw [if_neg (by simpa using hnone)]
    cases backend with
    | thread =>
      cases factory with
      | none =>
        refine ⟨⟨fun t => ?_, fun _ => rfl⟩, rfl⟩
        dsimp only
        split
        · trivial
        · exact h.labours t
      | some e => exact ⟨h, rfl⟩
    | process =>
      refine ⟨⟨fun t => ?_, fun _ => rfl⟩, rfl⟩
      dsimp only
      split
      · trivial
      · exact h.labours t

/-- The pool's part of a shutdown sets the flag. -/
lemma stop_raiseStop (m : Machine n) :
    (m.calls cfg out kids (Machine.raiseStop backend)).pool.shared.world.stop = true := by
  cases backend <;> rfl

lemma Manned.shutdown {m : Machine n} (h : Manned m) (during : List (ℕ × Fin n)) :
    Manned (m.shutdown backend cfg out kids during) ∧
      (m.shutdown backend cfg out kids during).flags = turn m.flags .shutdown := by
  unfold Machine.shutdown
  split
  · next hstarted =>
    let m₁ := (m.calls cfg out kids (Machine.raiseStop backend)).work backend cfg out kids during
    have hm₁ : Manned m₁ ∧ m₁.flags = (m.calls cfg out kids (Machine.raiseStop backend)).flags :=
      (h.calls _).work during
    refine ⟨⟨hm₁.1.labours, fun hne => absurd rfl hne⟩, ?_⟩
    have hstop : m₁.pool.shared.world.stop = true :=
      (congrArg Prod.snd hm₁.2).trans (stop_raiseStop m)
    have hafter := stop_calls cfg out kids { m₁ with threads := [] } sparesStop_dropAll
    have hturn : (turn m.flags .shutdown).2 = true := by simp [turn, Machine.flags, hstarted]
    exact Prod.ext rfl ((hafter.trans hstop).trans hturn.symm)
  · next hstarted =>
    refine ⟨h, ?_⟩
    simp [turn, Machine.flags, hstarted]

/-- **One event.**  It keeps the threads at work, and turns the flags as its switch says. -/
lemma Manned.next {m : Machine n} (h : Manned m) (e : LifeEvent n) :
    Manned (e.next backend cfg out kids m) ∧
      (e.next backend cfg out kids m).flags = (e.switch backend).elim m.flags (turn m.flags) := by
  cases e with
  | start factory => exact h.start factory
  | shutdown during => exact h.shutdown during
  | spawn args =>
    exact ⟨h.calls _, Prod.ext rfl (stop_calls cfg out kids m (sparesStop_spawn args))⟩
  | work t => exact h.work [t]

/-- **All events.**  The flags are those of the switches. -/
lemma flags_lifetime (backend : Backend) (cfg : KernelConfig) (out : Outside)
    (kids : ℕ → Offspring) (quota : Quota) (es : List (LifeEvent n)) :
    (lifetime backend cfg out kids quota es).flags =
      (es.filterMap (LifeEvent.switch backend)).foldl turn (false, false) := by
  have hrun : ∀ (es : List (LifeEvent n)) (m : Machine n), Manned m →
      (es.foldl (LifeEvent.next backend cfg out kids) m).flags =
        (es.filterMap (LifeEvent.switch backend)).foldl turn m.flags := by
    intro es
    induction es with
    | nil => exact fun m _ => rfl
    | cons e es ih =>
      intro m hm
      obtain ⟨hnext, hflags⟩ : Manned (e.next backend cfg out kids m) ∧ _ = _ := hm.next e
      rw [List.foldl_cons, ih _ hnext, hflags]
      cases hsw : e.switch backend with
      | none => rw [List.filterMap_cons_none hsw, Option.elim_none]
      | some k => rw [List.filterMap_cons_some hsw, Option.elim_some, List.foldl_cons]
  exact hrun es _ (manned_fresh quota)

/-! ### Restarts -/

/-- What the flags tell about the switches before: one of them is set after the first start,
and the stop flag after the first shutdown that follows. -/
lemma flags_iff (ks : List Switch) :
    ((ks.foldl turn (false, false)).1 = true ∨ (ks.foldl turn (false, false)).2 = true ↔
        Switch.start ∈ ks) ∧
      ((ks.foldl turn (false, false)).2 = true ↔ [Switch.start, .shutdown].Sublist ks) := by
  induction ks using List.reverseRecOn with
  | nil => simp
  | append_singleton ks k ih =>
    obtain ⟨hstart, hstop⟩ := ih
    have hpair : [Switch.start, .shutdown].Sublist (ks ++ [k]) ↔
        [Switch.start, .shutdown].Sublist ks ∨ Switch.shutdown = k ∧ Switch.start ∈ ks := by
      rw [← List.singleton_sublist]
      exact @sublist_concat_iff _ [Switch.start] ks .shutdown k
    rw [List.foldl_concat, List.mem_append, List.mem_singleton, hpair]
    cases k with
    | start => simpa [turn] using hstop
    | shutdown =>
      have hfirst : [Switch.start, .shutdown].Sublist ks → Switch.start ∈ ks :=
        fun h => h.subset List.mem_cons_self
      simp only [turn, Bool.false_eq_true, false_or, Bool.or_eq_true, hstart, reduceCtorEq, or_false,
        true_and, or_iff_right_of_imp hfirst]

/-- Both flags are set at some point exactly when a start follows a shutdown of a kernel that
was started. -/
lemma both_iff_restart (ks : List Switch) :
    (∃ ks', ks' <+: ks ∧ ks'.foldl turn (false, false) = (true, true)) ↔
      [Switch.start, .shutdown, .start].Sublist ks := by
  induction ks using List.reverseRecOn with
  | nil => simp
  | append_singleton ks k ih =>
    have htriple : [Switch.start, .shutdown, .start].Sublist (ks ++ [k]) ↔
        [Switch.start, .shutdown, .start].Sublist ks ∨
          Switch.start = k ∧ [Switch.start, .shutdown].Sublist ks :=
      @sublist_concat_iff _ [Switch.start, .shutdown] ks .start k
    rw [htriple, ← ih, ← (flags_iff ks).2]
    constructor
    · rintro ⟨ks', hpre, hboth⟩
      rcases List.prefix_concat_iff.1 hpre with rfl | hpre
      · rw [List.foldl_concat] at hboth
        cases k with
        | start => exact .inr ⟨rfl, congrArg Prod.snd hboth⟩
        | shutdown => exact absurd (congrArg Prod.fst hboth) (by simp [turn])
      · exact .inl ⟨ks', hpre, hboth⟩
    · rintro (⟨ks', hpre, hboth⟩ | ⟨rfl, hstop⟩)
      · exact ⟨ks', hpre.trans (List.prefix_append _ _), hboth⟩
      · exact ⟨_, List.prefix_rfl, by rw [List.foldl_concat]; exact Prod.ext rfl hstop⟩

/-- A worker that enters `_loop` takes an agent from the queue, if there is one. -/
def PicksUp (backend : Backend) (cfg : KernelConfig) (out : Outside) (kids : ℕ → Offspring)
    (f : Fleet n) (i : Fin n) : Prop :=
  f.world.queue.q ≠ [] → ∃ p ∈ f.world.queue.q,
    (Prog.advance (Fleet.exec cfg out kids) (.worker i) 3
        ((fleetSystem n backend cfg out kids).body (.worker i)) f).2.world.queue =
      { q := f.world.queue.q.erase p, inFlight := f.world.queue.inFlight + 1 }

/-- A kernel that says that it is started has a clear stop flag, and its workers pick up what
is in the queue. -/
def Open (backend : Backend) (cfg : KernelConfig) (out : Outside) (kids : ℕ → Offspring)
    (m : Machine n) : Prop :=
  m.started = true → m.pool.shared.world.stop = false ∧
    ∀ i, PicksUp backend cfg out kids m.pool.shared i

lemma picksUp_of_stop_eq_false {f : Fleet n} (hstop : f.world.stop = false) (i : Fin n) :
    PicksUp backend cfg out kids f i := by
  intro hne
  rcases Scheduler.pickNext_cases f.world.pcbs (out.clock f.world.ticks) f.world.queue
    cfg.scheduler with ⟨hnil, -⟩ | ⟨p, hp, hpick⟩
  · exact absurd hnil hne
  · refine ⟨p, hp, ?_⟩
    cases backend with
    | thread =>
      simp [fleetSystem, native, coarse, plain, Pool.loopBody, Prog.lift, Prog.advance, Fleet.exec,
        Process.exec, World.exec, World.note, hstop, hne, hpick]
    | process =>
      simp [fleetSystem, loopForked, Setting.loop, forking, coarse, kernel, Prog.perform, Prog.lift,
        Prog.advance, Fleet.exec, Process.exec, World.exec, World.note, hstop, hne, hpick]

/-- **A kernel that is started again.**  With either backend the second start succeeds, but the
stop flag is still set: the new worker leaves its loop although an agent is in the queue. -/
theorem restarted_kernel_idles :
    let cfg : KernelConfig := { pager := {}, host := .inert }
    let out : Outside := .calm ⟨"hi", 1, 1, 2⟩
    let kids : ℕ → Offspring := fun _ => { outside := out }
    ∀ backend, ∃ es : List (LifeEvent 1),
      let m := lifetime backend cfg out kids ⟨5, 5⟩ es
      m.started = true ∧ m.pool.shared.world.stop = true ∧ m.pool.shared.world.queue.q = [1] ∧
        ¬PicksUp backend cfg out kids m.pool.shared 0 ∧ ¬Open backend cfg out kids m := by
  intro cfg out kids backend
  refine ⟨[.start none, .shutdown [], .spawn { prompt := "a" }, .start none], ?_⟩
  intro m
  have hflags : m.started = true ∧ m.pool.shared.world.stop = true := by
    cases backend <;> decide +kernel
  have hqueue : m.pool.shared.world.queue.q = [1] := by cases backend <;> decide +kernel
  have hleft : (Prog.advance (Fleet.exec cfg out kids) (.worker 0) 3
      ((fleetSystem 1 backend cfg out kids).body (.worker 0)) m.pool.shared).2.world.queue.inFlight ≠
        m.pool.shared.world.queue.inFlight + 1 := by
    cases backend <;> decide +kernel
  refine ⟨hflags.1, hflags.2, hqueue, fun h => ?_, fun h => ?_⟩
  · obtain ⟨p, -, hpicked⟩ := h (by simp [hqueue])
    exact hleft (congrArg ReadyQueue.inFlight hpicked)
  · rw [(h hflags.1).1] at hflags
    exact absurd hflags.2 (by simp)

/-- **When a kernel can be relied on.**  For every sequence of calls of `start`, `shutdown` and
`spawn`, with the threads moving in between: the kernel has a clear stop flag and workers that
pick up agents in every state in which it says that it is started, exactly when no start that
gets through follows a shutdown that follows another one. -/
theorem open_iff_noRestart {n : ℕ} (backend : Backend) (cfg : KernelConfig) (out : Outside)
    (kids : ℕ → Offspring) (quota : Quota) (es : List (LifeEvent n)) :
    (∀ pre, pre <+: es → Open backend cfg out kids (lifetime backend cfg out kids quota pre)) ↔
      ¬[Switch.start, .shutdown, .start].Sublist (es.filterMap (LifeEvent.switch backend)) := by
  have hopen : ∀ pre : List (LifeEvent n),
      Open backend cfg out kids (lifetime backend cfg out kids quota pre) ↔
        (pre.filterMap (LifeEvent.switch backend)).foldl turn (false, false) ≠ (true, true) := by
    intro pre
    rw [← flags_lifetime backend cfg out kids quota pre]
    constructor
    · intro h hboth
      obtain ⟨hstarted, hstop⟩ := Prod.mk.inj hboth
      rw [(h hstarted).1] at hstop
      cases hstop
    · intro h hstarted
      have hstop : (lifetime backend cfg out kids quota pre).pool.shared.world.stop = false := by
        by_contra hset
        exact h (Prod.ext hstarted (Bool.eq_true_of_not_eq_false hset))
      exact ⟨hstop, picksUp_of_stop_eq_false hstop⟩
  rw [← both_iff_restart]
  simp only [hopen]
  constructor
  · rintro h ⟨ks, hks, hboth⟩
    obtain ⟨pre, hpre, rfl⟩ := List.prefix_filterMap_iff.1 hks
    exact h pre hpre hboth
  · intro h pre hpre hboth
    exact h ⟨_, hpre.filterMap _, hboth⟩

/-- One life: a kernel that is started twice and shut down twice, but not started after that. -/
example :
    let es : List (LifeEvent 1) := [.start none, .spawn { prompt := "a" }, .start none,
      .shutdown [], .shutdown []]
    ¬[Switch.start, .shutdown, .start].Sublist (es.filterMap (LifeEvent.switch .thread)) := by
  decide

end Process

end Gcos
