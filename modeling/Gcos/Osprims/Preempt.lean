import Gcos.Osprims.RealProc

/-!
# Stopping and continuing real processes

`gcos/osprims/preempt.py`: a `Preemptor` stops and continues a process with signals and keeps two
flags about it; `run_rr_quantum` hands out slices of wall-clock time with them.

The tasks are the kernel's.  They may end at any moment, and whoever runs them decides what
`is_done` answers.  The flags follow the tasks (`Mirrors`), and while one process has its slice
no other one runs that will have a slice later.
-/

namespace Gcos.Osprims

open Lib RoundRobin

/-! ### The tasks and the signals -/

/-- The state of a task: running or ready to run, stopped, ended but not collected, or gone. -/
inductive Task
  | running
  | stopped
  | zombie
  | gone
deriving DecidableEq

/-- The signals that are sent. -/
inductive Sig
  | stop
  | cont
  | kill

/-- What a signal does to a task. -/
def Sig.deliver : Sig → Task → Task
  | .stop, .running => .stopped
  | .cont, .stopped => .running
  | .kill, .running => .zombie
  | .kill, .stopped => .zombie
  | _, task => task

/-- What becomes of a task from one moment to the next, apart from the signals. -/
inductive Fate
  | stays
  | ends
  | vanishes

/-- The task after it met its fate. -/
def Fate.meet : Fate → Task → Task
  | .stays, task => task
  | .ends, .gone => .gone
  | .ends, _ => .zombie
  | .vanishes, _ => .gone

/-- What the others do: the fates of the tasks up to the `k`-th moment, whether a signal is
refused then, and what `is_done` answers then, after the slices `order`. -/
structure Others where
  fate : ℕ → ℕ → Fate
  refuses : ℕ → ℕ → Bool
  isDone : ℕ → List ℕ → ℕ → Bool

/-- `Preemptor`: its flags. -/
structure Preemptor where
  stopped : Bool := false
  alive : Bool := true
deriving DecidableEq

/-- A slice: the process that has it, and the tasks when it begins. -/
structure Slice where
  pid : ℕ
  task : ℕ → Task

/-- The tasks, the flags, the order of the slices that `run_rr_quantum` notes, and the slices. -/
structure Slicing where
  now : ℕ
  task : ℕ → Task
  flags : ℕ → Preemptor
  order : List ℕ
  slept : List Slice

namespace Slicing

variable (e : Others) (pid : ℕ) (s : Slicing)

/-- The next moment. -/
def pass : Slicing :=
  { s with now := s.now + 1, task := fun p => (e.fate s.now p).meet (s.task p) }

/-- New flags of a process. -/
def setFlags (f : Preemptor) : Slicing := { s with flags := Function.update s.flags pid f }

/-- A new state of a task. -/
def setTask (task : Task) : Slicing := { s with task := Function.update s.task pid task }

/-- `Preemptor._signal`. -/
def signal (sig : Sig) : Bool × Slicing :=
  let s := s.pass e
  if s.task pid = .gone then (false, s.setFlags pid { s.flags pid with alive := false })
  else if e.refuses s.now pid then (false, s)
  else (true, s.setTask pid (sig.deliver (s.task pid)))

/-- `Preemptor.stop`. -/
def stop : Bool × Slicing :=
  if !(s.flags pid).alive || (s.flags pid).stopped then ((s.flags pid).stopped, s)
  else
    match s.signal e pid .stop with
    | (true, s) => (true, s.setFlags pid { s.flags pid with stopped := true })
    | (false, s) => ((s.flags pid).stopped, s)

/-- `Preemptor.cont`. -/
def cont : Bool × Slicing :=
  if !(s.flags pid).alive || !(s.flags pid).stopped then
    (!(s.flags pid).stopped && (s.flags pid).alive, s)
  else
    match s.signal e pid .cont with
    | (true, s) => (true, s.setFlags pid { s.flags pid with stopped := false })
    | (false, s) => (!(s.flags pid).stopped, s)

/-! ### The loop -/

/-- `is_done(pid)`. -/
def isDone : Bool × Slicing :=
  let s := s.pass e
  (e.isDone s.now s.order pid, s)

/-- `time.sleep(quantum_s)`, in the slice of the process. -/
def sleep : Slicing := pass e { s with slept := s.slept ++ [⟨pid, s.task⟩] }

/-- A slice: the process is noted, continued, and left to run for the quantum. -/
def slice : Slicing := sleep e pid ({ s with order := s.order ++ [pid] }.cont e pid).2

/-- The body of the `for` loop. -/
def visit (x : List ℕ × Slicing) : List ℕ × Slicing :=
  let (nxt, s) := x
  let (done, s) := s.isDone e pid
  if done || !(s.flags pid).alive then (nxt, (s.cont e pid).2)
  else
    let s := s.slice e pid
    let (done, s) := s.isDone e pid
    if !done && (s.flags pid).alive then (nxt ++ [pid], (s.stop e pid).2) else (nxt, s)

/-- The `for` loop. -/
def round (live : List ℕ) : List ℕ × Slicing := live.foldl (fun x pid => visit e pid x) ([], s)

/-- The `while` loop, for as many rounds as there is `fuel`: the processes that are still in
line, and the state. -/
def rounds : ℕ → List ℕ → Slicing → List ℕ × Slicing
  | 0, live, s => (live, s)
  | fuel + 1, live, s =>
    if live = [] then ([], s)
    else
      let (nxt, s) := s.round e live
      rounds fuel nxt s

/-- New processes with their preemptors. -/
def fresh (task : ℕ → Task) : Slicing := ⟨0, task, fun _ => {}, [], []⟩

/-- `run_rr_quantum`. -/
def runRrQuantum (fuel : ℕ) (pids : List ℕ) (task : ℕ → Task) : List ℕ × Slicing :=
  rounds e fuel pids (pids.foldl (fun s pid => (s.stop e pid).2) (fresh task))

section

variable {pid q : ℕ} {s : Slicing} {f : Preemptor} {task : Task}

@[simp] lemma setFlags_flags_self : (s.setFlags pid f).flags pid = f := Function.update_self _ _ _

@[simp] lemma setFlags_task : (s.setFlags pid f).task = s.task := rfl

@[simp] lemma setTask_task_self : (s.setTask pid task).task pid = task := Function.update_self _ _ _

@[simp] lemma setTask_flags : (s.setTask pid task).flags = s.flags := rfl

lemma setTask_task_of_ne (hq : q ≠ pid) : (s.setTask pid task).task q = s.task q :=
  Function.update_of_ne hq _ _

@[simp] lemma pass_flags {e : Others} : (s.pass e).flags = s.flags := rfl

end

end Slicing

/-! ### The flags follow the tasks -/

/-- What the flags say about the task. -/
structure Mirrors (f : Preemptor) (task : Task) : Prop where
  dead : f.alive = false → task ≠ .running ∧ task ≠ .stopped
  stopped : f.stopped = true → task ≠ .running
  awake : f.alive = true → f.stopped = false → task ≠ .stopped

open Slicing

variable {e : Others} {pid q : ℕ} {s : Slicing} {f : Preemptor} {task : Task}

/-- What is true of the flags stays true if nobody else continues or stops the task. -/
lemma Mirrors.congr {task' : Task} (h : Mirrors f task)
    (hrunning : task ≠ .running → task' ≠ .running)
    (hstopped : task ≠ .stopped → task' ≠ .stopped) : Mirrors f task' where
  dead := fun hf => ⟨hrunning (h.dead hf).1, hstopped (h.dead hf).2⟩
  stopped := fun hf => hrunning (h.stopped hf)
  awake := fun ha hs => hstopped (h.awake ha hs)

lemma mirrors_gone {f : Preemptor} : Mirrors f .gone := by
  constructor <;> simp

lemma Fate.meet_eq (fate : Fate) (task : Task) :
    fate.meet task = task ∨ fate.meet task = .zombie ∨ fate.meet task = .gone := by
  cases fate <;> cases task <;> decide

lemma Fate.meet_ne {task' : Task} (fate : Fate) (hzombie : task' ≠ .zombie)
    (hgone : task' ≠ .gone) (h : task ≠ task') : fate.meet task ≠ task' := by
  rcases fate.meet_eq task with heq | heq | heq <;> rw [heq]
  · exact h
  · exact hzombie.symm
  · exact hgone.symm

/-- What a call for one process does: the other processes keep their flags, and nobody
continues or stops them. -/
structure Moves (pid : ℕ) (s s' : Slicing) : Prop where
  order : s'.order = s.order
  slept : s'.slept = s.slept
  flags : ∀ q, q ≠ pid → s'.flags q = s.flags q
  running : ∀ q, q ≠ pid → s.task q ≠ .running → s'.task q ≠ .running
  stopped : ∀ q, q ≠ pid → s.task q ≠ .stopped → s'.task q ≠ .stopped

namespace Moves

variable {s' s'' : Slicing}

lemma refl (pid : ℕ) (s : Slicing) : Moves pid s s :=
  ⟨rfl, rfl, fun _ _ => rfl, fun _ _ h => h, fun _ _ h => h⟩

lemma trans (h : Moves pid s s') (h' : Moves pid s' s'') : Moves pid s s'' where
  order := h'.order.trans h.order
  slept := h'.slept.trans h.slept
  flags := fun q hq => (h'.flags q hq).trans (h.flags q hq)
  running := fun q hq hs => h'.running q hq (h.running q hq hs)
  stopped := fun q hq hs => h'.stopped q hq (h.stopped q hq hs)

lemma mirrors (h : Moves pid s s') (hq : q ≠ pid) (hm : Mirrors (s.flags q) (s.task q)) :
    Mirrors (s'.flags q) (s'.task q) := by
  rw [h.flags q hq]
  exact hm.congr (h.running q hq) (h.stopped q hq)

lemma setFlags (h : Moves pid s s') (f : Preemptor) : Moves pid s (s'.setFlags pid f) :=
  { h with flags := fun q hq => (Function.update_of_ne hq _ _).trans (h.flags q hq) }

lemma setTask (h : Moves pid s s') (task : Task) : Moves pid s (s'.setTask pid task) :=
  { h with
    running := fun q hq hs => by
      rw [setTask_task_of_ne hq]
      exact h.running q hq hs
    stopped := fun q hq hs => by
      rw [setTask_task_of_ne hq]
      exact h.stopped q hq hs }

end Moves

lemma pass_running (q : ℕ) (h : s.task q ≠ .running) : (s.pass e).task q ≠ .running :=
  Fate.meet_ne _ (by decide) (by decide) h

lemma pass_stopped (q : ℕ) (h : s.task q ≠ .stopped) : (s.pass e).task q ≠ .stopped :=
  Fate.meet_ne _ (by decide) (by decide) h

lemma moves_pass : Moves pid s (s.pass e) :=
  ⟨rfl, rfl, fun _ _ => rfl, fun q _ => pass_running q, fun q _ => pass_stopped q⟩

lemma mirrors_pass (h : Mirrors (s.flags q) (s.task q)) :
    Mirrors ((s.pass e).flags q) ((s.pass e).task q) := h.congr (pass_running q) (pass_stopped q)

/-- What a signal leaves behind. -/
inductive Signalled (e : Others) (pid : ℕ) (sig : Sig) (s : Slicing) : Bool × Slicing → Prop
  /-- There was no such process. -/
  | missed (hgone : (s.pass e).task pid = .gone) :
    Signalled e pid sig s
      (false, (s.pass e).setFlags pid { s.flags pid with alive := false })
  | refused (hrefuses : e.refuses (s.now + 1) pid = true) : Signalled e pid sig s (false, s.pass e)
  | sent : Signalled e pid sig s
      (true, (s.pass e).setTask pid (sig.deliver ((s.pass e).task pid)))

lemma signalled (sig : Sig) : Signalled e pid sig s (s.signal e pid sig) := by
  rw [signal]
  split_ifs with hgone hrefuses
  · exact .missed hgone
  · exact .refused hrefuses
  · exact .sent

lemma Signalled.moves {sig : Sig} {r : Bool × Slicing} (h : Signalled e pid sig s r) :
    Moves pid s r.2 := by
  cases h with
  | missed _ => exact moves_pass.setFlags _
  | refused _ => exact moves_pass
  | sent => exact moves_pass.setTask _

lemma Sig.deliver_stop (task : Task) : Sig.stop.deliver task ≠ .running := by
  cases task <;> decide

lemma Sig.deliver_cont (task : Task) : Sig.cont.deliver task ≠ .stopped := by
  cases task <;> decide

lemma stop_moves : Moves pid s (s.stop e pid).2 := by
  rw [stop]
  split_ifs
  · exact .refl pid s
  · have hmoves : Moves pid s (s.signal e pid .stop).2 := (signalled _).moves
    generalize s.signal e pid .stop = r at hmoves ⊢
    obtain ⟨_ | _, s'⟩ := r
    · exact hmoves
    · exact hmoves.setFlags _

lemma cont_moves : Moves pid s (s.cont e pid).2 := by
  rw [cont]
  split_ifs
  · exact .refl pid s
  · have hmoves : Moves pid s (s.signal e pid .cont).2 := (signalled _).moves
    generalize s.signal e pid .cont = r at hmoves ⊢
    obtain ⟨_ | _, s'⟩ := r
    · exact hmoves
    · exact hmoves.setFlags _

/-- **Stopping a process**, with a signal that is allowed.  If its flags follow the task, or are
new, they follow it, and the task does not run. -/
lemma stop_spec (hperm : ∀ k p, e.refuses k p = false)
    (hm : s.flags pid = {} ∨ Mirrors (s.flags pid) (s.task pid)) :
    Mirrors ((s.stop e pid).2.flags pid) ((s.stop e pid).2.task pid) ∧
      (s.stop e pid).2.task pid ≠ .running := by
  rw [stop]
  split_ifs with hidle
  · have hm : Mirrors (s.flags pid) (s.task pid) := by
      refine hm.resolve_left fun hnew => ?_
      rw [hnew] at hidle
      cases hidle
    refine ⟨hm, ?_⟩
    rcases Bool.or_eq_true_iff.1 hidle with hdead | hstopped
    · exact (hm.dead (by simpa using hdead)).1
    · exact hm.stopped hstopped
  · obtain ⟨halive, -⟩ : (s.flags pid).alive = true ∧ (s.flags pid).stopped = false := by
      simpa using hidle
    have h : Signalled e pid .stop s (s.signal e pid .stop) := signalled _
    generalize s.signal e pid .stop = r at h ⊢
    cases h with
    | missed hgone =>
      simp only [setFlags_flags_self, setFlags_task, hgone]
      exact ⟨mirrors_gone, by decide⟩
    | refused hrefuses =>
      rw [hperm] at hrefuses
      cases hrefuses
    | sent =>
      simp only [setFlags_flags_self, setFlags_task, setTask_task_self, setTask_flags, pass_flags]
      refine ⟨⟨?_, fun _ => Sig.deliver_stop _, ?_⟩, Sig.deliver_stop _⟩
      · intro hdead
        rw [halive] at hdead
        cases hdead
      · intro _ hawake
        cases hawake

/-- **Continuing a process.**  Its flags still follow the task, and if the signal is allowed,
the task is not stopped. -/
lemma cont_spec (hm : Mirrors (s.flags pid) (s.task pid)) :
    Mirrors ((s.cont e pid).2.flags pid) ((s.cont e pid).2.task pid) ∧
      ((∀ k p, e.refuses k p = false) → (s.cont e pid).2.task pid ≠ .stopped) := by
  rw [cont]
  split_ifs with hidle
  · refine ⟨hm, fun _ => ?_⟩
    cases halive : (s.flags pid).alive with
    | false => exact (hm.dead halive).2
    | true => exact hm.awake halive (by simpa [halive] using hidle)
  · obtain ⟨halive, -⟩ : (s.flags pid).alive = true ∧ (s.flags pid).stopped = true := by
      simpa using hidle
    have h : Signalled e pid .cont s (s.signal e pid .cont) := signalled _
    generalize s.signal e pid .cont = r at h ⊢
    cases h with
    | missed hgone =>
      simp only [setFlags_flags_self, setFlags_task, hgone]
      exact ⟨mirrors_gone, fun _ => by decide⟩
    | refused hrefuses =>
      refine ⟨mirrors_pass hm, fun hperm => ?_⟩
      rw [hperm] at hrefuses
      cases hrefuses
    | sent =>
      simp only [setFlags_flags_self, setFlags_task, setTask_task_self, setTask_flags, pass_flags]
      refine ⟨⟨?_, ?_, fun _ _ => Sig.deliver_cont _⟩,
        fun _ => Sig.deliver_cont _⟩
      · intro hdead
        rw [halive] at hdead
        cases hdead
      · intro hstopped
        cases hstopped

/-! ### One has its slice, the others wait -/

/-- The processes in `line` wait for a slice, and have waited since their last one; those of
`pids` that are not in line are not stopped. -/
structure Queued (pids line : List ℕ) (s : Slicing) : Prop where
  nodup : line.Nodup
  mirrors : ∀ q ∈ line, Mirrors (s.flags q) (s.task q)
  parked : ∀ q ∈ line, s.task q ≠ .running
  alone : s.slept.Pairwise fun x y => y.pid ≠ x.pid → x.task y.pid ≠ .running
  waits : ∀ x ∈ s.slept, ∀ q ∈ line, q ≠ x.pid → x.task q ≠ .running
  released : ∀ q ∈ pids, q ∉ line → s.task q ≠ .stopped

namespace Queued

variable {pids line line' : List ℕ} {s' : Slicing}

lemma perm (h : Queued pids line s) (hperm : line.Perm line') : Queued pids line' s where
  nodup := hperm.nodup_iff.1 h.nodup
  mirrors := fun q hq => h.mirrors q (hperm.mem_iff.2 hq)
  parked := fun q hq => h.parked q (hperm.mem_iff.2 hq)
  alone := h.alone
  waits := fun x hx q hq => h.waits x hx q (hperm.mem_iff.2 hq)
  released := fun q hq hline => h.released q hq fun hmem => hline (hperm.mem_iff.1 hmem)

lemma pass (h : Queued pids line s) : Queued pids line (s.pass e) where
  nodup := h.nodup
  mirrors := fun q hq => mirrors_pass (h.mirrors q hq)
  parked := fun q hq => pass_running q (h.parked q hq)
  alone := h.alone
  waits := h.waits
  released := fun q hq hline => pass_stopped q (h.released q hq hline)

/-- The first process leaves the line. -/
lemma leave (h : Queued pids (pid :: line) s) (hm : Moves pid s s')
    (hcont : s'.task pid ≠ .stopped) : Queued pids line s' := by
  obtain ⟨hnotin, hnodup⟩ := List.nodup_cons.1 h.nodup
  have hne : ∀ q ∈ line, q ≠ pid := by
    rintro q hq rfl
    exact hnotin hq
  refine ⟨hnodup, fun q hq => ?_, fun q hq => ?_, ?_, fun x hx q hq => ?_,
    fun q hq hline => ?_⟩
  · exact hm.mirrors (hne q hq) (h.mirrors q (List.mem_cons_of_mem _ hq))
  · exact hm.running q (hne q hq) (h.parked q (List.mem_cons_of_mem _ hq))
  · rw [hm.slept]
    exact h.alone
  · rw [hm.slept] at hx
    exact h.waits x hx q (List.mem_cons_of_mem _ hq)
  · by_cases hqp : q = pid
    · rw [hqp]
      exact hcont
    · exact hm.stopped q hqp (h.released q hq (by simp [hqp, hline]))

/-- A process that was stopped joins the line. -/
lemma join (h : Queued pids line s) (hm : Moves pid s s') (hnotin : pid ∉ line)
    (hpid : Mirrors (s'.flags pid) (s'.task pid)) (hstop : s'.task pid ≠ .running)
    (hwaits : ∀ x ∈ s.slept, pid ≠ x.pid → x.task pid ≠ .running) :
    Queued pids (pid :: line) s' := by
  have hne : ∀ q ∈ line, q ≠ pid := by
    rintro q hq rfl
    exact hnotin hq
  refine ⟨List.nodup_cons.2 ⟨hnotin, h.nodup⟩, List.forall_mem_cons.2 ⟨hpid, fun q hq => ?_⟩,
    List.forall_mem_cons.2 ⟨hstop, fun q hq => ?_⟩, ?_, fun x hx => ?_, fun q hq hline => ?_⟩
  · exact hm.mirrors (hne q hq) (h.mirrors q hq)
  · exact hm.running q (hne q hq) (h.parked q hq)
  · rw [hm.slept]
    exact h.alone
  · rw [hm.slept] at hx
    exact List.forall_mem_cons.2 ⟨hwaits x hx, h.waits x hx⟩
  · rw [List.mem_cons, not_or] at hline
    exact hm.stopped q hline.1 (h.released q hq hline.2)

/-- A process that is not in line has its slice. -/
lemma sleep (h : Queued pids line s) (hwaits : ∀ x ∈ s.slept, pid ≠ x.pid → x.task pid ≠ .running) :
    Queued pids line (s.sleep e pid) := by
  refine Queued.pass ⟨h.nodup, h.mirrors, h.parked, ?_, ?_, h.released⟩
  · refine List.pairwise_append.2 ⟨h.alone, List.pairwise_singleton _ _, fun x hx y hy => ?_⟩
    rw [List.mem_singleton.1 hy]
    exact hwaits x hx
  · intro x hx q hq
    rcases List.mem_append.1 hx with hx | hx
    · exact h.waits x hx q hq
    · rw [List.mem_singleton.1 hx]
      exact fun _ => h.parked q hq

end Queued

variable {pids live line nxt : List ℕ}

/-- A process leaves the line and has a slice. -/
lemma queued_slice (hperm : ∀ k p, e.refuses k p = false)
    (h : Queued pids (pid :: line) s) : Queued pids line (s.slice e pid) ∧
      Mirrors ((s.slice e pid).flags pid) ((s.slice e pid).task pid) ∧
      ∃ task, (s.slice e pid).slept = s.slept ++ [⟨pid, task⟩] := by
  have hnoted : Queued pids (pid :: line) { s with order := s.order ++ [pid] } :=
    ⟨h.nodup, h.mirrors, h.parked, h.alone, h.waits, h.released⟩
  have hmoves : Moves pid _ ({ s with order := s.order ++ [pid] }.cont e pid).2 := cont_moves
  obtain ⟨hmirrors, hcont⟩ := cont_spec (e := e) (hnoted.mirrors pid List.mem_cons_self)
  have hleft := hnoted.leave hmoves (hcont hperm)
  refine ⟨hleft.sleep fun x hx => ?_, mirrors_pass hmirrors, _,
    congrArg (· ++ [_]) hmoves.slept⟩
  rw [hmoves.slept] at hx
  exact h.waits x hx pid List.mem_cons_self

/-- What the body of the loop does to the line. -/
lemma queued_visit (hperm : ∀ k p, e.refuses k p = false)
    (h : Queued pids (pid :: (line ++ nxt)) s) :
    Queued pids (line ++ (visit e pid (nxt, s)).1) (visit e pid (nxt, s)).2 := by
  have hasked : Queued pids (pid :: (line ++ nxt)) (s.isDone e pid).2 := h.pass
  simp only [visit]
  generalize s.isDone e pid = r at hasked ⊢
  obtain ⟨done, s₁⟩ := r
  dsimp only
  split_ifs with hdone hagain
  · -- it is done, and let go
    obtain ⟨-, hcont⟩ := cont_spec (e := e) (hasked.mirrors pid List.mem_cons_self)
    exact hasked.leave cont_moves (hcont hperm)
  · -- it has a slice and is stopped again
    obtain ⟨hsliced, hfollows, task, hslept⟩ := queued_slice hperm hasked
    have hagain' : Queued pids (line ++ nxt) ((s₁.slice e pid).isDone e pid).2 := hsliced.pass
    obtain ⟨hmirrors, hstop⟩ := stop_spec (s := ((s₁.slice e pid).isDone e pid).2) hperm
      (.inr (mirrors_pass hfollows))
    have hjoined := hagain'.join stop_moves (List.nodup_cons.1 h.nodup).1 hmirrors hstop (by
      intro x hx hne
      have hx' : x ∈ s₁.slept ++ [⟨pid, task⟩] := hslept ▸ hx
      rcases List.mem_append.1 hx' with hx' | hx'
      · exact hasked.waits x hx' pid List.mem_cons_self hne
      · rw [List.mem_singleton.1 hx'] at hne
        exact absurd rfl hne)
    refine hjoined.perm ?_
    rw [← List.append_assoc]
    exact (List.perm_append_singleton pid _).symm
  · -- it has a slice, and is done or gone
    exact (queued_slice hperm hasked).1.pass

/-- One round. -/
lemma queued_round (hperm : ∀ k p, e.refuses k p = false) (live : List ℕ) (nxt : List ℕ)
    (s : Slicing) (h : Queued pids (live ++ nxt) s) :
    Queued pids (live.foldl (fun x pid => visit e pid x) (nxt, s)).1
      (live.foldl (fun x pid => visit e pid x) (nxt, s)).2 := by
  induction live generalizing nxt s with
  | nil => exact h
  | cons pid live ih => exact ih _ _ (queued_visit hperm h)

/-- **The run lemma.** -/
lemma queued_rounds (hperm : ∀ k p, e.refuses k p = false) (fuel : ℕ) (live : List ℕ)
    (s : Slicing) (h : Queued pids live s) :
    Queued pids (rounds e fuel live s).1 (rounds e fuel live s).2 := by
  induction fuel generalizing live s with
  | zero => exact h
  | succ fuel ih =>
    rw [rounds]
    split_ifs with hlive
    · exact hlive ▸ h
    · exact ih _ _ (queued_round hperm live [] s (by rwa [List.append_nil]))

lemma queued_stop_all (hperm : ∀ k p, e.refuses k p = false) (rest line : List ℕ) (s : Slicing)
    (h : Queued [] line s) (hnodup : (rest ++ line).Nodup) (hnew : ∀ q ∈ rest, s.flags q = {})
    (hslept : s.slept = []) (horder : s.order = []) :
    Queued [] (rest ++ line) (rest.foldl (fun s pid => (s.stop e pid).2) s) ∧
      (rest.foldl (fun s pid => (s.stop e pid).2) s).slept = [] ∧
      (rest.foldl (fun s pid => (s.stop e pid).2) s).order = [] := by
  induction rest generalizing line s with
  | nil => exact ⟨h, hslept, horder⟩
  | cons pid rest ih =>
    have hmiddle : (pid :: rest ++ line).Perm (rest ++ pid :: line) := List.perm_middle.symm
    have hnodup' := hmiddle.nodup_iff.1 hnodup
    have hnotin : pid ∉ line := (List.nodup_cons.1 (List.nodup_append.1 hnodup').2.1).1
    have hmoves : Moves pid s (s.stop e pid).2 := stop_moves
    obtain ⟨hmirrors, hstop⟩ := stop_spec hperm (.inl (hnew pid List.mem_cons_self))
    have hjoined := h.join hmoves hnotin hmirrors hstop (by
      rw [hslept]
      exact fun x hx => by cases hx)
    have hlater : ∀ q ∈ rest, (s.stop e pid).2.flags q = {} := by
      intro q hq
      have hne : q ≠ pid := by
        rintro rfl
        exact (List.nodup_append.1 hnodup').2.2 q hq q List.mem_cons_self rfl
      rw [hmoves.flags q hne]
      exact hnew q (List.mem_cons_of_mem _ hq)
    obtain ⟨hqueued, hslept', horder'⟩ := ih (pid :: line) _ hjoined hnodup' hlater
      (hmoves.slept.trans hslept) (hmoves.order.trans horder)
    exact ⟨hqueued.perm hmiddle.symm, hslept', horder'⟩

/-- Everyone is stopped before the first slice. -/
lemma queued_start (hperm : ∀ k p, e.refuses k p = false) (hnodup : pids.Nodup)
    (task : ℕ → Task) :
    Queued pids pids (pids.foldl (fun s pid => (s.stop e pid).2) (fresh task)) ∧
      (pids.foldl (fun s pid => (s.stop e pid).2) (fresh task)).slept = [] ∧
      (pids.foldl (fun s pid => (s.stop e pid).2) (fresh task)).order = [] := by
  have hfresh : Queued [] [] (fresh task) :=
    ⟨List.nodup_nil, List.forall_mem_nil _, List.forall_mem_nil _, List.Pairwise.nil,
      List.forall_mem_nil _, List.forall_mem_nil _⟩
  obtain ⟨h, hslept, horder⟩ := queued_stop_all hperm pids [] (fresh task) hfresh
    (by rwa [List.append_nil]) (fun _ _ => rfl) rfl rfl
  rw [List.append_nil] at h
  exact ⟨⟨h.nodup, h.mirrors, h.parked, h.alone, h.waits, fun q hq hline => absurd hq hline⟩,
    hslept, horder⟩

/-! ### The order of the slices -/

lemma slice_order : (s.slice e pid).order = s.order ++ [pid] ∧
    (s.slice e pid).slept.map Slice.pid = s.slept.map Slice.pid ++ [pid] := by
  have hcont : Moves pid { s with order := s.order ++ [pid] }
      ({ s with order := s.order ++ [pid] }.cont e pid).2 := cont_moves
  refine ⟨hcont.order, List.map_append.trans ?_⟩
  rw [hcont.slept]
  rfl

/-- The body of the loop gives at most one slice, to its process, and puts at most that one
back in line. -/
lemma visit_order (pid : ℕ) (nxt : List ℕ) (s : Slicing) :
    ∃ l m : List ℕ, l.Sublist [pid] ∧ m.Sublist l ∧ (visit e pid (nxt, s)).1 = nxt ++ m ∧
      (visit e pid (nxt, s)).2.order = s.order ++ l ∧
      (visit e pid (nxt, s)).2.slept.map Slice.pid = s.slept.map Slice.pid ++ l := by
  have horder : (s.isDone e pid).2.order = s.order := rfl
  have hslept : (s.isDone e pid).2.slept = s.slept := rfl
  simp only [visit]
  generalize s.isDone e pid = r at horder hslept ⊢
  obtain ⟨done, s₁⟩ := r
  dsimp only at horder hslept ⊢
  obtain ⟨hnoted, hslice⟩ := slice_order (e := e) (s := s₁)
  rw [horder] at hnoted
  rw [hslept] at hslice
  split_ifs with hdone hagain
  · have hcont : Moves pid s₁ (s₁.cont e pid).2 := cont_moves
    refine ⟨[], [], List.nil_sublist _, .slnil, (List.append_nil _).symm, ?_, ?_⟩
    · rw [List.append_nil, ← horder]
      exact hcont.order
    · rw [List.append_nil, ← hslept]
      exact congrArg _ hcont.slept
  · have hstop : Moves pid ((s₁.slice e pid).isDone e pid).2
        (((s₁.slice e pid).isDone e pid).2.stop e pid).2 := stop_moves
    exact ⟨[pid], [pid], .refl _, .refl _, rfl, hstop.order.trans hnoted,
      (congrArg _ hstop.slept).trans hslice⟩
  · exact ⟨[pid], [], .refl _, List.nil_sublist _, (List.append_nil _).symm, hnoted, hslice⟩

/-- A round gives slices to some of those in line, in their order, and some of these stay. -/
lemma round_order (live nxt : List ℕ) (s : Slicing) :
    ∃ l m : List ℕ, l.Sublist live ∧ m.Sublist l ∧
      (live.foldl (fun x pid => visit e pid x) (nxt, s)).1 = nxt ++ m ∧
      (live.foldl (fun x pid => visit e pid x) (nxt, s)).2.order = s.order ++ l ∧
      (live.foldl (fun x pid => visit e pid x) (nxt, s)).2.slept.map Slice.pid =
        s.slept.map Slice.pid ++ l := by
  induction live generalizing nxt s with
  | nil => exact ⟨[], [], .slnil, .slnil, by simp, by simp, by simp⟩
  | cons pid live ih =>
    obtain ⟨l, m, hl, hm, hnxt, horder, hslept⟩ := visit_order (e := e) pid nxt s
    rw [List.foldl_cons]
    generalize visit e pid (nxt, s) = r at hnxt horder hslept ⊢
    obtain ⟨nxt', s'⟩ := r
    dsimp only at hnxt horder hslept
    obtain ⟨l', m', hl', hm', hnxt', horder', hslept'⟩ := ih nxt' s'
    refine ⟨l ++ l', m ++ m', hl.append hl', hm.append hm', ?_, ?_, ?_⟩
    · rw [hnxt', hnxt, List.append_assoc]
    · rw [horder', horder, List.append_assoc]
    · rw [hslept', hslept, List.append_assoc]

/-- The order is made of rounds, each with some of the processes of the one before. -/
lemma rounds_order (fuel : ℕ) (live : List ℕ) (s : Slicing) :
    ∃ turns : List (List ℕ), (live :: turns).Pairwise (fun l m => m.Sublist l) ∧
      (rounds e fuel live s).2.order = s.order ++ turns.flatten ∧
      (rounds e fuel live s).2.slept.map Slice.pid = s.slept.map Slice.pid ++ turns.flatten := by
  induction fuel generalizing live s with
  | zero => exact ⟨[], List.pairwise_singleton _ _, by simp [rounds], by simp [rounds]⟩
  | succ fuel ih =>
    rw [rounds]
    split_ifs with hlive
    · exact ⟨[], List.pairwise_singleton _ _, by simp, by simp⟩
    · obtain ⟨l, m, hl, hm, hnxt, horder, hslept⟩ := round_order (e := e) live [] s
      rw [List.nil_append] at hnxt
      have hround : s.round e live = live.foldl (fun x pid => visit e pid x) ([], s) := rfl
      rw [← hround] at hnxt horder hslept
      generalize s.round e live = r at hnxt horder hslept ⊢
      obtain ⟨nxt, s'⟩ := r
      obtain rfl : nxt = m := hnxt
      obtain ⟨turns, hturns, horder', hslept'⟩ := ih nxt s'
      obtain ⟨hsub, hpair⟩ := List.pairwise_cons.1 hturns
      refine ⟨l :: turns, ?_, ?_, ?_⟩
      · refine List.pairwise_cons.2 ⟨?_, List.pairwise_cons.2 ⟨?_, hpair⟩⟩
        · exact List.forall_mem_cons.2 ⟨hl, fun t ht => (hsub t ht).trans (hm.trans hl)⟩
        · exact fun t ht => (hsub t ht).trans hm
      · dsimp only
        rw [horder', horder, List.flatten_cons, List.append_assoc]
      · dsimp only
        rw [hslept', hslept, List.flatten_cons, List.append_assoc]

/-- **One process at a time.**  Let no signal be refused.  Whenever the processes end, and
whatever `is_done` answers: while one has its slice, no other one runs that will have a slice
later or is still in line.  The order is the one of the slices, and it is made of rounds in
which each process that is left has at most one.  In the end nobody is left stopped. -/
theorem slices_are_exclusive (e : Others) (hperm : ∀ k p, e.refuses k p = false) (fuel : ℕ)
    (pids : List ℕ) (hnodup : pids.Nodup) (task : ℕ → Task) :
    let r := runRrQuantum e fuel pids task
    (∀ pre x post, r.2.slept = pre ++ x :: post →
      ∀ q, q ∈ post.map Slice.pid ∨ q ∈ r.1 → q ≠ x.pid → x.task q ≠ .running) ∧
    r.2.order = r.2.slept.map Slice.pid ∧
    (∃ turns : List (List ℕ), r.2.order = turns.flatten ∧
      (pids :: turns).Pairwise fun l m => m.Sublist l) ∧
    (r.1 = [] → ∀ q ∈ pids, r.2.task q ≠ .stopped) := by
  intro r
  obtain ⟨hstart, hslept₀, horder₀⟩ := queued_start hperm hnodup task
  have hqueued : Queued pids r.1 r.2 := queued_rounds hperm fuel pids _ hstart
  obtain ⟨turns, hturns, horder, hslept⟩ := rounds_order (e := e) fuel pids
    (pids.foldl (fun s pid => (s.stop e pid).2) (fresh task))
  rw [horder₀, List.nil_append] at horder
  rw [hslept₀, List.map_nil, List.nil_append] at hslept
  refine ⟨fun pre x post hsplit q hq hne => ?_, horder.trans hslept.symm, ⟨turns, horder, hturns⟩,
    fun hdone q hq => hqueued.released q hq (by simp [hdone])⟩
  rcases hq with hq | hq
  · obtain ⟨y, hy, rfl⟩ := List.mem_map.1 hq
    have halone := hqueued.alone
    rw [hsplit] at halone
    exact (List.pairwise_cons.1 (List.pairwise_append.1 halone).2.1).1 y hy hne
  · exact hqueued.waits x (by simp [hsplit]) q hq hne

/-- The second of two processes vanishes in the first slice of the other. -/
def vanishing : Others where
  fate := fun k p => if k = 4 ∧ p = 1 then .vanishes else .stays
  refuses := fun _ _ => false
  isDone := fun k _ _ => decide (8 < k)

theorem slices_are_exclusive_vanishing :
    (runRrQuantum vanishing 2 [0, 1] fun _ => .running).2.order =
      (runRrQuantum vanishing 2 [0, 1] fun _ => .running).2.slept.map Slice.pid := by
  exact (slices_are_exclusive vanishing (fun _ _ => rfl) 2 [0, 1] (by decide) _).2.1

/-! ### Processes that end after so many slices -/

/-- Nobody interferes, and a process is done after `slices` of it. -/
def counted (slices : ℕ → ℕ) : Others where
  fate := fun _ _ => .stays
  refuses := fun _ _ => false
  isDone := fun _ order pid => decide (slices pid ≤ order.count pid)

/-- Every process is there. -/
def AllThere (s : Slicing) : Prop := ∀ q, s.task q ≠ .gone ∧ (s.flags q).alive = true

section

variable {need : ℕ → ℕ}

lemma pass_counted : s.pass (counted need) = { s with now := s.now + 1 } := rfl

lemma Sig.deliver_ne_gone (sig : Sig) (h : task ≠ .gone) : sig.deliver task ≠ .gone := by
  cases sig <;> cases task <;> first | exact absurd rfl h | decide

lemma signal_counted (h : AllThere s) (sig : Sig) :
    AllThere (s.signal (counted need) pid sig).2 := by
  rw [signal, pass_counted]
  dsimp only
  rw [if_neg (h pid).1, if_neg (by exact Bool.false_ne_true)]
  intro q
  refine ⟨?_, (h q).2⟩
  by_cases hq : q = pid
  · subst hq
    rw [setTask_task_self]
    exact sig.deliver_ne_gone (h q).1
  · rw [setTask_task_of_ne hq]
    exact (h q).1

lemma AllThere.setFlags (h : AllThere s) {f : Preemptor} (hf : f.alive = true) :
    AllThere (s.setFlags pid f) := by
  intro q
  refine ⟨(h q).1, ?_⟩
  by_cases hq : q = pid
  · subst hq
    rw [setFlags_flags_self]
    exact hf
  · exact (congrArg Preemptor.alive (Function.update_of_ne hq f s.flags)).trans (h q).2

lemma AllThere.stop (h : AllThere s) : AllThere (s.stop (counted need) pid).2 := by
  rw [Slicing.stop]
  split_ifs
  · exact h
  · have hsignal : AllThere (s.signal (counted need) pid .stop).2 := signal_counted h .stop
    generalize s.signal (counted need) pid .stop = r at hsignal ⊢
    obtain ⟨_ | _, s'⟩ := r
    · exact hsignal
    · exact hsignal.setFlags (hsignal pid).2

lemma AllThere.cont (h : AllThere s) : AllThere (s.cont (counted need) pid).2 := by
  rw [Slicing.cont]
  split_ifs
  · exact h
  · have hsignal : AllThere (s.signal (counted need) pid .cont).2 := signal_counted h .cont
    generalize s.signal (counted need) pid .cont = r at hsignal ⊢
    obtain ⟨_ | _, s'⟩ := r
    · exact hsignal
    · exact hsignal.setFlags (hsignal pid).2

lemma AllThere.slice (h : AllThere s) : AllThere (s.slice (counted need) pid) := by
  have hnoted : AllThere { s with order := s.order ++ [pid] } := h
  exact hnoted.cont

/-- The body of the loop: a slice for a process that is not done, and back in line if it is
still not done then. -/
lemma visit_counted (need : ℕ → ℕ) (pid : ℕ) (nxt : List ℕ) (h : AllThere s) :
    AllThere (visit (counted need) pid (nxt, s)).2 ∧
      (visit (counted need) pid (nxt, s)).2.order =
        (if need pid ≤ s.order.count pid then s.order else s.order ++ [pid]) ∧
      (visit (counted need) pid (nxt, s)).1 =
        if need pid ≤ s.order.count pid + 1 then nxt else nxt ++ [pid] := by
  have hasked : ∀ s', Slicing.isDone (counted need) pid s' =
      (decide (need pid ≤ s'.order.count pid), s'.pass (counted need)) := fun _ => rfl
  have hpass : ∀ s', AllThere s' → AllThere (s'.pass (counted need)) := fun _ h => h
  simp only [visit, hasked]
  have halive : (s.flags pid).alive = true := (h pid).2
  by_cases hdone : need pid ≤ s.order.count pid
  · have hcont : Moves pid (s.pass (counted need))
        ((s.pass (counted need)).cont (counted need) pid).2 := cont_moves
    rw [if_pos (by simp [hdone]), if_pos hdone, if_pos (Nat.le_succ_of_le hdone)]
    exact ⟨(hpass s h).cont, hcont.order, rfl⟩
  · have hsliced : AllThere ((s.pass (counted need)).slice (counted need) pid) := (hpass s h).slice
    have horder : ((s.pass (counted need)).slice (counted need) pid).order = s.order ++ [pid] :=
      slice_order.1
    have hcount : (s.order ++ [pid]).count pid = s.order.count pid + 1 := by
      rw [List.count_append, List.count_singleton_self]
    rw [if_neg (by simp [hdone, halive]), if_neg hdone]
    generalize (s.pass (counted need)).slice (counted need) pid = s' at hsliced horder ⊢
    have halive' : (s'.flags pid).alive = true := (hsliced pid).2
    by_cases hagain : need pid ≤ s.order.count pid + 1
    · rw [if_neg (by simp [horder, hcount, hagain]), if_pos hagain]
      exact ⟨hpass s' hsliced, horder, rfl⟩
    · have hstop : Moves pid (s'.pass (counted need))
          ((s'.pass (counted need)).stop (counted need) pid).2 := stop_moves
      rw [if_pos (by simp [horder, hcount, hagain, halive']), if_neg hagain]
      exact ⟨(hpass s' hsliced).stop, hstop.order.trans horder, rfl⟩

/-- A round, for processes that are all different. -/
lemma round_counted (need : ℕ → ℕ) (live nxt : List ℕ) (s : Slicing) (h : AllThere s) (hnodup : live.Nodup) :
    AllThere (live.foldl (fun x pid => visit (counted need) pid x) (nxt, s)).2 ∧
      (live.foldl (fun x pid => visit (counted need) pid x) (nxt, s)).2.order =
        s.order ++ live.filter (fun p => s.order.count p < need p) ∧
      (live.foldl (fun x pid => visit (counted need) pid x) (nxt, s)).1 =
        nxt ++ live.filter fun p => s.order.count p + 1 < need p := by
  induction live generalizing nxt s with
  | nil => exact ⟨h, by simp, by simp⟩
  | cons pid live ih =>
    have hvisit := visit_counted need pid nxt h
    obtain ⟨hnotin, hnodup⟩ := List.nodup_cons.1 hnodup
    rw [List.foldl_cons]
    generalize visit (counted need) pid (nxt, s) = r at hvisit ⊢
    obtain ⟨nxt', s'⟩ := r
    dsimp only at hvisit
    obtain ⟨hthere, horder, hnxt⟩ := hvisit
    obtain ⟨hthere', horder', hnxt'⟩ := ih nxt' s' hthere hnodup
    -- the slice of this process counts for no other one
    have hcount : ∀ q ∈ live, s'.order.count q = s.order.count q := by
      intro q hq
      have hne : q ≠ pid := by
        rintro rfl
        exact hnotin hq
      rw [horder]
      split_ifs
      · rfl
      · rw [List.count_append, List.count_singleton, if_neg (by simpa using hne.symm), add_zero]
    refine ⟨hthere', ?_, ?_⟩
    · rw [horder', List.filter_congr fun q hq => by rw [hcount q hq], horder, List.filter_cons]
      by_cases hdone : need pid ≤ s.order.count pid
      · rw [if_pos hdone, if_neg (by simpa using hdone)]
      · rw [if_neg hdone, if_pos (by simpa using hdone), List.append_assoc]
        rfl
    · rw [hnxt', List.filter_congr fun q hq => by rw [hcount q hq], hnxt, List.filter_cons]
      by_cases hagain : need pid ≤ s.order.count pid + 1
      · rw [if_pos hagain, if_neg (by simpa using hagain)]
      · rw [if_neg hagain, if_pos (by simpa using hagain), List.append_assoc]
        rfl

/-- What the processes still need after the slices `order`. -/
def remaining (need : ℕ → ℕ) (order live : List ℕ) : List (ℕ × ℕ) :=
  live.map fun p => (p, need p - order.count p)

/-- Of those in line, who needs a slice gets one, and who needs two stays. -/
lemma count_append_filter {order live : List ℕ} (hnodup : live.Nodup) {p : ℕ}
    (hp : p ∈ live) (hneed : order.count p + 1 < need p) :
    (order ++ live.filter fun p => order.count p < need p).count p = order.count p + 1 := by
  have hmem : p ∈ live.filter fun p => order.count p < need p :=
    List.mem_filter.2 ⟨hp, by simpa using Nat.lt_of_succ_lt hneed⟩
  rw [List.count_append, List.count_eq_one_of_mem (hnodup.filter _) hmem]

lemma steps_first_remaining (order live : List ℕ) :
    steps ((remaining need order live).map fun x => (x.1, min x.2 (max 1 1))) =
      live.filter fun p => order.count p < need p := by
  induction live with
  | nil => rfl
  | cons p live ih =>
    rw [remaining, List.map_cons, List.map_cons, steps_cons, List.filter_cons]
    dsimp only
    split_ifs with hneed
    · have hone : min (need p - order.count p) (max 1 1) = 1 := by
        have hneed' : order.count p < need p := by simpa using hneed
        omega
      rw [hone]
      exact congrArg (p :: ·) ih
    · have hzero : min (need p - order.count p) (max 1 1) = 0 := by
        have hneed' : ¬order.count p < need p := by simpa using hneed
        omega
      rw [hzero]
      exact ih

lemma leftover_remaining (order live : List ℕ) :
    leftover 1 (remaining need order live) =
      (live.filter fun p => order.count p + 1 < need p).map
        fun p => (p, need p - (order.count p + 1)) := by
  induction live with
  | nil => rfl
  | cons p live ih =>
    have hcons : leftover 1 (remaining need order (p :: live)) =
        (if need p - order.count p ≤ max 1 1 then leftover 1 (remaining need order live)
          else (p, need p - order.count p - max 1 1) :: leftover 1 (remaining need order live)) := by
      rw [remaining, List.map_cons, leftover, List.filterMap_cons]
      dsimp only
      split_ifs <;> rfl
    rw [hcons, ih, List.filter_cons]
    by_cases hagain : order.count p + 1 < need p
    · rw [if_neg (by omega), if_pos (by simpa using hagain), List.map_cons, Nat.sub_sub]
      rfl
    · rw [if_pos (by omega), if_neg (by simpa using hagain)]

/-- A round is one slice for everyone in line. -/
lemma steps_slices_remaining (order live : List ℕ) (hnodup : live.Nodup) :
    steps (slices 1 (remaining need order live)) =
      live.filter (fun p => order.count p < need p) ++
        steps (slices 1 (remaining need (order ++ live.filter fun p => order.count p < need p)
          (live.filter fun p => order.count p + 1 < need p))) := by
  have hround := slices_append 1 (remaining need order live) []
  rw [List.append_nil, List.nil_append] at hround
  rw [hround, steps_append, steps_first_remaining, leftover_remaining]
  congr 3
  refine List.map_congr_left fun p hp => ?_
  obtain ⟨hlive, hneed⟩ := List.mem_filter.1 hp
  rw [count_append_filter hnodup hlive (by simpa using hneed)]

/-- **The run lemma** for processes that nobody interferes with. -/
lemma rounds_counted (need : ℕ → ℕ) (fuel : ℕ) (live : List ℕ) (s : Slicing) (h : AllThere s)
    (hnodup : live.Nodup) (hfuel : ∀ p ∈ live, need p - s.order.count p < fuel) :
    (rounds (counted need) fuel live s).1 = [] ∧
      (rounds (counted need) fuel live s).2.order =
        s.order ++ steps (slices 1 (remaining need s.order live)) := by
  induction fuel generalizing live s with
  | zero =>
    cases live with
    | nil => exact ⟨rfl, by simp [rounds, remaining]⟩
    | cons p live => exact absurd (hfuel p List.mem_cons_self) (Nat.not_lt_zero _)
  | succ fuel ih =>
    rw [rounds]
    split_ifs with hlive
    · subst hlive
      exact ⟨rfl, by simp [remaining]⟩
    · obtain ⟨hthere, horder, hnxt⟩ := round_counted need live [] s h hnodup
      have hround : s.round (counted need) live =
        live.foldl (fun x pid => visit (counted need) pid x) ([], s) := rfl
      rw [List.nil_append] at hnxt
      rw [← hround] at hthere horder hnxt
      generalize s.round (counted need) live = r at hthere horder hnxt ⊢
      obtain ⟨nxt, s'⟩ := r
      dsimp only at hthere horder hnxt ⊢
      subst hnxt
      obtain ⟨hdone, hall⟩ := ih _ s' hthere (hnodup.filter _) (by
        intro p hp
        obtain ⟨hp, hneed⟩ := List.mem_filter.1 hp
        have hneed' : s.order.count p + 1 < need p := of_decide_eq_true hneed
        rw [horder, count_append_filter hnodup hp hneed']
        have hlt := hfuel p hp
        omega)
      refine ⟨hdone, ?_⟩
      rw [hall, steps_slices_remaining s.order live hnodup, horder, List.append_assoc]

lemma allThere_stop_all (rest : List ℕ) (s : Slicing) (h : AllThere s) :
    AllThere (rest.foldl (fun s pid => (s.stop (counted need) pid).2) s) := by
  induction rest generalizing s with
  | nil => exact h
  | cons pid rest ih => exact ih _ h.stop

end

/-- **The two schedulers agree.**  Let process `i` be done after `need i` slices, and let nobody
interfere.  Then `run_rr_quantum` ends, with the order of round robin with a quantum of one
slice; and `rr_order` with preemption returns that order too. -/
theorem runRrQuantum_agrees (need : ℕ → ℕ) (pids : List ℕ) (hnodup : pids.Nodup) (fuel : ℕ)
    (hfuel : ∀ p ∈ pids, need p < fuel) :
    (runRrQuantum (counted need) fuel pids fun _ => .running).1 = [] ∧
      (runRrQuantum (counted need) fuel pids fun _ => .running).2.order =
        steps (slices 1 (pids.map fun p => (p, need p))) ∧
      ∀ n late fuel', pids = List.range n → (∀ k, late k = false) →
        ((List.range n).map need).sum + n < fuel' →
        rrOrder true late fuel' n need =
          some ⟨(runRrQuantum (counted need) fuel pids fun _ => .running).2.order, [], []⟩ := by
  obtain ⟨-, -, horder⟩ :=
    queued_start (e := counted need) (fun _ _ => rfl) hnodup fun _ => .running
  have hthere : AllThere (fresh fun _ => .running) := fun q => ⟨Task.noConfusion, rfl⟩
  have hrun := rounds_counted need fuel pids _ (allThere_stop_all pids _ hthere) hnodup (by
    rw [horder]
    simpa using hfuel)
  rw [horder, List.nil_append] at hrun
  have hjobs : remaining need [] pids = pids.map fun p => (p, need p) := by simp [remaining]
  rw [hjobs] at hrun
  refine ⟨hrun.1, hrun.2, ?_⟩
  rintro n late fuel' rfl hlate hfuel'
  rw [rrOrder_eq true hlate hfuel', schedule_true]
  exact congrArg (fun o => some (RrOutcome.mk o [] [])) hrun.2.symm

/-- Three processes that need 2, 0 and 1 slices. -/
theorem runRrQuantum_agrees_three :
    (runRrQuantum (counted ([2, 0, 1].getD · 0)) 3 (List.range 3) fun _ => .running).1 = [] ∧
      rrOrder true (fun _ => false) 7 3 ([2, 0, 1].getD · 0) =
        some ⟨(runRrQuantum (counted ([2, 0, 1].getD · 0)) 3 (List.range 3)
          fun _ => .running).2.order, [], []⟩ := by
  obtain ⟨hdone, -, hagree⟩ := runRrQuantum_agrees ([2, 0, 1].getD · 0) (List.range 3)
    (by decide) 3 (by decide)
  exact ⟨hdone, hagree 3 _ 7 rfl (fun _ => rfl) (by decide)⟩

end Gcos.Osprims
