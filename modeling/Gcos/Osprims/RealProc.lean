import Gcos.Lib.RoundRobin

/-!
# Slices for real processes

`RealProcessScheduler.rr_order` hands out slices to forked children with SIGCONT and SIGSTOP
and polls after each slice whether the child has ended.  The children that are left are a
list, and the next one is an index into it: an entry that goes is cut out of the list under
the index, and at the end the index is wrapped around.  Read from the index on, the list is a
queue, and the order of the slices is the one of that queue.
-/

namespace Gcos.Osprims

open Lib RoundRobin

/-! ### The children -/

/-- What `os.waitpid(pid, os.WNOHANG)` answers: the pid of a child that has ended, 0 for one
that has not, or `ChildProcessError` if there is no such child. -/
inductive Wait
  | pid
  | zero
  | childProcessError
deriving DecidableEq

/-- The forked children, by their index: the slices until the work is done, whether the child
is frozen, and whether its end was collected. -/
structure Children where
  left : ℕ → ℕ
  stopped : ℕ → Bool
  collected : ℕ → Bool

namespace Children

/-- `os.waitpid(pid, os.WNOHANG)`. -/
def waitpid (c : Children) (idx : ℕ) : Wait × Children :=
  if c.collected idx then (.childProcessError, c)
  else if c.left idx = 0 then
    (.pid, { c with collected := Function.update c.collected idx true })
  else (.zero, c)

/-- `Preemptor.stop`. -/
def stop (c : Children) (idx : ℕ) : Children :=
  { c with stopped := Function.update c.stopped idx true }

/-- `Preemptor.cont`. -/
def cont (c : Children) (idx : ℕ) : Children :=
  { c with stopped := Function.update c.stopped idx false }

/-- `time.sleep(quantum_s)`: every child that is not frozen has a slice. -/
def sleep (c : Children) : Children :=
  { c with left := fun j => if c.stopped j then c.left j else c.left j - 1 }

end Children

/-! ### The loop -/

/-- The variables of `rr_order`. -/
structure RrState where
  children : Children
  exited : List ℕ
  order : List ℕ
  pending : List ℕ
  i : ℕ

/-- `reaped(idx, p)`. -/
def reaped (s : RrState) (idx : ℕ) : Bool × RrState :=
  if idx ∈ s.exited then (true, s)
  else
    match s.children.waitpid idx with
    | (.zero, children) => (false, { s with children := children })
    | (_, children) => (true, { s with children := children, exited := idx :: s.exited })

/-- A slice: the child is noted in the order, continued, and left to run for the quantum. -/
def slice (s : RrState) (idx : ℕ) : RrState :=
  { s with order := s.order ++ [idx], children := (s.children.cont idx).sleep }

/-- One round of the loop. -/
def turn (preempt : Bool) (s : RrState) : RrState :=
  let i := s.i % s.pending.length
  match s.pending[i]? with
  | none => s
  | some idx =>
    match reaped s idx with
    | (true, s) => { s with pending := s.pending.eraseIdx i, i := i }
    | (false, s) =>
      match reaped (slice s idx) idx with
      | (true, s) => { s with pending := s.pending.eraseIdx i, i := i }
      | (false, s) =>
        -- without preemption the same child goes on
        { s with children := s.children.stop idx, i := if preempt then i + 1 else i }

/-- The loop.  `late k` says that the deadline is over when it is looked at for the `k`-th
time; `fuel` bounds the rounds. -/
def rrLoop (preempt : Bool) (late : ℕ → Bool) : ℕ → ℕ → RrState → Option RrState
  | 0, _, _ => none
  | fuel + 1, k, s =>
    if s.pending ≠ [] ∧ late k = false then rrLoop preempt late fuel (k + 1) (turn preempt s)
    else some s

/-- What `rr_order` leaves behind: the order it returns, the children that the warning is
about, and those that are killed in the end. -/
structure RrOutcome where
  order : List ℕ
  unfinished : List ℕ
  killed : List ℕ
deriving DecidableEq

/-- Every child is frozen before the first slice. -/
def rrStart (n : ℕ) (slices : ℕ → ℕ) : RrState where
  children := (List.range n).foldl Children.stop ⟨slices, fun _ => false, fun _ => false⟩
  exited := []
  order := []
  pending := List.range n
  i := 0

/-- `RealProcessScheduler.rr_order` with `n` children, of which child `i` has ended after
`slices i` slices. -/
def rrOrder (preempt : Bool) (late : ℕ → Bool) (fuel n : ℕ) (slices : ℕ → ℕ) : Option RrOutcome :=
  (rrLoop preempt late fuel 0 (rrStart n slices)).map fun s =>
    { order := s.order
      unfinished := s.pending
      killed := (List.range n).filter fun idx => idx ∉ s.exited }

/-- The variables of `max_consecutive_run`: `best`, `run`, and `prev`, at first an object that
is no entry. -/
def runStep : ℕ × ℕ × Option ℕ → ℕ → ℕ × ℕ × Option ℕ
  | (best, run, prev), x =>
    let run := if some x = prev then run + 1 else 1
    (max best run, run, some x)

/-- `max_consecutive_run`. -/
def maxConsecutiveRun (order : List ℕ) : ℕ := (order.foldl runStep (0, 0, none)).1

/-- `block_count`. -/
def blockCount (order : List ℕ) : ℕ :=
  if order = [] then 0
  else 1 + ((order.zip order.tail).filter fun x => x.1 ≠ x.2).length

/-! ### The queue -/

/-- A child that has had a slice, and what it still needs: it leaves if it is finished, else
it goes to the end of the queue, or back to the front if it is not preempted. -/
def requeue (preempt : Bool) (child : ℕ × ℕ) (queue : List (ℕ × ℕ)) : List (ℕ × ℕ) :=
  if child.2 = 0 then queue else if preempt then queue ++ [child] else child :: queue

/-- The turns that a queue has to make: one for each slice, and one for each child that is
dropped. -/
def work (queue : List (ℕ × ℕ)) : ℕ := (queue.map Prod.snd).sum + queue.length

/-- Every turn is one less to make. -/
lemma work_requeue_lt (preempt : Bool) (a n : ℕ) (queue : List (ℕ × ℕ)) :
    work (requeue preempt (a, n - 1) queue) < work ((a, n) :: queue) := by
  unfold requeue
  split
  · simp [work]
    omega
  · split <;> simp [work] <;> omega

/-- The schedule of a queue of children with the slices that they need: the front child is
dropped if it is finished, else it has one slice. -/
def schedule (preempt : Bool) : List (ℕ × ℕ) → List ℕ
  | [] => []
  | (a, n) :: queue =>
    if n = 0 then schedule preempt queue
    else a :: schedule preempt (requeue preempt (a, n - 1) queue)
termination_by queue => work queue
decreasing_by
  · simp [work]
    omega
  · exact work_requeue_lt preempt a n queue

lemma schedule_nil (preempt : Bool) : schedule preempt [] = [] := by rw [schedule]

lemma schedule_zero (preempt : Bool) (a : ℕ) (queue : List (ℕ × ℕ)) :
    schedule preempt ((a, 0) :: queue) = schedule preempt queue := by rw [schedule, if_pos rfl]

lemma schedule_succ (preempt : Bool) (a n : ℕ) (queue : List (ℕ × ℕ)) :
    schedule preempt ((a, n + 1) :: queue) = a :: schedule preempt (requeue preempt (a, n) queue) := by
  rw [schedule, if_neg n.succ_ne_zero, Nat.add_sub_cancel]

/-- Without preemption every child runs to completion. -/
lemma schedule_false (queue : List (ℕ × ℕ)) : schedule false queue = steps queue := by
  induction queue with
  | nil => exact schedule_nil false
  | cons child queue ih =>
    obtain ⟨a, n⟩ := child
    rw [steps_cons, ← ih]
    induction n with
    | zero => exact schedule_zero false a queue
    | succ n ih' =>
      rw [schedule_succ, List.replicate_succ, List.cons_append, ← ih']
      cases n with
      | zero => rw [schedule_zero]; rfl
      | succ n => rfl

/-- With preemption the schedule is the round robin with a quantum of one slice. -/
lemma schedule_true (queue : List (ℕ × ℕ)) : schedule true queue = steps (slices 1 queue) := by
  -- by induction on the turns of the queue
  induction queue using slices.induct 1 with
  | case1 => rw [schedule_nil, slices_nil]; rfl
  | case2 a n rest hn ih =>
    rw [slices_of_le rest hn, steps_cons, ← ih]
    obtain rfl | rfl : n = 0 ∨ n = 1 := by omega
    · exact schedule_zero true a rest
    · exact schedule_succ true a 0 rest
  | case3 a n rest hn ih =>
    rw [slices_of_lt rest (not_le.1 hn), steps_cons, ← ih]
    obtain ⟨m, rfl⟩ : ∃ m, n = m + 2 := ⟨n - 2, by omega⟩
    exact schedule_succ true a (m + 1) rest

/-! ### One round -/

namespace RrState

/-- The children that are left, the next one first. -/
def queue (s : RrState) : List ℕ := s.pending.drop s.i ++ s.pending.take s.i

/-- What the children that are left still need. -/
def jobs (s : RrState) : List (ℕ × ℕ) := s.queue.map fun a => (a, s.children.left a)

/-- Between two rounds every child that is left is frozen and not collected. -/
structure Paused (s : RrState) : Prop where
  nodup : s.pending.Nodup
  le : s.i ≤ s.pending.length
  stopped : ∀ a ∈ s.pending, s.children.stopped a = true
  collected : ∀ a ∈ s.pending, s.children.collected a = false
  exited : ∀ a ∈ s.pending, a ∉ s.exited

variable {s : RrState}

/-- The entry under the index, after it is wrapped around, is the front of the queue. -/
lemma exists_split (hle : s.i ≤ s.pending.length) (hne : s.pending ≠ []) :
    ∃ front a back, s.pending = front ++ a :: back ∧
      s.i % s.pending.length = front.length ∧ s.queue = a :: (back ++ front) := by
  rcases hle.eq_or_lt with heq | hlt
  · obtain ⟨a, back, hcons⟩ := List.exists_cons_of_ne_nil hne
    refine ⟨[], a, back, hcons, ?_, ?_⟩
    · rw [heq, Nat.mod_self]
      rfl
    · rw [queue, heq, List.drop_length, List.take_length, hcons, List.append_nil]
      rfl
  · refine ⟨s.pending.take s.i, s.pending[s.i], s.pending.drop (s.i + 1), ?_, ?_, ?_⟩
    · rw [← List.drop_eq_getElem_cons hlt, List.take_append_drop]
    · rw [Nat.mod_eq_of_lt hlt, List.length_take_of_le hle]
    · rw [queue, List.drop_eq_getElem_cons hlt, List.cons_append]

/-- The queue after the entry under the index is cut out. -/
lemma queue_of_append {front back : List ℕ} (hpending : s.pending = front ++ back)
    (hi : s.i = front.length) : s.queue = back ++ front := by
  rw [queue, hpending, hi, List.drop_left, List.take_left]

/-- The queue after the child under the index was frozen again. -/
lemma queue_of_stopped {preempt : Bool} (front back : List ℕ) (a : ℕ)
    (hpending : s.pending = front ++ a :: back)
    (hi : s.i = if preempt then front.length + 1 else front.length) :
    s.queue = if preempt then (back ++ front) ++ [a] else a :: (back ++ front) := by
  cases preempt with
  | false => exact queue_of_append hpending hi
  | true =>
    have hpast : s.pending = (front ++ [a]) ++ back := by rw [hpending, List.append_assoc]; rfl
    rw [queue_of_append hpast (by simpa using hi), if_pos rfl, List.append_assoc]

end RrState

open RrState

variable {s : RrState} {a : ℕ} {front back : List ℕ} {preempt : Bool}

/-- A child that was not collected is reaped if it has ended. -/
lemma reaped_eq (hexited : a ∉ s.exited) (hcollected : s.children.collected a = false) :
    reaped s a = if s.children.left a = 0 then
      (true, { s with
        children := { s.children with collected := Function.update s.children.collected a true }
        exited := a :: s.exited })
      else (false, s) := by
  rw [reaped, if_neg hexited, Children.waitpid, hcollected]
  by_cases hleft : s.children.left a = 0
  · simp only [Bool.false_eq_true, if_false, if_pos hleft]
  · simp only [Bool.false_eq_true, if_false, if_neg hleft]

/-- Only the child that goes on has a slice. -/
lemma left_sleep_cont {c : Children} {b : ℕ} (hb : c.stopped b = true) :
    (c.cont a).sleep.left b = if b = a then c.left a - 1 else c.left b := by
  by_cases hba : b = a
  · subst hba
    simp [Children.cont, Children.sleep]
  · simp [Children.cont, Children.sleep, hba, hb]

section Turn

variable (hpending : s.pending = front ++ a :: back) (hi : s.i % s.pending.length = front.length)
  (hpaused : s.Paused)

include hpending

lemma getElem?_pending : s.pending[front.length]? = some a := by
  rw [hpending, List.getElem?_append_right le_rfl, Nat.sub_self]
  rfl

lemma eraseIdx_pending : s.pending.eraseIdx front.length = front ++ back := by
  rw [hpending, List.eraseIdx_append_of_length_le le_rfl, Nat.sub_self]
  rfl

include hi hpaused

/-- A child that has ended is dropped. -/
lemma turn_dropped (hleft : s.children.left a = 0) :
    turn preempt s =
      { children := { s.children with collected := Function.update s.children.collected a true }
        exited := a :: s.exited
        order := s.order
        pending := front ++ back
        i := front.length } := by
  have hmem : a ∈ s.pending := by simp [hpending]
  simp only [turn, hi, getElem?_pending hpending, eraseIdx_pending hpending,
    reaped_eq (hpaused.exited a hmem) (hpaused.collected a hmem), if_pos hleft]

/-- A child with work for one slice has it and is cut out. -/
lemma turn_finished (hleft : s.children.left a = 1) :
    turn preempt s =
      { children := { (s.children.cont a).sleep with
          collected := Function.update s.children.collected a true }
        exited := a :: s.exited
        order := s.order ++ [a]
        pending := front ++ back
        i := front.length } := by
  have hmem : a ∈ s.pending := by simp [hpending]
  have hslept : (s.children.cont a).sleep.left a = 0 := by
    rw [left_sleep_cont (hpaused.stopped a hmem), if_pos rfl, hleft]
  have hbusy : ¬s.children.left a = 0 := by omega
  have herase : (slice s a).pending.eraseIdx front.length = front ++ back :=
    eraseIdx_pending hpending
  have hends := (reaped_eq (s := slice s a) (hpaused.exited a hmem)
    (hpaused.collected a hmem)).trans (if_pos hslept)
  simp only [turn, hi, getElem?_pending hpending,
    reaped_eq (hpaused.exited a hmem) (hpaused.collected a hmem), if_neg hbusy, hends,
    herase]
  rfl

/-- A child with more work has a slice and is frozen again. -/
lemma turn_stopped {m : ℕ} (hleft : s.children.left a = m + 2) :
    turn preempt s = { s with
      order := s.order ++ [a]
      children := (s.children.cont a).sleep.stop a
      i := if preempt then front.length + 1 else front.length } := by
  have hmem : a ∈ s.pending := by simp [hpending]
  have hslept : ¬(s.children.cont a).sleep.left a = 0 := by
    rw [left_sleep_cont (hpaused.stopped a hmem), if_pos rfl, hleft]
    omega
  have hbusy : ¬s.children.left a = 0 := by omega
  have hgoes := (reaped_eq (s := slice s a) (hpaused.exited a hmem)
    (hpaused.collected a hmem)).trans (if_neg hslept)
  simp only [turn, hi, getElem?_pending hpending,
    reaped_eq (hpaused.exited a hmem) (hpaused.collected a hmem), if_neg hbusy, hgoes]
  rfl

end Turn

namespace RrState

/-- The children that are accounted for. -/
def Known (s : RrState) (b : ℕ) : Prop := b ∈ s.exited ∨ b ∈ s.pending

/-- One round of the loop is one turn of the queue: `a`, which needs `m` slices, is in front
of it, and `rest` behind. -/
structure Turned (preempt : Bool) (a m : ℕ) (rest : List (ℕ × ℕ)) (s s' : RrState) : Prop where
  paused : s'.Paused
  order : s'.order = if m = 0 then s.order else s.order ++ [a]
  jobs : s'.jobs = requeue preempt (a, m - 1) rest
  known : ∀ b, s.Known b → s'.Known b

end RrState

section

variable (hpending : s.pending = front ++ a :: back)

include hpending

lemma mem_pending_of_mem_rest {b : ℕ} (hb : b ∈ front ++ back) : b ∈ s.pending := by
  rw [hpending]
  simp only [List.mem_append, List.mem_cons] at hb ⊢
  tauto

lemma known_of_cut {s' : RrState} (hpending' : s'.pending = front ++ back)
    (hexited : s'.exited = a :: s.exited) : ∀ b, s.Known b → s'.Known b := by
  intro b
  simp only [Known, hpending, hpending', hexited, List.mem_cons, List.mem_append]
  tauto

variable (hpaused : s.Paused)

include hpaused

lemma ne_of_mem_rest {b : ℕ} (hb : b ∈ front ++ back) : b ≠ a := by
  have hnodup := hpaused.nodup
  rw [hpending] at hnodup
  rintro rfl
  exact (List.nodup_middle.1 hnodup).notMem hb

/-- What is true of all children that are left is true of those that stay. -/
lemma paused_of_cut {s' : RrState} (hpending' : s'.pending = front ++ back)
    (hi' : s'.i = front.length) (hexited : s'.exited = a :: s.exited)
    (hcollected : s'.children.collected = Function.update s.children.collected a true)
    (hstopped : ∀ b ∈ front ++ back, s'.children.stopped b = true) : s'.Paused where
  nodup := by
    have hnodup := hpaused.nodup
    rw [hpending] at hnodup
    rw [hpending']
    exact (List.nodup_cons.1 (List.nodup_middle.1 hnodup)).2
  le := by rw [hpending', hi', List.length_append]; omega
  stopped := by rwa [hpending']
  collected := by
    intro b hb
    rw [hpending'] at hb
    rw [hcollected, Function.update_of_ne (ne_of_mem_rest hpending hpaused hb)]
    exact hpaused.collected b (mem_pending_of_mem_rest hpending hb)
  exited := by
    intro b hb
    rw [hpending'] at hb
    rw [hexited, List.mem_cons, not_or]
    exact ⟨ne_of_mem_rest hpending hpaused hb,
      hpaused.exited b (mem_pending_of_mem_rest hpending hb)⟩

end

/-- The queue turns once in every round. -/
lemma turned (preempt : Bool) (hpaused : s.Paused) {m : ℕ} {rest : List (ℕ × ℕ)} (hjobs : s.jobs = (a, m) :: rest) :
    Turned preempt a m rest s (turn preempt s) := by
  have hne : s.pending ≠ [] := by
    rintro hnil
    simp [jobs, queue, hnil] at hjobs
  obtain ⟨front, a', back, hpending, hi, hqueue⟩ := exists_split hpaused.le hne
  rw [jobs, hqueue, List.map_cons] at hjobs
  obtain ⟨hhead, hrest⟩ := List.cons.inj hjobs
  obtain ⟨rfl, hleft⟩ := Prod.mk.inj hhead
  have hmem : a' ∈ s.pending := by simp [hpending]
  -- nobody else has had a slice
  have hothers : ∀ b ∈ back ++ front, (s.children.cont a').sleep.left b = s.children.left b := by
    intro b hb
    have hb' : b ∈ front ++ back := List.mem_append.2 (List.mem_append.1 hb).symm
    rw [left_sleep_cont (hpaused.stopped b (mem_pending_of_mem_rest hpending hb')),
      if_neg (ne_of_mem_rest hpending hpaused hb')]
  have hstopped : ∀ b ∈ front ++ back, s.children.stopped b = true := fun b hb =>
    hpaused.stopped b (mem_pending_of_mem_rest hpending hb)
  match m with
  | 0 =>
    rw [turn_dropped hpending hi hpaused hleft]
    exact ⟨paused_of_cut hpending hpaused rfl rfl rfl rfl hstopped, rfl,
      (congrArg _ (queue_of_append rfl rfl)).trans hrest, known_of_cut hpending rfl rfl⟩
  | 1 =>
    rw [turn_finished hpending hi hpaused hleft]
    refine ⟨paused_of_cut hpending hpaused rfl rfl rfl rfl ?_, rfl, ?_, known_of_cut hpending rfl rfl⟩
    · intro b hb
      exact (Function.update_of_ne (ne_of_mem_rest hpending hpaused hb) _ _).trans (hstopped b hb)
    · rw [jobs, queue_of_append rfl rfl, List.map_congr_left fun b hb => by rw [hothers b hb]]
      exact hrest
  | m + 2 =>
    rw [turn_stopped hpending hi hpaused hleft]
    refine ⟨⟨hpaused.nodup, ?_, ?_, hpaused.collected, hpaused.exited⟩, rfl, ?_, fun b hb => hb⟩
    · simp only [hpending, List.length_append, List.length_cons]
      split <;> omega
    · intro b hb
      by_cases hba : b = a'
      · rw [hba]
        exact Function.update_self ..
      · exact (Function.update_of_ne hba _ _).trans
          ((Function.update_of_ne hba _ _).trans (hpaused.stopped b hb))
    · have hself : (s.children.cont a').sleep.left a' = m + 1 := by
        rw [left_sleep_cont (hpaused.stopped a' hmem), if_pos rfl, hleft]
        rfl
      have hbehind : (back ++ front).map (fun b => (b, (s.children.cont a').sleep.left b)) = rest := by
        rw [List.map_congr_left fun b hb => by rw [hothers b hb]]
        exact hrest
      have hrequeue : requeue preempt (a', m + 2 - 1) rest =
          if preempt then rest ++ [(a', m + 1)] else (a', m + 1) :: rest := if_neg (by simp)
      rw [hrequeue]
      refine (congrArg (List.map _) (queue_of_stopped front back a' (by exact hpending) rfl)).trans ?_
      cases preempt with
      | false =>
        show (a', (s.children.cont a').sleep.left a') :: List.map _ (back ++ front) = _
        rw [hself]
        exact congrArg _ hbehind
      | true =>
        show List.map _ ((back ++ front) ++ [a']) = _
        rw [List.map_append]
        exact congrArg₂ _ hbehind (congrArg (fun k => [(a', k)]) hself)

/-! ### The whole run -/

variable {late : ℕ → Bool}

/-- The loop serves the queue to its end. -/
lemma rrLoop_spec (preempt : Bool) (hlate : ∀ k, late k = false) {fuel : ℕ} (k : ℕ) (hpaused : s.Paused)
    (hfuel : work s.jobs < fuel) :
    ∃ s', rrLoop preempt late fuel k s = some s' ∧ s'.pending = [] ∧
      s'.order = s.order ++ schedule preempt s.jobs ∧ ∀ b, s.Known b → b ∈ s'.exited := by
  -- by induction on the fuel: every round is a turn of the queue
  induction fuel generalizing k s with
  | zero => omega
  | succ fuel ih =>
    rw [rrLoop]
    by_cases hend : s.pending = []
    · have hjobs : s.jobs = [] := by simp [jobs, queue, hend]
      refine ⟨s, if_neg (by simp [hend]), hend, ?_, ?_⟩
      · rw [hjobs, schedule_nil, List.append_nil]
      · rintro b (hb | hb)
        · exact hb
        · rw [hend] at hb
          cases hb
    · rw [if_pos ⟨hend, hlate k⟩]
      obtain ⟨front, a, back, -, -, hqueue⟩ := exists_split hpaused.le hend
      have hjobs : s.jobs = (a, s.children.left a) ::
          (back ++ front).map fun b => (b, s.children.left b) := by rw [jobs, hqueue, List.map_cons]
      generalize s.children.left a = m at hjobs
      have hturned := turned preempt hpaused hjobs
      have hless := work_requeue_lt preempt a m ((back ++ front).map fun b => (b, s.children.left b))
      rw [hjobs] at hfuel
      obtain ⟨s', hrun, hpending, horder, hknown⟩ :=
        ih (k + 1) hturned.paused (by rw [hturned.jobs]; omega)
      refine ⟨s', hrun, hpending, ?_, fun b hb => hknown b (hturned.known b hb)⟩
      rw [horder, hturned.order, hturned.jobs, hjobs]
      cases m with
      | zero => rw [if_pos rfl, schedule_zero]; rfl
      | succ m => rw [if_neg m.succ_ne_zero, schedule_succ, List.append_assoc]; rfl

variable {n : ℕ} {slices : ℕ → ℕ}

/-- The children of `rr_order` with the slices that they need. -/
def forked (n : ℕ) (slices : ℕ → ℕ) : List (ℕ × ℕ) := (List.range n).map fun i => (i, slices i)

lemma foldl_stop (idxs : List ℕ) (c : Children) :
    (idxs.foldl Children.stop c).left = c.left ∧
      (idxs.foldl Children.stop c).collected = c.collected ∧
      ∀ b, b ∈ idxs ∨ c.stopped b = true → (idxs.foldl Children.stop c).stopped b = true := by
  induction idxs generalizing c with
  | nil => exact ⟨rfl, rfl, fun b hb => hb.resolve_left List.not_mem_nil⟩
  | cons idx idxs ih =>
    obtain ⟨hleft, hcollected, hstopped⟩ := ih (c.stop idx)
    refine ⟨hleft, hcollected, fun b hb => hstopped b ?_⟩
    by_cases hidx : b = idx
    · exact .inr (by rw [hidx]; exact Function.update_self ..)
    · have hsame : (c.stop idx).stopped b = c.stopped b := Function.update_of_ne hidx ..
      rw [hsame]
      exact hb.imp_left fun hmem => (List.mem_cons.1 hmem).resolve_left hidx

lemma paused_rrStart (n : ℕ) (slices : ℕ → ℕ) : (rrStart n slices).Paused := by
  obtain ⟨-, hcollected, hstopped⟩ :=
    foldl_stop (List.range n) ⟨slices, fun _ => false, fun _ => false⟩
  exact ⟨List.nodup_range, Nat.zero_le _, fun a ha => hstopped a (.inl ha),
    fun a _ => congrFun hcollected a, fun a _ => List.not_mem_nil⟩

lemma jobs_rrStart (n : ℕ) (slices : ℕ → ℕ) : (rrStart n slices).jobs = forked n slices := by
  have hleft := (foldl_stop (List.range n) ⟨slices, fun _ => false, fun _ => false⟩).1
  have hqueue : (rrStart n slices).queue = List.range n := List.append_nil _
  rw [jobs, hqueue]
  exact List.map_congr_left fun a _ => congrArg (Prod.mk a) (congrFun hleft a)

lemma work_forked (n : ℕ) (slices : ℕ → ℕ) :
    work (forked n slices) = ((List.range n).map slices).sum + n := by
  rw [work, forked, List.map_map, List.length_map, List.length_range]
  rfl

/-- The order is the schedule of the queue, and nobody is left to be killed. -/
lemma rrOrder_eq (preempt : Bool) (hlate : ∀ k, late k = false) {fuel : ℕ}
    (hfuel : ((List.range n).map slices).sum + n < fuel) :
    rrOrder preempt late fuel n slices = some ⟨schedule preempt (forked n slices), [], []⟩ := by
  obtain ⟨s', hrun, hpending, horder, hknown⟩ := rrLoop_spec preempt hlate 0
    (paused_rrStart n slices) (by rwa [jobs_rrStart, work_forked])
  rw [rrOrder, hrun, Option.map_some, hpending, horder, jobs_rrStart]
  have hkilled : (List.range n).filter (fun idx => idx ∉ s'.exited) = [] := by
    rw [List.filter_eq_nil_iff]
    intro b hb
    simpa using hknown b (.inr hb)
  rw [hkilled]
  rfl

/-! ### Counts -/

/-- Every child has the slices that it needs. -/
lemma count_steps_forked (n : ℕ) (slices : ℕ → ℕ) (b : ℕ) :
    (steps (forked n slices)).count b = if b < n then slices b else 0 := by
  induction n with
  | zero => rfl
  | succ n ih =>
    have hsnoc : forked (n + 1) slices = forked n slices ++ [(n, slices n)] := by
      rw [forked, List.range_succ, List.map_append]
      rfl
    rw [hsnoc, steps_append, List.count_append, ih, steps_cons, steps_nil, List.append_nil,
      List.count_replicate]
    by_cases hb : n = b
    · subst hb
      simp
    · have hlt : b < n + 1 ↔ b < n := by omega
      simp [hb, hlt]

lemma count_schedule (preempt : Bool) (n : ℕ) (slices : ℕ → ℕ) (b : ℕ) :
    (schedule preempt (forked n slices)).count b = if b < n then slices b else 0 := by
  rw [← count_steps_forked]
  cases preempt with
  | false => rw [schedule_false]
  | true => rw [schedule_true, (steps_slices_perm 1 _).count_eq]

/-- A block begins where the entry before is another one. -/
lemma blockCount_cons (a : ℕ) (order : List ℕ) :
    blockCount (a :: order) = if order.head? = some a then blockCount order
      else blockCount order + 1 := by
  cases order with
  | nil => rfl
  | cons b rest =>
    have hzip : (a :: b :: rest).zip (a :: b :: rest).tail = (a, b) :: (b :: rest).zip rest := rfl
    rw [blockCount, if_neg (List.cons_ne_nil _ _), hzip, List.filter_cons, blockCount,
      if_neg (List.cons_ne_nil _ _)]
    by_cases hab : a = b
    · subst hab
      simp
    · have hba : ¬b = a := fun h => hab h.symm
      simp [hab, hba]
      omega

/-- A run of one entry is one block. -/
lemma blockCount_replicate (a n : ℕ) {order : List ℕ} (h : order.head? ≠ some a) :
    blockCount (List.replicate (n + 1) a ++ order) = blockCount order + 1 := by
  induction n with
  | zero => exact (blockCount_cons a order).trans (if_neg h)
  | succ n ih =>
    rw [List.replicate_succ, List.cons_append, blockCount_cons, if_pos, ih]
    rw [List.replicate_succ, List.cons_append, List.head?_cons]

/-- Children that run to completion have one block each, if they run at all. -/
lemma blockCount_steps {queue : List (ℕ × ℕ)} (hnodup : (queue.map Prod.fst).Nodup) :
    blockCount (steps queue) = (queue.filter fun x => 0 < x.2).length := by
  induction queue with
  | nil => rfl
  | cons child queue ih =>
    obtain ⟨a, n⟩ := child
    rw [List.map_cons, List.nodup_cons] at hnodup
    obtain ⟨hnotin, hnodup⟩ := hnodup
    have hhead : (steps queue).head? ≠ some a := by
      intro h
      obtain ⟨x, hx, hax⟩ := List.mem_flatMap.1 (List.mem_of_head? h)
      exact hnotin (List.mem_map.2 ⟨x, hx, (List.mem_replicate.1 hax).2.symm⟩)
    rw [steps_cons, List.filter_cons]
    cases n with
    | zero => exact ih hnodup
    | succ n =>
      rw [blockCount_replicate a n hhead, ih hnodup, if_pos (by simp), List.length_cons]

/-- **What `rr_order` returns.**  Let child `i` have ended after `slices i` slices, and let the
deadline not be over.  With preemption the order is the schedule of a FIFO queue with one slice
a turn; without, the children run one after the other to completion.  In both, every child
occurs as often as it has slices, no child is left over, and without preemption there is one
block for each child with a slice. -/
theorem rrOrder_faithful (n : ℕ) (slices : ℕ → ℕ) (late : ℕ → Bool) (hlate : ∀ k, late k = false)
    (fuel : ℕ) (hfuel : ((List.range n).map slices).sum + n < fuel) :
    let fifo := schedule true (forked n slices)
    let fcfs := (List.range n).flatMap fun i => List.replicate (slices i) i
    rrOrder true late fuel n slices = some ⟨fifo, [], []⟩ ∧
      rrOrder false late fuel n slices = some ⟨fcfs, [], []⟩ ∧
      (∀ i, fifo.count i = (if i < n then slices i else 0) ∧
        fcfs.count i = if i < n then slices i else 0) ∧
      blockCount fcfs = ((List.range n).filter fun i => 0 < slices i).length := by
  intro fifo fcfs
  have hfcfs : fcfs = schedule false (forked n slices) := by
    rw [schedule_false, steps, forked, List.flatMap_map]
  have hnodup : ((forked n slices).map Prod.fst).Nodup := by
    rw [forked, List.map_map]
    exact (List.map_id _).symm ▸ List.nodup_range
  refine ⟨rrOrder_eq true hlate hfuel, ?_, fun i => ⟨count_schedule true n slices i, ?_⟩, ?_⟩
  · rw [hfcfs]
    exact rrOrder_eq false hlate hfuel
  · rw [hfcfs]
    exact count_schedule false n slices i
  · rw [hfcfs, schedule_false, blockCount_steps hnodup, forked, List.filter_map, List.length_map]
    rfl

/-- Three children with work for 2, 0 and 1 slices. -/
theorem rrOrder_faithful_three :
    rrOrder true (fun _ => false) 7 3 ([2, 0, 1].getD · 0) = some ⟨[0, 2, 0], [], []⟩ ∧
      rrOrder false (fun _ => false) 7 3 ([2, 0, 1].getD · 0) = some ⟨[0, 0, 2], [], []⟩ := by
  obtain ⟨hrr, hfcfs, -, -⟩ := rrOrder_faithful 3 ([2, 0, 1].getD · 0) (fun _ => false)
    (fun _ => rfl) 7 (by decide)
  refine ⟨hrr.trans ?_, hfcfs⟩
  simp [forked, List.range_succ, schedule, requeue]

end Gcos.Osprims
