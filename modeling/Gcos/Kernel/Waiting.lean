import Gcos.Kernel.Quota
import Gcos.Kernel.Scheduler
import Gcos.Lib.Hall

/-!
# Waiting for work, for the end of it, and for quota

The condition variables of `gcos/kernel/ready_queue.py` and `gcos/kernel/quota.py`:
`_not_empty`, on which idle workers sleep until a `put` notifies one of them, `_drained`, on
which `wait_drained` sleeps, and `_refunded_event`, on which `acquire_blocking` sleeps.  Each
locked section is one step, and a thread that is notified or whose timeout has passed goes on
as soon as it gets the lock.

In the rest of the development the operations of the queue and of the quota do not sleep.
Here it is shown that the sleeping costs nothing but time (`nobody_oversleeps`): the timeouts
of the source are not what keeps it going.
-/

namespace Gcos

open Lib

/-- Where a thread stands. -/
inductive Post
  /-- A worker at the top of its loop, before `wait_nonempty` or `pick_next`. -/
  | seeking
  /-- In `_not_empty.wait`. -/
  | asleep
  /-- In `_drained.wait`. -/
  | watching
  /-- In `_refunded_event.wait`, for some units. -/
  | short (units : ℤ)
  /-- Anywhere else: a worker in a dispatch, a thread that calls the kernel. -/
  | away
deriving DecidableEq, Repr

/-- Where a thread goes on whose wait has timed out. -/
def Post.resumed : Post → Post
  | .seeking | .asleep => .seeking
  | .watching | .short _ | .away => .away

/-- Where a thread is for the queue. -/
def Post.place : Post → Place
  | .seeking => .seeking
  | .asleep => .asleep
  | .watching | .short _ | .away => .away

/-- The queue, the quota, the stop flag and the threads. -/
structure Waits (T : Type) where
  queue : ReadyQueue := {}
  quota : Quota
  stop : Bool := false
  post : T → Post

namespace Waits

variable {T : Type}

/-- `_drained.notify_all()`, where `pop` and `task_done` make it. -/
def notifyDrained (queue : ReadyQueue) (post : T → Post) : T → Post := fun t =>
  if queue.isDrained = true ∧ post t = .watching then .away else post t

/-- `_refunded_event.notify_all()`. -/
def notifyRefunded (post : T → Post) : T → Post := fun t =>
  match post t with
  | .short _ => .away
  | .seeking => .seeking
  | .asleep => .asleep
  | .watching => .watching
  | .away => .away

/-- `_not_empty.notify()`: it wakes the sleeper `t`, or nobody if nobody sleeps. -/
def Notifies (post : T → Post) : Option T → Prop
  | none => ∀ t, post t ≠ .asleep
  | some t => post t = .asleep

variable [DecidableEq T] {w w' : Waits T}

/-- The threads after `_not_empty.notify()`. -/
def notified (post : T → Post) : Option T → T → Post
  | none => post
  | some t => Function.update post t .seeking

/-- The locked sections of the queue and of the quota. -/
inductive Step : Waits T → Waits T → Prop
  /-- `put` of an agent that is not terminal; of a terminal one it does nothing. -/
  | put {w : Waits T} (p : Pid) (woken : Option T) (hwoken : Notifies w.post woken) :
      Step w { w with
        queue := { w.queue with q := w.queue.q ++ [p] }
        post := notified w.post woken }
  /-- `popleft` or `pop_best` in `pick_next`. -/
  | pick {w : Waits T} (t : T) (ht : w.post t = .seeking) (sched : Scheduler)
      (pcbs : Pid → AgentControlBlock) (now : Time) :
      Step w { w with
        queue := (sched.pickNext pcbs now w.queue).2
        post :=
          if (sched.pickNext pcbs now w.queue).1.isSome then Function.update w.post t .away
          else w.post }
  | taskDone {w : Waits T} (t : T) (ht : w.post t = .away) :
      Step w { w with
        queue := w.queue.taskDone
        post := Function.update (notifyDrained w.queue.taskDone w.post) t .seeking }
  | pop {w : Waits T} (p : Pid) :
      Step w { w with
        queue := (w.queue.pop p).2
        post := notifyDrained (w.queue.pop p).2 w.post }
  | waitNonempty {w : Waits T} (t : T) (ht : w.post t = .seeking) :
      Step w { w with
        post := if w.queue.q = [] then Function.update w.post t .asleep else w.post }
  | waitDrained {w : Waits T} (t : T) (ht : w.post t = .away) :
      Step w { w with
        post := if w.queue.isDrained then w.post else Function.update w.post t .watching }
  | acquire {w : Waits T} (n : ℕ) : Step w { w with quota := (w.quota.acquire n).2 }
  | acquireUpTo {w : Waits T} (n : ℤ) : Step w { w with quota := (w.quota.acquireUpTo n).2 }
  | acquireBlocking {w : Waits T} (t : T) (ht : w.post t = .away) (n : ℕ) :
      Step w { w with
        quota := (w.quota.acquire n).2
        post := if (w.quota.acquire n).1 then w.post else Function.update w.post t (.short n) }
  | refund {w : Waits T} (n : ℤ) :
      Step w { w with quota := w.quota.refund n, post := notifyRefunded w.post }
  | topup {w : Waits T} (n : ℤ) :
      Step w { w with quota := w.quota.topup n, post := notifyRefunded w.post }
  /-- The timeout of a wait, or a wake-up without a reason. -/
  | timeOut {w : Waits T} (t : T) :
      Step w { w with post := Function.update w.post t (Post.resumed (w.post t)) }
  /-- `_stop.set()`. -/
  | shutdown {w : Waits T} : Step w { w with stop := true }
  /-- A worker leaves its loop. -/
  | leave {w : Waits T} (t : T) (ht : w.post t = .seeking) (hstop : w.stop = true) :
      Step w { w with post := Function.update w.post t .away }

/-! ### The workers and the queue are a hiring hall -/

lemma place_eq_asleep {x : Post} : Post.place x = .asleep ↔ x = .asleep := by
  cases x <;> simp [Post.place]

lemma place_eq_seeking {x : Post} : Post.place x = .seeking ↔ x = .seeking := by
  cases x <;> simp [Post.place]

/-- The hiring hall of the queue: the jobs are the queued agents. -/
def hall (q : List Pid) (post : T → Post) : Hall T := ⟨q.length, fun t => Post.place (post t)⟩

section

variable (q : List Pid) (post : T → Post) (queue : ReadyQueue) (t : T)

lemma hall_update (x : Post) : hall q (Function.update post t x) =
    ⟨q.length, Function.update (hall q post).place t (Post.place x)⟩ := by
  rw [hall, Hall.mk.injEq]
  refine ⟨rfl, ?_⟩
  funext u
  by_cases hu : u = t
  · subst hu
    rw [Function.update_self, Function.update_self]
  · rw [Function.update_of_ne hu, Function.update_of_ne hu]
    rfl

/-- A thread that is nowhere near the queue, before and after. -/
lemma hall_update_away {x : Post} (hpost : Post.place (post t) = .away)
    (hx : Post.place x = .away) : hall q (Function.update post t x) = hall q post := by
  rw [hall_update, hx, ← hpost]
  exact congrArg (Hall.mk q.length) (Function.update_eq_self t _)

omit [DecidableEq T] in
lemma hall_notifyDrained : hall q (notifyDrained queue post) = hall q post := by
  rw [hall, hall, Hall.mk.injEq]
  refine ⟨rfl, ?_⟩
  funext u
  unfold notifyDrained
  split
  · next h => rw [h.2]; rfl
  · rfl

omit [DecidableEq T] in
lemma hall_notifyRefunded : hall q (notifyRefunded post) = hall q post := by
  rw [hall, hall, Hall.mk.injEq]
  refine ⟨rfl, ?_⟩
  funext u
  unfold notifyRefunded
  cases post u <;> rfl

lemma hall_notified {woken : Option T} (h : Notifies post woken) (p : Pid) :
    Hall.Step (hall q post) (hall (q ++ [p]) (notified post woken)) := by
  have hlength : (q ++ [p]).length = q.length + 1 := List.length_append
  cases woken with
  | none =>
    have hstep := Hall.Step.supply (h := hall q post) none fun t ht => h t (place_eq_asleep.1 ht)
    show Hall.Step (hall q post) ⟨(q ++ [p]).length, (hall q post).place⟩
    rw [hlength]
    exact hstep
  | some t =>
    have hstep := Hall.Step.supply (h := hall q post) (some t) (place_eq_asleep.2 h)
    rw [notified, hall_update, hlength]
    exact hstep

end

/-- **Every locked section is a step of the hall**, or it is none of its business, as long as
nobody has asked the workers to stop. -/
lemma hall_step (hs : Step w w') (hstop : w'.stop = false) : w.stop = false ∧
    Relation.ReflTransGen Hall.Step (hall w.queue.q w.post) (hall w'.queue.q w'.post) := by
  cases hs with
  | put p woken hwoken => exact ⟨hstop, .single (hall_notified _ _ hwoken p)⟩
  | pick t ht sched pcbs now =>
    refine ⟨hstop, ?_⟩
    rcases sched.pickNext_cases pcbs now w.queue with ⟨-, hnone⟩ | ⟨p, hp, hsome⟩
    · rw [hnone]
      exact .refl
    · have hstep := Hall.Step.take (h := hall w.queue.q w.post) t (place_eq_seeking.2 ht)
      simp only [hsome, Option.isSome_some, if_true, hall_update, List.length_erase_of_mem hp]
      exact .single hstep
  | taskDone t ht =>
    have hq : w.queue.taskDone.q = w.queue.q := by
      unfold ReadyQueue.taskDone
      split <;> rfl
    have hstep := Hall.Step.seek (h := hall w.queue.q w.post) t
    refine ⟨hstop, .single ?_⟩
    simp only [hall_update, hall_notifyDrained, hq]
    exact hstep
  | pop p =>
    refine ⟨hstop, ?_⟩
    simp only [hall_notifyDrained]
    unfold ReadyQueue.pop
    split
    · next hp =>
      rw [hall, hall, List.length_erase_of_mem hp]
      exact .single (.withdraw (h := hall w.queue.q w.post))
    · exact .refl
  | waitNonempty t ht =>
    refine ⟨hstop, ?_⟩
    by_cases hq : w.queue.q = []
    · have hstep := Hall.Step.sleep (h := hall w.queue.q w.post) t (by rw [hall, hq]; rfl)
      simp only [if_pos hq, hall_update]
      exact .single hstep
    · simp only [if_neg hq]
      exact .refl
  | waitDrained t ht =>
    refine ⟨hstop, ?_⟩
    dsimp only
    split
    · exact .refl
    · rw [hall_update_away _ _ _ (by rw [ht]; rfl) rfl]
  | acquire n => exact ⟨hstop, .refl⟩
  | acquireUpTo n => exact ⟨hstop, .refl⟩
  | acquireBlocking t ht n =>
    refine ⟨hstop, ?_⟩
    dsimp only
    split
    · exact .refl
    · rw [hall_update_away _ _ _ (by rw [ht]; rfl) rfl]
  | refund n =>
    refine ⟨hstop, ?_⟩
    rw [hall_notifyRefunded]
  | topup n =>
    refine ⟨hstop, ?_⟩
    rw [hall_notifyRefunded]
  | timeOut t =>
    refine ⟨hstop, ?_⟩
    dsimp only
    have hseek := Hall.Step.seek (h := hall w.queue.q w.post) t
    cases hpost : w.post t with
    | seeking | asleep =>
      rw [hall_update]
      exact .single hseek
    | watching | short n | away => rw [hall_update_away _ _ _ (by rw [hpost]; rfl) rfl]
  | shutdown => exact absurd hstop Bool.noConfusion
  | leave t ht hstop' => exact absurd (hstop'.symm.trans hstop) Bool.noConfusion

/-! ### Nobody oversleeps -/

lemma remaining_acquire_le (n : ℕ) (quota : Quota) :
    (quota.acquire n).2.remaining ≤ quota.remaining := by
  unfold Quota.acquire
  split
  · exact le_rfl
  · show quota.remaining - n ≤ quota.remaining
    omega

lemma remaining_lt_of_acquire {n : ℕ} {quota : Quota} (h : ¬(quota.acquire n).1 = true) :
    (quota.acquire n).2.remaining < n := by
  unfold Quota.acquire at h ⊢
  split
  · next hless => exact hless
  · next hmore => simp [hmore] at h

/-- Nobody sleeps who has no reason to: a thread that watches for the end sees work, a
thread that is short of units really is, and, unless the workers have been told to stop,
while a worker sleeps every queued agent has another worker on its way to it. -/
structure Attentive [Fintype T] (w : Waits T) : Prop where
  watching : ∀ t, w.post t = .watching → w.queue.isDrained = false
  short : ∀ t n, w.post t = .short n → w.quota.remaining < n
  asleep : w.stop = false → (∃ t, w.post t = .asleep) →
    w.queue.q.length ≤ (Finset.univ.filter fun t => w.post t = .seeking).card

/-- A thread that was sent somewhere else is not the one in question. -/
lemma of_update {post : T → Post} {t u : T} {x y : Post} (hx : x ≠ y)
    (hu : Function.update post t x u = y) : post u = y := by
  by_cases heq : u = t
  · subst heq
    rw [Function.update_self] at hu
    exact absurd hu hx
  · rwa [Function.update_of_ne heq] at hu

omit [DecidableEq T] in
/-- After a notification of `_drained` the watchers that are left see work. -/
lemma watching_notifyDrained {queue : ReadyQueue} {post : T → Post} {u : T}
    (hu : notifyDrained queue post u = .watching) : queue.isDrained = false := by
  unfold notifyDrained at hu
  split at hu
  · cases hu
  · next hno => exact Bool.eq_false_iff.2 fun hdrained => hno ⟨hdrained, hu⟩

omit [DecidableEq T] in
lemma notifyRefunded_eq_watching {post : T → Post} {u : T}
    (hu : notifyRefunded post u = .watching) : post u = .watching := by
  unfold notifyRefunded at hu
  cases hpost : post u <;> simp [hpost] at hu ⊢

omit [DecidableEq T] in
lemma notifyRefunded_ne_short {post : T → Post} {u : T} {n : ℤ} :
    notifyRefunded post u ≠ .short n := by
  unfold notifyRefunded
  cases post u <;> simp

omit [DecidableEq T] in
lemma notifyDrained_eq_short {queue : ReadyQueue} {post : T → Post} {u : T} {n : ℤ}
    (hu : notifyDrained queue post u = .short n) : post u = .short n := by
  unfold notifyDrained at hu
  split at hu
  · cases hu
  · exact hu

lemma notified_of_ne {post : T → Post} {woken : Option T} {u : T} {y : Post} (hy : y ≠ .seeking)
    (hu : notified post woken u = y) : post u = y := by
  cases woken with
  | none => exact hu
  | some t => exact of_update hy.symm hu

lemma resumed_ne (x : Post) : x.resumed ≠ .watching ∧ ∀ n, x.resumed ≠ .short n := by
  cases x <;> simp [Post.resumed]

/-- A pick that finds an agent leaves it in flight. -/
lemma isDrained_pickNext (sched : Scheduler) (pcbs : Pid → AgentControlBlock) (now : Time)
    {queue : ReadyQueue} (h : queue.isDrained = false) :
    (sched.pickNext pcbs now queue).2.isDrained = false := by
  rcases sched.pickNext_cases pcbs now queue with ⟨-, hnone⟩ | ⟨p, -, hsome⟩
  · rw [hnone]
    exact h
  · rw [hsome]
    simp [ReadyQueue.isDrained]

/-- **One step** keeps the watchers from sleeping on a drained queue. -/
lemma watching_step (hs : Step w w')
    (h : ∀ t, w.post t = .watching → w.queue.isDrained = false) :
    ∀ t, w'.post t = .watching → w'.queue.isDrained = false := by
  intro u hu
  cases hs with
  | put p woken hwoken => simp [ReadyQueue.isDrained]
  | pick t ht sched pcbs now =>
    refine isDrained_pickNext sched pcbs now (h u ?_)
    dsimp only at hu
    split at hu
    · exact of_update (by simp) hu
    · exact hu
  | taskDone t ht => exact watching_notifyDrained (of_update (by simp) hu)
  | pop p => exact watching_notifyDrained hu
  | waitNonempty t ht =>
    dsimp only at hu
    split at hu
    · exact h u (of_update (by simp) hu)
    · exact h u hu
  | waitDrained t ht =>
    dsimp only at hu ⊢
    split at hu
    · exact h u hu
    · next hwork => exact Bool.eq_false_iff.2 hwork
  | acquire n | acquireUpTo n | shutdown => exact h u hu
  | acquireBlocking t ht n =>
    dsimp only at hu
    split at hu
    · exact h u hu
    · exact h u (of_update (by simp) hu)
  | refund n | topup n => exact h u (notifyRefunded_eq_watching hu)
  | timeOut t => exact h u (of_update (resumed_ne _).1 hu)
  | leave t ht hstop => exact h u (of_update (by simp) hu)

/-- **One step** keeps the threads that are short of units from sleeping on enough of
them. -/
lemma short_step (hs : Step w w') (h : ∀ t n, w.post t = .short n → w.quota.remaining < n) :
    ∀ t n, w'.post t = .short n → w'.quota.remaining < n := by
  intro u n hu
  cases hs with
  | put p woken hwoken => exact h u n (notified_of_ne (by simp) hu)
  | pick t ht sched pcbs now =>
    dsimp only at hu
    split at hu
    · exact h u n (of_update (by simp) hu)
    · exact h u n hu
  | taskDone t ht => exact h u n (notifyDrained_eq_short (of_update (by simp) hu))
  | pop p => exact h u n (notifyDrained_eq_short hu)
  | waitNonempty t ht =>
    dsimp only at hu
    split at hu
    · exact h u n (of_update (by simp) hu)
    · exact h u n hu
  | waitDrained t ht =>
    dsimp only at hu
    split at hu
    · exact h u n hu
    · exact h u n (of_update (by simp) hu)
  | acquire k => exact Int.lt_of_le_of_lt (remaining_acquire_le k w.quota) (h u n hu)
  | acquireUpTo k =>
    have hless := h u n hu
    show w.quota.remaining - max 0 (min k w.quota.remaining) < n
    omega
  | acquireBlocking t ht k =>
    have hle := remaining_acquire_le k w.quota
    dsimp only at hu ⊢
    split at hu
    · exact Int.lt_of_le_of_lt hle (h u n hu)
    · next hfail =>
      by_cases hut : u = t
      · subst hut
        rw [Function.update_self] at hu
        obtain rfl := Post.short.inj hu
        exact remaining_lt_of_acquire hfail
      · rw [Function.update_of_ne hut] at hu
        exact Int.lt_of_le_of_lt hle (h u n hu)
  | refund k | topup k => exact absurd hu notifyRefunded_ne_short
  | timeOut t => exact h u n (of_update ((resumed_ne _).2 n) hu)
  | shutdown => exact h u n hu
  | leave t ht hstop => exact h u n (of_update (by simp) hu)

variable [Fintype T]

/-- Threads of which nobody waits. -/
def Awake (w : Waits T) : Prop := ∀ t, w.post t = .seeking ∨ w.post t = .away

omit [DecidableEq T] in
lemma attentive_of_awake (h : Awake w) : Attentive w := by
  refine ⟨fun t ht => ?_, fun t n ht => ?_, ?_⟩
  · rcases h t with h | h <;> rw [h] at ht <;> cases ht
  · rcases h t with h | h <;> rw [h] at ht <;> cases ht
  · rintro - ⟨t, ht⟩
    rcases h t with h | h <;> rw [h] at ht <;> cases ht

omit [DecidableEq T] in
lemma staffed_iff : Hall.Staffed (hall w.queue.q w.post) ↔ ((∃ t, w.post t = .asleep) →
    w.queue.q.length ≤ (Finset.univ.filter fun t => w.post t = .seeking).card) := by
  simp only [Hall.Staffed, hall, Hall.seekers, place_eq_asleep, place_eq_seeking]

/-- **One step.** -/
lemma Attentive.step (h : Attentive w) (hs : Step w w') : Attentive w' := by
  refine ⟨watching_step hs h.watching, short_step hs h.short, fun hstop => ?_⟩
  obtain ⟨hstop₀, hsteps⟩ := hall_step hs hstop
  exact staffed_iff.1 (Hall.staffed_of_steps (staffed_iff.2 (h.asleep hstop₀)) hsteps)

/-- **Nobody oversleeps**, in any run, whatever the order of the locked sections and of the
wake-ups: `wait_drained` does not sleep on a drained queue, nor `acquire_blocking` on enough
units, and while a worker sleeps on `_not_empty`, every queued agent has a worker that is
awake and on its way to the queue. -/
theorem nobody_oversleeps (h : Awake w) (hs : Relation.ReflTransGen Step w w') :
    Attentive w' := by
  induction hs with
  | refl => exact attentive_of_awake h
  | tail _ hlast ih => exact ih.step hlast

/-- Two workers go to sleep, and an agent that is queued wakes one of them. -/
theorem one_put_wakes_one :
    ∃ w w' : Waits (Fin 2), Awake w ∧ Relation.ReflTransGen Step w w' ∧ w'.queue.q = [1] ∧
      w'.post 0 = .seeking ∧ w'.post 1 = .asleep ∧ Attentive w' := by
  let w : Waits (Fin 2) := { quota := ⟨0, 0⟩, post := fun _ => .seeking }
  let w₁ : Waits (Fin 2) := { w with post := Function.update w.post 0 .asleep }
  let w₂ : Waits (Fin 2) := { w with post := Function.update w₁.post 1 .asleep }
  let w₃ : Waits (Fin 2) :=
    { w with queue := { q := [1] }, post := Function.update w₂.post 0 .seeking }
  have hawake : Awake w := fun _ => .inl rfl
  have h₁ : Step w w₁ := .waitNonempty 0 rfl
  have h₂ : Step w₁ w₂ := .waitNonempty 1 rfl
  have h₃ : Step w₂ w₃ := .put 1 (some 0) rfl
  have hs : Relation.ReflTransGen Step w w₃ := ((Relation.ReflTransGen.single h₁).tail h₂).tail h₃
  exact ⟨w, w₃, hawake, hs, rfl, rfl, rfl, nobody_oversleeps hawake hs⟩

end Waits

end Gcos
