import Gcos.Backend.Batcher

/-!
# How the inner calls are spaced

The bucket hands out at most `capacity + rate * T` tokens in any window of length `T`.  That
says nothing about when the calls that took them start: between the token and the inner
call stands the semaphore.  While calls wait there, the bucket fills up again, and when they
are let through at last they start together, along with calls that have just taken a token.

What keeps the starts apart is that the bucket has not been filled up on top of the calls
that wait: the tokens in it and the tokens that are taken and not used are together no more
than it can hold.
-/

namespace Gcos.Backend

open Lib Envelope

/-- The thread has taken a token and has not started its inner call. -/
def Phase.pending : Phase → Bool
  | .queued _ | .admitted _ | .counting _ _ | .ready _ => true
  | _ => false

/-- The thread is about to start its inner call. -/
def Phase.starts : Phase → Bool
  | .ready _ => true
  | _ => false

namespace Batcher

variable {T : Type} [Fintype T]

/-- The number of threads with an unused token. -/
def backlog (s : Traffic T) : ℕ := ∑ t, if (s.phase t).pending then 1 else 0

/-- The tokens in the bucket, with those that are taken and not used. -/
def room (s : Traffic T) : ℚ := backlog s + s.bucket.level s.now

/-- If the event starts an inner call, the bucket and the calls that wait have together no
more tokens than the bucket can hold. -/
def Covered (s : Traffic T) : Event T → Prop
  | .step t => (s.phase t).starts = true → room s ≤ s.bucket.capacity
  | _ => True

instance decidableCovered (s : Traffic T) : (e : Event T) → Decidable (Covered s e)
  | .step _ => inferInstanceAs (Decidable (_ → _))
  | .tick _ | .call _ | .reply _ _ => inferInstanceAs (Decidable True)

end Batcher

/-! ### The bucket -/

namespace TokenBucket

/-- A bucket between empty and full, filled no later than now. -/
structure Sound (b : TokenBucket) (now : ℚ) : Prop where
  rate : 0 ≤ b.rate
  empty : 0 ≤ b.tokens
  full : b.tokens ≤ b.capacity
  last : b.last ≤ now

variable {b : TokenBucket} {now : ℚ}

lemma Sound.later (h : b.Sound now) {now' : ℚ} (hnow : now ≤ now') : b.Sound now' :=
  ⟨h.rate, h.empty, h.full, h.last.trans hnow⟩

lemma Sound.level_nonneg (h : b.Sound now) : 0 ≤ b.level now := by
  have hgrowth : 0 ≤ (now - b.last) * b.rate := mul_nonneg (sub_nonneg.2 h.last) h.rate
  exact le_min (h.empty.trans h.full) (by linarith [h.empty])

lemma level_le_capacity (b : TokenBucket) (now : ℚ) : b.level now ≤ b.capacity := min_le_left _ _

/-- The bucket fills up at its rate at most. -/
lemma Sound.level_later (h : b.Sound now) {now' : ℚ} (hnow : now ≤ now') :
    b.level now' ≤ b.level now + b.rate * (now' - now) := by
  have hgrowth : 0 ≤ b.rate * (now' - now) := mul_nonneg h.rate (sub_nonneg.2 hnow)
  have hsplit : b.tokens + (now' - b.last) * b.rate =
      b.tokens + (now - b.last) * b.rate + b.rate * (now' - now) := by ring
  rw [level, level, hsplit, ← min_add_add_right]
  exact le_min ((min_le_left _ _).trans (by linarith)) (min_le_right _ _)

/-- A bucket that is filled up to now holds what it held. -/
lemma level_refilled (b : TokenBucket) (now x : ℚ) (hx : x ≤ b.level now) :
    ({ b with last := now, tokens := x } : TokenBucket).level now = x := by
  simp only [level, sub_self, zero_mul, add_zero]
  exact min_eq_right (hx.trans (level_le_capacity b now))

end TokenBucket

namespace Batcher

variable {T : Type} [Fintype T] {cfg : Batcher} {s s' : Traffic T} {c r : ℚ} {t : T} {p : Phase}

/-! ### One event -/

/-- The starts so far, with the account of the bucket. -/
structure Spaced (c r : ℚ) (s : Traffic T) : Prop where
  capacity : s.bucket.capacity = c
  rate : s.bucket.rate = r
  sound : s.bucket.Sound s.now
  accrued : Accrued c r s.starts s.now (room s)

/-- The capacity of the client's bucket. -/
def capacity (cfg : Batcher) : ℚ := (TokenBucket.init cfg.ratePerS cfg.burst 0).capacity

lemma spaced_init (hr : 0 ≤ cfg.ratePerS) (hc : 0 ≤ cfg.capacity) (now : ℚ) :
    Spaced cfg.capacity cfg.ratePerS (cfg.init T now) where
  capacity := rfl
  rate := rfl
  sound := ⟨hr, hc, le_rfl, le_rfl⟩
  accrued := .nil hc hr _ _

variable [DecidableEq T]

lemma backlog_move (s : Traffic T) (t : T) (p : Phase) :
    backlog (move s t p) + (if (s.phase t).pending then 1 else 0) =
      backlog s + if p.pending then 1 else 0 :=
  census_move Phase.pending s t p

/-- A move that neither takes a token nor uses one. -/
lemma Spaced.move (h : Spaced c r s) (hp : p.pending = (s.phase t).pending)
    (hnow : s'.now = s.now) (hbucket : s'.bucket = s.bucket) (hstarts : s'.starts = s.starts)
    (hphase : s'.phase = s.phase) : Spaced c r (move s' t p) := by
  have hbacklog : backlog (Batcher.move s' t p) = backlog s := by
    have hmove := backlog_move s' t p
    rw [hp, hphase] at hmove
    rw [Nat.add_right_cancel hmove, backlog, backlog, hphase]
  have hroom : room (Batcher.move s' t p) = room s := by
    rw [room, hbacklog]
    simp only [room, Batcher.move, hbucket, hnow]
  constructor
  case capacity => exact (congrArg _ hbucket).trans h.capacity
  case rate => exact (congrArg _ hbucket).trans h.rate
  case sound =>
    simp only [Batcher.move, hbucket, hnow]
    exact h.sound
  case accrued =>
    rw [hroom]
    simp only [Batcher.move, hstarts, hnow]
    exact h.accrued

/-- The locked section of the bucket: what leaves the bucket is in the hands of the thread. -/
lemma Spaced.attempt (h : Spaced c r s) {x : ℚ} (hx : 0 ≤ x) (hle : x ≤ s.bucket.level s.now)
    (ht : (s.phase t).pending = false)
    (hroom : x + (if p.pending then 1 else 0) = s.bucket.level s.now) :
    Spaced c r (Batcher.move { s with bucket := { s.bucket with last := s.now, tokens := x } } t p) where
  capacity := h.capacity
  rate := h.rate
  sound := ⟨h.sound.rate, hx, hle.trans (s.bucket.level_le_capacity s.now), le_rfl⟩
  accrued := by
    set s' : Traffic T := { s with bucket := { s.bucket with last := s.now, tokens := x } } with hs'
    have hbacklog : backlog (Batcher.move s' t p) = backlog s + if p.pending then 1 else 0 := by
      have hmove := backlog_move s' t p
      have hphase : (s'.phase t).pending = false := ht
      rwa [hphase] at hmove
    have hsame : room (Batcher.move s' t p) = room s := by
      have hlevel : (Batcher.move s' t p).bucket.level (Batcher.move s' t p).now = x :=
        s.bucket.level_refilled s.now x hle
      rw [room, hbacklog, hlevel, room, ← hroom]
      push_cast
      ring
    rw [hsame]
    exact h.accrued

/-- An inner call starts. -/
lemma Spaced.start (h : Spaced c r s) (ht : (s.phase t).pending = true) (hp : p.pending = false)
    (hroom : room s ≤ c) :
    Spaced c r (Batcher.move { s with starts := s.now :: s.starts } t p) where
  capacity := h.capacity
  rate := h.rate
  sound := h.sound
  accrued := by
    set s' : Traffic T := { s with starts := s.now :: s.starts } with hs'
    have hbacklog : backlog (Batcher.move s' t p) + 1 = backlog s := by
      have hmove := backlog_move s' t p
      have hphase : (s'.phase t).pending = true := ht
      rwa [hphase, hp] at hmove
    have hone : 1 ≤ room s := by
      have hlevel := h.sound.level_nonneg
      have hpos : (1 : ℚ) ≤ backlog s := by exact_mod_cast hbacklog ▸ Nat.le_add_left 1 _
      rw [room]
      linarith
    have hless : room (Batcher.move s' t p) = room s - 1 := by
      have hlevel : (Batcher.move s' t p).bucket.level (Batcher.move s' t p).now =
          s.bucket.level s.now := rfl
      rw [room, hlevel, room, ← hbacklog]
      push_cast
      ring
    rw [hless]
    exact h.accrued.event (h.rate ▸ h.sound.rate) hone hroom

/-- **The step lemma.** -/
lemma spaced_next (h : Spaced c r s) (e : Event T) (he : Covered s e) :
    Spaced c r (cfg.next s e) := by
  have hdoes := cfg.does_next s e
  generalize cfg.next s e = s' at hdoes ⊢
  cases hdoes with
  | halts | busy | silent | waits => exact h
  | ticks hd =>
    have hnow : s.now ≤ s.now + _ := le_add_of_nonneg_right hd
    refine ⟨h.capacity, h.rate, h.sound.later hnow, h.accrued.later hnow ?_⟩
    have hlevel := h.sound.level_later hnow
    rw [h.rate] at hlevel
    simp only [room, backlog]
    linarith
  | takes ht hone =>
    exact h.attempt (sub_nonneg.2 hone) (sub_le_self _ zero_le_one) (by rw [ht]; rfl)
      (by simp [Phase.pending])
  | divides ht | misses ht =>
    exact h.attempt h.sound.level_nonneg le_rfl (by rw [ht]; rfl) (by simp [Phase.pending])
  | starts ht =>
    refine h.start (by rw [ht]; rfl) rfl ?_
    rw [← h.capacity]
    exact he (by rw [ht]; rfl)
  | calls ht | replies ht | raises ht | sleeps ht | wakes ht | admits ht | looks ht | counts ht
  | settles ht | leaves ht | releases ht => exact h.move (by rw [ht]; rfl) rfl rfl rfl rfl

/-! ### Runs -/

/-- **The starts are spaced as long as the calls that wait are covered.**  Take any number
of threads, arrivals and durations of the inner calls.  If, whenever an inner call starts,
the tokens in the bucket and the calls that hold one are together no more than the bucket
can hold, then no window of length `T` sees more than `capacity + rate * T` starts. -/
theorem starts_within_of_covered (cfg : Batcher) (hr : 0 < cfg.ratePerS) (hc : 0 ≤ cfg.capacity)
    (now : ℚ) (es : List (Event T)) (hes : Along cfg.next Covered (cfg.init T now) es) :
    Within cfg.capacity cfg.ratePerS (cfg.run (cfg.init T now) es).starts := by
  have hspaced : Spaced cfg.capacity cfg.ratePerS (cfg.run (cfg.init T now) es) :=
    hes.foldl (fun _ e h he => spaced_next h e he) (spaced_init hr.le hc now)
  exact hspaced.accrued.within

/-- Thread `t` takes `k` steps. -/
def steps (k : ℕ) (t : T) : List (Event T) := List.replicate k (.step t)

/-- Two calls that never wait. -/
theorem prompt_calls_within :
    let cfg : Batcher := { maxConcurrent := 1, ratePerS := 1 }
    let es : List (Event (Fin 2)) :=
      [.call 0] ++ steps 5 0 ++ [.reply 0 .returned] ++ steps 3 0 ++
        [.tick 1, .call 1] ++ steps 5 1
    Along cfg.next Covered (cfg.init (Fin 2) 0) es ∧
      (cfg.run (cfg.init (Fin 2) 0) es).starts = [1, 0] ∧
      Within cfg.capacity cfg.ratePerS (cfg.run (cfg.init (Fin 2) 0) es).starts := by
  intro cfg es
  have hes : Along cfg.next Covered (cfg.init (Fin 2) 0) es := by decide +kernel
  exact ⟨hes, by decide +kernel,
    starts_within_of_covered cfg (by decide +kernel) (by decide +kernel) 0 es hes⟩

/-- One slot and one token a second.  The first call takes ten seconds.  The second takes its
token meanwhile and waits, the bucket fills up again, and at ten seconds the second call and
a third start at once. -/
theorem waiting_calls_burst :
    let cfg : Batcher := { maxConcurrent := 1, ratePerS := 1 }
    let es : List (Event (Fin 2)) :=
      [.call 0] ++ steps 5 0 ++ [.tick 1, .call 1] ++ steps 1 1 ++
        [.tick 9, .reply 0 .returned] ++ steps 3 0 ++ steps 4 1 ++
        [.reply 1 .returned] ++ steps 3 1 ++ [.call 0] ++ steps 5 0
    (cfg.run (cfg.init (Fin 2) 0) es).starts = [10, 10, 0] ∧
      ¬Within cfg.capacity cfg.ratePerS (cfg.run (cfg.init (Fin 2) 0) es).starts := by
  intro cfg es
  have hstarts : (cfg.run (cfg.init (Fin 2) 0) es).starts = [10, 10, 0] := by decide +kernel
  refine ⟨hstarts, fun hwithin => ?_⟩
  have hbound := hwithin 10 0 le_rfl
  rw [hstarts] at hbound
  revert hbound
  decide +kernel

end Batcher

end Gcos.Backend
