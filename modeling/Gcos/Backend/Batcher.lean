import Gcos.Lib.Envelope
import Gcos.Lib.Prog
import Gcos.Lib.Text
import Mathlib.Algebra.Order.Field.Rat
import Mathlib.Algebra.BigOperators.Fin
import Mathlib.Data.Fintype.BigOperators

/-!
# The throttled client

`BatchingSolarClient` stands between the agents and the language model.  A call of `chat`
passes two throttles: it takes a token from a `TokenBucket`, then a slot of a semaphore, and
only then calls the client below it.  Any number of threads do this at once, and their
steps interleave with each other and with the clock.  The locked sections, the reads of the
clock and the two ends of the inner call are single steps; a step that cannot be taken yet
(the semaphore is empty, the sleep is not over) leaves everything as it is.
-/

namespace Gcos.Backend

open Lib

/-! ### The bucket -/

/-- `TokenBucket`, without its lock. -/
structure TokenBucket where
  rate : ℚ
  capacity : ℚ
  tokens : ℚ
  last : ℚ
deriving DecidableEq, Repr

namespace TokenBucket

/-- `TokenBucket.__init__`, at time `now`; `int` cuts towards zero. -/
def init (ratePerS : ℚ) (burst : Option ℤ) (now : ℚ) : TokenBucket :=
  let capacity : ℤ := burst.getD (max 1 (ratePerS.num.tdiv ratePerS.den))
  { rate := ratePerS, capacity := capacity, tokens := capacity, last := now }

/-- What the bucket holds at time `now`. -/
def level (b : TokenBucket) (now : ℚ) : ℚ := min b.capacity (b.tokens + (now - b.last) * b.rate)

/-- The locked section of `TokenBucket.acquire`: the bucket is filled up to now, and `n`
tokens are taken from it, or the answer is how long they will take to come. -/
def acquire (b : TokenBucket) (n : ℤ) (now : ℚ) : Option ℚ × TokenBucket :=
  let b := { b with last := now, tokens := b.level now }
  if (n : ℚ) ≤ b.tokens then (none, { b with tokens := b.tokens - n })
  else (some ((n - b.tokens) / b.rate), b)

/-- An attempt takes one token or none, and then the wait is not negative at a positive rate. -/
lemma acquire_one (b : TokenBucket) (now : ℚ) :
    (∃ b', b.acquire 1 now = (none, b') ∧ 1 ≤ b.level now ∧
      b' = { b with last := now, tokens := b.level now - 1 }) ∨
    ∃ wait b', b.acquire 1 now = (some wait, b') ∧ (0 < b.rate → 0 ≤ wait) ∧
      b' = { b with last := now, tokens := b.level now } := by
  simp only [acquire, Int.cast_one]
  split
  · next hone => exact .inl ⟨_, rfl, hone, rfl⟩
  · next hfew =>
    have hmissing : 0 ≤ 1 - b.level now := sub_nonneg.2 (not_le.1 hfew).le
    exact .inr ⟨_, _, rfl, fun hrate => div_nonneg hmissing hrate.le, rfl⟩

end TokenBucket

/-! ### The client -/

/-- `BatcherStats`. -/
structure BatcherStats where
  totalCalls : ℕ := 0
  totalWaitS : ℚ := 0
  totalChatS : ℚ := 0
  inFlight : ℤ := 0
  peakInFlight : ℤ := 0
  last429Ts : Option ℚ := none
  lastError : Option String := none
deriving DecidableEq, Repr

/-- How the inner call ends: `raised` carries the name of the exception's type and its
text. -/
inductive Outcome
  | returned
  | raised (kind msg : String)
deriving DecidableEq, Repr

/-- Where a thread stands in `chat`. -/
inductive Phase
  /-- In no call. -/
  | idle
  /-- Before the locked section of the bucket; `t0` is when the call began. -/
  | acquiring (t0 : ℚ)
  /-- Before a sleep of `d` seconds. -/
  | pausing (t0 d : ℚ)
  /-- Asleep until `wake`. -/
  | asleep (t0 wake : ℚ)
  /-- With a token, before the semaphore. -/
  | queued (t0 : ℚ)
  /-- With a slot, before the second look at the clock. -/
  | admitted (t0 : ℚ)
  /-- Before the statistics of the entry. -/
  | counting (t0 t1 : ℚ)
  /-- Before the inner call. -/
  | ready (t1 : ℚ)
  /-- In the inner call. -/
  | inside (t1 : ℚ)
  /-- After the inner call, before the statistics of its outcome. -/
  | ended (t1 : ℚ) (outcome : Outcome)
  /-- In the `finally` clause, before `in_flight` goes down. -/
  | leaving
  /-- Before the release of the slot. -/
  | releasing
deriving DecidableEq, Repr

/-- The arguments of `BatchingSolarClient.__init__`, and the wall clock that `time.time`
shows when the monotonic clock shows a given time. -/
structure Batcher where
  maxConcurrent : ℕ := 4
  ratePerS : ℚ := 5
  burst : Option ℤ := none
  wall : ℚ → ℚ := id

/-- A client and the threads that call it. -/
structure Traffic (T : Type) where
  now : ℚ
  bucket : TokenBucket
  /-- The free slots of the semaphore. -/
  permits : ℕ
  stats : BatcherStats := {}
  phase : T → Phase := fun _ => .idle
  /-- When the inner calls started, the last one first. -/
  starts : List ℚ := []

/-- What may happen next. -/
inductive Event (T : Type)
  /-- The clock moves on by `d`. -/
  | tick (d : ℚ)
  /-- Thread `t` calls `chat`. -/
  | call (t : T)
  /-- Thread `t` goes on. -/
  | step (t : T)
  /-- The inner call of thread `t` ends. -/
  | reply (t : T) (outcome : Outcome)
deriving DecidableEq

namespace Batcher

/-- `BatchingSolarClient.__init__`, at time `now`. -/
def init (cfg : Batcher) (T : Type) (now : ℚ) : Traffic T :=
  { now := now, bucket := .init cfg.ratePerS cfg.burst now, permits := cfg.maxConcurrent }

/-- The statistics that are taken before the inner call. -/
def enter (stats : BatcherStats) (t0 t1 : ℚ) : BatcherStats :=
  { stats with
    inFlight := stats.inFlight + 1
    peakInFlight :=
      if stats.inFlight + 1 > stats.peakInFlight then stats.inFlight + 1 else stats.peakInFlight
    totalWaitS := stats.totalWaitS + (t1 - t0)
    totalCalls := stats.totalCalls + 1 }

/-- `"429" in msg or "rate" in msg.lower()`.  No letter outside ASCII has one of these as
its lower case. -/
def isRateError (msg : String) : Bool :=
  Text.contains "429".toList msg.toList || Text.contains "rate".toList msg.toLower.toList

/-- The statistics that are taken after the inner call. -/
def settle (cfg : Batcher) (stats : BatcherStats) (t1 now : ℚ) : Outcome → BatcherStats
  | .returned => { stats with totalChatS := stats.totalChatS + (now - t1), lastError := none }
  | .raised kind msg =>
    { stats with
      lastError := some (kind ++ ": " ++ msg)
      last429Ts := if isRateError msg then some (cfg.wall now) else stats.last429Ts }

variable {T : Type} [DecidableEq T]

/-- Thread `t` moves to another place. -/
def move (s : Traffic T) (t : T) (p : Phase) : Traffic T :=
  { s with phase := Function.update s.phase t p }

/-- The next step of a thread in `BatchingSolarClient.chat`. -/
def advance (cfg : Batcher) (s : Traffic T) (t : T) : Traffic T :=
  match s.phase t with
  | .idle | .inside _ => s
  | .acquiring t0 =>
    match s.bucket.acquire 1 s.now with
    | (none, b) => move { s with bucket := b } t (.queued t0)
    | (some wait, b) =>
      -- at a rate of zero the division raises, and `chat` with it
      if b.rate = 0 then move { s with bucket := b } t .idle
      else move { s with bucket := b } t (.pausing t0 (min wait (1 / 4)))
  | .pausing t0 d =>
    -- at a negative rate the sleep raises
    if d < 0 then move s t .idle else move s t (.asleep t0 (s.now + d))
  | .asleep t0 wake => if wake ≤ s.now then move s t (.acquiring t0) else s
  | .queued t0 =>
    if 0 < s.permits then move { s with permits := s.permits - 1 } t (.admitted t0) else s
  | .admitted t0 => move s t (.counting t0 s.now)
  | .counting t0 t1 => move { s with stats := enter s.stats t0 t1 } t (.ready t1)
  | .ready t1 => move { s with starts := s.now :: s.starts } t (.inside t1)
  | .ended t1 outcome => move { s with stats := cfg.settle s.stats t1 s.now outcome } t .leaving
  | .leaving =>
    move { s with stats := { s.stats with inFlight := s.stats.inFlight - 1 } } t .releasing
  | .releasing =>
    -- a bounded semaphore raises an error instead of taking back more than it gave out
    move { s with permits := if s.permits < cfg.maxConcurrent then s.permits + 1 else s.permits } t
      .idle

/-- One event. -/
def next (cfg : Batcher) (s : Traffic T) : Event T → Traffic T
  | .tick d => if 0 ≤ d then { s with now := s.now + d } else s
  | .call t =>
    match s.phase t with
    | .idle => move s t (.acquiring s.now)
    | _ => s
  | .step t => cfg.advance s t
  | .reply t outcome =>
    match s.phase t with
    | .inside t1 => move s t (.ended t1 outcome)
    | _ => s

/-- The client after some events. -/
def run (cfg : Batcher) (s : Traffic T) (es : List (Event T)) : Traffic T := es.foldl cfg.next s

/-! ### What an event does -/

/-- What an event makes of a state. -/
inductive Does (cfg : Batcher) (s : Traffic T) : Event T → Traffic T → Prop
  | halts {d : ℚ} : Does cfg s (.tick d) s
  | ticks {d : ℚ} (hd : 0 ≤ d) : Does cfg s (.tick d) { s with now := s.now + d }
  | busy {t : T} (ht : s.phase t ≠ .idle) : Does cfg s (.call t) s
  | calls {t : T} (ht : s.phase t = .idle) : Does cfg s (.call t) (move s t (.acquiring s.now))
  | silent {t : T} {outcome : Outcome} : Does cfg s (.reply t outcome) s
  | replies {t : T} {t1 : ℚ} {outcome : Outcome} (ht : s.phase t = .inside t1) :
    Does cfg s (.reply t outcome) (move s t (.ended t1 outcome))
  /-- In no call, in the inner call, asleep, or before an empty semaphore. -/
  | waits {t : T} (hacquiring : ∀ t0, s.phase t ≠ .acquiring t0)
      (hpausing : ∀ t0 d, s.phase t ≠ .pausing t0 d) : Does cfg s (.step t) s
  | takes {t : T} {t0 : ℚ} (ht : s.phase t = .acquiring t0) (hone : 1 ≤ s.bucket.level s.now) :
    Does cfg s (.step t)
      (move { s with bucket := { s.bucket with
        last := s.now, tokens := s.bucket.level s.now - 1 } } t (.queued t0))
  | divides {t : T} {t0 : ℚ} (ht : s.phase t = .acquiring t0) (hrate : s.bucket.rate = 0) :
    Does cfg s (.step t)
      (move { s with bucket := { s.bucket with
        last := s.now, tokens := s.bucket.level s.now } } t .idle)
  | misses {t : T} {t0 wait : ℚ} (ht : s.phase t = .acquiring t0)
      (hwait : 0 < s.bucket.rate → 0 ≤ wait) :
    Does cfg s (.step t)
      (move { s with bucket := { s.bucket with
        last := s.now, tokens := s.bucket.level s.now } } t (.pausing t0 (min wait (1 / 4))))
  | raises {t : T} {t0 d : ℚ} (ht : s.phase t = .pausing t0 d) (hd : d < 0) :
    Does cfg s (.step t) (move s t .idle)
  | sleeps {t : T} {t0 d : ℚ} (ht : s.phase t = .pausing t0 d) :
    Does cfg s (.step t) (move s t (.asleep t0 (s.now + d)))
  | wakes {t : T} {t0 wake : ℚ} (ht : s.phase t = .asleep t0 wake) :
    Does cfg s (.step t) (move s t (.acquiring t0))
  | admits {t : T} {t0 : ℚ} (ht : s.phase t = .queued t0) (hfree : 0 < s.permits) :
    Does cfg s (.step t) (move { s with permits := s.permits - 1 } t (.admitted t0))
  | looks {t : T} {t0 : ℚ} (ht : s.phase t = .admitted t0) :
    Does cfg s (.step t) (move s t (.counting t0 s.now))
  | counts {t : T} {t0 t1 : ℚ} (ht : s.phase t = .counting t0 t1) :
    Does cfg s (.step t) (move { s with stats := enter s.stats t0 t1 } t (.ready t1))
  | starts {t : T} {t1 : ℚ} (ht : s.phase t = .ready t1) :
    Does cfg s (.step t) (move { s with starts := s.now :: s.starts } t (.inside t1))
  | settles {t : T} {t1 : ℚ} {outcome : Outcome} (ht : s.phase t = .ended t1 outcome) :
    Does cfg s (.step t)
      (move { s with stats := cfg.settle s.stats t1 s.now outcome } t .leaving)
  | leaves {t : T} (ht : s.phase t = .leaving) :
    Does cfg s (.step t)
      (move { s with stats := { s.stats with inFlight := s.stats.inFlight - 1 } } t .releasing)
  | releases {t : T} (ht : s.phase t = .releasing) :
    Does cfg s (.step t)
      (move { s with permits :=
        if s.permits < cfg.maxConcurrent then s.permits + 1 else s.permits } t .idle)

/-- **Inversion.** -/
lemma does_next (cfg : Batcher) (s : Traffic T) (e : Event T) : Does cfg s e (cfg.next s e) := by
  cases e with
  | tick d =>
    rw [next]
    split
    · next hd => exact .ticks hd
    · exact .halts
  | call t =>
    rw [next]
    split
    · next ht => exact .calls ht
    · next ht => exact .busy ht
  | reply t outcome =>
    rw [next]
    split
    · next ht => exact .replies ht
    · exact .silent
  | step t =>
    cases ht : s.phase t with
    | idle | inside t1 =>
      simp only [next, advance, ht]
      exact .waits (by simp [ht]) (by simp [ht])
    | acquiring t0 =>
      rcases s.bucket.acquire_one s.now with ⟨b, hb, hone, rfl⟩ | ⟨wait, b, hb, hwait, rfl⟩
      · simp only [next, advance, ht, hb]
        exact .takes ht hone
      · simp only [next, advance, ht, hb]
        split
        · next hrate => exact .divides ht hrate
        · exact .misses ht hwait
    | pausing t0 d =>
      simp only [next, advance, ht]
      split
      · next hd => exact .raises ht hd
      · exact .sleeps ht
    | asleep t0 wake =>
      simp only [next, advance, ht]
      split
      · exact .wakes ht
      · exact .waits (by simp [ht]) (by simp [ht])
    | queued t0 =>
      simp only [next, advance, ht]
      split
      · next hfree => exact .admits ht hfree
      · exact .waits (by simp [ht]) (by simp [ht])
    | admitted t0 =>
      simp only [next, advance, ht]
      exact .looks ht
    | counting t0 t1 =>
      simp only [next, advance, ht]
      exact .counts ht
    | ready t1 =>
      simp only [next, advance, ht]
      exact .starts ht
    | ended t1 outcome =>
      simp only [next, advance, ht]
      exact .settles ht
    | leaving =>
      simp only [next, advance, ht]
      exact .leaves ht
    | releasing =>
      simp only [next, advance, ht]
      exact .releases ht

/-! ### Counting threads -/

section

variable [Fintype T]

/-- The number of threads that stand at a place of a kind. -/
def census (kind : Phase → Bool) (s : Traffic T) : ℕ := ∑ t, if kind (s.phase t) then 1 else 0

/-- When a thread moves, only that thread is counted anew. -/
lemma census_move (kind : Phase → Bool) (s : Traffic T) (t : T) (p : Phase) :
    census kind (move s t p) + (if kind (s.phase t) then 1 else 0) =
      census kind s + if kind p then 1 else 0 := by
  have hfun : (fun u => if kind ((move s t p).phase u) then 1 else 0) =
      Function.update (fun u => if kind (s.phase u) then 1 else 0) t (if kind p then 1 else 0) := by
    ext u
    by_cases hu : u = t
    · subst hu
      simp [move]
    · simp [move, Function.update_of_ne hu]
  have hmem : t ∈ Finset.univ := Finset.mem_univ t
  rw [census, hfun, Finset.sum_update_of_mem hmem, Finset.sdiff_singleton_eq_erase, census,
    ← Finset.add_sum_erase _ _ hmem]
  ring

end

end Batcher

end Gcos.Backend
