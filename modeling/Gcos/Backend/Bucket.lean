import Gcos.Backend.Bursts

/-!
# What the bucket hands out

The locked section of `TokenBucket.acquire` is all that threads do to the bucket, so the
history of a bucket is a row of attempts at times that do not decrease.  Every attempt,
also one that finds no token, fills the bucket up to its time; that costs nothing, since
to fill up to one time and then to a later one is to fill up to the later one.
-/

namespace Gcos.Backend

open Lib Envelope

/-- A bucket, and the times at which somebody was given a token, the last one first. -/
structure Grants where
  bucket : TokenBucket
  times : List ℚ := []
deriving DecidableEq

namespace Grants

/-- One attempt of `acquire(1)`. -/
def attempt (g : Grants) (now : ℚ) : Grants :=
  match g.bucket.acquire 1 now with
  | (none, b) => { bucket := b, times := now :: g.times }
  | (some _, b) => { g with bucket := b }

/-- The history of a bucket after attempts at the given times. -/
def attempts (g : Grants) (ts : List ℚ) : Grants := ts.foldl attempt g

/-- A full bucket at time `now`. -/
def full (rate capacity now : ℚ) : Grants :=
  { bucket := { rate := rate, capacity := capacity, tokens := capacity, last := now } }

/-- The history so far, with the account of the bucket. -/
structure Bounded (c r : ℚ) (g : Grants) (now : ℚ) : Prop where
  capacity : g.bucket.capacity = c
  rate : g.bucket.rate = r
  sound : g.bucket.Sound now
  accrued : Accrued c r g.times now (g.bucket.level now)

variable {c r now now' : ℚ} {g : Grants}

/-- An attempt either gets a token or fills up the bucket. -/
lemma attempt_cases (g : Grants) (now : ℚ) :
    (1 ≤ g.bucket.level now ∧ g.attempt now =
        { bucket := { g.bucket with last := now, tokens := g.bucket.level now - 1 }
          times := now :: g.times }) ∨
      g.attempt now =
        { g with bucket := { g.bucket with last := now, tokens := g.bucket.level now } } := by
  delta attempt
  rcases g.bucket.acquire_one now with ⟨b, hb, hone, rfl⟩ | ⟨wait, b, hb, -, rfl⟩
  · rw [hb]
    exact .inl ⟨hone, rfl⟩
  · rw [hb]
    exact .inr rfl

lemma bounded_full (hr : 0 ≤ r) (hc : 0 ≤ c) (now : ℚ) : Bounded c r (full r c now) now where
  capacity := rfl
  rate := rfl
  sound := ⟨hr, hc, le_rfl, le_rfl⟩
  accrued := .nil hc hr _ _

/-- Time passes. -/
lemma Bounded.later (h : Bounded c r g now) (hnow : now ≤ now') : Bounded c r g now' where
  capacity := h.capacity
  rate := h.rate
  sound := h.sound.later hnow
  accrued := by
    have hlevel := h.sound.level_later hnow
    rw [h.rate] at hlevel
    exact h.accrued.later hnow hlevel

/-- **The step lemma.** -/
lemma Bounded.attempt (h : Bounded c r g now) : Bounded c r (g.attempt now) now := by
  rcases g.attempt_cases now with ⟨hone, hgiven⟩ | hnone
  · rw [hgiven]
    have hle : g.bucket.level now - 1 ≤ g.bucket.level now := sub_le_self _ zero_le_one
    have hcap := g.bucket.level_le_capacity now
    refine ⟨h.capacity, h.rate, ⟨h.sound.rate, sub_nonneg.2 hone, hle.trans hcap, le_rfl⟩, ?_⟩
    rw [g.bucket.level_refilled now _ hle]
    exact h.accrued.event (h.rate ▸ h.sound.rate) hone (h.capacity ▸ hcap)
  · rw [hnone]
    have hcap := g.bucket.level_le_capacity now
    refine ⟨h.capacity, h.rate, ⟨h.sound.rate, h.sound.level_nonneg, hcap, le_rfl⟩, ?_⟩
    rw [g.bucket.level_refilled now _ le_rfl]
    exact h.accrued

/-- **The run lemma.** -/
lemma Bounded.attempts (h : Bounded c r g now) {ts : List ℚ} (hts : (now :: ts).IsChain (· ≤ ·)) :
    Bounded c r (g.attempts ts) (ts.getLast?.getD now) := by
  induction ts generalizing g now with
  | nil => exact h
  | cons t ts ih =>
    rw [List.isChain_cons_cons] at hts
    have hnext := ih (h.later hts.1).attempt hts.2
    rw [List.getLast?_cons]
    exact hnext

end Grants

/-! ### Attempts that find nothing -/

/-- To fill the bucket up to one time and then to a later one is to fill it up to the later
one. -/
lemma TokenBucket.level_level {b : TokenBucket} {now now' : ℚ} (hrate : 0 ≤ b.rate)
    (hnow : now ≤ now') :
    ({ b with last := now, tokens := b.level now } : TokenBucket).level now' = b.level now' := by
  have hgrowth : 0 ≤ (now' - now) * b.rate := mul_nonneg (sub_nonneg.2 hnow) hrate
  have hsplit : b.tokens + (now' - b.last) * b.rate =
      b.tokens + (now - b.last) * b.rate + (now' - now) * b.rate := by ring
  simp only [level]
  rw [hsplit, ← min_add_add_right, ← min_assoc, min_eq_left (le_add_of_nonneg_right hgrowth)]

namespace Grants

variable {now now' : ℚ} {g : Grants}

lemma attempts_append (g : Grants) (ts us : List ℚ) :
    g.attempts (ts ++ us) = (g.attempts ts).attempts us := List.foldl_append

/-- Tokens are not taken back. -/
lemma length_times_attempt (g : Grants) (now : ℚ) :
    g.times.length ≤ (g.attempt now).times.length := by
  rcases g.attempt_cases now with ⟨-, hgiven⟩ | hnone
  · rw [hgiven]
    exact Nat.le_succ _
  · rw [hnone]

lemma length_times_attempts (g : Grants) (ts : List ℚ) :
    g.times.length ≤ (g.attempts ts).times.length := by
  induction ts generalizing g with
  | nil => exact le_rfl
  | cons t ts ih => exact (g.length_times_attempt t).trans (ih (g.attempt t))

lemma rate_attempt (g : Grants) (now : ℚ) : (g.attempt now).bucket.rate = g.bucket.rate := by
  rcases g.attempt_cases now with ⟨-, hgiven⟩ | hnone
  · rw [hgiven]
  · rw [hnone]

/-- An attempt that finds no token makes no difference to a later one. -/
lemma attempt_attempt (hrate : 0 ≤ g.bucket.rate) (hnow : now ≤ now')
    (hfail : (g.attempt now).times.length = g.times.length) :
    (g.attempt now).attempt now' = g.attempt now' := by
  rcases g.attempt_cases now with ⟨-, hgiven⟩ | hnone
  · rw [hgiven] at hfail
    exact absurd hfail (Nat.succ_ne_self _)
  · have hacquire : TokenBucket.acquire { g.bucket with last := now, tokens := g.bucket.level now }
        1 now' = g.bucket.acquire 1 now' := by
      simp only [TokenBucket.acquire, TokenBucket.level_level hrate hnow]
    rw [hnone]
    delta attempt
    rw [hacquire]

/-- **No refill is lost.**  Any number of attempts that find no token make no difference to a
later one. -/
lemma attempt_attempts (hrate : 0 ≤ g.bucket.rate) {us : List ℚ}
    (hus : (us ++ [now]).IsChain (· ≤ ·)) (hfail : (g.attempts us).times.length = g.times.length) :
    (g.attempts us).attempt now = g.attempt now := by
  induction us generalizing g with
  | nil => rfl
  | cons u us ih =>
    have hgrows := (g.attempt u).length_times_attempts us
    have hmore := g.length_times_attempt u
    have hall : ((g.attempt u).attempts us).times.length = g.times.length := hfail
    have hu : u ≤ now := by
      have hsorted := List.isChain_iff_pairwise.1 hus
      exact List.rel_of_pairwise_cons hsorted (List.mem_append_right us List.mem_cons_self)
    have hrest : (us ++ [now]).IsChain (· ≤ ·) := List.IsChain.tail hus
    have hrate' : 0 ≤ (g.attempt u).bucket.rate := by
      rw [rate_attempt]
      exact hrate
    have hlater := ih hrate' hrest (by omega)
    exact hlater.trans (attempt_attempt hrate hu (by omega))

/-- **The bound of the bucket.**  After any attempts at times that do not decrease the bucket
is between empty and full, no window of length `T` has seen more than `c + r * T` tokens
handed out, and any attempts that find no token make no difference to a later one. -/
theorem bucket_bounded {r c now : ℚ} (hr : 0 < r) (hc : 0 ≤ c) {ts : List ℚ}
    (hts : (now :: ts).IsChain (· ≤ ·)) {g : Grants} (hg : g = (full r c now).attempts ts) :
    (0 ≤ g.bucket.tokens ∧ g.bucket.tokens ≤ c) ∧ Within c r g.times ∧
      ∀ us now', (ts ++ us ++ [now']).IsChain (· ≤ ·) → (g.attempts us).times = g.times →
        (g.attempts us).attempt now' = g.attempt now' := by
  have hbounded := (bounded_full hr.le hc now).attempts hts
  rw [← hg] at hbounded
  refine ⟨⟨hbounded.sound.empty, hbounded.capacity ▸ hbounded.sound.full⟩,
    hbounded.accrued.within, fun us now' hus hfail => ?_⟩
  have hrest : (us ++ [now']).IsChain (· ≤ ·) := by
    rw [List.append_assoc] at hus
    exact hus.right_of_append
  exact attempt_attempts hbounded.sound.rate hrest (congrArg List.length hfail)

/-- A token is taken, two attempts find none, and one after a second finds one. -/
theorem bucket_bounded_four_attempts :
    ((full 1 1 0).attempts [0]).times = [0] ∧
      ((full 1 1 0).attempts [0, 1 / 4, 1 / 2, 1]).times = [1, 0] ∧
      Within 1 1 ((full 1 1 0).attempts [0, 1 / 4, 1 / 2, 1]).times ∧
      (((full 1 1 0).attempts [0]).attempts [1 / 4, 1 / 2]).attempt 1 =
        ((full 1 1 0).attempts [0]).attempt 1 := by
  have hfirst : ((full 1 1 0).attempts [0]).times = [0] := by decide +kernel
  have hlast : ((full 1 1 0).attempts [0, 1 / 4, 1 / 2, 1]).times = [1, 0] := by decide +kernel
  have hfail : (((full 1 1 0).attempts [0]).attempts [1 / 4, 1 / 2]).times =
      ((full 1 1 0).attempts [0]).times := by decide +kernel
  have hone : ([0, 0] : List ℚ).IsChain (· ≤ ·) := by decide +kernel
  have hfour : ([0, 0, 1 / 4, 1 / 2, 1] : List ℚ).IsChain (· ≤ ·) := by decide +kernel
  have hrest : ([0] ++ [1 / 4, 1 / 2] ++ [1] : List ℚ).IsChain (· ≤ ·) := by decide +kernel
  exact ⟨hfirst, hlast, (bucket_bounded one_pos zero_le_one hfour rfl).2.1,
    (bucket_bounded one_pos zero_le_one hone rfl).2.2 [1 / 4, 1 / 2] 1 hrest hfail⟩

end Grants

/-! ### The bucket of the client -/

namespace Batcher

variable {T : Type}

/-- The time of the event, if it is an attempt. -/
def attemptTime (s : Traffic T) : Event T → List ℚ
  | .step t =>
    match s.phase t with
    | .acquiring _ => [s.now]
    | _ => []
  | _ => []

lemma attemptTime_cases (s : Traffic T) (e : Event T) :
    attemptTime s e = [] ∨ attemptTime s e = [s.now] := by
  cases e with
  | step t =>
    rw [attemptTime]
    split
    · exact .inr rfl
    · exact .inl rfl
  | _ => exact .inl rfl

variable [DecidableEq T]

/-- The times of the attempts of a run. -/
def attemptTimes (cfg : Batcher) : Traffic T → List (Event T) → List ℚ
  | _, [] => []
  | s, e :: es => attemptTime s e ++ cfg.attemptTimes (cfg.next s e) es

variable (cfg : Batcher) (s : Traffic T)

/-- Nothing but an attempt touches the bucket. -/
lemma bucket_next (e : Event T) {g : Grants} (hg : g.bucket = s.bucket) :
    (cfg.next s e).bucket = (g.attempts (attemptTime s e)).bucket := by
  cases e with
  | tick d | call t | reply t outcome =>
    rw [next]
    split
    · exact hg.symm
    · exact hg.symm
  | step t =>
    cases ht : s.phase t with
    | acquiring t0 =>
      simp only [next, advance, attemptTime, ht, Grants.attempts, List.foldl_cons, List.foldl_nil]
      delta Grants.attempt
      rw [hg]
      rcases s.bucket.acquire_one s.now with ⟨b, hb, -⟩ | ⟨wait, b, hb, -⟩
      · rw [hb]
        rfl
      · rw [hb]
        dsimp only
        split
        · rfl
        · rfl
    | pausing t0 d | asleep t0 wake | queued t0 =>
      simp only [next, advance, attemptTime, ht]
      split
      · exact hg.symm
      · exact hg.symm
    | _ =>
      simp only [next, advance, attemptTime, ht]
      exact hg.symm

lemma now_le_next (e : Event T) : s.now ≤ (cfg.next s e).now := by
  have hdoes := cfg.does_next s e
  generalize cfg.next s e = s' at hdoes ⊢
  cases hdoes with
  | ticks hd => exact le_add_of_nonneg_right hd
  | _ => exact le_rfl

/-- The attempts of a run are at times that do not decrease. -/
lemma isChain_attemptTimes (es : List (Event T)) :
    (s.now :: cfg.attemptTimes s es).IsChain (· ≤ ·) := by
  induction es generalizing s with
  | nil => exact .singleton _
  | cons e es ih =>
    have hrest := ih (cfg.next s e)
    have hfrom : (s.now :: cfg.attemptTimes (cfg.next s e) es).IsChain (· ≤ ·) := by
      rw [List.isChain_cons] at hrest ⊢
      exact ⟨fun u hu => (cfg.now_le_next s e).trans (hrest.1 u hu), hrest.2⟩
    rcases attemptTime_cases s e with hnone | hone
    · rw [attemptTimes, hnone]
      exact hfrom
    · rw [attemptTimes, hone]
      exact List.isChain_cons_cons.2 ⟨le_rfl, hfrom⟩

/-- **The bucket of the client** after a run is the bucket after the attempts of the run. -/
theorem bucket_run (es : List (Event T)) {g : Grants} (hg : g.bucket = s.bucket) :
    (cfg.run s es).bucket = (g.attempts (cfg.attemptTimes s es)).bucket := by
  induction es generalizing s g with
  | nil => exact hg.symm
  | cons e es ih =>
    have hnext := cfg.bucket_next s e hg
    have hrest := ih (cfg.next s e) hnext.symm
    rw [attemptTimes, Grants.attempts_append]
    exact hrest

/-- However many threads call the client, its bucket stays between empty and full. -/
theorem run_bucket_sound (hr : 0 ≤ cfg.ratePerS) (hc : 0 ≤ cfg.capacity) (now : ℚ)
    (es : List (Event T)) :
    0 ≤ (cfg.run (cfg.init T now) es).bucket.tokens ∧
      (cfg.run (cfg.init T now) es).bucket.tokens ≤ cfg.capacity := by
  have hstart : (Grants.full cfg.ratePerS cfg.capacity now).bucket = (cfg.init T now).bucket := rfl
  rw [cfg.bucket_run (cfg.init T now) es hstart]
  have hchain := cfg.isChain_attemptTimes (cfg.init T now) es
  have hbounded := (Grants.bounded_full hr hc now).attempts hchain
  exact ⟨hbounded.sound.empty, hbounded.sound.full.trans_eq hbounded.capacity⟩

end Batcher

end Gcos.Backend
