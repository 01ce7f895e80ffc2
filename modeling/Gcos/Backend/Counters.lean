import Gcos.Backend.Bursts
import Gcos.Lib.Ledger
import Mathlib.Algebra.Order.BigOperators.Group.Finset

/-!
# The slots and the counters of the client

A slot is taken in one step, `in_flight` goes up in another, and on the way out they go down
one after the other; the peak is kept with the counter.  Every count is a count of the
threads between two places of `chat`, and these places lie inside each other.

A call that is turned away by the bucket is in none of the counts.  That happens at a rate of
zero, where the division by the rate raises, and at a negative rate, where the sleep does.
-/

namespace Gcos.Backend

open Lib Ledger

/-! ### Places -/

namespace Phase

/-- In a call that is not counted yet. -/
def isUncounted : Phase → Bool
  | .acquiring _ | .pausing _ _ | .asleep _ _ | .queued _ | .admitted _ | .counting _ _ => true
  | _ => false

/-- With a slot. -/
def holdsSlot : Phase → Bool
  | .admitted _ | .counting _ _ | .ready _ | .inside _ | .ended _ _ | .leaving | .releasing => true
  | _ => false

/-- Counted by `in_flight`. -/
def isInFlight : Phase → Bool
  | .ready _ | .inside _ | .ended _ _ | .leaving => true
  | _ => false

/-- In the inner call. -/
def isInside : Phase → Bool
  | .inside _ => true
  | _ => false

lemma isInFlight_of_isInside {p : Phase} (h : p.isInside = true) : p.isInFlight = true := by
  cases p with
  | inside t1 => rfl
  | _ => exact absurd h (by simp [isInside])

lemma holdsSlot_of_isInFlight {p : Phase} (h : p.isInFlight = true) : p.holdsSlot = true := by
  cases p with
  | ready t1 | inside t1 | ended t1 outcome | leaving => rfl
  | _ => exact absurd h (by simp [isInFlight])

end Phase

namespace Batcher

variable {T : Type}

/-- The slots that are taken. -/
def slotsTaken (cfg : Batcher) (s : Traffic T) : ℤ := cfg.maxConcurrent - s.permits

section

variable [Fintype T] {kind kind' : Phase → Bool} {s : Traffic T}

lemma census_mono (h : ∀ {p}, kind p = true → kind' p = true) (s : Traffic T) :
    census kind s ≤ census kind' s := by
  refine Finset.sum_le_sum fun t _ => ?_
  split
  · next hkind => rw [if_pos (h hkind)]
  · exact Nat.zero_le _

lemma census_pos {t : T} (h : kind (s.phase t) = true) : 0 < census kind s := by
  have hone : 0 < if kind (s.phase t) then 1 else 0 := by
    rw [if_pos h]
    exact Nat.one_pos
  exact hone.trans_le (Finset.single_le_sum (f := fun u => if kind (s.phase u) then 1 else 0)
    (fun _ _ => Nat.zero_le _) (Finset.mem_univ t))

lemma census_of_idle (hkind : kind .idle = false) (hs : ∀ t, s.phase t = .idle) :
    census kind s = 0 := by
  refine Finset.sum_eq_zero fun t _ => ?_
  rw [hs t, hkind]
  rfl

end

/-! ### Calls -/

/-- A call that an event makes. -/
def made (s : Traffic T) : Event T → ℕ
  | .call t => if s.phase t = .idle then 1 else 0
  | _ => 0

/-- A call that the bucket turns away between two states: it ends before it has got a
token. -/
def refused (s s' : Traffic T) : Event T → ℕ
  | .step t =>
    match s.phase t with
    | .acquiring _ | .pausing _ _ => if s'.phase t = .idle then 1 else 0
    | _ => 0
  | _ => 0

lemma refused_eq_zero {s s' : Traffic T} {t : T} (hacquiring : ∀ t0, s.phase t ≠ .acquiring t0)
    (hpausing : ∀ t0 d, s.phase t ≠ .pausing t0 d) : refused s s' (.step t) = 0 := by
  rw [refused]
  split
  · next t0 ht => exact absurd ht (hacquiring t0)
  · next t0 d ht => exact absurd ht (hpausing t0 d)
  · rfl

section

variable [Fintype T] {s s' : Traffic T} {e : Event T}

/-- The books before and after one event. -/
structure Booked (s : Traffic T) (e : Event T) (s' : Traffic T) : Prop where
  slots : s'.permits + census Phase.holdsSlot s' = s.permits + census Phase.holdsSlot s
  inFlight : s'.stats.inFlight - census Phase.isInFlight s' =
    s.stats.inFlight - census Phase.isInFlight s
  calls : s'.stats.totalCalls + census Phase.isUncounted s' + refused s s' e =
    s.stats.totalCalls + census Phase.isUncounted s + made s e
  peak : s'.stats.peakInFlight = max s.stats.peakInFlight s'.stats.inFlight ∨
    s'.stats.peakInFlight = s.stats.peakInFlight ∧ s'.stats.inFlight ≤ s.stats.inFlight

/-- Nothing happens that is counted. -/
lemma Booked.still (hphase : s'.phase = s.phase) (hpermits : s'.permits = s.permits)
    (hstats : s'.stats = s.stats) (hcalls : refused s s' e = made s e) : Booked s e s' := by
  constructor
  case slots => rw [hpermits, census, census, hphase]
  case inFlight => rw [hstats, census, census, hphase]
  case calls => rw [hstats, census, census, hphase, hcalls]
  case peak => exact .inr ⟨by rw [hstats], by rw [hstats]⟩

end

variable [DecidableEq T]

/-- The calls that a run makes. -/
def callsMade (cfg : Batcher) (s : Traffic T) (es : List (Event T)) : ℕ :=
  leaked cfg.next made s es

/-- The calls that the bucket turns away along a run. -/
def callsRefused (cfg : Batcher) (s : Traffic T) (es : List (Event T)) : ℕ :=
  leaked cfg.next (fun s e => refused s (cfg.next s e) e) s es

/-! ### The rate -/

section

variable {cfg : Batcher} {s s' : Traffic T} {t : T} {p : Phase}

/-- No thread is about to sleep for less than no time. -/
structure Patient (cfg : Batcher) (s : Traffic T) : Prop where
  rate : s.bucket.rate = cfg.ratePerS
  pausing : ∀ t t0 d, s.phase t = .pausing t0 d → 0 ≤ d

lemma Patient.move (h : Patient cfg s) (hrate : s'.bucket.rate = s.bucket.rate)
    (hphase : s'.phase = s.phase) (hp : ∀ t0 d, p = .pausing t0 d → 0 ≤ d) :
    Patient cfg (Batcher.move s' t p) where
  rate := hrate.trans h.rate
  pausing := fun u t0 d hu => by
    have hmoved : Function.update s'.phase t p u = .pausing t0 d := hu
    by_cases hut : u = t
    · rw [hut, Function.update_self] at hmoved
      exact hp t0 d hmoved
    · rw [Function.update_of_ne hut, hphase] at hmoved
      exact h.pausing u t0 d hmoved

/-- At a positive rate nobody is turned away. -/
lemma patient_next (hr : 0 < cfg.ratePerS) (h : Patient cfg s) (e : Event T) :
    Patient cfg (cfg.next s e) ∧ refused s (cfg.next s e) e = 0 := by
  have hpos : 0 < s.bucket.rate := h.rate ▸ hr
  have hdoes := cfg.does_next s e
  generalize cfg.next s e = s' at hdoes ⊢
  cases hdoes with
  | halts | busy | silent => exact ⟨h, rfl⟩
  | ticks hd => exact ⟨⟨h.rate, h.pausing⟩, rfl⟩
  | calls ht | replies ht => exact ⟨h.move rfl rfl (by simp), rfl⟩
  | waits hacquiring hpausing => exact ⟨h, refused_eq_zero hacquiring hpausing⟩
  | divides ht hrate => exact absurd hrate hpos.ne'
  | raises ht hd => exact absurd hd (not_lt.2 (h.pausing _ _ _ ht))
  | misses ht hwait =>
    refine ⟨h.move rfl rfl fun t0 d hd => ?_, by simp [refused, ht, Batcher.move]⟩
    cases hd
    exact le_min (hwait hpos) (by norm_num)
  | takes ht | sleeps ht => exact ⟨h.move rfl rfl (by simp), by simp [refused, ht, Batcher.move]⟩
  | wakes ht | admits ht | looks ht | counts ht | starts ht | settles ht | leaves ht
  | releases ht => exact ⟨h.move rfl rfl (by simp), by simp [refused, ht]⟩

/-- The outcome of the inner call is no matter to the counters. -/
lemma settle_counters (cfg : Batcher) (stats : BatcherStats) (t1 now : ℚ) (outcome : Outcome) :
    (cfg.settle stats t1 now outcome).inFlight = stats.inFlight ∧
      (cfg.settle stats t1 now outcome).totalCalls = stats.totalCalls ∧
      (cfg.settle stats t1 now outcome).peakInFlight = stats.peakInFlight := by
  cases outcome with
  | returned => exact ⟨rfl, rfl, rfl⟩
  | raised kind msg => exact ⟨rfl, rfl, rfl⟩

end

/-! ### One event -/

variable [Fintype T] {cfg : Batcher} {s s' : Traffic T} {e : Event T} {t : T} {p : Phase}

/-- A thread moves. -/
lemma Booked.move (hphase : s'.phase = s.phase)
    (hslots : s'.permits + (if p.holdsSlot then 1 else 0) =
      s.permits + if (s.phase t).holdsSlot then 1 else 0)
    (hflight : s'.stats.inFlight + (if (s.phase t).isInFlight then 1 else 0) =
      s.stats.inFlight + if p.isInFlight then 1 else 0)
    (hcalls : s'.stats.totalCalls + (if p.isUncounted then 1 else 0) +
        refused s (Batcher.move s' t p) e =
      s.stats.totalCalls + (if (s.phase t).isUncounted then 1 else 0) + made s e)
    (hpeak : s'.stats.peakInFlight = max s.stats.peakInFlight s'.stats.inFlight ∨
      s'.stats.peakInFlight = s.stats.peakInFlight ∧ s'.stats.inFlight ≤ s.stats.inFlight) :
    Booked s e (Batcher.move s' t p) := by
  have hcensus : ∀ kind, census kind (Batcher.move s' t p) + (if kind (s.phase t) then 1 else 0) =
      census kind s + if kind p then 1 else 0 := by
    intro kind
    have hmove := census_move kind s' t p
    rwa [hphase, census.eq_def kind s', hphase] at hmove
  constructor
  case slots =>
    have hkind := hcensus Phase.holdsSlot
    have hpermits : (Batcher.move s' t p).permits = s'.permits := rfl
    omega
  case inFlight =>
    have hkind := congrArg (Nat.cast : ℕ → ℤ) (hcensus Phase.isInFlight)
    have hstats : (Batcher.move s' t p).stats = s'.stats := rfl
    push_cast at hkind
    rw [hstats]
    omega
  case calls =>
    have hkind := hcensus Phase.isUncounted
    have hstats : (Batcher.move s' t p).stats = s'.stats := rfl
    rw [hstats]
    omega
  case peak => exact hpeak

/-- A thread moves, and none of the books changes. -/
lemma Booked.pass (hphase : s'.phase = s.phase) (hpermits : s'.permits = s.permits)
    (hstats : s'.stats.inFlight = s.stats.inFlight ∧ s'.stats.totalCalls = s.stats.totalCalls ∧
      s'.stats.peakInFlight = s.stats.peakInFlight)
    (hslot : p.holdsSlot = (s.phase t).holdsSlot) (hflight : p.isInFlight = (s.phase t).isInFlight)
    (hcalls : (if p.isUncounted then 1 else 0) + refused s (Batcher.move s' t p) e =
      (if (s.phase t).isUncounted then 1 else 0) + made s e) :
    Booked s e (Batcher.move s' t p) := by
  refine .move hphase (by rw [hpermits, hslot]) (by rw [hstats.1, hflight]) ?_ ?_
  · rw [hstats.2.1, add_assoc, hcalls, add_assoc]
  · exact .inr ⟨hstats.2.2, hstats.1.le⟩

/-- **What one event does to the books.** -/
lemma booked_next (hslots : s.permits + census Phase.holdsSlot s = cfg.maxConcurrent)
    (e : Event T) : Booked s e (cfg.next s e) := by
  have hdoes := cfg.does_next s e
  generalize cfg.next s e = s' at hdoes ⊢
  cases hdoes with
  | halts | ticks | silent => exact .still rfl rfl rfl rfl
  | busy ht => exact .still rfl rfl rfl (if_neg ht).symm
  | waits hacquiring hpausing => exact .still rfl rfl rfl (refused_eq_zero hacquiring hpausing)
  | calls ht | replies ht | takes ht | divides ht | misses ht | raises ht | sleeps ht | wakes ht
  | looks ht | starts ht =>
    exact .pass rfl rfl ⟨rfl, rfl, rfl⟩ (by rw [ht]; rfl) (by rw [ht]; rfl)
      (by simp [made, refused, Batcher.move, ht, Phase.isUncounted])
  | settles ht =>
    exact .pass rfl rfl (settle_counters cfg s.stats _ s.now _) (by rw [ht]; rfl) (by rw [ht]; rfl)
      (by simp [made, refused, ht, Phase.isUncounted])
  | admits ht hfree =>
    refine .move rfl ?_ (by simp [ht, Phase.isInFlight])
      (by simp [made, refused, ht, Phase.isUncounted]) (.inr ⟨rfl, le_rfl⟩)
    simp only [ht, Phase.holdsSlot, if_true, Bool.false_eq_true, if_false]
    omega
  | counts ht =>
    refine .move rfl (by simp [ht, Phase.holdsSlot]) (by simp [ht, Phase.isInFlight, enter])
      (by simp [made, refused, ht, Phase.isUncounted, enter]) (.inl ?_)
    simp only [enter]
    split
    · next hpeak => exact (max_eq_right hpeak.le).symm
    · next hpeak => exact (max_eq_left (not_lt.1 hpeak)).symm
  | leaves ht =>
    exact .move rfl (by simp [ht, Phase.holdsSlot]) (by simp [ht, Phase.isInFlight])
      (by simp [made, refused, ht, Phase.isUncounted]) (.inr ⟨rfl, Int.sub_le_self _ Int.one_nonneg⟩)
  | releases ht =>
    have hheld : 0 < census Phase.holdsSlot s := census_pos (by rw [ht]; rfl)
    have hless : s.permits < cfg.maxConcurrent := by omega
    rw [if_pos hless]
    exact .move rfl (by simp [ht, Phase.holdsSlot]) (by simp [ht, Phase.isInFlight])
      (by simp [made, refused, ht, Phase.isUncounted]) (.inr ⟨rfl, le_rfl⟩)

/-! ### Runs -/

/-- The books so far. -/
structure Counted (cfg : Batcher) (s : Traffic T) : Prop where
  slots : s.permits + census Phase.holdsSlot s = cfg.maxConcurrent
  inFlight : s.stats.inFlight = census Phase.isInFlight s
  peak : s.stats.inFlight ≤ s.stats.peakInFlight

omit [DecidableEq T] in
lemma counted_init (cfg : Batcher) (now : ℚ) : Counted cfg (cfg.init T now) where
  slots := by
    rw [census_of_idle rfl fun _ => rfl]
    rfl
  inFlight := by
    rw [census_of_idle rfl fun _ => rfl]
    rfl
  peak := le_rfl

/-- **The step lemma.** -/
lemma counted_next (h : Counted cfg s) (e : Event T) :
    (cfg.next s e).stats.peakInFlight =
        max s.stats.peakInFlight (cfg.next s e).stats.inFlight ∧
      Counted cfg (cfg.next s e) := by
  have hbooked := booked_next h.slots e
  have hpeak : (cfg.next s e).stats.peakInFlight =
      max s.stats.peakInFlight (cfg.next s e).stats.inFlight := by
    rcases hbooked.peak with hnew | ⟨hold, hle⟩
    · exact hnew
    · rw [hold, max_eq_left (hle.trans h.peak)]
  refine ⟨hpeak, hbooked.slots.trans h.slots, ?_, hpeak ▸ le_max_right _ _⟩
  have hflight := hbooked.inFlight
  have hzero := h.inFlight
  omega

/-- **The counters of the client.**  Take any number of threads and any interleaving of their
steps.  At any time the threads in the inner call are no more than `in_flight`, this is no
more than the slots that are taken, and these are no more than there are; the peak is the
largest value that `in_flight` has had.  Whenever no call is active, `in_flight` is zero, all
slots are free, and every call that was made is in `total_calls`, except those that the bucket
has turned away; at a positive rate it turns none away. -/
theorem counters_agree (cfg : Batcher) (now : ℚ) (es : List (Event T)) :
    let s₀ := cfg.init T now
    let s := cfg.run s₀ es
    census Phase.isInside s ≤ s.stats.inFlight ∧
      s.stats.inFlight ≤ cfg.slotsTaken s ∧ cfg.slotsTaken s ≤ cfg.maxConcurrent ∧
      IsGreatest { x | ∃ pre, pre <+: es ∧ x = (cfg.run s₀ pre).stats.inFlight }
        s.stats.peakInFlight ∧
      ((∀ t, s.phase t = .idle) →
        s.stats.inFlight = 0 ∧ s.permits = cfg.maxConcurrent ∧
          s.stats.totalCalls + cfg.callsRefused s₀ es = cfg.callsMade s₀ es) ∧
      (0 < cfg.ratePerS → cfg.callsRefused s₀ es = 0) := by
  intro s₀ s
  have hmark : IsGreatest { x | ∃ pre, pre <+: es ∧ x = (cfg.run s₀ pre).stats.inFlight }
      s.stats.peakInFlight ∧ Counted cfg s :=
    isGreatest_mark cfg.next (fun s => s.stats.inFlight) (fun s => s.stats.peakInFlight)
      (fun _ e h => counted_next h e) (counted_init cfg now) rfl es
  obtain ⟨hpeak, hcounted⟩ := hmark
  have hinside : census Phase.isInside s ≤ census Phase.isInFlight s :=
    census_mono Phase.isInFlight_of_isInside s
  have hflight : census Phase.isInFlight s ≤ census Phase.holdsSlot s :=
    census_mono Phase.holdsSlot_of_isInFlight s
  have hslots := hcounted.slots
  have hcount := hcounted.inFlight
  have hcalls : ∀ (s : Traffic T) (e : Event T), Counted cfg s →
      (cfg.next s e).stats.totalCalls + census Phase.isUncounted (cfg.next s e) +
          refused s (cfg.next s e) e =
        s.stats.totalCalls + census Phase.isUncounted s + made s e ∧ Counted cfg (cfg.next s e) :=
    fun _ e h => ⟨(booked_next h.slots e).calls, (counted_next h e).2⟩
  have htotal : s.stats.totalCalls + census Phase.isUncounted s + cfg.callsRefused s₀ es =
      s₀.stats.totalCalls + census Phase.isUncounted s₀ + cfg.callsMade s₀ es :=
    total_add_leaked_eq (fun s => s.stats.totalCalls + census Phase.isUncounted s) hcalls
      (counted_init cfg now) es
  refine ⟨by omega, by rw [slotsTaken]; omega, by rw [slotsTaken]; omega, hpeak, ?_, ?_⟩
  · intro hidle
    have hholds : census Phase.holdsSlot s = 0 := census_of_idle rfl hidle
    have hnone : census Phase.isInFlight s = 0 := census_of_idle rfl hidle
    have hrest : census Phase.isUncounted s = 0 := census_of_idle rfl hidle
    have hstart : census Phase.isUncounted s₀ = 0 := census_of_idle rfl fun _ => rfl
    have hzero : s₀.stats.totalCalls = 0 := rfl
    exact ⟨by omega, by omega, by omega⟩
  · intro hr
    have hpatient : Patient cfg s₀ := ⟨rfl, fun t t0 d h => nomatch h⟩
    exact (leaked_eq_zero_iff s₀ es).2
      (along_of_invariant (I := Patient cfg) (fun _ e h => patient_next hr h e) hpatient es)

/-- A call that raises is counted, and gives back what it has taken. -/
theorem counters_agree_raising_call :
    let cfg : Batcher := { maxConcurrent := 1 }
    let es : List (Event (Fin 2)) :=
      [.call 0] ++ steps 5 0 ++ [.reply 0 (.raised "RuntimeError" "boom")] ++ steps 3 0
    let s := cfg.run (cfg.init (Fin 2) 0) es
    s.stats.inFlight = 0 ∧ s.stats.peakInFlight = 1 ∧ s.permits = 1 ∧ s.stats.totalCalls = 1 ∧
      s.stats.totalCalls = cfg.callsMade (cfg.init (Fin 2) 0) es := by
  intro cfg es s
  have hidle : ∀ t, s.phase t = .idle := by decide +kernel
  obtain ⟨-, -, -, -, hcount, hrefused⟩ := counters_agree cfg 0 es
  obtain ⟨hflight, hpermits, htotal⟩ := hcount hidle
  rw [hrefused (by decide +kernel)] at htotal
  exact ⟨hflight, by decide +kernel, hpermits, by decide +kernel, htotal⟩

/-- **A client of rate zero does not count every call.**  The first call takes the only token
and returns; the second finds none, and the bucket divides by the rate. -/
theorem counters_agree_rate_zero :
    ¬∀ (cfg : Batcher) (es : List (Event (Fin 1))), 1 ≤ cfg.maxConcurrent →
      (∀ t, (cfg.run (cfg.init (Fin 1) 0) es).phase t = .idle) →
        (cfg.run (cfg.init (Fin 1) 0) es).stats.totalCalls =
          cfg.callsMade (cfg.init (Fin 1) 0) es := by
  intro h
  have hzero := h { ratePerS := 0 }
    ([.call 0] ++ steps 5 0 ++ [.reply 0 .returned] ++ steps 3 0 ++ [.call 0] ++ steps 1 0)
    (by decide) (by decide +kernel)
  revert hzero
  decide +kernel

end Batcher

end Gcos.Backend
