import Mathlib.Data.List.DropRight
import Mathlib.Data.Int.Order.Basic

/-!
# The ring of recent events

`RingTraceLog` keeps the last records that were appended, in a deque with a bound on its
length.  What it holds is always the end of the history since the last `clear`.  A limit is
taken from the end with a negative index, and there is no negative zero: of all limits, 0 is
the one that gives everything.
-/

namespace Gcos.Kernel

/-- The slice `xs[k:]`. -/
def sliceFrom {α : Type*} (xs : List α) (k : ℤ) : List α :=
  if 0 ≤ k then xs.drop k.toNat else xs.drop (xs.length - k.natAbs)

/-- A record of the log.  `V` are the values that a caller passes along. -/
structure Record (V : Type*) where
  ts : V
  kind : String
  msg : String
  fields : List (String × V)
deriving DecidableEq

/-- The dictionary `{"ts": …, "kind": …, "msg": …, **fields}`: a field `ts` takes the place of
the time.  Python has no call with a field `kind` or `msg`. -/
def mkRecord {V : Type*} (now : V) (kind msg : String) (fields : List (String × V)) : Record V where
  ts := (fields.lookup "ts").getD now
  kind := kind
  msg := msg
  fields := fields.filter fun x => x.1 ≠ "ts"

/-- `RingTraceLog`: a `deque(maxlen=capacity)`. -/
structure RingTraceLog (V : Type*) where
  capacity : ℕ
  buf : List (Record V)
  length_le : buf.length ≤ capacity

/-- `deque.append`: what is too much is dropped from the front. -/
def dequeAppend {R : Type*} (maxlen : ℕ) (buf : List R) (rec : R) : List R :=
  if maxlen < (buf ++ [rec]).length then (buf ++ [rec]).tail else buf ++ [rec]

lemma length_dequeAppend_le {R : Type*} {maxlen : ℕ} {buf : List R} (h : buf.length ≤ maxlen) (rec : R) :
    (dequeAppend maxlen buf rec).length ≤ maxlen := by
  unfold dequeAppend
  split
  · rw [List.length_tail, List.length_append, List.length_singleton]
    omega
  · omega

namespace RingTraceLog

variable {V : Type*}

/-- `RingTraceLog.__init__`. -/
def init (capacity : ℕ) : RingTraceLog V where
  capacity := capacity
  buf := []
  length_le := Nat.zero_le _

/-- `RingTraceLog.append`, at the time `now`. -/
def append (log : RingTraceLog V) (now : V) (kind msg : String) (fields : List (String × V)) :
    RingTraceLog V where
  capacity := log.capacity
  buf := dequeAppend log.capacity log.buf (mkRecord now kind msg fields)
  length_le := length_dequeAppend_le log.length_le _

/-- `RingTraceLog.snapshot`. -/
def snapshot (log : RingTraceLog V) (limit : Option ℤ) : List (Record V) :=
  match limit with
  | some limit => sliceFrom log.buf (-limit)
  | none => log.buf

/-- `RingTraceLog.clear`. -/
def clear (log : RingTraceLog V) : RingTraceLog V where
  capacity := log.capacity
  buf := []
  length_le := Nat.zero_le _

end RingTraceLog

/-! ### Histories -/

/-- What is done to a log. -/
inductive LogEvent (V : Type*)
  | append (now : V) (kind msg : String) (fields : List (String × V))
  | clear

namespace LogEvent

variable {V : Type*}

/-- One event. -/
def apply (log : RingTraceLog V) : LogEvent V → RingTraceLog V
  | .append now kind msg fields => log.append now kind msg fields
  | .clear => log.clear

/-- A history, from the empty log on. -/
def run (capacity : ℕ) (history : List (LogEvent V)) : RingTraceLog V :=
  history.foldl apply (.init capacity)

/-- The records appended since the last `clear`, after one more event. -/
def record (records : List (Record V)) : LogEvent V → List (Record V)
  | .append now kind msg fields => records ++ [mkRecord now kind msg fields]
  | .clear => []

/-- The records appended since the last `clear`, oldest first. -/
def sinceClear (history : List (LogEvent V)) : List (Record V) := history.foldl record []

end LogEvent

open LogEvent

section Ends

variable {R : Type*}

/-- The end of a list that has become longer by one. -/
lemma dequeAppend_rtake (c : ℕ) (records : List R) (rec : R) :
    dequeAppend c (records.rtake c) rec = (records ++ [rec]).rtake c := by
  unfold dequeAppend List.rtake
  rw [List.length_append, List.length_drop, List.length_append, List.length_singleton]
  rcases le_or_gt c records.length with hfull | hroom
  · rw [if_pos (by omega), ← List.drop_append_of_le_length (by omega), List.tail_drop]
    congr 1
    omega
  · rw [if_neg (by omega), Nat.sub_eq_zero_of_le hroom.le, Nat.sub_eq_zero_of_le hroom]
    rfl

/-- The end of an end. -/
lemma rtake_rtake (records : List R) (m k : ℕ) :
    (records.rtake k).rtake m = records.rtake (min m k) := by
  unfold List.rtake
  rw [List.drop_drop, List.length_drop]
  congr 1
  omega

lemma rtake_min_length (records : List R) (m : ℕ) :
    records.rtake (min m records.length) = records.rtake m := by
  unfold List.rtake
  congr 1
  omega

/-- A limit that is not zero is counted from the end. -/
lemma sliceFrom_neg (records : List R) {m : ℕ} (hm : m ≠ 0) :
    sliceFrom records (-(m : ℤ)) = records.rtake m := by
  rw [sliceFrom, if_neg (by omega), Int.natAbs_neg, Int.natAbs_natCast]
  rfl

/-- There is no negative zero. -/
lemma sliceFrom_zero (records : List R) : sliceFrom records 0 = records := by
  rw [sliceFrom, if_pos (le_refl (0 : ℤ))]
  rfl

end Ends

variable {V : Type*}

lemma apply_capacity (log : RingTraceLog V) (e : LogEvent V) :
    (e.apply log).capacity = log.capacity := by
  cases e <;> rfl

/-- **What the ring holds**: the last records since the last `clear`, as many as fit. -/
lemma run_spec (c : ℕ) (history : List (LogEvent V)) :
    (run c history).capacity = c ∧ (run c history).buf = (sinceClear history).rtake c := by
  -- by induction on the history, the last event last
  induction history using List.reverseRecOn with
  | nil => exact ⟨rfl, (List.rtake_nil c).symm⟩
  | append_singleton history e ih =>
    obtain ⟨hcap, hbuf⟩ := ih
    have hrun : run c (history ++ [e]) = e.apply (run c history) := List.foldl_concat ..
    have hrecords : sinceClear (history ++ [e]) = e.record (sinceClear history) :=
      List.foldl_concat ..
    rw [hrun, hrecords]
    refine ⟨(apply_capacity _ e).trans hcap, ?_⟩
    cases e with
    | append now kind msg fields =>
      show dequeAppend (run c history).capacity (run c history).buf _ = _
      rw [hcap, hbuf]
      exact dequeAppend_rtake c _ _
    | clear => exact (List.rtake_nil c).symm

/-- A limit that is not zero gives the window that was asked for. -/
lemma snapshot_of_ne_zero (c : ℕ) (history : List (LogEvent V)) {n : ℕ} (hn : n ≠ 0) :
    (run c history).snapshot (some n) =
      (sinceClear history).rtake (min n (min c (sinceClear history).length)) := by
  show sliceFrom (run c history).buf (-(n : ℤ)) = _
  rw [sliceFrom_neg _ hn, (run_spec c history).2, rtake_rtake, ← min_assoc, rtake_min_length]

/-- A limit of zero gives everything that is held. -/
lemma snapshot_zero (c : ℕ) (history : List (LogEvent V)) :
    (run c history).snapshot (some 0) = (sinceClear history).rtake c :=
  (sliceFrom_zero _).trans (run_spec c history).2

/-- **When a snapshot is the window that was asked for.**  For every capacity and every
history: without a limit the snapshot is the last `min c k` of the `k` records since the last
`clear`; with the limit `n` it is the last `min n c k` of them, exactly if the limit is not
zero or nothing was appended since the last `clear`. -/
theorem snapshot_limit_iff (c : ℕ) (hc : 1 ≤ c) (history : List (LogEvent V)) (n : ℕ) :
    let records := sinceClear history
    let k := records.length
    (run c history).snapshot none = records.rtake (min c k) ∧
      ((run c history).snapshot (some n) = records.rtake (min n (min c k)) ↔ n ≠ 0 ∨ k = 0) := by
  intro records k
  refine ⟨?_, ?_⟩
  · rw [rtake_min_length]
    exact (run_spec c history).2
  by_cases hn : n = 0
  · -- everything that is held, where nothing was asked for
    have hlen : (records.rtake c).length = min c k := by
      rw [List.rtake, List.length_drop]
      omega
    have hzero : (run c history).snapshot (some n) = records.rtake c := by
      rw [hn]
      exact snapshot_zero c history
    rw [hzero, hn, Nat.zero_min, List.rtake_zero, ← List.length_eq_zero_iff, hlen]
    omega
  · exact iff_of_true (snapshot_of_ne_zero c history hn) (.inl hn)

/-- Four records in a log with room for three, and the last two of them. -/
theorem snapshot_limit_iff_two :
    ((run 3 ((List.range 4).map fun i => .append i "info" "tick" [])).snapshot (some 2)).map
      (·.ts) = [2, 3] := by
  have hlimit := (snapshot_limit_iff 3 (by decide)
    ((List.range 4).map fun i => .append i "info" "tick" []) 2).2.2 (.inl (by decide))
  exact (congrArg (List.map (·.ts)) hlimit).trans rfl

/-- One record, and a limit of zero: the record is in the snapshot. -/
theorem snapshot_zero_returns_all :
    let history : List (LogEvent ℕ) := [.append 7 "info" "tick" []]
    (run 1 history).snapshot (some 0) = [mkRecord 7 "info" "tick" []] ∧
      (run 1 history).snapshot (some 0) ≠
        (sinceClear history).rtake (min 0 (min 1 (sinceClear history).length)) := by
  decide

end Gcos.Kernel
