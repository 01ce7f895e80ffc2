import Gcos.Lib.Prog
import Mathlib.Algebra.Group.Basic
import Mathlib.Algebra.Group.Units.Basic
import Mathlib.Algebra.BigOperators.Group.List.Basic
import Mathlib.Data.List.Induction
import Mathlib.Order.Bounds.Basic
import Mathlib.Order.MinMax

/-!
# Keeping a ledger over a history

A history moves a state event by event, and some quantity of the state should change only
by what the events bring in.  Two ways to tell when it does, and a mark of the largest value
that a quantity has had.

* If every event may also *leak*, the total at the end is right exactly when no event of the
  history has leaked (`total_eq_iff`).
* If the quantity has to be right after every event, it is enough to know which single
  events keep it right (`along_iff_balanced`).
* A mark that every event raises to the new value, and never lowers, shows the largest value
  so far (`isGreatest_mark`).
-/

namespace Gcos.Lib.Ledger

variable {S E M : Type*} (next : S → E → S)

section

variable [AddCommMonoid M] (leak : S → E → M)

/-- What leaks along a history. -/
def leaked : S → List E → M
  | _, [] => 0
  | s, e :: es => leak s e + leaked (next s e) es

variable {next leak} {total : S → M} {gain : E → M}

/-- What leaks along a history, where that depends on the events alone. -/
lemma leaked_eq_sum (s : S) (es : List E) :
    leaked next (fun _ e => gain e) s es = (es.map gain).sum := by
  induction es generalizing s with
  | nil => rfl
  | cons e es ih => rw [leaked, ih, List.map_cons, List.sum_cons]

/-- What is there in the end and what has leaked is what was there and what came in, also
where the state decides what comes in. -/
lemma total_add_leaked_eq (total : S → M) {came : S → E → M} {I : S → Prop}
    (hstep : ∀ s e, I s → total (next s e) + leak s e = total s + came s e ∧ I (next s e)) {s : S}
    (hs : I s) (es : List E) :
    total (es.foldl next s) + leaked next leak s es = total s + leaked next came s es := by
  induction es generalizing s with
  | nil => simp [leaked]
  | cons e es ih =>
    obtain ⟨he, hI⟩ := hstep s e hs
    calc total (es.foldl next (next s e)) + (leak s e + leaked next leak (next s e) es)
        = total (es.foldl next (next s e)) + leaked next leak (next s e) es + leak s e := by
          rw [add_comm (leak s e), add_assoc]
      _ = total (next s e) + leak s e + leaked next came (next s e) es := by
          rw [ih hI, add_right_comm]
      _ = total s + (came s e + leaked next came (next s e) es) := by
          rw [he, add_assoc]

/-- What is there in the end and what has leaked is what was there and what came in. -/
lemma total_add_leaked (hstep : ∀ s e, total (next s e) + leak s e = total s + gain e) (s : S)
    (es : List E) :
    total (es.foldl next s) + leaked next leak s es = total s + (es.map gain).sum := by
  have hall : ∀ s e, True → total (next s e) + leak s e = total s + gain e ∧ True :=
    fun s e _ => ⟨hstep s e, trivial⟩
  rw [total_add_leaked_eq total hall trivial, leaked_eq_sum]

/-- Nothing leaks along a history in which no event leaks. -/
lemma leaked_eq_zero_iff [Subsingleton (AddUnits M)] (s : S) (es : List E) :
    leaked next leak s es = 0 ↔ Along next (fun s e => leak s e = 0) s es := by
  induction es generalizing s with
  | nil => exact iff_of_true rfl trivial
  | cons e es ih => exact add_eq_zero.trans (and_congr Iff.rfl (ih _))

end

section

variable [AddCancelCommMonoid M] {leak : S → E → M} {next} {total : S → M} {gain : E → M}

/-- **The total at the end** is what was there and what came in, exactly when no event has
leaked. -/
theorem total_eq_iff [Subsingleton (AddUnits M)]
    (hstep : ∀ s e, total (next s e) + leak s e = total s + gain e) (s : S) (es : List E) :
    total (es.foldl next s) = total s + (es.map gain).sum ↔
      Along next (fun s e => leak s e = 0) s es := by
  rw [← leaked_eq_zero_iff, ← total_add_leaked hstep s es]
  exact left_eq_add

/-- **The total after every event** is right, exactly when every single event keeps it
right. -/
theorem along_iff_balanced {I : S → Prop} {ok : S → E → Prop}
    (hstep : ∀ s e, I s → (ok s e ↔ total (next s e) = total s + gain e) ∧ I (next s e)) {s : S}
    (hs : I s) (es : List E) :
    Along next ok s es ↔
      ∀ pre, pre <+: es → total (pre.foldl next s) = total s + (pre.map gain).sum := by
  induction es generalizing s with
  | nil =>
    refine iff_of_true trivial fun pre hpre => ?_
    rw [List.prefix_nil.1 hpre]
    simp
  | cons e es ih =>
    obtain ⟨hok, hI⟩ := hstep s e hs
    constructor
    · rintro ⟨he, hes⟩ pre hpre
      rcases List.prefix_cons_iff.1 hpre with rfl | ⟨pre', rfl, hpre'⟩
      · simp
      · rw [List.foldl_cons, (ih hI).1 hes pre' hpre', hok.1 he, List.map_cons, List.sum_cons,
          add_assoc]
    · intro h
      -- the first event is right after a history of one event
      have he : ok s e := by
        have hone := h [e] (by simp)
        simpa [hok] using hone
      refine ⟨he, (ih hI).2 fun pre hpre => ?_⟩
      have hlong := h (e :: pre) (List.prefix_cons_iff.2 (.inr ⟨pre, rfl, hpre⟩))
      rw [List.foldl_cons, List.map_cons, List.sum_cons, ← add_assoc] at hlong
      rw [hlong, hok.1 he]

end

/-! ### High-water marks -/

/-- **The mark is the largest value so far.**  It begins at the value, and every event
raises it to the new value or leaves it where it is. -/
theorem isGreatest_mark {α : Type*} [LinearOrder α] (level mark : S → α) {I : S → Prop}
    (hstep : ∀ s e, I s → mark (next s e) = max (mark s) (level (next s e)) ∧ I (next s e)) {s : S}
    (hs : I s) (hmark : mark s = level s) (es : List E) :
    IsGreatest { x | ∃ pre, pre <+: es ∧ x = level (pre.foldl next s) } (mark (es.foldl next s)) ∧
      I (es.foldl next s) := by
  induction es using List.reverseRecOn with
  | nil =>
    refine ⟨⟨⟨[], List.prefix_rfl, hmark⟩, ?_⟩, hs⟩
    rintro x ⟨pre, hpre, rfl⟩
    rw [List.prefix_nil.1 hpre]
    exact hmark.ge
  | append_singleton es e ih =>
    obtain ⟨⟨⟨top, htop, hlevel⟩, hbound⟩, hI⟩ := ih
    obtain ⟨hmax, hI'⟩ := hstep _ e hI
    rw [List.foldl_append, List.foldl_cons, List.foldl_nil, hmax]
    refine ⟨⟨?_, ?_⟩, hI'⟩
    · rcases max_choice (mark (es.foldl next s)) (level (next (es.foldl next s) e)) with hold | hnew
      · exact ⟨top, htop.trans (List.prefix_append es [e]), hold.trans hlevel⟩
      · refine ⟨es ++ [e], List.prefix_rfl, ?_⟩
        rw [hnew, List.foldl_append, List.foldl_cons, List.foldl_nil]
    · rintro x ⟨pre, hpre, rfl⟩
      rcases List.prefix_concat_iff.1 hpre with rfl | hpre
      · rw [List.foldl_append, List.foldl_cons, List.foldl_nil]
        exact le_max_right _ _
      · exact (hbound ⟨pre, hpre, rfl⟩).trans (le_max_left _ _)

end Gcos.Lib.Ledger
