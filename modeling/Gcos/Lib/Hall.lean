import Mathlib.Data.Fintype.Card
import Mathlib.Logic.Relation
import Mathlib.Tactic.Common

/-!
# A hiring hall

Jobs come in one at a time, and workers take them.  A worker that finds no job lies down
to sleep, and a job that comes in wakes one sleeper, if there is one.  Workers may also wake
up by themselves, and jobs may be withdrawn.

One wake-up per job is enough: while somebody sleeps there are at least as many workers on
their way to a job as there are jobs (`staffed_of_steps`).
-/

namespace Gcos.Lib

/-- Where a worker of the hall is. -/
inductive Place
  /-- On its way to a job. -/
  | seeking
  | asleep
  | away
deriving DecidableEq, Repr

/-- The jobs that nobody has taken, and the workers. -/
structure Hall (T : Type) where
  jobs : ℕ
  place : T → Place

namespace Hall

variable {T : Type} [DecidableEq T] {h h' : Hall T}

/-- A wake-up reaches the sleeper `t`, or nobody if nobody sleeps. -/
def Reaches (place : T → Place) : Option T → Prop
  | none => ∀ t, place t ≠ .asleep
  | some t => place t = .asleep

/-- The workers after a wake-up. -/
def roused (place : T → Place) : Option T → T → Place
  | none => place
  | some t => Function.update place t .seeking

/-- What can happen in the hall. -/
inductive Step : Hall T → Hall T → Prop
  | supply {h : Hall T} (woken : Option T) (hwoken : Reaches h.place woken) :
      Step h ⟨h.jobs + 1, roused h.place woken⟩
  | take {h : Hall T} (t : T) (ht : h.place t = .seeking) :
      Step h ⟨h.jobs - 1, Function.update h.place t .away⟩
  | withdraw {h : Hall T} : Step h ⟨h.jobs - 1, h.place⟩
  | sleep {h : Hall T} (t : T) (hjobs : h.jobs = 0) :
      Step h ⟨h.jobs, Function.update h.place t .asleep⟩
  | seek {h : Hall T} (t : T) : Step h ⟨h.jobs, Function.update h.place t .seeking⟩

/-- Nobody falls asleep by being sent elsewhere. -/
lemma asleep_of_update {place : T → Place} {t u : T} {x : Place} (hx : x ≠ .asleep)
    (hu : Function.update place t x u = .asleep) : place u = .asleep := by
  by_cases heq : u = t
  · subst heq
    rw [Function.update_self] at hu
    exact absurd hu hx
  · rwa [Function.update_of_ne heq] at hu

variable [Fintype T]

/-- The number of workers on their way to a job. -/
def seekers (place : T → Place) : ℕ := (Finset.univ.filter fun t => place t = .seeking).card

/-- While somebody sleeps, every job has a worker on its way. -/
def Staffed (h : Hall T) : Prop := (∃ t, h.place t = .asleep) → h.jobs ≤ seekers h.place

lemma seekers_update_seeking (place : T → Place) {t : T} (ht : place t ≠ .seeking) :
    seekers (Function.update place t .seeking) = seekers place + 1 := by
  have hset : (Finset.univ.filter fun u => Function.update place t .seeking u = .seeking) =
      insert t (Finset.univ.filter fun u => place u = .seeking) := by
    ext u
    by_cases hu : u = t <;> simp [Function.update_apply, hu]
  rw [seekers, hset, Finset.card_insert_of_notMem (by simp [ht]), seekers]

lemma seekers_update_of_seeking {place : T → Place} {t : T} (ht : place t = .seeking)
    {x : Place} (hx : x ≠ .seeking) :
    seekers (Function.update place t x) + 1 = seekers place := by
  have hset : (Finset.univ.filter fun u => place u = .seeking) =
      insert t (Finset.univ.filter fun u => Function.update place t x u = .seeking) := by
    ext u
    by_cases hu : u = t <;> simp [Function.update_apply, hu, ht]
  rw [seekers, seekers, hset, Finset.card_insert_of_notMem (by simp [hx])]

lemma seekers_le_update_seeking (place : T → Place) (t : T) :
    seekers place ≤ seekers (Function.update place t .seeking) := by
  by_cases ht : place t = .seeking
  · rw [← ht, Function.update_eq_self]
  · rw [seekers_update_seeking place ht]
    exact Nat.le_succ _

/-- **One step** keeps the hall staffed. -/
lemma Staffed.step (hstaffed : Staffed h) (hs : Step h h') : Staffed h' := by
  rintro ⟨u, hu⟩
  cases hs with
  | supply woken hwoken =>
    cases woken with
    | none => exact absurd hu (hwoken u)
    | some t =>
      have hmore := hstaffed ⟨t, hwoken⟩
      have hnot : h.place t ≠ .seeking := by
        rw [show h.place t = .asleep from hwoken]
        decide
      show h.jobs + 1 ≤ seekers (Function.update h.place t .seeking)
      rw [seekers_update_seeking _ hnot]
      exact Nat.succ_le_succ hmore
  | take t ht =>
    have hmore := hstaffed ⟨u, asleep_of_update (by decide) hu⟩
    have hless := seekers_update_of_seeking ht (x := .away) (by decide)
    show h.jobs - 1 ≤ seekers (Function.update h.place t .away)
    omega
  | withdraw => exact (Nat.sub_le _ _).trans (hstaffed ⟨u, hu⟩)
  | sleep t hjobs => exact hjobs ▸ Nat.zero_le _
  | seek t =>
    exact (hstaffed ⟨u, asleep_of_update (by decide) hu⟩).trans (seekers_le_update_seeking _ t)

/-- **One wake-up per job is enough**, in every run. -/
theorem staffed_of_steps (hstaffed : Staffed h) (hs : Relation.ReflTransGen Step h h') :
    Staffed h' := by
  induction hs with
  | refl => exact hstaffed
  | tail _ hlast ih => exact ih.step hlast

end Hall

end Gcos.Lib
