import Mathlib.Data.List.Infix
import Mathlib.Tactic.Common

/-!
# A pipe

A writer sends its data through a buffer of bounded size to a reader that reads until the
end of the pipe.  A write may be partial, a read takes at most a chunk, and the writer may be
killed at any moment.  The reader sees the end when the buffer is empty and no process holds
the writing end any more: neither the writer nor one of its heirs, the processes that were
forked while the writing end was open and that have a copy of it.

Whatever the order of the steps, the reader gets a prefix of the data, and all of it unless
the writer is killed (`run_ended`); every run is short (`length_run_le`), and the reader can
always get to the end (`exists_ended`).
-/

namespace Gcos.Lib

/-- A pipe with its writer and its reader. -/
structure Conduit (α : Type) where
  /-- What the writer has yet to write. -/
  unsent : List α
  buffer : List α := []
  /-- What the reader has got. -/
  taken : List α := []
  /-- The writer has its end open. -/
  writing : Bool := true
  /-- The other processes that hold a copy of the writing end. -/
  heirs : ℕ := 0
  /-- The reader has seen the end. -/
  ended : Bool := false
deriving DecidableEq, Repr

namespace Conduit

variable {α : Type}

/-- The steps of the processes at a pipe. -/
inductive Move
  | write (k : ℕ)
  | close
  | kill
  | release
  | read (k : ℕ)
  | finish
deriving DecidableEq, Repr

/-- A step, where it is possible, with a buffer of size `cap` and reads of at most `chunk`. -/
def step (cap chunk : ℕ) (c : Conduit α) : Move → Option (Conduit α)
  | .write k =>
    if c.writing = true ∧ 0 < k ∧ k ≤ c.unsent.length ∧ c.buffer.length + k ≤ cap then
      some { c with unsent := c.unsent.drop k, buffer := c.buffer ++ c.unsent.take k }
    else none
  | .close => if c.writing = true ∧ c.unsent = [] then some { c with writing := false } else none
  | .kill => if c.writing = true then some { c with writing := false } else none
  | .release => if 0 < c.heirs then some { c with heirs := c.heirs - 1 } else none
  | .read k =>
    if c.ended = false ∧ 0 < k ∧ k ≤ chunk ∧ k ≤ c.buffer.length then
      some { c with buffer := c.buffer.drop k, taken := c.taken ++ c.buffer.take k }
    else none
  | .finish =>
    if c.ended = false ∧ c.buffer = [] ∧ c.writing = false ∧ c.heirs = 0 then
      some { c with ended := true }
    else none

/-- The steps of a schedule, if they are all possible. -/
def run (cap chunk : ℕ) : Conduit α → List Move → Option (Conduit α)
  | c, [] => some c
  | c, m :: moves => (step cap chunk c m).bind fun c => run cap chunk c moves

/-- A pipe before the first write. -/
def start (data : List α) (heirs : ℕ) : Conduit α := { unsent := data, heirs := heirs }

/-- What the steps preserve: nothing is lost or changed on the way to the reader, the end
is seen only after everything that was written, and a writer that has ended by itself has
written everything. -/
structure Sound (data : List α) (killed : Prop) (c : Conduit α) : Prop where
  whole : c.taken ++ c.buffer ++ c.unsent = data
  drained : c.ended = true → c.buffer = [] ∧ c.writing = false
  complete : c.writing = false → ¬killed → c.unsent = []

/-- How many steps are left at most. -/
def load (c : Conduit α) : ℕ :=
  2 * c.unsent.length + c.buffer.length + c.heirs + c.writing.toNat + (!c.ended).toNat

variable {cap chunk : ℕ} {data : List α} {c c' : Conduit α} {m : Move}

lemma Sound.step {killed : Prop} (h : c.Sound data killed) (hs : step cap chunk c m = some c')
    (hm : m = .kill → killed) : c'.Sound data killed := by
  obtain ⟨hwhole, hdrained, hcomplete⟩ := h
  cases m <;> simp only [Conduit.step, Option.ite_none_right_eq_some, Option.some.injEq] at hs
  case write k =>
    obtain ⟨⟨hwriting, -⟩, rfl⟩ := hs
    refine ⟨?_, ?_, ?_⟩
    · rw [← hwhole]
      simp only [List.append_assoc, List.take_append_drop]
    · intro hended
      simp [(hdrained hended).2] at hwriting
    · intro hfalse
      simp [hwriting] at hfalse
  case close =>
    obtain ⟨⟨-, hnil⟩, rfl⟩ := hs
    exact ⟨hwhole, fun hended => ⟨(hdrained hended).1, rfl⟩, fun _ _ => hnil⟩
  case kill =>
    obtain ⟨-, rfl⟩ := hs
    exact ⟨hwhole, fun hended => ⟨(hdrained hended).1, rfl⟩, fun _ hno => absurd (hm rfl) hno⟩
  case release =>
    obtain ⟨-, rfl⟩ := hs
    exact ⟨hwhole, hdrained, hcomplete⟩
  case read k =>
    obtain ⟨⟨hended, -⟩, rfl⟩ := hs
    refine ⟨?_, ?_, hcomplete⟩
    · show c.taken ++ c.buffer.take k ++ c.buffer.drop k ++ c.unsent = data
      rw [List.append_assoc c.taken, List.take_append_drop, hwhole]
    · intro htrue
      simp [hended] at htrue
  case finish =>
    obtain ⟨⟨-, hbuffer, hwriting, -⟩, rfl⟩ := hs
    exact ⟨hwhole, fun _ => ⟨hbuffer, hwriting⟩, hcomplete⟩

/-- **Every step makes progress.** -/
lemma load_step (hs : step cap chunk c m = some c') : c'.load < c.load := by
  cases m <;> simp only [step, Option.ite_none_right_eq_some, Option.some.injEq] at hs
  case write k =>
    obtain ⟨⟨-, hpos, hk, -⟩, rfl⟩ := hs
    simp only [load, List.length_drop, List.length_append, List.length_take]
    omega
  case close =>
    obtain ⟨⟨hwriting, -⟩, rfl⟩ := hs
    simp [load, hwriting]
  case kill =>
    obtain ⟨hwriting, rfl⟩ := hs
    simp [load, hwriting]
  case release =>
    obtain ⟨hheirs, rfl⟩ := hs
    simp only [load]
    omega
  case read k =>
    obtain ⟨⟨-, hpos, -, hk⟩, rfl⟩ := hs
    simp only [load, List.length_drop]
    omega
  case finish =>
    obtain ⟨⟨hended, -⟩, rfl⟩ := hs
    simp [load, hended]

/-- **Nobody waits for somebody who waits**: until the reader has seen the end there is a
step. -/
lemma exists_step (hcap : 0 < cap) (hchunk : 0 < chunk) (hended : c.ended = false) :
    ∃ m c', step cap chunk c m = some c' := by
  rcases hbuffer : c.buffer with _ | ⟨a, buffer⟩
  · cases hwriting : c.writing with
    | true =>
      rcases hunsent : c.unsent with _ | ⟨b, unsent⟩
      · exact ⟨.close, _, if_pos ⟨hwriting, hunsent⟩⟩
      · refine ⟨.write 1, _, if_pos ⟨hwriting, Nat.one_pos, ?_, ?_⟩⟩
        · simp [hunsent]
        · rw [hbuffer, List.length_nil]
          omega
    | false =>
      rcases Nat.eq_zero_or_pos c.heirs with hheirs | hheirs
      · exact ⟨.finish, _, if_pos ⟨hended, hbuffer, hwriting, hheirs⟩⟩
      · exact ⟨.release, _, if_pos hheirs⟩
  · refine ⟨.read 1, _, if_pos ⟨hended, Nat.one_pos, hchunk, ?_⟩⟩
    simp [hbuffer]

/-! ### Whole runs -/

lemma Sound.run {killed : Prop} {moves : List Move} (h : c.Sound data killed)
    (hr : run cap chunk c moves = some c') (hm : .kill ∈ moves → killed) :
    c'.Sound data killed := by
  induction moves generalizing c with
  | nil =>
    obtain rfl := Option.some.inj hr
    exact h
  | cons m moves ih =>
    obtain ⟨c₁, hs, hr⟩ := Option.bind_eq_some_iff.1 hr
    refine ih (h.step hs fun hkill => hm ?_) hr fun hkill => hm (List.mem_cons_of_mem m hkill)
    rw [hkill]
    exact List.mem_cons_self

lemma sound_start (data : List α) (heirs : ℕ) (killed : Prop) :
    (start data heirs).Sound data killed := by
  refine ⟨rfl, ?_, ?_⟩ <;>
  · intro hfalse
    cases hfalse

/-- A run that has ended leaves the reader with everything that the writer has not kept, and
only a writer that was killed has kept something. -/
theorem run_ended {moves : List Move} {heirs : ℕ}
    (hr : run cap chunk (start data heirs) moves = some c) (hended : c.ended = true) :
    c.taken ++ c.unsent = data ∧ (.kill ∉ moves → c.unsent = []) := by
  obtain ⟨hwhole, hdrained, hcomplete⟩ := (sound_start data heirs (.kill ∈ moves)).run hr id
  obtain ⟨hbuffer, hwriting⟩ := hdrained hended
  rw [hbuffer, List.append_nil] at hwhole
  exact ⟨hwhole, hcomplete hwriting⟩

lemma load_run {moves : List Move} (hr : run cap chunk c moves = some c') :
    c'.load + moves.length ≤ c.load := by
  induction moves generalizing c with
  | nil =>
    obtain rfl := Option.some.inj hr
    exact le_rfl
  | cons m moves ih =>
    obtain ⟨c₁, hs, hr⟩ := Option.bind_eq_some_iff.1 hr
    have hstep := load_step hs
    have hrest := ih hr
    rw [List.length_cons]
    omega

/-- **No run goes on for ever.** -/
theorem length_run_le {moves : List Move} {heirs : ℕ}
    (hr : run cap chunk (start data heirs) moves = some c) :
    moves.length ≤ 2 * data.length + heirs + 2 := by
  have hload := load_run hr
  simp only [start, load, List.length_nil, Bool.toNat_true, Bool.not_false] at hload
  omega

/-- **The reader can always get to the end.** -/
theorem exists_ended (hcap : 0 < cap) (hchunk : 0 < chunk) (c : Conduit α) :
    ∃ moves c', run cap chunk c moves = some c' ∧ c'.ended = true := by
  -- by induction on the steps that are left
  induction hn : c.load using Nat.strong_induction_on generalizing c with
  | _ n ih =>
    cases hended : c.ended with
    | true => exact ⟨[], c, rfl, hended⟩
    | false =>
      obtain ⟨m, c₁, hs⟩ := exists_step hcap hchunk hended
      obtain ⟨moves, c', hr, hend⟩ := ih c₁.load (hn ▸ load_step hs) c₁ rfl
      exact ⟨m :: moves, c', by rw [run, hs, Option.bind_some, hr], hend⟩

end Conduit

end Gcos.Lib
