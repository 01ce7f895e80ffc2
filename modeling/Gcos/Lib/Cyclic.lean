import Mathlib.Data.List.Basic
import Mathlib.Data.Nat.Digits.Defs
import Mathlib.Data.UInt
import Mathlib.Tactic.Common

/-!
# Cyclic stores and little-endian words

A cyclic store of capacity `cap` keeps the cell with the absolute address `i` at the
place `i % cap`.  Reading and writing a run of consecutive absolute addresses
(`window`, `blit`) behave like reading and writing a piece of an infinite tape, as
long as no run is longer than the capacity; that is the content of the lemmas below.
-/

namespace Gcos.Lib

variable {β : Type}

/-- The contents of the absolute addresses `start, …, start + len - 1`. -/
def window (cap : ℕ) (cells : ℕ → β) (start len : ℕ) : List β :=
  (List.range len).map fun i => cells ((start + i) % cap)

/-- Write `bytes` to the absolute addresses from `start` on, one cell after the other. -/
def blit (cap : ℕ) (cells : ℕ → β) (start : ℕ) : List β → ℕ → β
  | [] => cells
  | b :: bs => blit cap (Function.update cells (start % cap) b) (start + 1) bs

variable {cap : ℕ} {cells : ℕ → β}

@[simp] lemma length_window (start len : ℕ) : (window cap cells start len).length = len := by
  simp [window]

@[simp] lemma window_zero (start : ℕ) : window cap cells start 0 = [] := rfl

/-- A window splits into two consecutive windows. -/
lemma window_add (start a b : ℕ) :
    window cap cells start (a + b) =
      window cap cells start a ++ window cap cells (start + a) b := by
  simp only [window, List.range_add, List.map_append, List.map_map]
  congr 1
  refine List.map_congr_left fun i _ => ?_
  simp [Nat.add_assoc]

/-- Distinct absolute addresses less than a capacity apart are distinct places. -/
lemma mod_ne_of_lt {i j : ℕ} (hij : i < j) (hcap : j < i + cap) : i % cap ≠ j % cap := by
  intro h
  have hdvd : cap ∣ j - i := (Nat.modEq_iff_dvd' hij.le).1 h
  have := Nat.le_of_dvd (by omega) hdvd
  omega

/-- A cell outside the written run keeps its content. -/
lemma blit_apply_of_ne {start : ℕ} {bs : List β} {x : ℕ}
    (h : ∀ i < bs.length, (start + i) % cap ≠ x) : blit cap cells start bs x = cells x := by
  induction bs generalizing cells start with
  | nil => rfl
  | cons b bs ih =>
    have h0 : start % cap ≠ x := by simpa using h 0 (by simp)
    rw [blit, ih, Function.update_of_ne h0.symm]
    intro i hi
    have := h (i + 1) (by simpa using hi)
    rwa [show start + 1 + i = start + (i + 1) by omega]

/-- Windows that end before the written run, and begin less than a capacity before its
end, are not affected by it. -/
lemma window_blit_of_before {start len at' : ℕ} {bs : List β} (hbefore : start + len ≤ at')
    (hroom : at' + bs.length ≤ start + cap) :
    window cap (blit cap cells at' bs) start len = window cap cells start len := by
  refine List.map_congr_left fun i hi => blit_apply_of_ne fun j hj => ?_
  rw [List.mem_range] at hi
  exact (mod_ne_of_lt (by omega) (by omega)).symm

/-- What was written is read back. -/
lemma window_blit_self {start : ℕ} {bs : List β} (hroom : bs.length ≤ cap) :
    window cap (blit cap cells start bs) start bs.length = bs := by
  induction bs generalizing cells start with
  | nil => rfl
  | cons b bs ih =>
    rw [List.length_cons] at hroom
    rw [List.length_cons, Nat.add_comm bs.length 1, window_add, blit]
    have htail : window cap (blit cap (Function.update cells (start % cap) b) (start + 1) bs)
        (start + 1) bs.length = bs := ih (by omega)
    rw [htail]
    -- the rest of the run does not come round to the first cell
    have hhead : blit cap (Function.update cells (start % cap) b) (start + 1) bs (start % cap)
        = b := by
      rw [blit_apply_of_ne, Function.update_self]
      intro i hi
      exact (mod_ne_of_lt (by omega) (by omega)).symm
    simp [window, hhead]

/-! ### Little-endian words -/

/-- The four little-endian bytes of a number below `2 ^ 32`; larger numbers have none. -/
def packU32 (n : ℕ) : Option (List UInt8) :=
  if n < 2 ^ 32 then
    some [UInt8.ofNat n, UInt8.ofNat (n / 256), UInt8.ofNat (n / 256 ^ 2),
      UInt8.ofNat (n / 256 ^ 3)]
  else none

/-- The number with the given little-endian bytes. -/
def unpackU32 (bs : List UInt8) : ℕ := Nat.ofDigits 256 (bs.map UInt8.toNat)

lemma exists_packU32 {n : ℕ} (h : n < 2 ^ 32) : ∃ bs, packU32 n = some bs := by
  rw [packU32, if_pos h]
  exact ⟨_, rfl⟩

lemma length_packU32 {n : ℕ} {bs : List UInt8} (h : packU32 n = some bs) : bs.length = 4 := by
  unfold packU32 at h
  split_ifs at h
  cases h
  rfl

lemma unpackU32_packU32 {n : ℕ} {bs : List UInt8} (h : packU32 n = some bs) :
    unpackU32 bs = n := by
  unfold packU32 at h
  split_ifs at h with hn
  cases h
  simp only [unpackU32, List.map_cons, List.map_nil, UInt8.toNat_ofNat', Nat.ofDigits_cons,
    Nat.ofDigits_nil, Nat.reducePow]
  omega

end Gcos.Lib
