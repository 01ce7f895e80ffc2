import Mathlib.Data.List.AList
import Mathlib.Data.List.TakeDrop
import Mathlib.Data.Finset.Card

/-!
# Regions and dictionaries

A region is a list of cells of a fixed length, of which slices are read and overwritten.  A
dictionary that says what lies where is counted by the entries that have a property.
-/

namespace Gcos.Lib

/-! ### Slices -/

namespace Region

variable {β : Type*}

/-- The assignment to a slice, which must be as long as the data. -/
def overwrite (region : List β) (a b : ℕ) (data : List β) : Option (List β) :=
  if data.length = (region.extract a b).length then
    some (region.take a ++ data ++ region.drop (a + data.length))
  else none

/-- **What is written inside the region** is there afterwards, and nothing before it has
changed. -/
lemma overwrite_of_room {region data : List β} {a : ℕ} (hroom : a + data.length ≤ region.length) :
    ∃ region', overwrite region a (a + data.length) data = some region' ∧
      region'.length = region.length ∧ region'.extract a (a + data.length) = data ∧
      ∀ i j, j ≤ a → region'.extract i j = region.extract i j := by
  have hlen : data.length = (region.extract a (a + data.length)).length := by
    rw [List.extract_eq_take_drop, List.length_take, List.length_drop]
    omega
  have hstart : (region.take a).length = a := List.length_take_of_le (by omega)
  refine ⟨_, if_pos hlen, ?_, ?_, fun i j hj => ?_⟩
  · rw [List.length_append, List.length_append, hstart, List.length_drop]
    omega
  · rw [List.extract_eq_take_drop, List.append_assoc, List.drop_left' hstart, Nat.add_sub_cancel_left,
      List.take_left' rfl]
  · rw [List.extract_eq_drop_take', List.extract_eq_drop_take', List.append_assoc,
      List.take_append_of_le_length (by omega), List.take_take, min_eq_left hj]

end Region

/-! ### Counting the entries of a dictionary -/

namespace Dict

variable {K V : Type*} [DecidableEq K] {d : AList fun _ : K => V} {k : K} {v : V}

/-- What holds of the new entry and of the old ones under other keys holds after an
insertion. -/
lemma forall_insert {P : K → V → Prop} (hnew : P k v)
    (hold : ∀ k' ≠ k, ∀ w ∈ d.lookup k', P k' w) (k' : K) :
    ∀ w ∈ (d.insert k v).lookup k', P k' w := by
  intro w hw
  by_cases hk : k' = k
  · subst hk
    rw [AList.lookup_insert] at hw
    cases hw
    exact hnew
  · rw [AList.lookup_insert_ne hk] at hw
    exact hold k' hk w hw

/-- The number of entries with a property. -/
def count (p : V → Bool) (d : AList fun _ : K => V) : ℕ := d.entries.countP fun e => p e.2

/-- An insertion counts the new entry and no longer counts the one that it replaces. -/
lemma count_insert (p : V → Bool) (d : AList fun _ : K => V) (k : K) (v : V) :
    count p (d.insert k v) + ((d.lookup k).elim 0 fun w => if p w then 1 else 0) =
      count p d + if p v then 1 else 0 := by
  have hnew : count p (d.insert k v) =
      (d.entries.kerase k).countP (fun e => p e.2) + if p v then 1 else 0 := by
    rw [count, AList.entries_insert, List.countP_cons]
  by_cases hk : k ∈ d
  · obtain ⟨w, l₁, l₂, hk₁, hsplit, herase⟩ := List.exists_of_kerase (AList.mem_keys.1 hk)
    have hlookup : d.lookup k = some w := by
      rw [AList.lookup, hsplit, List.dlookup_append, List.dlookup_eq_none.2 hk₁, List.dlookup_cons_eq]
      rfl
    have hold : count p d = (d.entries.kerase k).countP (fun e => p e.2) + if p w then 1 else 0 := by
      rw [count, herase, hsplit, List.countP_append, List.countP_append, List.countP_cons,
        Nat.add_assoc]
    rw [hnew, hlookup, hold, Option.elim_some]
    omega
  · have hsame : d.entries.kerase k = d.entries := List.kerase_of_notMem_keys fun h => hk h
    rw [hnew, hsame, AList.lookup_eq_none.2 hk]
    rfl

/-- The keys with a property are as many as the entries. -/
lemma exists_keys (p : V → Bool) (d : AList fun _ : K => V) :
    ∃ keys : Finset K, keys.card = count p d ∧ ∀ k, k ∈ keys ↔ ∃ v ∈ d.lookup k, p v = true := by
  have hnodup : ((d.entries.filter fun e => p e.2).map Sigma.fst).Nodup :=
    d.keys_nodup.sublist (List.filter_sublist.map _)
  refine ⟨(d.entries.filter fun e => p e.2).map Sigma.fst |>.toFinset, ?_, fun k => ?_⟩
  · rw [List.toFinset_card_of_nodup hnodup, List.length_map, count, List.countP_eq_length_filter]
  · simp only [List.mem_toFinset, List.mem_map, List.mem_filter]
    constructor
    · rintro ⟨⟨k', v⟩, ⟨hmem, hp⟩, rfl⟩
      exact ⟨v, AList.mem_lookup_iff.2 hmem, hp⟩
    · rintro ⟨v, hv, hp⟩
      exact ⟨⟨k, v⟩, ⟨AList.mem_lookup_iff.1 hv, hp⟩, rfl⟩

end Dict

end Gcos.Lib
