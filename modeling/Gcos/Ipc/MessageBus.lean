import Gcos.Kernel.Pcb
import Gcos.Lib.Text
import Mathlib.Data.List.Lookmap

/-!
# The message bus

`gcos/ipc/message_bus.py`: one bounded mailbox per pid, created on first use.  A worker
that has looked up a mailbox keeps a reference to it, so a mailbox that is dropped from
the dictionary meanwhile still exists; the boxes therefore have identities of their own.
-/

namespace Gcos

open Lib

/-- The payload built by `make_result`; its `kind` is always `"result"`. -/
structure Message where
  fromPid : Pid
  content : String
  ts : Time
deriving DecidableEq, Repr

/-- The identity of a mailbox. -/
abbrev BoxId := ℕ

/-- `MessageBus`. -/
structure MessageBus where
  cap : ℕ := 64
  mailboxes : List (Pid × BoxId) := []
  boxes : BoxId → List Message := fun _ => []
  nextBox : BoxId := 0

namespace MessageBus

/-- `MessageBus._mailbox`. -/
def mailbox (pid : Pid) (bus : MessageBus) : BoxId × MessageBus :=
  match bus.mailboxes.lookup pid with
  | some box => (box, bus)
  | none =>
    (bus.nextBox,
      { bus with
        mailboxes := bus.mailboxes ++ [(pid, bus.nextBox)]
        boxes := Function.update bus.boxes bus.nextBox []
        nextBox := bus.nextBox + 1 })

/-- `Queue.get` with a timeout: `none` when the box is still empty at the end. -/
def get (box : BoxId) (bus : MessageBus) : Option Message × MessageBus :=
  match bus.boxes box with
  | [] => (none, bus)
  | m :: rest => (some m, { bus with boxes := Function.update bus.boxes box rest })

/-- `Queue.put_nowait`: `false` when the box is full. -/
def putNowait (box : BoxId) (m : Message) (bus : MessageBus) : Bool × MessageBus :=
  if 0 < bus.cap ∧ bus.cap ≤ (bus.boxes box).length then (false, bus)
  else (true, { bus with boxes := Function.update bus.boxes box (bus.boxes box ++ [m]) })

/-- `MessageBus.drop_mailbox`. -/
def dropMailbox (pid : Pid) (bus : MessageBus) : MessageBus :=
  { bus with mailboxes := bus.mailboxes.filter (·.1 ≠ pid) }

/-- The keys of `MessageBus.snapshot`. -/
def pids (bus : MessageBus) : List Pid := bus.mailboxes.map (·.1)

/-- A mailbox is found, or made when there is none. -/
lemma mailbox_cases (pid : Pid) (bus : MessageBus) :
    (∃ box, (pid, box) ∈ bus.mailboxes ∧ bus.mailbox pid = (box, bus)) ∨
      pid ∉ bus.pids ∧ bus.mailbox pid = (bus.nextBox,
        { bus with
          mailboxes := bus.mailboxes ++ [(pid, bus.nextBox)]
          boxes := Function.update bus.boxes bus.nextBox []
          nextBox := bus.nextBox + 1 }) := by
  cases hlook : bus.mailboxes.lookup pid with
  | some box =>
    obtain ⟨l₁, l₂, hmem, -⟩ := List.lookup_eq_some_iff.1 hlook
    exact .inl ⟨box, by simp [hmem], by simp only [mailbox, hlook]⟩
  | none =>
    refine .inr ⟨fun hmem => ?_, by simp only [mailbox, hlook]⟩
    obtain ⟨x, hx, rfl⟩ := List.mem_map.1 hmem
    simpa using List.lookup_eq_none_iff.1 hlook x hx

/-! ### What is in a mailbox -/

section

variable {bus : MessageBus} {box b : BoxId} {m msg : Message}

lemma get_frame (box : BoxId) (bus : MessageBus) :
    (bus.get box).2.mailboxes = bus.mailboxes ∧ (bus.get box).2.nextBox = bus.nextBox := by
  simp only [get]
  split <;> exact ⟨rfl, rfl⟩

/-- What is taken was in the mailbox. -/
lemma mem_of_get (h : (bus.get box).1 = some msg) : msg ∈ bus.boxes box := by
  simp only [get] at h
  split at h
  · cases h
  · next first rest hbox =>
    cases h
    rw [hbox]
    exact List.mem_cons_self

/-- What is left was there before. -/
lemma mem_of_mem_get (h : msg ∈ (bus.get box).2.boxes b) : msg ∈ bus.boxes b := by
  simp only [get] at h
  split at h
  · exact h
  · next first rest hbox =>
    by_cases hb : b = box
    · subst hb
      simp only [Function.update_self] at h
      rw [hbox]
      exact List.mem_cons_of_mem _ h
    · simpa only [Function.update_of_ne hb] using h

lemma putNowait_frame (box : BoxId) (m : Message) (bus : MessageBus) :
    (bus.putNowait box m).2.mailboxes = bus.mailboxes ∧
      (bus.putNowait box m).2.nextBox = bus.nextBox := by
  simp only [putNowait]
  split <;> exact ⟨rfl, rfl⟩

/-- What is in a mailbox after a send was there before, or it is what was sent. -/
lemma mem_of_mem_putNowait (h : msg ∈ (bus.putNowait box m).2.boxes b) :
    msg ∈ bus.boxes b ∨ b = box ∧ msg = m := by
  simp only [putNowait] at h
  split at h
  · exact .inl h
  · by_cases hb : b = box
    · subst hb
      simp only [Function.update_self] at h
      rcases List.mem_append.1 h with h | h
      · exact .inl h
      · exact .inr ⟨rfl, List.mem_singleton.1 h⟩
    · simp only [Function.update_of_ne hb] at h
      exact .inl h

end

end MessageBus

/-- The placeholder of the upstream result in a prompt. -/
def inputPlaceholder : String := "\x7bINPUT\x7d"

/-- Whether a prompt has a placeholder. -/
def needsInput (prompt : String) : Bool :=
  Text.contains inputPlaceholder.toList prompt.toList

/-- `resolve_input_placeholder`. -/
def resolveInputPlaceholder (prompt : String) (m : Message) : String :=
  if needsInput prompt then Text.replace inputPlaceholder m.content prompt else prompt

end Gcos
