import Gcos.Process.Fleet
import Gcos.Exec.Course
import Gcos.Kernel.Effects
import Mathlib.Tactic.Linarith

/-!
# The calls of a child

A child makes a call of its agent only while the agent has a unit left, and counts every
call that returns before it makes the next one.  So at any moment the calls that have
returned are those that were counted and at most one more, and they are never more than the
units that the agent was given.

The policies of the pager may make summarize calls in between; these are no calls of the
agent, and nothing here is said about them.
-/

namespace Gcos.Process

open Lib Exec Memory World

variable {n : ℕ} {cfg : KernelConfig} {out : Outside} {t : Tid n} {p : Pid} {β : Type}
  {o : KOp β} {w : World n}

/-! ### The discipline -/

/-- How far a child has come with a call of its agent. -/
inductive Meter
  /-- The agent may have no units left. -/
  | shut
  /-- The agent was seen with a unit left. -/
  | able
  /-- A call has returned and is to be counted. -/
  | owing
deriving DecidableEq, Repr

namespace Meter

/-- What the child knows after it has read the block of its agent. -/
def read (b : AgentControlBlock) : Meter → Meter
  | shut => if 0 < b.quotaRemaining then .able else shut
  | m => m

/-- Which operation may be performed when. -/
def allows (p : Pid) : {β : Type} → KOp β → Meter → Prop
  | _, .readPcb q _, _ => q = p
  | _, .write q c, m => q = p ∧ (c.countsCall = true → m = owing)
  | _, .chat .step _, m => m = .able
  | _, .chat (.summarize _) _, _ | _, .now, _ | _, .acquire, _ | _, .refund, _
  | _, .swapOut _ _, _ | _, .runPython _ _ _, _ => True
  | _, _, _ => False

/-- What the child knows after the answer. -/
def learns : {β : Type} → KOp β → Meter → β → Meter → Prop
  | _, .readPcb _ _, m, b, m' => m' = m.read b
  | _, .write _ c, m, _, m' => m' = if c.countsCall then shut else m
  | _, .chat .step _, m, answer, m' =>
    match answer with
    | .ok _ => m' = owing
    | .error _ => m' = m
  | _, _, m, _, m' => m' = m

end Meter

/-- The discipline of a child with the agent `p`. -/
def metering (p : Pid) : Discipline KOp Meter where
  pre o m := Meter.allows p o m
  post o m b m' := Meter.learns o m b m'

/-! ### One step -/

section

variable {α : Type} {m : Meter} {Q : α → Meter → Prop}

/-- What a child knows at a point of a step. -/
def Meter.At (st : Point) (m : Meter) : Prop :=
  match st with
  | .live true | .lent => m = able
  | .replied => m = owing
  | .start | .live false | .failing | .counted | .met | .drafted | .ended _ => m ≠ owing

lemma Meter.At.read {st : Point} (hm : m.At st) (b : AgentControlBlock) : (m.read b).At st := by
  cases m with
  | able | owing => exact hm
  | shut =>
    simp only [Meter.read]
    split
    · cases st with
      | live able =>
        cases able with
        | false => exact nofun
        | true => cases hm
      | lent | replied => cases hm
      | _ => exact nofun
    · exact hm

lemma Meter.At.ne_owing {st : Point} (hm : m.At st) (hst : st ≠ .replied) : m ≠ .owing := by
  cases st with
  | live able =>
    cases able with
    | false => exact hm
    | true =>
      obtain rfl : m = .able := hm
      exact nofun
  | lent =>
    obtain rfl : m = .able := hm
    exact nofun
  | replied => exact absurd rfl hst
  | _ => exact hm

/-- Who sees a unit may call. -/
lemma Meter.read_of_pos {b : AgentControlBlock} (hm : m ≠ .owing) (hunits : 0 < b.quotaRemaining) :
    m.read b = .able := by
  cases m with
  | shut => exact if_pos hunits
  | able => rfl
  | owing => exact absurd rfl hm

/-- A write in the course of a step. -/
lemma Meter.At.write {st : Point} {c : Write} (hm : m.At st) (hc : st.allowsWrite c) :
    (c.countsCall = true → m = .owing) ∧
      (if c.countsCall then Meter.shut else m).At (st.write c) := by
  cases c with
  | countCall tokens =>
    obtain rfl : st = .replied := hc
    exact ⟨fun _ => hm, nofun⟩
  | transition st' =>
    refine ⟨nofun, ?_⟩
    cases st with
    | live able =>
      rcases hc with rfl | rfl | rfl
      · exact hm
      · exact hm.ne_owing nofun
      · exact hm.ne_owing nofun
    | drafted => exact hm.ne_owing nofun
    | _ => cases hc.1
  | error msg =>
    rcases hc with rfl | rfl | rfl <;> exact ⟨nofun, hm.ne_owing nofun⟩
  | result text =>
    rcases hc with rfl | rfl <;> exact ⟨nofun, hm.ne_owing nofun⟩
  | prompt text | waitingSince since | addChild child => cases hc.1
  | _ => obtain ⟨-, rfl | rfl | rfl⟩ := hc <;> exact ⟨nofun, hm⟩

/-- Every operation of a step, at any point of its course. -/
lemma meters_course {β : Type} (o : KOp β) (st : Point) (m : Meter) (hm : m.At st)
    (ho : st.allows p true True o) : (metering p).pre o m ∧ ∀ b m', (metering p).post o m b m' →
      ∃ st', (course p true True).post o st b st' ∧ m'.At st' := by
  cases o with
  | readPcb q look =>
    cases look with
    | fields =>
      refine ⟨ho, ?_⟩
      rintro b _ rfl
      exact ⟨st, rfl, hm.read b⟩
    | terminal =>
      obtain ⟨rfl, rfl⟩ := ho
      refine ⟨rfl, ?_⟩
      rintro b _ rfl
      refine ⟨_, rfl, ?_⟩
      have howing : m.read b ≠ .owing := hm.read b
      simp only [Point.after]
      split
      · exact howing
      · by_cases hunits : 0 < b.quotaRemaining
        · rw [decide_eq_true hunits]
          exact Meter.read_of_pos hm hunits
        · rw [decide_eq_false hunits]
          exact howing
    | zombie =>
      obtain ⟨rfl, rfl⟩ := ho
      refine ⟨rfl, ?_⟩
      rintro b _ rfl
      refine ⟨_, rfl, ?_⟩
      have howing : m.read b ≠ .owing := hm.read b
      simp only [Point.after]
      split <;> exact howing
  | write q c =>
    obtain ⟨rfl, hc⟩ := ho
    obtain ⟨howing, hm'⟩ := hm.write hc
    refine ⟨⟨rfl, howing⟩, ?_⟩
    rintro b _ rfl
    exact ⟨_, rfl, hm'⟩
  | chat purpose request =>
    cases purpose with
    | step =>
      obtain rfl : st = .live true := ho
      refine ⟨hm, ?_⟩
      rintro (e | r) m' hm'
      · exact ⟨_, rfl, hm'.trans hm⟩
      · exact ⟨_, rfl, hm'⟩
    | summarize metered =>
      refine ⟨trivial, ?_⟩
      rintro answer _ rfl
      refine ⟨_, rfl, ?_⟩
      cases metered with
      | false => exact hm
      | true =>
        obtain rfl : st = .lent := ho
        cases answer <;> exact hm
  | acquire =>
    obtain rfl : st = .live true := ho
    refine ⟨trivial, ?_⟩
    rintro (_ | _) _ rfl <;> exact ⟨_, rfl, hm⟩
  | refund =>
    obtain rfl : st = .lent := ho
    refine ⟨trivial, ?_⟩
    rintro b _ rfl
    exact ⟨_, rfl, hm⟩
  | now | swapOut q pages | runPython code timeout priority =>
    refine ⟨trivial, ?_⟩
    rintro b _ rfl
    exact ⟨_, rfl, hm⟩
  | _ => exact ho.elim

/-- **One step** counts what it calls. -/
lemma meters_runStep (hm : m ≠ .owing) :
    (runStep cfg p).Obeys (metering p) m fun _ m' => m' ≠ .owing := by
  have hstep : (runStep cfg p).Obeys (course p true True) .start Point.Ends :=
    course_runStep fun _ _ _ => trivial
  refine (hstep.simulate meters_course hm).mono ?_
  rintro answer m' ⟨st, hends, hm'⟩
  rcases answer with e | _ | _
  · rcases hends with rfl | rfl
    · rw [show m' = .able from hm']
      exact nofun
    · exact hm'
  · obtain ⟨called, rfl⟩ := hends
    exact hm'
  · obtain rfl : st = .met := hends
    exact hm'

/-- Reading the block. -/
lemma meters_read {look : Look} (hm : m ≠ .owing) {k : AgentControlBlock → Prog KOp α}
    (hk : ∀ pcb m', m' ≠ .owing → (k pcb).Obeys (metering p) m' Q) :
    (Prog.perform (.readPcb p look) >>= k).Obeys (metering p) m Q := by
  refine Prog.Obeys.step rfl ?_
  rintro pcb _ rfl
  have hstart : m.At .start := hm
  exact hk pcb _ (hstart.read pcb)

/-- **The loop of a child** counts what it calls. -/
lemma meters_childLoop (safety : ℕ) (hm : m ≠ .owing) :
    (childLoop cfg p safety).Obeys (metering p) m fun _ m' => m' ≠ .owing := by
  induction safety generalizing m with
  | zero => exact hm
  | succ safety ih =>
    refine meters_read hm fun pcb m hm => ?_
    split
    · exact hm
    · refine (meters_runStep hm).bind _ fun answer m hm => ?_
      rcases answer with e | _ | _
      · exact hm
      · exact hm
      · exact ih hm

end

/-! ### What the discipline guarantees -/

/-- The agent `p` was given `units` units when it had made `calls` calls, and `replies` calls
had returned then. -/
structure Metered (p : Pid) (units calls : ℤ) (replies : ℕ) (w : World n) (m : Meter) : Prop where
  replies : (w.replies : ℤ) =
    replies + ((w.pcbs p).llmCallsUsed - calls) + if m = .owing then 1 else 0
  units : (w.pcbs p).quotaRemaining + ((w.pcbs p).llmCallsUsed - calls) = units
  left : (if m = .shut then 0 else 1) ≤ (w.pcbs p).quotaRemaining
  counted : calls ≤ (w.pcbs p).llmCallsUsed

namespace Metered

variable {units calls : ℤ} {replies : ℕ} {m : Meter}

/-- The calls that have returned are covered by the units. -/
lemma replies_le (h : Metered p units calls replies w m) : (w.replies : ℤ) ≤ replies + units := by
  have hreplies := h.replies
  have hunits := h.units
  have hleft := h.left
  cases m with
  | shut | able | owing =>
    simp only [reduceCtorEq, if_true, if_false] at hreplies hleft
    omega

/-- When nothing is owed, the calls that have returned were counted. -/
lemma replies_eq (h : Metered p units calls replies w m) (hm : m ≠ .owing) :
    (w.replies : ℤ) = replies + ((w.pcbs p).llmCallsUsed - calls) := by
  rw [h.replies, if_neg hm, add_zero]

/-- A world with the same calls and units. -/
lemma of_eq (h : Metered p units calls replies w m) {w' : World n} (hreplies : w'.replies = w.replies)
    (hcalls : (w'.pcbs p).llmCallsUsed = (w.pcbs p).llmCallsUsed)
    (hunits : (w'.pcbs p).quotaRemaining = (w.pcbs p).quotaRemaining) :
    Metered p units calls replies w' m := by
  constructor
  · rw [hreplies, hcalls]
    exact h.replies
  · rw [hunits, hcalls]
    exact h.units
  · rw [hunits]
    exact h.left
  · rw [hcalls]
    exact h.counted

lemma read (h : Metered p units calls replies w m) :
    Metered p units calls replies w (m.read (w.pcbs p)) := by
  cases m with
  | able | owing => exact h
  | shut =>
    by_cases hunits : 0 < (w.pcbs p).quotaRemaining
    · simp only [Meter.read, if_pos hunits]
      exact ⟨h.replies, h.units, hunits, h.counted⟩
    · simp only [Meter.read, if_neg hunits]
      exact h

/-- A write that counts no call leaves the units alone. -/
lemma write (h : Metered p units calls replies w m) {c : Write} (hc : c.countsCall = false) :
    Metered p units calls replies (World.exec cfg out t (.write p c) w).2 m := by
  have hpcbs := (exec_write cfg out t w p c).1
  refine h.of_eq ?_ ?_ ?_
  · cases c <;> rfl
  · rw [hpcbs, Function.update_self, Write.llmCallsUsed_apply, hc]
    simp
  · rw [hpcbs, Function.update_self]
    cases c with
    | countCall tokens => cases hc
    | transition st => rw [Write.apply, AgentControlBlock.transition_frame]
    | _ => rfl

/-- Counting a call spends a unit. -/
lemma count (h : Metered p units calls replies w .owing) (tokens : ℤ) :
    Metered p units calls replies (World.exec cfg out t (.write p (.countCall tokens)) w).2
      .shut := by
  have hreplies := h.replies
  have hunits := h.units
  have hleft := h.left
  have hcounted := h.counted
  constructor
  · simp [World.exec, World.note, Write.apply] at hreplies ⊢
    omega
  · simp [World.exec, World.note, Write.apply]
    omega
  · simp [World.exec, World.note, Write.apply] at hleft ⊢
    omega
  · simp [World.exec, World.note, Write.apply]
    omega

/-- A call of the agent that returns is owed. -/
lemma chat (h : Metered p units calls replies w .able) (request : ChatRequest) {m' : Meter}
    (hlearn : Meter.able.learns (.chat .step request)
      (World.exec cfg out t (.chat .step request) w).1 m') :
    Metered p units calls replies (World.exec cfg out t (.chat .step request) w).2 m' := by
  have hreplies := h.replies
  cases hanswer : out.chat w.chats with
  | error e =>
    simp only [World.exec, hanswer] at hlearn ⊢
    obtain rfl : m' = .able := hlearn
    exact h.of_eq rfl rfl rfl
  | ok r =>
    simp only [World.exec, hanswer] at hlearn ⊢
    obtain rfl : m' = .owing := hlearn
    refine ⟨?_, h.units, h.left, h.counted⟩
    simp [World.note] at hreplies ⊢
    omega

/-- **One operation.** -/
lemma step (h : Metered p units calls replies w m) (hpre : m.allows p o) {m' : Meter}
    (hlearn : m.learns o (World.exec cfg out t o w).1 m') :
    Metered p units calls replies (World.exec cfg out t o w).2 m' := by
  cases o with
  | readPcb q _ =>
    obtain rfl : q = p := hpre
    obtain rfl : m' = m.read (w.pcbs q) := hlearn
    exact h.read
  | write q c =>
    obtain ⟨rfl, howing⟩ := hpre
    obtain rfl : m' = if c.countsCall then .shut else m := hlearn
    cases hc : c.countsCall with
    | false => exact h.write hc
    | true =>
      obtain rfl := howing hc
      cases c with
      | countCall tokens => exact h.count tokens
      | _ => cases hc
  | chat purpose request =>
    cases purpose with
    | step =>
      obtain rfl : m = .able := hpre
      exact h.chat request hlearn
    | summarize metered =>
      obtain rfl : m' = m := hlearn
      refine h.of_eq ?_ ?_ ?_
      · simp only [World.exec]
        split <;> first | rfl | contradiction
      · rw [pcbs_exec rfl]
      · rw [pcbs_exec rfl]
  | acquire | swapOut q pages =>
    obtain rfl : m' = m := hlearn
    refine h.of_eq ?_ ?_ ?_
    · simp only [World.exec]
      split <;> rfl
    · rw [pcbs_exec rfl]
    · rw [pcbs_exec rfl]
  | now | refund | runPython code timeout priority =>
    obtain rfl : m' = m := hlearn
    exact h.of_eq rfl rfl rfl
  | _ => exact hpre.elim

end Metered

/-! ### The calls of a child process -/

namespace ChildProc

variable (kid : Offspring) (c : ChildProc n)

/-- The units that the agent had at the fork. -/
def units : ℤ := (c.memory.pcbs c.agent).quotaRemaining

/-- The calls that the agent had made at the fork. -/
def callsBefore : ℤ := (c.memory.pcbs c.agent).llmCallsUsed

variable {c}

lemma metered_progress (cfg : KernelConfig) (kid : Offspring) (hunits : 0 ≤ c.units) :
    ∃ m, (c.progress cfg kid).1.Obeys (metering c.agent) m (fun _ m' => m' ≠ .owing) ∧
      Metered c.agent c.units c.callsBefore c.memory.replies (c.progress cfg kid).2 m := by
  have hstart : Metered c.agent c.units c.callsBefore c.memory.replies (forked c.memory) .shut := by
    constructor
    · simp [forked, callsBefore]
    · simp [forked, callsBefore, units]
    · simpa [forked, units] using hunits
    · simp [forked, callsBefore]
  refine (meters_childLoop childStepCap (by simp)).advance ?_ hstart c.ops
  intro β o w m hI hpre
  have hlearn : ∃ m', m.learns o (World.exec cfg kid.outside c.worker o w).1 m' := by
    cases o with
    | chat purpose request =>
      cases purpose with
      | summarize metered => exact ⟨m, rfl⟩
      | step =>
        cases hanswer : (World.exec cfg kid.outside c.worker (.chat .step request) w).1 with
        | error e => exact ⟨m, rfl⟩
        | ok r => exact ⟨.owing, rfl⟩
    | _ => exact ⟨_, rfl⟩
  obtain ⟨m', hlearn⟩ := hlearn
  exact ⟨m', hlearn, hI.step hpre hlearn⟩

/-- The calls of the agent that have returned never exceed its units. -/
lemma replies_le_units (hunits : 0 ≤ c.units) : (c.replies cfg kid : ℤ) ≤ c.units := by
  obtain ⟨m, -, hmetered⟩ := metered_progress cfg kid hunits
  have hle := hmetered.replies_le
  unfold replies
  omega

/-- Who has left the loop has counted its calls. -/
lemma replies_of_returned (hunits : 0 ≤ c.units) {a : Except Exn Unit}
    (hret : (c.progress cfg kid).1 = .ret a) :
    (c.replies cfg kid : ℤ) ≤
      ((c.progress cfg kid).2.pcbs c.agent).llmCallsUsed - c.callsBefore := by
  obtain ⟨m, hobeys, hmetered⟩ := metered_progress cfg kid hunits
  rw [hret] at hobeys
  have heq := hmetered.replies_eq hobeys
  have hcounted := hmetered.counted
  unfold replies
  omega

end ChildProc

end Gcos.Process
