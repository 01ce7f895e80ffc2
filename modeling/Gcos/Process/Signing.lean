import Gcos.Process.Fleet
import Gcos.Exec.Course

/-!
# How an agent is finalized

To finalize an agent is to assign its `error` or its `result` and to move it to a terminal
state, in either order: `failWith`, `kill` and `reap_descendants` make the transition first
and record the text afterwards, the steps that end an agent and `_apply_result` record the
texts first.  These assignments are the *strokes*.  Before its strokes a thread *tests*
whether the agent has ended: with `is_terminal()` when it begins with the agent, and after a
call by a look for `ZOMBIE`.

The discipline here says of every thread of both backends that it makes strokes only on an
agent that it has found live: a test that shows that the agent has ended, and the last
stroke on it, are followed by no stroke before the agent is tested again and found live.  The
strokes on one agent are made together, with no test between the transition and the text
that comes after it.
-/

namespace Gcos.Process

open Lib Exec Pool Memory

/-- The assignments with which an agent is finalized. -/
inductive Stroke
  | error
  | result
  /-- A transition to a terminal state. -/
  | finish
  /-- The assignment of the state in `_apply_result`. -/
  | state (st : AgentState)
deriving DecidableEq, Repr

/-- The stroke of a write. -/
def writeStroke : Write → Option Stroke
  | .error _ => some .error
  | .result _ => some .result
  | .transition st => if st.isTerminal then some .finish else none
  | _ => none

/-- The stroke of an operation of the kernel. -/
def kernelStroke : {β : Type} → KOp β → Option (Pid × Stroke)
  | _, .write p c => (writeStroke c).map fun s => (p, s)
  | _, _ => none

/-- The stroke of an operation. -/
def stroke : {β : Type} → FOp β → Option (Pid × Stroke)
  | _, .inl (.inl o) => kernelStroke o
  | _, .inl (.inr (.assign p (.state st))) => some (p, .state st)
  | _, _ => none

/-- What a look at a block tells about its end, if it asks for it.  A look for `ZOMBIE` that
finds none does not tell whether the agent has ended otherwise. -/
def verdict (look : Look) (pcb : AgentControlBlock) : Option Bool :=
  match look with
  | .fields => none
  | .terminal => some pcb.isTerminal
  | .zombie => if pcb.state = .zombie then some true else none

/-- The operation tests whether an agent has ended. -/
def tests : {β : Type} → FOp β → Bool
  | _, .inl (.inl (.readPcb _ look)) => look ≠ .fields
  | _, _ => false

/-- What a test tells: the agent, and whether it has ended. -/
def shown : {β : Type} → FOp β → β → Option (Pid × Bool)
  | _, .inl (.inl (.readPcb p look)), pcb => (verdict look pcb).map fun ended => (p, ended)
  | _, _, _ => none

/-- The agent that an operation puts into the ready queue or into the process table. -/
def enters : {β : Type} → FOp β → Option Pid
  | _, .inl (.inl (.put p)) => some p
  | _, .inl (.inl (.tableAdd p)) => some p
  | _, _ => none

/-- The operation is no stroke and no test, and enters no agent. -/
def mute {β : Type} (o : FOp β) : Bool := (stroke o).isNone && (enters o).isNone && !tests o

/-- The agents that the answer to an operation shows to exist. -/
def found : {β : Type} → FOp β → β → List Pid
  | _, .inl (.inl .pickNext), some p => [p]
  | _, .inl (.inl (.newPcb _)), p => [p]
  | _, .inl (.inl (.tableHas p)), true => [p]
  | _, _, _ => []

/-- How far a thread is with the agent that it handles. -/
inductive Stand
  /-- It has found the agent ended, or is through with it. -/
  | idle
  /-- It has found the agent live. -/
  | cleared (p : Pid)
  /-- It has assigned texts of the agent since. -/
  | drafting (p : Pid)
  /-- It has moved the agent to a terminal state and has still to record the error. -/
  | sealed (p : Pid)
deriving DecidableEq, Repr

namespace Stand

/-- The agent that the thread may finalize. -/
def agent : Stand → Option Pid
  | idle => none
  | cleared p | drafting p | sealed p => some p

/-- The thread is not between the transition and the error. -/
def Free (s : Stand) : Prop := ∀ p, s ≠ sealed p

/-- The stroke is made where the thread stands. -/
def ready (p : Pid) (s : Stroke) : Stand → Prop
  | idle => False
  | cleared q | drafting q => q = p
  | sealed q => q = p ∧ s = .error

/-- Where the thread stands after a stroke. -/
def signed (p : Pid) (s : Stroke) (stand : Stand) : Stand :=
  match s, stand with
  | .error, sealed _ => idle
  | .error, _ | .result, _ => drafting p
  | .finish, cleared _ => sealed p
  | .finish, _ | .state _, _ => idle

/-- Where the thread stands after an operation. -/
def after {β : Type} (o : FOp β) (b : β) (stand : Stand) : Stand :=
  match stroke o with
  | some (p, s) => stand.signed p s
  | none =>
    match shown o b with
    | some (_, true) => idle
    | some (p, false) => cleared p
    | none => stand

end Stand

/-- What a thread knows and is about: the agents that exist, and how far it is with the one
that it handles. -/
structure Pen where
  known : List Pid := []
  stand : Stand := .idle

namespace Pen

/-- Which operation may be performed where. -/
def allows {β : Type} (o : FOp β) (l : Pen) : Prop :=
  (∀ p, enters o = some p → p ∈ l.known) ∧
    (∀ p s, stroke o = some (p, s) → p ∈ l.known ∧ l.stand.ready p s) ∧
    (tests o = true → l.stand.Free)

/-- Where the thread stands after the operation. -/
def after {β : Type} (l : Pen) (o : FOp β) (b : β) : Pen where
  known := found o b ++ l.known
  stand := l.stand.after o b

end Pen

/-- The discipline of finalizing, for programs over the operations that `emb` embeds. -/
def signingVia {Op : Type → Type} (emb : {β : Type} → Op β → FOp β) : Discipline Op Pen where
  pre o l := Pen.allows (emb o) l
  post o l b l' := l' = l.after (emb o) b

/-- The discipline of finalizing. -/
def signing : Discipline FOp Pen := signingVia fun o => o

/-- The discipline of finalizing, for the programs of the kernel. -/
def kernelSigning : Discipline KOp Pen := signingVia fun o => .inl (.inl o)

/-- The discipline of finalizing, for the programs of the coarse model. -/
def coarseSigning : Discipline POp Pen := signingVia fun o => .inl o

lemma obeys_coarse {α : Type} {prog : Prog POp α} {l : Pen} {Q : α → Pen → Prop} :
    (coarse prog).Obeys signing l Q ↔ prog.Obeys coarseSigning l Q := Prog.obeys_lift

lemma obeys_plain {α : Type} {prog : Prog KOp α} {l : Pen} {Q : α → Pen → Prop} :
    (plain prog).Obeys coarseSigning l Q ↔ prog.Obeys kernelSigning l Q := Prog.obeys_lift

lemma obeys_native {α : Type} {prog : Prog KOp α} {l : Pen} {Q : α → Pen → Prop} :
    (native prog).Obeys signing l Q ↔ prog.Obeys kernelSigning l Q :=
  obeys_coarse.trans obeys_plain

/-- The operations that are no strokes and no tests and enter nobody. -/
def Unsigned {Op : Type → Type} (emb : {β : Type} → Op β → FOp β) : Prog.Class Op :=
  fun o => mute (emb o) = true

/-- Those of the kernel. -/
abbrev Quiet : Prog.Class KOp := Unsigned fun o => .inl (.inl o)

/-! ### The rules -/

/-- The thread knows the agents `ps` and stands as `S` says. -/
def Pen.Knows (ps : List Pid) (S : Stand → Prop) (l : Pen) : Prop :=
  S l.stand ∧ ∀ q ∈ ps, q ∈ l.known

/-- The thread knows `p` and stands at `s`. -/
abbrev Pen.At (p : Pid) (s : Stand) (l : Pen) : Prop := l.Knows [p] (· = s)

/-- The thread knows `p` and can test it. -/
abbrev Pen.Free (p : Pid) (l : Pen) : Prop := l.Knows [p] Stand.Free

/-- A thread that can test any agent. -/
abbrev Pen.Off (l : Pen) : Prop := l.Knows [] Stand.Free

section

variable {Op : Type → Type} {emb : {β : Type} → Op β → FOp β} {p q : Pid} {ps qs : List Pid}
  {S : Stand → Prop} {l : Pen} {α β : Type} {Q : α → Pen → Prop}

lemma shown_of_not_tests {o : FOp β} (ho : tests o = false) (b : β) : shown o b = none := by
  rcases o with (o | o) | o
  · cases o with
    | readPcb p look =>
      obtain rfl : look = .fields := by simpa [tests] using ho
      rfl
    | _ => rfl
  · rfl
  · rfl

lemma stand_after {o : FOp β} (hs : stroke o = none) (ht : tests o = false) (b : β)
    (stand : Stand) : stand.after o b = stand := by
  simp only [Stand.after, hs, shown_of_not_tests ht]

lemma of_mute {o : FOp β} (ho : mute o = true) :
    stroke o = none ∧ enters o = none ∧ tests o = false := by
  simpa [mute, and_assoc] using ho

/-- A mute operation is always allowed. -/
lemma allows_of_mute {o : FOp β} (ho : mute o = true) : Pen.allows o l := by
  obtain ⟨hs, he, ht⟩ := of_mute ho
  exact ⟨fun p hp => by simp [he] at hp, fun p s hp => by simp [hs] at hp,
    fun h => by simp [ht] at h⟩

/-- Nobody is forgotten. -/
lemma Pen.known_after (hl : ∀ q ∈ ps, q ∈ l.known) (o : FOp β) (b : β) :
    ∀ q ∈ ps, q ∈ (l.after o b).known :=
  fun q hq => List.mem_append_right _ (hl q hq)

lemma Pen.Knows.after (hl : l.Knows ps S) {o : FOp β} (hs : stroke o = none)
    (ht : tests o = false) (b : β) : (l.after o b).Knows ps S := by
  refine ⟨?_, Pen.known_after hl.2 o b⟩
  simp only [Pen.after, stand_after hs ht]
  exact hl.1

lemma Pen.Knows.mono {S' : Stand → Prop} (hl : l.Knows ps S) (hS : ∀ s, S s → S' s)
    (h : ∀ q ∈ qs, q ∈ ps) : l.Knows qs S' :=
  ⟨hS _ hl.1, fun q hq => hl.2 q (h q hq)⟩

/-- A thread that has found an agent live can test it again. -/
lemma Pen.Knows.free (hl : l.Knows ps (· = .cleared p)) : l.Knows ps Stand.Free :=
  hl.mono (fun s hs q => by rw [hs]; exact Stand.noConfusion) fun _ hq => hq

lemma Pen.Knows.off (hl : l.Knows ps Stand.Free) : l.Off :=
  hl.mono (fun _ h => h) (by simp)

/-- The rule for a mute operation. -/
lemma signs_quiet {o : Op β} {k : β → Prog Op α} (ho : mute (emb o) = true) (hl : l.Knows ps S)
    (hk : ∀ b l', l'.Knows ps S → (k b).Obeys (signingVia emb) l' Q) :
    (Prog.perform o >>= k).Obeys (signingVia emb) l Q := by
  refine Prog.Obeys.step (allows_of_mute ho) ?_
  rintro b l' rfl
  obtain ⟨hs, -, ht⟩ := of_mute ho
  exact hk b _ (hl.after hs ht b)

/-- The rule for an operation that enters a known agent. -/
lemma signs_enter {o : Op β} {k : β → Prog Op α} (ho : stroke (emb o) = none)
    (ht : tests (emb o) = false) (he : enters (emb o) = some p) (hp : p ∈ ps) (hl : l.Knows ps S)
    (hk : ∀ b l', l'.Knows ps S → (k b).Obeys (signingVia emb) l' Q) :
    (Prog.perform o >>= k).Obeys (signingVia emb) l Q := by
  refine Prog.Obeys.step ⟨fun q hq => ?_, fun q s hq => by simp [ho] at hq,
    fun h => by simp [ht] at h⟩ ?_
  · rw [he] at hq
    cases hq
    exact hl.2 p hp
  · rintro b l' rfl
    exact hk b _ (hl.after ho ht b)

/-- The rule for a stroke. -/
lemma signs_stroke {o : Op β} {s : Stroke} {stand : Stand} {k : β → Prog Op α}
    (ho : stroke (emb o) = some (p, s)) (he : enters (emb o) = none)
    (ht : tests (emb o) = false) (hp : p ∈ ps) (hl : l.Knows ps (· = stand))
    (hready : stand.ready p s)
    (hk : ∀ b l', l'.Knows ps (· = stand.signed p s) → (k b).Obeys (signingVia emb) l' Q) :
    (Prog.perform o >>= k).Obeys (signingVia emb) l Q := by
  refine Prog.Obeys.step ⟨fun q hq => by simp [he] at hq, fun q s' hq => ?_,
    fun h => by simp [ht] at h⟩ ?_
  · rw [ho] at hq
    cases hq
    exact ⟨hl.2 p hp, by rwa [hl.1]⟩
  · rintro b l' rfl
    refine hk b _ ⟨?_, Pen.known_after hl.2 _ b⟩
    simp only [Pen.after, Stand.after, ho, hl.1]

/-- The rule for a text, the first one or a further one. -/
lemma signs_text {o : Op β} {s : Stroke} {k : β → Prog Op α}
    (ho : stroke (emb o) = some (p, s)) (he : enters (emb o) = none)
    (ht : tests (emb o) = false) (hs : s = .error ∨ s = .result)
    (hl : l.At p (.cleared p) ∨ l.At p (.drafting p))
    (hk : ∀ b l', l'.At p (.drafting p) → (k b).Obeys (signingVia emb) l' Q) :
    (Prog.perform o >>= k).Obeys (signingVia emb) l Q := by
  have hp : p ∈ [p] := List.mem_cons_self
  rcases hl with hl | hl
  · refine signs_stroke ho he ht hp hl rfl fun b l' hl' => hk b l' ?_
    rcases hs with rfl | rfl <;> exact hl'
  · refine signs_stroke ho he ht hp hl rfl fun b l' hl' => hk b l' ?_
    rcases hs with rfl | rfl <;> exact hl'

/-- A test is allowed to a thread that is not between the transition and the error. -/
lemma allows_test {o : FOp AgentControlBlock} {look : Look}
    (ho : o = .inl (.inl (.readPcb p look))) (hl : l.stand.Free) : Pen.allows o l := by
  subst ho
  exact ⟨nofun, nofun, fun _ => hl⟩

/-- The rule for `is_terminal()`. -/
lemma signs_test {o : Op AgentControlBlock} {k : AgentControlBlock → Prog Op α}
    (ho : emb o = .inl (.inl (.readPcb p .terminal))) (hl : l.Knows ps Stand.Free)
    (hdead : ∀ b l', b.isTerminal = true → l'.Knows ps (· = .idle) →
      (k b).Obeys (signingVia emb) l' Q)
    (hlive : ∀ b l', b.isTerminal = false → l'.Knows ps (· = .cleared p) →
      (k b).Obeys (signingVia emb) l' Q) :
    (Prog.perform o >>= k).Obeys (signingVia emb) l Q := by
  refine Prog.Obeys.step (allows_test ho hl.1) ?_
  rintro b l' rfl
  show (k b).Obeys (signingVia emb) (l.after (emb o) b) Q
  rw [ho]
  cases hterm : b.isTerminal with
  | true =>
    refine hdead b _ hterm ⟨?_, Pen.known_after hl.2 _ b⟩
    simp [Pen.after, Stand.after, stroke, kernelStroke, shown, verdict, hterm]
  | false =>
    refine hlive b _ hterm ⟨?_, Pen.known_after hl.2 _ b⟩
    simp [Pen.after, Stand.after, stroke, kernelStroke, shown, verdict, hterm]

/-- Programs without strokes and tests. -/
lemma signs_only {prog : Prog Op α} (h : prog.Only (Unsigned emb)) (hl : l.Knows ps S) :
    prog.Obeys (signingVia emb) l fun _ l' => l'.Knows ps S := by
  refine h.obeys (fun o l ho hl => ?_) hl
  refine ⟨allows_of_mute ho, ?_⟩
  rintro b l' rfl
  obtain ⟨hs, -, ht⟩ := of_mute ho
  exact hl.after hs ht b

/-- The rule for a program without strokes and tests and what follows it. -/
lemma signs_then {prog : Prog Op β} {k : β → Prog Op α}
    (h : prog.Only (Unsigned emb)) (hl : l.Knows ps S)
    (hk : ∀ b l', l'.Knows ps S → (k b).Obeys (signingVia emb) l' Q) :
    (prog >>= k).Obeys (signingVia emb) l Q :=
  (signs_only h hl).bind _ hk

end

/-! ### The steps of an agent -/

variable {cfg : KernelConfig} {p : Pid} {l : Pen}

/-- A thread that is through with its agent can test it again. -/
lemma Pen.Knows.rested {ps : List Pid} (hl : l.Knows ps (· = .idle)) : l.Knows ps Stand.Free :=
  hl.mono (fun s hs q => by rw [hs]; exact Stand.noConfusion) fun _ hq => hq

/-- The transition first and the text afterwards. -/
lemma signs_failWith {st : AgentState} (hst : st.isTerminal = true) (msg : String)
    (hl : l.At p (.cleared p)) :
    (failWith p st msg).Obeys kernelSigning l fun _ l => l.Free p := by
  have hp : p ∈ [p] := List.mem_cons_self
  refine signs_stroke (s := .finish) (by simp [stroke, kernelStroke, writeStroke, hst]) rfl rfl hp
    hl rfl fun _ l₁ hl₁ => ?_
  have hready : Stand.ready p .error (.sealed p) := ⟨rfl, rfl⟩
  exact signs_stroke rfl rfl rfl hp hl₁ hready fun _ l₂ hl₂ => hl₂.rested

/-- Where a thread stands at a point of a step of `p`. -/
def Stand.along (p : Pid) (st : Point) (s : Stand) : Prop :=
  match st with
  | .start | .ended _ => s.Free
  | .live _ | .lent | .replied | .counted | .met => s = cleared p
  | .failing => s = sealed p
  | .drafted => s = drafting p

/-- Where a write of a step is made, and where it leads. -/
lemma signs_course_write {st : Point} {c : Write} (hc : st.allowsWrite c) {s : Stand}
    (hs : s.along p st) :
    match writeStroke c with
    | none => s.along p (st.write c)
    | some x => s.ready p x ∧ (s.signed p x).along p (st.write c) := by
  cases c with
  | transition st' =>
    cases st with
    | live able =>
      obtain rfl : s = .cleared p := hs
      rcases hc with rfl | rfl | rfl
      · exact rfl
      · exact ⟨rfl, rfl⟩
      · exact ⟨rfl, rfl⟩
    | drafted =>
      obtain rfl : s = .drafting p := hs
      rcases hc with rfl | rfl <;> exact ⟨rfl, fun _ => Stand.noConfusion⟩
    | _ => cases hc.1
  | error msg =>
    rcases hc with rfl | rfl | rfl
    · obtain rfl : s = .sealed p := hs
      exact ⟨⟨rfl, rfl⟩, fun _ => Stand.noConfusion⟩
    · obtain rfl : s = .cleared p := hs
      exact ⟨rfl, rfl⟩
    · obtain rfl : s = .drafting p := hs
      exact ⟨rfl, rfl⟩
  | result text =>
    rcases hc with rfl | rfl
    · obtain rfl : s = .cleared p := hs
      exact ⟨rfl, rfl⟩
    · obtain rfl : s = .drafting p := hs
      exact ⟨rfl, rfl⟩
  | countCall tokens =>
    obtain rfl : st = .replied := hc
    exact hs
  | prompt text | waitingSince since | addChild child => cases hc.1
  | _ => obtain ⟨-, rfl | rfl | rfl⟩ := hc <;> exact hs

/-- Every operation of a step, at any point of its course. -/
lemma signs_course {β : Type} (o : KOp β) (st : Point) (l : Pen)
    (hl : l.Knows [p] (Stand.along p st)) (ho : st.allows p true True o) :
    kernelSigning.pre o l ∧ ∀ b l', kernelSigning.post o l b l' →
      ∃ st', (course p true True).post o st b st' ∧ l'.Knows [p] (Stand.along p st') := by
  have hquiet (hmute : mute (.inl (.inl o) : FOp β) = true)
      (hst : ∀ b, Stand.along p (st.after o b) = Stand.along p st) :
      kernelSigning.pre o l ∧ ∀ b l', kernelSigning.post o l b l' →
        ∃ st', (course p true True).post o st b st' ∧ l'.Knows [p] (Stand.along p st') := by
    refine ⟨allows_of_mute hmute, ?_⟩
    rintro b _ rfl
    obtain ⟨hs, -, ht⟩ := of_mute hmute
    refine ⟨_, rfl, ?_⟩
    rw [hst b]
    exact hl.after hs ht b
  cases o with
  | readPcb q look =>
    cases look with
    | fields => exact hquiet rfl fun b => rfl
    | terminal =>
      obtain ⟨rfl, rfl⟩ := ho
      refine ⟨allows_test rfl hl.1, ?_⟩
      rintro b _ rfl
      refine ⟨_, rfl, ?_, Pen.known_after hl.2 _ b⟩
      cases hterm : b.isTerminal with
      | true => simp [Pen.after, Stand.after, Point.after, Stand.along, Stand.Free, stroke,
          kernelStroke, shown, verdict, hterm]
      | false => simp [Pen.after, Stand.after, Point.after, Stand.along, stroke, kernelStroke,
          shown, verdict, hterm]
    | zombie =>
      obtain ⟨rfl, rfl⟩ := ho
      refine ⟨allows_test rfl hl.free.1, ?_⟩
      rintro b _ rfl
      refine ⟨_, rfl, ?_, Pen.known_after hl.2 _ b⟩
      have hcleared : l.stand = .cleared q := hl.1
      by_cases hstate : b.state = .zombie
      · simp [Pen.after, Stand.after, Point.after, Stand.along, Stand.Free, stroke,
          kernelStroke, shown, verdict, hstate]
      · simp [Pen.after, Stand.after, Point.after, Stand.along, stroke, kernelStroke, shown,
          verdict, hstate, hcleared]
  | write q c =>
    obtain ⟨rfl, hc⟩ := ho
    have hwrite := signs_course_write hc hl.1
    refine ⟨⟨by simp [enters], fun q' x hx => ?_, by simp [tests]⟩, ?_⟩
    · simp only [stroke, kernelStroke, Option.map_eq_some_iff] at hx
      obtain ⟨x, hx, hpair⟩ := hx
      cases hpair
      rw [hx] at hwrite
      exact ⟨hl.2 q List.mem_cons_self, hwrite.1⟩
    · rintro b _ rfl
      refine ⟨_, rfl, ?_, Pen.known_after hl.2 _ b⟩
      cases hx : writeStroke c with
      | none =>
        rw [hx] at hwrite
        simpa [Pen.after, Stand.after, Point.after, stroke, kernelStroke, shown, hx] using hwrite
      | some x =>
        rw [hx] at hwrite
        simpa [Pen.after, Stand.after, Point.after, stroke, kernelStroke, shown, hx] using hwrite.2
  | chat purpose request =>
    refine hquiet rfl fun answer => ?_
    cases purpose with
    | step =>
      obtain rfl : st = .live true := ho
      cases answer <;> rfl
    | summarize metered =>
      cases metered with
      | true =>
        obtain rfl : st = .lent := ho
        cases answer <;> rfl
      | false => rfl
  | acquire =>
    obtain rfl : st = .live true := ho
    refine hquiet rfl fun got => ?_
    cases got <;> rfl
  | refund =>
    obtain rfl : st = .lent := ho
    exact hquiet rfl fun _ => rfl
  | now | swapOut q pages | runPython code timeout priority => exact hquiet rfl fun _ => rfl
  | _ => exact ho.elim

/-- What an answer of a step leaves: a step that ends with an exception has not finalized its
agent. -/
def Stepped (p : Pid) (answer : Except Exn Bool) (l : Pen) : Prop :=
  match answer with
  | .error _ => l.At p (.cleared p)
  | .ok _ => l.Free p

/-- **One step of an agent.** -/
lemma signs_runStep (hl : l.Free p) :
    (runStep cfg p).Obeys kernelSigning l (Stepped p) := by
  have hstep : (runStep cfg p).Obeys (course p true True) .start Point.Ends :=
    course_runStep fun _ _ _ => trivial
  refine (hstep.simulate signs_course hl).mono ?_
  rintro answer l ⟨st, hends, hl⟩
  rcases answer with e | _ | _
  · rcases hends with rfl | rfl <;> exact hl
  · obtain ⟨called, rfl⟩ := hends
    exact hl
  · obtain rfl : st = .met := hends
    exact Pen.Knows.free hl

/-! ### The workers of the thread backend -/

lemma signs_runHoldingUnit (hl : l.Free p) :
    (runHoldingUnit cfg p).Obeys kernelSigning l fun _ l => l.Free p := by
  refine signs_quiet rfl hl fun before l₁ hl₁ => signs_quiet rfl hl₁ fun _ l₂ hl₂ => ?_
  refine (signs_runStep hl₂).bind _ fun answer l₃ hl₃ => ?_
  have hsettle : (settle p answer).Obeys kernelSigning l₃ fun _ l => l.Free p := by
    cases answer with
    | ok keepGoing => exact hl₃
    | error e => exact (signs_failWith rfl _ hl₃).bind _ fun _ _ h => h
  refine hsettle.bind _ fun _ l₄ hl₄ => ?_
  refine signs_quiet rfl hl₄ fun _ l₅ hl₅ => signs_quiet rfl hl₅ fun pcb l₆ hl₆ => ?_
  split
  · exact signs_quiet rfl hl₆ fun _ l₇ hl₇ => hl₇
  · exact hl₆

lemma signs_runOneStep (hl : l.Free p) :
    (runOneStep cfg p).Obeys kernelSigning l fun _ l => l.Free p := by
  have hp : p ∈ [p] := List.mem_cons_self
  refine signs_quiet rfl hl fun acquired l₁ hl₁ => ?_
  split
  · exact signs_runHoldingUnit hl₁
  · refine signs_quiet rfl hl₁ fun _ l₂ hl₂ => signs_quiet rfl hl₂ fun got l₃ hl₃ => ?_
    refine signs_quiet rfl hl₃ fun stopped l₄ hl₄ => ?_
    split
    · refine signs_then (Prog.only_when (Prog.only_perform rfl)) hl₄ fun _ l₅ hl₅ => ?_
      exact signs_enter rfl rfl rfl hp hl₅ fun _ l₆ hl₆ => hl₆
    · split
      · exact signs_runHoldingUnit hl₄
      · exact signs_enter rfl rfl rfl hp hl₄ fun _ l₅ hl₅ => hl₅

lemma signs_stepLoop (limit : ℕ) (site : StopSite) (keepGoing : Bool) (hl : l.Free p) :
    (stepLoop cfg p limit site keepGoing).Obeys kernelSigning l fun _ l => l.Free p := by
  induction limit generalizing l site keepGoing with
  | zero => exact hl
  | succ limit ih =>
    refine signs_quiet rfl hl fun stopped l₁ hl₁ => ?_
    split
    · exact hl₁
    · refine (signs_runOneStep hl₁).bind _ fun status l₂ hl₂ => ?_
      cases status with
      | blocked | stopped => exact hl₂
      | ran keepGoing =>
        refine signs_test rfl hl₂ (fun pcb l₃ hdead hl₃ => ?_) fun pcb l₃ hlive hl₃ => ?_
        · rw [hdead, Bool.true_or, if_pos rfl]
          exact hl₃.rested
        · split
          · exact hl₃.free
          · exact ih .laterStep keepGoing hl₃.free

lemma quiet_of_forwards {β : Type} (o : KOp β) (ho : Forwards p o) : Quiet o := by
  cases o with
  | readPcb q look =>
    cases look with
    | fields => rfl
    | terminal | zombie => exact ho.elim
  | now | mailbox q | mailboxGet box | mailboxPut box msg => rfl
  | _ => exact ho.elim

lemma only_quiet_recv : (recv p).Only Quiet :=
  only_recv.mono fun o ho => quiet_of_forwards o (ho.forwards (p := p))

lemma only_quiet_forwardResult : (forwardResult cfg p).Only Quiet :=
  only_forwardResult.mono quiet_of_forwards

lemma signs_runQuantum (hl : l.Free p) :
    (runQuantum cfg p).Obeys kernelSigning l fun _ l => l.Free p := by
  refine (signs_stepLoop _ _ _ hl).bind _ fun answer l₁ hl₁ => ?_
  cases answer with
  | none => exact hl₁
  | some keepGoing =>
    refine signs_then only_quiet_forwardResult hl₁ fun _ l₂ hl₂ => ?_
    refine signs_test rfl hl₂ (fun pcb l₃ hdead hl₃ => ?_) fun pcb l₃ hlive hl₃ => ?_
    · rw [hdead, Bool.not_true, Bool.and_false, if_neg Bool.false_ne_true]
      exact hl₃.rested
    · split
      · exact signs_enter rfl rfl rfl List.mem_cons_self hl₃ fun _ l₄ hl₄ => hl₄.free
      · exact hl₃.free

lemma signs_reparkWaiting (hl : l.At p (.cleared p)) :
    (reparkWaiting cfg p).Obeys kernelSigning l fun _ l => l.Free p := by
  refine signs_quiet rfl hl fun now l₁ hl₁ => signs_quiet rfl hl₁ fun pcb l₂ hl₂ => ?_
  refine signs_quiet rfl hl₂ fun _ l₃ hl₃ => ?_
  dsimp only
  split
  · exact signs_failWith rfl _ hl₃
  · refine signs_quiet rfl hl₃ fun _ l₄ hl₄ => ?_
    exact signs_enter rfl rfl rfl List.mem_cons_self hl₄ fun _ l₅ hl₅ => hl₅.free

lemma signs_dispatch (hl : l.Free p) :
    (Pool.dispatch cfg p).Obeys kernelSigning l fun _ l => l.Free p := by
  refine signs_test rfl hl (fun pcb l₁ hdead hl₁ => ?_) fun pcb l₁ hlive hl₁ => ?_
  · rw [if_pos hdead]
    exact hl₁.rested
  · rw [if_neg (by simp [hlive])]
    split
    · split
      · exact signs_failWith rfl _ hl₁
      · refine signs_then only_quiet_recv hl₁ fun msg l₂ hl₂ => ?_
        cases msg with
        | none => exact signs_reparkWaiting hl₂
        | some msg =>
          refine signs_quiet rfl hl₂ fun _ l₃ hl₃ => signs_quiet rfl hl₃ fun _ l₄ hl₄ => ?_
          exact signs_runQuantum hl₄.free
    · exact signs_runQuantum hl₁.free

/-- What a worker knows that has picked an agent. -/
lemma Pen.Off.picked (hl : l.Off) (p : Pid) :
    (l.after (.inl (.inl .pickNext)) (some p)).Free p :=
  ⟨hl.1, fun q hq => by rw [List.mem_singleton.1 hq]; exact List.mem_cons_self⟩

/-- The rule for the answer of `pick_next`. -/
lemma signs_pickNext {Op : Type → Type} {emb : {β : Type} → Op β → FOp β} {α : Type}
    {Q : α → Pen → Prop} {o : Op (Option Pid)} {k : Option Pid → Prog Op α}
    (ho : emb o = .inl (.inl .pickNext)) (hl : l.Off)
    (hnone : ∀ l', l'.Off → (k none).Obeys (signingVia emb) l' Q)
    (hsome : ∀ p l', l'.Free p → (k (some p)).Obeys (signingVia emb) l' Q) :
    (Prog.perform o >>= k).Obeys (signingVia emb) l Q := by
  have hmute : mute (emb o) = true := by
    rw [ho]
    rfl
  refine Prog.Obeys.step (allows_of_mute hmute) ?_
  rintro picked l' rfl
  show (k picked).Obeys (signingVia emb) (l.after (emb o) picked) Q
  rw [ho]
  cases picked with
  | none => exact hnone _ (hl.after rfl rfl _)
  | some p => exact hsome p _ (hl.picked p)

/-- **The loop of a worker** of the thread backend. -/
lemma signs_loopBody (hl : l.Off) :
    (loopBody cfg).Obeys kernelSigning l fun _ l => l.Off := by
  refine signs_quiet rfl hl fun stopped l₁ hl₁ => ?_
  split
  · exact hl₁
  · refine signs_quiet rfl hl₁ fun woken l₂ hl₂ => ?_
    split
    · refine signs_pickNext rfl hl₂ (fun l₃ hl₃ => hl₃) fun p l₃ hl₃ => ?_
      refine (signs_dispatch hl₃).bind _ fun _ l₄ hl₄ => ?_
      exact signs_quiet rfl hl₄ fun _ l₅ hl₅ => hl₅.off
    · exact hl₂

/-! ### The workers of the process backend -/

lemma quiet_of_books {β : Type} (o : POp β) (ho : Books p o) : Unsigned (fun o => .inl o) o := by
  rcases o with o | o
  · cases o with
    | readPcb q look =>
      cases look with
      | fields => rfl
      | terminal | zombie => exact ho.elim
    | now => rfl
    | _ => exact ho.elim
  · cases o with
    | refund units => rfl
    | assign q a =>
      cases a with
      | state st => exact ho.elim
      | _ => rfl
    | _ => exact ho.elim

lemma only_quiet_stampFinish : (stampFinish p).Only (Unsigned fun o => .inl o) :=
  only_stampFinish.mono quiet_of_books

lemma signs_failUnlessTerminal (msg : String) (hl : l.Free p) :
    (failUnlessTerminal p msg).Obeys coarseSigning l fun _ l => l.Free p := by
  refine signs_test rfl hl (fun pcb l₁ hdead hl₁ => ?_) fun pcb l₁ hlive hl₁ => ?_
  · rw [if_pos hdead]
    exact hl₁.rested
  · rw [if_neg (by simp [hlive])]
    exact obeys_plain.2 (signs_failWith rfl msg hl₁)

/-- The texts of a report. -/
lemma signs_takeText {field : String → Write} {s : Stroke} (text : Option String)
    (hfield : ∀ x, writeStroke (field x) = some s) (hs : s = .error ∨ s = .result)
    (hl : l.At p (.cleared p) ∨ l.At p (.drafting p)) :
    (takeText p field text).Obeys coarseSigning l
      fun _ l => l.At p (.cleared p) ∨ l.At p (.drafting p) := by
  cases text with
  | none => exact hl
  | some x =>
    have hstroke : stroke (.inl (.inl (.write p (field x)))) = some (p, s) := by
      simp [stroke, kernelStroke, hfield]
    have hplain : tests (.inl (.inl (.write p (field x)))) = false := rfl
    exact signs_text hstroke rfl hplain hs hl fun _ l₁ hl₁ => .inr hl₁

/-- A report is taken over: the state is assigned after a test of its own. -/
lemma signs_takeOver (payload : Payload) (hl : l.At p (.cleared p)) :
    (takeOver p payload).Obeys coarseSigning l fun _ l => l.Free p := by
  refine (signs_takeText _ (fun _ => rfl) (.inr rfl) (.inl hl)).bind _ fun _ l₁ hl₁ => ?_
  refine (signs_takeText _ (fun _ => rfl) (.inl rfl) hl₁).bind _ fun _ l₂ hl₂ => ?_
  have hfree : l₂.Free p := by
    rcases hl₂ with hl₂ | hl₂
    · exact hl₂.free
    · exact hl₂.mono (fun s hs q => by rw [hs]; exact Stand.noConfusion) fun _ hq => hq
  refine signs_quiet rfl hfree fun _ l₃ hl₃ => signs_quiet rfl hl₃ fun _ l₄ hl₄ => ?_
  refine signs_test rfl hl₄ (fun pcb l₅ hdead hl₅ => ?_) fun pcb l₅ hlive hl₅ => ?_
  · rw [Prog.when, if_neg (by simp [hdead])]
    exact signs_only only_quiet_stampFinish hl₅.rested
  · rw [Prog.when, if_pos hlive]
    refine signs_stroke (s := .state payload.state) rfl rfl rfl List.mem_cons_self hl₅ rfl
      fun _ l₆ hl₆ => ?_
    exact signs_only only_quiet_stampFinish hl₆.rested

lemma signs_applyResult (raw : Raw) (hl : l.At p (.cleared p)) :
    (applyResult p raw).Obeys coarseSigning l fun _ l => l.Free p := by
  cases raw with
  | empty =>
    refine (signs_failUnlessTerminal _ hl.free).bind _ fun _ l₁ hl₁ => ?_
    exact signs_then only_quiet_stampFinish hl₁ fun _ l₂ hl₂ => hl₂
  | corrupt => exact (signs_failUnlessTerminal _ hl.free).bind _ fun _ l₁ hl₁ => hl₁
  | json payload => exact (signs_takeOver payload hl).bind _ fun _ l₁ hl₁ => hl₁

lemma signs_supervise (hl : l.At p (.cleared p)) :
    (supervise p).Obeys signing l fun _ l => l.Free p := by
  refine signs_quiet rfl hl fun k l₁ hl₁ => signs_quiet rfl hl₁ fun _ l₂ hl₂ => ?_
  refine signs_quiet rfl hl₂ fun raw l₃ hl₃ => ?_
  refine (obeys_coarse.2 (signs_applyResult raw hl₃)).bind _ fun completed l₄ hl₄ => ?_
  exact signs_quiet rfl hl₄ fun _ l₅ hl₅ => hl₅

lemma signs_runForked (hl : l.At p (.cleared p)) :
    (runForked p).Obeys signing l fun _ l => l.Free p := by
  refine signs_quiet rfl hl fun pcb l₁ hl₁ => signs_quiet rfl hl₁ fun reserve l₂ hl₂ => ?_
  split
  · refine signs_quiet rfl hl₂ fun _ l₃ hl₃ => ?_
    exact signs_enter rfl rfl rfl List.mem_cons_self hl₃ fun _ l₄ hl₄ => hl₄.free
  · refine signs_quiet rfl hl₂ fun _ l₃ hl₃ => signs_quiet rfl hl₃ fun before l₄ hl₄ => ?_
    refine (signs_supervise hl₄).bind _ fun completed l₅ hl₅ => ?_
    exact obeys_coarse.2 (signs_only ((only_reconcile _ _ _ _).mono quiet_of_books) hl₅)

lemma signs_launchForked (hl : l.At p (.cleared p)) :
    (launchForked cfg p).Obeys signing l fun _ l => l.Free p := by
  refine signs_quiet rfl hl fun pcb l₁ hl₁ => ?_
  refine signs_then (Prog.only_when (Prog.only_perform rfl)) hl₁ fun _ l₂ hl₂ => ?_
  refine signs_quiet rfl hl₂ fun _ l₃ hl₃ => ?_
  refine (signs_runForked hl₃).bind _ fun _ l₄ hl₄ => signs_quiet rfl hl₄ fun _ l₅ hl₅ => ?_
  exact obeys_native.2 (signs_only only_quiet_forwardResult hl₅)

lemma signs_dispatchForked (hl : l.Free p) :
    (dispatchForked cfg p).Obeys signing l fun _ l => l.Free p := by
  refine signs_test rfl hl (fun pcb l₁ hdead hl₁ => ?_) fun pcb l₁ hlive hl₁ => ?_
  · rw [if_pos hdead]
    exact hl₁.rested
  · rw [if_neg (by simp [hlive])]
    split
    · split
      · exact obeys_native.2 (signs_failWith rfl _ hl₁)
      · refine (obeys_native.2 (signs_only only_quiet_recv hl₁)).bind _ fun msg l₂ hl₂ => ?_
        cases msg with
        | none => exact obeys_native.2 (signs_reparkWaiting hl₂)
        | some msg =>
          refine signs_quiet rfl hl₂ fun _ l₃ hl₃ => signs_quiet rfl hl₃ fun _ l₄ hl₄ => ?_
          exact signs_launchForked hl₄
    · exact signs_launchForked hl₁

/-- **The loop of a worker** of the process backend. -/
lemma signs_loopForked (hl : l.Off) :
    (loopForked cfg).Obeys signing l fun _ l => l.Off := by
  refine signs_quiet rfl hl fun stopped l₁ hl₁ => ?_
  split
  · exact hl₁
  · refine signs_quiet rfl hl₁ fun woken l₂ hl₂ => ?_
    split
    · refine signs_pickNext rfl hl₂ (fun l₃ hl₃ => hl₃) fun p l₃ hl₃ => ?_
      refine (signs_dispatchForked hl₃).bind _ fun _ l₄ hl₄ => ?_
      exact signs_quiet rfl hl₄ fun _ l₅ hl₅ => hl₅.off
    · exact hl₂

/-! ### The callers -/

variable {ps : List Pid} {S : Stand → Prop}

lemma Pen.Knows.keep {qs : List Pid} (hl : l.Knows ps S) (h : ∀ q ∈ qs, q ∈ ps) : l.Knows qs S :=
  hl.mono (fun _ hs => hs) h

/-- The rule for a look into the process table. -/
lemma signs_has {Op : Type → Type} {emb : {β : Type} → Op β → FOp β} {α : Type}
    {Q : α → Pen → Prop} {q : Pid} {o : Op Bool} {k : Bool → Prog Op α}
    (ho : emb o = .inl (.inl (.tableHas q))) (hl : l.Knows ps S)
    (hno : ∀ l', l'.Knows ps S → (k false).Obeys (signingVia emb) l' Q)
    (hyes : ∀ l', l'.Knows (q :: ps) S → (k true).Obeys (signingVia emb) l' Q) :
    (Prog.perform o >>= k).Obeys (signingVia emb) l Q := by
  have hmute : mute (emb o) = true := by
    rw [ho]
    rfl
  refine Prog.Obeys.step (allows_of_mute hmute) ?_
  rintro here l' rfl
  show (k here).Obeys (signingVia emb) (l.after (emb o) here) Q
  rw [ho]
  have hl₁ : (l.after (.inl (.inl (.tableHas q))) here).Knows ps S := hl.after rfl rfl _
  cases here with
  | false => exact hno _ hl₁
  | true =>
    refine hyes _ ⟨hl₁.1, fun r hr => ?_⟩
    rcases List.mem_cons.1 hr with rfl | hr
    · exact List.mem_cons_self
    · exact hl₁.2 r hr

/-- Whoever is in the table exists. -/
lemma signs_present (cs : List Pid) (hl : l.Knows ps S) :
    (Kernel.present cs).Obeys kernelSigning l fun found l' => l'.Knows (found ++ ps) S := by
  induction cs generalizing l ps with
  | nil => exact hl
  | cons c cs ih =>
    refine signs_has rfl hl (fun l₁ hl₁ => (ih hl₁).bind _ fun rest l₂ hl₂ => hl₂) fun l₁ hl₁ => ?_
    refine (ih hl₁).bind _ fun rest l₂ hl₂ => hl₂.keep fun q hq => ?_
    simp only [List.mem_append, List.mem_cons, if_true] at hq ⊢
    tauto

lemma signs_childrenOf (q : Pid) (hl : l.Knows ps S) :
    (Kernel.childrenOf q).Obeys kernelSigning l fun found l' => l'.Knows (found ++ ps) S := by
  refine signs_quiet rfl hl fun here l₁ hl₁ => ?_
  split
  · exact signs_quiet rfl hl₁ fun parent l₂ hl₂ => signs_present _ hl₂
  · exact hl₁

lemma signs_descendantsLoop (fuel : ℕ) (stack out : List Pid)
    (hl : l.Knows (stack ++ out ++ ps) S) :
    (Kernel.descendantsLoop fuel stack out).Obeys kernelSigning l
      fun found l' => l'.Knows (found.getD [] ++ ps) S := by
  induction fuel generalizing l stack out with
  | zero =>
    cases stack with
    | nil => exact hl
    | cons cur stack =>
      refine hl.keep fun q hq => ?_
      simp only [Option.getD_none, List.nil_append] at hq
      exact List.mem_append_right _ hq
  | succ fuel ih =>
    cases stack with
    | nil => exact hl
    | cons cur stack =>
      refine (signs_childrenOf cur hl).bind _ fun children l₁ hl₁ => ?_
      refine ih _ _ (hl₁.keep fun q hq => ?_)
      simp only [List.mem_append, List.mem_reverse, List.mem_cons, List.not_mem_nil,
        or_false] at hq ⊢
      tauto

lemma signs_descendantsOf (fuel : ℕ) (q : Pid) (hl : l.Knows ps S) :
    (Kernel.descendantsOf fuel q).Obeys kernelSigning l
      fun found l' => l'.Knows (found.getD [] ++ ps) S := by
  refine (signs_childrenOf q hl).bind _ fun children l₁ hl₁ => ?_
  refine signs_descendantsLoop fuel _ [] (hl₁.keep fun r hr => ?_)
  simp only [List.append_nil, List.mem_append, List.mem_reverse] at hr ⊢
  exact hr

/-- What a kill does to one of its victims. -/
lemma signs_slay {Op : Type → Type} {emb : {β : Type} → Op β → FOp β} {α : Type}
    {Q : α → Pen → Prop} {o o' : Op Unit} {k : Unit → Prog Op α} {q : Pid}
    (ho : stroke (emb o) = some (q, .finish)) (he : enters (emb o) = none)
    (ht : tests (emb o) = false) (ho' : stroke (emb o') = some (q, .error))
    (he' : enters (emb o') = none) (ht' : tests (emb o') = false) (hq : q ∈ ps)
    (hl : l.Knows ps (· = .cleared q))
    (hk : ∀ l', l'.Knows ps Stand.Free → (k ()).Obeys (signingVia emb) l' Q) :
    (Prog.perform o >>= fun _ => Prog.perform o' >>= k).Obeys (signingVia emb) l Q := by
  have hready : Stand.ready q .error (.sealed q) := ⟨rfl, rfl⟩
  refine signs_stroke ho he ht hq hl rfl fun _ l₁ hl₁ => ?_
  exact signs_stroke ho' he' ht' hq hl₁ hready fun _ l₂ hl₂ => hk l₂ hl₂.rested

lemma signs_reapAll (root : Pid) (reason : String) (doomed : List Pid)
    (hl : l.Knows (doomed ++ ps) Stand.Free) :
    (Kernel.reapAll root reason doomed).Obeys kernelSigning l
      fun _ l' => l'.Knows ps Stand.Free := by
  induction doomed generalizing l with
  | nil => exact hl
  | cons child rest ih =>
    refine signs_test rfl hl (fun pcb l₁ hdead hl₁ => ?_) fun pcb l₁ hlive hl₁ => ?_
    · rw [if_pos hdead]
      exact ih (hl₁.rested.keep fun q hq => List.mem_cons_of_mem _ hq)
    · rw [if_neg (by simp [hlive])]
      refine signs_slay (q := child) rfl rfl rfl rfl rfl rfl List.mem_cons_self hl₁ fun l₂ hl₂ => ?_
      exact ih (hl₂.keep fun q hq => List.mem_cons_of_mem _ hq)

lemma only_quiet_dropMailboxes (qs : List Pid) : (Kernel.dropMailboxes qs).Only Quiet := by
  induction qs with
  | nil => trivial
  | cons q qs ih => exact Prog.Only.step rfl fun _ => ih

/-- `Kernel.kill` with the thread backend. -/
lemma signs_kill (fuel : ℕ) (pid : Pid) (hl : l.Off) :
    (Kernel.kill fuel pid).Obeys kernelSigning l fun _ l' => l'.Off := by
  refine signs_has rfl hl (fun _ hl₁ => hl₁) fun l₁ hl₁ => ?_
  refine signs_test rfl hl₁ (fun pcb l₂ hdead hl₂ => ?_) fun pcb l₂ hlive hl₂ => ?_
  · rw [if_pos hdead]
    exact hl₂.rested.off
  · rw [if_neg (by simp [hlive])]
    refine (signs_descendantsOf fuel pid hl₂).bind _ fun victims l₃ hl₃ => ?_
    cases victims with
    | none => exact hl₃.free.off
    | some victims =>
      refine signs_slay (q := pid) rfl rfl rfl rfl rfl rfl
        (List.mem_append_right _ List.mem_cons_self) hl₃ fun l₄ hl₄ => ?_
      refine signs_quiet rfl hl₄ fun _ l₅ hl₅ => ?_
      refine (signs_descendantsOf fuel pid hl₅).bind _ fun doomed l₆ hl₆ => ?_
      cases doomed with
      | none => exact hl₆.off
      | some doomed =>
        refine (signs_reapAll _ _ doomed hl₆).bind _ fun _ l₇ hl₇ => ?_
        exact signs_then (only_quiet_dropMailboxes _) hl₇ fun _ l₈ hl₈ => hl₈.off

lemma only_quiet_linkParent (parentPid : Option Pid) :
    (Kernel.linkParent parentPid p).Only Quiet := by
  unfold Kernel.linkParent
  split
  · trivial
  · refine Prog.Only.step rfl fun here => ?_
    split
    · exact Prog.only_perform rfl
    · trivial

/-- `Kernel.spawn`. -/
lemma signs_spawn (args : SpawnArgs) (hl : l.Off) :
    (Kernel.spawn args).Obeys kernelSigning l fun _ l' => l'.Off := by
  refine Prog.Obeys.step (allows_of_mute rfl) ?_
  rintro pid l₁ rfl
  have hp : pid ∈ [pid] := List.mem_cons_self
  have hl₁ : (l.after (.inl (.inl (.newPcb args))) pid).Free pid :=
    ⟨hl.1, fun q hq => by rw [List.mem_singleton.1 hq]; exact List.mem_cons_self⟩
  refine signs_enter rfl rfl rfl hp hl₁ fun added l₂ hl₂ => ?_
  split
  · refine signs_then (only_quiet_linkParent _) hl₂ fun _ l₃ hl₃ => ?_
    refine signs_then (Prog.only_when (Prog.only_perform rfl)) hl₃ fun _ l₄ hl₄ => ?_
    exact signs_enter rfl rfl rfl hp hl₄ fun _ l₅ hl₅ => hl₅.off
  · exact hl₂.off

/-- The loop of `Kernel.reap_terminal` tests, and makes no strokes. -/
lemma signs_reapFrom (qs : List Pid) (hl : l.Off) :
    (Kernel.reapFrom qs).Obeys kernelSigning l fun _ l' => l'.Off := by
  induction qs generalizing l with
  | nil => exact hl
  | cons q qs ih =>
    refine signs_test rfl hl (fun pcb l₁ hdead hl₁ => ?_) fun pcb l₁ hlive hl₁ => ?_
    · rw [if_pos hdead]
      refine signs_quiet rfl hl₁.rested fun _ l₂ hl₂ => signs_quiet rfl hl₂ fun _ l₃ hl₃ => ?_
      exact (ih hl₃).bind _ fun _ _ h => h
    · rw [if_neg (by simp [hlive])]
      exact ih hl₁.free

/-- The calls of the thread backend. -/
lemma signs_code (c : KernelCall) (hl : l.Off) :
    c.code.Obeys kernelSigning l fun _ l' => l'.Off := by
  cases c with
  | spawn args => exact (signs_spawn args hl).bind _ fun _ _ h => h
  | kill fuel pid => exact (signs_kill fuel pid hl).bind _ fun _ _ h => h
  | reapTerminal =>
    refine Prog.Obeys.bind _ (signs_quiet rfl hl fun pids l₁ hl₁ => signs_reapFrom pids hl₁) ?_
    exact fun _ _ h => h
  | topup amount =>
    refine signs_only (Prog.Only.bind ?_ fun _ => trivial) hl
    unfold Kernel.quotaTopup
    split
    · trivial
    · exact Prog.Only.step rfl fun _ => trivial
  | shutdown =>
    exact signs_only (Prog.Only.step rfl fun _ => Prog.Only.step rfl fun pids =>
      only_quiet_dropMailboxes pids) hl

lemma only_quiet_killRunning (q : Pid) : (killRunning q).Only (Unsigned fun o => o) := by
  refine Prog.Only.step rfl fun child => ?_
  split
  · trivial
  · exact Prog.only_perform rfl

lemma only_quiet_killAllRunning (qs : List Pid) :
    (killAllRunning qs).Only (Unsigned fun o => o) := by
  induction qs with
  | nil => trivial
  | cons q qs ih => exact (only_quiet_killRunning q).bind fun _ => ih

/-- `Kernel.kill` with the process backend. -/
lemma signs_killForked (fuel : ℕ) (pid : Pid) (hl : l.Off) :
    (killForked fuel pid).Obeys signing l fun _ l' => l'.Off := by
  refine signs_has rfl hl (fun _ hl₁ => hl₁) fun l₁ hl₁ => ?_
  refine signs_test rfl hl₁ (fun pcb l₂ hdead hl₂ => ?_) fun pcb l₂ hlive hl₂ => ?_
  · rw [if_pos hdead]
    exact hl₂.rested.off
  · rw [if_neg (by simp [hlive])]
    refine (obeys_native.2 (signs_descendantsOf fuel pid hl₂)).bind _ fun victims l₃ hl₃ => ?_
    cases victims with
    | none => exact hl₃.free.off
    | some victims =>
      refine signs_slay (q := pid) rfl rfl rfl rfl rfl rfl
        (List.mem_append_right _ List.mem_cons_self) hl₃ fun l₄ hl₄ => ?_
      refine signs_then (only_quiet_killAllRunning _) hl₄ fun _ l₅ hl₅ => ?_
      refine signs_quiet rfl hl₅ fun _ l₆ hl₆ => ?_
      refine (obeys_native.2 (signs_descendantsOf fuel pid hl₆)).bind _ fun doomed l₇ hl₇ => ?_
      cases doomed with
      | none => exact hl₇.off
      | some doomed =>
        refine (obeys_native.2 (signs_reapAll _ _ doomed hl₇)).bind _ fun _ l₈ hl₈ => ?_
        refine (obeys_native.2 (signs_only (only_quiet_dropMailboxes _) hl₈)).bind _
          fun _ l₉ hl₉ => hl₉.off

/-- **Every call** of both backends. -/
lemma signs_fleetCode (backend : Backend) (c : FleetCall) (hl : l.Off) :
    (c.code backend).Obeys signing l fun _ l' => l'.Off := by
  cases c with
  | childMoves k => exact signs_only (Prog.only_perform rfl) hl
  | kernel c =>
    cases backend with
    | thread => exact obeys_native.2 (signs_code c hl)
    | process =>
      cases c with
      | kill fuel pid => exact (signs_killForked fuel pid hl).bind _ fun _ _ h => h
      | shutdown =>
        refine signs_quiet rfl hl fun _ l₁ hl₁ => signs_quiet rfl hl₁ fun _ l₂ hl₂ => ?_
        refine signs_quiet rfl hl₂ fun pids l₃ hl₃ => ?_
        exact obeys_native.2 (signs_only (only_quiet_dropMailboxes pids) hl₃)
      | spawn args => exact obeys_native.2 (signs_code (.spawn args) hl)
      | reapTerminal => exact obeys_native.2 (signs_code .reapTerminal hl)
      | topup amount => exact obeys_native.2 (signs_code (.topup amount) hl)

end Gcos.Process
