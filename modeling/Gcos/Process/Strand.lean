import Gcos.Process.Outcome

/-!
# Whom a dispatch strands, and whom it fails

A dispatch of the process backend ends in one of three ways: the agent is back in the
queue, the parent has failed it, or it has what its child reported.  Which one it is can be
told from the agent's block when it is picked, from what the dispatch finds in the mailbox
and of the global quota when it looks, and from what the child meets.  Two kinds of agents
come to harm: those whose child is still at work when the step cap is reached, and those
whose child was granted less than the agent has left and has used that up.
-/

namespace Gcos.Process

open Lib Exec Pool Memory World Relation

variable {n : ℕ} {cfg : KernelConfig} {out : Outside} {child : Child} {t : Tid n} {kills : Prop}
  {v : Sight} {p : Pid} {budget : ℤ} {b₀ : AgentControlBlock}

/-! ### The upstream input -/

/-- The upstream input of the agent arrives in time, if it needs any. -/
def InputReady (cfg : KernelConfig) (v : Sight) (b₀ : AgentControlBlock) : Prop :=
  b₀.inputFrom.isSome = true → needsInput b₀.prompt = true → cfg.hasBus = true ∧ v.found = true

/-- The dispatch of the agent comes to a child whose report arrives. -/
structure Launches (cfg : KernelConfig) (child : Child) (v : Sight) (b₀ : AgentControlBlock) :
    Prop where
  live : b₀.isTerminal = false
  ready : InputReady cfg v b₀
  granted : ¬Blocked b₀ v.left
  whole : child.pipe = .whole

/-- What `recv` answers says what is in the mailbox when it looks. -/
lemma kleads_recv :
    KLeads cfg out t kills v p (Sees p (Held kills b₀)) (recv p) fun m w =>
      Sees p (Held kills b₀) w ∧ m.isSome = v.found := by
  have hheld : Robust kills (Held kills b₀) := robust_held _
  refine Prog.Ensures.bind _ (kleads_quiet hheld fun w => ⟨rfl, rfl⟩) fun box =>
    Prog.Ensures.perform_of_guard hheld.stable ?_ ?_
  · rintro m w w' hmove ⟨hw, hfound⟩
    exact ⟨hheld.stable w w' hmove hw, hfound⟩
  · intro w hw hguard
    have hfound : w.bus.boxes box ≠ [] ↔ v.found = true := hguard
    simp only [World.exec, MessageBus.get]
    cases hbox : w.bus.boxes box with
    | nil =>
      refine ⟨hw, ?_⟩
      rw [hbox] at hfound
      simpa using hfound
    | cons m rest =>
      refine ⟨hw, ?_⟩
      rw [hbox] at hfound
      simpa using hfound

/-! ### The dispatch -/

/-- How a dispatch ends that begins with the block `b₀`. -/
def Came (cfg : KernelConfig) (child : Child) (kills : Prop) (v : Sight) (b₀ : AgentControlBlock) :
    Assertion := fun b queued =>
  (Parked kills b queued ∨ Lost b queued) ∧ (kills ∨ ¬Launches cfg child v b₀) ∨
    Reported cfg child kills b₀ v.left b queued ∧ Launches cfg child v b₀

/-- What is known before the dispatch has looked at the agent. -/
def Entry (kills : Prop) (b₀ : AgentControlBlock) : Assertion := fun b queued =>
  Held kills b₀ b queued ∧ (b.inputFrom = b₀.inputFrom ∧ b.prompt = b₀.prompt) ∧
    (b.isTerminal = false → b₀.isTerminal = false)

lemma robust_entry : Robust kills (Entry kills b₀) :=
  .and (robust_held _) (.and (.onFrame fun _ _ _ _ _ _ h => h) (.ofLive _))

/-- The rest of a dispatch whose input is there. -/
lemma leads_launch_came (hpager : cfg.pager = ⟨budget, defaultPolicies true⟩)
    (hlive : b₀.isTerminal = false) (hready : InputReady cfg v b₀) :
    Leads cfg out child t kills v p (Sees p (Held kills b₀)) (launch cfg p)
      fun _ => Sees p (Came cfg child kills v b₀) := by
  refine (leads_launch hpager).conseq (fun _ h => h) ?_
  rintro - w (⟨hparked, hblocked⟩ | ⟨hlost, hpipe⟩ | ⟨hreported, hgranted, hwhole⟩)
  · exact .inl ⟨.inl hparked, .inr fun h => h.granted hblocked⟩
  · exact .inl ⟨.inr hlost, .inr fun h => hpipe h.whole⟩
  · exact .inr ⟨hreported, hlive, hready, hgranted, hwhole⟩

/-- What the dispatch sees of its agent: an agent that has been killed, or the one that it
was given. -/
lemma kleads_look {look : Look} :
    KLeads cfg out t kills v p (Sees p (Entry kills b₀)) (.perform (.readPcb p look)) fun pcb =>
      Sees p fun b queued =>
        Held kills b₀ b queued ∧ (pcb.isTerminal = true → Lost b queued ∧ kills) ∧
          (pcb.isTerminal = false → b₀.isTerminal = false) ∧
          pcb.inputFrom = b₀.inputFrom ∧ pcb.prompt = b₀.prompt := by
  refine kleads_read robust_entry
    (fun pcb => (robust_held _).and ((Robust.imp _ (robust_lost.and (.const _))).and (.const _))) ?_
  rintro b queued ⟨hheld, hsame, hlive⟩
  refine ⟨hheld, fun hterm => ?_, hlive, hsame⟩
  obtain ⟨hq, -, hst⟩ := hheld
  refine ⟨lost_of_standing hq hst hterm, ?_⟩
  rcases hst with ⟨hlive, -⟩ | ⟨hk, -⟩
  · exact Bool.noConfusion (hlive.symm.trans hterm)
  · exact hk

/-- A dispatch that looks for the upstream input. -/
lemma leads_await (hpager : cfg.pager = ⟨budget, defaultPolicies true⟩) (hbus : cfg.hasBus = true)
    (hlive : b₀.isTerminal = false) (hfrom : b₀.inputFrom.isSome = true)
    (hprompt : needsInput b₀.prompt = true) (template : String) :
    Leads cfg out child t kills v p (Sees p (Held kills b₀))
      (do
        match ← plain (recv p) with
        | none => plain (reparkWaiting cfg p)
        | some m => do
          kernel (.write p (.prompt (resolveInputPlaceholder template m)))
          kernel (.write p (.waitingSince none))
          launch cfg p)
      fun _ => Sees p (Came cfg child kills v b₀) := by
  have hheld : Robust kills (Held kills b₀) := robust_held _
  refine Prog.Ensures.bind _ kleads_recv.plain fun m => leads_fact (fun w h => h.2) fun hfound => ?_
  refine Prog.Ensures.conseq ?_ (fun w h => h.1) fun _ _ h => h
  cases m with
  | none =>
    refine kleads_reparkWaiting.plain.conseq (fun w h => h) fun _ w h => .inl ⟨h, .inr fun hl => ?_⟩
    exact Bool.noConfusion (hfound.trans (hl.ready hfrom hprompt).2)
  | some m =>
    refine KLeads.kernel (kleads_write hheld hheld fun clock b queued h => h) fun _ => ?_
    refine KLeads.kernel (kleads_write hheld hheld fun clock b queued h => h) fun _ => ?_
    exact leads_launch_came hpager hlive fun _ _ => ⟨hbus, hfound.symm⟩

/-- **The end of a dispatch**, whatever the child meets and whatever the other threads do. -/
lemma leads_dispatch (hpager : cfg.pager = ⟨budget, defaultPolicies true⟩) :
    Leads cfg out child t kills v p (Sees p (Entry kills b₀)) (dispatch cfg p) fun _ =>
      Sees p (Came cfg child kills v b₀) := by
  refine KLeads.kernel kleads_look fun pcb => ?_
  split
  · -- the agent was killed before the dispatch has begun
    next hterm =>
    refine leads_fact (fun w h => (h.2.1 hterm).2) fun hk => ?_
    refine Prog.Ensures.conseq (P := Sees p Lost) (Prog.ensures_ret robust_lost.stable ?_)
      (fun w h => (h.2.1 hterm).1) fun _ _ h => h
    exact fun w h => .inl ⟨.inr h, .inl hk⟩
  · next hterm =>
    refine leads_fact (fun w h => h.2.2) fun hpcb => ?_
    obtain ⟨hlive, hsource, htemplate⟩ := hpcb
    have hlive := hlive (by simpa using hterm)
    refine Prog.Ensures.conseq (P := Sees p (Held kills b₀)) ?_ (fun w h => h.1) fun _ _ h => h
    rw [hsource, htemplate]
    split
    · next hneeds =>
      -- the prompt has a placeholder for the result of another agent
      obtain ⟨hfrom, hprompt⟩ := Bool.and_eq_true_iff.1 hneeds
      split
      · next hbus =>
        refine (kleads_failWith (by decide)).plain.conseq (fun w h => ⟨h.1, h.2.2⟩)
          fun _ w h => .inl ⟨.inr h, .inr fun hl => ?_⟩
        rw [(hl.ready hfrom hprompt).1] at hbus
        cases hbus
      · next hbus => exact leads_await hpager (by simpa using hbus) hlive hfrom hprompt _
    · next hneeds =>
      refine leads_launch_came hpager hlive fun hfrom hprompt => ?_
      rw [hfrom, hprompt] at hneeds
      exact absurd rfl hneeds

/-! ### The worlds that a dispatch finds -/

/-- The worlds in which a worker has just picked the agent `p`. -/
inductive Due (cfg : KernelConfig) (p : Pid) : World n → Prop
  /-- The agent was spawned, and has been picked. -/
  | spawned {w : World n} (args : SpawnArgs) (created queued : Time)
      (hblock : w.pcbs p = (newBlock cfg args p created).transition .ready queued)
      (hq : p ∉ w.queue.q) : Due cfg p w
  /-- The agent is being killed. -/
  | killed {w w' : World n} (hdue : Due cfg p w) (hmove : KillMove p w w') : Due cfg p w'
  /-- Others have moved, and neither queued the agent nor touched its state, its stamp or its
  error text. -/
  | others {w w' : World n} (hdue : Due cfg p w) (hstate : (w'.pcbs p).state = (w.pcbs p).state)
      (hfin : (w'.pcbs p).finishedAt = (w.pcbs p).finishedAt)
      (herror : (w'.pcbs p).error = (w.pcbs p).error) (hq : p ∉ w'.queue.q) : Due cfg p w'
  /-- A dispatch has put the agent back into the queue, and it has been picked again. -/
  | again {w w' w'' : World n} {out : Outside} {child : Child} {t : Tid n} {v : Sight}
      (hdue : Due cfg p w) (hrun : Dispatches cfg out child t True v p w w')
      (hparked : p ∈ w'.queue.q) (hblock : w''.pcbs p = w'.pcbs p) (hq : p ∉ w''.queue.q) :
      Due cfg p w''

/-- What a run of a dispatch leads to. -/
lemma Dispatches.came {w w' : World n} (hpager : cfg.pager = ⟨budget, defaultPolicies true⟩)
    (hq : p ∉ w.queue.q) (hst : Standing kills none (w.pcbs p))
    (hrun : Dispatches cfg out child t kills v p w w') :
    Sees p (Came cfg child kills v (w.pcbs p)) w' := by
  have hentry : Sees p (Entry kills (w.pcbs p)) w :=
    ⟨⟨decide_eq_false hq, ⟨rfl, rfl, rfl, rfl⟩, hst⟩, ⟨rfl, rfl⟩, id⟩
  exact leads_dispatch hpager w () w' hentry hrun

/-- An agent that has been picked is live and without an error, or it has been killed. -/
lemma Due.standing {w : World n} (hpager : cfg.pager = ⟨budget, defaultPolicies true⟩)
    (h : Due cfg p w) : p ∉ w.queue.q ∧ Standing True none (w.pcbs p) := by
  -- by induction on how the agent came to be picked
  induction h with
  | spawned args created queued hblock hq =>
    refine ⟨hq, .inl ?_⟩
    rw [hblock]
    exact ⟨rfl, rfl, rfl⟩
  | @killed w w' _ hmove ih =>
    have hapart : Sees p (Apart True none) w := ⟨decide_eq_false ih.1, ih.2⟩
    obtain ⟨hq, hst⟩ := (robust_apart none).kill trivial hmove hapart
    exact ⟨of_decide_eq_false hq, hst⟩
  | others _ hstate hfin herror hq ih =>
    refine ⟨hq, ?_⟩
    have hst := ih.2
    unfold Standing AgentControlBlock.isTerminal at hst ⊢
    rwa [hstate, hfin, herror]
  | again _ hrun hparked hblock hq ih =>
    refine ⟨hq, ?_⟩
    rw [hblock]
    have hqueued := decide_eq_true hparked
    rcases hrun.came hpager ih.1 ih.2 with ⟨hends, -⟩ | ⟨⟨payload, -, htaken, -⟩, -⟩
    · rcases hends with hback | hlost
      · rcases hback with ⟨hlive, hfin, herror, -⟩ | ⟨hk, hstate, hfin, herror⟩
        · exact .inl ⟨hlive, hfin, herror⟩
        · exact .inr ⟨hk, hstate, hfin, fun h => absurd h herror⟩
      · exact Bool.noConfusion (hlost.1.symm.trans hqueued)
    · exact Bool.noConfusion (htaken.1.1.symm.trans hqueued)

/-! ### A run that finds what it is to find -/

/-- There is always another thread. -/
lemma exists_other (t : Tid n) : ∃ u : Tid n, u ≠ t := by
  cases t with
  | worker i => exact ⟨.client 0, by simp⟩
  | client k => exact ⟨.client (k + 1), by simp⟩

/-- An operation of another thread that touches neither the block nor the queue. -/
lemma OtherMove.quiet {β : Type} {u : Tid n} (hu : u ≠ t) (child : Child) (o : POp β) (w : World n)
    (hpcbs : (Process.exec cfg out child u o w).2.pcbs = w.pcbs)
    (hqueue : (Process.exec cfg out child u o w).2.queue = w.queue) :
    OtherMove cfg out t p w (Process.exec cfg out child u o w).2 :=
  .mk u hu child o w ⟨(w.pcbs p).children, by rw [hpcbs]⟩ (by rw [hqueue])

/-- Other threads can empty a mailbox. -/
lemma exists_emptied (child : Child) (box : BoxId) (w : World n) :
    ∃ w', ReflTransGen (OtherMove cfg out t p) w w' ∧ w'.bus.boxes box = [] := by
  obtain ⟨u, hu⟩ := exists_other t
  -- by induction on the number of messages in it
  generalize hlength : (w.bus.boxes box).length = k
  induction k generalizing w with
  | zero => exact ⟨w, .refl, List.length_eq_zero_iff.1 hlength⟩
  | succ k ih =>
    obtain ⟨m, rest, hbox⟩ := List.exists_cons_of_length_eq_add_one hlength
    have hget :
        (Process.exec cfg out child u (.inl (.mailboxGet box)) w).2.bus.boxes box = rest := by
      simp only [Process.exec, World.exec, MessageBus.get, hbox, Function.update_self]
    obtain ⟨w', hmoves, hempty⟩ := ih (Process.exec cfg out child u (.inl (.mailboxGet box)) w).2
      (by rw [hget]; simpa [hbox] using hlength)
    exact ⟨w', .head (.quiet hu child _ w rfl rfl) hmoves, hempty⟩

/-- Other threads can fill an empty mailbox. -/
lemma exists_filled (child : Child) (box : BoxId) (w : World n) :
    ∃ w', ReflTransGen (OtherMove cfg out t p) w w' ∧ w'.bus.boxes box ≠ [] := by
  by_cases hbox : w.bus.boxes box = []
  · obtain ⟨u, hu⟩ := exists_other t
    refine ⟨_, .single (.quiet hu child (.inl (.mailboxPut box ⟨p, "", 0⟩)) w rfl rfl), ?_⟩
    have hroom : ¬(0 < w.bus.cap ∧ w.bus.cap ≤ 0) := by omega
    simp only [Process.exec, World.exec, MessageBus.putNowait, hbox, List.length_nil, if_neg hroom]
    simp
  · exact ⟨w, .refl, hbox⟩

/-- Other threads can bring the global quota to any number of units. -/
lemma exists_left (child : Child) {left : ℤ} (hleft : 0 ≤ left) (w : World n) :
    ∃ w', ReflTransGen (OtherMove cfg out t p) w w' ∧ w'.quota.remaining = left := by
  obtain ⟨u, hu⟩ := exists_other t
  rcases le_total w.quota.remaining left with hless | hmore
  · refine ⟨_, .single (.quiet hu child (.inl (.topup (left - w.quota.remaining))) w rfl rfl), ?_⟩
    simp only [Process.exec, World.exec, Quota.topup]
    omega
  · refine ⟨_, .single (.quiet hu child (.inr (.acquireUpTo (w.quota.remaining - left))) w rfl rfl),
      ?_⟩
    simp only [Process.exec, Quota.acquireUpTo]
    omega

/-- Whatever a dispatch is to find, the other threads can see to it. -/
lemma exists_sight (child : Child) (hleft : 0 ≤ v.left) {β : Type} (o : POp β) (w : World n) :
    ∃ w', ReflTransGen (Moves cfg out t kills p) w w' ∧ v.guard t o w' := by
  suffices h : ∃ w', ReflTransGen (OtherMove cfg out t p) w w' ∧ v.guard t o w' by
    obtain ⟨w', hmoves, hguard⟩ := h
    exact ⟨w', ReflTransGen.mono (fun _ _ hmove => Or.inr hmove) w w' hmoves, hguard⟩
  rcases o with o | o
  · cases o with
    | mailboxGet box =>
      cases hfound : v.found with
      | false =>
        obtain ⟨w', hmoves, hempty⟩ := exists_emptied child box w
        exact ⟨w', hmoves, by simp [Sight.guard, hempty, hfound]⟩
      | true =>
        obtain ⟨w', hmoves, hfull⟩ := exists_filled child box w
        exact ⟨w', hmoves, by simp [Sight.guard, hfull, hfound]⟩
    | _ => exact ⟨w, .refl, trivial⟩
  · cases o with
    | acquireUpTo units =>
      obtain ⟨w', hmoves, hremaining⟩ := exists_left child hleft w
      exact ⟨w', hmoves, hremaining⟩
    | _ => exact ⟨w, .refl, trivial⟩

/-- A dispatch of a live agent that nobody kills, and that finds what it is to find. -/
lemma Due.undisturbed {w : World n} (hpager : cfg.pager = ⟨budget, defaultPolicies true⟩)
    (h : Due cfg p w) (hlive : (w.pcbs p).isTerminal = false) (out : Outside) (child : Child)
    (t : Tid n) (hleft : 0 ≤ v.left) : ∃ w', Dispatches cfg out child t True v p w w' ∧
      Sees p (Came cfg child False v (w.pcbs p)) w' := by
  obtain ⟨hq, hst⟩ := h.standing hpager
  have hst' : Standing False none (w.pcbs p) := by
    rcases hst with hst | ⟨-, hstate, -⟩
    · exact .inl hst
    · rw [AgentControlBlock.isTerminal_of_zombie hstate] at hlive
      cases hlive
  have hsight : ∀ {β : Type} (o : POp β) (w : World n),
      ∃ w', ReflTransGen (Moves cfg out t False p) w w' ∧ v.guard t o w' :=
    fun o w => exists_sight child hleft o w
  have hsome : ∃ a w', Prog.Under (Process.exec cfg out child) t (Moves cfg out t False p) v.guard
      (dispatch cfg p) w a w' := Prog.exists_under hsight (dispatch cfg p) w
  obtain ⟨_, w', hrun⟩ := hsome
  refine ⟨w', hrun.mono ?_, Dispatches.came hpager hq hst' hrun⟩
  exact fun _ _ hmove => hmove.imp_left fun h => h.1.elim

/-! ### Agents whose child goes on -/

/-- The dispatch of the agent comes to a child whose report arrives, and the first `i` steps
of the child go on: it is a multi-step agent, it has units and tool calls for them, and
every reply asks for a tool. -/
structure Drains (cfg : KernelConfig) (child : Child) (v : Sight) (b₀ : AgentControlBlock) (i : ℕ) :
    Prop where
  live : b₀.isTerminal = false
  ready : InputReady cfg v b₀
  factory : child.factory = none
  whole : child.pipe = .whole
  multiStep : b₀.capability.multiStep = true
  granted : i ≤ grant v.left b₀
  calls : b₀.react.step + i ≤ b₀.capability.maxToolCalls
  asks : ∀ j < i, asksTool cfg.host (child.outside.chat j) = true

lemma drains_iff {i : ℕ} (hi : 0 < i) : Drains cfg child v b₀ i ↔
    Launches cfg child v b₀ ∧ ChildTools cfg child (startBlock b₀ v.left) i := by
  constructor
  · rintro ⟨hlive, hready, hfac, hwhole, hmulti, hgrant, hcalls, hasks⟩
    refine ⟨⟨hlive, hready, ?_, hwhole⟩, hfac, (tools_iff hi).2 ⟨hmulti, hgrant, hcalls, ?_⟩⟩
    · rintro ⟨hnone, -⟩
      have hle : (i : ℤ) ≤ 0 := hgrant.trans hnone
      omega
    · simpa using hasks
  · rintro ⟨⟨hlive, hready, -, hwhole⟩, hfac, htools⟩
    obtain ⟨hmulti, hgrant, hcalls, hasks⟩ := (tools_iff hi).1 htools
    exact ⟨hlive, hready, hfac, hwhole, hmulti, hgrant, hcalls, by simpa using hasks⟩

/-- There are units for the steps that go on. -/
lemma Drains.left_nonneg {i : ℕ} (h : Drains cfg child v b₀ i) (hi : 0 < i) : 0 ≤ v.left := by
  have hgranted := h.granted
  simp only [grant, Quota.acquireUpTo] at hgranted
  omega

/-- A host that knows the cases of the ASCII letters. -/
def asciiHost : Host :=
  { Host.inert with
    upper := fun s => String.ofList (s.toList.map Char.toUpper)
    lower := fun s => String.ofList (s.toList.map Char.toLower) }

/-- A kernel with this host and the policies that it ships with. -/
def shipped : KernelConfig := { pager := { policies := defaultPolicies true }, host := asciiHost }

/-- Agent 1 has been spawned and picked, and nothing else has happened. -/
def picked (args : SpawnArgs) (quota : Quota) : World 1 where
  nextPid := 2
  pcbs := fun p => (newBlock shipped args p 0).transition .ready 0
  table := [1]
  queue := { inFlight := 1 }
  quota := quota
  enqueued := [1]

lemma due_picked (args : SpawnArgs) (quota : Quota) : Due shipped 1 (picked args quota) :=
  .spawned args 0 0 rfl List.not_mem_nil

lemma asksTool_note : asksTool shipped.host (.ok ⟨"TOOL: note x", 1, 1, 2⟩) = true := by
  decide +kernel

/-! ### Stranded agents -/

/-- The agent is terminal or in the queue, and stamped exactly if it is terminal. -/
def Kept (p : Pid) (w : World n) : Prop :=
  ((w.pcbs p).isTerminal = true ∨ p ∈ w.queue.q) ∧ (w.pcbs p).Stamped

lemma kept_of_terminal {w : World n} (hterm : (w.pcbs p).isTerminal = true)
    (hfin : (w.pcbs p).finishedAt.isSome = true) : Kept p w := by
  refine ⟨.inl hterm, ?_⟩
  rw [AgentControlBlock.Stamped, hterm, hfin]

/-- A dispatch keeps an agent whose child does not go on until the step cap. -/
lemma kept_of_came {w' : World n} (h : Sees p (Came cfg child kills v b₀) w')
    (hno : ¬Drains cfg child v b₀ childStepCap) : Kept p w' := by
  rcases h with ⟨(hback | hlost), -⟩ | ⟨⟨payload, hreport, ⟨⟨-, -, hsettled⟩, hfin⟩, -⟩, hlaunch⟩
  · rcases hback with ⟨hlive, hfin, -, hq⟩ | ⟨-, hstate, hfin, -⟩
    · refine ⟨.inr (of_decide_eq_true hq), ?_⟩
      rw [AgentControlBlock.Stamped, hlive, hfin]
      rfl
    · exact kept_of_terminal (AgentControlBlock.isTerminal_of_zombie hstate) hfin
  · exact kept_of_terminal hlost.2.2.1 hlost.2.1
  · have hdone : payload.state.isTerminal = true := by
      rcases hreport with hreport | ⟨-, hterm, -⟩
      · refine hreport.ends.resolve_right fun htools => hno ?_
        exact (drains_iff (by decide)).2 ⟨hlaunch, htools⟩
      · exact hterm
    refine kept_of_terminal ?_ hfin
    rcases hsettled.1 with hstate | ⟨-, hstate⟩
    · rw [AgentControlBlock.isTerminal, hstate, hdone]
    · exact AgentControlBlock.isTerminal_of_zombie hstate

/-- A dispatch of an agent that nobody kills strands it if its child goes on until the step
cap. -/
lemma stranded_of_came {w' : World n} (h : Sees p (Came cfg child False v b₀) w')
    (hdrains : Drains cfg child v b₀ childStepCap) : ¬Kept p w' := by
  obtain ⟨hlaunch, htools⟩ := (drains_iff (by decide)).1 hdrains
  rcases h with ⟨-, hno⟩ | ⟨⟨payload, hreport, ⟨⟨hq, -, hsettled⟩, -⟩, -⟩, -⟩
  · exact absurd hlaunch (hno.resolve_left not_false)
  · have hlive : payload.state.isTerminal = false := by
      rcases hreport with hreport | ⟨hk, -⟩
      · exact hreport.endless htools
      · exact hk.elim
    rintro ⟨hterm | hmem, -⟩
    · rw [AgentControlBlock.isTerminal, (hsettled.2.2 not_false).1, hlive] at hterm
      cases hterm
    · exact of_decide_eq_false hq hmem

/-- **Whom the process backend strands.**  Whatever a dispatch finds in the mailbox and of the
global quota when it looks: all runs that find this leave the agent terminal or in the ready
queue, and stamped exactly if it is terminal, if and only if it is not the case that the first
64 steps of the child go on. -/
theorem dispatch_keeps_iff {w : World n} (hpager : cfg.pager = ⟨budget, defaultPolicies true⟩)
    (hdue : Due cfg p w) (v : Sight) :
    (∀ w', Dispatches cfg out child t True v p w w' → Kept p w') ↔
      ¬Drains cfg child v (w.pcbs p) childStepCap := by
  constructor
  · intro hkept hdrains
    have hleft := hdrains.left_nonneg (by decide)
    obtain ⟨w', hrun, hcame⟩ := hdue.undisturbed hpager hdrains.live out child t hleft
    exact stranded_of_came hcame hdrains (hkept w' hrun)
  · intro hno w' hrun
    obtain ⟨hq, hst⟩ := hdue.standing hpager
    exact kept_of_came (hrun.came hpager hq hst) hno

/-- An agent with 100 units and 100 tool calls whose every reply asks for a tool, with 100
units for all: the child stops after 64 steps, and the parent neither fails the agent nor queues
it again. -/
theorem dispatch_strands_tool_user :
    let child : Child := { outside := .calm ⟨"TOOL: note x", 1, 1, 2⟩ }
    let w := picked
      { prompt := "go", quota := some 100, capability := some (.agent 100) } ⟨100, 100⟩
    Due shipped 1 w ∧ ∃ w',
      Dispatches shipped child.outside child (.worker 0) True ⟨false, 100⟩ 1 w w' ∧ ¬Kept 1 w' := by
  intro child w
  have hdue : Due shipped 1 w := due_picked _ _
  have hdrains : Drains shipped child ⟨false, 100⟩ (w.pcbs 1) childStepCap :=
    ⟨rfl, fun h => absurd h Bool.false_ne_true, rfl, rfl, rfl, by decide, by decide,
      fun _ _ => asksTool_note⟩
  obtain ⟨w', hrun, hcame⟩ :=
    hdue.undisturbed rfl rfl child.outside child (.worker 0) (hdrains.left_nonneg (by decide))
  exact ⟨hdue, w', hrun, stranded_of_came hcame hdrains⟩

/-- The same agent with a client that gives its answer at once. -/
theorem dispatch_keeps_iff_answered :
    let child : Child := { outside := .calm ⟨"FINAL: 4", 1, 1, 2⟩ }
    let w := picked
      { prompt := "go", quota := some 100, capability := some (.agent 100) } ⟨100, 100⟩
    Due shipped 1 w ∧ ∀ w',
      Dispatches shipped child.outside child (.worker 0) True ⟨false, 100⟩ 1 w w' → Kept 1 w' := by
  refine ⟨due_picked _ _, (dispatch_keeps_iff rfl (due_picked _ _) _).2 fun hdrains => ?_⟩
  have hfirst := hdrains.asks 0 (by decide)
  revert hfirst
  decide +kernel

/-! ### Agents that are failed too early -/

/-- The child of the agent uses up what it was granted, which is less than what the agent has
left, before the step cap is reached. -/
def RunsDry (cfg : KernelConfig) (child : Child) (v : Sight) (b₀ : AgentControlBlock) : Prop :=
  ∃ i, 0 < i ∧ i < childStepCap ∧ Drains cfg child v b₀ i ∧ grant v.left b₀ = i ∧
    i < b₀.quotaRemaining

/-- An agent that fails because its quota is exhausted has none left, unless its child runs
dry. -/
lemma exhausted_of_came {w' : World n} (h : Sees p (Came cfg child kills v b₀) w')
    (hno : ¬RunsDry cfg child v b₀) (hex : Exhausted (w'.pcbs p)) :
    (w'.pcbs p).quotaRemaining = 0 := by
  obtain ⟨hstate, herror⟩ := hex
  rcases h with ⟨(hback | hlost), -⟩ |
    ⟨⟨payload, hreport, ⟨⟨-, -, hsettled⟩, -⟩, hunits⟩, hlaunch⟩
  · rcases hback with ⟨-, -, hnone, -⟩ | ⟨-, -, -, hother⟩
    · rw [hnone] at herror
      cases herror
    · exact absurd herror hother
  · exact absurd herror hlost.2.2.2
  · have htext := hsettled.2.1 herror
    have hstate' : payload.state = .error := by
      rcases hsettled.1 with hst | ⟨-, hst⟩
      · rw [← hst, hstate]
      · rw [hst] at hstate
        cases hstate
    rcases hreport with hreport | ⟨-, -, hother⟩
    -- the child has made `i` calls and had no unit left
    · obtain ⟨i, hcap, htools, hused, hcalls⟩ := hreport.honest htext hstate'
      have hused' : grant v.left b₀ ≤ i := hused
      have hcalls' : payload.llmCallsUsed = b₀.llmCallsUsed + i := hcalls
      have hall : b₀.quotaRemaining ≤ i := by
        rcases Nat.eq_zero_or_pos i with rfl | hpos
        · -- nothing was granted, and the agent was not blocked
          by_contra hleft
          exact hlaunch.granted ⟨hused', by simpa using hleft⟩
        · have hdrains := (drains_iff hpos).2 ⟨hlaunch, htools⟩
          by_contra hleft
          have hgrant := hdrains.granted
          exact hno ⟨i, hpos, hcap, hdrains, le_antisymm hused' hgrant, not_le.1 hleft⟩
      rw [hunits, hcalls']
      omega
    · exact absurd htext hother

/-- An agent whose child runs dry fails as if its own quota were exhausted. -/
lemma failed_of_came {w' : World n} (h : Sees p (Came cfg child False v b₀) w')
    (hdry : RunsDry cfg child v b₀) :
    Exhausted (w'.pcbs p) ∧ (w'.pcbs p).quotaRemaining ≠ 0 := by
  obtain ⟨i, hpos, hcap, hdrains, hgrant, hleft⟩ := hdry
  obtain ⟨hlaunch, htools⟩ := (drains_iff hpos).1 hdrains
  rcases h with ⟨-, hno⟩ | ⟨⟨payload, hreport, ⟨⟨-, -, hsettled⟩, -⟩, hunits⟩, -⟩
  · exact absurd hlaunch (hno.resolve_left not_false)
  · rcases hreport with hreport | ⟨hk, -⟩
    · obtain ⟨hstate, htext⟩ := hreport.exhausts hdrains.multiStep i hcap htools hgrant.le
      obtain ⟨hstate', htext'⟩ := hsettled.2.2 not_false
      refine ⟨⟨hstate'.trans hstate, htext'.trans htext⟩, ?_⟩
      obtain ⟨j, -, htools', hused, hcalls⟩ := hreport.honest htext hstate
      -- the child has made exactly as many calls as it was granted units
      have hused' : grant v.left b₀ ≤ j := hused
      have hj : (j : ℤ) ≤ grant v.left b₀ :=
        ((drains_iff (by omega)).2 ⟨hlaunch, htools'⟩).granted
      have hcalls' : payload.llmCallsUsed = b₀.llmCallsUsed + j := hcalls
      rw [hunits, hcalls']
      omega
    · exact hk.elim

/-- **Whom the process backend fails too early.**  Whatever a dispatch finds in the mailbox and
of the global quota when it looks: in all runs that find this, an agent that ends with the error
text of an exhausted quota has no units left, if and only if its child does not run dry. -/
theorem exhaustion_genuine_iff {w : World n}
    (hpager : cfg.pager = ⟨budget, defaultPolicies true⟩) (hdue : Due cfg p w) (v : Sight) :
    (∀ w', Dispatches cfg out child t True v p w w' → Exhausted (w'.pcbs p) →
      (w'.pcbs p).quotaRemaining = 0) ↔ ¬RunsDry cfg child v (w.pcbs p) := by
  constructor
  · intro hgenuine hdry
    obtain ⟨hlive, hleft⟩ : (w.pcbs p).isTerminal = false ∧ 0 ≤ v.left := by
      obtain ⟨i, hpos, -, hdrains, -⟩ := hdry
      exact ⟨hdrains.live, hdrains.left_nonneg hpos⟩
    obtain ⟨w', hrun, hcame⟩ := hdue.undisturbed hpager hlive out child t hleft
    obtain ⟨hex, hrest⟩ := failed_of_came hcame hdry
    exact hrest (hgenuine w' hrun hex)
  · intro hno w' hrun
    obtain ⟨hq, hst⟩ := hdue.standing hpager
    exact exhausted_of_came (hrun.came hpager hq hst) hno

/-- An agent with 10 units where only 3 are left for all agents, and whose every reply asks
for a tool: it fails with 7 units of its own left. -/
theorem exhaustion_faked :
    let child : Child := { outside := .calm ⟨"TOOL: note x", 1, 1, 2⟩ }
    let w := picked { prompt := "go", quota := some 10, capability := some (.agent 8) } ⟨3, 3⟩
    Due shipped 1 w ∧ ∃ w',
      Dispatches shipped child.outside child (.worker 0) True ⟨false, 3⟩ 1 w w' ∧
        Exhausted (w'.pcbs 1) ∧ (w'.pcbs 1).quotaRemaining ≠ 0 := by
  intro child w
  have hdue : Due shipped 1 w := due_picked _ _
  have hdrains : Drains shipped child ⟨false, 3⟩ (w.pcbs 1) 3 :=
    ⟨rfl, fun h => absurd h Bool.false_ne_true, rfl, rfl, rfl, by decide, by decide,
      fun _ _ => asksTool_note⟩
  have hdry : RunsDry shipped child ⟨false, 3⟩ (w.pcbs 1) :=
    ⟨3, by decide, by decide, hdrains, rfl, by decide⟩
  obtain ⟨w', hrun, hcame⟩ :=
    hdue.undisturbed rfl rfl child.outside child (.worker 0) (hdrains.left_nonneg (by decide))
  exact ⟨hdue, w', hrun, failed_of_came hcame hdry⟩

/-- The same agent with 3 units of its own: they are really used up. -/
theorem exhaustion_genuine_iff_own_units :
    let child : Child := { outside := .calm ⟨"TOOL: note x", 1, 1, 2⟩ }
    let w := picked { prompt := "go", quota := some 3, capability := some (.agent 8) } ⟨10, 10⟩
    Due shipped 1 w ∧ ∀ w',
      Dispatches shipped child.outside child (.worker 0) True ⟨false, 10⟩ 1 w w' →
        Exhausted (w'.pcbs 1) → (w'.pcbs 1).quotaRemaining = 0 := by
  refine ⟨due_picked _ _, (exhaustion_genuine_iff rfl (due_picked _ _) _).2 ?_⟩
  rintro ⟨i, -, -, -, hgrant, hleft⟩
  -- the grant is all that the agent has
  have hall : (3 : ℤ) = i := hgrant
  have hless : (i : ℤ) < 3 := hleft
  omega

end Gcos.Process
