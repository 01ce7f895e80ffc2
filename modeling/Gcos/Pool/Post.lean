import Gcos.Pool.Holder

/-!
# The post

What goes over the message bus in a run, as somebody sees it who watches the bus
(`postman`): for whom every mailbox was made, which message every thread took last, which
sends were attempted, what was received, which mailboxes were dropped and whose prompt was
completed.  The kernel keeps no such record; the pipes between agents are described with
it.
-/

namespace Gcos.Pool

open Lib World

variable {n : ℕ} {cfg : KernelConfig} {out : Outside} {rules : Rules} {m : Manner} {w w' : World n}
  {ls : Tid n → Note} {ms : Tid n → Hold} {t : Tid n} {β : Type} {o : KOp β}

/-! ### Who pipes to whom -/

lemma wiring_apply (c : Write) (clock : ℕ → Time) (pcb : AgentControlBlock) :
    (c.apply clock pcb).pipeTo = pcb.pipeTo ∧ (c.apply clock pcb).inputFrom = pcb.inputFrom := by
  cases c with
  | transition st =>
    rw [Write.apply, AgentControlBlock.transition_frame pcb st (clock 0)]
    exact ⟨rfl, rfl⟩
  | _ => exact ⟨rfl, rfl⟩

/-- The wiring of an agent is fixed when it is spawned. -/
lemma wiring_exec {p : Pid} (hp : Allocated w.nextPid p) :
    ((exec cfg out t o w).2.pcbs p).pipeTo = (w.pcbs p).pipeTo ∧
      ((exec cfg out t o w).2.pcbs p).inputFrom = (w.pcbs p).inputFrom := by
  have hstep := pcb_exec cfg out t o hp.2.ne
  generalize (exec cfg out t o w).2.pcbs p = b at hstep ⊢
  cases hstep with
  | write c => exact wiring_apply c _ _
  | put _ =>
    rw [AgentControlBlock.transition_frame]
    exact ⟨rfl, rfl⟩
  | same => exact ⟨rfl, rfl⟩

/-- The agent `q` names `c` as its `pipe_to`. -/
def PipesTo (w : World n) (q c : Pid) : Prop :=
  Allocated w.nextPid q ∧ (w.pcbs q).pipeTo = some c

lemma PipesTo.exec {q c : Pid} (h : PipesTo w q c) : PipesTo (exec cfg out t o w).2 q c :=
  ⟨allocated_exec h.1, (wiring_exec h.1).1.trans h.2⟩

/-! ### The record -/

/-- A call of `bus.send`, with its answer. -/
structure Sending where
  target : Pid
  msg : Message
  accepted : Bool
deriving DecidableEq, Repr

/-- The substitution of a message into the prompt of an agent. -/
structure Resolution where
  agent : Pid
  prompt : String
  msg : Option Message
deriving DecidableEq, Repr

/-- What an observer of the bus remembers. -/
structure Post (n : ℕ) where
  /-- For whom a mailbox was looked up. -/
  owner : BoxId → Pid := fun _ => 0
  /-- What the last `Queue.get` of a thread gave. -/
  taken : Tid n → Option Message := fun _ => none
  /-- The sends, in order. -/
  sends : List Sending := []
  /-- The messages that were received, with the agent they were received for, in order. -/
  receipts : List (Pid × Message) := []
  /-- The agents whose mailbox was dropped. -/
  dropped : List Pid := []
  /-- The substitutions into prompts, in order. -/
  resolved : List Resolution := []

/-- The observer of the bus. -/
def postman : Observer KOp (Tid n) (World n) (Post n)
  | _, _, .mailbox target, _, box, post =>
    { post with owner := Function.update post.owner box target }
  | _, t, .mailboxGet box, _, msg, post =>
    { post with
      taken := Function.update post.taken t msg
      receipts := post.receipts ++ (msg.map fun msg => (post.owner box, msg)).toList }
  | _, _, .mailboxPut box msg, _, accepted, post =>
    { post with sends := post.sends ++ [⟨post.owner box, msg, accepted⟩] }
  | _, _, .dropMailbox p, _, _, post => { post with dropped := post.dropped ++ [p] }
  | _, t, .write p (.prompt _), w, _, post =>
    { post with resolved := post.resolved ++ [⟨p, (w.pcbs p).prompt, post.taken t⟩] }
  | _, _, _, _, _, post => post

/-! ### What the workers know about it -/

lemma aim_after {g : Grip} {b : β} (ho : o.movesBus = false) : (g.after o b).aim = g.aim := by
  cases o with
  | mailbox p | mailboxGet box | mailboxPut box msg | dropMailbox p => cases ho
  | write p c => cases c <;> rfl
  | _ => rfl

lemma got_after {g : Grip} {b : β} (ho : o.movesBus = false) {msg : Message}
    (hgot : (g.after o b).got = some msg) : g.got = some msg := by
  cases o with
  | mailbox p | mailboxGet box | mailboxPut box msg | dropMailbox p => cases ho
  | write p c =>
    cases c with
    | prompt text => cases hgot
    | _ => exact hgot
  | _ => exact hgot

/-- The record and the bus agree, and a message comes from an agent that pipes to the owner
of the mailbox. -/
structure Posted (w : World n) (post : Post n) (ms : Tid n → Hold) : Prop where
  filed : ∀ x ∈ w.bus.mailboxes, post.owner x.2 = x.1 ∧ x.2 < w.bus.nextBox
  once : w.bus.pids.Nodup
  aimed : ∀ t p g c b, ms t = .holding p g → g.aim = some (c, b) →
    post.owner b = c ∧ b < w.bus.nextBox
  letters : ∀ b, ∀ msg ∈ w.bus.boxes b, PipesTo w msg.fromPid (post.owner b)
  got : ∀ t p g msg, ms t = .holding p g → g.got = some msg →
    post.taken t = some msg ∧ PipesTo w msg.fromPid p

/-- An agent has at most one mailbox. -/
lemma Posted.mailbox_unique {post : Post n} (h : Posted w post ms) {c : Pid} {b b' : BoxId}
    (hb : (c, b) ∈ w.bus.mailboxes) (hb' : (c, b') ∈ w.bus.mailboxes) : b = b' :=
  congrArg Prod.snd (List.inj_on_of_nodup_map h.once hb hb' rfl)

lemma posted_fresh {quota : Quota} :
    Posted (freshWorld n quota) {} fun t => if t.isWorker then .idle else .client none where
  filed := by simp [freshWorld]
  once := List.nodup_nil
  aimed := by
    intro t p g c b hl
    split at hl <;> cases hl
  letters := by simp [freshWorld]
  got := by
    intro t p g msg hl
    split at hl <;> cases hl

/-- A mailbox that a worker has looked up stays the one of the same agent. -/
lemma Posted.aimed_after {post : Post n} (h : Posted w post ms) {l' : Hold} {a : β}
    (hlearn : (ms t).learns m o a l') {u : Tid n} {p : Pid} {g' : Grip} {c : Pid} {b : BoxId}
    (hl : Function.update ms t l' u = .holding p g') (haim : g'.aim = some (c, b))
    (hself : ∀ g : Grip, (g.after o a).aim = some (c, b) → g.aim = some (c, b)) :
    post.owner b = c ∧ b < w.bus.nextBox := by
  rcases holding_after hlearn hl with ⟨rfl, -⟩ | ⟨g, hg, ⟨-, rfl⟩ | ⟨-, rfl⟩⟩
  · cases haim
  · exact h.aimed u p g' c b hg haim
  · exact h.aimed u p g c b hg (hself g haim)

/-- So does the message that it has taken. -/
lemma Posted.got_after {post : Post n} (h : Posted w post ms) {l' : Hold} {a : β}
    (hlearn : (ms t).learns m o a l') {u : Tid n} {p : Pid} {g' : Grip} {msg : Message}
    (hl : Function.update ms t l' u = .holding p g') (hgot : g'.got = some msg)
    (hself : ∀ g : Grip, (g.after o a).got = some msg → g.got = some msg) :
    post.taken u = some msg ∧ PipesTo w msg.fromPid p := by
  rcases holding_after hlearn hl with ⟨rfl, -⟩ | ⟨g, hg, ⟨-, rfl⟩ | ⟨-, rfl⟩⟩
  · cases hgot
  · exact h.got u p g' msg hg hgot
  · exact h.got u p g msg hg (hself g hgot)

/-- An operation that has nothing to do with the bus. -/
lemma Posted.frame {post : Post n} (h : Posted w post ms) (ho : o.movesBus = false) {l' : Hold}
    (hlearn : (ms t).learns m o (exec cfg out t o w).1 l') {post' : Post n}
    (howner : post'.owner = post.owner) (htaken : post'.taken = post.taken) :
    Posted (exec cfg out t o w).2 post' (Function.update ms t l') where
  filed := by
    rw [bus_exec ho, howner]
    exact h.filed
  once := by
    rw [bus_exec ho]
    exact h.once
  aimed := by
    intro u p g' c b hl haim
    rw [bus_exec ho, howner]
    refine h.aimed_after hlearn hl haim fun g haim => ?_
    rwa [aim_after ho] at haim
  letters := by
    intro b msg hmsg
    rw [bus_exec ho] at hmsg
    rw [howner]
    exact (h.letters b msg hmsg).exec
  got := by
    intro u p g' msg hl hgot
    rw [htaken]
    exact (h.got_after hlearn hl hgot fun g hgot => Pool.got_after ho hgot).imp id PipesTo.exec

/-- Looking up a mailbox. -/
lemma Posted.mailbox {post : Post n} (h : Posted w post ms) {target : Pid} {l' : Hold}
    (hlearn : (ms t).learns m (.mailbox target) (exec cfg out t (.mailbox target) w).1 l') :
    Posted (exec cfg out t (.mailbox target) w).2
      (postman t (.mailbox target) w (exec cfg out t (.mailbox target) w).1 post)
      (Function.update ms t l') := by
  have hpipes : ∀ q c, PipesTo w q c → PipesTo (exec cfg out t (.mailbox target) w).2 q c :=
    fun q c hq => hq.exec
  simp only [exec] at hlearn hpipes ⊢
  rcases w.bus.mailbox_cases target with ⟨box, hbox, heq⟩ | ⟨hnone, heq⟩
  · -- the mailbox is there, and the record knows for whom
    rw [heq] at hlearn hpipes ⊢
    obtain ⟨rfl, hlt⟩ : post.owner box = target ∧ box < w.bus.nextBox := h.filed _ hbox
    have howner : postman t (.mailbox (post.owner box)) w box post = post := by
      simp only [postman, Function.update_eq_self]
    rw [howner]
    refine ⟨h.filed, h.once, fun u p g' c b hl haim => ?_, h.letters, fun u p g' msg hl hgot => ?_⟩
    · rcases holding_after hlearn hl with ⟨rfl, -⟩ | ⟨g, hg, ⟨-, rfl⟩ | ⟨-, rfl⟩⟩
      · cases haim
      · exact h.aimed u p g' c b hg haim
      · cases haim
        exact ⟨rfl, hlt⟩
    · exact h.got_after hlearn hl hgot fun _ hgot => hgot
  · -- a new mailbox, which nobody knows yet
    rw [heq] at hlearn hpipes ⊢
    have hother : ∀ b < w.bus.nextBox, Function.update post.owner w.bus.nextBox target b =
        post.owner b := fun b hb => Function.update_of_ne hb.ne _ _
    refine ⟨fun x hx => ?_, ?_, fun u p g' c b hl haim => ?_, fun b msg hmsg => ?_,
      fun u p g' msg hl hgot => ?_⟩
    · rcases List.mem_append.1 hx with hx | hx
      · obtain ⟨howner, hlt⟩ := h.filed x hx
        exact ⟨(hother _ hlt).trans howner, hlt.trans (Nat.lt_succ_self _)⟩
      · obtain rfl := List.mem_singleton.1 hx
        exact ⟨Function.update_self .., Nat.lt_succ_self _⟩
    · rw [MessageBus.pids, List.map_append, List.nodup_append]
      refine ⟨h.once, by simp, fun a ha b hb => ?_⟩
      obtain rfl : b = target := by simpa using hb
      rintro rfl
      exact hnone ha
    · rcases holding_after hlearn hl with ⟨rfl, -⟩ | ⟨g, hg, ⟨-, rfl⟩ | ⟨-, rfl⟩⟩
      · cases haim
      · obtain ⟨howner, hlt⟩ := h.aimed u p g' c b hg haim
        exact ⟨(hother _ hlt).trans howner, hlt.trans (Nat.lt_succ_self _)⟩
      · cases haim
        exact ⟨Function.update_self .., Nat.lt_succ_self _⟩
    · by_cases hb : b = w.bus.nextBox
      · subst hb
        simp at hmsg
      · simp only [Function.update_of_ne hb] at hmsg
        simp only [postman, Function.update_of_ne hb]
        exact h.letters b msg hmsg
    · exact h.got_after hlearn hl hgot fun _ hgot => hgot

/-- Taking a message. -/
lemma Posted.get {post : Post n} (h : Posted w post ms) {box : BoxId} {l' : Hold}
    (hpre : (ms t).allows m (.mailboxGet box))
    (hlearn : (ms t).learns m (.mailboxGet box) (exec cfg out t (.mailboxGet box) w).1 l') :
    Posted (exec cfg out t (.mailboxGet box) w).2
      (postman t (.mailboxGet box) w (exec cfg out t (.mailboxGet box) w).1 post)
      (Function.update ms t l') := by
  obtain ⟨p, g, hl, -, haim⟩ := hpre
  obtain ⟨howner, -⟩ := h.aimed t p g p box hl haim
  simp only [exec] at hlearn ⊢
  have hfile := w.bus.get_frame box
  refine ⟨?_, ?_, fun u q g' c b hq haim' => ?_, fun b msg hmsg => ?_, fun u q g' msg hq hgot => ?_⟩
  · rw [hfile.1, hfile.2]
    exact h.filed
  · rw [MessageBus.pids, hfile.1]
    exact h.once
  · rw [hfile.2]
    exact h.aimed_after hlearn hq haim' fun _ haim => haim
  · exact h.letters b msg (MessageBus.mem_of_mem_get hmsg)
  · rcases holding_after hlearn hq with ⟨rfl, -⟩ | ⟨g₀, hg, ⟨hu, rfl⟩ | ⟨rfl, rfl⟩⟩
    · cases hgot
    · simp only [postman, Function.update_of_ne hu]
      exact h.got u q g' msg hg hgot
    · have hmsg : (w.bus.get box).1 = some msg := hgot
      obtain ⟨rfl, -⟩ : q = p ∧ g₀ = g := by simpa [hl, eq_comm] using hg
      refine ⟨by simp only [postman, Function.update_self, hmsg], ?_⟩
      have hletter := h.letters box msg (MessageBus.mem_of_get hmsg)
      rw [howner] at hletter
      exact hletter

/-- Sending a message. -/
lemma Posted.put {post : Post n} (hH : HoldInv w ms) (hI : Inv rules w ls) (h : Posted w post ms)
    {box : BoxId} {msg : Message} {l' : Hold} (hpre : (ms t).allows m (.mailboxPut box msg))
    (hlearn : (ms t).learns m (.mailboxPut box msg) (exec cfg out t (.mailboxPut box msg) w).1 l') :
    Posted (exec cfg out t (.mailboxPut box msg) w).2
      (postman t (.mailboxPut box msg) w (exec cfg out t (.mailboxPut box msg) w).1 post)
      (Function.update ms t l') := by
  obtain ⟨g, pcb, target, hl, ⟨hseen, -, hpipe, -⟩, haim, -⟩ := hpre
  obtain ⟨howner, -⟩ := h.aimed t _ g target box hl haim
  -- the sender pipes to the owner of the mailbox
  have hsender : PipesTo w msg.fromPid (post.owner box) := by
    have henq := (hI.owned.held t _ ((hH.held t _).2 ⟨g, hl⟩)).1
    refine ⟨hI.owned.allocated _ henq, ?_⟩
    rw [howner, ((hH.fits t _ g hl).seen pcb hseen).2.2.1]
    exact hpipe
  simp only [exec] at hlearn ⊢
  have hfile := w.bus.putNowait_frame box msg
  refine ⟨?_, ?_, fun u q g' c b hq haim' => ?_, fun b msg' hmsg => ?_,
    fun u q g' msg' hq hgot => ?_⟩
  · rw [hfile.1, hfile.2]
    exact h.filed
  · rw [MessageBus.pids, hfile.1]
    exact h.once
  · rw [hfile.2]
    exact h.aimed_after hlearn hq haim' fun _ haim => haim
  · rcases MessageBus.mem_of_mem_putNowait hmsg with hmsg | ⟨rfl, rfl⟩
    · exact h.letters b msg' hmsg
    · exact hsender
  · exact h.got_after hlearn hq hgot fun _ hgot => hgot

/-- Dropping a mailbox. -/
lemma Posted.drop {post : Post n} (h : Posted w post ms) {p : Pid} {l' : Hold}
    (hlearn : (ms t).learns m (.dropMailbox p) (exec cfg out t (.dropMailbox p) w).1 l') :
    Posted (exec cfg out t (.dropMailbox p) w).2
      (postman t (.dropMailbox p) w (exec cfg out t (.dropMailbox p) w).1 post)
      (Function.update ms t l') := by
  have hsub : (w.bus.dropMailbox p).mailboxes.Sublist w.bus.mailboxes := List.filter_sublist
  refine ⟨fun x hx => h.filed x (hsub.subset hx), ?_, fun u q g' c b hq haim => ?_, h.letters,
    fun u q g' msg hq hgot => ?_⟩
  · exact h.once.sublist (hsub.map _)
  · exact h.aimed_after hlearn hq haim fun _ haim => haim
  · exact h.got_after hlearn hq hgot fun _ hgot => hgot

/-- **The post is in order**, one operation at a time. -/
lemma upholds_posted (cfg : KernelConfig) (out : Outside) (rules : Rules) (m : Manner)
    (K : System.Guard KOp (Tid n) (World n × Post n)) :
    Upholds cfg out rules m postman (fun w post _ ms => Posted w post ms) K := by
  intro β t o w post ls ms l l' hI hH h _ hpre _ _ hlearn _ _
  cases o with
  | mailbox target => exact h.mailbox hlearn
  | mailboxGet box => exact h.get hpre hlearn
  | mailboxPut box msg => exact h.put hH hI hpre hlearn
  | dropMailbox p => exact h.drop hlearn
  | write p c =>
    refine h.frame rfl hlearn ?_ ?_
    · cases c <;> rfl
    · cases c <;> rfl
  | _ => exact h.frame rfl hlearn rfl rfl

/-- The invariants of a run that is watched by the observer of the bus. -/
lemma posted_run (cfg : KernelConfig) (out : Outside) (quota : Quota)
    (as : List (Act (Tid n) KernelCall)) :
    Holds {} {} (fun w post _ ms => Posted w post ms)
      (((kernelSystem n cfg out).run (boot n quota) as).beside
        ((kernelSystem n cfg out).observed postman (boot n quota) {} as)) := by
  refine (holds_boot rfl posted_fresh).run ⟨rfl, by simp, by simp, by simp, Nat.zero_le _⟩
    (upholds_posted cfg out {} {} System.noGuard) (System.meets_noGuard _ _ as)
    fun _ _ _ => ⟨by simp, by simp⟩

end Gcos.Pool
