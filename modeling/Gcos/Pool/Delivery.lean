import Gcos.Pool.Post
import Gcos.Pool.Dead

/-!
# The producer's end of a pipe

A worker forwards the result of the agent that it holds when the agent is `DONE` and names
somebody to pipe to.  The attempt is made once: an agent that is `DONE` is not put back,
so no second dispatch finds it, and no exit from the dispatch leaves the attempt out.  What
is accepted by a mailbox comes out of it in the same order.
-/

namespace Gcos.Pool

open Lib World

variable {n : ℕ} {cfg : KernelConfig} {out : Outside} {rules : Rules} {m : Manner} {w w' : World n}
  {ls : Tid n → Note} {ms : Tid n → Hold} {t : Tid n} {β : Type} {o : KOp β} {post : Post n}
  {l' : Hold} {p c : Pid}

/-- The sends of an agent. -/
def sendsOf (post : Post n) (p : Pid) : List Sending := post.sends.filter (·.msg.fromPid = p)

/-- The messages to an agent that its mailbox accepted. -/
def acceptedFor (post : Post n) (c : Pid) : List Message :=
  (post.sends.filter fun s => s.target = c ∧ s.accepted = true).map (·.msg)

/-- The messages that were received for an agent. -/
def receivedBy (post : Post n) (c : Pid) : List Message :=
  (post.receipts.filter (·.1 = c)).map (·.2)

/-! ### Becoming `DONE` -/

/-- Only the holder of an agent brings it to `DONE`, and goes on holding it. -/
lemma holding_of_done (hpre : (ms t).allows m o)
    (hlearn : (ms t).learns m o (exec cfg out t o w).1 l')
    (hdone : ((exec cfg out t o w).2.pcbs p).state = .done) :
    (w.pcbs p).state = .done ∨ ∃ g, l' = .holding p g := by
  cases o with
  | write q v =>
    rw [(exec_write cfg out t w q v).1] at hdone
    rcases update_cases AgentControlBlock.state hdone with ⟨rfl, hnow⟩ | ⟨-, hdone⟩
    · cases v with
      | transition st =>
        cases hterm : (w.pcbs p).isTerminal with
        | true =>
          rw [Write.apply, AgentControlBlock.transition_of_isTerminal _ _ _ hterm] at hnow
          exact .inl hnow
        | false =>
          rw [Write.apply, AgentControlBlock.state_transition_of_live _ _ _ hterm] at hnow
          subst hnow
          cases hl : ms t with
          | idle | released | client _ =>
            rw [hl] at hpre
            exact hpre.elim
          | holding r g =>
            rw [hl] at hpre hlearn
            obtain ⟨rfl, -⟩ := hpre
            exact .inr ⟨_, hlearn⟩
      | _ => exact .inl hnow
    · exact .inl hdone
  | newPcb args =>
    simp only [exec, note] at hdone
    by_cases hp : p = (w.nextPid : ℤ)
    · rw [hp, Function.update_self] at hdone
      cases hdone
    · rw [Function.update_of_ne hp] at hdone
      exact .inl hdone
  | put q =>
    simp only [exec, World.put] at hdone
    split at hdone
    · exact .inl hdone
    · next hlive =>
      simp only [note] at hdone
      by_cases hq : p = q
      · rw [hq, Function.update_self,
          AgentControlBlock.state_transition_of_live _ _ _ (by simpa using hlive)] at hdone
        cases hdone
      · rw [Function.update_of_ne hq] at hdone
        exact .inl hdone
  | _ =>
    rw [pcbs_exec rfl] at hdone
    exact .inl hdone

/-- The result of an agent that is `DONE` is final. -/
lemma result_exec_of_done (hH : HoldInv w ms) (hpre : (ms t).allows m o)
    (hp : Allocated w.nextPid p) (hdone : (w.pcbs p).state = .done) :
    ((exec cfg out t o w).2.pcbs p).result = (w.pcbs p).result := by
  have hstep := pcb_exec cfg out t o hp.2.ne
  generalize (exec cfg out t o w).2.pcbs p = b at hstep ⊢
  cases hstep with
  | write v =>
    cases v with
    | result text =>
      cases hl : ms t with
      | idle | released | client _ =>
        rw [hl] at hpre
        exact hpre.elim
      | holding r g =>
        rw [hl] at hpre
        obtain ⟨rfl, hundone⟩ := hpre
        exact absurd hdone ((hH.fits t r g hl).undone hundone)
    | transition st => rw [Write.apply, AgentControlBlock.transition_frame]
    | _ => rfl
  | put _ => rw [AgentControlBlock.transition_frame]
  | same => rfl

/-- An agent that pipes to somebody and is `DONE` did so before. -/
lemma pipesTo_of_exec (hpipe : PipesTo (exec cfg out t o w).2 p c)
    (hdone : ((exec cfg out t o w).2.pcbs p).state = .done) : PipesTo w p c := by
  have halloc : Allocated w.nextPid p := by
    cases o with
    | newPcb args =>
      refine ⟨hpipe.1.1, lt_of_le_of_ne (Int.lt_add_one_iff.1 hpipe.1.2) fun heq => ?_⟩
      simp only [exec, note] at hdone
      rw [heq, Function.update_self] at hdone
      cases hdone
    | _ =>
      have hp := hpipe.1
      rwa [nextPid_exec rfl] at hp
  exact ⟨halloc, (wiring_exec halloc).1.symm.trans hpipe.2⟩

lemma isTerminal_of_done {pcb : AgentControlBlock} (h : pcb.state = .done) :
    pcb.isTerminal = true := by
  rw [AgentControlBlock.isTerminal, h]
  rfl

lemma done_exec (hp : Allocated w.nextPid p) (hdone : (w.pcbs p).state = .done) :
    ((exec cfg out t o w).2.pcbs p).state = .done :=
  (state_exec_of_isTerminal cfg out t o (isTerminal_of_done hdone) hp).1.trans hdone

/-- The holder of a terminal agent lets go of it with `task_done` only, and then nothing is
left to be forwarded. -/
lemma holding_or_settled {g : Grip} (hl : ms t = .holding p g)
    (hdead : (w.pcbs p).isTerminal = true) (hpre : (ms t).allows m o)
    (hlearn : (ms t).learns m o (exec cfg out t o w).1 l') :
    (∃ g', l' = .holding p g') ∨ (m.bus = true → g.settled = true) := by
  rw [hl] at hpre hlearn
  cases o with
  | taskDone =>
    rcases hpre with hrel | ⟨p', g', hg, hsettled⟩
    · cases hrel
    · cases hg
      exact .inr hsettled
  | put q =>
    rcases hpre with hcl | ⟨g', hg, -⟩
    · cases hcl
    · cases hg
      have hrefused : (exec cfg out t (.put p) w).1 = false := by
        simp only [exec, World.put, hdead, if_true]
      rw [hrefused] at hlearn
      exact .inl ⟨g, hlearn⟩
  | _ => exact .inl ⟨_, Hold.holding_of_not_releases hpre hlearn rfl⟩

/-! ### Sent once -/

/-- Every send was made by an agent that is `DONE`, with its result, to the agent that it
names; none is made twice; and while one is still to be made, somebody holds the agent. -/
structure Sent (w : World n) (post : Post n) (ms : Tid n → Hold) : Prop where
  truthful : ∀ s ∈ post.sends, PipesTo w s.msg.fromPid s.target ∧
    (w.pcbs s.msg.fromPid).state = .done ∧
    s.msg.content = (w.pcbs s.msg.fromPid).result.getD ""
  atMostOne : ∀ p, (sendsOf post p).length ≤ 1
  unsent : ∀ t p g, ms t = .holding p g → g.sent = false → sendsOf post p = []
  sent : ∀ t p g, ms t = .holding p g → g.sent = true → sendsOf post p ≠ []
  forwarded : ∀ p c, PipesTo w p c → (w.pcbs p).state = .done → sendsOf post p = [] →
    ∃ t g, ms t = .holding p g

lemma mem_sendsOf {s : Sending} : s ∈ sendsOf post p ↔ s ∈ post.sends ∧ s.msg.fromPid = p := by
  simp [sendsOf]

lemma sendsOf_eq_nil (h : Sent w post ms) (hp : (w.pcbs p).state ≠ .done) : sendsOf post p = [] := by
  refine List.eq_nil_iff_forall_not_mem.2 fun s hs => ?_
  obtain ⟨hmem, rfl⟩ := mem_sendsOf.1 hs
  exact hp (h.truthful s hmem).2.1

/-- What the sender of a message knows. -/
lemma Posted.truthful (h : Posted w post ms) (hI : Inv rules w ls) (hH : HoldInv w ms)
    {box : BoxId} {msg : Message} (hpre : (ms t).allows m (.mailboxPut box msg)) :
    (∃ g, ms t = .holding msg.fromPid g ∧ g.sent = false) ∧
      PipesTo w msg.fromPid (post.owner box) ∧ (w.pcbs msg.fromPid).state = .done ∧
      msg.content = (w.pcbs msg.fromPid).result.getD "" := by
  obtain ⟨g, pcb, target, hl, ⟨hseen, hdone, hpipe, hsent⟩, haim, hcontent⟩ := hpre
  obtain ⟨-, hresult, hpipe', -, hdone'⟩ := (hH.fits t _ g hl).seen pcb hseen
  have henq := (hI.owned.held t _ ((hH.held t _).2 ⟨g, hl⟩)).1
  refine ⟨⟨g, hl, hsent⟩, ⟨hI.owned.allocated _ henq, ?_⟩, hdone' hdone, ?_⟩
  · rw [(h.aimed t _ g target box hl haim).1, hpipe', hpipe]
  · rw [hcontent, hresult]

lemma sent_after {g : Grip} {b : β} (ho : o.posts = false) : (g.after o b).sent = g.sent := by
  cases o with
  | mailboxPut box msg => cases ho
  | write p v => cases v <;> rfl
  | _ => rfl

lemma sends_postman {b : β} (ho : o.posts = false) : (postman t o w b post).sends = post.sends := by
  cases o with
  | mailboxPut box msg => cases ho
  | write p v => cases v <;> rfl
  | _ => rfl

/-- An agent that is `DONE` and has not sent is still held. -/
lemma Sent.held_exec (h : Sent w post ms) (hH : HoldInv w ms) (hbus : m.bus = true)
    (hpre : (ms t).allows m o) (hlearn : (ms t).learns m o (exec cfg out t o w).1 l')
    (hpipe : PipesTo w p c) (hdone : (w.pcbs p).state = .done) (hnone : sendsOf post p = []) :
    ∃ u g, Function.update ms t l' u = .holding p g := by
  obtain ⟨u, g, hu⟩ := h.forwarded p c hpipe hdone hnone
  by_cases hut : u = t
  · subst hut
    rcases holding_or_settled hu (isTerminal_of_done hdone) hpre hlearn with ⟨g', rfl⟩ | hsettled
    · exact ⟨u, g', Function.update_self ..⟩
    · -- what is settled is not `DONE`, or sent, or has nobody to pipe to
      have hfits := hH.fits u p g hu
      have hcases := hsettled hbus
      simp only [Grip.settled, Bool.or_eq_true] at hcases
      rcases hcases with (hcase | hcase) | hcase
      · exact absurd hdone (hfits.undone hcase)
      · exact absurd hnone (h.sent u p g hu hcase)
      · have hpipe' := hpipe.2
        rw [hfits.noPipe hcase] at hpipe'
        cases hpipe'
  · exact ⟨u, g, by rwa [Function.update_of_ne hut]⟩

/-- An operation that sends nothing. -/
lemma Sent.frame (h : Sent w post ms) (hH : HoldInv w ms) (hbus : m.bus = true)
    (hpre : (ms t).allows m o)
    (hlearn : (ms t).learns m o (exec cfg out t o w).1 l')
    (hH' : HoldInv (exec cfg out t o w).2 (Function.update ms t l')) (ho : o.posts = false)
    {post' : Post n} (hsends : post'.sends = post.sends) :
    Sent (exec cfg out t o w).2 post' (Function.update ms t l') := by
  have hof : ∀ p, sendsOf post' p = sendsOf post p := fun p => by rw [sendsOf, sendsOf, hsends]
  have htruthful : ∀ s ∈ post'.sends, PipesTo (exec cfg out t o w).2 s.msg.fromPid s.target ∧
      ((exec cfg out t o w).2.pcbs s.msg.fromPid).state = .done ∧
      s.msg.content = ((exec cfg out t o w).2.pcbs s.msg.fromPid).result.getD "" := by
    intro s hs
    rw [hsends] at hs
    obtain ⟨hpipe, hdone, hcontent⟩ := h.truthful s hs
    refine ⟨hpipe.exec, done_exec hpipe.1 hdone, ?_⟩
    rw [result_exec_of_done hH hpre hpipe.1 hdone]
    exact hcontent
  refine ⟨htruthful, fun p => ?_, fun u p g' hu hsent => ?_, fun u p g' hu hsent => ?_,
    fun p c hpipe hdone hnone => ?_⟩
  · rw [hof]
    exact h.atMostOne p
  · rcases holding_after hlearn hu with ⟨rfl, -⟩ | ⟨g, hg, ⟨-, rfl⟩ | ⟨-, rfl⟩⟩
    · -- an agent that was just picked is not `DONE`
      refine List.eq_nil_iff_forall_not_mem.2 fun s hs => ?_
      obtain ⟨hmem, rfl⟩ := mem_sendsOf.1 hs
      exact (hH'.fits u _ _ hu).undone rfl (htruthful s hmem).2.1
    · rw [hof]
      exact h.unsent u p g' hg hsent
    · rw [hof]
      rw [sent_after ho] at hsent
      exact h.unsent u p g hg hsent
  · rw [hof]
    rcases holding_after hlearn hu with ⟨rfl, -⟩ | ⟨g, hg, ⟨-, rfl⟩ | ⟨-, rfl⟩⟩
    · cases hsent
    · exact h.sent u p g' hg hsent
    · rw [sent_after ho] at hsent
      exact h.sent u p g hg hsent
  · rw [hof] at hnone
    have hpipe' := pipesTo_of_exec hpipe hdone
    rcases holding_of_done hpre hlearn hdone with hdone' | ⟨g, rfl⟩
    · exact h.held_exec hH hbus hpre hlearn hpipe' hdone' hnone
    · exact ⟨t, g, Function.update_self ..⟩

/-- The send of a message. -/
lemma Sent.put (h : Sent w post ms) (hposted : Posted w post ms) (hI : Inv rules w ls)
    (hH : HoldInv w ms) {box : BoxId} {msg : Message}
    (hpre : (ms t).allows m (.mailboxPut box msg))
    (hlearn : (ms t).learns m (.mailboxPut box msg) (exec cfg out t (.mailboxPut box msg) w).1 l') :
    Sent (exec cfg out t (.mailboxPut box msg) w).2
      (postman t (.mailboxPut box msg) w (exec cfg out t (.mailboxPut box msg) w).1 post)
      (Function.update ms t l') := by
  obtain ⟨⟨g, hl, hunsent⟩, hpipe, hdone, hcontent⟩ := hposted.truthful hI hH hpre
  have hl' : l' = .holding msg.fromPid { g with sent := true } := by
    rw [hl] at hlearn
    exact hlearn
  have hof : ∀ p, sendsOf (postman t (.mailboxPut box msg) w
      (exec cfg out t (.mailboxPut box msg) w).1 post) p = sendsOf post p ++
        if msg.fromPid = p then [⟨post.owner box, msg,
          (exec cfg out t (.mailboxPut box msg) w).1⟩] else [] := by
    intro p
    simp only [sendsOf, postman, List.filter_append]
    by_cases hp : msg.fromPid = p <;> simp [hp]
  -- the block of the sender stays as it is, and the sender is held by this worker alone
  have hother : ∀ u p g', Function.update ms t l' u = .holding p g' →
      u = t ∧ p = msg.fromPid ∧ g'.sent = true ∨ msg.fromPid ≠ p ∧ ms u = .holding p g' := by
    intro u p g' hu
    by_cases hut : u = t
    · subst hut
      rw [Function.update_self, hl'] at hu
      cases hu
      exact .inl ⟨rfl, rfl, rfl⟩
    · rw [Function.update_of_ne hut] at hu
      refine .inr ⟨?_, hu⟩
      rintro rfl
      exact hut (hI.owned.held_once u t _ ((hH.held u _).2 ⟨g', hu⟩) ((hH.held t _).2 ⟨g, hl⟩))
  refine ⟨fun s hs => ?_, fun p => ?_, fun u p g' hu hsent => ?_, fun u p g' hu hsent => ?_,
    fun p c hpipe' hdone' hnone => ?_⟩
  · rcases List.mem_append.1 hs with hs | hs
    · exact h.truthful s hs
    · obtain rfl := List.mem_singleton.1 hs
      exact ⟨hpipe, hdone, hcontent⟩
  · rw [hof]
    by_cases hp : msg.fromPid = p
    · rw [if_pos hp, ← hp, h.unsent t _ g hl hunsent]
      exact le_rfl
    · rw [if_neg hp, List.append_nil]
      exact h.atMostOne p
  · rcases hother u p g' hu with ⟨-, -, hsent'⟩ | ⟨hp, hu'⟩
    · rw [hsent'] at hsent
      cases hsent
    · rw [hof, if_neg hp, List.append_nil]
      exact h.unsent u p g' hu' hsent
  · rw [hof]
    rcases hother u p g' hu with ⟨-, rfl, -⟩ | ⟨hp, hu'⟩
    · simp
    · rw [if_neg hp, List.append_nil]
      exact h.sent u p g' hu' hsent
  · rw [hof, List.append_eq_nil_iff] at hnone
    obtain ⟨u, g', hu⟩ := h.forwarded p c hpipe' hdone' hnone.1
    by_cases hut : u = t
    · subst hut
      rw [hl] at hu
      cases hu
      exact ⟨u, _, (Function.update_self ..).trans hl'⟩
    · exact ⟨u, g', by rwa [Function.update_of_ne hut]⟩

/-- **Sent once**, one operation at a time. -/
lemma upholds_sent (cfg : KernelConfig) (out : Outside) (rules : Rules) (hbus : m.bus = true)
    (K : System.Guard KOp (Tid n) (World n × Post n)) :
    Upholds cfg out rules m postman
      (fun w post _ ms => Posted w post ms ∧ Sent w post ms) K := by
  intro β t o w post ls ms l l' hI hH ⟨hposted, h⟩ hpre₁ hpre hK hlearn₁ hlearn hI' hH'
  refine ⟨upholds_posted cfg out rules m K β t o w post ls ms l l' hI hH hposted hpre₁
    hpre hK hlearn₁ hlearn hI' hH', ?_⟩
  cases o with
  | mailboxPut box msg => exact h.put hposted hI hH hpre hlearn
  | _ => exact h.frame hH hbus hpre hlearn hH' rfl (sends_postman rfl)

/-! ### Received in order -/

/-- What a mailbox that is never dropped has accepted was received, or is still in it. -/
structure Delivered (w : World n) (post : Post n) (c : Pid) : Prop where
  filed : ∀ b < w.bus.nextBox, post.owner b = c → (c, b) ∈ w.bus.mailboxes
  queued : ∀ b, (c, b) ∈ w.bus.mailboxes →
    acceptedFor post c = receivedBy post c ++ w.bus.boxes b
  silent : c ∉ w.bus.pids → acceptedFor post c = [] ∧ receivedBy post c = []

lemma Delivered.mailbox (h : Delivered w post c) (hposted : Posted w post ms) {target : Pid} :
    Delivered (exec cfg out t (.mailbox target) w).2
      (postman t (.mailbox target) w (exec cfg out t (.mailbox target) w).1 post) c := by
  simp only [exec]
  rcases w.bus.mailbox_cases target with ⟨box, hbox, heq⟩ | ⟨hnone, heq⟩
  · rw [heq]
    have howner : post.owner box = target := (hposted.filed _ hbox).1
    simp only [postman, ← howner, Function.update_eq_self]
    exact h
  · rw [heq]
    refine ⟨fun b hb howner => ?_, fun b hb => ?_, fun hc => ?_⟩
    · rcases (Nat.lt_succ_iff.1 hb).eq_or_lt with rfl | hlt
      · simp only [postman, Function.update_self] at howner
        subst howner
        exact List.mem_append_right _ (List.mem_singleton_self _)
      · simp only [postman, Function.update_of_ne hlt.ne] at howner
        exact List.mem_append_left _ (h.filed b hlt howner)
    · rcases List.mem_append.1 hb with hb | hb
      · have hlt : b < w.bus.nextBox := (hposted.filed _ hb).2
        simp only [Function.update_of_ne hlt.ne]
        exact h.queued b hb
      · -- a new mailbox is empty, and nothing was sent there before
        obtain ⟨rfl, rfl⟩ : c = target ∧ b = w.bus.nextBox := by simpa using hb
        obtain ⟨haccepted, hreceived⟩ := h.silent hnone
        simp only [Function.update_self, List.append_nil]
        exact haccepted.trans hreceived.symm
    · refine h.silent fun hmem => hc ?_
      rw [MessageBus.pids, List.map_append]
      exact List.mem_append_left _ hmem

lemma Delivered.get (h : Delivered w post c) (hposted : Posted w post ms) {box : BoxId}
    (hpre : (ms t).allows m (.mailboxGet box)) :
    Delivered (exec cfg out t (.mailboxGet box) w).2
      (postman t (.mailboxGet box) w (exec cfg out t (.mailboxGet box) w).1 post) c := by
  obtain ⟨p, g, hl, -, haim⟩ := hpre
  obtain ⟨howner, hlt⟩ := hposted.aimed t p g p box hl haim
  simp only [exec, MessageBus.get]
  cases hbox : w.bus.boxes box with
  | nil =>
    refine ⟨h.filed, fun b hb => ?_, fun hc => ?_⟩
    · simpa [acceptedFor, receivedBy, postman] using h.queued b hb
    · simpa [acceptedFor, receivedBy, postman] using h.silent hc
  | cons msg rest =>
    have hreceived : receivedBy (postman t (.mailboxGet box) w (some msg) post) c =
        receivedBy post c ++ if post.owner box = c then [msg] else [] := by
      simp only [receivedBy, postman, Option.map_some, Option.toList_some, List.filter_append]
      by_cases hc : post.owner box = c <;> simp [hc]
    refine ⟨h.filed, fun b hb => ?_, fun hc => ?_⟩
    · rw [hreceived]
      have hqueued := h.queued b hb
      by_cases hb' : b = box
      · subst hb'
        have hc : post.owner b = c := (hposted.filed _ hb).1
        rw [hbox] at hqueued
        simp only [if_pos hc, Function.update_self, List.append_assoc, List.singleton_append]
        exact hqueued
      · have hc : post.owner box ≠ c := by
          intro hc
          -- the agent has one mailbox, and this is not it
          have hmem := h.filed box hlt hc
          exact hb' (hposted.mailbox_unique hb hmem)
        simp only [if_neg hc, List.append_nil, Function.update_of_ne hb']
        exact hqueued
    · have hc' : post.owner box ≠ c := by
        intro howner'
        exact hc (List.mem_map.2 ⟨_, h.filed box hlt howner', rfl⟩)
      rw [hreceived, if_neg hc', List.append_nil]
      exact h.silent hc

lemma Delivered.put (h : Delivered w post c) (hposted : Posted w post ms) {box : BoxId}
    {msg : Message} (hpre : (ms t).allows m (.mailboxPut box msg)) :
    Delivered (exec cfg out t (.mailboxPut box msg) w).2
      (postman t (.mailboxPut box msg) w (exec cfg out t (.mailboxPut box msg) w).1 post) c := by
  obtain ⟨g, pcb, target, hl, -, haim, -⟩ := hpre
  obtain ⟨howner, hlt⟩ := hposted.aimed t _ g target box hl haim
  have haccepted : ∀ b, acceptedFor (postman t (.mailboxPut box msg) w b post) c =
      acceptedFor post c ++ if post.owner box = c ∧ b = true then [msg] else [] := by
    intro b
    simp only [acceptedFor, postman, List.filter_append]
    by_cases hc : post.owner box = c ∧ b = true <;> simp [hc]
  simp only [exec, MessageBus.putNowait]
  split
  · -- the mailbox is full
    refine ⟨h.filed, fun b hb => ?_, fun hc => ?_⟩
    · rw [haccepted, if_neg (by simp), List.append_nil]
      exact h.queued b hb
    · rw [haccepted, if_neg (by simp), List.append_nil]
      exact h.silent hc
  · refine ⟨h.filed, fun b hb => ?_, fun hc => ?_⟩
    · rw [haccepted]
      have hqueued := h.queued b hb
      by_cases hb' : b = box
      · subst hb'
        have hc : post.owner b = c := (hposted.filed _ hb).1
        simp only [hc, and_self, if_true, Function.update_self, ← List.append_assoc]
        rw [hqueued]
        rfl
      · have hc : post.owner box ≠ c := by
          intro hc
          exact hb' (hposted.mailbox_unique hb (h.filed box hlt hc))
        simp only [hc, false_and, if_false, List.append_nil, Function.update_of_ne hb']
        exact hqueued
    · have hc' : post.owner box ≠ c := by
        intro howner'
        exact hc (List.mem_map.2 ⟨_, h.filed box hlt howner', rfl⟩)
      rw [haccepted]
      simp only [hc', false_and, if_false, List.append_nil]
      exact h.silent hc

lemma Delivered.drop (h : Delivered w post c) (hc : p ≠ c) :
    Delivered (exec cfg out t (.dropMailbox p) w).2 (postman t (.dropMailbox p) w () post) c := by
  refine ⟨fun b hb howner => ?_, fun b hb => ?_, fun hnone => ?_⟩
  · exact List.mem_filter.2 ⟨h.filed b hb howner, by simpa using hc.symm⟩
  · exact h.queued b (List.mem_of_mem_filter hb)
  · refine h.silent fun hmem => hnone ?_
    obtain ⟨x, hx, rfl⟩ := List.mem_map.1 hmem
    exact List.mem_map.2 ⟨x, List.mem_filter.2 ⟨hx, by simpa using hc.symm⟩, rfl⟩

/-- **Received in order**, one operation at a time. -/
lemma upholds_delivered (cfg : KernelConfig) (out : Outside) (rules : Rules) (m : Manner)
    (K : System.Guard KOp (Tid n) (World n × Post n)) :
    Upholds cfg out rules m postman (fun w post _ ms =>
      Posted w post ms ∧ ∀ c, c ∉ post.dropped → Delivered w post c) K := by
  intro β t o w post ls ms l l' hI hH ⟨hposted, h⟩ hpre₁ hpre hK hlearn₁ hlearn hI' hH'
  refine ⟨upholds_posted cfg out rules m K β t o w post ls ms l l' hI hH hposted hpre₁
    hpre hK hlearn₁ hlearn hI' hH', fun c hc => ?_⟩
  have hframe : o.movesBus = false → c ∉ post.dropped → ∀ post' : Post n,
      post'.owner = post.owner → post'.sends = post.sends → post'.receipts = post.receipts →
      Delivered (exec cfg out t o w).2 post' c := by
    intro ho hc post' howner hsends hreceipts
    obtain ⟨hfiled, hqueued, hsilent⟩ := h c hc
    refine ⟨?_, ?_, ?_⟩
    · rw [bus_exec ho, howner]
      exact hfiled
    · rw [bus_exec ho, acceptedFor, receivedBy, hsends, hreceipts]
      exact hqueued
    · rw [bus_exec ho, acceptedFor, receivedBy, hsends, hreceipts]
      exact hsilent
  cases o with
  | mailbox target => exact (h c hc).mailbox hposted
  | mailboxGet box => exact (h c hc).get hposted hpre
  | mailboxPut box msg => exact (h c hc).put hposted hpre
  | dropMailbox p =>
    have hcases : c ∉ post.dropped ∧ c ≠ p := by simpa [postman] using hc
    exact (h c hcases.1).drop hcases.2.symm
  | write p v =>
    cases v with
    | prompt text => exact hframe rfl hc _ rfl rfl rfl
    | _ => exact hframe rfl hc _ rfl rfl rfl
  | _ => exact hframe rfl hc _ rfl rfl rfl

/-! ### Runs -/

lemma sent_fresh {quota : Quota} : Sent (freshWorld n quota) {} fun t =>
    if t.isWorker then .idle else .client none where
  truthful := fun s hs => (by cases hs)
  atMostOne := fun p => Nat.zero_le _
  unsent := by
    intro t p g hl
    split at hl <;> cases hl
  sent := by
    intro t p g hl
    split at hl <;> cases hl
  forwarded := fun p c _ hdone => (by cases hdone)

/-- The runs of a kernel with a bus. -/
lemma sent_run (cfg : KernelConfig) (hbus : cfg.hasBus = true) (out : Outside) (quota : Quota)
    (as : List (Act (Tid n) KernelCall)) :
    Holds {} { bus := true } (fun w post _ ms => Posted w post ms ∧ Sent w post ms)
      (((kernelSystem n cfg out).run (boot n quota) as).beside
        ((kernelSystem n cfg out).observed postman (boot n quota) {} as)) := by
  refine (holds_boot rfl ⟨posted_fresh, sent_fresh⟩).run
    ⟨rfl, by simp, by simp, fun _ => hbus, Nat.zero_le _⟩
    (upholds_sent cfg out {} rfl System.noGuard) (System.meets_noGuard _ _ as)
    fun _ _ _ => ⟨by simp, by simp⟩

lemma delivered_run (cfg : KernelConfig) (out : Outside) (quota : Quota)
    (as : List (Act (Tid n) KernelCall)) :
    Holds {} {} (fun w post _ ms => Posted w post ms ∧ ∀ c, c ∉ post.dropped → Delivered w post c)
      (((kernelSystem n cfg out).run (boot n quota) as).beside
        ((kernelSystem n cfg out).observed postman (boot n quota) {} as)) := by
  refine (holds_boot rfl ⟨posted_fresh, fun c _ => ⟨?_, ?_, ?_⟩⟩).run
    ⟨rfl, by simp, by simp, by simp, Nat.zero_le _⟩
    (upholds_delivered cfg out {} {} System.noGuard) (System.meets_noGuard _ _ as)
    fun _ _ _ => ⟨by simp, by simp⟩
  · intro b hb
    cases hb
  · intro b hb
    cases hb
  · exact fun _ => ⟨rfl, rfl⟩

/-- Nobody but `u` holds the agent, which is `DONE` and pipes to `c`. -/
structure Last (w : World n) (ms : Tid n → Hold) (p c : Pid) (u : Tid n) : Prop where
  pipes : PipesTo w p c
  done : (w.pcbs p).state = .done
  sole : ∀ v g, ms v = .holding p g → v = u

lemma upholds_last (cfg : KernelConfig) (out : Outside) (rules : Rules) (hbus : m.bus = true)
    (p c : Pid) (u : Tid n) (K : System.Guard KOp (Tid n) (World n × Post n)) :
    Upholds cfg out rules m postman
      (fun w post _ ms => (Posted w post ms ∧ Sent w post ms) ∧ Last w ms p c u) K := by
  intro β t o w post ls ms l l' hI hH ⟨hsent, h⟩ hpre₁ hpre hK hlearn₁ hlearn hI' hH'
  have hdone : ((exec cfg out t o w).2.pcbs p).state = .done := done_exec h.pipes.1 h.done
  refine ⟨upholds_sent cfg out rules hbus K β t o w post ls ms l l' hI hH hsent hpre₁ hpre hK
    hlearn₁ hlearn hI' hH', h.pipes.exec, hdone, fun v g' hv => ?_⟩
  rcases holding_after hlearn hv with ⟨rfl, -⟩ | ⟨g, hg, -⟩
  · -- a `DONE` agent is not picked
    exact absurd hdone ((hH'.fits v p _ hv).undone rfl)
  · exact h.sole v g hg

/-- The send of an agent that is `DONE` is made, if the workers go on working. -/
lemma sends_eventually (cfg : KernelConfig) (hbus : cfg.hasBus = true) (out : Outside)
    (quota : Quota) (as : List (Act (Tid n) KernelCall))
    (hpipe : PipesTo ((kernelSystem n cfg out).run (boot n quota) as).shared p c)
    (hdone : (((kernelSystem n cfg out).run (boot n quota) as).shared.pcbs p).state = .done)
    (σ : ℕ → Act (Tid n) KernelCall)
    (hfair : ∀ i k, ∃ j, k ≤ j ∧ σ j = .step (.worker i)) :
    ∃ k, (sendsOf ((kernelSystem n cfg out).observed postman (boot n quota) {}
      (as ++ (List.range k).map σ)) p).length = 1 := by
  have hs : Suits {} { bus := true } cfg := ⟨rfl, by simp, by simp, fun _ => hbus, Nat.zero_le _⟩
  have hrun := sent_run cfg hbus out quota as
  obtain ⟨ls, ms, hI, hH, ⟨hposted, hsent⟩, -⟩ := hrun.elim
  by_cases hnone : sendsOf ((kernelSystem n cfg out).observed postman (boot n quota) {} as) p = []
  · obtain ⟨u, g, hu⟩ := hsent.forwarded p c hpipe hdone hnone
    obtain ⟨i, rfl⟩ := hH.worker_of_holding hI hu
    have hheld := (hH.held _ p).2 ⟨g, hu⟩
    have hlast : Holds {} { bus := true }
        (fun w post _ ms => (Posted w post ms ∧ Sent w post ms) ∧ Last w ms p c (.worker i))
        (((kernelSystem n cfg out).run (boot n quota) as).beside
          ((kernelSystem n cfg out).observed postman (boot n quota) {} as)) := by
      refine hrun.strengthen fun ls ms hI hH hsent => ⟨hsent, hpipe, hdone, fun v g hv => ?_⟩
      exact hI.owned.held_once v _ p ((hH.held v p).2 ⟨g, hv⟩) hheld
    -- the worker comes to the end of its turn, and has let go of the agent by then
    obtain ⟨j, -, b, hret⟩ := System.exists_returned (hfair i)
      ((kernelSystem n cfg out).run (boot n quota) as) 0
    have hthen := hlast.run hs (upholds_last cfg out {} rfl p c (.worker i) System.noGuard)
      (System.meets_noGuard _ _ ((List.range j).map σ)) fun _ _ _ => ⟨by simp, by simp⟩
    obtain ⟨ls', ms', -, -, ⟨⟨-, hsent'⟩, hlast'⟩, hrest⟩ := hthen.returned
    refine ⟨j, ?_⟩
    rw [System.observed_append]
    refine le_antisymm (hsent'.atMostOne p) (Nat.one_le_iff_ne_zero.2 fun hzero => ?_)
    obtain ⟨v, g', hv⟩ := hsent'.forwarded p c hlast'.pipes hlast'.done
      (List.length_eq_zero_iff.1 hzero)
    obtain rfl := hlast'.sole v g' hv
    have hidle := hrest _ b hret
    rw [hv] at hidle
    cases hidle
  · refine ⟨0, le_antisymm ?_ ?_⟩
    · simpa using hsent.atMostOne p
    · simpa [Nat.one_le_iff_ne_zero] using hnone

/-- **The pipe attempt is made exactly once.**  In every run of a kernel with a bus: every
send is made by an agent that is `DONE`, to the agent that it names, with its result; no
agent sends twice; an agent that is `DONE` and pipes to somebody has sent once the workers
have gone on long enough, in whatever order they go on; and an agent that ended otherwise
has sent nothing.  What is received for an agent whose mailbox was never dropped is, in
order, a prefix of what was accepted for it. -/
theorem pipe_attempt_once {n : ℕ} (cfg : KernelConfig) (hbus : cfg.hasBus = true) (out : Outside)
    (quota : Quota) (as : List (Act (Tid n) KernelCall)) :
    let sys := kernelSystem n cfg out
    let w := (sys.run (boot n quota) as).shared
    let post := sys.observed postman (boot n quota) {} as
    (∀ s ∈ post.sends, (w.pcbs s.msg.fromPid).state = .done ∧
      (w.pcbs s.msg.fromPid).pipeTo = some s.target ∧
      s.msg.content = (w.pcbs s.msg.fromPid).result.getD "") ∧
    (∀ p, (sendsOf post p).length ≤ 1) ∧
    (∀ p c, PipesTo w p c → (w.pcbs p).state = .done → ∀ σ : ℕ → Act (Tid n) KernelCall,
      (∀ i k, ∃ j, k ≤ j ∧ σ j = .step (.worker i)) → ∃ k, (sendsOf (sys.observed postman
        (boot n quota) {} (as ++ (List.range k).map σ)) p).length = 1) ∧
    (∀ p, (w.pcbs p).state = .error ∨ (w.pcbs p).state = .timeout ∨ (w.pcbs p).state = .zombie →
      sendsOf post p = []) ∧
    ∀ c, c ∉ post.dropped → receivedBy post c <+: acceptedFor post c := by
  intro sys w post
  obtain ⟨_, _, -, -, ⟨-, hsent⟩, -⟩ := (sent_run cfg hbus out quota as).elim
  obtain ⟨_, _, -, -, ⟨-, hdelivered⟩, -⟩ := (delivered_run cfg out quota as).elim
  refine ⟨fun s hs => ?_, hsent.atMostOne, fun p c hpipe hdone σ hfair => ?_, fun p hst => ?_,
    fun c hc => ?_⟩
  · obtain ⟨hpipe, hdone, hcontent⟩ := hsent.truthful s hs
    exact ⟨hdone, hpipe.2, hcontent⟩
  · exact sends_eventually cfg hbus out quota as hpipe hdone σ hfair
  · refine sendsOf_eq_nil hsent fun hdone => ?_
    rcases hst with hst | hst | hst
    · exact absurd (hst.symm.trans hdone) (by decide)
    · exact absurd (hst.symm.trans hdone) (by decide)
    · exact absurd (hst.symm.trans hdone) (by decide)
  · obtain ⟨-, hqueued, hsilent⟩ := hdelivered c hc
    by_cases hmem : c ∈ w.bus.pids
    · obtain ⟨x, hx, rfl⟩ := List.mem_map.1 hmem
      exact ⟨_, (hqueued x.2 hx).symm⟩
    · rw [(hsilent hmem).2]
      exact List.nil_prefix

/-- A producer and its consumer: one send, and its message is received. -/
theorem pipe_attempt_once_one_producer :
    ∃ as : List (Act (Tid 1) KernelCall),
      let sys := kernelSystem 1 { pager := {}, host := .inert } (.calm ⟨"hi", 1, 1, 2⟩)
      let post := sys.observed postman (boot 1 ⟨5, 5⟩) {} as
      post.sends = [⟨2, ⟨1, "hi", 0⟩, true⟩] ∧ receivedBy post 2 = [⟨1, "hi", 0⟩] ∧
        receivedBy post 2 <+: acceptedFor post 2 := by
  refine ⟨Act.call (.client 0) (.spawn { prompt := "a", pipeTo := some 2 }) ::
    (steps 3 (.client 0) ++ Act.call (.client 0)
        (.spawn { prompt := inputPlaceholder, inputFrom := some 1 }) ::
      (steps 4 (.client 0) ++ steps 40 (.worker 0))), by decide +kernel, by decide +kernel, ?_⟩
  exact (pipe_attempt_once _ rfl _ _ _).2.2.2.2 2 (by decide +kernel)

end Gcos.Pool
