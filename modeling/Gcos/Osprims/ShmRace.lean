import Gcos.Osprims.ShmRing

/-!
# The shared-memory ring with one producer and one consumer

Here the calls of the two sides overlap: a schedule interleaves the atomic steps of a
`send` of the producer with those of a `recv` of the consumer.  Both sides write back
*both* header words from their own earlier load, so a store that comes after a store of
the other side undoes it.  `ring_delivers_twice` is the shortest such schedule.  The
ring is safe exactly as long as no store is late: `ring_safe_of_headerUnchanged`.
-/

namespace Gcos.Osprims

open Gcos.Lib

/-- One producer and one consumer process on the same segment. -/
def ringSystem (capacity : ℕ) : System RingOp Side Shared Call where
  exec := ringExec
  body := fun _ => .ret false
  serves := fun t c => decide (t = c.side)
  entry := fun c => do
    let _ ← c.code capacity
    return false

/-- A segment on which nobody has started a call. -/
def quiet (ring : Shared) : Pool RingOp Side Shared :=
  { shared := ring, code := fun _ => .ret false }

/-- What the ring promises: the payloads returned by `recv` are, in order, the first of
those whose `send` returned `True`. -/
def Delivers (s : Shared) : Prop := s.received <+: s.accepted

/-- The producer sends `[1]`, loads the header for `[2]`, and stores it only after the
consumer has received `[1]`: the tail falls back, and `[1]` is received again. -/
theorem ring_delivers_twice :
    ∃ ring, create 64 = .ok ring ∧
      ¬ Delivers ((ringSystem 64).run (quiet ring)
        [.call .producer (.send [1]), .step .producer, .step .producer, .step .producer,
          .call .producer (.send [2]), .step .producer,
          .call .consumer .recv, .step .consumer, .step .consumer, .step .consumer,
          .step .consumer,
          .step .producer, .step .producer,
          .call .consumer .recv, .step .consumer, .step .consumer, .step .consumer,
          .step .consumer]).shared := by
  refine ⟨_, rfl, ?_⟩
  unfold Delivers
  decide

/-- The condition on a step: a header is stored only while it is still the header that
the storing side has loaded, and the head fits its 64-bit word. -/
def HeaderUnchanged : System.Guard RingOp Side Shared
  | _, t, .store _ head _ _, s => s.seg.hdr = s.seen t ∧ head < 2 ^ 64
  | _, _, _, _ => True

/-! ### What each side knows during a call -/

/-- Where a side stands in its call.  `h` is the header it has loaded, `p` the payload it
is sending or has found. -/
inductive Phase
  | idle (t : Side)
  | sending (h : Header)
  | copied (h : Header) (p : Payload)
  | receiving (h : Header)
  | opened (h : Header) (p : Payload)
  | taken (h : Header) (p : Payload)

/-- The side of a phase. -/
def Phase.side : Phase → Side
  | idle t => t
  | sending _ | copied _ _ => .producer
  | receiving _ | opened _ _ | taken _ _ => .consumer

/-- Which step a side may take in which phase. -/
def Phase.allows (capacity : ℕ) : {β : Type} → RingOp β → Phase → Prop
  | _, .load, _ => True
  | _, .copyIn cap start bs, l =>
    match l with
    | .sending h =>
      cap = h.cap ∧ start = h.head ∧
        ∃ p : Payload, p.length < 2 ^ 32 ∧ bs = frame p ∧
          (h.head : ℤ) - h.tail + (4 + p.length) ≤ h.cap
    | _ => False
  | _, .copyOut cap start len, l =>
    match l with
    | .receiving h => cap = h.cap ∧ start = h.tail ∧ len = 4 ∧ 4 ≤ (h.head : ℤ) - h.tail
    | .opened h p => cap = h.cap ∧ start = h.tail + 4 ∧ len = p.length
    | _ => False
  | _, .store cap head tail q, l =>
    match l with
    | .copied h p => cap = capacity ∧ head = h.head + (4 + p.length) ∧ tail = h.tail ∧ q = p
    | .taken h p => cap = capacity ∧ head = h.head ∧ tail = h.tail + 4 + p.length ∧ q = p
    | _ => False

/-- What a side has learned from the answer to its step. -/
def Phase.learns : {β : Type} → RingOp β → Phase → β → Phase → Prop
  | _, .load, l, h, l' =>
    l' = match l.side with
      | .producer => .sending h
      | .consumer => .receiving h
  | _, .copyIn _ _ bs, l, _, l' =>
    match l with
    | .sending h => ∃ p : Payload, p.length < 2 ^ 32 ∧ bs = frame p ∧ l' = .copied h p
    | _ => False
  | _, .copyOut _ _ _, l, bs, l' =>
    match l with
    | .receiving h => ∃ p : Payload, unpackU32 bs = p.length ∧ l' = .opened h p
    | .opened h p => bs = p ∧ l' = .taken h p
    | _ => False
  | _, .store _ _ _ _, l, _, l' => l' = .idle l.side

/-- The steps of the two calls in their order. -/
def ringDiscipline (capacity : ℕ) : Discipline RingOp Phase :=
  { pre := Phase.allows capacity, post := Phase.learns }

lemma frame_injective {p p' : Payload} (hp : p.length < 2 ^ 32) (hp' : p'.length < 2 ^ 32)
    (h : frame p = frame p') : p = p' := by
  obtain ⟨bs, hbs⟩ := exists_packU32 hp
  obtain ⟨bs', hbs'⟩ := exists_packU32 hp'
  rw [frame_eq hbs, frame_eq hbs'] at h
  exact (List.append_inj h (by rw [length_packU32 hbs, length_packU32 hbs'])).2

/-- `send` follows the discipline. -/
lemma obeys_send (capacity : ℕ) (p : Payload) {l : Phase} (hl : l.side = .producer) :
    (send capacity p).Obeys (ringDiscipline capacity) l fun _ l' => l'.side = .producer := by
  rw [send, Prog.perform_bind]
  refine ⟨trivial, fun h l₁ hl₁ => ?_⟩
  obtain rfl : l₁ = .sending h := by simpa [ringDiscipline, Phase.learns, hl] using hl₁
  cases hpack : packU32 p.length with
  | none => rfl
  | some bs =>
    have hlen := length_packU32 hpack
    have hp : p.length < 2 ^ 32 := by
      by_contra hp
      rw [packU32, if_neg hp] at hpack
      cases hpack
    simp only
    split_ifs with hbig hfull
    · rfl
    · rfl
    · have hframe : bs ++ p = frame p := (frame_eq hpack).symm
      refine ⟨⟨rfl, rfl, p, hp, hframe, ?_⟩, ?_⟩
      · simp only [List.length_append, hlen] at hfull
        push_cast at hfull
        omega
      · rintro - l₂ ⟨p', hp', hbs', rfl⟩
        obtain rfl := frame_injective hp hp' (hframe.symm.trans hbs')
        refine ⟨⟨rfl, by simp [hlen], rfl, rfl⟩, ?_⟩
        rintro b l₃ rfl
        cases b <;> rfl

/-- `recv` follows the discipline. -/
lemma obeys_recv (capacity : ℕ) {l : Phase} (hl : l.side = .consumer) :
    (recv capacity).Obeys (ringDiscipline capacity) l fun _ l' => l'.side = .consumer := by
  rw [recv, Prog.perform_bind]
  refine ⟨trivial, fun h l₁ hl₁ => ?_⟩
  obtain rfl : l₁ = .receiving h := by simpa [ringDiscipline, Phase.learns, hl] using hl₁
  beta_reduce
  split_ifs with hempty
  · rfl
  · rw [Prog.perform_bind]
    refine ⟨⟨rfl, rfl, rfl, by omega⟩, ?_⟩
    rintro lenBytes l₂ ⟨p, hp, rfl⟩
    simp only [hp]
    split_ifs with hpart
    · rfl
    · refine ⟨⟨rfl, rfl, rfl⟩, ?_⟩
      rintro data l₃ ⟨rfl, rfl⟩
      refine ⟨⟨rfl, rfl, rfl, rfl⟩, ?_⟩
      rintro b l₄ rfl
      cases b <;> rfl

/-! ### The invariant -/

section Invariant

variable {capacity : ℕ} {s : Shared} {q : List Payload}

/-- What a phase says about the ring that holds `q`.  The other side may have moved its
own end since the header was loaded, but not the end of this side. -/
def Phase.Knows (capacity : ℕ) (s : Shared) (q : List Payload) : Phase → Prop
  | .idle _ => True
  | .sending h =>
    s.seen .producer = h ∧ h.cap = capacity ∧ h.head = s.seg.hdr.head ∧ h.tail ≤ s.seg.hdr.tail
  | .copied h p =>
    s.seen .producer = h ∧ h.head = s.seg.hdr.head ∧ h.tail ≤ s.seg.hdr.tail ∧
      p.length < 2 ^ 32 ∧ (h.head : ℤ) - h.tail + (4 + p.length) ≤ capacity ∧
      window capacity s.seg.data h.head (4 + p.length) = frame p
  | .receiving h =>
    s.seen .consumer = h ∧ h.cap = capacity ∧ h.tail = s.seg.hdr.tail ∧
      ∃ q', q' <+: q ∧ h.head = h.tail + frameBytes q'
  | .opened h p | .taken h p =>
    s.seen .consumer = h ∧ h.cap = capacity ∧ h.tail = s.seg.hdr.tail ∧ q.head? = some p

/-- The ring holds the payloads that were sent and not yet received, and each side knows
what its phase says. -/
def RaceInv (capacity : ℕ) (s : Shared) (ls : Side → Phase) : Prop :=
  ∃ q, s.accepted = s.received ++ q ∧ Holds capacity s.seg q ∧
    ∀ t, (ls t).side = t ∧ (ls t).Knows capacity s q

lemma RaceInv.delivers {ls : Side → Phase} (h : RaceInv capacity s ls) : Delivers s := by
  obtain ⟨q, hq, -⟩ := h
  exact ⟨q, hq.symm⟩

/-- The phases of both sides after one of them has moved: the one that moved is in the
new phase, the other one still knows what it knew. -/
lemma knows_update {ls : Side → Phase} {t : Side} {l' : Phase} {s' : Shared} {q' : List Payload}
    (hside : l'.side = t) (hl' : l'.Knows capacity s' q')
    (hother : ∀ u, u ≠ t → (ls u).side = u ∧ (ls u).Knows capacity s' q') (u : Side) :
    (Function.update ls t l' u).side = u ∧ (Function.update ls t l' u).Knows capacity s' q' := by
  by_cases hu : u = t
  · subst hu
    simpa using ⟨hside, hl'⟩
  · simpa [Function.update_of_ne hu] using hother u hu

/-- A load changes nothing that the other side knows. -/
lemma Phase.Knows.load {l : Phase} {t : Side} (h : l.Knows capacity s q) (hl : l.side ≠ t) :
    l.Knows capacity { s with seen := Function.update s.seen t s.seg.hdr } q := by
  have hseen : Function.update s.seen t s.seg.hdr l.side = s.seen l.side :=
    Function.update_of_ne hl _ _
  cases l with
  | idle _ => trivial
  | sending h' | copied h' p => exact ⟨hseen.trans h.1, h.2⟩
  | receiving h' | opened h' p | taken h' p => exact ⟨hseen.trans h.1, h.2⟩

/-- Bytes that the producer copies are nothing to the consumer. -/
lemma Phase.Knows.copyIn {l : Phase} (h : l.Knows capacity s q) (hl : l.side ≠ .producer)
    (data : ℕ → UInt8) :
    l.Knows capacity { s with seg := { s.seg with data := data } } q := by
  cases l with
  | idle _ => trivial
  | sending h' | copied h' p => exact absurd rfl hl
  | receiving h' | opened h' p | taken h' p => exact h

/-- The consumer still finds its frame after the producer has added one. -/
lemma Phase.Knows.pushed {l : Phase} (h : l.Knows capacity s q) (hl : l.side ≠ .producer)
    (head : ℕ) (p : Payload) :
    l.Knows capacity { s with
      seg := { s.seg with hdr := ⟨capacity, head, s.seg.hdr.tail⟩ }
      accepted := s.accepted ++ [p] } (q ++ [p]) := by
  cases l with
  | idle _ => trivial
  | sending h' | copied h' p => exact absurd rfl hl
  | receiving h' =>
    obtain ⟨h₁, h₂, h₃, q', hq', h₄⟩ := h
    exact ⟨h₁, h₂, h₃, q', hq'.trans (List.prefix_append _ _), h₄⟩
  | opened h' p' | taken h' p' =>
    obtain ⟨h₁, h₂, h₃, h₄⟩ := h
    refine ⟨h₁, h₂, h₃, ?_⟩
    cases q with
    | nil => cases h₄
    | cons r q => exact h₄

/-- The producer still has its room after the consumer has taken a frame. -/
lemma Phase.Knows.popped {l : Phase} {p : Payload} (h : l.Knows capacity s (p :: q))
    (hl : l.side ≠ .consumer) {tail : ℕ} (htail : s.seg.hdr.tail ≤ tail) :
    l.Knows capacity { s with
      seg := { s.seg with hdr := ⟨capacity, s.seg.hdr.head, tail⟩ }
      received := s.received ++ [p] } q := by
  cases l with
  | idle _ => trivial
  | sending h' =>
    obtain ⟨h₁, h₂, h₃, h₄⟩ := h
    exact ⟨h₁, h₂, h₃, h₄.trans htail⟩
  | copied h' p' =>
    obtain ⟨h₁, h₂, h₃, h₄⟩ := h
    exact ⟨h₁, h₂, h₃.trans htail, h₄⟩
  | receiving h' | opened h' p' | taken h' p' => exact absurd rfl hl

/-! ### One step -/

variable {ls : Side → Phase} {t : Side}

lemma raceInv_load (hI : RaceInv capacity s ls) :
    RaceInv capacity { s with seen := Function.update s.seen t s.seg.hdr }
      (Function.update ls t
        (match (ls t).side with
          | .producer => .sending s.seg.hdr
          | .consumer => .receiving s.seg.hdr)) := by
  obtain ⟨q, hq, hholds, hls⟩ := hI
  refine ⟨q, hq, hholds, knows_update ?_ ?_ fun u hu => ⟨(hls u).1, (hls u).2.load ?_⟩⟩
  · rw [(hls t).1]
    cases t <;> rfl
  · rw [(hls t).1]
    cases t with
    | producer => exact ⟨by simp, hholds.cap_eq, rfl, le_rfl⟩
    | consumer => exact ⟨by simp, hholds.cap_eq, rfl, q, List.prefix_refl q, hholds.head_eq⟩
  · rw [(hls u).1]
    exact hu

lemma raceInv_copyIn {cap start : ℕ} {bs : List UInt8} (hI : RaceInv capacity s ls)
    (hpre : (ls t).allows capacity (.copyIn cap start bs)) :
    ∃ l', (ls t).learns (.copyIn cap start bs) () l' ∧
      RaceInv capacity (ringExec t (.copyIn cap start bs) s).2 (Function.update ls t l') := by
  obtain ⟨q, hq, hholds, hls⟩ := hI
  obtain ⟨hside, hknows⟩ := hls t
  cases hl : ls t with
  | sending h =>
    rw [hl] at hpre hside hknows
    obtain ⟨rfl, rfl, p, hp, rfl, hroom⟩ := hpre
    obtain ⟨hseen, hcap, hhead, htail⟩ := hknows
    have hlen := length_frame hp
    have heq := hholds.head_eq
    -- the tail may have moved on since the load, which leaves more room, not less
    refine ⟨.copied h p, ⟨p, hp, rfl, rfl⟩, q, hq, ?_, knows_update hside ?_ fun u hu => ?_⟩
    · have hblit := hholds.blit_head (frame p) (by omega)
      rw [← hhead, ← hcap] at hblit
      rw [← hcap]
      exact hblit
    · refine ⟨hseen, hhead, htail, hp, by omega, ?_⟩
      rw [hcap, ← hlen]
      exact window_blit_self (by omega)
    · refine ⟨(hls u).1, (hls u).2.copyIn ?_ _⟩
      rw [(hls u).1]
      exact fun hu' => hu (hu'.trans hside)
  | idle _ | copied _ _ | receiving _ | opened _ _ | taken _ _ =>
    rw [hl] at hpre
    exact hpre.elim

lemma raceInv_copyOut {cap start len : ℕ} (hI : RaceInv capacity s ls)
    (hpre : (ls t).allows capacity (.copyOut cap start len)) :
    ∃ l', (ls t).learns (.copyOut cap start len) (window cap s.seg.data start len) l' ∧
      RaceInv capacity s (Function.update ls t l') := by
  obtain ⟨q, hq, hholds, hls⟩ := hI
  obtain ⟨hside, hknows⟩ := hls t
  cases hl : ls t with
  | receiving h =>
    rw [hl] at hpre hside hknows
    obtain ⟨rfl, rfl, rfl, hfour⟩ := hpre
    obtain ⟨hseen, hcap, htail, q', hq', hhead⟩ := hknows
    -- the header was loaded with a frame behind the tail, and it is still there
    cases q' with
    | nil =>
      rw [frameBytes_nil] at hhead
      omega
    | cons p q' =>
      obtain ⟨r, rfl⟩ := hq'
      refine ⟨.opened h p, ⟨p, ?_, rfl⟩, _, hq, hholds, knows_update hside ?_ fun u _ => hls u⟩
      · rw [hcap, htail]
        exact hholds.length_head
      · exact ⟨hseen, hcap, htail, rfl⟩
  | opened h p =>
    rw [hl] at hpre hside hknows
    obtain ⟨rfl, rfl, rfl⟩ := hpre
    obtain ⟨hseen, hcap, htail, hp⟩ := hknows
    obtain ⟨r, rfl⟩ := List.head?_eq_some_iff.1 hp
    refine ⟨.taken h p, ⟨?_, rfl⟩, _, hq, hholds, knows_update hside ?_ fun u _ => hls u⟩
    · rw [hcap, htail]
      exact hholds.payload_head
    · exact ⟨hseen, hcap, htail, hp⟩
  | idle _ | sending _ | copied _ _ | taken _ _ =>
    rw [hl] at hpre
    exact hpre.elim

lemma raceInv_store {cap head tail : ℕ} {payload : Payload} (hI : RaceInv capacity s ls)
    (hpre : (ls t).allows capacity (.store cap head tail payload))
    (hhdr : s.seg.hdr = s.seen t) (hlt : head < 2 ^ 64) :
    RaceInv capacity (ringExec t (.store cap head tail payload) s).2
      (Function.update ls t (.idle (ls t).side)) := by
  obtain ⟨q, hq, hholds, hls⟩ := hI
  obtain ⟨hside, hknows⟩ := hls t
  have heq := hholds.head_eq
  cases hl : ls t with
  | copied h p =>
    rw [hl] at hpre hside hknows
    obtain ⟨rfl, rfl, rfl, rfl⟩ := hpre
    obtain ⟨hseen, hhead, -, hp, hroom, hw⟩ := hknows
    obtain rfl : Side.producer = t := hside
    obtain rfl : s.seg.hdr = h := hhdr.trans hseen
    have hpack := packHeader_of_lt hholds.cap_lt hlt (show s.seg.hdr.tail < 2 ^ 64 by omega)
    -- the header is the one that was loaded, so the consumer's end is not set back
    have hpush := hholds.push hp (by omega) hlt hw
    simp only [ringExec, hpack, Shared.record]
    refine ⟨q ++ [payload], by simp [hq], hpush, knows_update rfl trivial fun u hu => ?_⟩
    refine ⟨(hls u).1, (hls u).2.pushed ?_ _ _⟩
    rw [(hls u).1]
    exact hu
  | taken h p =>
    rw [hl] at hpre hside hknows
    obtain ⟨rfl, rfl, rfl, rfl⟩ := hpre
    obtain ⟨hseen, -, -, hp⟩ := hknows
    obtain rfl : Side.consumer = t := hside
    obtain rfl : s.seg.hdr = h := hhdr.trans hseen
    obtain ⟨r, rfl⟩ := List.head?_eq_some_iff.1 hp
    rw [frameBytes_cons] at heq
    have hpack := packHeader_of_lt hholds.cap_lt hlt
      (show s.seg.hdr.tail + 4 + payload.length < 2 ^ 64 by omega)
    simp only [ringExec, hpack, Shared.record]
    refine ⟨r, by simp [hq], hholds.pop, knows_update rfl trivial fun u hu => ?_⟩
    refine ⟨(hls u).1, (hls u).2.popped ?_ (by omega)⟩
    rw [(hls u).1]
    exact hu
  | idle _ | sending _ | receiving _ | opened _ _ =>
    rw [hl] at hpre
    exact hpre.elim

/-- Every step that meets the guard keeps the invariant. -/
lemma raceInv_step {β : Type} (o : RingOp β) (hI : RaceInv capacity s ls)
    (hpre : (ls t).allows capacity o) (hG : HeaderUnchanged t o s) :
    ∃ l', (ls t).learns o (ringExec t o s).1 l' ∧
      RaceInv capacity (ringExec t o s).2 (Function.update ls t l') := by
  cases o with
  | load => exact ⟨_, rfl, raceInv_load hI⟩
  | copyIn cap start bs => exact raceInv_copyIn hI hpre
  | copyOut cap start len => exact raceInv_copyOut hI hpre
  | store cap head tail payload => exact ⟨_, rfl, raceInv_store hI hpre hG.1 hG.2⟩

end Invariant

/-! ### All runs -/

/-- The calls of the two sides follow the discipline. -/
lemma obeys_entry (capacity : ℕ) (t : Side) (c : Call) (l : Phase)
    (hserves : (ringSystem capacity).serves t c = true) (hl : l.side = t) :
    ((ringSystem capacity).entry c).Obeys (ringDiscipline capacity) l
      fun _ l' => l'.side = t := by
  obtain rfl : t = c.side := of_decide_eq_true hserves
  cases c with
  | send p =>
    refine Prog.obeys_bind.2 (Prog.obeys_bind.2 ((obeys_send capacity p hl).mono ?_))
    exact fun _ _ h => h
  | recv =>
    refine Prog.obeys_bind.2 (Prog.obeys_bind.2 ((obeys_recv capacity hl).mono ?_))
    exact fun _ _ h => h

lemma history_create {capacity : ℕ} {ring : Shared} (h : create capacity = .ok ring) :
    ring.accepted = [] ∧ ring.received = [] := by
  rw [create] at h
  split at h
  · cases h
    exact ⟨rfl, rfl⟩
  · cases h

/-- **The ring is safe while no header store is late.**  Whatever the capacity, the calls
of the two sides and the interleaving of their steps: if every store finds the header as
its side has loaded it, then `recv` has returned, in order, the first of the payloads
whose `send` returned `True`. -/
theorem ring_safe_of_headerUnchanged {capacity : ℕ} {ring : Shared}
    (hring : create capacity = .ok ring) (as : List (Act Side Call))
    (hmeets : (ringSystem capacity).Meets HeaderUnchanged (quiet ring) as) :
    Delivers ((ringSystem capacity).run (quiet ring) as).shared := by
  obtain ⟨haccepted, hreceived⟩ := history_create hring
  have hsound : System.Sound (ringDiscipline capacity) (RaceInv capacity)
      (fun t l => l.side = t) (quiet ring) := by
    refine ⟨.idle, ⟨[], ?_, (holds_create hring).1, fun t => ⟨rfl, trivial⟩⟩, fun t => rfl⟩
    simp [quiet, haccepted, hreceived]
  obtain ⟨ls, hI, -⟩ := System.run_inv (fun t l hl => hl)
    (fun t c l (_ : True) hs hl => obeys_entry capacity t c l hs hl)
    (fun β t o s ls hI hpre hG => raceInv_step o hI hpre hG) hsound hmeets
    (fun _ _ _ => trivial)
  exact hI.delivers

/-- A run in which the producer loads the header, the consumer looks in vain for a frame,
and the frame is received after it was stored. -/
theorem ring_safe_of_headerUnchanged_overlap :
    ∃ ring, create 64 = .ok ring ∧
      Delivers ((ringSystem 64).run (quiet ring)
        [.call .producer (.send [1]), .step .producer, .call .consumer .recv, .step .consumer,
          .step .producer, .step .producer, .call .consumer .recv, .step .consumer,
          .step .consumer, .step .consumer, .step .consumer]).shared := by
  refine ⟨_, rfl, ring_safe_of_headerUnchanged rfl _ ?_⟩
  refine ⟨trivial, trivial, trivial, trivial, trivial, ⟨rfl, by decide⟩, trivial, trivial,
    trivial, trivial, ⟨rfl, by decide⟩, trivial⟩

end Gcos.Osprims
