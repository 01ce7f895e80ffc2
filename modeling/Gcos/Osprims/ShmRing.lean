import Gcos.Lib.Prog
import Gcos.Lib.Cyclic

/-!
# The shared-memory ring

`gcos/osprims/shm.py`: a byte ring in a shared-memory segment, with a header of three
64-bit words (capacity, head, tail; head and tail only grow) and length-prefixed frames.
`send` and `recv` are written over the atomic steps "load the header", "copy bytes" and
"store the header"; here they are run one call after the other, and shown to be the two
operations of a bounded queue of byte strings.
-/

namespace Gcos.Osprims

open Gcos.Lib

/-- What is sent and received. -/
abbrev Payload := List UInt8

/-- The header `_HDR`. -/
structure Header where
  cap : ℕ
  head : ℕ
  tail : ℕ
deriving DecidableEq, Repr

/-- The segment: the unpacked header and the data area behind it. -/
structure Segment where
  hdr : Header
  data : ℕ → UInt8

/-- The two ends of the ring. -/
inductive Side
  | producer | consumer
deriving DecidableEq, Repr

/-- The segment with three history variables: the header each side has loaded last, the
payloads whose `send` returned `True`, and the payloads returned by `recv`. -/
structure Shared where
  seg : Segment
  seen : Side → Header
  accepted : List Payload := []
  received : List Payload := []

/-- The exceptions of the two calls. -/
inductive RingError
  | valueError | structError
deriving DecidableEq, Repr

/-- The atomic steps of the two calls.  The step that stores the header is the last of a
successful call and carries the payload that the call sends or returns. -/
inductive RingOp : Type → Type
  | load : RingOp Header
  | copyIn (cap start : ℕ) (frame : List UInt8) : RingOp Unit
  | copyOut (cap start len : ℕ) : RingOp (List UInt8)
  | store (cap head tail : ℕ) (payload : Payload) : RingOp Bool

/-- Packing the header.  A word that does not fit raises, with the words before it
written and the others cleared. -/
def packHeader (cap head tail : ℕ) : Header × Bool :=
  if 2 ^ 64 ≤ cap then (⟨0, 0, 0⟩, false)
  else if 2 ^ 64 ≤ head then (⟨cap, 0, 0⟩, false)
  else if 2 ^ 64 ≤ tail then (⟨cap, head, 0⟩, false)
  else (⟨cap, head, tail⟩, true)

/-- Record a call that went through. -/
def Shared.record (s : Shared) (payload : Payload) : Side → Shared
  | .producer => { s with accepted := s.accepted ++ [payload] }
  | .consumer => { s with received := s.received ++ [payload] }

/-- The meaning of the atomic steps. -/
def ringExec : Prog.Handler RingOp Side Shared
  | _, t, .load, s => (s.seg.hdr, { s with seen := Function.update s.seen t s.seg.hdr })
  | _, _, .copyIn cap start frame, s =>
    ((), { s with seg := { s.seg with data := blit cap s.seg.data start frame } })
  | _, _, .copyOut cap start len, s => (window cap s.seg.data start len, s)
  | _, t, .store cap head tail payload, s =>
    match packHeader cap head tail with
    | (hdr, true) => (true, { s with seg := { s.seg with hdr := hdr } }.record payload t)
    | (hdr, false) => (false, { s with seg := { s.seg with hdr := hdr } })

/-- `ShmRing.send`. -/
def send (capacity : ℕ) (payload : Payload) : Prog RingOp (Except RingError Bool) := do
  let h ← .perform .load
  match packU32 payload.length with
  | none => return .error .structError
  | some lenBytes =>
    let frame := lenBytes ++ payload
    if h.cap < frame.length then return .error .valueError
    else if (h.cap : ℤ) < (h.head : ℤ) - h.tail + frame.length then return .ok false
    else do
      .perform (.copyIn h.cap h.head frame)
      let ok ← .perform (.store capacity (h.head + frame.length) h.tail payload)
      return if ok then .ok true else .error .structError

/-- `ShmRing.recv`. -/
def recv (capacity : ℕ) : Prog RingOp (Except RingError (Option Payload)) := do
  let h ← .perform .load
  if (h.head : ℤ) - h.tail < 4 then return .ok none
  else do
    let lenBytes ← .perform (.copyOut h.cap h.tail 4)
    let n := unpackU32 lenBytes
    if (h.head : ℤ) - h.tail < 4 + n then return .ok none
    else do
      let data ← .perform (.copyOut h.cap (h.tail + 4) n)
      let ok ← .perform (.store capacity h.head (h.tail + 4 + n) data)
      return if ok then .ok (some data) else .error .structError

/-- `ShmRing.pending_bytes`. -/
def Segment.pendingBytes (seg : Segment) : ℤ := (seg.hdr.head : ℤ) - seg.hdr.tail

/-- `ShmRing(capacity=…, create=True)`. -/
def create (capacity : ℕ) : Except RingError Shared :=
  match packHeader capacity 0 0 with
  | (hdr, true) => .ok { seg := { hdr := hdr, data := fun _ => 0 }, seen := fun _ => hdr }
  | (_, false) => .error .structError

lemma packHeader_of_lt {cap head tail : ℕ} (hc : cap < 2 ^ 64) (hh : head < 2 ^ 64)
    (ht : tail < 2 ^ 64) : packHeader cap head tail = (⟨cap, head, tail⟩, true) := by
  rw [packHeader, if_neg (by omega), if_neg (by omega), if_neg (by omega)]

/-! ### The layout of a queue in the ring -/

/-- The frame of a payload: its length in four bytes, then the payload. -/
def frame (p : Payload) : List UInt8 := (packU32 p.length).getD [] ++ p

/-- The bytes that a queue of payloads takes up. -/
def frameBytes (q : List Payload) : ℕ := (q.map fun p => 4 + p.length).sum

@[simp] lemma frameBytes_nil : frameBytes [] = 0 := rfl

@[simp] lemma frameBytes_cons (p : Payload) (q : List Payload) :
    frameBytes (p :: q) = 4 + p.length + frameBytes q := by simp [frameBytes]

@[simp] lemma frameBytes_append (q r : List Payload) :
    frameBytes (q ++ r) = frameBytes q + frameBytes r := by simp [frameBytes]

lemma frame_eq {p : Payload} {bs : List UInt8} (h : packU32 p.length = some bs) :
    frame p = bs ++ p := by rw [frame, h, Option.getD_some]

lemma length_frame {p : Payload} (hp : p.length < 2 ^ 32) : (frame p).length = 4 + p.length := by
  obtain ⟨bs, hbs⟩ := exists_packU32 hp
  rw [frame_eq hbs, List.length_append, length_packU32 hbs]

/-- The segment holds the queue `q`: the bytes between tail and head are its frames. -/
structure Holds (capacity : ℕ) (seg : Segment) (q : List Payload) : Prop where
  cap_eq : seg.hdr.cap = capacity
  cap_lt : capacity < 2 ^ 64
  head_eq : seg.hdr.head = seg.hdr.tail + frameBytes q
  head_lt : seg.hdr.head < 2 ^ 64
  room : frameBytes q ≤ capacity
  bytes : window capacity seg.data seg.hdr.tail (frameBytes q) = q.flatMap frame
  short : ∀ p ∈ q, p.length < 2 ^ 32

namespace Holds

variable {capacity : ℕ} {seg : Segment} {q : List Payload}

lemma pendingBytes_eq (h : Holds capacity seg q) : seg.pendingBytes = frameBytes q := by
  rw [Segment.pendingBytes, h.head_eq]
  push_cast
  ring

/-- The first frame of the queue stands at the tail. -/
lemma window_head {p : Payload} (h : Holds capacity seg (p :: q)) :
    window capacity seg.data seg.hdr.tail (4 + p.length) = frame p := by
  have hlen := length_frame (h.short p (by simp))
  have hb := h.bytes
  rw [frameBytes_cons, window_add, List.flatMap_cons] at hb
  exact (List.append_inj hb (by simp [hlen])).1

/-- The four bytes at the tail are the length of the first payload. -/
lemma length_head {p : Payload} (h : Holds capacity seg (p :: q)) :
    unpackU32 (window capacity seg.data seg.hdr.tail 4) = p.length := by
  obtain ⟨bs, hbs⟩ := exists_packU32 (h.short p (by simp))
  have hw := h.window_head
  rw [window_add, frame_eq hbs] at hw
  rw [(List.append_inj hw (by simp [length_packU32 hbs])).1, unpackU32_packU32 hbs]

/-- The bytes behind them are the first payload. -/
lemma payload_head {p : Payload} (h : Holds capacity seg (p :: q)) :
    window capacity seg.data (seg.hdr.tail + 4) p.length = p := by
  obtain ⟨bs, hbs⟩ := exists_packU32 (h.short p (by simp))
  have hw := h.window_head
  rw [window_add, frame_eq hbs] at hw
  exact (List.append_inj hw (by simp [length_packU32 hbs])).2

/-- Moving the tail over the first frame removes it from the queue. -/
lemma pop {p : Payload} (h : Holds capacity seg (p :: q)) :
    Holds capacity { seg with hdr := ⟨capacity, seg.hdr.head, seg.hdr.tail + 4 + p.length⟩ } q := by
  have hlen := length_frame (h.short p (by simp))
  have hhead := h.head_eq
  have hroom := h.room
  have hb := h.bytes
  rw [frameBytes_cons] at hhead hroom hb
  rw [window_add, List.flatMap_cons] at hb
  -- the window falls into the first frame and the rest
  have htail := (List.append_inj hb (by simp [hlen])).2
  refine ⟨rfl, h.cap_lt, by simp only; omega, h.head_lt, by omega, ?_, fun r hr => ?_⟩
  · simpa only [Nat.add_assoc] using htail
  · exact h.short r (List.mem_cons_of_mem _ hr)

/-- Writing a frame behind the head leaves the queue as it is. -/
lemma blit_head (h : Holds capacity seg q) (bs : List UInt8)
    (hroom : frameBytes q + bs.length ≤ capacity) :
    Holds capacity { seg with data := blit capacity seg.data seg.hdr.head bs } q := by
  refine ⟨h.cap_eq, h.cap_lt, h.head_eq, h.head_lt, h.room, ?_, h.short⟩
  have hhead := h.head_eq
  simp only
  rw [window_blit_of_before (by omega) (by omega)]
  exact h.bytes

/-- Moving the head over a frame that stands there appends its payload to the queue. -/
lemma push {p : Payload} (h : Holds capacity seg q) (hp : p.length < 2 ^ 32)
    (hroom : frameBytes q + (4 + p.length) ≤ capacity)
    (hlt : seg.hdr.head + (4 + p.length) < 2 ^ 64)
    (hw : window capacity seg.data seg.hdr.head (4 + p.length) = frame p) :
    Holds capacity { seg with hdr := ⟨capacity, seg.hdr.head + (4 + p.length), seg.hdr.tail⟩ }
      (q ++ [p]) := by
  have hhead := h.head_eq
  refine ⟨rfl, h.cap_lt, ?_, hlt, ?_, ?_, ?_⟩
  · simp only [frameBytes_append, frameBytes_cons, frameBytes_nil]
    omega
  · simp only [frameBytes_append, frameBytes_cons, frameBytes_nil]
    omega
  · simp only [frameBytes_append, frameBytes_cons, frameBytes_nil, Nat.add_zero]
    rw [window_add, h.bytes, ← hhead, hw, List.flatMap_append]
    simp
  · intro r hr
    rcases List.mem_append.1 hr with hr | hr
    · exact h.short r hr
    · rw [List.mem_singleton.1 hr]
      exact hp

end Holds

/-! ### One call at a time -/

section Calls

variable {capacity : ℕ} {s : Shared} {q : List Payload}

/-- The shared state after the header was loaded by `t`. -/
def Shared.loaded (s : Shared) (t : Side) : Shared :=
  { s with seen := Function.update s.seen t s.seg.hdr }

/-- A payload that can never fit raises and changes nothing. -/
lemma send_tooLarge (t : Side) (h : Holds capacity s.seg q) {p : Payload}
    (hp : p.length < 2 ^ 32) (hbig : capacity < 4 + p.length) :
    Prog.alone ringExec t (send capacity p) s = (.error .valueError, s.loaded t) := by
  obtain ⟨bs, hbs⟩ := exists_packU32 hp
  have hlen := length_packU32 hbs
  simp [send, ringExec, hbs, h.cap_eq, hlen, hbig, Shared.loaded]

/-- A payload that does not fit now is refused and changes nothing. -/
lemma send_full (t : Side) (h : Holds capacity s.seg q) {p : Payload}
    (hp : p.length < 2 ^ 32) (hbig : 4 + p.length ≤ capacity)
    (hfull : capacity < frameBytes q + (4 + p.length)) :
    Prog.alone ringExec t (send capacity p) s = (.ok false, s.loaded t) := by
  obtain ⟨bs, hbs⟩ := exists_packU32 hp
  have hlen := length_packU32 hbs
  have hhead := h.head_eq
  have h₁ : ¬ capacity < bs.length + p.length := by omega
  have h₂ : (capacity : ℤ) < (s.seg.hdr.head : ℤ) - s.seg.hdr.tail + (bs.length + p.length) := by
    omega
  simp [send, ringExec, hbs, h.cap_eq, h₁, h₂, Shared.loaded]

/-- A payload that fits is appended to the queue. -/
lemma send_accepted (t : Side) (h : Holds capacity s.seg q) {p : Payload}
    (hp : p.length < 2 ^ 32) (hroom : frameBytes q + (4 + p.length) ≤ capacity)
    (hlt : s.seg.hdr.head + (4 + p.length) < 2 ^ 64) :
    (Prog.alone ringExec t (send capacity p) s).1 = .ok true ∧
      Holds capacity (Prog.alone ringExec t (send capacity p) s).2.seg (q ++ [p]) ∧
      (Prog.alone ringExec t (send capacity p) s).2.seg.hdr.head =
        s.seg.hdr.head + (4 + p.length) := by
  obtain ⟨bs, hbs⟩ := exists_packU32 hp
  have hlen := length_packU32 hbs
  have hhead := h.head_eq
  have h₁ : ¬ capacity < 4 + p.length := by omega
  have h₂ : ¬ (capacity : ℤ) <
      (s.seg.hdr.head : ℤ) - s.seg.hdr.tail + (4 + p.length) := by omega
  have hpack := packHeader_of_lt h.cap_lt hlt (show s.seg.hdr.tail < 2 ^ 64 by omega)
  -- first the bytes are copied behind the head, then the head moves over them
  have hblit := h.blit_head (bs ++ p) (by simp only [List.length_append]; omega)
  have hw : window capacity (blit capacity s.seg.data s.seg.hdr.head (bs ++ p)) s.seg.hdr.head
      (4 + p.length) = frame p := by
    rw [frame_eq hbs, ← hlen, ← List.length_append]
    exact window_blit_self (by simp only [List.length_append]; omega)
  have hpush := hblit.push hp hroom hlt hw
  have hrun : Prog.alone ringExec t (send capacity p) s =
      (.ok true, { s.loaded t with
        seg := { data := blit capacity s.seg.data s.seg.hdr.head (bs ++ p)
                 hdr := ⟨capacity, s.seg.hdr.head + (4 + p.length), s.seg.hdr.tail⟩ } }.record p
          t) := by
    simp [send, ringExec, hbs, h.cap_eq, h₁, h₂, hlen, hpack, Shared.loaded]
  rw [hrun]
  cases t <;> exact ⟨rfl, hpush, rfl⟩

/-- Nothing is received from an empty queue, and nothing changes. -/
lemma recv_empty (t : Side) (h : Holds capacity s.seg []) :
    Prog.alone ringExec t (recv capacity) s = (.ok none, s.loaded t) := by
  have hhead := h.head_eq
  rw [frameBytes_nil] at hhead
  have h₁ : (s.seg.hdr.head : ℤ) - s.seg.hdr.tail < 4 := by omega
  simp [recv, ringExec, h₁, Shared.loaded]

/-- The oldest payload is received, byte for byte. -/
lemma recv_oldest (t : Side) {p : Payload} (h : Holds capacity s.seg (p :: q)) :
    (Prog.alone ringExec t (recv capacity) s).1 = .ok (some p) ∧
      Holds capacity (Prog.alone ringExec t (recv capacity) s).2.seg q ∧
      (Prog.alone ringExec t (recv capacity) s).2.seg.hdr.head = s.seg.hdr.head := by
  have hhead := h.head_eq
  rw [frameBytes_cons] at hhead
  have hlen := h.length_head
  have hpay := h.payload_head
  have h₁ : ¬ (s.seg.hdr.head : ℤ) - s.seg.hdr.tail < 4 := by omega
  have h₂ : ¬ (s.seg.hdr.head : ℤ) - s.seg.hdr.tail < 4 + p.length := by omega
  have hlt := h.head_lt
  have hpack := packHeader_of_lt h.cap_lt hlt
    (show s.seg.hdr.tail + 4 + p.length < 2 ^ 64 by omega)
  have hrun : Prog.alone ringExec t (recv capacity) s =
      (.ok (some p), { s.loaded t with
        seg := { s.seg with hdr := ⟨capacity, s.seg.hdr.head, s.seg.hdr.tail + 4 + p.length⟩ }
        }.record p t) := by
    simp [recv, ringExec, h.cap_eq, h₁, h₂, hlen, hpay, hpack, Shared.loaded]
  rw [hrun]
  cases t <;> exact ⟨rfl, h.pop, rfl⟩

end Calls

/-! ### The bounded queue -/

/-- The calls of a ring. -/
inductive Call
  | send (payload : Payload)
  | recv
deriving DecidableEq, Repr

/-- What a call returned or raised. -/
inductive Answer
  | sent (r : Except RingError Bool)
  | got (r : Except RingError (Option Payload))
deriving DecidableEq, Repr

/-- The code of a call. -/
def Call.code (capacity : ℕ) : Call → Prog RingOp Answer
  | .send p => do return .sent (← Osprims.send capacity p)
  | .recv => do return .got (← Osprims.recv capacity)

/-- The side of a call. -/
def Call.side : Call → Side
  | .send _ => .producer
  | .recv => .consumer

/-- One call on the ring, running alone. -/
def serve (capacity : ℕ) (s : Shared) (c : Call) : Answer × Shared :=
  Prog.alone ringExec c.side (c.code capacity) s

/-- A sequence of calls on the ring: the answers, and the ring behind them. -/
def serveAll (capacity : ℕ) : Shared → List Call → List Answer × Shared
  | s, [] => ([], s)
  | s, c :: cs =>
    ((serve capacity s c).1 :: (serveAll capacity (serve capacity s c).2 cs).1,
      (serveAll capacity (serve capacity s c).2 cs).2)

namespace Fifo

/-- The same call on a queue of at most `capacity` frame bytes: what the ring is for. -/
def serve (capacity : ℕ) (q : List Payload) : Call → Answer × List Payload
  | .send p =>
    if capacity < 4 + p.length then (.sent (.error .valueError), q)
    else if frameBytes q + (4 + p.length) ≤ capacity then (.sent (.ok true), q ++ [p])
    else (.sent (.ok false), q)
  | .recv =>
    match q with
    | [] => (.got (.ok none), [])
    | p :: q => (.got (.ok (some p)), q)

/-- A sequence of calls on the queue. -/
def serveAll (capacity : ℕ) : List Payload → List Call → List Answer × List Payload
  | q, [] => ([], q)
  | q, c :: cs =>
    ((serve capacity q c).1 :: (serveAll capacity (serve capacity q c).2 cs).1,
      (serveAll capacity (serve capacity q c).2 cs).2)

/-- The bytes that a sequence of calls sends. -/
def sentBytes (capacity : ℕ) : List Payload → List Call → ℕ
  | _, [] => 0
  | q, c :: cs =>
    (match c, (serve capacity q c).1 with
      | .send p, .sent (.ok true) => 4 + p.length
      | _, _ => 0) + sentBytes capacity (serve capacity q c).2 cs

lemma sentBytes_accepted {capacity : ℕ} {q : List Payload} {p : Payload} {cs : List Call}
    (h : (serve capacity q (.send p)).1 = .sent (.ok true)) :
    sentBytes capacity q (.send p :: cs) =
      (4 + p.length) + sentBytes capacity (serve capacity q (.send p)).2 cs := by
  simp only [sentBytes, h]

end Fifo

/-- One call does on the ring what it does on the queue. -/
lemma serve_refines {capacity : ℕ} {s : Shared} {q : List Payload} (h : Holds capacity s.seg q)
    {c : Call} {cs : List Call} (hlen : ∀ p, c = .send p → p.length < 2 ^ 32)
    (hsent : s.seg.hdr.head + Fifo.sentBytes capacity q (c :: cs) < 2 ^ 64) :
    (serve capacity s c).1 = (Fifo.serve capacity q c).1 ∧
      Holds capacity (serve capacity s c).2.seg (Fifo.serve capacity q c).2 ∧
      (serve capacity s c).2.seg.hdr.head + Fifo.sentBytes capacity (Fifo.serve capacity q c).2 cs
        < 2 ^ 64 := by
  cases c with
  | send p =>
    have hp := hlen p rfl
    simp only [serve, Call.code, Call.side, Prog.alone_bind, Prog.pure_eq, Prog.alone_ret]
    by_cases hbig : capacity < 4 + p.length
    -- the ring tests as the queue does: the size of the frame first, then the room
    · simp only [Fifo.sentBytes, Fifo.serve, if_pos hbig] at hsent ⊢
      rw [send_tooLarge .producer h hp hbig]
      exact ⟨rfl, h, by simpa [Shared.loaded] using hsent⟩
    · by_cases hroom : frameBytes q + (4 + p.length) ≤ capacity
      · have hfifo : Fifo.serve capacity q (.send p) = (.sent (.ok true), q ++ [p]) := by
          rw [Fifo.serve, if_neg hbig, if_pos hroom]
        rw [Fifo.sentBytes_accepted (by rw [hfifo])] at hsent
        rw [hfifo] at hsent ⊢
        obtain ⟨h₁, h₂, h₃⟩ := send_accepted .producer h hp hroom (by omega)
        exact ⟨by rw [h₁], h₂, by rw [h₃]; omega⟩
      · simp only [Fifo.sentBytes, Fifo.serve, if_neg hbig, if_neg hroom] at hsent ⊢
        rw [send_full .producer h hp (by omega) (by omega)]
        exact ⟨rfl, h, by simpa [Shared.loaded] using hsent⟩
  | recv =>
    simp only [serve, Call.code, Call.side, Prog.alone_bind, Prog.pure_eq, Prog.alone_ret]
    cases q with
    | nil =>
      rw [recv_empty .consumer h]
      exact ⟨rfl, h, by simpa [Fifo.sentBytes, Fifo.serve, Shared.loaded] using hsent⟩
    | cons p q =>
      obtain ⟨h₁, h₂, h₃⟩ := recv_oldest .consumer h
      exact ⟨by rw [h₁]; rfl, h₂, by simpa [Fifo.sentBytes, Fifo.serve, h₃] using hsent⟩

/-- Any sequence of calls does on the ring what it does on the queue; the calls `ds` that
come after it are only there to bound the head. -/
lemma serveAll_refines {capacity : ℕ} (cs ds : List Call) {s : Shared} {q : List Payload}
    (h : Holds capacity s.seg q) (hlen : ∀ p, .send p ∈ cs → p.length < 2 ^ 32)
    (hsent : s.seg.hdr.head + Fifo.sentBytes capacity q (cs ++ ds) < 2 ^ 64) :
    (serveAll capacity s cs).1 = (Fifo.serveAll capacity q cs).1 ∧
      Holds capacity (serveAll capacity s cs).2.seg (Fifo.serveAll capacity q cs).2 ∧
      (serveAll capacity s cs).2.seg.hdr.head +
        Fifo.sentBytes capacity (Fifo.serveAll capacity q cs).2 ds < 2 ^ 64 := by
  induction cs generalizing s q with
  -- by induction on the calls, with the bound for those that are still to come
  | nil => exact ⟨rfl, h, hsent⟩
  | cons c cs ih =>
    obtain ⟨h₁, h₂, h₃⟩ := serve_refines h (fun p hp => hlen p (by simp [hp])) hsent
    obtain ⟨k₁, k₂, k₃⟩ := ih h₂ (fun p hp => hlen p (List.mem_cons_of_mem _ hp)) h₃
    exact ⟨by rw [serveAll, Fifo.serveAll, h₁, k₁], k₂, k₃⟩

/-- A fresh ring holds the empty queue. -/
lemma holds_create {capacity : ℕ} {ring : Shared} (h : create capacity = .ok ring) :
    Holds capacity ring.seg [] ∧ ring.seg.hdr.head = 0 := by
  by_cases hcap : capacity < 2 ^ 64
  · rw [create, packHeader_of_lt hcap (by norm_num) (by norm_num)] at h
    cases h
    exact ⟨⟨rfl, hcap, rfl, by norm_num, by simp, rfl, by simp⟩, rfl⟩
  · rw [create, packHeader, if_pos (by omega)] at h
    cases h

/-- What a ring that holds `q` answers to the next call, in terms of its own
`pending_bytes`. -/
lemma serve_spec {capacity : ℕ} {s : Shared} {q : List Payload} (h : Holds capacity s.seg q)
    {c : Call} {cs : List Call} (hlen : ∀ p, c = .send p → p.length < 2 ^ 32)
    (hsent : s.seg.hdr.head + Fifo.sentBytes capacity q (c :: cs) < 2 ^ 64) :
    match c with
    | .send p =>
      ((∃ e, (serve capacity s c).1 = .sent (.error e)) ↔ capacity < 4 + p.length) ∧
      (4 + p.length ≤ capacity →
        ((serve capacity s c).1 = .sent (.ok true) ↔
          s.seg.pendingBytes + 4 + p.length ≤ capacity)) ∧
      ((serve capacity s c).1 ≠ .sent (.ok true) → (serve capacity s c).2.seg = s.seg)
    | .recv => (serve capacity s c).1 = .got (.ok q.head?) := by
  have hans := (serve_refines h hlen hsent).1
  cases c with
  | send p =>
    have hp := hlen p rfl
    have hpend := h.pendingBytes_eq
    simp only [hans]
    by_cases hbig : capacity < 4 + p.length
    · have hkeep : (serve capacity s (.send p)).2.seg = s.seg := by
        simp only [serve, Call.code, Call.side, Prog.alone_bind, Prog.pure_eq, Prog.alone_ret]
        rw [send_tooLarge .producer h hp hbig]
        rfl
      simp [Fifo.serve, hbig, hkeep]
    · by_cases hroom : frameBytes q + (4 + p.length) ≤ capacity
      · have hroom' : s.seg.pendingBytes + 4 + p.length ≤ capacity := by omega
        simp [Fifo.serve, hbig, hroom, hroom']
      · have hroom' : ¬ s.seg.pendingBytes + 4 + p.length ≤ capacity := by omega
        have hkeep : (serve capacity s (.send p)).2.seg = s.seg := by
          simp only [serve, Call.code, Call.side, Prog.alone_bind, Prog.pure_eq, Prog.alone_ret]
          rw [send_full .producer h hp (by omega) (by omega)]
          rfl
        simp [Fifo.serve, hbig, hroom, hroom', hkeep]
  | recv =>
    rw [hans]
    cases q <;> rfl

/-- **The ring is a bounded queue.**  As long as the calls do not overlap, the payloads
are shorter than `2 ^ 32` bytes and fewer than `2 ^ 64` bytes are sent, every sequence of
calls gets the answers of the bounded queue; before each of its calls `pending_bytes` is
the size of the queue, `send` raises, accepts and refuses as the room demands and leaves
the segment alone unless it accepts, and `recv` returns the oldest payload, if any. -/
theorem ring_refines_fifo {capacity : ℕ} {ring : Shared} (hring : create capacity = .ok ring)
    (calls : List Call) (hlen : ∀ p, .send p ∈ calls → p.length < 2 ^ 32)
    (hsent : Fifo.sentBytes capacity [] calls < 2 ^ 64) :
    (serveAll capacity ring calls).1 = (Fifo.serveAll capacity [] calls).1 ∧
    (serveAll capacity ring calls).2.seg.pendingBytes =
      frameBytes (Fifo.serveAll capacity [] calls).2 ∧
    ∀ pre c post, calls = pre ++ c :: post →
      (serveAll capacity ring pre).2.seg.pendingBytes =
        frameBytes (Fifo.serveAll capacity [] pre).2 ∧
      match c with
      | .send p =>
        ((∃ e, (serve capacity (serveAll capacity ring pre).2 c).1 = .sent (.error e)) ↔
          capacity < 4 + p.length) ∧
        (4 + p.length ≤ capacity →
          ((serve capacity (serveAll capacity ring pre).2 c).1 = .sent (.ok true) ↔
            (serveAll capacity ring pre).2.seg.pendingBytes + 4 + p.length ≤ capacity)) ∧
        ((serve capacity (serveAll capacity ring pre).2 c).1 ≠ .sent (.ok true) →
          (serve capacity (serveAll capacity ring pre).2 c).2.seg =
            (serveAll capacity ring pre).2.seg)
      | .recv =>
        (serve capacity (serveAll capacity ring pre).2 c).1 =
          .got (.ok (Fifo.serveAll capacity [] pre).2.head?) := by
  obtain ⟨hholds, hhead⟩ := holds_create hring
  have hall := serveAll_refines calls [] hholds hlen (by simpa [hhead] using hsent)
  refine ⟨hall.1, hall.2.1.pendingBytes_eq, ?_⟩
  rintro pre c post rfl
  have hpre := serveAll_refines pre (c :: post) hholds
    (fun p hp => hlen p (List.mem_append_left _ hp)) (by simpa [hhead] using hsent)
  refine ⟨hpre.2.1.pendingBytes_eq, ?_⟩
  exact serve_spec hpre.2.1 (fun p hp => hlen p (by simp [hp])) hpre.2.2

/-- The second frame wraps around the end of a ring of twelve bytes. -/
theorem ring_refines_fifo_wrapping :
    ∃ ring, create 12 = .ok ring ∧
      (serveAll 12 ring [.send [1, 2, 3], .recv, .send [4, 5, 6, 7], .send [8], .recv, .recv]).1 =
        [.sent (.ok true), .got (.ok (some [1, 2, 3])), .sent (.ok true), .sent (.ok false),
          .got (.ok (some [4, 5, 6, 7])), .got (.ok none)] := by
  refine ⟨_, rfl, ?_⟩
  rw [(ring_refines_fifo rfl _ (by simp) (by decide)).1]
  decide

end Gcos.Osprims
