import Gcos.Lib.Conduit
import Gcos.Lib.Json
import Gcos.Process.Strand

/-!
# The report of a child on its way through the pipe

The end of the child's branch of `_run_in_process`, the reading loop of the parent, and the
beginning of `_apply_result`: the child dumps its report as JSON and writes it in a loop
around partial writes, the parent reads chunks until the end of the pipe and parses what has
arrived.

`Process.received` takes what becomes of a report as given: it arrives, or nothing arrives,
or what arrives is not JSON.  Here this is a theorem about the bytes
(`report_through_pipe`).
-/

namespace Gcos

/-- `AgentState.value`. -/
def AgentState.value : AgentState → String
  | new => "NEW"
  | ready => "READY"
  | running => "RUNNING"
  | waiting => "WAITING"
  | blocked => "BLOCKED"
  | done => "DONE"
  | timeout => "TIMEOUT"
  | error => "ERROR"
  | zombie => "ZOMBIE"

/-- `AgentState(value)`, which raises for anything else. -/
def AgentState.ofValue (value : String) : Option AgentState :=
  [new, ready, running, waiting, blocked, done, timeout, error, zombie].find? (·.value = value)

lemma AgentState.ofValue_value (st : AgentState) : ofValue st.value = some st := by
  cases st <;> rfl

namespace Process

open Lib

variable {n : ℕ}

/-! ### The bytes -/

/-- A field that holds a text or `None`. -/
def textOrNull : Option String → Json
  | none => .null
  | some text => .str text

/-- The dictionary that a child dumps.  A child that crashed enters its fields in another
order. -/
def Payload.toJson (payload : Payload) (crashed : Bool) : Json :=
  if crashed then
    .obj [("state", .str payload.state.value), ("error", textOrNull payload.error),
      ("result", textOrNull payload.result), ("tokens_used", .int payload.tokensUsed),
      ("llm_calls_used", .int payload.llmCallsUsed)]
  else
    .obj [("result", textOrNull payload.result), ("error", textOrNull payload.error),
      ("tokens_used", .int payload.tokensUsed), ("llm_calls_used", .int payload.llmCallsUsed),
      ("state", .str payload.state.value)]

/-- `json.dumps(payload).encode("utf-8")`: the text is ASCII, so a character is a byte. -/
def Payload.wire (payload : Payload) (crashed : Bool) : List UInt8 :=
  (payload.toJson crashed).encode.map fun c => UInt8.ofNat c.toNat

/-- The text of bytes that are ASCII. -/
def ofWire (bytes : List UInt8) : List Char := bytes.map fun b => Char.ofNat b.toNat

/-- `payload.get(f)`, for a field that holds a text or `None`. -/
def readText : Option Json → Option (Option String)
  | none | some .null => some none
  | some (.str text) => some (some text)
  | some (.bool _) | some (.int _) | some (.arr _) | some (.obj _) => none

/-- `payload.get(f)`, for a field that holds a number. -/
def readInt : Option Json → Option ℤ
  | some (.int n) => some n
  | none | some .null | some (.str _) | some (.bool _) | some (.arr _) | some (.obj _) => none

/-- `AgentState(payload.get("state", "ERROR"))`, and `ERROR` if that raises. -/
def readState : Option Json → AgentState
  | some (.str value) => (AgentState.ofValue value).getD .error
  | none | some .null | some (.int _) | some (.bool _) | some (.arr _) | some (.obj _) => .error

/-- The fields of a report.  A value of another shape is none that a child dumps. -/
def Payload.ofJson (v : Json) : Option Payload := do
  let result ← readText (v.get "result")
  let error ← readText (v.get "error")
  let tokensUsed ← readInt (v.get "tokens_used")
  let llmCallsUsed ← readInt (v.get "llm_calls_used")
  return { state := readState (v.get "state"), result, error, tokensUsed, llmCallsUsed }

/-- The beginning of `_apply_result`: which of its branches the bytes lead to. -/
def rawOf (bytes : List UInt8) : Option Raw :=
  if bytes = [] then some .empty
  else
    match Json.decode (ofWire bytes) with
    | none => some .corrupt
    | some v => (Payload.ofJson v).map .json

/-! ### What is dumped is parsed -/

lemma readText_textOrNull (text : Option String) : readText (some (textOrNull text)) = some text := by
  cases text <;> rfl

lemma ofJson_toJson (payload : Payload) (crashed : Bool) :
    Payload.ofJson (payload.toJson crashed) = some payload := by
  obtain ⟨state, result, error, tokens, calls⟩ := payload
  cases crashed <;>
  · simp [Payload.toJson, Payload.ofJson, Json.get, List.lookup_cons, readText_textOrNull, readInt,
      readState, AgentState.ofValue_value]

lemma ofWire_map {s : List Char} (hs : ∀ c ∈ s, Json.IsAscii c) :
    ofWire (s.map fun c => UInt8.ofNat c.toNat) = s := by
  rw [ofWire, List.map_map]
  refine (List.map_congr_left fun c hc => ?_).trans (List.map_id s)
  have hsize : c.toNat < UInt8.size := Nat.lt_trans (hs c hc) (by decide)
  simp only [Function.comp_apply, UInt8.toNat_ofNat_of_lt' hsize, Char.ofNat_toNat, id_eq]

lemma ofWire_wire (payload : Payload) (crashed : Bool) :
    ofWire (payload.wire crashed) = (payload.toJson crashed).encode :=
  ofWire_map (Json.isAscii_encode _)

lemma wire_ne_nil (payload : Payload) (crashed : Bool) : payload.wire crashed ≠ [] := by
  cases crashed <;>
  · simp [Payload.wire, Payload.toJson, Json.encode]

lemma isInt_toJson (payload : Payload) (crashed : Bool) :
    (payload.toJson crashed).isInt = false := by
  cases crashed <;> rfl

/-- A report that has arrived is taken over as it was dumped. -/
lemma rawOf_wire (payload : Payload) (crashed : Bool) :
    rawOf (payload.wire crashed) = some (.json payload) := by
  rw [rawOf, if_neg (wire_ne_nil payload crashed), ofWire_wire, Json.decode_encode]
  dsimp only
  rw [ofJson_toJson, Option.map_some]

/-- **A report that broke off is never taken for another one.** -/
lemma rawOf_of_prefix {payload : Payload} {crashed : Bool} {bytes : List UInt8}
    (hpre : bytes <+: payload.wire crashed) (hnil : bytes ≠ [])
    (hne : bytes ≠ payload.wire crashed) : rawOf bytes = some .corrupt := by
  have htext : ofWire bytes <+: (payload.toJson crashed).encode := by
    rw [← ofWire_wire]
    exact hpre.map _
  have hshort : ofWire bytes ≠ (payload.toJson crashed).encode := by
    intro heq
    refine hne (hpre.eq_of_length ?_)
    have hlen := congrArg List.length (heq.trans (ofWire_wire payload crashed).symm)
    simpa [ofWire] using hlen
  rw [rawOf, if_neg hnil, Json.decode_of_prefix (isInt_toJson payload crashed) htext hshort]

/-! ### The pipe -/

/-- The most that the parent reads at once. -/
def chunkSize : ℕ := 65536

/-- What has become of the report in a pipe whose reader has seen the end. -/
def fate (c : Conduit UInt8) : Pipe :=
  if c.unsent = [] then .whole else if c.taken = [] then .empty else .torn

/-- The bytes of a report that has met its fate. -/
lemma rawOf_fate {payload : Payload} {crashed : Bool} {c : Conduit UInt8}
    (h : c.taken ++ c.unsent = payload.wire crashed) :
    rawOf c.taken = some
      (match fate c with
      | .whole => .json payload
      | .empty => .empty
      | .torn => .corrupt) := by
  unfold fate
  split_ifs with hunsent htaken
  · rw [hunsent, List.append_nil] at h
    rw [h, rawOf_wire]
  · rw [rawOf, if_pos htaken]
  · refine rawOf_of_prefix ⟨c.unsent, h⟩ htaken fun heq => hunsent ?_
    rw [← heq] at h
    exact List.append_right_eq_self.1 h

/-- **What the parent reads is what the coarse model says.**  Whatever the size of the pipe,
the partial writes of the child and the reads of the parent, the workers that hold a copy of
the writing end for a while, and the moment of a `SIGKILL`: no run goes on for ever, the
parent can always get to the end of the pipe, and there the bytes are the whole report, or
nothing, or no JSON.  A child that nobody kills has its whole report delivered. -/
theorem report_through_pipe (cfg : KernelConfig) (child : Child) (t : Tid n) (p : Pid)
    (w : World n) (crashed : Bool) {cap heirs : ℕ} (hcap : 0 < cap) {moves : List Conduit.Move}
    {c : Conduit UInt8}
    (hrun : Conduit.run cap chunkSize
      (Conduit.start ((report cfg child t p w).wire crashed) heirs) moves = some c) :
    moves.length ≤ 2 * ((report cfg child t p w).wire crashed).length + heirs + 2 ∧
      (∃ moves' c', Conduit.run cap chunkSize c moves' = some c' ∧ c'.ended = true) ∧
      (c.ended = true →
        rawOf c.taken = some (received cfg { child with pipe := fate c } t p w) ∧
          (.kill ∉ moves → fate c = .whole)) := by
  refine ⟨Conduit.length_run_le hrun, Conduit.exists_ended hcap (by decide) c, fun hended => ?_⟩
  obtain ⟨hwhole, hcomplete⟩ := Conduit.run_ended hrun hended
  refine ⟨rawOf_fate hwhole, fun halive => if_pos (hcomplete halive)⟩

/-- A child whose client cannot be made is killed after the first byte of its report. -/
theorem torn_report_through_pipe :
    let child : Child :=
      { factory := some (.other "ValueError" "no key"), outside := .calm ⟨"", 0, 0, 0⟩ }
    let w := picked { prompt := "go" } ⟨3, 3⟩
    ∃ c, Conduit.run 4096 chunkSize
        (Conduit.start ((report shipped child (.worker 0) 1 w).wire true) 1)
        [.write 1, .kill, .release, .read 1, .finish] = some c ∧
      c.ended = true ∧ rawOf c.taken = some .corrupt := by
  intro child w
  have hrun : ∃ c, Conduit.run 4096 chunkSize
      (Conduit.start ((report shipped child (.worker 0) 1 w).wire true) 1)
      [.write 1, .kill, .release, .read 1, .finish] = some c ∧ c.ended = true ∧
        fate c = .torn := ⟨_, rfl, rfl, rfl⟩
  obtain ⟨c, hc, hended, hfate⟩ := hrun
  obtain ⟨-, -, hread⟩ := report_through_pipe shipped child (.worker 0) 1 w true (by decide) hc
  refine ⟨c, hc, hended, ?_⟩
  rw [(hread hended).1, hfate]
  rfl

end Process

end Gcos
