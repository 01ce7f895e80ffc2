import Gcos.Memory.Pager

/-!
# Running one step of an agent

`gcos/executor.py`, `gcos/agent_loop.py` and `gcos/coder.py`: `run_step` makes one LLM
call for the agent and answers whether the agent has more to do.  There are three kinds
of agents: plain chat and the coder, which finish with their first call, and the
multi-step agents, which go on until they give a final answer.

The steps answer in `Except Exn`: an exception that a step does not handle itself
reaches the worker.  The client is the one that the worker holds.
-/

namespace Gcos

open Lib Memory

namespace Exec

/-- `pcb.transition(st); pcb.error = msg`. -/
def failWith (p : Pid) (st : AgentState) (msg : String) : Prog KOp Unit := do
  .perform (.write p (.transition st))
  .perform (.write p (.error msg))

/-- The handlers around a chat call. -/
def failWithExn (p : Pid) : Exn → Prog KOp Unit
  | .timeout msg => failWith p .timeout msg
  | .other cls msg => failWith p .error (cls ++ ": " ++ msg)

/-- The error of an agent whose own budget is used up. -/
def quotaExhausted : String := "per-agent quota exhausted"

/-- `if pcb.state != AgentState.RUNNING: pcb.transition(AgentState.RUNNING)`. -/
def enterRunning (p : Pid) : Prog KOp Unit := do
  let pcb ← .perform (.readPcb p .fields)
  if pcb.state = .running then return
  else .perform (.write p (.transition .running))

/-! ### Plain chat -/

/-- The part of `_run_plain_step` after a call that returned. -/
def finishPlain (p : Pid) (r : ChatResult) : Prog KOp (Except Exn Bool) := do
  .perform (.write p (.countCall r.totalTokens))
  let pcb ← .perform (.readPcb p .zombie)
  if pcb.state = .zombie then return .ok false
  else do
    .perform (.write p (.result r.content))
    -- the prompt becomes a page with the first call only
    Prog.when (pcb.llmCallsUsed = 1) (.perform (.write p (.appendPage
      { role := .user, content := pcb.prompt, tokens := r.promptTokens })))
    .perform (.write p (.appendPage
      { role := .assistant, content := r.content, tokens := r.completionTokens }))
    .perform (.write p (.transition .done))
    return .ok false

/-- The try block of `_run_plain_step`: assembling the messages and the call. -/
def plainCall (cfg : KernelConfig) (p : Pid) : Prog KOp (Except Exn ChatResult) := do
  let pcb ← .perform (.readPcb p .fields)
  let extra := if pcb.llmCallsUsed = 0 then some pcb.prompt else none
  match ← assemble cfg.pager p extra with
  | .error e => return .error e
  | .ok messages =>
    .perform (.chat .step
      { messages := messages
        maxTokens := min pcb.capability.maxTokens 1024
        timeout := pcb.timeoutS })

/-- `_run_plain_step`. -/
def runPlainStep (cfg : KernelConfig) (p : Pid) : Prog KOp (Except Exn Bool) := do
  let pcb ← .perform (.readPcb p .terminal)
  if pcb.isTerminal then return .ok false
  else if pcb.quotaRemaining ≤ 0 then do
    failWith p .error quotaExhausted
    return .ok false
  else do
    enterRunning p
    match ← plainCall cfg p with
    | .error e => do
      failWithExn p e
      return .ok false
    | .ok r => finishPlain p r

/-! ### The multi-step loop -/

/-- `agent_loop.SYSTEM`. -/
def reactSystem : String :=
  "You are a GCOS agent that solves a task in steps. On each step reply with " ++
  "exactly one line, either:\n" ++
  "  TOOL: <name> <arg>   to use a tool (tools: calc <expr>, note <text>)\n" ++
  "  FINAL: <answer>      when you are done.\n" ++
  "Use calc for arithmetic. Keep going until you can give FINAL."

/-- What a reply asks for. -/
inductive Action
  | tool (name arg : String)
  | final (arg : String)
deriving DecidableEq, Repr

/-- The protocol line of `parse_action`, if `line` is one. -/
def parseLine (host : Host) (line : List Char) : Option Action :=
  let s := Text.strip line
  let up := (host.upper (String.ofList s)).toList
  if "FINAL:".toList <+: up then
    some (.final (String.ofList (Text.strip (s.drop 6))))
  else if "TOOL:".toList <+: up then
    let (name, arg) := Text.partitionSpace (Text.strip (s.drop 5))
    some (.tool (host.lower (String.ofList (Text.strip name))) (String.ofList (Text.strip arg)))
  else none

/-- `parse_action`. -/
def parseAction (host : Host) (content : String) : Action :=
  match (Text.splitlines content.toList).findSome? (parseLine host) with
  | some action => action
  | none => .final (String.ofList (Text.strip content.toList))

/-- `TOOLS.get(name)` applied to its argument. -/
def useTool (host : Host) (name arg : String) : String :=
  match name with
  | "calc" => host.safeCalc arg
  | "note" => "noted: " ++ String.ofList ((Text.strip arg.toList).take 120)
  | _ => s!"error: unknown tool '{name}'"

/-- The part of `run_react_step` after a call that returned. -/
def finishReact (host : Host) (p : Pid) (r : ChatResult) : Prog KOp (Except Exn Bool) := do
  .perform (.write p (.countCall r.totalTokens))
  let pcb ← .perform (.readPcb p .zombie)
  if pcb.state = .zombie then return .ok false
  else do
    Prog.when (pcb.react.step = 0) (.perform (.write p (.appendPage
      { role := .user, content := pcb.prompt, tokens := r.promptTokens })))
    .perform (.write p (.appendPage
      { role := .assistant, content := r.content, tokens := r.completionTokens }))
    .perform (.write p .countStep)
    -- a reply without a protocol line is a final answer
    match parseAction host r.content with
    | .final arg => do
      .perform (.write p (.result arg))
      .perform (.write p (.transition .done))
      return .ok false
    | .tool name arg => do
      let obs := useTool host name arg
      .perform (.write p (.observe s!"{name}({arg}) -> {obs}"))
      .perform (.write p (.appendPage { role := .user, content := "OBSERVATION: " ++ obs }))
      return .ok true

/-- The call of `run_react_step`.  The messages are assembled outside the try block, so
an exception of the pager is not handled here. -/
def reactCall (cfg : KernelConfig) (p : Pid) : Prog KOp (Except Exn Bool) := do
  let pcb ← .perform (.readPcb p .fields)
  let extra := if pcb.react.step = 0 then some pcb.prompt else none
  match ← assemble cfg.pager p extra with
  | .error e => return .error e
  | .ok messages => do
    match ← .perform (.chat .step
      { messages := { role := .system, content := reactSystem } :: messages
        maxTokens := min pcb.capability.maxTokens 512
        timeout := pcb.timeoutS }) with
    | .error e => do
      failWithExn p e
      return .ok false
    | .ok r => finishReact cfg.host p r

/-- `run_react_step`. -/
def runReactStep (cfg : KernelConfig) (p : Pid) : Prog KOp (Except Exn Bool) := do
  let pcb ← .perform (.readPcb p .terminal)
  if pcb.isTerminal then return .ok false
  else if pcb.quotaRemaining ≤ 0 then do
    failWith p .error quotaExhausted
    return .ok false
  -- the quota is tested first, so it names the error when both are used up
  else if pcb.capability.maxToolCalls ≤ pcb.react.step then do
    failWith p .error s!"exceeded max_tool_calls={pcb.capability.maxToolCalls}"
    return .ok false
  else do
    enterRunning p
    reactCall cfg p

/-! ### The coder -/

/-- `CODER_SYSTEM`. -/
def coderSystem : String :=
  "You are a Python coder agent running inside GCOS, a sandboxed agent OS.\n" ++
  "When given a task, reply with exactly one fenced Python block:\n\n" ++
  "    ```python\n    # your code here\n    print(...)\n    ```\n\n" ++
  "Constraints (enforced by the kernel — violations are auto-rejected):\n" ++
  "  - No network calls, no subprocess, no os.system, no eval/exec.\n" ++
  "  - Use only the Python standard library.\n" ++
  "  - Read from stdin is unavailable; write your answer to stdout via print().\n" ++
  "  - Keep the code short and self-contained."

/-- `_ensure_coder_system_pinned`. -/
def ensureCoderSystemPinned (p : Pid) : Prog KOp Unit := do
  let pcb ← .perform (.readPcb p .fields)
  if pcb.contextPages.any fun q => q.role = .system && q.pinned then return
  else
    .perform (.write p (.insertPage 0
      { role := .system, content := coderSystem, pinned := true }))

/-- `_format_sandbox_result`. -/
def formatSandboxResult (reply : String) (r : SandboxResult) : String :=
  let trimmed (s : String) := String.ofList (Text.rstrip s.toList)
  let parts :=
    [trimmed reply, "", s!"--- sandbox: {r.shortSummary} ---"] ++
      (if r.stdout.toList = [] then [] else ["[stdout]", trimmed r.stdout]) ++
      (if r.stderr.toList = [] then [] else ["[stderr]", trimmed r.stderr])
  "\n".intercalate parts

/-- Step 5 of `run_coder_step`: the sandbox. -/
def runSandbox (p : Pid) (pcb : AgentControlBlock) (reply code : String) :
    Prog KOp (Except Exn Bool) := do
  match ← .perform (.runPython code (min pcb.timeoutS 10) pcb.priority) with
  | .error e => return .error e
  | .ok r => do
    .perform (.write p (.result (formatSandboxResult reply r)))
    if r.ok then do
      .perform (.write p (.transition .done))
      return .ok false
    else do
      -- here the text comes before the transition
      .perform (.write p (.error s!"sandbox: {r.shortSummary}"))
      .perform (.write p (.transition .error))
      return .ok false

/-- The part of `run_coder_step` after a call that returned. -/
def finishCoder (host : Host) (p : Pid) (r : ChatResult) : Prog KOp (Except Exn Bool) := do
  .perform (.write p (.countCall r.totalTokens))
  let pcb ← .perform (.readPcb p .zombie)
  if pcb.state = .zombie then return .ok false
  else do
    Prog.when (pcb.llmCallsUsed = 1) (.perform (.write p (.appendPage
      { role := .user, content := pcb.prompt, tokens := r.promptTokens })))
    .perform (.write p (.appendPage
      { role := .assistant, content := r.content, tokens := r.completionTokens }))
    match host.extractPython r.content with
    | none => do
      .perform (.write p (.result r.content))
      .perform (.write p (.transition .done))
      return .ok false
    | some code =>
      -- an empty block is treated as no block
      if code.toList = [] then do
        .perform (.write p (.result r.content))
        .perform (.write p (.transition .done))
        return .ok false
      else if !pcb.capability.canExecCode then do
        .perform (.write p (.result
          (r.content ++ "\n\n--- sandbox: SKIPPED (capability.can_exec_code=False) ---")))
        .perform (.write p (.transition .done))
        return .ok false
      else match host.scanCode code with
        | some d => do
          .perform (.write p (.error
            s!"policy_gate.code: {d.reason} (matched {host.repr d.matched}, rule={d.rule})"))
          .perform (.write p (.result (r.content ++ s!"\n\n--- sandbox: BLOCKED ({d.rule}) ---")))
          .perform (.write p (.transition .error))
          return .ok false
        | none => runSandbox p pcb r.content code

/-- The call of `run_coder_step`. -/
def coderCall (cfg : KernelConfig) (p : Pid) : Prog KOp (Except Exn Bool) := do
  let pcb ← .perform (.readPcb p .fields)
  match ← assemble cfg.pager p (some pcb.prompt) with
  | .error e => return .error e
  | .ok messages => do
    match ← .perform (.chat .step
      { messages := messages
        maxTokens := min pcb.capability.maxTokens 1024
        timeout := pcb.timeoutS }) with
    | .error e => do
      failWithExn p e
      return .ok false
    | .ok r => finishCoder cfg.host p r

/-- What the calls of `run_react_step` and `run_coder_step` have in common: the messages are
assembled, the client is asked, and `finish` takes the reply. -/
def chatStep (cfg : KernelConfig) (p : Pid) (extra : AgentControlBlock → Option String)
    (request : AgentControlBlock → List ChatMessage → ChatRequest)
    (finish : ChatResult → Prog KOp (Except Exn Bool)) : Prog KOp (Except Exn Bool) := do
  let pcb ← .perform (.readPcb p .fields)
  match ← assemble cfg.pager p (extra pcb) with
  | .error e => return .error e
  | .ok messages => do
    match ← .perform (.chat .step (request pcb messages)) with
    | .error e => do
      failWithExn p e
      return .ok false
    | .ok r => finish r

lemma reactCall_eq (cfg : KernelConfig) (p : Pid) :
    reactCall cfg p = chatStep cfg p
      (fun pcb => if pcb.react.step = 0 then some pcb.prompt else none)
      (fun pcb messages =>
        { messages := { role := .system, content := reactSystem } :: messages
          maxTokens := min pcb.capability.maxTokens 512
          timeout := pcb.timeoutS })
      (finishReact cfg.host p) := rfl

lemma coderCall_eq (cfg : KernelConfig) (p : Pid) :
    coderCall cfg p = chatStep cfg p (fun pcb => some pcb.prompt)
      (fun pcb messages =>
        { messages := messages
          maxTokens := min pcb.capability.maxTokens 1024
          timeout := pcb.timeoutS })
      (finishCoder cfg.host p) := rfl

/-- `run_coder_step`. -/
def runCoderStep (cfg : KernelConfig) (p : Pid) : Prog KOp (Except Exn Bool) := do
  let pcb ← .perform (.readPcb p .terminal)
  if pcb.isTerminal then return .ok false
  else match cfg.host.scanPrompt pcb.prompt with
    | some d => do
      failWith p .error s!"policy_gate.prompt: {d.reason} (matched {cfg.host.repr d.matched})"
      return .ok false
    | none =>
      if pcb.quotaRemaining ≤ 0 then do
        failWith p .error quotaExhausted
        return .ok false
      else do
        .perform (.write p (.transition .running))
        ensureCoderSystemPinned p
        coderCall cfg p

/-! ### The dispatcher -/

/-- `run_step`. -/
def runStep (cfg : KernelConfig) (p : Pid) : Prog KOp (Except Exn Bool) := do
  let pcb ← .perform (.readPcb p .fields)
  if pcb.capability.multiStep then runReactStep cfg p
  else if pcb.capability.canExecCode then runCoderStep cfg p
  else runPlainStep cfg p

end Exec

end Gcos
