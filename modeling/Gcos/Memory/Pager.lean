import Gcos.Kernel.World

/-!
# The context pager

`gcos/memory`: the token estimate, the three eviction policies, and
`ContextPager.assemble`, which applies the policies in order until the context fits the
budget and then hands out the messages.  Everything runs in the worker that holds the
agent `p`.
-/

namespace Gcos

open Lib

namespace Memory

/-- `estimate_tokens`. -/
def estimateTokens (text : String) : ℤ :=
  if text.toList = [] then 0 else max 1 (text.toList.length / 4 : ℕ)

/-- `_page_tokens`. -/
def pageTokens (page : ContextPage) : ℤ :=
  if 0 < page.tokens then page.tokens else estimateTokens page.content

/-- `context_size`. -/
def contextSize (pages : List ContextPage) : ℤ := (pages.map pageTokens).sum

/-- The slice `xs[:k]`. -/
def sliceTo {α : Type} (xs : List α) (k : ℤ) : List α :=
  if 0 ≤ k then xs.take k.toNat else xs.take (xs.length - k.natAbs)

lemma sliceTo_sublist {α : Type} (xs : List α) (k : ℤ) : (sliceTo xs k).Sublist xs := by
  unfold sliceTo
  split
  · exact List.take_sublist _ _
  · exact List.take_sublist _ _

/-- The pages that are not pinned. -/
def nonPinned (pages : List ContextPage) : List ContextPage := pages.filter fun p => !p.pinned

/-- The pages that a summary may replace. -/
def summarizable (pages : List ContextPage) : List ContextPage :=
  pages.filter fun p => !p.pinned && !p.summarized && p.role ≠ .system

/-- `pages.sort(key=lambda p: p.last_access)`. -/
def oldestFirst (pages : List ContextPage) : List ContextPage :=
  pages.insertionSort fun p q => p.lastAccess ≤ q.lastAccess

/-- The value of a role in a message. -/
def roleName : Role → String
  | .system => "system"
  | .user => "user"
  | .assistant => "assistant"

/-- `pcb.context_pages.remove(page)` for every page of the batch. -/
def removePages (p : Pid) : List ContextPage → Prog KOp Unit
  | [] => return
  | page :: rest => do
    .perform (.write p (.removePage page))
    removePages p rest

/-- `LRUEvictionPolicy.evict`. -/
def evictLru (minKeep : ℤ) (p : Pid) : Prog KOp (Except Exn ℤ) := do
  let pcb ← .perform (.readPcb p .fields)
  if ((nonPinned pcb.contextPages).length : ℤ) ≤ minKeep then return .ok 0
  else match (nonPinned pcb.contextPages).argmin (·.lastAccess) with
    | none => return .error (.other "ValueError" "min() iterable argument is empty")
    | some victim => do
      let _ ← .perform .now
      .perform (.write p (.removePage victim))
      return .ok 1

/-- `SUMMARIZE_SYSTEM`. -/
def summarizeSystem : String :=
  "You compress conversation history. Given a sequence of prior turns, " ++
  "produce 2-3 sentences that preserve key facts, names, numbers, and any " ++
  "decisions made. Do not add commentary. Do not invent details."

/-- The request of a summarize call. -/
def summarizeRequest (batch : List ContextPage) (maxSummaryTokens : ℤ) : ChatRequest where
  messages :=
    [{ role := .system, content := summarizeSystem },
      { role := .user
        content := "\n\n".intercalate (batch.map fun q => s!"[{roleName q.role}] {q.content}") }]
  maxTokens := maxSummaryTokens
  timeout := 20

/-- The page that takes the place of the batch. -/
def summaryPage (batch : List ContextPage) (r : ChatResult) : PageDraft :=
  let text := String.ofList (Text.strip r.content.toList)
  { role := .system
    content := s!"[Summary of {batch.length} prior turns]\n{text}"
    tokens := if 0 < r.completionTokens then r.completionTokens else estimateTokens text
    summarized := true }

/-- The second half of `SummarizeEvictionPolicy.evict`: the call and what it leads to. -/
def summarizeBatch (batchSize : ℤ) (metered : Bool) (maxSummaryTokens : ℤ) (p : Pid)
    (batch : List ContextPage) : Prog KOp (Except Exn ℤ) := do
  match ← .perform (.chat (.summarize metered) (summarizeRequest batch maxSummaryTokens)) with
  | .error e =>
    if metered then do
      -- a call that raised is not charged
      .perform .refund
      return .error e
    else return .error e
  | .ok r =>
    match batch with
    | [] => return .error (.other "IndexError" "list index out of range")
    | first :: _ => do
      let pcb ← .perform (.readPcb p .fields)
      removePages p batch
      .perform (.write p (.insertPage (pcb.contextPages.idxOf first) (summaryPage batch r)))
      return .ok (batchSize - 1)

/-- `SummarizeEvictionPolicy.evict`.  The worker's client is at hand, so the policy never
builds one of its own. -/
def evictSummarize (batchSize : ℤ) (metered : Bool) (maxSummaryTokens : ℤ) (p : Pid) :
    Prog KOp (Except Exn ℤ) := do
  let pcb ← .perform (.readPcb p .fields)
  if ((summarizable pcb.contextPages).length : ℤ) < batchSize then return .ok 0
  else
    let batch := sliceTo (oldestFirst (summarizable pcb.contextPages)) batchSize
    if metered then do
      if ← .perform .acquire then summarizeBatch batchSize metered maxSummaryTokens p batch
      else return .ok 0
    else summarizeBatch batchSize metered maxSummaryTokens p batch

/-- `SwapEvictionPolicy.evict`. -/
def evictSwap (batchSize minKeep : ℤ) (p : Pid) : Prog KOp (Except Exn ℤ) := do
  let pcb ← .perform (.readPcb p .fields)
  if ((nonPinned pcb.contextPages).length : ℤ) ≤ minKeep then return .ok 0
  else
    let batch := sliceTo (oldestFirst (nonPinned pcb.contextPages)) batchSize
    match ← .perform (.swapOut p batch) with
    | .error e => return .error e
    | .ok () => do
      removePages p batch
      return .ok batch.length

/-- `EvictionPolicy.evict`. -/
def evict (p : Pid) : Policy → Prog KOp (Except Exn ℤ)
  | .lru minKeep => evictLru minKeep p
  | .summarize batchSize metered maxSummaryTokens =>
    evictSummarize batchSize metered maxSummaryTokens p
  | .swap batchSize minKeep => evictSwap batchSize minKeep p

/-- The policies in their order, until one of them frees something.  `freed` is the answer
of the last policy that was asked. -/
def tryPolicies (p : Pid) : List Policy → ℤ → Prog KOp (Except Exn ℤ)
  | [], freed => return .ok freed
  | policy :: rest, _ => do
    match ← evict p policy with
    | .error e => return .error e
    | .ok freed => if 0 < freed then return .ok freed else tryPolicies p rest freed

/-- The eviction loop of `assemble` with its guard. -/
def makeRoom (policies : List Policy) (p : Pid) (effectiveBudget : ℤ) :
    ℕ → Prog KOp (Except Exn Unit)
  | 0 => return .ok ()
  | guard + 1 => do
    let pcb ← .perform (.readPcb p .fields)
    if effectiveBudget < contextSize pcb.contextPages then do
      match ← tryPolicies p policies 0 with
      | .error e => return .error e
      -- when nothing more can be freed the messages go out over budget
      | .ok freed => if freed = 0 then return .ok () else makeRoom policies p effectiveBudget guard
    else return .ok ()

/-- The message of a page. -/
def pageMessage (page : ContextPage) : ChatMessage :=
  { role := page.role, content := page.content }

/-- The turn that is appended without being recorded. -/
def extraMessage (extraUserPrompt : Option String) : List ChatMessage :=
  match extraUserPrompt with
  | some text => if text.toList = [] then [] else [{ role := .user, content := text }]
  | none => []

/-- `ContextPager.assemble`. -/
def assemble (pager : ContextPager) (p : Pid) (extraUserPrompt : Option String) :
    Prog KOp (Except Exn (List ChatMessage)) := do
  let effectiveBudget := pager.budget - estimateTokens (extraUserPrompt.getD "")
  match ← makeRoom pager.policies p effectiveBudget 16 with
  | .error e => return .error e
  | .ok () => do
    let pcb ← .perform (.readPcb p .fields)
    .perform (.write p .touchPages)
    return .ok (pcb.contextPages.map pageMessage ++ extraMessage extraUserPrompt)

/-- `default_policies`. -/
def defaultPolicies (metered : Bool) : List Policy :=
  [.lru 2, .summarize 4 metered 200, .swap 2 2]

end Memory

end Gcos
