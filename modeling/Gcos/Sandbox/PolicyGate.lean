import Gcos.Lib.Lists
import Gcos.Lib.Regex
import Gcos.Lib.Text
import Gcos.Kernel.World

/-!
# The policy gate

`gcos/sandbox/policy_gate.py`: two scans with regular expressions.  `scan_prompt` looks for
tags such as `[SHELL: rm -rf /]` in a prompt, `scan_code` looks for the listed calls and
imports in code that a language model has written.  Neither is a security boundary; what
they deny, and what they say about it, is fixed here.

`\w` is a letter, a digit or an underscore.  The letters and digits beyond ASCII are a
parameter.
-/

namespace Gcos.Sandbox

open Lib Regex

/-- `Decision`. -/
inductive Decision
  | allow
  | deny
deriving DecidableEq, Repr

/-- `GateResult`. -/
structure GateResult where
  decision : Decision
  reason : Option String := none
  matched : Option String := none
  rule : Option String := none
deriving DecidableEq, Repr

namespace GateResult

/-- `GateResult.allowed`. -/
def allowed (r : GateResult) : Bool := r.decision == .allow

/-- What a caller makes of a result that is not allowed. -/
def denial (r : GateResult) : Option Denial :=
  if r.allowed then none
  else some ⟨r.reason.getD "None", r.matched.getD "None", r.rule.getD "None"⟩

end GateResult

variable (alnum : Char → Bool)

/-- `\w`. -/
def wordChar (c : Char) : Bool :=
  c == '_' || if c.toNat < 128 then c.isAlphanum else alnum c

/-- `\s*`. -/
def spaces : Regex := many Text.isSpace

/-- `\s+`. -/
def someSpaces : Regex := seq (one Text.isSpace) spaces

/-! ### The prompt side -/

/-- The characters that a capital letter of the pattern stands for under `re.IGNORECASE`:
besides the two cases these are the sign for kelvin, the long s, and the i without and the I
with a dot. -/
def ignoringCase (c d : Char) : Bool :=
  d == c || d == c.toLower || (c == 'K' && d == '\u212a') || (c == 'S' && d == '\u017f') ||
    (c == 'I' && (d == '\u0130' || d == '\u0131'))

/-- `str.upper` on the characters that stand for a capital letter. -/
def upperChar (c : Char) : Char :=
  if c = '\u017f' then 'S' else if c = '\u0131' then 'I' else c.toUpper

/-- A word in any case. -/
def anyCase (w : List Char) : Regex := parts (w.map fun c => one (ignoringCase c))

/-- The kinds of tags. -/
def tagKinds : List (List Char) :=
  ["SHELL", "KERNEL", "NET", "SUDO", "EXFIL", "EXEC"].map String.toList

/-- `PROMPT_TAG_PATTERN`. -/
def promptTagPattern : Regex :=
  parts [text ['['], spaces, group (oneOf (tagKinds.map anyCase)), spaces, text [':'],
    many (· != ']'), text [']']]

/-- `scan_prompt`. -/
def scanPrompt (prompt : String) : GateResult :=
  match search (wordChar alnum) promptTagPattern prompt.toList with
  | some m =>
    { decision := .deny
      reason := some ("prompt contains forbidden tag [" ++
        String.ofList (m.group.map upperChar) ++ "]")
      matched := some (String.ofList m.text)
      rule := some "prompt.jailbreak_tag" }
  | none => { decision := .allow }

/-! ### The code side -/

/-- A rule: its pattern, its name and what it says. -/
structure CodeRule where
  pattern : Regex
  ruleId : String
  reason : String

/-- `['"]`. -/
def quote : Regex := one fun c => c == '\'' || c == '"'

/-- A word of the pattern. -/
def word (s : String) : Regex := text s.toList

/-- `_CODE_RULES`. -/
def codeRules : List CodeRule :=
  [ ⟨parts [boundary, word "os.system", spaces, word "("],
      "code.os_system", "os.system() invokes a real shell"⟩,
    ⟨parts [boundary, word "subprocess", boundary],
      "code.subprocess", "subprocess module spawns processes"⟩,
    ⟨parts [boundary, word "__import__", spaces, word "(", spaces, quote, word "os", quote],
      "code.import_os_dynamic", "dynamic __import__('os') bypasses static analysis"⟩,
    ⟨parts [boundary, word "eval", spaces, word "("],
      "code.eval", "eval() executes arbitrary expressions"⟩,
    ⟨parts [boundary, word "exec", spaces, word "("],
      "code.exec", "exec() executes arbitrary statements"⟩,
    ⟨parts [boundary, word "open", spaces, word "(", spaces, quote, word "/etc/"],
      "code.read_system_files", "reading /etc/* is forbidden"⟩,
    ⟨parts [boundary, word "socket.", group (oneOf [word "socket", word "create_connection"]),
        spaces, word "("],
      "code.network", "raw sockets are forbidden in sandbox"⟩,
    -- the boundary belongs to the first alternative only
    ⟨oneOf [parts [boundary, word "requests."], word "urllib.request.", word "urllib3.",
        word "httpx."],
      "code.network_lib", "HTTP libraries are forbidden in sandbox"⟩,
    ⟨parts [boundary, word "rm", someSpaces, word "-rf", someSpaces, word "/"],
      "code.rm_rf_root", "`rm -rf /` pattern in source"⟩,
    ⟨parts [boundary, group (word "shutil.rmtree"), spaces, word "(", spaces, quote, word "/"],
      "code.shutil_rmtree_root", "shutil.rmtree on an absolute root path"⟩,
    ⟨parts [boundary, word "os.popen", spaces, word "("],
      "code.os_popen", "os.popen() runs a shell command"⟩,
    ⟨parts [boundary, word "__import__", spaces, word "("],
      "code.import_dynamic", "dynamic __import__() of any module bypasses static checks"⟩,
    ⟨parts [notAfter (fun c => c == '.' || wordChar alnum c), word "compile", spaces, word "("],
      "code.compile", "compile() builds code objects for exec/eval"⟩,
    ⟨parts [boundary, word "pty.", group (oneOf [word "spawn", word "fork", word "openpty"]),
        spaces, word "("],
      "code.pty", "pty.* can spawn an interactive shell"⟩,
    ⟨parts [boundary, word "__builtins__", boundary],
      "code.builtins_access", "touching __builtins__ is a sandbox-escape pattern"⟩,
    ⟨parts [boundary, word "globals", spaces, word "(", spaces, word ")", spaces, word "["],
      "code.globals_index", "indexing globals() is used to reach hidden builtins"⟩,
    ⟨parts [boundary, word "os.", group (oneOf [word "remove", word "unlink", word "rmdir"]),
        spaces, word "(", spaces, quote, word "/"],
      "code.fs_delete_abs", "deleting an absolute path (e.g. /etc/*) is forbidden"⟩ ]

/-- The first rule with a match. -/
def firstRule (code : List Char) : List CodeRule → GateResult
  | [] => { decision := .allow }
  | r :: rules =>
    match search (wordChar alnum) r.pattern code with
    | some m =>
      { decision := .deny
        reason := some r.reason
        matched := some (String.ofList m.text)
        rule := some r.ruleId }
    | none => firstRule code rules

/-- `scan_code`. -/
def scanCode (code : String) : GateResult :=
  if code.toList.isEmpty then { decision := .allow }
  else firstRule alnum code.toList (codeRules alnum)

/-! ### Which prompts are denied -/

/-- The text is a tag.  Its kind is written `written`. -/
def IsTag (tag written : List Char) : Prop :=
  ∃ s₁ kind s₂ body, tag = '[' :: (s₁ ++ written ++ s₂ ++ ':' :: (body ++ [']'])) ∧
    (∀ c ∈ s₁, Text.isSpace c = true) ∧ kind ∈ tagKinds ∧
    List.Forall₂ (fun c d => ignoringCase c d = true) kind written ∧
    (∀ c ∈ s₂, Text.isSpace c = true) ∧ ']' ∉ body

variable {alnum} {prev : Option Char} {g x rest g' : List Char}

lemma matches_anyCase {kind : List Char} :
    Matches (wordChar alnum) (anyCase kind) prev g x rest g' ↔
      List.Forall₂ (fun c d => ignoringCase c d = true) kind x ∧ g' = g := by
  induction kind generalizing prev g x with
  | nil => simp [anyCase, parts, Matches]
  | cons c kind ih =>
    have ih' : ∀ {prev g x}, Matches (wordChar alnum)
        (parts (kind.map fun c => one (ignoringCase c))) prev g x rest g' ↔
        List.Forall₂ (fun c d => ignoringCase c d = true) kind x ∧ g' = g := ih
    rw [anyCase, List.map_cons, parts, Matches]
    constructor
    · rintro ⟨y, z, h, rfl, ⟨d, rfl, hd, rfl⟩, hz⟩
      obtain ⟨hw, rfl⟩ := ih'.1 hz
      exact ⟨.cons hd hw, rfl⟩
    · rintro ⟨hx, rfl⟩
      cases hx with
      | cons hd hz => exact ⟨[_], _, g', rfl, ⟨_, rfl, hd, rfl⟩, ih'.2 ⟨hz, rfl⟩⟩

/-- **The pattern matches the tags**, and its group is the kind. -/
lemma matches_promptTagPattern :
    Matches (wordChar alnum) promptTagPattern prev g x rest g' ↔ IsTag x g' := by
  simp only [promptTagPattern, parts, Matches, spaces, matches_text, matches_oneOf,
    List.mem_map, IsTag]
  constructor
  · rintro ⟨_, _, _, rfl, ⟨rfl, rfl⟩, s₁, _, _, rfl, ⟨hs₁, rfl⟩, w, _, _, rfl,
      ⟨rfl, h, _, ⟨kind, hkind, rfl⟩, hw⟩, s₂, _, _, rfl, ⟨hs₂, rfl⟩, _, _, _, rfl, ⟨rfl, rfl⟩,
      body, _, _, rfl, ⟨hbody, rfl⟩, _, _, _, rfl, ⟨rfl, rfl⟩, rfl, rfl⟩
    refine ⟨s₁, kind, s₂, body, by simp, hs₁, hkind, (matches_anyCase.1 hw).1, hs₂, fun hmem => ?_⟩
    simpa using hbody _ hmem
  · rintro ⟨s₁, kind, s₂, body, rfl, hs₁, hkind, hw, hs₂, hbody⟩
    refine ⟨['['], _, g, rfl, ⟨rfl, rfl⟩, s₁, g' ++ s₂ ++ ':' :: (body ++ [']']), g, by simp,
      ⟨hs₁, rfl⟩, g', s₂ ++ ':' :: (body ++ [']']), g', by simp,
      ⟨rfl, g, _, ⟨kind, hkind, rfl⟩, matches_anyCase.2 ⟨hw, rfl⟩⟩, s₂,
      ':' :: (body ++ [']']), g', rfl, ⟨hs₂, rfl⟩, [':'], body ++ [']'], g', rfl, ⟨rfl, rfl⟩,
      body, [']'], g', rfl, ⟨fun c hc => ?_, rfl⟩, [']'], [], g', rfl, ⟨rfl, rfl⟩, rfl, rfl⟩
    rw [bne_iff_ne]
    rintro rfl
    exact hbody hc

/-- The character is neither white space nor a colon. -/
def isInk (c : Char) : Bool := !Text.isSpace c && c != ':'

lemma isInk_of_ignoringCase {kind : List Char} (hkind : kind ∈ tagKinds) {c d : Char}
    (hc : c ∈ kind) (h : ignoringCase c d = true) : isInk d = true := by
  have hcapital : ∀ kind ∈ tagKinds, kind.all (fun c => isInk c && isInk c.toLower) = true := by
    decide
  obtain ⟨hupper, hlower⟩ :=
    (Bool.and_eq_true _ _).mp (List.all_eq_true.1 (hcapital kind hkind) c hc)
  simp only [ignoringCase, Bool.or_eq_true, Bool.and_eq_true, beq_iff_eq] at h
  rcases h with (((rfl | rfl) | ⟨-, rfl⟩) | ⟨-, rfl⟩) | ⟨-, rfl | rfl⟩
  · exact hupper
  · exact hlower
  all_goals decide

lemma isInk_of_mem {kind written : List Char} (hkind : kind ∈ tagKinds)
    (h : List.Forall₂ (fun c d => ignoringCase c d = true) kind written) :
    ∀ d ∈ written, isInk d = true := by
  have hletters : ∀ c ∈ kind, ∀ d, ignoringCase c d = true → isInk d = true :=
    fun c hc d => isInk_of_ignoringCase hkind hc
  clear hkind
  induction h with
  | nil => exact List.forall_mem_nil _
  | cons hd _ ih =>
    exact List.forall_mem_cons.2 ⟨hletters _ List.mem_cons_self _ hd,
      ih fun c hc => hletters c (List.mem_cons_of_mem _ hc)⟩

lemma head?_not_space {kind written : List Char} (hkind : kind ∈ tagKinds)
    (h : List.Forall₂ (fun c d => ignoringCase c d = true) kind written) (z : List Char) :
    (written ++ z).head?.any Text.isSpace = false := by
  have hne : ∀ kind ∈ tagKinds, kind ≠ [] := by decide
  have hink := isInk_of_mem hkind h
  cases h with
  | nil => exact absurd rfl (hne _ hkind)
  | cons hd _ =>
    have hletter := hink _ List.mem_cons_self
    rw [isInk, Bool.and_eq_true, Bool.not_eq_true'] at hletter
    exact hletter.1

/-- **At one place there is at most one tag.** -/
lemma IsTag.unique {x y g h u v : List Char} (hx : IsTag x g) (hy : IsTag y h)
    (heq : x ++ u = y ++ v) : x = y ∧ g = h := by
  obtain ⟨s₁, kind, s₂, body, rfl, hs₁, hkind, hg, hs₂, hbody⟩ := hx
  obtain ⟨t₁, kind', t₂, body', rfl, ht₁, hkind', hh, ht₂, hbody'⟩ := hy
  have hcolon : ∀ {s : List Char} (z), (∀ c ∈ s, Text.isSpace c = true) →
      (s ++ ':' :: z).head?.any isInk = false := by
    intro s z hs
    cases s with
    | nil => rfl
    | cons c s =>
      have hc := hs c List.mem_cons_self
      simp [isInk, hc]
  have hclose : ∀ {b : List Char}, ']' ∉ b → ∀ c ∈ b, (c != ']') = true := by
    rintro b hb c hc
    rw [bne_iff_ne]
    rintro rfl
    exact hb hc
  simp only [List.cons_append, List.append_assoc, List.cons.injEq, true_and] at heq
  obtain ⟨rfl, hkinds⟩ :=
    span_unique hs₁ ht₁ (head?_not_space hkind hg _) (head?_not_space hkind' hh _) heq
  obtain ⟨rfl, hspaces⟩ := span_unique (isInk_of_mem hkind hg) (isInk_of_mem hkind' hh)
    (hcolon _ hs₂) (hcolon _ ht₂) hkinds
  obtain ⟨rfl, hbodies⟩ := span_unique hs₂ ht₂ rfl rfl hspaces
  obtain ⟨rfl, -⟩ := span_unique (hclose hbody) (hclose hbody') rfl rfl (List.cons.inj hbodies).2
  exact ⟨rfl, rfl⟩

/-- The leftmost tag of a text. -/
structure FirstTag (s before tag written : List Char) : Prop where
  isTag : IsTag tag written
  here : before ++ tag <+: s
  first : ∀ u x g, u.length < before.length → u ++ x <+: s → ¬IsTag x g

lemma firstTag_of_search {s : List Char} {m : Found}
    (h : search (wordChar alnum) promptTagPattern s = some m) :
    FirstTag s m.before m.text m.group := by
  obtain ⟨hs, hm, hfirst⟩ := search_spec h
  refine ⟨matches_promptTagPattern.1 hm, ⟨m.after, hs.symm⟩, ?_⟩
  rintro u x g hlt ⟨v, hv⟩ hx
  exact hfirst u x v g hlt hv.symm (matches_promptTagPattern.2 hx)

lemma search_eq_none_iff {s : List Char} :
    search (wordChar alnum) promptTagPattern s = none ↔
      ∀ u x g, u ++ x <+: s → ¬IsTag x g := by
  rw [← Option.not_isSome_iff_eq_none, search_isSome_iff]
  constructor
  · rintro h u x g ⟨v, hv⟩ hx
    exact h ⟨u, x, v, g, hv.symm, matches_promptTagPattern.2 hx⟩
  · rintro h ⟨u, x, v, g, rfl, hx⟩
    exact h u x g (List.prefix_append _ _) (matches_promptTagPattern.1 hx)

lemma FirstTag.unique {s u x g u' x' g' : List Char} (h : FirstTag s u x g)
    (h' : FirstTag s u' x' g') : u = u' ∧ x = x' ∧ g = g' := by
  have hlen : u.length = u'.length := by
    rcases Nat.lt_trichotomy u.length u'.length with hlt | heq | hlt
    · exact absurd h.isTag (h'.first u x g hlt h.here)
    · exact heq
    · exact absurd h'.isTag (h.first u' x' g' hlt h'.here)
  obtain ⟨v, hv⟩ := h.here
  obtain ⟨v', hv'⟩ := h'.here
  rw [List.append_assoc] at hv hv'
  obtain ⟨rfl, hrest⟩ := List.append_inj (hv.trans hv'.symm) hlen
  exact ⟨rfl, h.isTag.unique h'.isTag hrest⟩

/-- What is said about a tag. -/
def tagDenial (tag written : List Char) : Denial where
  reason := "prompt contains forbidden tag [" ++ String.ofList (written.map upperChar) ++ "]"
  matched := String.ofList tag
  rule := "prompt.jailbreak_tag"

lemma scanPrompt_denial {prompt : String} {d : Denial} :
    (scanPrompt alnum prompt).denial = some d ↔
      ∃ before tag written, FirstTag prompt.toList before tag written ∧
        d = tagDenial tag written := by
  unfold scanPrompt
  split
  · next m hm =>
    have hfirst := firstTag_of_search hm
    constructor
    · intro h
      exact ⟨m.before, m.text, m.group, hfirst, (Option.some.inj h).symm⟩
    · rintro ⟨u, x, g, h, rfl⟩
      obtain ⟨-, rfl, rfl⟩ := h.unique hfirst
      rfl
  · next hnone =>
    constructor
    · intro h
      cases h
    · rintro ⟨u, x, g, h, -⟩
      exact absurd h.isTag (search_eq_none_iff.1 hnone u x g h.here)

lemma scanPrompt_allowed {prompt : String} :
    (scanPrompt alnum prompt).denial = none ↔
      ∀ u x g, u ++ x <+: prompt.toList → ¬IsTag x g := by
  unfold scanPrompt
  rw [← search_eq_none_iff]
  split
  · next m hm =>
    rw [hm]
    constructor <;> intro h <;> cases h
  · next hnone => exact ⟨fun _ => hnone, fun _ => rfl⟩

/-- **The prompts with a tag are denied**, and what is said is what the leftmost tag is; the
others are allowed. -/
theorem scanPrompt_spec (alnum : Char → Bool) (prompt : String) :
    (∀ d, (scanPrompt alnum prompt).denial = some d ↔
      ∃ before tag written, FirstTag prompt.toList before tag written ∧
        d = tagDenial tag written) ∧
    ((scanPrompt alnum prompt).denial = none ↔
      ∀ u x g, u ++ x <+: prompt.toList → ¬IsTag x g) :=
  ⟨fun _ => scanPrompt_denial, scanPrompt_allowed⟩

example : (scanPrompt (fun _ => false) "[KERNEL: x] [ exec\n: cat ]").denial =
    some ⟨"prompt contains forbidden tag [KERNEL]", "[KERNEL: x]", "prompt.jailbreak_tag"⟩ := by
  decide

/-! ### Which code is denied -/

/-- The rule applies to the code. -/
def CodeRule.Applies (alnum : Char → Bool) (r : CodeRule) (code : List Char) : Prop :=
  Occurs (wordChar alnum) r.pattern code

lemma firstRule_denial {code : List Char} {rules : List CodeRule} {d : Denial}
    (h : (firstRule alnum code rules).denial = some d) :
    ∃ above r below m, rules = above ++ r :: below ∧
      (∀ q ∈ above, ¬q.Applies alnum code) ∧ search (wordChar alnum) r.pattern code = some m ∧
      d = ⟨r.reason, String.ofList m.text, r.ruleId⟩ := by
  induction rules with
  | nil => cases h
  | cons r rules ih =>
    rw [firstRule] at h
    split at h
    · next m hm => exact ⟨[], r, rules, m, rfl, List.forall_mem_nil _, hm, (Option.some.inj h).symm⟩
    · next hnone =>
      obtain ⟨above, q, below, m, rfl, habove, hm, hd⟩ := ih h
      refine ⟨r :: above, q, below, m, rfl, List.forall_mem_cons.2 ⟨?_, habove⟩, hm, hd⟩
      rw [CodeRule.Applies, ← search_isSome_iff, hnone]
      exact Bool.false_ne_true

lemma firstRule_allowed {code : List Char} {rules : List CodeRule} :
    (firstRule alnum code rules).denial = none ↔ ∀ r ∈ rules, ¬r.Applies alnum code := by
  induction rules with
  | nil => exact ⟨fun _ => List.forall_mem_nil _, fun _ => rfl⟩
  | cons r rules ih =>
    rw [firstRule, List.forall_mem_cons, CodeRule.Applies, ← search_isSome_iff]
    split
    · next m hm =>
      rw [hm]
      constructor
      · intro h
        cases h
      · rintro ⟨hnot, -⟩
        exact absurd rfl hnot
    · next hnone =>
      rw [hnone, ih]
      constructor
      · intro h
        exact ⟨Bool.false_ne_true, h⟩
      · rintro ⟨-, h⟩
        exact h

/-- The first rule that applies to the code, with its leftmost match. -/
structure FirstRule (alnum : Char → Bool) (code : List Char) (r : CodeRule) (m : Found) : Prop where
  listed : ∃ above below, codeRules alnum = above ++ r :: below ∧
    ∀ q ∈ above, ¬q.Applies alnum code
  whole : code = m.before ++ m.text ++ m.after
  isMatch : Matches (wordChar alnum) r.pattern m.before.getLast? [] m.text m.after m.group
  first : ∀ u x v g, u.length < m.before.length → code = u ++ x ++ v →
    ¬Matches (wordChar alnum) r.pattern u.getLast? [] x v g

lemma scanCode_denial {code : String} {d : Denial} (h : (scanCode alnum code).denial = some d) :
    ∃ r m, FirstRule alnum code.toList r m ∧ d = ⟨r.reason, String.ofList m.text, r.ruleId⟩ := by
  rw [scanCode] at h
  split_ifs at h with hempty
  · cases h
  · obtain ⟨above, r, below, m, hrules, habove, hm, rfl⟩ := firstRule_denial h
    obtain ⟨hwhole, hmatch, hfirst⟩ := search_spec hm
    exact ⟨r, m, ⟨⟨above, below, hrules, habove⟩, hwhole, hmatch, hfirst⟩, rfl⟩

lemma consumes_of_mem_codeRules : ∀ r ∈ codeRules alnum, r.pattern.consumes = true := by
  have hall : (codeRules alnum).all (fun r => r.pattern.consumes) = true := rfl
  exact List.all_eq_true.1 hall

/-- No rule applies to a text of no characters. -/
lemma not_applies_nil : ∀ r ∈ codeRules alnum, ¬r.Applies alnum [] := by
  rintro r hr ⟨u, x, v, g, hs, hm⟩
  obtain ⟨hux, -⟩ := List.append_eq_nil_iff.1 hs.symm
  exact hm.ne_nil (consumes_of_mem_codeRules r hr) (List.append_eq_nil_iff.1 hux).2

lemma scanCode_allowed {code : String} :
    (scanCode alnum code).denial = none ↔
      ∀ r ∈ codeRules alnum, ¬r.Applies alnum code.toList := by
  rw [scanCode]
  split_ifs with hempty
  · rw [List.isEmpty_iff.1 hempty]
    exact ⟨fun _ => not_applies_nil, fun _ => rfl⟩
  · exact firstRule_allowed

/-- Nothing in `u` and `v` runs into what is between them. -/
structure Apart (alnum : Char → Bool) (u v : List Char) : Prop where
  left : ∀ c ∈ u.getLast?, c ≠ '.' ∧ wordChar alnum c = false
  right : ∀ c ∈ v.head?, wordChar alnum c = false

/-- The rules look at no more of what is before the code than whether it runs into it. -/
lemma sameBefore_of_apart {u : List Char}
    (h : ∀ c ∈ u.getLast?, c ≠ '.' ∧ wordChar alnum c = false) :
    ∀ r ∈ codeRules alnum, SameBefore (wordChar alnum) none u.getLast? r.pattern := by
  have hword : isWord (wordChar alnum) u.getLast? = false := by
    cases hc : u.getLast? with
    | none => rfl
    | some c => exact (h c hc).2
  have hdot : u.getLast?.any (fun c => c == '.' || wordChar alnum c) = false := by
    cases hc : u.getLast? with
    | none => rfl
    | some c => simp [h c hc]
  have hnone : isWord (wordChar alnum) none = false := rfl
  simp [codeRules, SameBefore, parts, oneOf, spaces, someSpaces, quote, word, hword, hdot, hnone]

/-- A rule that applies to a part of the code applies to the code, if the part stands
apart. -/
lemma CodeRule.Applies.pad {r : CodeRule} {u part v : List Char} (hr : r ∈ codeRules alnum)
    (h : r.Applies alnum part) (hapart : Apart alnum u v) : r.Applies alnum (u ++ part ++ v) := by
  refine Occurs.pad h (sameBefore_of_apart hapart.left r hr) ?_
  cases hc : v.head? with
  | none => rfl
  | some c => exact hapart.right c hc

/-- No rule applies to a part of allowed code that stands apart. -/
lemma scanCode_allowed_parts {code : String} :
    (scanCode alnum code).denial = none ↔
      ∀ u part v, code.toList = u ++ part ++ v → Apart alnum u v →
        ∀ r ∈ codeRules alnum, ¬r.Applies alnum part := by
  rw [scanCode_allowed]
  constructor
  · intro h u part v hcode hapart r hr happlies
    refine h r hr ?_
    rw [hcode]
    exact happlies.pad hr hapart
  · intro h
    exact h [] code.toList [] (by simp) ⟨by simp, by simp⟩

/-- **The code scan names the first rule that applies**, and quotes its leftmost match.  Code
to which no rule applies is allowed, and then all its parts that stand apart are. -/
theorem scanCode_spec (alnum : Char → Bool) (code : String) :
    (∀ d, (scanCode alnum code).denial = some d →
      ∃ r m, FirstRule alnum code.toList r m ∧ m.text ≠ [] ∧
        d = ⟨r.reason, String.ofList m.text, r.ruleId⟩) ∧
    ((scanCode alnum code).denial = none ↔
      ∀ u part v, code.toList = u ++ part ++ v → Apart alnum u v →
        ∀ r ∈ codeRules alnum, ¬r.Applies alnum part) := by
  constructor
  · intro d hd
    obtain ⟨r, m, hfirst, rfl⟩ := scanCode_denial hd
    obtain ⟨above, below, hrules, -⟩ := hfirst.listed
    have hr : r ∈ codeRules alnum := by
      rw [hrules]
      exact List.mem_append_right _ List.mem_cons_self
    exact ⟨r, m, hfirst, hfirst.isMatch.ne_nil (consumes_of_mem_codeRules r hr), rfl⟩
  · exact scanCode_allowed_parts

end Gcos.Sandbox
