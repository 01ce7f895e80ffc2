import Gcos.Pool.Sandbox
import Gcos.Sandbox.Extract
import Gcos.Sandbox.PolicyGate

/-!
# The gates of the sandbox, with their rules

The workers take the answers of the gates as they come.  With the scans and the extraction of
`gcos/sandbox` for them, what is run in the sandbox is known by its text.
-/

namespace Gcos.Pool

open Lib World Sandbox

/-- The host with the functions of `gcos/sandbox`. -/
def guardedHost (alnum : Char → Bool) (host : Host) : Host :=
  { host with
    scanPrompt := fun prompt => (scanPrompt alnum prompt).denial
    scanCode := fun code => (scanCode alnum code).denial
    extractPython := extractPython }

/-- The kernel with the functions of `gcos/sandbox`. -/
def guardedKernel (alnum : Char → Bool) (cfg : KernelConfig) : KernelConfig :=
  { cfg with host := guardedHost alnum cfg.host }

/-- The code was asked for and found in the reply, and its text passes: no tag is in the prompt,
and no rule applies to a part of the code that stands apart. -/
structure Screened (alnum : Char → Bool) (life : List LifeEvent) (code : String)
    (b : AgentControlBlock) : Prop where
  capability : b.capability.canExecCode = true
  asked : ∃ messages r, .replied messages (.ok r) ∈ life ∧ extractPython r.content = some code
  untagged : ∀ u tag written, u ++ tag <+: b.prompt.toList → ¬IsTag tag written
  unlisted : ∀ u part v, code.toList = u ++ part ++ v → Apart alnum u v →
    ∀ r ∈ codeRules alnum, ¬r.Applies alnum part

/-- Only screened code was run. -/
def OnlyScreened (alnum : Char → Bool) (life : List LifeEvent) : Prop :=
  ∀ code b, .ran code b ∈ life → Screened alnum life code b

lemma onlyScreened_of_gated {alnum : Char → Bool} {host : Host} {life : List LifeEvent}
    (h : Gated (guardedHost alnum host) life) : OnlyScreened alnum life := by
  intro code b hran
  rcases h with hun | ⟨messages, r, kills, code', b', rest, rfl, hkills, hrest, hpassed⟩
  · cases hun _ hran
  · have hrun : LifeEvent.ran code b = .ran code' b' := by
      rcases List.mem_cons.1 hran with h | h
      · cases h
      · rcases List.mem_append.1 h with h | h
        · exact absurd (hkills _ h) LifeEvent.noConfusion
        · rcases List.mem_cons.1 h with h | h
          · exact h
          · cases hrest _ h
    obtain ⟨rfl, rfl⟩ := LifeEvent.ran.inj hrun
    exact {
      capability := hpassed.capability
      asked := ⟨messages, r, List.mem_cons_self, hpassed.extracted⟩
      untagged := scanPrompt_allowed.1 hpassed.prompt
      unlisted := scanCode_allowed_parts.1 hpassed.allowed }

/-- **Nothing that the rules list is run.**  In every run of the thread backend, with the scans
and the extraction of the repository at the gates, code that reaches the sandbox was found in
a reply that its agent got, and no rule applies to any part of it that stands apart, such as
a line; and the prompt of the agent has no tag. -/
theorem nothing_listed_is_run {n : ℕ} (alnum : Char → Bool) (cfg : KernelConfig) (out : Outside)
    (quota : Quota) (as : List (Act (Tid n) KernelCall)) (p : Pid) :
    OnlyScreened alnum (lives n (guardedKernel alnum cfg) out quota as p) := by
  obtain ⟨xs, ⟨-, hsupervised⟩, -⟩ := supervised_run (guardedKernel alnum cfg) out quota as
  rw [System.run_beside] at hsupervised
  exact onlyScreened_of_gated (hsupervised.lawful p).gated

end Gcos.Pool
