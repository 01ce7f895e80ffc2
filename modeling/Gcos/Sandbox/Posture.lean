import Gcos.Kernel.Pcb

/-!
# The sandbox that is reported, and the one that is used

`gcos/sandbox/__init__.py`: `make_runner` asks whether Docker is there each time it is called,
`sandbox_info` asks at most every five seconds and keeps the answer in between.

Whether Docker is there is a function of time.
-/

namespace Gcos.Sandbox

/-- The runners. -/
inductive RunnerKind
  | docker
  | subprocess
deriving DecidableEq, Repr

/-- What `make_runner` raises if Docker is asked for and is not there. -/
def unreachable : String :=
  "GCOS_SANDBOX=docker requested but Docker daemon isn't reachable."

/-- What it raises if it may not do without Docker. -/
def refused : String :=
  "Sandbox fail-closed: Docker is unavailable and " ++
    "GCOS_SANDBOX_FAILCLOSED is set, so untrusted code execution is " ++
    "refused. Start Docker or explicitly set GCOS_SANDBOX=subprocess."

/-- `DockerSandboxRunner()`, which connects at the time `t`. -/
def newDockerRunner (up : Time → Bool) (t : Time) : Except String RunnerKind :=
  if up t then .ok .docker
  else .error ("Docker daemon not reachable. Install Docker Desktop and run it, " ++
    "or use SubprocessSandboxRunner for tests.")

/-- `make_runner` with the preference in lower case; it asks for Docker at the time `probed`,
if it does, and connects at the time `connected`. -/
def makeRunner (up : Time → Bool) (probed connected : Time) (pref : String) (failClosed : Bool) :
    Except String RunnerKind :=
  if pref = "subprocess" then .ok .subprocess
  else if pref = "docker" then
    if up probed then newDockerRunner up connected
    else .error unreachable
  else if up probed then newDockerRunner up connected
  else if failClosed then .error refused
  else .ok .subprocess

/-- `_DOCKER_AVAILABLE` and `_DOCKER_PROBE_TS`. -/
structure Probe where
  available : Option Bool := none
  ts : Time := 0
deriving DecidableEq

/-- `_DOCKER_PROBE_TTL_S`. -/
def probeTtl : Time := 5

/-- A call of `sandbox_info`: its arguments and the environment, the reading of the clock, and
the time at which it asks for Docker, if it does. -/
structure InfoCall where
  pref : String
  failClosed : Bool
  refresh : Bool
  now : Time
  probed : Time
deriving DecidableEq

/-- What `sandbox_info` returns. -/
structure SandboxInfo where
  preference : String
  dockerAvailable : Bool
  runner : String
  isolation : String
  degraded : Bool
  failClosed : Bool
deriving DecidableEq, Repr

/-- The cache after the call. -/
def InfoCall.refreshed (up : Time → Bool) (c : InfoCall) (probe : Probe) : Probe :=
  if c.refresh ∨ probe.available = none ∨ probeTtl < c.now - probe.ts then
    ⟨some (up c.probed), c.now⟩
  else probe

/-- The posture for a preference. -/
def posture (pref : String) (available : Bool) : String × String :=
  if pref = "subprocess" then ("subprocess", "WEAK")
  else if pref = "docker" then
    if available then ("docker", "STRONG") else ("unavailable", "NONE")
  else if available then ("docker", "STRONG") else ("subprocess", "WEAK")

/-- `sandbox_info`. -/
def sandboxInfo (up : Time → Bool) (c : InfoCall) (probe : Probe) : SandboxInfo × Probe :=
  let probe := c.refreshed up probe
  let available := probe.available.getD false
  let (runner, isolation) := posture c.pref available
  (⟨c.pref, available, runner, isolation, isolation == "WEAK" || isolation == "NONE",
    c.failClosed⟩, probe)

/-- The answers to a row of calls. -/
def infos (up : Time → Bool) : List InfoCall → Probe → List SandboxInfo
  | [], _ => []
  | c :: calls, probe => (sandboxInfo up c probe).1 :: infos up calls (sandboxInfo up c probe).2

/-- The clock and the calls go forward. -/
def InOrder (calls : List InfoCall) : Prop :=
  (∀ c ∈ calls, c.now ≤ c.probed) ∧ calls.Pairwise fun c c' => c.probed ≤ c'.now

/-! ### The answers are recent -/

/-- The cache has an answer from the time it says or later, up to `t`. -/
def Probe.Recent (up : Time → Bool) (probe : Probe) (t : Time) : Prop :=
  ∀ b, probe.available = some b → ∃ s, probe.ts ≤ s ∧ s ≤ t ∧ b = up s

variable {up : Time → Bool} {probe : Probe} {c : InfoCall} {t : Time}

lemma Probe.Recent.mono {t' : Time} (h : probe.Recent up t) (ht : t ≤ t') : probe.Recent up t' := by
  intro b hb
  obtain ⟨s, hs, hst, rfl⟩ := h b hb
  exact ⟨s, hs, hst.trans ht, rfl⟩

/-- One call: its answer is one of the last five seconds, and the cache stays recent. -/
lemma recent_sandboxInfo (h : probe.Recent up t) (ht : t ≤ c.now) (hc : c.now ≤ c.probed) :
    (∃ s, c.now - probeTtl ≤ s ∧ s ≤ c.probed ∧ (sandboxInfo up c probe).1.dockerAvailable = up s) ∧
      (sandboxInfo up c probe).2.Recent up c.probed := by
  by_cases hask : c.refresh ∨ probe.available = none ∨ probeTtl < c.now - probe.ts
  · have hprobe : c.refreshed up probe = ⟨some (up c.probed), c.now⟩ := if_pos hask
    have httl : c.now - probeTtl ≤ c.probed := (sub_le_self _ (by decide)).trans hc
    rw [sandboxInfo, hprobe]
    refine ⟨⟨c.probed, httl, le_rfl, rfl⟩, fun b hb => ?_⟩
    exact ⟨c.probed, hc, le_rfl, (Option.some.inj hb).symm⟩
  · have hprobe : c.refreshed up probe = probe := if_neg hask
    rw [not_or, not_or] at hask
    obtain ⟨-, hsome, hfresh⟩ := hask
    obtain ⟨b, hb⟩ := Option.ne_none_iff_exists'.1 hsome
    obtain ⟨s, hs, hst, rfl⟩ := h b hb
    have hrecent : probe.Recent up c.probed := h.mono (ht.trans hc)
    rw [sandboxInfo, hprobe, hb]
    refine ⟨⟨s, ?_, hst.trans (ht.trans hc), rfl⟩, hrecent⟩
    have hage := not_lt.1 hfresh
    linarith

/-- **The run lemma.** -/
lemma recent_infos (calls : List InfoCall) (h : probe.Recent up t) (ht : ∀ c ∈ calls, t ≤ c.now)
    (horder : InOrder calls) {c : InfoCall} {i : SandboxInfo}
    (hmem : (c, i) ∈ calls.zip (infos up calls probe)) :
    (∃ s, c.now - probeTtl ≤ s ∧ s ≤ c.probed ∧ i.dockerAvailable = up s) ∧
      ∃ probe', i = (sandboxInfo up c probe').1 := by
  induction calls generalizing probe t with
  | nil => cases hmem
  | cons c' calls ih =>
    obtain ⟨hclock, hpair⟩ := horder
    obtain ⟨hlater, hpair⟩ := List.pairwise_cons.1 hpair
    obtain ⟨hanswer, hrecent⟩ :=
      recent_sandboxInfo h (ht c' List.mem_cons_self) (hclock c' List.mem_cons_self)
    rw [infos, List.zip_cons_cons] at hmem
    rcases List.mem_cons.1 hmem with heq | hmem
    · obtain ⟨rfl, rfl⟩ := Prod.mk.inj heq
      exact ⟨hanswer, probe, rfl⟩
    · exact ih hrecent hlater ⟨fun d hd => hclock d (List.mem_cons_of_mem _ hd), hpair⟩ hmem

/-! ### What is reported is what is used -/

/-- What `make_runner` does according to a report. -/
def SandboxInfo.promise (i : SandboxInfo) : Except String RunnerKind :=
  if i.runner = "docker" then .ok .docker
  else if i.runner = "unavailable" then .error unreachable
  else if i.preference ≠ "subprocess" ∧ i.failClosed = true then .error refused
  else .ok .subprocess

lemma makeRunner_steady {b : Bool} {probed connected : Time} (hprobed : up probed = b)
    (hconnected : up connected = b) (c : InfoCall) (probe' : Probe)
    (havailable : (sandboxInfo up c probe').1.dockerAvailable = b) :
    makeRunner up probed connected c.pref c.failClosed = (sandboxInfo up c probe').1.promise := by
  have hb : ((c.refreshed up probe').available.getD false) = b := havailable
  simp only [sandboxInfo, hb, SandboxInfo.promise, makeRunner, newDockerRunner, hprobed, hconnected,
    posture]
  by_cases hsub : c.pref = "subprocess"
  · simp [hsub]
  · by_cases hdocker : c.pref = "docker"
    · cases b <;> simp [hdocker]
    · cases b <;> simp [hsub, hdocker]

/-- **What is reported is what is used, for five seconds.**  Let `sandbox_info` be called any
number of times, with any arguments.  Each report is about Docker as it was within the last
five seconds; and if Docker came or went neither then nor until `make_runner` is called, the
runner that is made is the one reported, or the refusal that the report stands for. -/
theorem report_holds (up : Time → Bool) (calls : List InfoCall) (horder : InOrder calls)
    (c : InfoCall) (i : SandboxInfo) (hmem : (c, i) ∈ calls.zip (infos up calls {})) :
    (∃ s, c.now - probeTtl ≤ s ∧ s ≤ c.probed ∧ i.dockerAvailable = up s) ∧
      ∀ probed connected, c.probed ≤ probed → probed ≤ connected →
        (∀ s, c.now - probeTtl ≤ s → s ≤ connected → up s = up connected) →
        makeRunner up probed connected c.pref c.failClosed = i.promise := by
  rcases calls with _ | ⟨first, calls⟩
  · cases hmem
  have hcache : ({} : Probe).Recent up first.now := fun b hb => by cases hb
  have hlater : ∀ d ∈ first :: calls, first.now ≤ d.now := by
    obtain ⟨hclock, hpair⟩ := horder
    obtain ⟨hfirst, -⟩ := List.pairwise_cons.1 hpair
    exact List.forall_mem_cons.2 ⟨le_rfl, fun d hd =>
      (hclock first List.mem_cons_self).trans (hfirst d hd)⟩
  obtain ⟨hanswer, probe, rfl⟩ := recent_infos (first :: calls) hcache hlater horder hmem
  refine ⟨hanswer, fun probed connected hprobed hconnected hsteady => ?_⟩
  obtain ⟨s, hs, hsp, hup⟩ := hanswer
  have hnow : c.now ≤ c.probed := horder.1 c (List.of_mem_zip hmem).1
  have httl : c.now - probeTtl ≤ c.now := sub_le_self _ (by decide)
  refine makeRunner_steady (hsteady probed ?_ hconnected) rfl c probe ?_
  · exact httl.trans (hnow.trans hprobed)
  · rw [hup]
    exact hsteady s hs (hsp.trans (hprobed.trans hconnected))

/-- Two reports, at the times 10 and 14. -/
def twoCalls : List InfoCall := [⟨"auto", false, false, 10, 10⟩, ⟨"auto", false, false, 14, 14⟩]

/-- Docker stops at time 12.  The second report is still the first one, and it is about Docker
as it was then; a runner made after the first report is the one that it promises, and one made
after the second is not. -/
theorem report_holds_stale :
    let up : Time → Bool := fun t => decide (t < 12)
    let stale : SandboxInfo := ⟨"auto", true, "docker", "STRONG", false, false⟩
    infos up twoCalls {} = [stale, stale] ∧
      (∃ s, 14 - probeTtl ≤ s ∧ s ≤ 14 ∧ stale.dockerAvailable = up s) ∧
      makeRunner up 10 11 "auto" false = stale.promise ∧
      makeRunner up 14 14 "auto" false ≠ stale.promise := by
  intro up stale
  have horder : InOrder twoCalls := by
    rw [twoCalls]
    constructor <;> norm_num
  have hinfos : infos up twoCalls {} = [stale, stale] := by decide +kernel
  have hfirst : ((⟨"auto", false, false, 10, 10⟩, stale) : InfoCall × SandboxInfo) ∈
      twoCalls.zip (infos up twoCalls {}) := by
    rw [hinfos]
    exact List.mem_cons_self
  have hsecond : ((⟨"auto", false, false, 14, 14⟩, stale) : InfoCall × SandboxInfo) ∈
      twoCalls.zip (infos up twoCalls {}) := by
    rw [hinfos]
    exact List.mem_cons_of_mem _ List.mem_cons_self
  refine ⟨hinfos, (report_holds up _ horder _ _ hsecond).1, ?_, by decide +kernel⟩
  refine (report_holds up _ horder _ _ hfirst).2 10 11 le_rfl (by norm_num) fun s _ hs => ?_
  have hbefore : s < 12 := hs.trans_lt (by norm_num)
  exact (decide_eq_true hbefore).trans (decide_eq_true (by norm_num : (11 : Time) < 12)).symm

end Gcos.Sandbox
