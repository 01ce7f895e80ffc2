import Gcos.Osprims.Preempt

/-!
# Shares of the CPU

`RealProcessScheduler.cpu_share` forks one spinning child for each weight and puts it into a
cgroup of its own (`gcos/osprims/cgroup.py`).  An exception may come before any statement of its
`try` block; then, as at the end of the block, the children are killed and collected and the
cgroups removed.  What was there before the call is compared with what is there after it.
-/

namespace Gcos.Osprims

/-! ### The processes and the cgroups -/

/-- `Cgroup`, by the number in its name. -/
structure Cgroup where
  name : ℕ
  enforced : Bool := false
  cpuEnforced : Bool := false
deriving DecidableEq

/-- The tasks, whether there is the directory `GCOS_ROOT`, and for each of the names `share-0`,
`share-1`, … in it whether there is a cgroup, the processes in it and its weight. -/
structure Host where
  now : ℕ
  task : ℕ → Task
  root : Bool
  dir : ℕ → Bool
  members : ℕ → List ℕ
  weight : ℕ → Option ℤ

/-- What the kernel and the others do: the fates of the tasks up to the `k`-th moment and whether
an interrupt comes then; the pid of the `k`-th child, if there is one to be had; whether
`GCOS_ROOT` and the directory in it can be made and the files written; and the usage that is
read from `cpu.stat`. -/
structure Machine where
  available : Bool
  fate : ℕ → ℕ → Fate
  interrupt : ℕ → Bool
  fork : ℕ → Option ℕ
  makeRoot : ℕ → Bool
  makedirs : ℕ → Bool
  writeWeight : ℕ → Bool
  writeProcs : ℕ → Bool
  usage : ℕ → Option ℕ

namespace Host

variable (m : Machine) (h : Host)

/-- The next moment. -/
def pass : Host :=
  { h with now := h.now + 1, task := fun p => (m.fate h.now p).meet (h.task p) }

/-- `os.fork`, which gives no pid that is in use: a new running task. -/
def fork (k : ℕ) : Option (ℕ × Host) :=
  match m.fork k with
  | some pid =>
    if h.task pid = .gone then some (pid, { h with task := Function.update h.task pid .running })
    else none
  | none => none

/-- A directory for the `k`-th cgroup, which is empty if it is new. -/
def mkdir (k : ℕ) : Host :=
  { h with
    dir := Function.update h.dir k true
    members := if h.dir k then h.members else Function.update h.members k [] }

/-- `_ensure_root`, for the `k`-th cgroup. -/
def ensureRoot (k : ℕ) : Bool × Host :=
  if m.available && m.makeRoot k then (true, { h with root := true }) else (false, h)

/-- `Cgroup.__init__`, up to the weight. -/
def openGroup (k : ℕ) : Cgroup × Host :=
  let (ensured, h) := h.ensureRoot m k
  if ensured && m.makedirs k then ({ name := k, enforced := true }, h.mkdir k)
  else ({ name := k }, h)

/-- `Cgroup.set_weight`. -/
def setWeight (g : Cgroup) (weight : ℤ) : Bool × Host :=
  if g.enforced && m.writeWeight g.name then
    (true, { h with weight := Function.update h.weight g.name (some weight) })
  else (false, h)

/-- The process moves to the `k`-th cgroup, from the one that it was in. -/
def move (pid k : ℕ) : Host :=
  let others := fun j => (h.members j).filter (· ≠ pid)
  { h with members := Function.update others k (pid :: others k) }

/-- `Cgroup.add_pid`. -/
def addPid (g : Cgroup) (pid : ℕ) : Host :=
  if g.enforced && m.writeProcs g.name then h.move pid g.name else h

/-- `Cgroup.cpu_usage_us`. -/
def cpuUsageUs (g : Cgroup) : Option ℕ := if g.enforced then m.usage g.name else none

/-- `os.kill(pid, signal.SIGKILL)`. -/
def kill (pid : ℕ) : Host :=
  let h := h.pass m
  { h with task := Function.update h.task pid (Sig.kill.deliver (h.task pid)) }

/-- `os.waitpid(pid, 0)`, which waits for a task that has not ended. -/
def waitpid (pid : ℕ) : Option Host :=
  let h := h.pass m
  match h.task pid with
  | .zombie => some { h with task := Function.update h.task pid .gone }
  | .gone => some h
  | _ => none

/-- `Cgroup.remove`: only a cgroup without a task that has not ended is removed. -/
def remove (g : Cgroup) : Host :=
  let h := h.pass m
  if g.enforced && (h.members g.name).all fun p => h.task p = .zombie ∨ h.task p = .gone then
    { h with dir := Function.update h.dir g.name false }
  else h

end Host

/-! ### The block -/

/-- The variables of `cpu_share`. -/
structure Share where
  host : Host
  pid : ℕ := 0
  g : Cgroup := { name := 0 }
  pids : List ℕ := []
  groups : List Cgroup := []
  usages : Option (List (Option ℕ)) := none

/-- The statements of the `try` block. -/
inductive Stmt
  | fork (k : ℕ)
  | openGroup (k : ℕ)
  | setWeight (weight : ℤ)
  | addPid
  | appendPid
  | appendGroup
  | sleep
  | usages
deriving DecidableEq

/-- One statement, unless it raises an exception. -/
def Stmt.exec (m : Machine) (s : Share) : Stmt → Option Share
  | .fork k => (s.host.fork m k).map fun x => { s with pid := x.1, host := x.2 }
  | .openGroup k =>
    let x := s.host.openGroup m k
    some { s with g := x.1, host := x.2 }
  | .setWeight weight =>
    let x := s.host.setWeight m s.g weight
    some { s with g := { s.g with cpuEnforced := x.1 }, host := x.2 }
  | .addPid => some { s with host := s.host.addPid m s.g s.pid }
  | .appendPid => some { s with pids := s.pids ++ [s.pid] }
  | .appendGroup => some { s with groups := s.groups ++ [s.g] }
  | .sleep => some s
  | .usages => some { s with usages := some (s.groups.map (Host.cpuUsageUs m)) }

/-- The statements one after the other; an exception leaves the block before a statement. -/
def attempt (m : Machine) : List Stmt → Share → Option Stmt × Share
  | [], s => (none, s)
  | stmt :: stmts, s =>
    let s := { s with host := s.host.pass m }
    if m.interrupt s.host.now then (some stmt, s)
    else
      match stmt.exec m s with
      | none => (some stmt, s)
      | some s => attempt m stmts s

/-- The body of the loop over the weights. -/
def iteration (k : ℕ) (weight : ℤ) : List Stmt :=
  [.fork k, .openGroup k, .setWeight weight, .addPid, .appendPid, .appendGroup]

/-- The iterations, from the `k`-th on. -/
def iterations : ℕ → List ℤ → List Stmt
  | _, [] => []
  | k, weight :: weights => iteration k weight ++ iterations (k + 1) weights

/-- The `try` block. -/
def block (weights : List ℤ) : List Stmt := iterations 0 weights ++ [.sleep, .usages]

/-- The `finally` block, unless it waits for ever. -/
def cleanUp (m : Machine) (s : Share) : Option Host := do
  let killed := s.pids.foldl (Host.kill m) s.host
  let waited ← s.pids.foldlM (Host.waitpid m) killed
  return s.groups.foldl (Host.remove m) waited

/-- How a call ends: with the exception that came before a statement, with the division by a sum
of weights that is zero, or with a result, the weights and the usages, if all of these could be
read. -/
inductive CpuShareEnd
  | raised (stmt : Stmt)
  | zeroDivision
  | returned (result : Option (List ℤ × List ℕ))
deriving DecidableEq

/-- `RealProcessScheduler.cpu_share`, from the end of the block on. -/
def shares (weights : List ℤ) (left : Option Stmt) (usages : Option (List (Option ℕ))) :
    CpuShareEnd :=
  match left, usages.bind fun usages => usages.mapM id with
  | some stmt, _ => .raised stmt
  | none, none => .returned none
  | none, some usages =>
    if weights ≠ [] ∧ weights.foldl (· + ·) 0 = 0 then .zeroDivision else .returned (some (weights, usages))

/-- `RealProcessScheduler.cpu_share`. -/
def cpuShare (m : Machine) (weights : List ℤ) (h : Host) : Option (CpuShareEnd × Host) :=
  if !m.available then some (.returned none, h)
  else do
    let (left, s) := attempt m (block weights) { host := h }
    let h ← cleanUp m s
    return (shares weights left s.usages, h)

/-! ### What belongs to the call -/

/-- How far an iteration is: its number, whether there is a child that is not in the list of
pids, and whether there is a cgroup that is not in the list of groups. -/
structure Stage where
  k : ℕ
  child : Bool := false
  group : Bool := false

/-- What a statement does to the stage. -/
inductive Leads : Stmt → Stage → Stage → Prop
  | fork (k : ℕ) : Leads (.fork k) ⟨k, false, false⟩ ⟨k, true, false⟩
  | openGroup (k : ℕ) : Leads (.openGroup k) ⟨k, true, false⟩ ⟨k, true, true⟩
  | setWeight (k : ℕ) (weight : ℤ) : Leads (.setWeight weight) ⟨k, true, true⟩ ⟨k, true, true⟩
  | addPid (k : ℕ) : Leads .addPid ⟨k, true, true⟩ ⟨k, true, true⟩
  | appendPid (k : ℕ) : Leads .appendPid ⟨k, true, true⟩ ⟨k, false, true⟩
  | appendGroup (k : ℕ) : Leads .appendGroup ⟨k, false, true⟩ ⟨k + 1, false, false⟩
  | sleep (k : ℕ) : Leads .sleep ⟨k, false, false⟩ ⟨k, false, false⟩
  | usages (k : ℕ) : Leads .usages ⟨k, false, false⟩ ⟨k, false, false⟩

/-- The statements lead from one stage to another. -/
inductive Path : List Stmt → Stage → Stage → Prop
  | nil (x : Stage) : Path [] x x
  | cons {stmt : Stmt} {stmts : List Stmt} {x y z : Stage} (h : Leads stmt x y)
      (h' : Path stmts y z) : Path (stmt :: stmts) x z

/-- Nobody but the kernel that it belongs to does anything to the task. -/
def Machine.LeavesAlone (m : Machine) (p : ℕ) : Prop := ∀ n, m.fate n p = .stays

/-- What is on the host belongs to the call, or was there before it. -/
structure Owns (m : Machine) (before : Host) (x : Stage) (s : Share) : Prop where
  tasks : ∀ p, s.host.task p ≠ .gone → before.task p ≠ .gone ∨ p ∈ s.pids ∨
    x.child = true ∧ p = s.pid
  root : before.root = true → s.host.root = true
  made : s.host.root = true → before.root = true ∨ ∃ k, m.makeRoot k = true
  dirs : ∀ k, s.host.dir k = true → before.dir k = true ∨
    (∃ g ∈ s.groups, g.enforced = true ∧ g.name = k) ∨
      x.group = true ∧ s.g.enforced = true ∧ s.g.name = k
  names : ∀ g ∈ s.groups, g.name < x.k
  name : x.group = true → s.g.name = x.k
  members : ∀ g ∈ s.groups, g.enforced = true → before.dir g.name = false →
    ∀ p ∈ s.host.members g.name, p ∈ s.pids
  newMembers : x.group = true → s.g.enforced = true → before.dir s.g.name = false →
    ∀ p ∈ s.host.members s.g.name, p ∈ s.pids ∨ x.child = true ∧ p = s.pid
  bystanders : ∀ p, before.task p ≠ .gone → m.LeavesAlone p →
    s.host.task p = before.task p ∧ p ∉ s.pids ∧ (x.child = true → p ≠ s.pid)

section Steps

variable {m : Machine} {before : Host} {x y z : Stage} {s s' : Share} {stmt : Stmt}

lemma Fate.meet_ne_gone {fate : Fate} {task : Task} (h : fate.meet task ≠ .gone) :
    task ≠ .gone := by
  rintro rfl
  cases fate <;> exact h rfl

lemma Owns.pass (h : Owns m before x s) : Owns m before x { s with host := s.host.pass m } where
  tasks := fun p hp => h.tasks p (Fate.meet_ne_gone hp)
  root := h.root
  made := h.made
  dirs := h.dirs
  names := h.names
  name := h.name
  members := h.members
  newMembers := h.newMembers
  bystanders := by
    intro p hp halone
    obtain ⟨htask, hrest⟩ := h.bystanders p hp halone
    refine ⟨?_, hrest⟩
    change (m.fate s.host.now p).meet (s.host.task p) = before.task p
    rw [halone, ← htask]
    rfl

lemma Owns.fork {k : ℕ} (h : Owns m before ⟨k, false, false⟩ s)
    (hs : (Stmt.fork k).exec m s = some s') : Owns m before ⟨k, true, false⟩ s' := by
  obtain ⟨⟨pid, host⟩, hfork, rfl⟩ := Option.map_eq_some_iff.1 hs
  rw [Host.fork] at hfork
  split at hfork
  · next pid' _ =>
    split_ifs at hfork with hgone
    cases hfork
    have hother : ∀ p, p ≠ pid → Function.update s.host.task pid .running p = s.host.task p :=
      fun p hp => Function.update_of_ne hp _ _
    refine ⟨fun p hp => ?_, h.root, h.made, h.dirs, h.names, (fun hnew => by cases hnew),
      h.members, (fun hnew => by cases hnew), fun p hp halone => ?_⟩
    · by_cases heq : p = pid
      · exact .inr (.inr ⟨rfl, heq⟩)
      · rcases h.tasks p (by rwa [← hother p heq]) with hbefore | hpids | hchild
        · exact .inl hbefore
        · exact .inr (.inl hpids)
        · cases hchild.1
    · obtain ⟨htask, hpids, -⟩ := h.bystanders p hp halone
      have hne : p ≠ pid := by
        rintro rfl
        exact hp (htask ▸ hgone)
      exact ⟨(hother p hne).trans htask, hpids, fun _ => hne⟩
  · cases hfork

/-- A new cgroup takes nothing from the others. -/
lemma mem_members_of_mkdir {h : Host} {k j p : ℕ} (hp : p ∈ (h.mkdir k).members j) :
    p ∈ h.members j := by
  rw [Host.mkdir] at hp
  dsimp only at hp
  split_ifs at hp with hdir
  · exact hp
  · by_cases heq : j = k
    · rw [heq, Function.update_self] at hp
      cases hp
    · rwa [Function.update_of_ne heq] at hp

lemma mem_members_of_move {h : Host} {k j p pid : ℕ} (hp : p ∈ (h.move pid k).members j) :
    p ∈ h.members j ∨ j = k ∧ p = pid := by
  rw [Host.move] at hp
  dsimp only at hp
  by_cases heq : j = k
  · rw [heq, Function.update_self] at hp
    rcases List.mem_cons.1 hp with hp | hp
    · exact .inr ⟨heq, hp⟩
    · exact .inl (heq ▸ List.mem_of_mem_filter hp)
  · rw [Function.update_of_ne heq] at hp
    exact .inl (List.mem_of_mem_filter hp)

/-- The root directory that a cgroup needs. -/
lemma Owns.ensureRoot {k : ℕ} (h : Owns m before x s) :
    Owns m before x { s with host := (s.host.ensureRoot m k).2 } := by
  rw [Host.ensureRoot]
  split_ifs with hmade
  · rw [Bool.and_eq_true] at hmade
    exact ⟨h.tasks, fun _ => rfl, fun _ => .inr ⟨k, hmade.2⟩, h.dirs, h.names, h.name, h.members,
      h.newMembers, h.bystanders⟩
  · exact h

lemma Owns.openGroup {k : ℕ} (h : Owns m before ⟨k, true, false⟩ s)
    (hs : (Stmt.openGroup k).exec m s = some s') : Owns m before ⟨k, true, true⟩ s' := by
  have hroot : Owns m before ⟨k, true, false⟩ { s with host := (s.host.ensureRoot m k).2 } :=
    h.ensureRoot
  rw [Stmt.exec, Host.openGroup] at hs
  dsimp only at hs
  generalize s.host.ensureRoot m k = ensured at hroot hs
  obtain ⟨ensured, host⟩ := ensured
  dsimp only at hroot hs
  have hold : ∀ j, host.dir j = true → before.dir j = true ∨
      ∃ g ∈ s.groups, g.enforced = true ∧ g.name = j := by
    intro j hj
    rcases hroot.dirs j hj with hb | hg | hnew
    · exact .inl hb
    · exact .inr hg
    · cases hnew.1
  by_cases hmade : (ensured && m.makedirs k) = true
  · rw [if_pos hmade] at hs
    cases hs
    refine ⟨hroot.tasks, hroot.root, hroot.made, fun j hj => ?_, hroot.names, fun _ => rfl,
      fun g hg henforced hbefore p hp =>
        hroot.members g hg henforced hbefore p (mem_members_of_mkdir hp),
      fun _ _ hbefore p hp => ?_, hroot.bystanders⟩
    · by_cases heq : j = k
      · exact .inr (.inr ⟨rfl, rfl, heq.symm⟩)
      · have hdir : host.dir j = true := (Function.update_of_ne heq true host.dir) ▸ hj
        exact (hold j hdir).imp_right .inl
    · -- the directory is new, so the cgroup is empty
      have hfresh : host.dir k = false := by
        by_contra hdir
        rcases hold k (eq_true_of_ne_false hdir) with hb | ⟨g, hg, -, hk⟩
        · exact Bool.false_ne_true (hbefore.symm.trans hb)
        · exact (hroot.names g hg).ne hk
      have hempty : (host.mkdir k).members k = [] := by
        rw [Host.mkdir]
        dsimp only
        rw [hfresh, if_neg Bool.false_ne_true, Function.update_self]
      rw [hempty] at hp
      cases hp
  · rw [if_neg hmade] at hs
    cases hs
    exact ⟨hroot.tasks, hroot.root, hroot.made, fun j hj => (hold j hj).imp_right .inl,
      hroot.names, fun _ => rfl, hroot.members, (fun _ henforced => by cases henforced),
      hroot.bystanders⟩

lemma Owns.setWeight {k : ℕ} {weight : ℤ} (h : Owns m before ⟨k, true, true⟩ s)
    (hs : (Stmt.setWeight weight).exec m s = some s') : Owns m before ⟨k, true, true⟩ s' := by
  obtain ⟨weights, hweight⟩ : ∃ weights, (s.host.setWeight m s.g weight).2 =
      { s.host with weight := weights } := by
    rw [Host.setWeight]
    split_ifs
    · exact ⟨_, rfl⟩
    · exact ⟨s.host.weight, rfl⟩
  rw [Stmt.exec] at hs
  dsimp only at hs
  rw [hweight] at hs
  cases hs
  exact ⟨h.tasks, h.root, h.made, h.dirs, h.names, h.name, h.members, h.newMembers, h.bystanders⟩

lemma Owns.addPid {k : ℕ} (h : Owns m before ⟨k, true, true⟩ s)
    (hs : Stmt.addPid.exec m s = some s') : Owns m before ⟨k, true, true⟩ s' := by
  by_cases hadd : (s.g.enforced && m.writeProcs s.g.name) = true
  · have hmove : s.host.addPid m s.g s.pid = s.host.move s.pid s.g.name := if_pos hadd
    rw [Stmt.exec, hmove] at hs
    cases hs
    have hname : s.g.name = k := h.name rfl
    refine ⟨h.tasks, h.root, h.made, h.dirs, h.names, h.name,
      fun g hg henforced hbefore p hp => ?_, fun _ henforced hbefore p hp => ?_, h.bystanders⟩
    · have hne : g.name ≠ s.g.name := hname ▸ (h.names g hg).ne
      exact h.members g hg henforced hbefore p
        ((mem_members_of_move hp).resolve_right fun hj => hne hj.1)
    · rcases mem_members_of_move hp with hp | ⟨-, rfl⟩
      · exact h.newMembers rfl henforced hbefore p hp
      · exact .inr ⟨rfl, rfl⟩
  · have hstay : s.host.addPid m s.g s.pid = s.host := if_neg hadd
    rw [Stmt.exec, hstay] at hs
    cases hs
    exact h

lemma Owns.appendPid {k : ℕ} (h : Owns m before ⟨k, true, true⟩ s)
    (hs : Stmt.appendPid.exec m s = some s') : Owns m before ⟨k, false, true⟩ s' := by
  cases hs
  have hmem : ∀ p, p ∈ s.pids ∨ true = true ∧ p = s.pid → p ∈ s.pids ++ [s.pid] := by
    rintro p (hp | ⟨-, rfl⟩)
    · exact List.mem_append_left _ hp
    · exact List.mem_append_right _ (List.mem_singleton_self _)
  refine ⟨fun p hp => (h.tasks p hp).imp_right fun hp => .inl (hmem p hp), h.root, h.made, h.dirs,
    h.names, h.name,
    fun g hg henforced hbefore p hp =>
      List.mem_append_left _ (h.members g hg henforced hbefore p hp),
    fun hnew henforced hbefore p hp => .inl (hmem p (h.newMembers hnew henforced hbefore p hp)),
    fun p hp halone => ?_⟩
  obtain ⟨htask, hpids, hne⟩ := h.bystanders p hp halone
  refine ⟨htask, fun hp => ?_, fun hnew => by cases hnew⟩
  rcases List.mem_append.1 hp with hp | hp
  · exact hpids hp
  · exact hne rfl (List.mem_singleton.1 hp)

lemma Owns.appendGroup {k : ℕ} (h : Owns m before ⟨k, false, true⟩ s)
    (hs : Stmt.appendGroup.exec m s = some s') : Owns m before ⟨k + 1, false, false⟩ s' := by
  cases hs
  have hname : s.g.name = k := h.name rfl
  refine ⟨h.tasks, h.root, h.made, fun j hj => ?_, fun g hg => ?_, (fun hnew => by cases hnew),
    fun g hg henforced hbefore p hp => ?_, (fun hnew => by cases hnew), h.bystanders⟩
  · rcases h.dirs j hj with hb | ⟨g, hg, henforced, hj⟩ | ⟨-, henforced, hj⟩
    · exact .inl hb
    · exact .inr (.inl ⟨g, List.mem_append_left _ hg, henforced, hj⟩)
    · exact .inr (.inl ⟨s.g, List.mem_append_right _ (List.mem_singleton_self _), henforced, hj⟩)
  · rcases List.mem_append.1 hg with hg | hg
    · exact (h.names g hg).trans (Nat.lt_succ_self k)
    · rw [List.mem_singleton.1 hg, hname]
      exact Nat.lt_succ_self k
  · rcases List.mem_append.1 hg with hg | hg
    · exact h.members g hg henforced hbefore p hp
    · obtain rfl := List.mem_singleton.1 hg
      exact (h.newMembers rfl henforced hbefore p hp).resolve_right fun hnew => by cases hnew.1

lemma Owns.exec (hstep : Leads stmt x y) (h : Owns m before x s)
    (hs : stmt.exec m s = some s') : Owns m before y s' := by
  cases hstep with
  | fork => exact h.fork hs
  | openGroup => exact h.openGroup hs
  | setWeight => exact h.setWeight hs
  | addPid => exact h.addPid hs
  | appendPid => exact h.appendPid hs
  | appendGroup => exact h.appendGroup hs
  | sleep =>
    cases hs
    exact h
  | usages =>
    cases hs
    exact ⟨h.tasks, h.root, h.made, h.dirs, h.names, h.name, h.members, h.newMembers, h.bystanders⟩

/-- The block is left in a stage of its own, by an exception before a statement of this stage. -/
lemma attempt_spec {stmts : List Stmt} (hpath : Path stmts x z) (h : Owns m before x s) :
    ∃ y, Owns m before y (attempt m stmts s).2 ∧
      ((attempt m stmts s).1 = none ∧ y = z ∨
        ∃ stmt w, (attempt m stmts s).1 = some stmt ∧ Leads stmt y w) := by
  induction hpath generalizing s with
  | nil x => exact ⟨x, h, .inl ⟨rfl, rfl⟩⟩
  | @cons stmt stmts x w z hstep _ ih =>
    rw [attempt]
    dsimp only
    split_ifs
    · exact ⟨x, h.pass, .inr ⟨stmt, w, rfl, hstep⟩⟩
    · cases hexec : stmt.exec m { s with host := s.host.pass m } with
      | none => exact ⟨x, h.pass, .inr ⟨stmt, w, rfl, hstep⟩⟩
      | some s' => exact ih (h.pass.exec hstep hexec)

lemma path_iterations (weights : List ℤ) (k : ℕ) {stmts : List Stmt}
    (h : Path stmts ⟨k + weights.length, false, false⟩ z) :
    Path (iterations k weights ++ stmts) ⟨k, false, false⟩ z := by
  induction weights generalizing k with
  | nil => exact h
  | cons weight weights ih =>
    have hrest : Path (iterations (k + 1) weights ++ stmts) ⟨k + 1, false, false⟩ z :=
      ih (k + 1) (by rwa [Nat.add_assoc, Nat.add_comm 1])
    exact .cons (.fork k) (.cons (.openGroup k) (.cons (.setWeight k weight) (.cons (.addPid k)
      (.cons (.appendPid k) (.cons (.appendGroup k) hrest)))))

lemma path_block (weights : List ℤ) :
    Path (block weights) ⟨0, false, false⟩ ⟨weights.length, false, false⟩ := by
  refine path_iterations weights 0 ?_
  rw [Nat.zero_add]
  exact .cons (.sleep _) (.cons (.usages _) (.nil _))

lemma owns_start (h : Host) : Owns m h ⟨0, false, false⟩ { host := h } where
  tasks := fun p hp => .inl hp
  root := fun hroot => hroot
  made := fun hroot => .inl hroot
  dirs := fun k hk => .inl hk
  names := List.forall_mem_nil _
  name := fun hnew => by cases hnew
  members := List.forall_mem_nil _
  newMembers := fun hnew => by cases hnew
  bystanders := fun p _ _ => ⟨rfl, List.not_mem_nil, fun hnew => by cases hnew⟩

end Steps

/-! ### Cleaning up -/

section CleanUp

variable {m : Machine} {h h' h'' : Host} {l l' : List ℕ}

/-- A task that has ended. -/
def Task.Ended (task : Task) : Prop := task = .zombie ∨ task = .gone

instance decidableEnded (task : Task) : Decidable task.Ended := inferInstanceAs (Decidable (_ ∨ _))

/-- From one host to another one, nothing new appears, what has ended stays so, and apart from
the processes of a list the tasks that are left alone stay as they are. -/
structure Wanes (m : Machine) (l : List ℕ) (h h' : Host) : Prop where
  tasks : ∀ p, h'.task p ≠ .gone → h.task p ≠ .gone
  ended : ∀ p, (h.task p).Ended → (h'.task p).Ended
  root : h'.root = h.root
  dirs : ∀ k, h'.dir k = true → h.dir k = true
  members : h'.members = h.members
  alone : ∀ p, p ∉ l → m.LeavesAlone p → h'.task p = h.task p

namespace Wanes

lemma refl (m : Machine) (l : List ℕ) (h : Host) : Wanes m l h h :=
  ⟨fun _ hp => hp, fun _ hp => hp, rfl, fun _ hk => hk, rfl, fun _ _ _ => rfl⟩

lemma trans (hw : Wanes m l h h') (hw' : Wanes m l h' h'') : Wanes m l h h'' where
  tasks := fun p hp => hw.tasks p (hw'.tasks p hp)
  ended := fun p hp => hw'.ended p (hw.ended p hp)
  root := hw'.root.trans hw.root
  dirs := fun k hk => hw.dirs k (hw'.dirs k hk)
  members := hw'.members.trans hw.members
  alone := fun p hp halone => (hw'.alone p hp halone).trans (hw.alone p hp halone)

lemma mono (hw : Wanes m l h h') (hl : l ⊆ l') : Wanes m l' h h' :=
  { hw with alone := fun p hp => hw.alone p fun hmem => hp (hl hmem) }

lemma gone (hw : Wanes m l h h') {p : ℕ} (hp : h.task p = .gone) : h'.task p = .gone := by
  by_contra hne
  exact hw.tasks p hne hp

end Wanes

lemma wanes_pass (m : Machine) (h : Host) : Wanes m [] h (h.pass m) where
  tasks := fun _ hp => Fate.meet_ne_gone hp
  ended := by
    intro p hp
    rcases (m.fate h.now p).meet_eq (h.task p) with heq | heq | heq
    · rwa [← heq] at hp
    · exact .inl heq
    · exact .inr heq
  root := rfl
  dirs := fun _ hk => hk
  members := rfl
  alone := by
    intro p _ halone
    change (m.fate h.now p).meet (h.task p) = h.task p
    rw [halone]
    rfl

lemma wanes_setTask {pid : ℕ} {task : Task} (htasks : task ≠ .gone → h.task pid ≠ .gone)
    (hended : task.Ended) :
    Wanes m [pid] h { h with task := Function.update h.task pid task } where
  tasks := by
    intro p hp
    by_cases heq : p = pid
    · subst heq
      exact htasks (Function.update_self p task h.task ▸ hp)
    · rwa [← Function.update_of_ne heq task h.task]
  ended := by
    intro p hp
    by_cases heq : p = pid
    · subst heq
      change (Function.update h.task p task p).Ended
      rwa [Function.update_self]
    · change (Function.update h.task pid task p).Ended
      rwa [Function.update_of_ne heq]
  root := rfl
  dirs := fun _ hk => hk
  members := rfl
  alone := fun p hp _ => Function.update_of_ne (fun heq => hp (List.mem_singleton.2 heq)) _ _

/-- Nothing survives SIGKILL. -/
lemma Host.kill_spec (m : Machine) (h : Host) (pid : ℕ) :
    Wanes m [pid] h (h.kill m pid) ∧ ((h.kill m pid).task pid).Ended := by
  have hended : (Sig.kill.deliver ((h.pass m).task pid)).Ended := by
    cases (h.pass m).task pid <;> decide
  have htasks : Sig.kill.deliver ((h.pass m).task pid) ≠ .gone → (h.pass m).task pid ≠ .gone := by
    cases (h.pass m).task pid <;> decide
  refine ⟨((wanes_pass m h).mono (List.nil_subset _)).trans (wanes_setTask htasks hended), ?_⟩
  rw [Host.kill]
  dsimp only
  rwa [Function.update_self]

/-- A task that has ended is collected, and `waitpid` comes back. -/
lemma Host.waitpid_spec {pid : ℕ} (hpid : (h.task pid).Ended) : ∃ h', h.waitpid m pid = some h' ∧
    Wanes m [pid] h h' ∧ h'.task pid = .gone := by
  have hpass := (wanes_pass m h).mono (List.nil_subset [pid])
  rw [Host.waitpid]
  rcases hpass.ended pid hpid with hzombie | hgone
  · have hcollect : Wanes m [pid] (h.pass m)
        { h.pass m with task := Function.update (h.pass m).task pid .gone } :=
      wanes_setTask (fun hne => absurd rfl hne) (.inr rfl)
    exact ⟨_, by rw [hzombie], hpass.trans hcollect, Function.update_self _ _ _⟩
  · exact ⟨_, by rw [hgone], hpass, hgone⟩

lemma Host.remove_spec (m : Machine) (h : Host) (g : Cgroup) :
    Wanes m [] h (h.remove m g) ∧
      (g.enforced = true → (∀ p ∈ h.members g.name, (h.task p).Ended) →
        (h.remove m g).dir g.name = false) := by
  have hpass := wanes_pass m h
  rw [Host.remove]
  split_ifs with hempty
  · refine ⟨⟨hpass.tasks, hpass.ended, rfl, fun k hk => ?_, rfl, hpass.alone⟩, fun _ _ =>
      Function.update_self _ _ _⟩
    change Function.update h.dir g.name false k = true at hk
    by_cases heq : k = g.name
    · subst heq
      rw [Function.update_self] at hk
      cases hk
    · rwa [Function.update_of_ne heq] at hk
  · refine ⟨hpass, fun henforced hended => absurd ?_ hempty⟩
    rw [henforced, Bool.true_and, List.all_eq_true]
    exact fun p hp => decide_eq_true (hpass.ended p (hended p hp))

lemma foldl_kill_spec (l : List ℕ) (h : Host) : Wanes m l h (l.foldl (Host.kill m) h) ∧
    ∀ pid ∈ l, ((l.foldl (Host.kill m) h).task pid).Ended := by
  induction l generalizing h with
  | nil => exact ⟨.refl m [] h, List.forall_mem_nil _⟩
  | cons pid l ih =>
    obtain ⟨hkill, hended⟩ := Host.kill_spec m h pid
    obtain ⟨hrest, hall⟩ := ih (h.kill m pid)
    refine ⟨(hkill.mono ?_).trans (hrest.mono (List.subset_cons_self _ _)),
      List.forall_mem_cons.2 ⟨hrest.ended pid hended, hall⟩⟩
    exact List.cons_subset.2 ⟨List.mem_cons_self, List.nil_subset _⟩

lemma foldlM_waitpid_spec {l : List ℕ} (hl : ∀ pid ∈ l, (h.task pid).Ended) :
    ∃ h', l.foldlM (Host.waitpid m) h = some h' ∧ Wanes m l h h' ∧
      ∀ pid ∈ l, h'.task pid = .gone := by
  induction l generalizing h with
  | nil => exact ⟨h, rfl, .refl m [] h, List.forall_mem_nil _⟩
  | cons pid l ih =>
    obtain ⟨hpid, hl⟩ := List.forall_mem_cons.1 hl
    obtain ⟨h₁, hwait, hw₁, hgone⟩ := Host.waitpid_spec (m := m) hpid
    obtain ⟨h₂, hrest, hw₂, hall⟩ := ih fun p hp => hw₁.ended p (hl p hp)
    refine ⟨h₂, ?_, (hw₁.mono ?_).trans (hw₂.mono (List.subset_cons_self _ _)),
      List.forall_mem_cons.2 ⟨hw₂.gone hgone, hall⟩⟩
    · rw [List.foldlM_cons, hwait]
      exact hrest
    · exact List.cons_subset.2 ⟨List.mem_cons_self, List.nil_subset _⟩

lemma foldl_remove_spec (groups : List Cgroup) (h : Host) :
    Wanes m [] h (groups.foldl (Host.remove m) h) ∧
      ∀ g ∈ groups, g.enforced = true → (∀ p ∈ h.members g.name, (h.task p).Ended) →
        (groups.foldl (Host.remove m) h).dir g.name = false := by
  induction groups generalizing h with
  | nil => exact ⟨.refl m [] h, List.forall_mem_nil _⟩
  | cons g groups ih =>
    obtain ⟨hremove, hdir⟩ := Host.remove_spec m h g
    obtain ⟨hrest, hall⟩ := ih (h.remove m g)
    refine ⟨hremove.trans hrest, List.forall_mem_cons.2 ⟨fun henforced hended => ?_, ?_⟩⟩
    · by_contra hne
      have hkept := hrest.dirs g.name (eq_true_of_ne_false hne)
      exact Bool.false_ne_true ((hdir henforced hended).symm.trans hkept)
    · intro g' hg' henforced hended
      refine hall g' hg' henforced fun p hp => hremove.ended p (hended p ?_)
      rwa [hremove.members] at hp

/-- `finally` comes to its end, with all children collected, and with all cgroups removed that
hold nothing else. -/
lemma cleanUp_spec (m : Machine) (s : Share) : ∃ h', cleanUp m s = some h' ∧
    Wanes m s.pids s.host h' ∧ (∀ pid ∈ s.pids, h'.task pid = .gone) ∧
      ∀ g ∈ s.groups, g.enforced = true → (∀ p ∈ s.host.members g.name, p ∈ s.pids) →
        h'.dir g.name = false := by
  obtain ⟨hkill, hended⟩ := foldl_kill_spec (m := m) s.pids s.host
  obtain ⟨h₁, hwait, hw₁, hgone⟩ := foldlM_waitpid_spec (m := m) hended
  obtain ⟨hremove, hdirs⟩ := foldl_remove_spec (m := m) s.groups h₁
  have hmembers : h₁.members = s.host.members := hw₁.members.trans hkill.members
  refine ⟨s.groups.foldl (Host.remove m) h₁, ?_, (hkill.trans hw₁).trans
    (hremove.mono (List.nil_subset _)), fun pid hpid => hremove.gone (hgone pid hpid), ?_⟩
  · rw [cleanUp, hwait]
    rfl
  · intro g hg henforced hours
    refine hdirs g hg henforced fun p hp => .inr (hgone p (hours p ?_))
    rwa [hmembers] at hp

end CleanUp

/-! ### The call -/

/-- Before these statements there is a child that is not in the list of pids. -/
def Stmt.losesChild : Stmt → Bool
  | .openGroup _ | .setWeight _ | .addPid | .appendPid => true
  | _ => false

/-- Before these statements there may be a cgroup that is not in the list of groups. -/
def Stmt.losesGroup : Stmt → Bool
  | .setWeight _ | .addPid | .appendPid | .appendGroup => true
  | _ => false

lemma Leads.loses {stmt : Stmt} {x y : Stage} (h : Leads stmt x y) :
    stmt.losesChild = x.child ∧ stmt.losesGroup = x.group := by
  cases h <;> exact ⟨rfl, rfl⟩

/-- **No spinner is left behind**, nor a cgroup, except for the child and the cgroup of one
iteration, if an exception comes between the fork and the lists, and for the directory
`GCOS_ROOT`, which a `Cgroup` makes and nobody removes.  The call always comes to its end, and no
other process is touched. -/
theorem cpuShare_cleans_up (m : Machine) (weights : List ℤ) (h : Host) :
    ∃ ending h', cpuShare m weights h = some (ending, h') ∧
      (∃ child : Option ℕ, (∀ p, h'.task p ≠ .gone → h.task p ≠ .gone ∨ p ∈ child) ∧
        (child ≠ none → ∃ stmt, ending = .raised stmt ∧ stmt.losesChild = true)) ∧
      (∃ group : Option ℕ, (∀ k, h'.dir k = true → h.dir k = true ∨ k ∈ group) ∧
        (group ≠ none → ∃ stmt, ending = .raised stmt ∧ stmt.losesGroup = true)) ∧
      ((h.root = true → h'.root = true) ∧
        (h'.root = true → h.root = true ∨ ∃ k, m.makeRoot k = true)) ∧
      ∀ p, h.task p ≠ .gone → m.LeavesAlone p → h'.task p = h.task p := by
  by_cases havailable : m.available = true
  · obtain ⟨x, howns, hleft⟩ := attempt_spec (path_block weights) (owns_start (m := m) h)
    rcases hattempt : attempt m (block weights) { host := h } with ⟨left, s⟩
    rw [hattempt] at howns hleft
    dsimp only at howns hleft
    obtain ⟨h', hclean, hwanes, hgone, hremoved⟩ := cleanUp_spec m s
    have hrun : cpuShare m weights h = some (shares weights left s.usages, h') := by
      rw [cpuShare, havailable, Bool.not_true, if_neg Bool.false_ne_true, hattempt]
      dsimp only
      rw [hclean]
      rfl
    -- an exception that loses something comes before a statement that loses it
    have hway : ∀ loses : Stmt → Bool, ∀ flag : Stage → Bool,
        (∀ {stmt x y}, Leads stmt x y → loses stmt = flag x) →
        flag ⟨weights.length, false, false⟩ = false → flag x = true →
        ∃ stmt, shares weights left s.usages = .raised stmt ∧ loses stmt = true := by
      intro loses flag hleads hend hflag
      rcases hleft with ⟨-, rfl⟩ | ⟨stmt, y, rfl, hstep⟩
      · exact absurd (hend.symm.trans hflag) Bool.false_ne_true
      · exact ⟨stmt, rfl, (hleads hstep).trans hflag⟩
    refine ⟨_, h', hrun, ⟨if x.child then some s.pid else none, fun p hp => ?_, fun hne => ?_⟩,
      ⟨if x.group then some s.g.name else none, fun k hk => ?_, fun hne => ?_⟩,
      ⟨fun hroot => hwanes.root ▸ howns.root hroot, fun hroot => howns.made (hwanes.root ▸ hroot)⟩,
      fun p hp halone => ?_⟩
    · rcases howns.tasks p (hwanes.tasks p hp) with hbefore | hpids | ⟨hchild, rfl⟩
      · exact .inl hbefore
      · exact absurd (hgone p hpids) hp
      · rw [hchild, if_pos rfl]
        exact .inr rfl
    · refine hway Stmt.losesChild Stage.child (fun hstep => hstep.loses.1) rfl ?_
      by_contra hchild
      exact hne (if_neg hchild)
    · rcases howns.dirs k (hwanes.dirs k hk) with hbefore | ⟨g, hg, henforced, rfl⟩ |
        ⟨hgroup, -, rfl⟩
      · exact .inl hbefore
      · by_contra hnew
        have hbefore : h.dir g.name = false := eq_false_of_ne_true fun hd => hnew (.inl hd)
        have hremove := hremoved g hg henforced (howns.members g hg henforced hbefore)
        exact Bool.false_ne_true (hremove.symm.trans hk)
      · rw [hgroup, if_pos rfl]
        exact .inr rfl
    · refine hway Stmt.losesGroup Stage.group (fun hstep => hstep.loses.2) rfl ?_
      by_contra hgroup
      exact hne (if_neg hgroup)
    · obtain ⟨htask, hpids, -⟩ := howns.bystanders p hp halone
      exact (hwanes.alone p hpids halone).trans htask
  · have hrun : cpuShare m weights h = some (.returned none, h) := by
      rw [cpuShare, eq_false_of_ne_true havailable, Bool.not_false, if_pos rfl]
    exact ⟨_, h, hrun, ⟨none, fun _ hp => .inl hp, fun hne => absurd rfl hne⟩,
      ⟨none, fun _ hk => .inl hk, fun hne => absurd rfl hne⟩, ⟨fun hroot => hroot, .inl⟩,
      fun _ _ _ => rfl⟩

/-- A Ctrl-C after the fork, while the cgroup is made: the child spins on. -/
example : (cpuShare ⟨true, fun _ _ => .stays, (· == 2), some, fun _ => true, fun _ => true,
    fun _ => true, fun _ => true, fun _ => none⟩ [100] ⟨0, fun _ => .gone, false, fun _ => false,
    fun _ => [], fun _ => none⟩).map (fun x => (x.1, x.2.task 0)) = some (.raised (.openGroup 0), .running) := by
  decide

end Gcos.Osprims
