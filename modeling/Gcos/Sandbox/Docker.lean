import Gcos.Kernel.World
import Gcos.Lib.Bytes
import Gcos.Lib.Lists

/-!
# The Docker sandbox

`DockerSandboxRunner` in `gcos/sandbox/docker_runner.py`.  The code goes into the container as
base64, in the argument of a `python -c` that a shell is given, and that writes it to a file
and runs the file.  What the container prints comes back cut off at a number of bytes.

The Docker daemon is a parameter: each call to it has an outcome, and may fail.
-/

namespace Gcos.Sandbox

open Lib World

/-! ### The command -/

/-- The program before the text of the code. -/
def programHead : List Char := "import base64,os,sys;src=base64.b64decode('".toList

/-- The program after it. -/
def programTail : List Char :=
  (");open('/work/main.py','wb').write(src);" ++
    "os.execvp('python',['python','/work/main.py'])").toList

/-- `blob`. -/
def blob (code : String) : List Char := Base64.encode (utf8 code.toList)

/-- The argument of `python -c`. -/
def program (code : String) : List Char := programHead ++ blob code ++ '\'' :: programTail

/-- `shell_cmd`. -/
def shellCmd (code : String) : List Char := "python -c \"".toList ++ program code ++ ['"']

/-- The characters that are themselves in a word of a shell command. -/
def isPlain (c : Char) : Bool := c.isAlphanum || c == '-' || c == '_' || c == '.' || c == '/'

/-- The characters that have a meaning between double quotes. -/
def isSpecial (c : Char) : Bool := c == '"' || c == '$' || c == '`' || c == '\\'

/-- The words of a shell command, within a word `cur` that was begun, or between double
quotes.  There is no answer if a character has a meaning other than that of blanks and double
quotes. -/
def shellWords : Bool → Option (List Char) → List Char → Option (List (List Char))
  | false, cur, [] => some cur.toList
  | true, _, [] => none
  | false, cur, c :: s =>
    if c = ' ' then (shellWords false none s).map (cur.toList ++ ·)
    else if c = '"' then shellWords true (some (cur.getD [])) s
    else if isPlain c then shellWords false (some (cur.getD [] ++ [c])) s
    else none
  | true, cur, c :: s =>
    if c = '"' then shellWords false cur s
    else if isSpecial c then none
    else shellWords true (some (cur.getD [] ++ [c])) s

/-- A string of Python after its opening quote: the string, and what comes after its closing
quote.  There is no answer if a character does not stand for itself. -/
def readLiteral : List Char → Option (List Char × List Char)
  | [] => none
  | c :: s =>
    if c = '\'' then some ([], s)
    else if c = '\\' ∨ c = '\n' then none
    else (readLiteral s).map fun r => (c :: r.1, r.2)

/-- The character is itself in a shell's double quotes and in a string of Python. -/
def isHarmless (c : Char) : Bool := !isSpecial c && c != '\'' && c != '\n'

lemma isHarmless_of_isDigit {c : Char} (h : Base64.isDigit c = true) : isHarmless c = true := by
  rw [isHarmless, Bool.and_eq_true, Bool.and_eq_true, Bool.not_eq_true', bne_iff_ne, bne_iff_ne]
  have hnot : ∀ d, Base64.isDigit d = false → c ≠ d := by
    rintro d hd rfl
    rw [h] at hd
    cases hd
  refine ⟨⟨?_, hnot _ rfl⟩, hnot _ rfl⟩
  simp [isSpecial, hnot '"' rfl, hnot '$' rfl, hnot '`' rfl, hnot '\\' rfl]

lemma isHarmless_of_mem_blob {code : String} {c : Char} (h : c ∈ blob code) :
    isHarmless c = true := isHarmless_of_isDigit (Base64.isDigit_of_mem_encode h)

/-- A word without quotes. -/
lemma shellWords_word {x : List Char} (hx : ∀ c ∈ x, isPlain c = true) (hne : x ≠ [])
    (cur : Option (List Char)) (s : List Char) :
    shellWords false cur (x ++ ' ' :: s) =
      (shellWords false none s).map ([cur.getD [] ++ x] ++ ·) := by
  induction x generalizing cur with
  | nil => exact absurd rfl hne
  | cons c x ih =>
    obtain ⟨hc, hx⟩ := List.forall_mem_cons.1 hx
    have hblank : c ≠ ' ' := by
      rintro rfl
      cases hc
    have hquote : c ≠ '"' := by
      rintro rfl
      cases hc
    rw [List.cons_append, shellWords, if_neg hblank, if_neg hquote, if_pos hc]
    cases x with
    | nil => rfl
    | cons d x =>
      rw [ih hx (List.cons_ne_nil d x), Option.getD_some, List.append_assoc]
      rfl

/-- Between double quotes. -/
lemma shellWords_quoted {x : List Char} (hx : ∀ c ∈ x, isSpecial c = false) (cur s : List Char) :
    shellWords true (some cur) (x ++ '"' :: s) = shellWords false (some (cur ++ x)) s := by
  induction x generalizing cur with
  | nil =>
    rw [List.append_nil]
    rfl
  | cons c x ih =>
    have hc := hx c List.mem_cons_self
    have hne : c ≠ '"' := by
      rintro rfl
      cases hc
    rw [List.cons_append, shellWords, if_neg hne, if_neg (by rw [hc]; exact Bool.false_ne_true),
      Option.getD_some, ih (fun d hd => hx d (List.mem_cons_of_mem c hd)), List.append_assoc]
    rfl

lemma readLiteral_append {x : List Char} (hx : ∀ c ∈ x, isHarmless c = true) (s : List Char) :
    readLiteral (x ++ '\'' :: s) = some (x, s) := by
  induction x with
  | nil => rfl
  | cons c x ih =>
    have hc := hx c List.mem_cons_self
    simp only [isHarmless, isSpecial, Bool.and_eq_true, Bool.not_eq_true', Bool.or_eq_false_iff,
      beq_eq_false_iff_ne, bne_iff_ne] at hc
    obtain ⟨⟨⟨-, hbackslash⟩, hquote⟩, hnewline⟩ := hc
    rw [List.cons_append, readLiteral, if_neg hquote, if_neg (not_or.2 ⟨hbackslash, hnewline⟩),
      ih fun d hd => hx d (List.mem_cons_of_mem c hd)]
    rfl

lemma not_isSpecial_of_mem_program {code : String} :
    ∀ c ∈ program code, isSpecial c = false := by
  have hhead : ∀ c ∈ programHead, isSpecial c = false := forall_mem_of_all (by decide)
  have htail : ∀ c ∈ '\'' :: programTail, isSpecial c = false := forall_mem_of_all (by decide)
  intro c hc
  rw [program, List.append_assoc] at hc
  rcases List.mem_append.1 hc with hc | hc
  · exact hhead c hc
  · rcases List.mem_append.1 hc with hc | hc
    · have hharmless := isHarmless_of_mem_blob hc
      simp only [isHarmless, Bool.and_eq_true, Bool.not_eq_true'] at hharmless
      exact hharmless.1.1
    · exact htail c hc

/-- Two words, and one in double quotes. -/
lemma shellWords_two {w x y z : List Char} (hw : w = x ++ ' ' :: (y ++ [' ', '"']))
    (hx : ∀ c ∈ x, isPlain c = true) (hy : ∀ c ∈ y, isPlain c = true) (hx' : x ≠ [])
    (hy' : y ≠ []) (hz : ∀ c ∈ z, isSpecial c = false) :
    shellWords false none (w ++ z ++ ['"']) = some [x, y, z] := by
  have hcmd : w ++ z ++ ['"'] = x ++ ' ' :: (y ++ ' ' :: '"' :: (z ++ ['"'])) := by
    rw [hw]
    simp only [List.append_assoc, List.cons_append, List.nil_append]
  have hquoted : shellWords false none ('"' :: (z ++ ['"'])) = some [z] :=
    shellWords_quoted hz [] []
  rw [hcmd, shellWords_word hx hx', shellWords_word hy hy', hquoted]
  rfl

/-- **The code arrives as it was, whatever it is.**  The shell runs `python -c` with one argument
and nothing else; the argument is a program that has the code in one string and is the same
for every code before and after it; and the string is read and decoded to the bytes of the
code, which are read as the code. -/
theorem script_arrives (code : String) :
    shellWords false none (shellCmd code) = some ["python".toList, "-c".toList, program code] ∧
      program code = programHead ++ (blob code ++ '\'' :: programTail) ∧
      readLiteral (blob code ++ '\'' :: programTail) = some (blob code, programTail) ∧
      Base64.decode (blob code) = some (utf8 code.toList) ∧
      Utf8.decodeReplace (utf8 code.toList) = code.toList := by
  have hprogram : program code = programHead ++ (blob code ++ '\'' :: programTail) := by
    rw [program, List.append_assoc]
  have hliteral : readLiteral (blob code ++ '\'' :: programTail) = some (blob code, programTail) :=
    readLiteral_append (fun c hc => isHarmless_of_mem_blob hc) programTail
  have hwords : shellWords false none (shellCmd code) =
      some ["python".toList, "-c".toList, program code] :=
    shellWords_two (by decide) (forall_mem_of_all (by decide)) (forall_mem_of_all (by decide))
      (by decide) (by decide)
      not_isSpecial_of_mem_program
  exact ⟨hwords, hprogram, hliteral, Base64.decode_encode _, Utf8.decodeReplace_utf8 _⟩

/-! ### A run -/

/-- `DockerSandboxRunner`, its settings. -/
structure DockerSandboxRunner where
  image : String := "python:3.11-slim"
  memory : String := "128m"
  pidsLimit : ℕ := 64
  cpus : ℚ := 1
  tmpfsSize : String := "8m"
  user : String := "65534:65534"
  maxOutputBytes : ℕ := 64 * 1024
  securityOpt : List String
deriving DecidableEq

/-- What `containers.run` is called with. -/
structure ContainerRequest where
  image : String
  command : List (List Char)
  networkMode : String
  readOnly : Bool
  capDrop : List String
  securityOpt : List String
  user : String
  memLimit : String
  memswapLimit : String
  pidsLimit : ℕ
  nanoCpus : ℤ
  cpuShares : Option ℤ
  tmpfs : List (String × String)
  workingDir : String
  remove : Bool
deriving DecidableEq

/-- A call to the Docker daemon. -/
inductive DockerCall
  | run (request : ContainerRequest)
  | wait (timeout : Time)
  | kill
  | logs (stdout stderr : Bool)
  | remove (force : Bool)
deriving DecidableEq

/-- The outcomes of the calls.  A call that fails raises.  `wait` answers with the status code,
if there is one; `stdout` and `stderr` are what `logs` answers. -/
structure Daemon where
  run : Except Exn Unit
  wait : Except Exn (Option ℤ)
  kill : Except Exn Unit
  stdout : Except Exn (Option (List UInt8))
  stderr : Except Exn (Option (List UInt8))
  remove : Except Exn Unit

namespace DockerSandboxRunner

variable (d : DockerSandboxRunner)

/-- What `run_python` asks for. -/
def request (code : String) (cpuShares : Option ℤ) : ContainerRequest where
  image := d.image
  command := ["sh".toList, "-c".toList, shellCmd code]
  networkMode := "none"
  readOnly := true
  capDrop := ["ALL"]
  securityOpt := d.securityOpt
  user := d.user
  memLimit := d.memory
  memswapLimit := d.memory
  pidsLimit := d.pidsLimit
  nanoCpus := ⌊d.cpus * 1000000000⌋
  cpuShares := cpuShares
  tmpfs := [("/work", "rw,size=" ++ d.tmpfsSize ++ ",exec,mode=1777")]
  workingDir := "/work"
  remove := false

/-- `_capped`. -/
def capped : Option (List UInt8) → List Char
  | none => []
  | some raw =>
    Utf8.decodeReplace (raw.take d.maxOutputBytes) ++
      if d.maxOutputBytes < raw.length then
        ("\n...[truncated at " ++ toString d.maxOutputBytes ++ " bytes]").toList
      else []

/-- The end of a container, as far as `run_python` knows: the exit code, whether the container
was killed, and the calls. -/
def ended (timeout : Time) (daemon : Daemon) : ℤ × Bool × List DockerCall :=
  match daemon.wait with
  | .ok status => (status.getD (-1), false, [.wait timeout])
  | .error _ => (-1, true, [.wait timeout, .kill])

/-- The output: none if the first call for it fails, and only the first half if the second
does. -/
def output (daemon : Daemon) : List Char × List Char × List DockerCall :=
  match daemon.stdout with
  | .error _ => ([], [], [.logs true false])
  | .ok out =>
    (d.capped out, (match daemon.stderr with
      | .ok err => d.capped err
      | .error _ => []), [.logs true false, .logs false true])

/-- `run_python`, which begins at `start` and ends at `stop`, and the calls that it makes. -/
def runPython (daemon : Daemon) (start stop : Time) (code : String) (timeout : Time)
    (cpuShares : Option ℤ) : Except Exn SandboxResult × List DockerCall :=
  let run := DockerCall.run (d.request code cpuShares)
  match daemon.run with
  | .error e => (.error e, [run])
  | .ok () =>
    let (exitCode, killed, ending) := ended timeout daemon
    let (stdout, stderr, reading) := d.output daemon
    (.ok {
        stdout := String.ofList stdout
        stderr := String.ofList stderr
        exitCode := exitCode
        durationS := stop - start
        killedByTimeout := killed
        runner := "docker" },
      run :: (ending ++ reading ++ [.remove true]))

variable {d}

lemma length_capped_le (raw : Option (List UInt8)) :
    (d.capped raw).length ≤ d.maxOutputBytes +
      ("\n...[truncated at " ++ toString d.maxOutputBytes ++ " bytes]").toList.length := by
  cases raw with
  | none => exact Nat.zero_le _
  | some raw =>
    rw [capped, List.length_append]
    refine Nat.add_le_add ((Utf8.length_decodeReplace_le _).trans ?_) ?_
    · exact List.length_take_le _ _
    · split_ifs
      · exact le_rfl
      · exact Nat.zero_le _

/-- Output that fits comes back as it was printed. -/
lemma capped_utf8 {s : List Char} (hs : (utf8 s).length ≤ d.maxOutputBytes) :
    d.capped (some (utf8 s)) = s := by
  rw [capped, List.take_of_length_le hs, if_neg (Nat.not_lt.2 hs), List.append_nil,
    Utf8.decodeReplace_utf8]

/-- The calls for the output are nothing but that. -/
lemma output_calls (daemon : Daemon) : ∀ c ∈ (d.output daemon).2.2, ∃ out err, c = .logs out err := by
  rw [output]
  split
  · exact List.forall_mem_singleton.2 ⟨_, _, rfl⟩
  · exact List.forall_mem_cons.2 ⟨⟨_, _, rfl⟩, List.forall_mem_singleton.2 ⟨_, _, rfl⟩⟩

lemma length_output_le (daemon : Daemon) :
    (d.output daemon).1.length ≤ d.maxOutputBytes +
        ("\n...[truncated at " ++ toString d.maxOutputBytes ++ " bytes]").toList.length ∧
      (d.output daemon).2.1.length ≤ d.maxOutputBytes +
        ("\n...[truncated at " ++ toString d.maxOutputBytes ++ " bytes]").toList.length := by
  rw [output]
  split
  · exact ⟨Nat.zero_le _, Nat.zero_le _⟩
  · refine ⟨length_capped_le _, ?_⟩
    dsimp only
    split
    · exact length_capped_le _
    · exact Nat.zero_le _

/-- How the container ended, by what the wait answered. -/
lemma ended_cases (timeout : Time) (daemon : Daemon) :
    (∃ status, daemon.wait = .ok status ∧
      ended timeout daemon = (status.getD (-1), false, [.wait timeout])) ∨
    ∃ e, daemon.wait = .error e ∧ ended timeout daemon = (-1, true, [.wait timeout, .kill]) := by
  rw [ended]
  cases hwait : daemon.wait with
  | ok status => exact .inl ⟨status, rfl, rfl⟩
  | error e => exact .inr ⟨e, rfl, rfl⟩

/-- What a run of code was like. -/
structure Contained (d : DockerSandboxRunner) (daemon : Daemon) (timeout : Time) (code : String)
    (cpuShares : Option ℤ) (r : SandboxResult) (calls : List DockerCall) : Prop where
  /-- The container is started first and removed last, and neither happens twice. -/
  bracketed : ∃ between, calls = .run (d.request code cpuShares) :: (between ++ [.remove true]) ∧
    ∀ c ∈ between, c ≠ .remove true ∧ ∀ q, c ≠ .run q
  /-- It was killed if and only if the wait for its end failed, and then the result says so. -/
  killed : .kill ∈ calls ↔ r.killedByTimeout = true
  timeout : r.killedByTimeout = true ↔ ∀ status, daemon.wait ≠ .ok status
  /-- Only code that ended by itself with status 0 has run well. -/
  ok : r.ok = true ↔ daemon.wait = .ok (some 0)
  bounded : r.stdout.toList.length ≤ d.maxOutputBytes +
      ("\n...[truncated at " ++ toString d.maxOutputBytes ++ " bytes]").toList.length ∧
    r.stderr.toList.length ≤ d.maxOutputBytes +
      ("\n...[truncated at " ++ toString d.maxOutputBytes ++ " bytes]").toList.length
  /-- Text within the cap comes back whole, if the call for it answered and, for the second
  call, the first one too. -/
  printed : ∀ s, daemon.stdout = .ok (some (utf8 s)) → (utf8 s).length ≤ d.maxOutputBytes →
    r.stdout.toList = s
  printedErr : ∀ first s, daemon.stdout = .ok first → daemon.stderr = .ok (some (utf8 s)) →
    (utf8 s).length ≤ d.maxOutputBytes → r.stderr.toList = s

/-- **Whatever the daemon answers**, a run either fails before there is a container, or the
container is removed in the end, and the result says what became of it. -/
theorem runPython_contained (d : DockerSandboxRunner) (daemon : Daemon) (start stop : Time)
    (code : String) (timeout : Time) (cpuShares : Option ℤ) :
    match d.runPython daemon start stop code timeout cpuShares with
    | (.error e, calls) => daemon.run = .error e ∧ calls = [.run (d.request code cpuShares)]
    | (.ok r, calls) => Contained d daemon timeout code cpuShares r calls := by
  cases hrun : daemon.run with
  | error e =>
    rw [runPython, hrun]
    exact ⟨rfl, rfl⟩
  | ok u =>
    have hlogs := output_calls (d := d) daemon
    obtain ⟨hout, herr⟩ := length_output_le (d := d) daemon
    have hprinted : ∀ s, daemon.stdout = .ok (some (utf8 s)) →
        (utf8 s).length ≤ d.maxOutputBytes → (d.output daemon).1 = s := by
      intro s hs hlength
      rw [output, hs]
      exact capped_utf8 hlength
    have hprintedErr : ∀ first s, daemon.stdout = .ok first → daemon.stderr = .ok (some (utf8 s)) →
        (utf8 s).length ≤ d.maxOutputBytes → (d.output daemon).2.1 = s := by
      intro first s hfirst hs hlength
      rw [output, hfirst]
      simp only [hs]
      exact capped_utf8 hlength
    have hcalls : ∀ ending : List DockerCall, (∀ c ∈ ending, c ≠ .remove true ∧ ∀ q, c ≠ .run q) →
        ∀ c ∈ ending ++ (d.output daemon).2.2, c ≠ .remove true ∧ ∀ q, c ≠ .run q := by
      intro ending hending c hc
      rcases List.mem_append.1 hc with hc | hc
      · exact hending c hc
      · obtain ⟨out, err, rfl⟩ := hlogs c hc
        exact ⟨DockerCall.noConfusion, fun _ => DockerCall.noConfusion⟩
    have hkill : .kill ∉ (d.output daemon).2.2 := by
      intro h
      obtain ⟨out, err, h⟩ := hlogs _ h
      cases h
    rw [runPython, hrun]
    generalize d.output daemon = o at hlogs hout herr hprinted hprintedErr hcalls hkill ⊢
    obtain ⟨out, err, reading⟩ := o
    rcases ended_cases timeout daemon with ⟨status, hwait, hended⟩ | ⟨e, hwait, hended⟩
    · rw [hended]
      refine ⟨⟨_, rfl, hcalls _ ?_⟩, ?_, ?_, ?_, ?_, ?_, ?_⟩
      · exact List.forall_mem_singleton.2 ⟨DockerCall.noConfusion, fun _ => DockerCall.noConfusion⟩
      · simpa using hkill
      · simp [hwait]
      · cases status <;> simp [SandboxResult.ok, hwait]
      · rw [String.toList_ofList, String.toList_ofList]
        exact ⟨hout, herr⟩
      · simpa using hprinted
      · simpa using hprintedErr
    · rw [hended]
      refine ⟨⟨_, rfl, hcalls _ ?_⟩, ?_, ?_, ?_, ?_, ?_, ?_⟩
      · exact List.forall_mem_cons.2 ⟨⟨DockerCall.noConfusion, fun _ => DockerCall.noConfusion⟩,
          List.forall_mem_singleton.2 ⟨DockerCall.noConfusion, fun _ => DockerCall.noConfusion⟩⟩
      · simp
      · simp [hwait]
      · simp [SandboxResult.ok, hwait]
      · rw [String.toList_ofList, String.toList_ofList]
        exact ⟨hout, herr⟩
      · simpa using hprinted
      · simpa using hprintedErr

end DockerSandboxRunner

end Gcos.Sandbox
