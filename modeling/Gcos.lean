import Gcos.Lib.Prog
import Gcos.Lib.Watch
import Gcos.Lib.Answers
import Gcos.Lib.Footprint
import Gcos.Lib.Lists
import Gcos.Lib.Pattern
import Gcos.Lib.Region
import Gcos.Lib.Advance
import Gcos.Lib.Cyclic
import Gcos.Lib.Text
import Gcos.Lib.Worklist
import Gcos.Lib.Ensures
import Gcos.Kernel.Pcb
import Gcos.Kernel.Quota
import Gcos.Kernel.Scheduler
import Gcos.Ipc.MessageBus
import Gcos.Kernel.World
import Gcos.Kernel.Effects
import Gcos.Memory.Pager
import Gcos.Memory.Collapse
import Gcos.Memory.Footprint
import Gcos.Kernel.Calls
import Gcos.Kernel.ProcessTree
import Gcos.Exec.Step
import Gcos.Pool.Worker
import Gcos.Pool.Discipline
import Gcos.Pool.Obedience
import Gcos.Pool.Invariant
import Gcos.Pool.Preservation
import Gcos.Pool.Runs
import Gcos.Pool.History
import Gcos.Pool.ReadyState
import Gcos.Pool.Grip
import Gcos.Pool.Following
import Gcos.Pool.Holder
import Gcos.Pool.Dead
import Gcos.Pool.Requeue
import Gcos.Pool.Post
import Gcos.Pool.Input
import Gcos.Pool.Delivery
import Gcos.Pool.Mailboxes
import Gcos.Pool.Convoy
import Gcos.Pool.FirstCome
import Gcos.Process.Dispatch
import Gcos.Process.AgentStep
import Gcos.Process.Child
import Gcos.Process.Kills
import Gcos.Process.Outcome
import Gcos.Process.Strand
import Gcos.Process.Fleet
import Gcos.Process.Signing
import Gcos.Process.Frozen
import Gcos.Process.Desk
import Gcos.Process.Custody
import Gcos.Process.Brood
import Gcos.Process.Signal
import Gcos.Osprims.ShmRing
import Gcos.Osprims.ShmRace
import Gcos.Osprims.Vmem
import Gcos.Lib.Ledger
import Gcos.Memory.Swap
import Gcos.Memory.SwapOut
import Gcos.Memory.Atomicity
import Gcos.Lib.Revision
import Gcos.Memory.Shape
import Gcos.Kernel.Aging
import Gcos.Pool.TreeView
import Gcos.Pool.Priority
import Gcos.Process.Labour
import Gcos.Process.Lifecycle
import Gcos.Pool.SwapDirectory
import Gcos.Pool.Transitions
import Gcos.Backend.Batcher
import Gcos.Backend.Bursts
import Gcos.Backend.Bucket
import Gcos.Backend.Counters
import Gcos.Lib.RoundRobin
import Gcos.Pool.Runner
import Gcos.Pool.RoundRobin
import Gcos.Process.Meter
import Gcos.Process.Budget
import Gcos.Memory.Charging
import Gcos.Memory.Guard
import Gcos.Memory.Recency
import Gcos.Exec.Footprint
import Gcos.Exec.React
import Gcos.Exec.Bounds
import Gcos.Exec.Prompts
import Gcos.Exec.Agent
import Gcos.Exec.Task
import Gcos.Process.Outage
import Gcos.Process.Marking
import Gcos.Process.Chronicle
import Gcos.Process.Marked
import Gcos.Process.LiveChild
import Gcos.Pool.Gating
import Gcos.Pool.Lives
import Gcos.Pool.Sandbox
import Gcos.Sandbox.Extract
import Gcos.Sandbox.Scan
import Gcos.Sandbox.Reply
import Gcos.Sandbox.Unfence
import Gcos.Kernel.RingLog
import Gcos.Osprims.RealProc
import Gcos.Exec.Calc
import Gcos.Memory.Progress
import Gcos.Lib.Json
import Gcos.Lib.Conduit
import Gcos.Process.Report
import Gcos.Lib.Hall
import Gcos.Kernel.Waiting
import Gcos.Lib.Regex
import Gcos.Sandbox.PolicyGate
import Gcos.Pool.Screening
import Gcos.Osprims.Preempt
import Gcos.Lib.Bytes
import Gcos.Sandbox.Docker
import Gcos.Sandbox.Posture
import Gcos.Eval.Ordering
import Gcos.Eval.Preemption
import Gcos.Lib.Words
import Gcos.Shell.Repl
import Gcos.Osprims.CpuShare
