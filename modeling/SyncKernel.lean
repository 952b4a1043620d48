import SyncKernel.Bytes
import SyncKernel.Clock
import SyncKernel.Configuration.Constants
import SyncKernel.Configuration.Generate
import SyncKernel.Configuration.Settings
import SyncKernel.Configuration.Source
import SyncKernel.Errno
import SyncKernel.Futex.Robust
import SyncKernel.Futex.Table
import SyncKernel.Futex.Wait
import SyncKernel.Hexadecimal
import SyncKernel.Kernel
import SyncKernel.Limits
import SyncKernel.Loader
import SyncKernel.Log
import SyncKernel.Main
import SyncKernel.Memory.Basic
import SyncKernel.Memory.PageFlags
import SyncKernel.Memory.UserAccess
import SyncKernel.Message.Basic
import SyncKernel.Message.Call
import SyncKernel.Message.Sweep
import SyncKernel.Message.Transfer
import SyncKernel.Notice
import SyncKernel.Pid
import SyncKernel.Process.Basic
import SyncKernel.Process.Population
import SyncKernel.Process.Table
import SyncKernel.Proofs.ActionRecords
import SyncKernel.Proofs.Aside
import SyncKernel.Proofs.Assignments
import SyncKernel.Proofs.Blocking
import SyncKernel.Proofs.Board
import SyncKernel.Proofs.Callers
import SyncKernel.Proofs.Changes
import SyncKernel.Proofs.Choosing
import SyncKernel.Proofs.Confinement
import SyncKernel.Proofs.Course
import SyncKernel.Proofs.Deadlines
import SyncKernel.Proofs.Deeds
import SyncKernel.Proofs.Deliveries
import SyncKernel.Proofs.Destruction
import SyncKernel.Proofs.Drift
import SyncKernel.Proofs.ErrorAnswers
import SyncKernel.Proofs.FrameBytes
import SyncKernel.Proofs.FutexNodes
import SyncKernel.Proofs.FutexOrder
import SyncKernel.Proofs.Halting
import SyncKernel.Proofs.Identifiers
import SyncKernel.Proofs.InstalledActions
import SyncKernel.Proofs.KillSignal
import SyncKernel.Proofs.Leading
import SyncKernel.Proofs.Leaves
import SyncKernel.Proofs.Literals
import SyncKernel.Proofs.Meeting
import SyncKernel.Proofs.Messages
import SyncKernel.Proofs.Mortality
import SyncKernel.Proofs.Nesting
import SyncKernel.Proofs.OwnerMarks
import SyncKernel.Proofs.Payloads
import SyncKernel.Proofs.PendingSignals
import SyncKernel.Proofs.Processes
import SyncKernel.Proofs.Processors
import SyncKernel.Proofs.Queues
import SyncKernel.Proofs.Reachable
import SyncKernel.Proofs.Refusals
import SyncKernel.Proofs.RegisterArguments
import SyncKernel.Proofs.Rendezvous
import SyncKernel.Proofs.RobustLists
import SyncKernel.Proofs.RoundRobin
import SyncKernel.Proofs.Run
import SyncKernel.Proofs.SendCalls
import SyncKernel.Proofs.Serving
import SyncKernel.Proofs.SharedPages
import SyncKernel.Proofs.SignalSteps
import SyncKernel.Proofs.Signalled
import SyncKernel.Proofs.Sound
import SyncKernel.Proofs.StaleNodes
import SyncKernel.Proofs.Step
import SyncKernel.Proofs.SweepOrder
import SyncKernel.Proofs.SweepOutcome
import SyncKernel.Proofs.Sweeping
import SyncKernel.Proofs.Table
import SyncKernel.Proofs.Timeouts
import SyncKernel.Proofs.UserAccess
import SyncKernel.Proofs.WakeUps
import SyncKernel.Proofs.Waking
import SyncKernel.Proofs.Words
import SyncKernel.Proofs.Writes
import SyncKernel.Scheduler
import SyncKernel.Signal.Action
import SyncKernel.Signal.Delivery
import SyncKernel.Signal.Frame
import SyncKernel.Signal.Queue
import SyncKernel.Signal.Send
import SyncKernel.Signal.Set
import SyncKernel.Signal.State
import SyncKernel.Syscall
import SyncKernel.Text.Blank
import SyncKernel.Toml.Datetime
import SyncKernel.Toml.Document
import SyncKernel.Toml.Lexical
import SyncKernel.Toml.Number
import SyncKernel.Toml.Resolve
import SyncKernel.Toml.Value
import SyncKernel.Toml.Word
import SyncKernel.TrapFrame
