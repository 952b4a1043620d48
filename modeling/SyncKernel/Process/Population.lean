import SyncKernel.Memory.UserAccess
import SyncKernel.Notice
import SyncKernel.Process.Table

/-!
# Processes and their memory

Messages, futexes and the scheduler work on all processes and the memory behind their address spaces
at once: that is a `Population`. It also keeps the journal of what was reported, which no operation
reads.
-/

namespace SyncKernel

/-- All processes and the memory behind their address spaces. -/
structure Population where
  /-- The process table. -/
  procs : ProcessTable := {}
  /-- The memory. -/
  memory : Memory := {}
  /-- What was reported, the latest first. -/
  journal : List Notice := []

namespace Population

instance : Inhabited Population := ⟨{}⟩

/-- The population with a changed record put back. -/
def put (w : Population) (p : Process) : Population :=
  { w with procs := w.procs.put p }

/-- The population with an event reported. -/
def note (w : Population) (n : Notice) : Population :=
  { w with journal := n :: w.journal }

end Population

end SyncKernel
