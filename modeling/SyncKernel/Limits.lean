/-!
# Limits of the system

The fixed sizes the kernel is built with: how many processes, processors and signals there are, how
memory is cut into pages, and how often the periodic sweep runs. Every table and every range check
of the library is sized by a constant of this module.
-/

namespace SyncKernel

/-- The name under which the kernel presents itself. -/
def kernelName : String := "Rux"

/-- The version of the kernel. -/
def kernelVersion : String := "0.1.0"

/-- The platform the kernel is built for. -/
def targetPlatform : String := "riscv64"

/-- The number of processors. -/
abbrev cpuCount : Nat := 4

/-- The number of low bits of a process id that name a table slot. -/
abbrev slotBits : Nat := 8

/-- The number of slots of the process table. -/
abbrev slotCount : Nat := 1 <<< slotBits

/-- The number of bytes of a page. -/
abbrev pageSize : Nat := 4096

/-- The first address beyond user memory. -/
abbrev userLimit : Nat := 0x4000000000

/-- The greatest number of bytes of a buffer that the kernel sets up for itself. -/
abbrev bufferLimit : Nat := 0x7fffffffffffffff

/-- Whether the futex calls are offered. -/
abbrev futexEnabled : Bool := true

/-- The number of buckets of the futex table. -/
abbrev bucketCount : Nat := 256

/-- The greatest number of robust-list records that are visited. -/
abbrev robustLimit : Nat := 2048

/-- Whether signals are delivered. -/
abbrev signalsEnabled : Bool := true

/-- The number of signals; they are numbered from 1. -/
abbrev signalCount : Nat := 64

/-- The capacity of the queue of pending signals of one process. -/
abbrev queueCapacity : Nat := 32

/-- The alignment of a signal frame on the user stack. -/
abbrev frameAlignment : Nat := 16

/-- Whether the periodic sweep for overdue calls runs. -/
abbrev sweepEnabled : Bool := true

/-- The least number of milliseconds between two periodic sweeps. -/
abbrev sweepInterval : Nat := 500

end SyncKernel
