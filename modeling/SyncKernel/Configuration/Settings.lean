import SyncKernel.Configuration.Source
import SyncKernel.Limits

/-!
# Settings

The settings with which a kernel is built. `Settings.ofSource` takes them from a configuration; what
the configuration does not say, or says with a value of the wrong kind, has its default, which is
the constant of `SyncKernel.Limits`.
-/

namespace SyncKernel.Configuration

/-- A number brought between two bounds. -/
def clamp (least most n : Int) : Int :=
  max least (min most n)

/-- The settings with which a kernel is built. -/
structure Settings where
  /-- The name of the kernel. -/
  name : String
  /-- The version of the kernel. -/
  version : String
  /-- The platform. -/
  platform : String
  /-- The number of processors. -/
  cpuCount : Int
  /-- The number of bits of a slot number. -/
  slotBits : Int
  /-- The number of bytes of a page. -/
  pageSize : Int
  /-- The first address beyond user memory. -/
  userLimit : Int
  /-- Whether the futex calls are offered. -/
  futexEnabled : Bool
  /-- The number of buckets of the futex table. -/
  bucketCount : Int
  /-- The greatest number of robust-list records that are visited. -/
  robustLimit : Int
  /-- Whether signals are delivered. -/
  signalsEnabled : Bool
  /-- The number of signals. -/
  signalCount : Int
  /-- The capacity of a queue of pending signals. -/
  queueCapacity : Int
  /-- The alignment of a signal frame. -/
  frameAlignment : Int
  /-- Whether the periodic sweep runs. -/
  sweepEnabled : Bool
  /-- The number of milliseconds between two sweeps. -/
  sweepInterval : Int
  /-- The word given for the log level. -/
  logLevel : String
deriving DecidableEq

namespace Settings

/-- The settings that a configuration gives. -/
def ofSource (s : Source) : Settings where
  name := s.text "general" "name" kernelName
  version := s.text "general" "version" kernelVersion
  platform := s.text "platform" "default_platform" targetPlatform
  cpuCount := s.number "smp" "max_cpus" SyncKernel.cpuCount
  slotBits := clamp 1 16 (s.number "process" "log2_nproc" SyncKernel.slotBits)
  pageSize := s.number "memory" "page_size" SyncKernel.pageSize
  userLimit := s.number "memory" "user_addr_limit" SyncKernel.userLimit
  futexEnabled := s.flag "futex" "enable_futex" SyncKernel.futexEnabled
  bucketCount := s.number "futex" "hash_size" SyncKernel.bucketCount
  robustLimit := s.number "futex" "robust_list_limit" SyncKernel.robustLimit
  signalsEnabled := s.flag "signal" "enable_signal" SyncKernel.signalsEnabled
  signalCount := clamp 1 64 (s.number "signal" "nsig" SyncKernel.signalCount)
  queueCapacity := s.number "signal" "queue_max" SyncKernel.queueCapacity
  frameAlignment := s.number "signal" "frame_align" SyncKernel.frameAlignment
  sweepEnabled := s.flag "ipc" "enable_ipc_timeout" SyncKernel.sweepEnabled
  sweepInterval := s.number "ipc" "sweep_interval_ms" SyncKernel.sweepInterval
  logLevel := s.text "debug" "log_level" "info"

end Settings

end SyncKernel.Configuration
