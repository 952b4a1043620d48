import SyncKernel.Pid

/-!
# The futex table

A process that waits on a futex stands in a queue. The queues are the buckets of a table in which
addresses of the same eight bytes share a bucket, as do others by chance; so each entry carries its
address, and only entries of the address in question count.
-/

namespace SyncKernel

/-- A process in a futex queue. -/
structure Waiter where
  /-- The process. -/
  pid : Pid
  /-- The address it waits on. -/
  address : UInt64
deriving DecidableEq

/-- The bucket of an address. -/
def bucketOf (address : UInt64) : Fin bucketCount :=
  ⟨address.toNat / 8 % bucketCount, Nat.mod_lt _ (by decide)⟩

/-- The queues of processes that wait on futexes, the longest waiting in front. -/
structure FutexTable where
  /-- The queues, by bucket. -/
  buckets : Vector (List Waiter) bucketCount := .replicate bucketCount []
deriving DecidableEq

namespace FutexTable

instance : Inhabited FutexTable := ⟨{}⟩

/-- The queue that holds the waiters of an address. -/
def bucket (t : FutexTable) (address : UInt64) : List Waiter :=
  t.buckets[bucketOf address]

/-- The table with the queue of an address replaced. -/
def setBucket (t : FutexTable) (address : UInt64) (queue : List Waiter) : FutexTable :=
  ⟨t.buckets.set (bucketOf address) queue (bucketOf address).isLt⟩

/-- Put a process at the end of the queue of an address. -/
def enqueue (t : FutexTable) (pid : Pid) (address : UInt64) : FutexTable :=
  t.setBucket address (t.bucket address ++ [⟨pid, address⟩])

/-- Take a process out of the queue of an address; the answer says whether it stood there. The
search starts at the end of the queue, so of several entries of the process the newest goes. -/
def unlink (t : FutexTable) (pid : Pid) (address : UInt64) : Bool × FutexTable :=
  let queue := t.bucket address
  if queue.any (fun x => x.pid == pid) then
    (true, t.setBucket address (queue.reverse.eraseP fun x => x.pid == pid).reverse)
  else (false, t)

/-- The number of processes that wait on an address. -/
def waiters (t : FutexTable) (address : UInt64) : Nat :=
  (t.bucket address).countP fun x => x.address == address

/-- The number of all waiting processes. -/
def total (t : FutexTable) : Nat :=
  t.buckets.toList.flatten.length

/-- Whether a process stands in any queue. -/
def isQueued (t : FutexTable) (pid : Pid) : Bool :=
  t.buckets.toList.any fun queue => queue.any fun x => x.pid == pid

end FutexTable

end SyncKernel
