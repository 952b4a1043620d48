import SyncKernel.Memory.Basic

/-!
# Access to user memory

The kernel reads and writes the memory of a process only through the functions of this module. Each
of them switches the address space in, checks the permissions, moves the bytes, and switches the
space out again; a read therefore leaves the memory as it found it (`Memory.leave_enter`), and a
refused write leaves the memory its caller holds.
-/

namespace SyncKernel

namespace Memory

/-- Check that user code may access `len` bytes from `va` on with the permissions `need`. -/
def userCheck (m : Memory) (s : SpaceId) (va : UInt64) (len : Nat) (need : PageFlags) :
    Except Errno Unit :=
  (m.enter s).check s va len need

/-- Read `len` bytes that user code may read. -/
def userRead (m : Memory) (s : SpaceId) (va : UInt64) (len : Nat) : Except Errno (List UInt8) :=
  match (m.enter s).check s va len .toRead with
  | .error e => .error e
  | .ok () => (m.enter s).load s va len

/-- Write bytes where user code may write. -/
def userWrite (m : Memory) (s : SpaceId) (va : UInt64) (data : List UInt8) : Except Errno Memory :=
  match (m.enter s).check s va data.length .toWrite with
  | .error e => .error e
  | .ok () => ((m.enter s).store s va data).map leave

/-- Read a 32-bit word that user code may read. -/
def userRead32 (m : Memory) (s : SpaceId) (va : UInt64) : Except Errno UInt32 :=
  (m.userRead s va 4).map word32

/-- Write a 32-bit word where user code may write. -/
def userWrite32 (m : Memory) (s : SpaceId) (va : UInt64) (w : UInt32) : Except Errno Memory :=
  m.userWrite s va (word32Bytes w)

/-- Read a 64-bit word that user code may read. -/
def userRead64 (m : Memory) (s : SpaceId) (va : UInt64) : Except Errno UInt64 :=
  (m.userRead s va 8).map word64

/-- Write a 64-bit word where user code may write. -/
def userWrite64 (m : Memory) (s : SpaceId) (va : UInt64) (w : UInt64) : Except Errno Memory :=
  m.userWrite s va (word64Bytes w)

end Memory

end SyncKernel
