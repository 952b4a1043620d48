import SyncKernel.Memory.UserAccess
import SyncKernel.Process.Basic

/-!
# Robust locks

A process keeps a list of the locks it holds in its memory: records of two words, the address of the
next record and the address of a lock word. When the process dies, the list is walked and each lock
that the process owns is marked. A lock word holds the id of the owner in its low 30 bits, below a
bit for "owner died" and a bit for "has waiters".
-/

namespace SyncKernel

/-- Lock bit: processes wait for the lock. -/
def waitersBit : UInt32 := 0x80000000

/-- Lock bit: the owner of the lock died. -/
def ownerDiedBit : UInt32 := 0x40000000

/-- The bits of a lock word that hold its owner. -/
def ownerMask : UInt32 := 0x3fffffff

/-- The number of bytes of a record of the list. -/
abbrev robustRecordSize : Nat := 16

/-- Register the list of locks of a process; head and length 0 take the registration back. -/
def Process.setRobustList (p : Process) (m : Memory) (head length : UInt64) :
    Except Errno Process :=
  if head = 0 ∧ length = 0 then .ok { p with robust := none }
  else if head = 0 ∨ length = 0 ∨ robustLimit < length.toNat ∨ head.toNat % 8 ≠ 0 then
    .error .invalidArgument
  else match m.userCheck p.space head robustRecordSize .toRead with
    | .error e => .error e
    | .ok () => .ok { p with robust := some ⟨head, length⟩ }

namespace Memory

/-- The lock addresses of up to `fuel` records from `current` on. The walk ends at a record that
cannot be read, and behind one whose next record is 0 or the head. -/
def walkRobust (m : Memory) (s : SpaceId) (head : UInt64) : Nat → UInt64 → List UInt64
  | 0, _ => []
  | fuel + 1, current =>
    match m.userRead s current robustRecordSize with
    | .error _ => []
    | .ok bytes =>
      let next := word64 bytes
      let lock := word64 (bytes.drop 8)
      let rest := if next = 0 ∨ next = head then [] else walkRobust m s head fuel next
      if lock ≠ 0 ∧ lock.toNat % 4 = 0 then lock :: rest else rest

/-- The addresses of the locks in a robust list. -/
def robustLocks (m : Memory) (s : SpaceId) (list : RobustList) : List UInt64 :=
  m.walkRobust s list.head (min list.length.toNat robustLimit) list.head

/-- Mark a lock as left by a dead owner if `pid` owns it: the bit for waiters stays, the owner is
cleared. Answers nothing if the lock is not marked. -/
def markOwnerDied? (m : Memory) (s : SpaceId) (address : UInt64) (pid : Pid) : Option Memory :=
  match m.userRead32 s address with
  | .error _ => none
  | .ok word =>
    if word &&& ownerMask ≠ pid.raw &&& ownerMask then none
    else (m.userWrite32 s address (word &&& waitersBit ||| ownerDiedBit)).toOption

end Memory

end SyncKernel
