import SyncKernel.Hexadecimal
import SyncKernel.Limits

/-!
# Process ids

An id is a 32-bit word: the low `slotBits` bits name the slot of the process table, the others count
how often that slot was handed out. A slot that is used again gets the next generation, so an id
kept from before does not name the later process. The word 0 is never an id, since generations start
at 1; system calls use it for "the caller".
-/

namespace SyncKernel

/-- The id of a process. -/
structure Pid where
  /-- The word that holds slot and generation. -/
  raw : UInt32
deriving DecidableEq, Repr, Inhabited

namespace Pid

/-- The id of a slot in a generation. Both are cut to the bits they have in the word. -/
def ofSlot (generation slot : Nat) : Pid :=
  ⟨UInt32.ofNat (generation * slotCount + slot % slotCount)⟩

/-- The slot an id names. -/
def slot (p : Pid) : Fin slotCount :=
  ⟨p.raw.toNat % slotCount, Nat.mod_lt _ (by decide)⟩

/-- The generation of an id. -/
def generation (p : Pid) : Nat :=
  p.raw.toNat / slotCount

/-- The text of an id: its word in eight hexadecimal digits. -/
def text (p : Pid) : String :=
  hexPadded 8 p.raw.toNat

end Pid

/-- The greatest generation a process id has room for. -/
def maxGeneration : Nat := (UInt32.size - 1) / slotCount

/-- The generation after `g`; the greatest is followed by 1, so that 0 is never used. -/
def nextGeneration (g : Nat) : Nat :=
  if maxGeneration ≤ g then 1 else g + 1

end SyncKernel
