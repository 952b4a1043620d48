import SyncKernel.Bytes
import SyncKernel.Signal.Set

/-!
# Signal actions

What a process wants done with a signal: end the process, drop the signal, or call a handler with
some signals masked. User code passes an action as a record of 24 bytes (`ActionRecord`);
`Action.ofRecord?` reads one, refusing unknown flags and handlers beyond user memory, and
`Action.toRecord` writes one.
-/

namespace SyncKernel

/-- The options of an action. -/
structure ActionFlags where
  /-- The handler is also given the value of the signal. -/
  info : Bool := false
  /-- The signal is not masked while its handler runs. -/
  noDefer : Bool := false
  /-- The action is dropped after one delivery. -/
  reset : Bool := false
deriving DecidableEq, Repr, Inhabited

namespace ActionFlags

/-- The word of a set of options: bits 0, 30 and 31. -/
def bits (f : ActionFlags) : Nat :=
  f.info.toNat + f.noDefer.toNat <<< 30 + f.reset.toNat <<< 31

/-- The options among the bits of a number; other bits are dropped. -/
def truncate (n : Nat) : ActionFlags :=
  ⟨n.testBit 0, n.testBit 30, n.testBit 31⟩

/-- The options of a number that has no other bits. -/
def ofBits? (n : Nat) : Option ActionFlags :=
  if (truncate n).bits = n then some (truncate n) else none

end ActionFlags

/-- What is done with a signal when it is delivered. -/
inductive Disposition where
  /-- The process ends. -/
  | terminate
  /-- The signal is dropped. -/
  | ignore
  /-- The handler at an address is called. -/
  | handler (address : UInt64)
  /-- The handler at an address is called and told the value of the signal. -/
  | handlerWithInfo (address : UInt64)
deriving DecidableEq

/-- The action of a process for one signal. -/
structure Action where
  /-- What is done. -/
  disposition : Disposition
  /-- The signals masked while the handler runs. -/
  mask : SignalSet
  /-- The options. -/
  flags : ActionFlags
deriving DecidableEq

/-- An action as user code passes it. -/
structure ActionRecord where
  /-- The handler: 0 to end the process, 1 to drop the signal, otherwise its address. -/
  handler : UInt64
  /-- The word of the masked signals. -/
  mask : UInt64
  /-- The word of the options. -/
  flags : UInt32
deriving DecidableEq

namespace ActionRecord

/-- The number of bytes of a record; the last four are unused. -/
abbrev byteSize : Nat := 24

/-- The record in the first `byteSize` bytes of a list. -/
def ofBytes (bs : List UInt8) : ActionRecord :=
  ⟨word64 bs, word64 (bs.drop 8), word32 (bs.drop 16)⟩

/-- The bytes of a record, the unused ones zero. -/
def toBytes (r : ActionRecord) : List UInt8 :=
  word64Bytes r.handler ++ word64Bytes r.mask ++ word32Bytes r.flags ++ List.replicate 4 0

@[simp] theorem length_toBytes (r : ActionRecord) : r.toBytes.length = byteSize := by
  simp [toBytes]

end ActionRecord

namespace Action

/-- The action every signal starts with: the process ends. -/
def standard : Action := ⟨.terminate, .empty, {}⟩

instance : Inhabited Action := ⟨standard⟩

/-- The action that a user record asks for. The kill signal is taken out of its mask. -/
def ofRecord? (r : ActionRecord) : Except Errno Action :=
  match ActionFlags.ofBits? r.flags.toNat with
  | none => .error .invalidArgument
  | some flags =>
    let mask := (SignalSet.ofWord r.mask).erase killSignal
    if r.handler = 0 then .ok ⟨.terminate, mask, flags⟩
    else if r.handler = 1 then .ok ⟨.ignore, mask, flags⟩
    else if userLimit ≤ r.handler.toNat then .error .invalidArgument
    else if flags.info then .ok ⟨.handlerWithInfo r.handler, mask, flags⟩
    else .ok ⟨.handler r.handler, mask, flags⟩

/-- The user record of an action. -/
def toRecord (a : Action) : ActionRecord :=
  let handler := match a.disposition with
    | .terminate => 0
    | .ignore => 1
    | .handler address => address
    | .handlerWithInfo address => address
  ⟨handler, a.mask.toWord, UInt32.ofNat a.flags.bits⟩

end Action

end SyncKernel
