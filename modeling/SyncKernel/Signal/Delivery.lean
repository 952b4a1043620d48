import SyncKernel.Memory.UserAccess
import SyncKernel.Process.Basic
import SyncKernel.Signal.Frame

/-!
# Delivering signals

On the way back to user code at most one pending signal is delivered (`Process.deliver`). To call a
handler, the registers and the mask are written to the user stack as a `SignalFrame` and the process
is sent to its registered entry; `Process.leaveHandler` reads such a frame back. Whether a process
that has to end is in fact ended is the business of the caller.
-/

namespace SyncKernel

/-- What delivering did. -/
inductive Delivery where
  /-- There was nothing to deliver. -/
  | none
  /-- A signal was taken and dropped. -/
  | ignored (signal : Nat)
  /-- The process goes on in its handler, with a frame at an address. -/
  | handled (signal : Nat) (frame : UInt64)
  /-- The process has to end: that is the action for the signal. -/
  | fatal (signal : Nat)
  /-- The process has to end: there is no room for a frame below its stack pointer. -/
  | unwritable (signal : Nat) (stack : UInt64)
deriving DecidableEq

/-- The number of bytes left free below a signal frame. -/
abbrev frameGap : Nat := 16

namespace Process

/-- The mask while a handler runs: the old one, the signals of the action, and the signal itself
unless the action says otherwise; never the kill signal. -/
def handlerMask (old : SignalSet) (a : Action) (n : Nat) : SignalSet :=
  let mask := old.union a.mask
  (if a.flags.noDefer then mask else mask.insert n).erase killSignal

/-- Call a handler: write a frame below the stack pointer and go on at the entry with the address of
the frame as argument. The answer ends with that address. -/
def enterHandler (p : Process) (m : Memory) (entry handler : UInt64) (e : PendingSignal)
    (a : Action) : Except Errno (Process × Memory × UInt64) :=
  let stack := (p.frame.get .sp).toNat
  let address := (stack - SignalFrame.byteSize) / frameAlignment * frameAlignment
  if stack < SignalFrame.byteSize ∨ address < frameGap then .error .badAddress
  else
    let saved : SignalFrame :=
      { context := p.frame
        oldMask := p.signal.mask.toWord
        signal := UInt64.ofNat e.number
        value := e.value
        handler
        flags := UInt64.ofNat a.flags.bits }
    match m.userWrite p.space (UInt64.ofNat address) saved.toBytes with
    | .error e => .error e
    | .ok m =>
      let signal := { p.signal with mask := handlerMask p.signal.mask a e.number }
      let signal := if a.flags.reset then signal.setAction e.number .standard else signal
      let frame := ((p.frame.set .pc entry).set .sp (UInt64.ofNat (address - frameGap))).set .a0
        (UInt64.ofNat address)
      .ok ({ p with signal, frame }, m, UInt64.ofNat address)

/-- Deliver at most one pending signal on the way back to user code: the first one that the mask
lets through. Nothing is delivered on the way back to the kernel or to a process that waits for a
signal; and without a registered entry only the kill signal is. -/
def deliver (p : Process) (m : Memory) : Except Fault (Delivery × Process × Memory) :=
  if !p.frame.fromUser || p.signal.wait.isSome then .ok (.none, p, m)
  else match p.signal.entry with
    | .none =>
      match p.signal.queue.take killSignal with
      | some (_, queue) => .ok (.fatal killSignal, { p with signal := { p.signal with queue } }, m)
      | .none => .ok (.none, p, m)
    | some entry =>
      match p.signal.queue.takeFirst (SignalQueue.passes p.signal.mask) with
      | .none => .ok (.none, p, m)
      | some (taken, queue) =>
        let p := { p with signal := { p.signal with queue } }
        if taken.number = killSignal then .ok (.fatal killSignal, p, m)
        else match p.signal.action? taken.number with
          | .error f => .error f
          | .ok action =>
            let call (handler : UInt64) :=
              match p.enterHandler m entry handler taken action with
              | .ok (p, m, address) => (.handled taken.number address, p, m)
              | .error _ => (.unwritable taken.number (p.frame.get .sp), p, m)
            match action.disposition with
            | .ignore => .ok (.ignored taken.number, p, m)
            | .terminate => .ok (.fatal taken.number, p, m)
            | .handler address => .ok (call address)
            | .handlerWithInfo address => .ok (call address)

/-- Return from a handler: take registers and mask from a frame in user memory. The process goes
back to user code with interrupts on and with the kill signal unmasked, whatever the frame says. -/
def leaveHandler (p : Process) (m : Memory) (frame : UInt64) : Except Errno Process :=
  if frame.toNat % frameAlignment ≠ 0 then .error .badAddress
  else match m.userRead p.space frame SignalFrame.byteSize with
    | .error e => .error e
    | .ok bytes =>
      let saved := SignalFrame.ofBytes bytes
      let mask := (SignalSet.ofWord saved.oldMask).erase killSignal
      .ok { p with frame := saved.context.forceUser, signal := { p.signal with mask } }

end Process

end SyncKernel
