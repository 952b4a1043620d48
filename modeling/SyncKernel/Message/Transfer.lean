import SyncKernel.Process.Population

/-!
# Passing a message

`Population.attempt` is the one way in which a message passes from a sender to a receiver: the
sends, the receives and the sweep all use it. It answers whether the message passed, and it changes
something only if it did. A payload that cannot be copied is dropped; the message passes all the
same. Payloads go through a buffer of the kernel; one that is too long for any buffer stops the
attempt.
-/

namespace SyncKernel

/-- Whether the payload of a message may be sent: it is readable user memory, its permissions are
known ones, and permission to write is passed along only for memory that is itself writable. -/
def Process.checkPayload (p : Process) (m : Memory) (msg : Message) : Except Errno Unit :=
  if msg.size = 0 then .ok ()
  else if userLimit ≤ msg.source.toNat then .error .invalidArgument
  else match PageFlags.ofBits? msg.perm.toNat with
    | none => .error .invalidArgument
    | some perm =>
      match m.userCheck p.space msg.source msg.size.toNat .toRead with
      | .error e => .error e
      | .ok () =>
        if perm.write then
          (m.userCheck p.space msg.source msg.size.toNat .toWrite).mapError fun _ =>
            .invalidArgument
        else .ok ()

/-- Copy bytes between two address spaces. They are all read before the first is written, so the two
stretches may overlap. -/
def Memory.copy (m : Memory) (source target : SpaceId) (src dst : UInt64) (len : Nat) :
    Except Errno Memory :=
  match m.userRead source src len with
  | .error e => .error e
  | .ok data => m.userWrite target dst data

/-- What became of the payload of a message that passed. -/
inductive Payload where
  /-- There was none, or the receiver has no room for any. -/
  | absent
  /-- So many bytes were copied. -/
  | copied (size : UInt64)
  /-- It could not be copied. -/
  | dropped (error : Errno)

/-- How many bytes of its payload a message brings to a receiver that has room for them. -/
abbrev Process.portion (r : Process) (msg : Message) : UInt64 :=
  min msg.size r.receive.capacity

namespace Population

/-- Copy as much of the payload of a message as the receiver has room for. The buffer for the bytes
is set up before it is known whether they can be read. -/
def copyPayload (w : Population) (sender receiver : Process) (msg : Message) :
    Except Fault (Payload × Memory) :=
  let size := receiver.portion msg
  if size = 0 then .ok (.absent, w.memory)
  else if bufferLimit < size.toNat then .error .bufferTooLong
  else match w.memory.copy sender.space receiver.space msg.source receiver.receive.buffer
      size.toNat with
    | .ok memory => .ok (.copied size, memory)
    | .error e => .ok (.dropped e, w.memory)

/-- Hand a message to a process that waits for one: copy the payload, record the outcome and wake
the receiver, whose call answers the word of the message. -/
def complete (w : Population) (sender receiver : Process) (msg : Message) :
    Except Fault Population := do
  let (payload, memory) ← w.copyPayload sender receiver msg
  let (size, perm, dropped) := match payload with
    | .absent => ((0 : UInt64), (0 : UInt32), [])
    | .copied size => (size, msg.perm, [])
    | .dropped e => (0, 0, [Notice.payloadDropped sender.pid receiver.pid e])
  let receive := { receiver.receive with
    receiving := false, deadline := none, timedOut := false, sender := some sender.pid,
    value := msg.value, perm, size }
  let woken ← ({ receiver with receive } : Process).wake msg.value
  let w := { w with memory, journal := dropped ++ w.journal }
  return (w.put woken).note (.passed sender.pid receiver.pid msg.value)

/-- Try to pass a message. Nothing changes unless it is delivered. -/
def attempt (w : Population) (sender target : Pid) (msg : Message) :
    Except Fault (Attempt × Population) :=
  match w.procs.lookup target with
  | .error _ => .ok (.targetGone, w)
  | .ok _ =>
    if sender.slot = target.slot then .ok (.notReady, w)
    else match w.procs.pair? sender target with
      | none => .ok (.targetGone, w)
      | some (s, r) =>
        if r.receive.receiving && r.status == .blocked then do
          let w ← w.complete s r msg
          return (.delivered, w)
        else .ok (.notReady, w)

end Population

/-- End a waiting receive at its deadline. -/
def Process.expireReceive (p : Process) : Except Fault Process :=
  let receive := { p.receive with receiving := false, deadline := none, timedOut := true }
  ({ p with receive := receive.clearResult } : Process).wake Errno.timedOut.toWord

/-- End a waiting send with a result. -/
def Process.finishSend (p : Process) (result : UInt64) : Except Fault Process :=
  ({ p with send := {} } : Process).wake result

/-- End the waiting receive of a process and report it. -/
def Population.expireReceive (w : Population) (p : Process) : Except Fault Population := do
  let woken ← p.expireReceive
  return (w.put woken).note (.receiveTimedOut p.pid)

end SyncKernel
