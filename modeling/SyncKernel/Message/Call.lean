import SyncKernel.Message.Transfer

/-!
# Sending and receiving

The three calls on messages: `trySend` passes a message or is refused, `sendTimeout` waits until its
deadline for the target to receive, `receive` takes the message of a waiting sender or waits for
one.
-/

namespace SyncKernel.Population

/-- Send a message if the target is receiving. -/
def trySend (w : Population) (pid target : Pid) (msg : Message) :
    Except Fault (Except Errno Unit × Population) :=
  match w.procs.lookup pid with
  | .error e => .ok (.error e, w)
  | .ok p =>
    match p.checkPayload w.memory msg with
    | .error e => .ok (.error e, w)
    | .ok () => do
      let (outcome, w) ← w.attempt pid target msg
      match outcome with
      | .delivered => return (.ok (), w)
      | .notReady => return (.error .notReceiving, w)
      | .targetGone => return (.error .noSuchProcess, w)

/-- Send a message; if the target is not receiving, wait for it until `timeout` has passed. -/
def sendTimeout (w : Population) (pid target : Pid) (msg : Message) (timeout now : Millis) :
    Except Fault (Except Errno CallOutcome × Population) :=
  if timeout = 0 then .ok (.error .badTimeout, w)
  else match w.procs.lookup pid with
    | .error e => .ok (.error e, w)
    | .ok p =>
      match p.checkPayload w.memory msg with
      | .error e => .ok (.error e, w)
      | .ok () => do
        let (outcome, w) ← w.attempt pid target msg
        match outcome with
        | .delivered => return (.ok (.done 0), w)
        | .targetGone => return (.error .noSuchProcess, w)
        | .notReady =>
          match w.procs.lookup pid with
          | .error e => return (.error e, w)
          | .ok p =>
            let send : SendState := ⟨true, some target, msg, some (deadlineAfter now timeout)⟩
            let w := w.put { p with send, status := .blocked }
            return (.ok .blocked, w.note (.blocksSending pid target timeout))

/-- Whether a process is blocked in a send to `target`. -/
def waitsToSendTo (target : Pid) (p : Process) : Bool :=
  p.status == .blocked && p.send.sending && p.send.target == some target

/-- Receive a message: take that of the waiting sender in the lowest slot, or wait for one, without
limit or until `timeout` has passed. -/
def receive (w : Population) (pid : Pid) (buffer capacity : UInt64) (timeout : Option Millis)
    (now : Millis) : Except Fault (Except Errno CallOutcome × Population) :=
  if timeout = some 0 then .ok (.error .badTimeout, w)
  else match w.procs.lookup pid with
    | .error e => .ok (.error e, w)
    | .ok p =>
      let room : Except Errno Unit :=
        if capacity = 0 then .ok ()
        else if userLimit ≤ buffer.toNat then .error .invalidArgument
        else w.memory.userCheck p.space buffer capacity.toNat .toWrite
      match room with
      | .error e => .ok (.error e, w)
      | .ok () => do
        let waiting : ReceiveState :=
          { receiving := true, deadline := timeout.map (deadlineAfter now), buffer, capacity }
        let w := w.put { p with receive := waiting, status := .blocked }
        match w.procs.processes.find? (waitsToSendTo pid) with
        | none => return (.ok .blocked, w.note (.blocksReceiving pid))
        | some s =>
          let (outcome, w) ← w.attempt s.pid pid s.send.message
          if outcome = .delivered then
            let w ← match w.procs.get? s.pid with
              | some sender => (sender.finishSend 0).map w.put
              | none => .ok w
            match w.procs.lookup pid with
            | .error e => return (.error e, w)
            | .ok q =>
              return (.ok (.done s.send.message.value), w.put { q with status := p.status })
          else return (.ok .blocked, w.note (.blocksReceiving pid))

end SyncKernel.Population
