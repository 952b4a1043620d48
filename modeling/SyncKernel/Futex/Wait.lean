import SyncKernel.Futex.Table
import SyncKernel.Process.Population

/-!
# Waiting on a futex

A process waits on an address only if the word there has the value it expects
(`Population.futexWait`). Waking an address takes processes out of its queue in order of arrival
(`Population.futexWake`); one that is not blocked any more is dropped without counting.
-/

namespace SyncKernel.Population

/-- Block a process until its address is woken, if the word at the address is the expected one. Its
call will answer 0. -/
def futexWait (w : Population) (t : FutexTable) (pid : Pid) (address : UInt64) (expected : UInt32) :
    Except Fault (Except Errno Unit × FutexTable × Population) :=
  if address.toNat % 4 ≠ 0 then .ok (.error .invalidArgument, t, w)
  else match w.procs.lookup pid with
    | .error e => .ok (.error e, t, w)
    | .ok p =>
      if p.futex.isSome then .error .waitingTwice
      else match w.memory.userRead32 p.space address with
        | .error e => .ok (.error e, t, w)
        | .ok word =>
          if word ≠ expected then .ok (.error .tryAgain, t, w)
          else
            let p := { p with
              futex := some address, status := .blocked, frame := p.frame.setReturn 0 }
            .ok (.ok (), t.enqueue pid address,
              (w.put p).note (.futexWaits pid address expected))

/-- Take up to `most` blocked processes that wait on an address out of a queue and make them
runnable. The answer is their number, the queue without the processes taken out, and the population.
-/
def wakeQueue (address : UInt64) :
    (most : Nat) → List Waiter → Population → Nat × List Waiter × Population
  | 0, queue, w => (0, queue, w)
  | _ + 1, [], w => (0, [], w)
  | most + 1, x :: queue, w =>
    if x.address ≠ address then
      let (count, rest, w) := wakeQueue address (most + 1) queue w
      (count, x :: rest, w)
    else match w.procs.get? x.pid with
      | none => wakeQueue address (most + 1) queue w
      | some p =>
        if p.status = .blocked then
          let (count, rest, w) :=
            wakeQueue address most queue (w.put { p with futex := none, status := .runnable })
          (count + 1, rest, w)
        else
          wakeQueue address (most + 1) queue
            ((w.put { p with futex := none }).note (.futexDropped x.pid p.status))

/-- Make up to `most` processes that wait on an address runnable, in order of arrival. The answer is
their number. -/
def futexWake (w : Population) (t : FutexTable) (address : UInt64) (most : Nat) :
    Nat × FutexTable × Population :=
  let (count, queue, w) := wakeQueue address most (t.bucket address) w
  let w := if 0 < count then w.note (.futexWoke count address) else w
  (count, t.setBucket address queue, w)

end SyncKernel.Population
