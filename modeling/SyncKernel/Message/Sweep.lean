import SyncKernel.Message.Transfer

/-!
# The periodic sweep

Blocked calls on messages that are overdue are ended by a sweep over all slots in order. A receive
past its deadline times out. A waiting send is tried once more, and ends if it is delivered, if its
target is gone, or if its deadline has passed.
-/

namespace SyncKernel.Population

/-- Look at one slot in the sweep; the answer says whether a call was ended there. -/
def sweepSlot (now : Millis) (w : Population) (i : Fin slotCount) :
    Except Fault (Bool × Population) :=
  match w.procs.at? i with
  | none => .ok (false, w)
  | some p =>
    if p.status ≠ .blocked then .ok (false, w)
    else if p.receive.receiving then
      if deadlineElapsed p.receive.deadline now then do return (true, ← w.expireReceive p)
      else .ok (false, w)
    else if !p.send.sending then .ok (false, w)
    else do
      let (outcome, w) ← match p.send.target with
        | some target => w.attempt p.pid target p.send.message
        | none => pure (.targetGone, w)
      match w.procs.at? i with
      | none => return (false, w)
      | some q =>
        let result := match outcome with
          | .delivered => some 0
          | .targetGone => some Errno.noSuchProcess.toWord
          | .notReady =>
            if deadlineElapsed p.send.deadline now then some Errno.timedOut.toWord else none
        match result with
        | none => return (false, w)
        | some word =>
          let woken ← q.finishSend word
          return (true, (w.put woken).note (.sendResolved p.pid outcome))

/-- Look at a list of slots in order; the answer counts the calls that were ended. -/
def sweepSlots (now : Millis) : List (Fin slotCount) → Population → Except Fault (Nat × Population)
  | [], w => .ok (0, w)
  | i :: rest, w => do
    let (ended, w) ← w.sweepSlot now i
    let (count, w) ← sweepSlots now rest w
    return (ended.toNat + count, w)

/-- Sweep all slots; the answer counts the receives and sends that were ended, not the receivers
that were handed a message. -/
def sweep (w : Population) (now : Millis) : Except Fault (Nat × Population) :=
  sweepSlots now (List.finRange slotCount) w

end SyncKernel.Population
