import SyncKernel.Proofs.Board
import SyncKernel.Proofs.Queues

/-!
# The invariant of the board

`Board.Sound` is what holds of the board whenever no operation is under way: every record sits in
the slot its id names and is in order, no process waits for a message that another waits to send it,
and the futex queues agree with the records. Every move keeps it (`Move.sound`, `Ask.sound`,
`Pass.sound`, `Turnover.sound`, `Dispatch.sound`). For most moves this is
`ProcessTable.Sound.put`: a record may be replaced if the new one is in order, and if it waits for
messages or waits to send only where the old one did, or where nobody is there to meet it.
-/

namespace SyncKernel

/-- The records of the table are each in the slot of their id and in order, and no process waits for
a message that another one waits to send it. -/
structure ProcessTable.Sound (t : ProcessTable) : Prop where
  placed : ∀ i p, t.at? i = some p → p.pid.slot = i
  settled : ∀ i p, t.at? i = some p → p.Settled
  met : ∀ i j s r, t.at? i = some s → t.at? j = some r → s.SendsTo r.pid → ¬ r.Receives

/-- No process of the table waits for a message with a buffer longer than user memory. -/
def ProcessTable.Bounded (t : ProcessTable) : Prop :=
  ∀ i p, t.at? i = some p → p.Receives → p.receive.capacity.toNat ≤ userLimit

/-- The invariant of the board. -/
structure Board.Sound (b : Board) : Prop where
  table : b.procs.Sound
  queues : b.futexes.Matches b.procs

namespace Process

variable {p p' : Process}

/-- A process that waits for a message has that reason to be blocked. -/
theorem Receives.waits (h : p.Receives) : p.waits .receive = true := h.2

/-- A process that waits to send has that reason to be blocked. -/
theorem Sends.waits (h : p.Sends) : p.waits .send = true := h.2

theorem SendsTo.sends {target : Pid} (h : p.SendsTo target) : p.Sends := ⟨h.1, h.2.1⟩

theorem SendsTo.waits {target : Pid} (h : p.SendsTo target) : p.waits .send = true :=
  h.sends.waits

/-- A process in order does not wait to send a message and for one at once. -/
theorem Settled.not_receives (h : p.Settled) (hs : p.Sends) : ¬ p.Receives := fun hr => by
  have := h.waits_eq_false_of_ne hr.waits (show Reason.receive ≠ .send by decide)
  rw [hs.waits] at this
  cases this

/-- A process whose call is over is in order. -/
theorem Overdue.settled {t : ProcessTable} {now : Millis} (ho : p.Overdue t now p')
    (h : p.Settled) : p'.Settled := by
  cases ho with
  | expired hr _ => exact h.expired hr.waits
  | forsaken hs _ => exact h.unsent hs.waits _
  | gaveUp hs _ _ => exact h.unsent hs.waits _

/-- A process that is not blocked does not wait for messages. -/
theorem not_receives_of_ne (h : p.status ≠ .blocked) : ¬ p.Receives := fun hr => h hr.1

section
variable (h : p.Settled) (hb : p.status ≠ .blocked)
include h hb

/-- A process in order that is not blocked waits on no futex. -/
theorem Settled.futex_eq_none : p.futex = none := by
  simpa [Process.waits] using h.waits_eq_false hb .futex

/-- A process in order that is not blocked waits for no message. -/
theorem Settled.receiving_eq_false : p.receive.receiving = false :=
  h.waits_eq_false hb .receive

/-- A process in order that is not blocked waits to send none. -/
theorem Settled.sending_eq_false : p.send.sending = false :=
  h.waits_eq_false hb .send

/-- A process in order that is not blocked waits for no signal. -/
theorem Settled.wait_eq_none : p.signal.wait = none := by
  simpa [Process.waits] using h.waits_eq_false hb .signal

end

end Process

namespace ProcessTable.Sound

variable {t : ProcessTable} {p p' q : Process} {i : Fin slotCount}

/-- In a sound table a record is found in the slot that its id names. -/
theorem at?_slot (h : t.Sound) (hp : t.at? i = some p) : t.at? p.pid.slot = some p := by
  rw [h.placed i p hp, hp]

/-- Who waits for a message in a sound table has a buffer that fits in user memory. -/
theorem bounded (h : t.Sound) : t.Bounded := fun i p hp hr => (h.settled i p hp).buffer hr.2

/-- The table without records. -/
theorem empty : ({} : ProcessTable).Sound where
  placed _ _ h := nomatch h
  settled _ _ h := nomatch h
  met _ _ _ _ h := nomatch h

/-- A record may be replaced by one in order. If the new one waits for messages, the old one did or
nobody waits to send it any; if it waits to send one, the old one did or the target does not wait
for messages. -/
theorem put (h : t.Sound) (hp : t.at? p.pid.slot = some p) (hpid : p'.pid = p.pid)
    (settled : p'.Settled)
    (hr : p'.Receives → p.Receives ∨ ∀ i s, t.at? i = some s → ¬ s.SendsTo p.pid)
    (hs : ∀ target, p'.SendsTo target →
      p.SendsTo target ∨ ∀ r, t.get? target = some r → ¬ r.Receives) : (t.put p').Sound where
  placed i q hq := by
    rcases at?_put_cases hq with ⟨hi, rfl⟩ | ⟨-, hq⟩
    · exact hi
    · exact h.placed i q hq
  settled i q hq := by
    rcases at?_put_cases hq with ⟨-, rfl⟩ | ⟨-, hq⟩
    · exact settled
    · exact h.settled i q hq
  met i j s r hsi hrj hsnd hrcv := by
    rcases at?_put_cases hsi with ⟨-, rfl⟩ | ⟨-, hs₀⟩ <;>
      rcases at?_put_cases hrj with ⟨-, rfl⟩ | ⟨-, hr₀⟩
    · exact settled.not_receives hsnd.sends hrcv
    · rcases hs _ hsnd with hold | hnone
      · exact h.met _ _ p r hp hr₀ hold hrcv
      · exact hnone r (get?_pid (h.at?_slot hr₀)) hrcv
    · rw [hpid] at hsnd
      rcases hr hrcv with hold | hnone
      · exact h.met _ _ s p hs₀ hp hsnd hold
      · exact hnone i s hs₀ hsnd
    · exact h.met i j s r hs₀ hr₀ hsnd hrcv

/-- A record may be replaced by one in order that does not wait for anything new. -/
theorem put_of_imp (h : t.Sound) (hp : t.at? p.pid.slot = some p) (hpid : p'.pid = p.pid)
    (settled : p'.Settled) (hr : p'.Receives → p.Receives)
    (hs : ∀ target, p'.SendsTo target → p.SendsTo target) : (t.put p').Sound :=
  h.put hp hpid settled (fun hrcv => .inl (hr hrcv)) fun target hsnd => .inl (hs target hsnd)

/-- A record may be replaced by one in order that is not blocked. -/
theorem put_of_ne (h : t.Sound) (hp : t.at? p.pid.slot = some p) (hpid : p'.pid = p.pid)
    (settled : p'.Settled) (hb : p'.status ≠ .blocked) : (t.put p').Sound :=
  h.put_of_imp hp hpid settled (fun hr => absurd hr.1 hb) fun _ hs => absurd hs.1 hb

/-- A process that is not blocked may come to wait for something other than a message. -/
theorem put_of_idle (h : t.Sound) (hp : t.at? p.pid.slot = some p) (hb : p.status ≠ .blocked)
    (hpid : p'.pid = p.pid) (settled : p'.Settled) (hr : p'.receive = p.receive)
    (hs : p'.send = p.send) : (t.put p').Sound := by
  have hp' := h.settled _ p hp
  refine h.put_of_imp hp hpid settled ?_ ?_
  · rintro ⟨-, hrcv⟩
    rw [hr, hp'.receiving_eq_false hb] at hrcv
    cases hrcv
  · rintro target ⟨-, hsnd, -⟩
    rw [hs, hp'.sending_eq_false hb] at hsnd
    cases hsnd

/-- The record of a process that is not blocked may be replaced by one of the same standing. -/
theorem put_of_sameStanding (h : t.Sound) (hp : t.at? p.pid.slot = some p)
    (hb : p.status ≠ .blocked) (hs : p.SameStanding p') : (t.put p').Sound := by
  refine h.put_of_imp hp hs.pid (hs.settled (h.settled _ p hp) hb) ?_ ?_
  · rintro ⟨hb, hr⟩
    exact ⟨hs.status ▸ hb, hs.receive ▸ hr⟩
  · rintro target ⟨hb, hsnd, ht⟩
    exact ⟨hs.status ▸ hb, hs.send ▸ hsnd, hs.send ▸ ht⟩

/-- Records may go, and others may come that are in order and not blocked. -/
theorem of_at? {t' : ProcessTable} (h : t.Sound)
    (hsub : ∀ i p, t'.at? i = some p →
      t.at? i = some p ∨ (p.pid.slot = i ∧ p.Settled ∧ p.status ≠ .blocked)) : t'.Sound where
  placed i p hp := (hsub i p hp).elim (h.placed i p) (·.1)
  settled i p hp := (hsub i p hp).elim (h.settled i p) (·.2.1)
  met i j s r hs hr hsnd hrcv := by
    rcases hsub i s hs with hs | ⟨-, -, hs⟩
    · rcases hsub j r hr with hr | ⟨-, -, hr⟩
      · exact h.met i j s r hs hr hsnd hrcv
      · exact hr hrcv.1
    · exact hs hsnd.1

end ProcessTable.Sound

/-! ## The table after one of its own operations -/

namespace ProcessTable

variable {t : ProcessTable}

/-- Reclaiming from a table in order does not stop: a dying process waits on no futex. -/
theorem Sound.reclaim_ends (h : t.Sound) (pid : Pid) : ∃ r, t.reclaim pid = .ok r := by
  unfold reclaim
  split
  · exact ⟨_, rfl⟩
  next p hp =>
    split
    · exact ⟨_, rfl⟩
    next hd =>
      have hs : p.Settled := h.settled _ p (get?_eq_some.1 hp).1
      have hf : p.futex = none := hs.futex_eq_none (by simp [not_not.1 hd])
      rw [hf]
      exact ⟨_, rfl⟩

/-- Letting go of a process leaves the table, makes a running process runnable and without a
processor, or takes the processor from one that is not running. -/
theorem release_cases (cpu : Nat) (current : Option Pid) (chosen : Option (Fin slotCount)) :
    t.release cpu current chosen = t ∨
    ∃ p, current = some p.pid ∧ t.at? p.pid.slot = some p ∧ p.cpu = some cpu ∧
      ((p.status = .running ∧ chosen ≠ some p.pid.slot ∧
          t.release cpu current chosen = t.put { p with status := .runnable, cpu := none }) ∨
        (p.status ≠ .running ∧ t.release cpu current chosen = t.put { p with cpu := none })) := by
  unfold release
  cases current with
  | none => exact .inl rfl
  | some pid =>
    dsimp only
    cases hget : t.get? pid with
    | none => exact .inl (by rw [update, hget])
    | some p =>
      obtain ⟨hp, rfl⟩ := get?_eq_some.1 hget
      by_cases hc : p.cpu = some cpu
      · by_cases hrun : p.status = .running
        · by_cases hch : chosen = some p.pid.slot
          · refine .inl ?_
            rw [update_eq_put hget (by simp [hc, hrun, hch])]
            simpa [hc, hrun, hch] using put_self hp
          · refine .inr ⟨p, rfl, hp, hc, .inl ⟨hrun, hch, ?_⟩⟩
            rw [update_eq_put hget (by simp [hc, hrun, hch])]
            simp [hc, hrun, hch]
        · refine .inr ⟨p, rfl, hp, hc, .inr ⟨hrun, ?_⟩⟩
          rw [update_eq_put hget (by simp [hc, hrun])]
          simp [hc, hrun]
      · refine .inl ?_
        rw [update_eq_put hget (by simp [hc])]
        simpa [hc] using put_self hp

end ProcessTable

/-! ## Every move keeps the invariant -/

namespace Board

variable {b b' : Board} {p p' q : Process} {now : Millis}

namespace Sound

/-- A record may be replaced by one that waits on the same futex, if the table stays in order. -/
theorem put (h : b.Sound) (hp : b.procs.at? p.pid.slot = some p) (hpid : p'.pid = p.pid)
    (hf : p'.futex = p.futex) (table : (b.procs.put p').Sound) : (b.put p').Sound :=
  ⟨table, h.queues.put hp hpid hf⟩

/-- Every record of a sound board is in order. -/
theorem settled (h : b.Sound) (hp : b.procs.at? p.pid.slot = some p) : p.Settled :=
  h.table.settled _ p hp

/-- A running process may change itself in the ways it has. -/
theorem own (h : b.Sound) (hp : b.procs.at? p.pid.slot = some p) (run : p.status = .running)
    (own : p.Own p') : (b.put p').Sound :=
  h.put hp own.sameStanding.pid own.sameStanding.futex
    (h.table.put_of_sameStanding hp (by simp [run]) own.sameStanding)

/-- A running process may become runnable. -/
theorem yield (h : b.Sound) (hp : b.procs.at? p.pid.slot = some p) (run : p.status = .running) :
    (b.put { p with status := .runnable }).Sound := by
  have hs := h.settled hp
  refine h.put hp rfl rfl (h.table.put_of_ne hp rfl ?_ nofun)
  exact hs.awake (by simp [run]) nofun (fun r => by cases r <;> rfl) hs.signals hs.cpu

/-- A running process may begin to wait on a futex, if it enters the queue in the same step. -/
theorem waitFutex (h : b.Sound) (hp : b.procs.at? p.pid.slot = some p)
    (run : p.status = .running) (address : UInt64) :
    Sound { b with
      procs := b.procs.put { p with
        futex := some address, status := .blocked, frame := p.frame.setReturn 0 }
      futexes := b.futexes.enqueue p.pid address } := by
  have hs := h.settled hp
  have hne : p.status ≠ .blocked := by simp [run]
  refine ⟨h.table.put_of_idle hp hne rfl ?_ rfl rfl,
    h.queues.enqueue hp rfl (hs.futex_eq_none hne) rfl⟩
  refine hs.entered (r := .futex) hne rfl rfl (fun r hr => ?_) hs.signals rfl hs.sender hs.buffer
    hs.target fun _ => TrapFrame.get_setReturn _ _
  cases r <;> first | rfl | exact absurd rfl hr

/-- A running process may begin to wait for a message when nobody waits to send it one. -/
theorem waitMessage (h : b.Sound) (hp : b.procs.at? p.pid.slot = some p)
    (run : p.status = .running) {receive : ReceiveState} (hr : receive.receiving = true)
    (hsender : receive.sender = none) (hbuffer : receive.capacity.toNat ≤ userLimit)
    (alone : ∀ i s, b.procs.at? i = some s → ¬ s.SendsTo p.pid) :
    (b.put { p with receive, status := .blocked }).Sound := by
  have hs := h.settled hp
  have hne : p.status ≠ .blocked := by simp [run]
  refine h.put hp rfl rfl (h.table.put hp rfl ?_ (fun _ => .inr alone) ?_)
  · refine hs.entered (r := .receive) hne rfl hr (fun r hr => ?_) hs.signals rfl
      (fun _ => hsender) (fun _ => hbuffer) hs.target
      fun hf => absurd hf (by simp [hs.futex_eq_none hne])
    cases r <;> first | rfl | exact absurd rfl hr
  · rintro target ⟨-, hsnd, -⟩
    rw [hs.sending_eq_false hne] at hsnd
    cases hsnd

/-- A running process may begin to wait for its target, if the target does not wait for messages. -/
theorem waitTarget {r : Process} {send : SendState} {target : Pid} (h : b.Sound)
    (hp : b.procs.at? p.pid.slot = some p) (run : p.status = .running)
    (hsending : send.sending = true) (htarget : send.target = some target)
    (hr : b.procs.lookup target = .ok r) (busy : ¬ r.Receives) :
    (b.put { p with send, status := .blocked }).Sound := by
  have hs := h.settled hp
  have hne : p.status ≠ .blocked := by simp [run]
  refine h.put hp rfl rfl (h.table.put hp rfl ?_ ?_ ?_)
  · refine hs.entered (r := .send) hne rfl hsending (fun r hr => ?_) hs.signals rfl hs.sender
      hs.buffer (fun _ => ⟨_, htarget⟩) fun hf => absurd hf (by simp [hs.futex_eq_none hne])
    cases r <;> first | rfl | exact absurd rfl hr
  · rintro ⟨-, hrcv⟩
    rw [hs.receiving_eq_false hne] at hrcv
    cases hrcv
  · rintro target' ⟨-, -, ht⟩
    refine .inr fun r' hr' => ?_
    rw [show send.target = some target' from ht] at htarget
    cases htarget
    rw [(ProcessTable.lookup_eq_ok.1 hr).1] at hr'
    cases hr'
    exact busy

/-- A running process may begin to wait for a signal. -/
theorem waitSignal (h : b.Sound) (hp : b.procs.at? p.pid.slot = some p)
    (run : p.status = .running) (wait : SignalWait) (mask : SignalSet) :
    (b.put { p with
      signal := { p.signal with wait := some wait, mask }, status := .blocked }).Sound := by
  have hs := h.settled hp
  have hne : p.status ≠ .blocked := by simp [run]
  refine h.put hp rfl rfl (h.table.put_of_idle hp hne rfl ?_ rfl rfl)
  refine hs.entered (r := .signal) hne rfl rfl (fun r hr => ?_) hs.signals rfl hs.sender hs.buffer
    hs.target fun hf => absurd hf (by simp [hs.futex_eq_none hne])
  cases r <;> first | rfl | exact absurd rfl hr

/-- A call on messages that is over may be ended. -/
theorem overdue (h : b.Sound) (hp : b.procs.at? p.pid.slot = some p)
    (ho : p.Overdue b.procs now p') : (b.put p').Sound :=
  h.put hp ho.pid ho.futex
    (h.table.put_of_ne hp ho.pid (ho.settled (h.settled hp)) (by simp [ho.runnable]))

/-- A waiting send may be ended with any result. -/
theorem unsent (h : b.Sound) (hp : b.procs.at? p.pid.slot = some p)
    (hs : p.waits .send = true) (result : UInt64) : (b.put (p.unsent result)).Sound :=
  h.put hp rfl rfl (h.table.put_of_ne hp rfl ((h.settled hp).unsent hs result) nofun)

/-- A process that waits for a message may be handed one. -/
theorem handed (h : b.Sound) (hp : b.procs.at? p.pid.slot = some p) (hr : p.Receives)
    (sender : Pid) (value size : UInt64) (perm : UInt32) :
    (b.put (p.handed sender value size perm)).Sound :=
  h.put hp rfl rfl (h.table.put_of_ne hp rfl ((h.settled hp).handed hr.waits _ _ _ _) nofun)

/-- A process may be woken from a futex, if its node is taken out in the same step. -/
theorem wakeFutex {address : UInt64} {before after : List Waiter} (h : b.Sound)
    (hp : b.procs.at? p.pid.slot = some p)
    (hq : b.futexes.bucket address = before ++ ⟨p.pid, address⟩ :: after) :
    Sound { b with
      procs := b.procs.put { p with futex := none, status := .runnable }
      futexes := b.futexes.setBucket address (before ++ after) } := by
  have hs := h.settled hp
  have hf : p.futex = some address := h.queues.futex_of_split hp hq
  refine ⟨h.table.put_of_ne hp rfl ?_ nofun, h.queues.remove hp rfl rfl hq⟩
  refine hs.cleared (r := .futex) (by simp [Process.waits, hf]) nofun rfl (fun r hr => ?_)
    hs.signals rfl
  cases r <;> first | rfl | exact absurd rfl hr

/-- A process may be sent a signal, unless the signal is lost. -/
theorem signal {m m' : Memory} {n : Nat} {value : UInt64} {a : Except Errno Sent} (h : b.Sound)
    (hp : b.procs.at? p.pid.slot = some p) (hsig : p.Signalled m n value a p' m')
    (ha : a ≠ .ok .lost) : (b.put p').Sound := by
  refine h.put hp hsig.pid hsig.futex
    (h.table.put_of_imp hp hsig.pid (hsig.settled (h.settled hp) ha) ?_ ?_)
  · rintro ⟨hb, hr⟩
    exact ⟨hsig.status hb, hsig.receive ▸ hr⟩
  · rintro target ⟨hb, hs, ht⟩
    exact ⟨hsig.status hb, hsig.send ▸ hs, hsig.send ▸ ht⟩

/-- A destroyed process leaves its processor and its futex queue. -/
theorem bury (h : b.Sound) (hp : b.procs.at? p.pid.slot = some p)
    (hq : q = p ∨ ∃ wait, p.signal.wait = some wait ∧ q = p.leaveWait wait) :
    (b.buried p q).Sound := by
  have hs := h.settled hp
  have hpid : q.pid = p.pid := by
    rcases hq with rfl | ⟨wait, -, rfl⟩ <;> rfl
  have hqueue : q.signal.queue = p.signal.queue := by
    rcases hq with rfl | ⟨wait, -, rfl⟩ <;> rfl
  have settled : ({ q.bury with futex := none } : Process).Settled := by
    refine ⟨?_, fun e he => hs.signals e (hqueue ▸ he), nofun, nofun, nofun, nofun, nofun⟩
    exact (Process.reasonCount_of_none fun r => by cases r <;> rfl).trans (if_neg nofun).symm
  refine ⟨h.table.put_of_ne hp hpid settled nofun, ?_⟩
  show (b.futexesWithout p.pid p.futex).Matches (b.procs.put { q.bury with futex := none })
  cases hf : p.futex with
  | none => exact h.queues.put hp hpid hf.symm
  | some address =>
    obtain ⟨before, after, hbucket, hunlink⟩ := h.queues.unlink_eq hp hf
    rw [futexesWithout, hunlink]
    exact h.queues.remove hp hpid rfl hbucket

/-- A destroyed process may leave the table: it stands in no queue. -/
theorem reclaim {pid : Pid} {procs : ProcessTable} (h : b.Sound)
    (hr : b.procs.reclaim pid = .ok (.ok procs)) : Sound { b with procs } := by
  obtain ⟨p, hp, -, hf, hat⟩ := ProcessTable.reclaim_ok hr
  refine ⟨h.table.of_at? fun i q hq => ?_, h.queues.of_slot pid.slot (fun j hj => ?_)
    (fun q hq => ?_) fun q hq => ?_⟩
  · rw [hat] at hq
    split at hq
    · cases hq
    · exact .inl hq
  · rw [hat, if_neg hj]
  · rw [(ProcessTable.get?_eq_some.1 hp).1] at hq
    cases hq
    exact hf
  · rw [hat, if_pos rfl] at hq
    cases hq

/-- A process may enter a free slot, since it has no reason to be blocked. -/
theorem enter {pid : Pid} {space : SpaceId} {frame : TrapFrame} {procs : ProcessTable}
    (h : b.Sound) (ha : b.procs.alloc space frame = .ok (pid, procs)) :
    Sound { b with procs } := by
  obtain ⟨hfree, rfl⟩ := ProcessTable.alloc_ok ha
  refine ⟨h.table.of_at? fun i q hq => ?_, h.queues.of_slot pid.slot (fun j hj => ?_)
    (fun q hq => ?_) fun q hq => ?_⟩
  · rcases ProcessTable.at?_put_cases hq with ⟨hi, rfl⟩ | ⟨-, hq⟩
    · exact .inr ⟨hi, ⟨rfl, nofun, nofun, nofun, nofun, nofun, nofun⟩, nofun⟩
    · exact .inl hq
  · exact ProcessTable.at?_put_of_ne hj
  · rw [hfree] at hq
    cases hq
  · rw [ProcessTable.at?_put, if_pos rfl] at hq
    cases hq
    rfl

/-- A processor may let go of the process it ran. -/
theorem released (h : b.Sound) (cpu : Fin cpuCount) (chosen : Option (Fin slotCount)) :
    (b.released cpu chosen).Sound := by
  rw [Board.released]
  rcases ProcessTable.release_cases (t := b.procs) cpu b.cpus[cpu].current chosen with
    heq | ⟨p, -, hp, -, ⟨run, -, heq⟩ | ⟨-, heq⟩⟩
  · rw [heq]
    exact ⟨h.table, h.queues⟩
  · have hs := h.settled hp
    rw [heq]
    refine ⟨h.table.put_of_ne hp rfl ?_ (by simp), h.queues.put hp rfl rfl⟩
    exact hs.awake (by simp [run]) (by simp) (fun r => by cases r <;> rfl) hs.signals (by simp)
  · have hs := h.settled hp
    rw [heq]
    refine ⟨h.table.put_of_imp hp rfl ?_ id fun _ => id, h.queues.put hp rfl rfl⟩
    exact ⟨hs.reasons, hs.signals, by simp, hs.sender, hs.buffer, hs.target, hs.answer⟩

end Sound

/-- Ending an overdue call on messages keeps the invariant. -/
theorem Lapse.sound (m : Lapse now b b') (h : b.Sound) : b'.Sound := by
  cases m with
  | ended hp ho => exact h.overdue hp ho

/-- Waking a process from a futex keeps the invariant. -/
theorem Wake.sound {address : UInt64} {pid : Pid} (m : Wake address pid b b') (h : b.Sound) :
    b'.Sound := by
  cases m with
  | first hq _ hp _ => exact h.wakeFutex hp hq

/-- No move breaks the invariant. -/
theorem Move.sound (m : Move now b b') (h : b.Sound) : b'.Sound := by
  cases m with
  | own hp run own => exact h.own hp run own
  | yield hp run => exact h.yield hp run
  | waitFutex hp run address => exact h.waitFutex hp run address
  | waitSignal hp run hw =>
    obtain ⟨wait, mask, rfl⟩ := Process.awaitSignal_none hw
    exact h.waitSignal hp run wait mask
  | lapse l => exact l.sound h
  | wake w => exact w.sound h
  | signal hp _ hsig ha => exact h.signal hp hsig ha
  | bury hp _ hq => exact h.bury hp hq
  | release cpu chosen => exact h.released cpu chosen

/-- Blocking in a call on messages keeps the invariant. -/
theorem Ask.sound {pid : Pid} {what : Option (Pid × Message)} (m : Ask now pid what b b')
    (h : b.Sound) : b'.Sound := by
  cases m with
  | receive hp _ run _ _ _ room alone => exact h.waitMessage hp run rfl rfl room alone
  | send hp _ run _ _ _ hr busy => exact h.waitTarget hp run rfl rfl hr busy

/-- A process that comes or goes keeps the invariant. -/
theorem Turnover.sound (m : Turnover b b') (h : b.Sound) : b'.Sound := by
  cases m with
  | reclaim hr => exact h.reclaim hr
  | enter ha => exact h.enter ha

/-- Any number of moves keep the invariant. -/
theorem Moves.sound (ms : Moves now b b') (h : b.Sound) : b'.Sound := by
  induction ms with
  | refl => exact h
  | tail _ m ih => exact m.sound ih

/-- The passing of a message keeps the invariant. -/
theorem Pass.sound {sender receiver : Pid} {value : UInt64}
    (m : Pass sender receiver value b b') (h : b.Sound) : b'.Sound := by
  cases m with
  | send _ _ hr wait _ _ size perm => exact h.handed hr wait _ _ size perm
  | @fetch p s hp run hs wait _ _ _ _ buffer capacity size perm =>
    have hset := h.settled hp
    have hne : p.status ≠ .blocked := by simp [run]
    have happ : s.pid.slot ≠ p.pid.slot := ProcessTable.slot_ne hs hp (by simp [wait.1, run])
    have h₁ := h.unsent hs wait.waits 0
    have hp₁ : (b.put (s.unsent 0)).procs.at? p.pid.slot = some p :=
      (ProcessTable.at?_put_of_ne (p := s.unsent 0) happ).trans hp
    refine h₁.put hp₁ rfl rfl (h₁.table.put_of_ne hp₁ rfl ?_ nofun)
    refine hset.awake hne nofun (fun r => ?_) hset.signals hset.cpu
    cases r with
    | receive => exact (hset.receiving_eq_false hne).symm
    | futex | send | signal => rfl

/-- A processor takes up only processes that are not blocked. -/
theorem Dispatch.sound {pid : Pid} (m : Dispatch pid b b') (h : b.Sound) : b'.Sound := by
  cases m with
  | @run p cpu hp _ can =>
    have hs := h.settled hp
    have hne : p.status ≠ .blocked := by
      intro hb
      simp [Process.canRunOn, hb] at can
    have settled : ({ p with
        status := .running, cpu := some ↑cpu, runs := p.runs + 1 } : Process).Settled := by
      refine hs.awake hne nofun (fun r => by cases r <;> rfl) hs.signals fun c hc => ?_
      cases hc
      exact cpu.isLt
    exact ⟨h.table.put_of_ne hp rfl settled nofun, h.queues.put hp rfl rfl⟩

end Board

end SyncKernel
