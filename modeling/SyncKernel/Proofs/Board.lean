import SyncKernel.Kernel
import SyncKernel.Proofs.Signalled
import SyncKernel.Proofs.Table

/-!
# The board and its moves

What the kernel keeps about who runs, who waits and for what is its `Board`: the process table, the
processors and the futex queues. Whatever an operation does, it does to the board by a sequence of
moves, each of which changes the records of one or two processes. `Move` lists the ordinary moves,
among them the calls on messages that end without one (`Lapse`) and the wake-ups of a futex
(`Wake`). Those that are made once in an operation, if at all, stand apart: `Ask` is the beginning
of a wait for a message or for a receiver, `Pass` the passing of a message, from a sender that calls
or one that waits, `Turnover` the coming and going of processes, and `Dispatch` the choice of a
process by a processor. Each constructor states in full when the move is made and what it leaves, so
that a property of all operations is a property of these few moves.
-/

namespace SyncKernel

namespace Process

/-- The process is blocked until it is sent a message. -/
def Receives (p : Process) : Prop :=
  p.status = .blocked ∧ p.receive.receiving = true

/-- The process is blocked until it gets rid of a message. -/
def Sends (p : Process) : Prop :=
  p.status = .blocked ∧ p.send.sending = true

/-- The process is blocked until it gets rid of a message to `target`. -/
def SendsTo (p : Process) (target : Pid) : Prop :=
  p.status = .blocked ∧ p.send.sending = true ∧ p.send.target = some target

instance (p : Process) : Decidable p.Receives := inferInstanceAs (Decidable (_ ∧ _))

instance (p : Process) (target : Pid) : Decidable (p.SendsTo target) :=
  inferInstanceAs (Decidable (_ ∧ _ ∧ _))

end Process

/-- The process of an id is there and not dying. -/
def ProcessTable.Live (t : ProcessTable) (pid : Pid) : Prop :=
  ∃ p, t.lookup pid = .ok p

/-- At time `now`, the call on messages in which the process `p` of a table is blocked is over
without a message, and this is the record of the process when the call is ended. -/
inductive Process.Overdue (t : ProcessTable) (now : Millis) (p : Process) : Process → Prop where
  /-- A receive is over at its deadline. -/
  | expired (hr : p.Receives) (late : deadlineElapsed p.receive.deadline now = true) :
      p.Overdue t now p.expired
  /-- A waiting send is over when its target is gone. -/
  | forsaken {target : Pid} (hs : p.SendsTo target) (gone : ¬ t.Live target) :
      p.Overdue t now (p.unsent Errno.noSuchProcess.toWord)
  /-- A waiting send is over at its deadline, its target being there. -/
  | gaveUp {target : Pid} (hs : p.SendsTo target) (live : t.Live target)
      (late : deadlineElapsed p.send.deadline now = true) :
      p.Overdue t now (p.unsent Errno.timedOut.toWord)

section
variable {t : ProcessTable} {now : Millis} {p p' : Process}

theorem Process.Overdue.pid (h : p.Overdue t now p') : p'.pid = p.pid := by
  cases h <;> rfl

theorem Process.Overdue.futex (h : p.Overdue t now p') : p'.futex = p.futex := by
  cases h <;> rfl

/-- A call that is over is that of a blocked process. -/
theorem Process.Overdue.blocked (h : p.Overdue t now p') : p.status = .blocked := by
  cases h with
  | expired hr _ => exact hr.1
  | forsaken hs _ => exact hs.1
  | gaveUp hs _ _ => exact hs.1

/-- A process whose call is over may run again. -/
theorem Process.Overdue.runnable (h : p.Overdue t now p') : p'.status = .runnable := by
  cases h <;> rfl

end

/-- Who runs, who waits and for what. -/
@[ext]
structure Board where
  /-- The process table. -/
  procs : ProcessTable
  /-- The processors. -/
  cpus : Vector Cpu cpuCount
  /-- The queues of processes that wait on futexes. -/
  futexes : FutexTable

/-- The board of a kernel. -/
def Kernel.board (k : Kernel) : Board :=
  ⟨k.procs, k.cpus, k.futexes⟩

namespace Board

/-- The process of an id is there and runs. -/
def Runs (b : Board) (pid : Pid) : Prop :=
  ∃ p, b.procs.at? p.pid.slot = some p ∧ p.pid = pid ∧ p.status = .running

/-- The board with a changed record put back. -/
def put (b : Board) (p : Process) : Board :=
  { b with procs := b.procs.put p }

/-- The board after a processor's own state changed. -/
def setCpu (b : Board) (cpu : Fin cpuCount) (state : Cpu) : Board :=
  { b with cpus := b.cpus.set cpu state }

/-- The processors after a process left the one it ran on. -/
def cpusWithout (b : Board) (pid : Pid) : Option Nat → Vector Cpu cpuCount
  | none => b.cpus
  | some c =>
    if h : c < cpuCount then
      if b.cpus[c].current = some pid then b.cpus.set c { b.cpus[c] with current := none }
      else b.cpus
    else b.cpus

/-- The futex queues after a process was taken out of that of an address. -/
def futexesWithout (b : Board) (pid : Pid) : Option UInt64 → FutexTable
  | none => b.futexes
  | some address => (b.futexes.unlink pid address).2

/-- The board without the process `p` in any wait: it is dying, `q` being its record when it was
destroyed. -/
def buried (b : Board) (p q : Process) : Board :=
  ⟨b.procs.put { q.bury with futex := none }, b.cpusWithout p.pid p.cpu,
    b.futexesWithout p.pid p.futex⟩

/-- The board after a processor let go of the process it ran. -/
def released (b : Board) (cpu : Fin cpuCount) (chosen : Option (Fin slotCount)) : Board :=
  { b with
    procs := b.procs.release cpu b.cpus[cpu].current chosen
    cpus := b.cpus.set cpu { b.cpus[cpu] with current := none } }

section
variable {b : Board} {p p' : Process} {pid : Pid}

/-- Putting back the record that is there changes nothing. -/
theorem put_self (h : b.procs.at? p.pid.slot = some p) : b.put p = b := by
  rw [put, ProcessTable.put_self h]

/-- Processes that run still run after a record was replaced by one that runs if the old one did. -/
theorem Runs.put (h : b.Runs pid) (hp : b.procs.at? p.pid.slot = some p) (hpid : p'.pid = p.pid)
    (hrun : p.status = .running → p'.status = .running) : (b.put p').Runs pid := by
  obtain ⟨q, hq, rfl, run⟩ := h
  by_cases hs : p'.pid.slot = q.pid.slot
  · rw [← hs, hpid, hp] at hq
    cases hq
    exact ⟨p', ProcessTable.at?_put_self, hpid, hrun run⟩
  · exact ⟨q, (ProcessTable.at?_put_of_ne hs).trans hq, rfl, run⟩

end

/-- At time `now`, a blocked call on messages is ended without a message. -/
inductive Lapse (now : Millis) : Board → Board → Prop where
  | ended {b : Board} {p p' : Process} (hp : b.procs.at? p.pid.slot = some p)
      (h : p.Overdue b.procs now p') : Lapse now b (b.put p')

/-- Any number of lapses, one after the other. -/
abbrev Lapses (now : Millis) : Board → Board → Prop :=
  Relation.ReflTransGen (Lapse now)

/-- The process that waits longest on an address is woken. -/
inductive Wake (address : UInt64) : Pid → Board → Board → Prop where
  | first {b : Board} {p : Process} {before after : List Waiter}
      (hq : b.futexes.bucket address = before ++ ⟨p.pid, address⟩ :: after)
      (first : ∀ x ∈ before, x.address ≠ address) (hp : b.procs.at? p.pid.slot = some p)
      (hb : p.status = .blocked) :
      Wake address p.pid b
        { b with
          procs := b.procs.put { p with futex := none, status := .runnable }
          futexes := b.futexes.setBucket address (before ++ after) }

/-- The processes of a list are woken, each the one that waits longest when its turn comes. -/
inductive Wakes (address : UInt64) : List Pid → Board → Board → Prop where
  | nil {b : Board} : Wakes address [] b b
  | cons {b b₁ b' : Board} {pid : Pid} {pids : List Pid} (h : Wake address pid b b₁)
      (hs : Wakes address pids b₁ b') : Wakes address (pid :: pids) b b'

/-- A move of the kernel at time `now` in which no message is passed or asked for, no process comes
or goes and none is chosen to run. -/
inductive Move (now : Millis) : Board → Board → Prop where
  /-- A running process changes its own record without blocking. -/
  | own {b : Board} {p p' : Process} (hp : b.procs.at? p.pid.slot = some p)
      (run : p.status = .running) (own : p.Own p') : Move now b (b.put p')
  /-- A running process gives up its processor. -/
  | yield {b : Board} {p : Process} (hp : b.procs.at? p.pid.slot = some p)
      (run : p.status = .running) : Move now b (b.put { p with status := .runnable })
  /-- A running process blocks on a futex. -/
  | waitFutex {b : Board} {p : Process} (hp : b.procs.at? p.pid.slot = some p)
      (run : p.status = .running) (address : UInt64) :
      Move now b
        { b with
          procs := b.procs.put { p with
            futex := some address, status := .blocked, frame := p.frame.setReturn 0 }
          futexes := b.futexes.enqueue p.pid address }
  /-- A running process blocks until it is sent a signal. -/
  | waitSignal {b : Board} {p p' : Process} {m m' : Memory} {accept : SignalSet}
      {destination : UInt64} (hp : b.procs.at? p.pid.slot = some p) (run : p.status = .running)
      (h : p.awaitSignal m accept destination = (.ok none, p', m')) : Move now b (b.put p')
  /-- A call on messages is ended without a message. -/
  | lapse {b b' : Board} (h : Lapse now b b') : Move now b b'
  /-- A process that waits on a futex is woken. -/
  | wake {b b' : Board} {address : UInt64} {pid : Pid} (h : Wake address pid b b') : Move now b b'
  /-- A process is sent a signal. -/
  | signal {b : Board} {p p' : Process} {m m' : Memory} {n : Nat} {value : UInt64}
      {a : Except Errno Sent} (hp : b.procs.at? p.pid.slot = some p) (live : p.status ≠ .dying)
      (h : p.Signalled m n value a p' m') (ha : a ≠ .ok .lost) : Move now b (b.put p')
  /-- A process is destroyed; it may just have given up a wait for a signal. -/
  | bury {b : Board} {p q : Process} (hp : b.procs.at? p.pid.slot = some p)
      (live : p.status ≠ .dying)
      (hq : q = p ∨ ∃ wait, p.signal.wait = some wait ∧ q = p.leaveWait wait) :
      Move now b (b.buried p q)
  /-- A processor lets go of the process it ran. -/
  | release {b : Board} (cpu : Fin cpuCount) (chosen : Option (Fin slotCount)) :
      Move now b (b.released cpu chosen)

/-- Any number of moves, one after the other. -/
abbrev Moves (now : Millis) : Board → Board → Prop :=
  Relation.ReflTransGen (Move now)

theorem Lapses.moves {now : Millis} {b b' : Board} (h : Lapses now b b') : Moves now b b' :=
  Relation.ReflTransGen.mono (fun _ _ => .lapse) _ _ h

theorem Wakes.moves {now : Millis} {address : UInt64} {pids : List Pid} {b b' : Board}
    (h : Wakes address pids b b') : Moves now b b' := by
  induction h with
  | nil => exact .refl
  | cons h _ ih => exact .head (.wake h) ih

/-- The running process `pid` blocks in a call on messages at time `now`: in a send of a message to
a process, or in a receive. -/
inductive Ask (now : Millis) (pid : Pid) : Option (Pid × Message) → Board → Board → Prop where
  /-- It blocks until it is sent a message, when nobody waits to send it one. -/
  | receive {b : Board} {p : Process} (hp : b.procs.at? p.pid.slot = some p) (hpid : p.pid = pid)
      (run : p.status = .running) (buffer capacity : UInt64) (timeout : Option Millis)
      (room : capacity.toNat ≤ userLimit)
      (alone : ∀ i s, b.procs.at? i = some s → ¬ s.SendsTo p.pid) :
      Ask now pid none b (b.put { p with
        receive := { receiving := true, deadline := timeout.map (deadlineAfter now), buffer,
                     capacity }
        status := .blocked })
  /-- It blocks until it gets rid of a message, when its target is there and does not wait for one.
  -/
  | send {b : Board} {p r : Process} (hp : b.procs.at? p.pid.slot = some p) (hpid : p.pid = pid)
      (run : p.status = .running) (target : Pid) (msg : Message) (timeout : Millis)
      (hr : b.procs.lookup target = .ok r) (busy : ¬ r.Receives) :
      Ask now pid (some (target, msg)) b (b.put { p with
        send := ⟨true, some target, msg, some (deadlineAfter now timeout)⟩
        status := .blocked })

/-- A process comes or goes. -/
inductive Turnover : Board → Board → Prop where
  /-- A destroyed process leaves the table. -/
  | reclaim {b : Board} {pid : Pid} {procs : ProcessTable}
      (h : b.procs.reclaim pid = .ok (.ok procs)) : Turnover b { b with procs }
  /-- A process is entered. -/
  | enter {b : Board} {pid : Pid} {space : SpaceId} {frame : TrapFrame} {procs : ProcessTable}
      (h : b.procs.alloc space frame = .ok (pid, procs)) : Turnover b { b with procs }

/-- A message with the word `value` passes from `sender` to `receiver`. -/
inductive Pass (sender receiver : Pid) (value : UInt64) : Board → Board → Prop where
  /-- A running process hands it to one that waits for a message. -/
  | send {b : Board} {p r : Process} (hp : b.procs.at? p.pid.slot = some p)
      (run : p.status = .running) (hr : b.procs.at? r.pid.slot = some r) (wait : r.Receives)
      (hs : p.pid = sender) (ht : r.pid = receiver) (size : UInt64) (perm : UInt32) :
      Pass sender receiver value b (b.put (r.handed sender value size perm))
  /-- A running process takes it from the one in the lowest slot that waits to send to it. -/
  | fetch {b : Board} {p s : Process} (hp : b.procs.at? p.pid.slot = some p)
      (run : p.status = .running) (hs : b.procs.at? s.pid.slot = some s) (wait : s.SendsTo p.pid)
      (first : ∀ i, i < s.pid.slot → ∀ q, b.procs.at? i = some q → ¬ q.SendsTo p.pid)
      (hsnd : s.pid = sender) (ht : p.pid = receiver) (hv : s.send.message.value = value)
      (buffer capacity : UInt64) (size : UInt64) (perm : UInt32) :
      Pass sender receiver value b
        ((b.put (s.unsent 0)).put
          { ({ p with receive := { buffer, capacity } } : Process).handed sender value size
              perm with
            status := .running })

/-- A processor takes up the process `pid`. -/
inductive Dispatch (pid : Pid) : Board → Board → Prop where
  | run {b : Board} {p : Process} (cpu : Fin cpuCount) (hp : b.procs.at? p.pid.slot = some p)
      (hpid : p.pid = pid) (can : p.canRunOn cpu = true) :
      Dispatch pid b
        ((b.put { p with status := .running, cpu := some cpu, runs := p.runs + 1 }).setCpu cpu
          ⟨some p.pid, some p.pid.slot⟩)

end Board

/-- A process whose status is running is there and runs. -/
theorem Kernel.status_eq_running {k : Kernel} {pid : Pid} :
    k.status pid = .running ↔ k.board.Runs pid := by
  unfold Kernel.status
  constructor
  · intro h
    cases hp : k.procs.get? pid with
    | none => simp [hp] at h
    | some p =>
      obtain ⟨hat, rfl⟩ := ProcessTable.get?_eq_some.1 hp
      exact ⟨p, hat, rfl, by simpa [hp] using h⟩
  · rintro ⟨p, hp, rfl, run⟩
    have hget : k.procs.get? p.pid = some p := ProcessTable.get?_pid hp
    rw [hget]
    exact run

end SyncKernel
