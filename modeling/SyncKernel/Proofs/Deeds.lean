import SyncKernel.Proofs.Drift
import SyncKernel.Proofs.Fifo

/-!
# Deeds

Moves say what may happen to the board at all. A `Deed` says what one operation without messages
does to it as a whole: a sweep ends the calls that are over, a running process acts for itself, a
wake-up takes the first processes of one queue, a signal is sent, a process is destroyed and the
waiters of its locks are woken. A deed is made of moves (`Deed.moves`), it changes the futex queues
by one operation on them (`Deed.queue_eq`), and the record of a process after it is one of the few
that `Deed.Fate` lists (`Deed.fate`).
-/

namespace SyncKernel

/-- A signal that is to be sent to a process. -/
structure SignalRequest where
  /-- The process. -/
  target : Pid
  /-- The number of the signal. -/
  number : Nat
  /-- The value that goes along. -/
  value : UInt64
deriving DecidableEq

/-- The locks in the list that a process registered, as its memory has them. -/
def Process.locks (p : Process) (m : Memory) : List UInt64 :=
  match p.robust with
  | some list => m.robustLocks p.space list
  | none => []

/-- Whether a call is over depends on which processes are there. -/
theorem Process.Overdue.of_live {t t' : ProcessTable} {now : Millis} {p p' : Process}
    (h : p.Overdue t now p') (hlive : ∀ pid, t.Live pid ↔ t'.Live pid) : p.Overdue t' now p' := by
  cases h with
  | expired hr late => exact .expired hr late
  | forsaken hs gone => exact .forsaken hs fun live => gone ((hlive _).2 live)
  | gaveUp hs live late => exact .gaveUp hs ((hlive _).1 live) late

namespace Board

variable {b b' b₁ : Board} {p p' q : Process} {now : Millis} {i : Fin slotCount}
  {address : UInt64} {pid : Pid} {pids : List Pid} {locks : List UInt64}

/-- Of two records of one process the later one stays on the board. -/
theorem put_put (h : p.pid = p'.pid) : (b.put p).put p' = b.put p' := by
  rw [put, put, put, ProcessTable.put_put h]

/-! ## Calls that are over -/

/-- A lapse leaves a record or ends the call in which it is blocked. -/
theorem Lapse.at?_cases (m : Lapse now b b') (hq : b.procs.at? i = some q) :
    b'.procs.at? i = some q ∨ ∃ q', b'.procs.at? i = some q' ∧ q.Overdue b.procs now q' := by
  cases m with
  | @ended p p' hp ho =>
    by_cases hi : p'.pid.slot = i
    · subst hi
      rw [ho.pid] at hq
      cases hp.symm.trans hq
      exact .inr ⟨p', ProcessTable.at?_put_self, ho⟩
    · exact .inl ((ProcessTable.at?_put_of_ne hi).trans hq)

/-- The processes that are there and live stay so when a call on messages is ended. -/
theorem Lapse.live_iff (m : Lapse now b b') : b'.procs.Live pid ↔ b.procs.Live pid := by
  cases m with
  | @ended p p' hp ho =>
    have hget : (b.procs.put p').get? pid = if p'.pid = pid then some p' else b.procs.get? pid :=
      ProcessTable.get?_put (ho.pid ▸ hp) ho.pid.symm
    simp only [ProcessTable.Live, ProcessTable.lookup_eq_ok, Board.put, hget]
    by_cases hpid : p'.pid = pid
    · have hold : b.procs.get? pid = some p := by
        rw [← hpid, ho.pid]
        exact ProcessTable.get?_pid hp
      simp [hpid, hold, ho.blocked, ho.runnable]
    · simp [hpid]

/-- Calls on messages that end leave alone who is there and not dying. -/
theorem Lapses.live_iff (ms : Lapses now b b') : b'.procs.Live pid ↔ b.procs.Live pid := by
  induction ms with
  | refl => rfl
  | tail _ m ih => exact m.live_iff.trans ih

/-- A call that is ended among others was over when the first of them was: its process is not
blocked any more, so its record is not changed again. -/
theorem Lapses.at?_cases (ms : Lapses now b b') (hp : b.procs.at? i = some p) :
    b'.procs.at? i = some p ∨ ∃ p', b'.procs.at? i = some p' ∧ p.Overdue b.procs now p' := by
  induction ms with
  | refl => exact .inl hp
  | tail ms m ih =>
    obtain hq | ⟨q, hq, ho⟩ := ih
    · obtain hq' | ⟨q', hq', ho'⟩ := m.at?_cases hq
      · exact .inl hq'
      · exact .inr ⟨q', hq', ho'.of_live fun _ => Lapses.live_iff ms⟩
    · refine .inr ⟨q, ?_, ho⟩
      obtain hq' | ⟨q', -, ho'⟩ := m.at?_cases hq
      · exact hq'
      · have hb := ho'.blocked
        rw [ho.runnable] at hb
        cases hb

/-- Calls on messages that end leave the futex queues. -/
theorem Lapses.futexes (ms : Lapses now b b') : b'.futexes = b.futexes := by
  induction ms with
  | refl => rfl
  | tail _ m ih =>
    cases m with
    | ended _ _ => exact ih

/-! ## Wake-ups -/

/-- A wake-up takes the first process out of the queue. -/
theorem Wake.queue (h : Wake address pid b b') :
    b'.futexes.queue = b.futexes.queue.drop address 1 := by
  cases h with
  | first hq first _ _ => exact (FutexTable.queue_remove_first hq first).2

/-- Processes that are woken leave the queue of their address at the front. -/
theorem Wakes.queue (h : Wakes address pids b b') :
    b'.futexes.queue = b.futexes.queue.drop address pids.length := by
  induction h with
  | nil => simp
  | cons h _ ih => rw [ih, h.queue, Queues.drop_drop, List.length_cons, Nat.add_comm]

/-- A wake-up leaves the processes that are not blocked. -/
theorem Wake.at?_of_ne (h : Wake address pid b b') (hp : b.procs.at? i = some p)
    (hb : p.status ≠ .blocked) : b'.procs.at? i = some p := by
  cases h with
  | first _ _ hat hblocked =>
    refine (ProcessTable.at?_put_of_ne fun hi => hb ?_).trans hp
    rw [← hi] at hp
    cases hat.symm.trans hp
    exact hblocked

/-- Waking leaves a process that is not blocked. -/
theorem Wakes.at?_of_ne (h : Wakes address pids b b') (hp : b.procs.at? i = some p)
    (hb : p.status ≠ .blocked) : b'.procs.at? i = some p := by
  induction h with
  | nil => exact hp
  | cons h _ ih => exact ih (h.at?_of_ne hp hb)

/-- A wake-up leaves the processes that it is not about. -/
theorem Wake.at?_blocked (h : Wake address pid b b') (hp : b.procs.at? p.pid.slot = some p) :
    b'.procs.at? p.pid.slot =
      some (if p.pid = pid then { p with futex := none, status := .runnable } else p) := by
  cases h with
  | @first _ q before after hq _ hat _ =>
    by_cases hs : q.pid.slot = p.pid.slot
    · rw [hs] at hat
      cases hat.symm.trans hp
      rw [if_pos rfl]
      exact ProcessTable.at?_put_self (p := { p with futex := none, status := .runnable })
    · have hne : p.pid ≠ _ := fun he => hs (congrArg Pid.slot he).symm
      rw [if_neg hne]
      refine (ProcessTable.at?_put_of_ne ?_).trans hp
      exact hs

/-- Of the blocked processes exactly those of the list are woken. -/
theorem Wakes.at?_blocked (h : Wakes address pids b b') (hp : b.procs.at? p.pid.slot = some p) :
    b'.procs.at? p.pid.slot =
      some (if p.pid ∈ pids then { p with futex := none, status := .runnable } else p) := by
  induction h with
  | nil => simpa using hp
  | @cons b b₁ b' pid pids h hs ih =>
    have hp₁ := h.at?_blocked hp
    by_cases hpid : p.pid = pid
    · rw [if_pos hpid] at hp₁
      rw [if_pos (hpid ▸ List.mem_cons_self)]
      exact hs.at?_of_ne hp₁ nofun
    · rw [if_neg hpid] at hp₁
      rw [ih hp₁]
      simp [hpid]

/-- For each lock of a list in turn, the process that waits longest on it is woken, if any does. -/
inductive WakesEach : List UInt64 → Board → Board → Prop where
  | nil {b : Board} : WakesEach [] b b
  | cons {b b₁ b' : Board} {address : UInt64} {rest : List UInt64}
      (h : Wakes address ((b.futexes.queue address).take 1) b b₁) (hs : WakesEach rest b₁ b') :
      WakesEach (address :: rest) b b'

namespace WakesEach

/-- Waking the waiters of several locks consists of moves. -/
theorem moves (h : WakesEach locks b b') : Moves now b b' := by
  induction h with
  | nil => exact .refl
  | cons h _ ih => exact h.moves.trans ih

/-- For each lock of the list the first waiter leaves its queue. -/
theorem queue (h : WakesEach locks b b') :
    b'.futexes.queue = b.futexes.queue.dropEach locks := by
  induction h with
  | nil => rfl
  | cons h _ ih => rw [ih, h.queue, Queues.drop_length_take, Queues.dropEach]

/-- Waking the waiters of several locks leaves a process that is not blocked. -/
theorem at?_of_ne (h : WakesEach locks b b') (hp : b.procs.at? i = some p)
    (hb : p.status ≠ .blocked) : b'.procs.at? i = some p := by
  induction h with
  | nil => exact hp
  | cons h _ ih => exact ih (h.at?_of_ne hp hb)

/-- Of the processes that wait, those at the front of the queues of the locks are woken. -/
theorem at?_blocked (h : WakesEach locks b b') (hp : b.procs.at? p.pid.slot = some p) :
    b'.procs.at? p.pid.slot =
      some (if p.pid ∈ b.futexes.queue.firstEach locks
        then { p with futex := none, status := .runnable } else p) := by
  induction h with
  | nil => simpa [Queues.firstEach] using hp
  | @cons b b₁ b' address rest h hs ih =>
    have hp₁ := h.at?_blocked hp
    have hq₁ := h.queue
    rw [Queues.drop_length_take] at hq₁
    rw [Queues.firstEach, ← hq₁]
    by_cases hmem : p.pid ∈ (b.futexes.queue address).take 1
    · rw [if_pos hmem] at hp₁
      rw [if_pos (List.mem_append_left _ hmem)]
      exact hs.at?_of_ne hp₁ nofun
    · rw [if_neg hmem] at hp₁
      rw [ih hp₁]
      simp [hmem]

end WakesEach

namespace Sound

/-- Who stands in a queue is blocked. -/
theorem blocked_of_mem_queue (h : b.Sound) (hp : b.procs.at? p.pid.slot = some p)
    (hmem : p.pid ∈ b.futexes.queue address) : p.status = .blocked ∧ p.futex = some address := by
  obtain ⟨q, hget, hf⟩ := h.queues.mem_queue.1 hmem
  rw [ProcessTable.get?_pid hp] at hget
  cases hget
  exact ⟨(h.settled hp).blocked_of_waits (r := .futex) (by simp [Process.waits, hf]), hf⟩

/-- A process that is destroyed leaves the futex queues. -/
theorem queue_buried (h : b.Sound) (hp : b.procs.at? p.pid.slot = some p) :
    (b.buried p q).futexes.queue = b.futexes.queue.leave p.pid := by
  rw [buried]
  cases hf : p.futex with
  | none => exact (h.queues.queue_leave hp hf).symm
  | some a => exact h.queues.queue_unlink hp hf

end Sound

/-! ## Deeds -/

/-- What an operation without messages does to the board at time `now`. The operation is about the
process `subject`, or about none in particular, and sends the signal `sent`, if any; it finds the
memory `m` and leaves the memory `m'`. -/
inductive Deed (now : Millis) (subject : Option Pid) (sent : Option SignalRequest)
    (m m' : Memory) : FutexOp → Board → Board → Prop where
  /-- Calls that are over are ended, or nothing is done. -/
  | lapses {b b' : Board} (h : Lapses now b b') : Deed now subject sent m m' .none b b'
  /-- A running process changes its own record without blocking. -/
  | own {b : Board} {p p' : Process} (hp : b.procs.at? p.pid.slot = some p)
      (run : p.status = .running) (own : p.Own p') : Deed now subject sent m m' .none b (b.put p')
  /-- A running process gives up its processor. -/
  | yield {b : Board} {p : Process} (hp : b.procs.at? p.pid.slot = some p)
      (run : p.status = .running) :
      Deed now subject sent m m' .none b
        (b.put { p with frame := p.frame.setReturn 0, status := .runnable })
  /-- A running process blocks on a futex. -/
  | waitFutex {b : Board} {p : Process} (hp : b.procs.at? p.pid.slot = some p)
      (run : p.status = .running) (address : UInt64) :
      Deed now subject sent m m' (.wait p.pid address) b
        { b with
          procs := b.procs.put { p with
            futex := some address, status := .blocked, frame := p.frame.setReturn 0 }
          futexes := b.futexes.enqueue p.pid address }
  /-- A running process blocks until it is sent a signal. -/
  | waitSignal {b : Board} {p p' : Process} {m₁ m₂ : Memory} {accept : SignalSet}
      {destination : UInt64} (hp : b.procs.at? p.pid.slot = some p) (run : p.status = .running)
      (h : p.awaitSignal m₁ accept destination = (.ok none, p', m₂)) :
      Deed now subject sent m m' .none b (b.put p')
  /-- The processes that wait longest on an address are woken. -/
  | wakes {b b' : Board} (address : UInt64) (most : Nat)
      (h : Wakes address ((b.futexes.queue address).take most) b b') :
      Deed now subject sent m m' (.wake address most) b b'
  /-- A process is sent a signal. -/
  | signal {b : Board} {p p' : Process} {n : Nat} {value : UInt64} {a : Except Errno Sent}
      (hs : sent = some ⟨p.pid, n, value⟩) (hp : b.procs.at? p.pid.slot = some p)
      (live : p.status ≠ .dying) (h : p.Signalled m n value a p' m') (ha : a ≠ .ok .lost) :
      Deed now subject sent m m' .none b (b.put p')
  /-- The process that the operation is about is destroyed. -/
  | bury {b b' : Board} {p : Process} (hs : subject = some p.pid)
      (hp : b.procs.at? p.pid.slot = some p) (live : p.status ≠ .dying)
      (h : WakesEach (p.locks m) (b.buried p p) b') :
      Deed now subject sent m m' (.leave p.pid (p.locks m)) b b'
  /-- The process that the operation is about runs and is destroyed by a signal. -/
  | fatal {b b' : Board} {p q : Process} (hs : subject = some p.pid)
      (hp : b.procs.at? p.pid.slot = some p) (run : p.status = .running) (own : p.Own q)
      (h : WakesEach (p.locks m) ((b.put q).buried q q) b') :
      Deed now subject sent m m' (.leave p.pid (p.locks m)) b b'
  /-- A process is destroyed because it waits for the signal sent and cannot be told. -/
  | lost {b b' : Board} {p : Process} {wait : SignalWait} {n : Nat} {value : UInt64} {e : Errno}
      (hs : sent = some ⟨p.pid, n, value⟩) (hp : b.procs.at? p.pid.slot = some p)
      (live : p.status ≠ .dying) (hw : p.signal.wait = some wait) (hk : n ≠ killSignal)
      (ha : wait.accept.contains n = true)
      (hm : m.userWrite32 p.space wait.destination (UInt32.ofNat n) = .error e)
      (h : WakesEach (p.locks m) (b.buried p (p.leaveWait wait)) b') :
      Deed now subject sent m m' (.leave p.pid (p.locks m)) b b'

/-- A deed that changes the futex queues as expected. Where they are expected to stay as they are, a
process may be destroyed in it. -/
def Does (now : Millis) (subject : Option Pid) (sent : Option SignalRequest) (m m' : Memory)
    (expected : FutexOp) (b b' : Board) : Prop :=
  ∃ op, (op = expected ∨ expected = .none ∧ ∃ pid locks, op = .leave pid locks) ∧
    Deed now subject sent m m' op b b'

namespace Deed

variable {subject : Option Pid} {sent : Option SignalRequest} {m m' : Memory} {op : FutexOp}

/-- A deed with the operation on the futex queues that it has is one as expected. -/
theorem does (d : Deed now subject sent m m' op b b') : Does now subject sent m m' op b b' :=
  ⟨op, .inl rfl, d⟩

/-- A deed is made of moves. -/
theorem moves (d : Deed now subject sent m m' op b b') : Moves now b b' := by
  cases d with
  | lapses h => exact h.moves
  | own hp run own => exact .single (.own hp run own)
  | @yield _ p hp run =>
    have hput : (b.put { p with frame := p.frame.setReturn 0 }).put
        { p with frame := p.frame.setReturn 0, status := .runnable } =
        b.put { p with frame := p.frame.setReturn 0, status := .runnable } := put_put rfl
    have hyield : Move now (b.put { p with frame := p.frame.setReturn 0 }) _ :=
      .yield (p := { p with frame := p.frame.setReturn 0 }) ProcessTable.at?_put_self run
    rw [← hput]
    exact .head (.own hp run (.answer 0)) (.single hyield)
  | waitFutex hp run address => exact .single (.waitFutex hp run address)
  | waitSignal hp run h => exact .single (.waitSignal hp run h)
  | wakes _ _ h => exact h.moves
  | signal _ hp live h ha => exact .single (.signal hp live h ha)
  | bury _ hp live h => exact .head (.bury hp live (.inl rfl)) h.moves
  | @fatal _ _ p q _ hp run own h =>
    have hs := own.sameStanding
    refine .head (.own hp run own) (.head (.bury ?_ ?_ (.inl rfl)) h.moves)
    · exact ProcessTable.at?_put_self
    · simp [hs.status, run]
  | lost _ hp live hw _ _ _ h => exact .head (.bury hp live (.inr ⟨_, hw, rfl⟩)) h.moves

/-- A deed is one operation on the futex queues. -/
theorem queue_eq (d : Deed now subject sent m m' op b b') (h : b.Sound) :
    b'.futexes.queue = op.after b.futexes.queue := by
  cases d with
  | lapses hl => rw [hl.futexes]; rfl
  | own | yield | waitSignal | signal => rfl
  | waitFutex => exact FutexTable.queue_enqueue
  | wakes address most hw => rw [hw.queue, Queues.drop_length_take]; rfl
  | bury _ hp _ hw => rw [hw.queue, h.queue_buried hp]; rfl
  | @fatal _ _ p q _ hp run own hw =>
    have hpid := own.sameStanding.pid
    rw [hw.queue, (h.own hp run own).queue_buried ProcessTable.at?_put_self, hpid]
    rfl
  | lost _ hp _ _ _ _ _ hw => rw [hw.queue, h.queue_buried hp]; rfl

/-- What a deed may make of the record `p` of a process. -/
inductive Fate (b : Board) (now : Millis) (subject : Option Pid) (sent : Option SignalRequest)
    (m m' : Memory) (op : FutexOp) (p : Process) : Process → Prop where
  /-- It stays as it is. -/
  | same (h : p.pid ∉ op.woken b.futexes.queue) : Fate b now subject sent m m' op p p
  /-- The process runs, and changes its own record. -/
  | acts {p' : Process} (run : p.status = .running) (hpid : p'.pid = p.pid)
      (live : p'.status ≠ .dying) : Fate b now subject sent m m' op p p'
  /-- The call in which the process is blocked is over. -/
  | lapsed {p' : Process} (hop : op = .none) (h : p.Overdue b.procs now p') :
      Fate b now subject sent m m' op p p'
  /-- The process waits on a futex and is woken. -/
  | woken (hb : p.status = .blocked) (h : p.pid ∈ op.woken b.futexes.queue) :
      Fate b now subject sent m m' op p { p with futex := none, status := .runnable }
  /-- The process is sent a signal. -/
  | signalled {p' : Process} {n : Nat} {value : UInt64} {a : Except Errno Sent}
      (hop : op = .none) (hs : sent = some ⟨p.pid, n, value⟩)
      (h : p.Signalled m n value a p' m') (ha : a ≠ .ok .lost) :
      Fate b now subject sent m m' op p p'
  /-- The process is destroyed. -/
  | ended {p' : Process} (hop : op = .leave p.pid (p.locks m)) (hpid : p'.pid = p.pid)
      (dying : p'.status = .dying)
      (why : subject = some p.pid ∨ ∃ wait n value e, sent = some ⟨p.pid, n, value⟩ ∧
        p.signal.wait = some wait ∧ n ≠ killSignal ∧ wait.accept.contains n = true ∧
        m.userWrite32 p.space wait.destination (UInt32.ofNat n) = .error e) :
      Fate b now subject sent m m' op p p'

/-- No deed changes the id of a process. -/
theorem Fate.pid_eq {r r' : Process} (hf : Fate b now subject sent m m' op r r') :
    r'.pid = r.pid := by
  cases hf with
  | same | woken => rfl
  | acts _ hpid => exact hpid
  | lapsed _ ho => exact ho.pid
  | signalled _ _ h => exact h.pid
  | ended _ hpid => exact hpid

/-- If a deed replaces one record, that record has a fate and the others stay as they are. -/
theorem Fate.of_put (hq : b.procs.at? q.pid.slot = some q) (hpid : p'.pid = q.pid)
    (hop : op.woken b.futexes.queue = []) (hf : Fate b now subject sent m m' op q p')
    (hp : b.procs.at? p.pid.slot = some p) :
    ∃ p₁, (b.procs.put p').at? p.pid.slot = some p₁ ∧ Fate b now subject sent m m' op p p₁ := by
  by_cases hs : p'.pid.slot = p.pid.slot
  · have hs' := hs
    rw [hpid] at hs'
    rw [hs'] at hq
    cases hq.symm.trans hp
    exact ⟨p', hs ▸ ProcessTable.at?_put_self, hf⟩
  · exact ⟨p, (ProcessTable.at?_put_of_ne hs).trans hp, .same (by simp [hop])⟩

/-- If a deed destroys a process, the others have a fate. -/
theorem Fate.of_burial {b₁ : Board} {r : Process} (hw : WakesEach locks b₁ b') (h₁ : b₁.Sound)
    (hprocs : b₁.procs = b.procs.put r) (hpid : r.pid = pid)
    (hqueue : b₁.futexes.queue = b.futexes.queue.leave pid) (hs : pid.slot ≠ p.pid.slot)
    (hp : b.procs.at? p.pid.slot = some p) :
    ∃ p', b'.procs.at? p.pid.slot = some p' ∧
      Fate b now subject sent m m' (.leave pid locks) p p' := by
  have hp₁ : b₁.procs.at? p.pid.slot = some p := by
    rw [hprocs]
    exact (ProcessTable.at?_put_of_ne (hpid ▸ hs)).trans hp
  have hp' := hw.at?_blocked hp₁
  refine ⟨_, hp', ?_⟩
  rw [hqueue]
  split
  · next hmem =>
    obtain ⟨a, -, hmem'⟩ := Queues.exists_of_mem_firstEach hmem
    rw [← hqueue] at hmem'
    exact .woken (h₁.blocked_of_mem_queue hp₁ hmem').1 hmem
  · next hmem => exact .same hmem

/-- Every record has a fate in a deed. -/
theorem fate (d : Deed now subject sent m m' op b b') (h : b.Sound)
    (hp : b.procs.at? p.pid.slot = some p) :
    ∃ p', b'.procs.at? p.pid.slot = some p' ∧ Fate b now subject sent m m' op p p' := by
  cases d with
  | lapses hl =>
    obtain hp' | ⟨p', hp', ho⟩ := Lapses.at?_cases hl hp
    · exact ⟨p, hp', .same List.not_mem_nil⟩
    · exact ⟨p', hp', .lapsed rfl ho⟩
  | own hq run own =>
    have hs := own.sameStanding
    exact Fate.of_put hq hs.pid rfl (.acts run hs.pid (by simp [hs.status, run])) hp
  | yield hq run => exact Fate.of_put hq rfl rfl (.acts run rfl nofun) hp
  | waitFutex hq run address => exact Fate.of_put hq rfl rfl (.acts run rfl nofun) hp
  | waitSignal hq run hw =>
    obtain ⟨wait, mask, rfl⟩ := Process.awaitSignal_none hw
    exact Fate.of_put hq rfl rfl (.acts run rfl nofun) hp
  | wakes address most hw =>
    refine ⟨_, hw.at?_blocked hp, ?_⟩
    split
    · next hmem =>
      exact .woken (h.blocked_of_mem_queue hp (List.mem_of_mem_take hmem)).1 hmem
    · next hmem => exact .same hmem
  | signal hs hq live hsig ha => exact Fate.of_put hq hsig.pid rfl (.signalled rfl hs hsig ha) hp
  | @bury _ _ q hs hq live hw =>
    by_cases hi : q.pid.slot = p.pid.slot
    · rw [hi] at hq
      cases hq.symm.trans hp
      exact ⟨_, hw.at?_of_ne ProcessTable.at?_put_self nofun, .ended rfl rfl rfl (.inl hs)⟩
    · exact Fate.of_burial hw (h.bury hq (.inl rfl)) rfl rfl (h.queue_buried hq) hi hp
  | @fatal _ _ q r hs hq run own hw =>
    have hpid := own.sameStanding.pid
    have h₁ := h.own hq run own
    by_cases hi : q.pid.slot = p.pid.slot
    · rw [hi] at hq
      cases hq.symm.trans hp
      have hat : b'.procs.at? r.pid.slot = _ := hw.at?_of_ne ProcessTable.at?_put_self nofun
      rw [hpid] at hat
      exact ⟨_, hat, .ended rfl hpid rfl (.inl hs)⟩
    · have hqueue := h₁.queue_buried (q := r) ProcessTable.at?_put_self
      rw [hpid] at hqueue
      exact Fate.of_burial hw (h₁.bury ProcessTable.at?_put_self (.inl rfl))
        (ProcessTable.put_put rfl) hpid hqueue hi hp
  | @lost _ _ q wait n value e hs hq live hwait hk ha hm hw =>
    by_cases hi : q.pid.slot = p.pid.slot
    · rw [hi] at hq
      cases hq.symm.trans hp
      exact ⟨_, hw.at?_of_ne ProcessTable.at?_put_self nofun,
        .ended rfl rfl rfl (.inr ⟨wait, n, value, e, hs, hwait, hk, ha, hm⟩)⟩
    · exact Fate.of_burial hw (h.bury hq (.inr ⟨wait, hwait, rfl⟩)) rfl rfl (h.queue_buried hq) hi
        hp

/-- A process that dies in a deed is the one that leaves the queues. -/
theorem Fate.op_of_dying {r r' : Process} (hf : Fate b now subject sent m m' op r r')
    (live : r.status ≠ .dying) (dying : r'.status = .dying) : op = .leave r.pid (r.locks m) := by
  cases hf with
  | same => exact absurd dying live
  | acts _ _ live' => exact absurd dying live'
  | lapsed _ ho => cases ho.runnable.symm.trans dying
  | woken => cases dying
  | signalled _ _ h ha =>
    cases h with
    | refused | merged | queued => exact absurd dying live
    | interrupted | handed => cases dying
    | lost => exact absurd rfl ha
  | ended hop => exact hop

/-- A process that is blocked does not run after a deed. -/
theorem Fate.not_running {r r' : Process} (hf : Fate b now subject sent m m' op r r')
    (hb : r.status = .blocked) : r'.status ≠ .running := by
  cases hf with
  | same => simp [hb]
  | acts run => simp [hb] at run
  | lapsed _ ho => simp [ho.runnable]
  | woken => nofun
  | signalled _ _ h ha =>
    cases h with
    | refused | merged | queued => simp [hb]
    | interrupted | handed => nofun
    | lost => exact absurd rfl ha
  | ended _ _ dying => simp [dying]

/-- The process that leaves the queues in a deed dies in it. -/
theorem exists_of_leave (d : Deed now subject sent m m' (.leave pid locks) b b') :
    ∃ p p', b.procs.at? pid.slot = some p ∧ p.pid = pid ∧ p.status ≠ .dying ∧
      b'.procs.at? pid.slot = some p' ∧ p'.pid = pid ∧ p'.status = .dying := by
  generalize hop : FutexOp.leave pid locks = op at d
  cases d with
  | lapses | own | yield | waitFutex | waitSignal | wakes | signal => cases hop
  | bury _ hp live hw =>
    cases hop
    exact ⟨_, _, hp, rfl, live, hw.at?_of_ne ProcessTable.at?_put_self nofun, rfl, rfl⟩
  | @fatal _ _ p q _ hp run own hw =>
    cases hop
    have hpid := own.sameStanding.pid
    have hat : b'.procs.at? q.pid.slot = _ := hw.at?_of_ne ProcessTable.at?_put_self nofun
    rw [hpid] at hat
    exact ⟨p, _, hp, rfl, by simp [run], hat, hpid, rfl⟩
  | lost _ hp live _ _ _ _ hw =>
    cases hop
    exact ⟨_, _, hp, rfl, live, hw.at?_of_ne ProcessTable.at?_put_self nofun, rfl, rfl⟩

end Deed

/-- A deed as expected consists of moves. -/
theorem Does.moves {subject : Option Pid} {sent : Option SignalRequest} {m m' : Memory}
    {expected : FutexOp} (h : Does now subject sent m m' expected b b') : Moves now b b' := by
  obtain ⟨_, -, d⟩ := h
  exact d.moves

end Board

end SyncKernel
