import SyncKernel.Proofs.WakeUps

/-!
# Futexes wake in order of arrival

Seen from outside, each address has one queue of processes: a process that begins to wait is put at
its end, a wake-up takes processes from its front, and a process that is destroyed leaves it and
then wakes one process for each lock it held. `queuesAfter` are the queues that the moments of a run
make in this way, one operation each. Those of the futex table are the same (`Run.queue_eq`), and
what the kernel does in a moment is what it should do to them (`Moment.KeepsOrder`): counts are
right, the processes that are taken out become runnable, and the others go on waiting.
-/

namespace SyncKernel

open Board

/-- The queues of waiting processes after some moments, each of which did one operation to them;
before the first, nobody waits. -/
def queuesAfter (ms : List Moment) : Queues :=
  ms.foldl (fun q m => m.futexOp.after q) fun _ => []

/-- A moment does with the processes that wait on futexes what it should if they stand in the queues
`q` before it. -/
structure Moment.KeepsOrder (m : Moment) (q : Queues) : Prop where
  /-- A wake-up takes processes out of the queue of its address and counts them. -/
  wake : ∀ address most, m.event = .futexWake address most →
    m.futexOp = .wake address most ∧ m.answer = .counted (min most (q address).length)
  /-- So does one that a process calls for. -/
  wakeCall : ∀ pid args, m.event = .syscall pid → m.before.asked? pid = some (.futex, args) →
    args.a1 = 1 → m.futexOp = .wake args.a0 args.a2.toNat ∧
      m.answer = .served (.returned (UInt64.ofNat (min args.a2.toNat (q args.a0).length)))
  /-- A process that is blocked by a call on a futex waits on its address. -/
  waitCall : ∀ pid args, m.event = .syscall pid → m.before.asked? pid = some (.futex, args) →
    args.a1 = 0 → m.answer = .served .blocked → m.futexOp = .wait pid args.a0
  /-- A process that dies leaves the queues. -/
  leave : ∀ pid p, m.before.procs.get? pid = some p → p.status ≠ .dying →
    m.after.status pid = .dying → m.futexOp = .leave pid (p.locks m.before.memory)
  /-- So does one that is destroyed by request. -/
  destroy : ∀ pid, m.event = .destroy pid → m.answer = .replied (.ok ()) →
    ∃ p, m.before.procs.get? pid = some p ∧ m.futexOp = .leave pid (p.locks m.before.memory)
  /-- The processes that are woken waited and become runnable; their calls answer 0. -/
  woken : ∀ pid ∈ m.futexOp.woken q, ∃ p, m.before.procs.get? pid = some p ∧
    p.status = .blocked ∧ p.frame.get .a0 = 0 ∧
    m.after.procs.get? pid = some { p with futex := none, status := .runnable }
  /-- The other processes that wait go on waiting, unless they are destroyed; an operation on the
  queues does not touch them at all. -/
  spared : ∀ pid p address, m.before.procs.get? pid = some p → p.futex = some address →
    pid ∉ m.futexOp.woken q → (∀ locks, m.futexOp ≠ .leave pid locks) →
    ∃ p', m.after.procs.get? pid = some p' ∧ p.StaysBlocked p' ∧ (m.futexOp ≠ .none → p' = p)

/-- A process that is destroyed by request was there and is dying afterwards. -/
theorem Event.destroyed {k : Kernel} (h : k.board.Sound) (pid : Pid) :
    Step.Ends (Event.destroy pid).perform k fun a k' => a = .replied (.ok ()) →
      k.procs.Live pid ∧ ∃ p, k'.procs.get? pid = some p ∧ p.status = .dying :=
  Step.ends_map.2 ((Kernel.destroy_did h pid).mono fun a k' ⟨_, hd⟩ heq => by
    cases heq
    exact hd rfl)

section
variable {m : Moment} {p : Process} {pid : Pid}

namespace Moment

/-- The queues of the table change in a moment as its operation says. -/
theorem Course.queue_eq (c : m.Course) (sound : m.before.board.Sound) :
    m.after.futexes.queue = m.futexOp.after m.before.futexes.queue := by
  have same : m.futexOp = .none → m.after.board.futexes = m.before.board.futexes →
      m.after.futexes.queue = m.futexOp.after m.before.futexes.queue := by
    intro hop hf
    rw [hop]
    exact congrArg FutexTable.queue hf
  cases c with
  | deed d hr _ _ => exact (congrArg FutexTable.queue hr.futexes).trans (d.queue_eq sound)
  | turnover hop h => exact same hop h.futexes
  | idle hop hl hb => exact same hop ((congrArg Board.futexes hb).trans hl.futexes)
  | dispatch hop _ _ hl hd => exact same hop (hd.futexes.trans hl.futexes)
  | asks hop h => exact same hop h.futexes
  | sent hop _ hf _ | received hop _ hf _ => exact same hop hf

/-- What is asked for is done. -/
theorem Course.futexOp_eq (c : m.Course) (h : m.askedOp ≠ .none) : m.futexOp = m.askedOp := by
  cases c with
  | deed _ _ asked _ => exact asked h
  | turnover hop _ | idle hop _ _ | dispatch hop _ _ _ _ | asks hop _ | sent hop _ _ _
  | received hop _ _ _ => exact absurd (futexOp_eq_none hop) h

/-- A wake-up that is asked for counts. -/
theorem Course.counts (c : m.Course) {address : UInt64} {most : Nat}
    (h : m.askedOp = .wake address most) :
    m.futexOp = .wake address most ∧
      m.Counts (min most (m.before.futexes.queue address).length) := by
  refine ⟨(c.futexOp_eq (by simp [h])).trans h, ?_⟩
  cases c with
  | deed _ _ _ count => exact count _ _ h
  | turnover hop _ | idle hop _ _ | dispatch hop _ _ _ _ | asks hop _ | sent hop _ _ _
  | received hop _ _ _ => cases (futexOp_eq_none hop).symm.trans h

/-- A process that dies leaves the queues, and nobody else does. -/
theorem Course.futexOp_of_dies (c : m.Course) (sound : m.before.board.Sound)
    (hp : m.before.board.procs.at? p.pid.slot = some p) (live : p.status ≠ .dying)
    (dying : m.after.status p.pid = .dying) :
    m.futexOp = .leave p.pid (p.locks m.before.memory) := by
  have hne : m.futexOp ≠ .none := by
    intro hop
    rw [futexOp] at hop
    split at hop
    · cases hop
    · next hnone => exact ended?_isSome hp rfl live dying hnone
  cases c with
  | @deed b d hr _ _ =>
    obtain ⟨p', hp', hf⟩ := d.fate sound hp
    obtain ⟨p'', hp'', -, hd⟩ := Kernel.exists_of_status dying
    obtain ⟨q, hq, -, hdq⟩ := hr.noneDies _ _ hp'' hd
    cases hp'.symm.trans hq
    exact hf.op_of_dying live hdq
  | turnover hop _ | idle hop _ _ | dispatch hop _ _ _ _ | asks hop _ | sent hop _ _ _
  | received hop _ _ _ => exact absurd hop hne

/-- An operation on the queues makes the processes that it wakes runnable, and leaves the others
that are blocked and are not destroyed. -/
theorem Course.at?_of_op (c : m.Course) (sound : m.before.board.Sound)
    (hp : m.before.board.procs.at? p.pid.slot = some p) (hb : p.status = .blocked)
    (hop : m.futexOp ≠ .none) (stays : ∀ locks, m.futexOp ≠ .leave p.pid locks) :
    m.after.board.procs.at? p.pid.slot =
      some (if p.pid ∈ m.futexOp.woken m.before.futexes.queue
        then { p with futex := none, status := .runnable } else p) := by
  cases c with
  | @deed b d hr _ _ =>
    obtain ⟨p', hp', hf⟩ := d.fate sound hp
    rw [hr.at?_of_ne hp' (hf.not_running hb)]
    cases hf with
    | same h =>
      rw [if_neg]
      exact h
    | woken _ h =>
      rw [if_pos]
      exact h
    | acts run => cases hb.symm.trans run
    | lapsed hnone | signalled hnone => exact absurd hnone hop
    | ended hleave => exact absurd hleave (stays _)
  | turnover hnone _ | idle hnone _ _ | dispatch hnone _ _ _ _ | asks hnone _ | sent hnone _ _ _
  | received hnone _ _ _ => exact absurd hnone hop

/-- A process that waits on a futex is woken only by a wake-up of the futex. -/
theorem EndsCall.taken_of_futex {word : UInt64} (h : m.EndsCall p word) (hs : p.Settled)
    (hf : p.waits .futex = true) : p.pid ∈ m.futexOp.woken m.before.futexes.queue := by
  have other : ∀ r, .futex ≠ r → p.waits r ≠ true := fun r hne =>
    Bool.eq_false_iff.1 (hs.waits_eq_false_of_ne hf hne)
  cases h with
  | futex _ _ taken => exact taken
  | message wait | noMessage wait => exact absurd wait.2 (other .receive nofun)
  | sent wait | noTarget wait | notSent wait => exact absurd wait.2.1 (other .send nofun)
  | signal hw | interrupted hw =>
    exact absurd (by simp [Process.waits, hw]) (other .signal nofun)

/-- Processes that are woken become runnable. -/
theorem Course.woken (c : m.Course) (sound : m.before.board.Sound)
    (h : pid ∈ m.futexOp.woken m.before.futexes.queue) :
    ∃ p, m.before.procs.get? pid = some p ∧ p.status = .blocked ∧ p.frame.get .a0 = 0 ∧
      m.after.procs.get? pid = some { p with futex := none, status := .runnable } := by
  obtain ⟨a, -, hmem⟩ := FutexOp.exists_of_mem_woken h
  obtain ⟨p, hget, hf⟩ := sound.queues.mem_queue.1 hmem
  obtain ⟨hp, rfl⟩ := ProcessTable.get?_eq_some.1 hget
  have hb := (sound.blocked_of_mem_queue hp hmem).1
  have hzero := (sound.settled hp).answer (by simp [hf])
  have hop : m.futexOp ≠ .none := by
    intro hop
    rw [hop] at h
    cases h
  have stays : ∀ locks, m.futexOp ≠ .leave p.pid locks := by
    intro locks hleave
    rw [hleave] at h
    exact FutexOp.not_mem_woken_leave sound.queues.queue_nodup locks h
  have hp' := c.at?_of_op sound hp hb hop stays
  rw [if_pos h] at hp'
  exact ⟨p, hget, hb, hzero, ProcessTable.get?_eq_some.2 ⟨hp', rfl⟩⟩

/-- The others that wait go on waiting. -/
theorem Course.spared (c : m.Course) (sound : m.before.board.Sound)
    (allowed : m.event.Allowed m.before) (sound' : m.after.board.Sound)
    (hp : m.before.board.procs.at? p.pid.slot = some p) (hf : p.waits .futex = true)
    (h : p.pid ∉ m.futexOp.woken m.before.futexes.queue)
    (stays : ∀ locks, m.futexOp ≠ .leave p.pid locks) :
    ∃ p', m.after.procs.get? p.pid = some p' ∧ p.StaysBlocked p' ∧
      (m.futexOp ≠ .none → p' = p) := by
  have hs := sound.settled hp
  have hb := hs.blocked_of_waits hf
  by_cases hop : m.futexOp = .none
  · obtain ⟨p', hp', hpid, sequel⟩ := c.sequel sound allowed sound' hp hb
    refine ⟨p', ProcessTable.get?_eq_some.2 ⟨hp', hpid⟩, ?_, absurd hop⟩
    cases sequel with
    | stays hstays => exact hstays
    | dies dying =>
      have hstatus := (Kernel.status_of_at? hp' hpid).trans dying
      exact absurd (c.futexOp_of_dies sound hp (by simp [hb]) hstatus) (stays _)
    | wakes _ _ _ ends => exact absurd (ends.taken_of_futex hs hf) h
  · have hp' := c.at?_of_op sound hp hb hop stays
    rw [if_neg h] at hp'
    exact ⟨p, ProcessTable.get?_eq_some.2 ⟨hp', rfl⟩, .refl hb, fun _ => rfl⟩

/-- In its course a moment does what it should to the queues of the table. -/
theorem Course.keepsOrder (c : m.Course) (sound : m.before.board.Sound)
    (allowed : m.event.Allowed m.before) (sound' : m.after.board.Sound)
    (effect : Effect m.before m.event m.answer m.after)
    (step : m.event.perform m.before = .ok m.answer m.after) :
    m.KeepsOrder m.before.futexes.queue where
  wake address most he := by
    have hask : m.askedOp = .wake address most := by
      rw [askedOp_of_ne (by simp [he]), he]
      rfl
    obtain ⟨hop, hcount⟩ := c.counts hask
    rw [Counts, he] at hcount
    exact ⟨hop, hcount⟩
  wakeCall pid args he hcall h1 := by
    rw [he] at effect
    obtain ⟨o, ha⟩ := effect.served_of_syscall
    have hask : m.askedOp = .wake args.a0 args.a2.toNat := by
      rw [askedOp, he, ha]
      simp [hcall, Syscall.futexOp, SyscallArgs.futexOp, h1]
    obtain ⟨hop, hcount⟩ := c.counts hask
    rw [Counts, he] at hcount
    exact ⟨hop, hcount⟩
  waitCall pid args he hcall h0 ha := by
    have hask : m.askedOp = .wait pid args.a0 := by
      rw [askedOp, he, ha]
      simp [hcall, Syscall.futexOp, SyscallArgs.futexOp, h0]
    rw [← hask]
    exact c.futexOp_eq (by simp [hask])
  leave pid p hget live dying := by
    obtain ⟨hp, rfl⟩ := ProcessTable.get?_eq_some.1 hget
    exact c.futexOp_of_dies sound hp live dying
  destroy pid he ha := by
    rw [he] at step
    obtain ⟨⟨p, hl⟩, p', hget', dying⟩ := (Event.destroyed sound pid).of_eq step ha
    obtain ⟨hget, live⟩ := ProcessTable.lookup_eq_ok.1 hl
    obtain ⟨hp, rfl⟩ := ProcessTable.get?_eq_some.1 hget
    obtain ⟨hp', hpid⟩ := ProcessTable.get?_eq_some.1 hget'
    have hstatus := (Kernel.status_of_at? hp' hpid).trans dying
    exact ⟨p, hget, c.futexOp_of_dies sound hp live hstatus⟩
  woken pid := c.woken sound
  spared pid p address hget hf h stays := by
    obtain ⟨hp, rfl⟩ := ProcessTable.get?_eq_some.1 hget
    exact c.spared sound allowed sound' hp (by simp [Process.waits, hf]) h stays

end Moment

end

namespace Run

variable {clock : Clock} {ms : List Moment} {k : Kernel}

/-- The queues of the futex table are those that the moments of the run make. -/
theorem queue_eq (run : Run (.boot clock) ms k) : k.futexes.queue = queuesAfter ms := by
  induction run with
  | nil => exact FutexTable.queue_empty
  | @snoc ms k k' e a run allowed step ih =>
    obtain ⟨sound, -, course⟩ :=
      (Run.snoc run allowed step).course (List.getElem?_concat_length (l := ms))
    rw [queuesAfter, List.foldl_append]
    exact (course.queue_eq sound).trans (congrArg _ ih)

/-- The futex table is one queue for each address: after the moments of a run its counts are those
of the queues that the moments make, and each moment does what it should if these are the queues. -/
theorem futex_order (run : Run (.boot clock) ms k) :
    (∀ address, k.futexes.waiters address = (queuesAfter ms address).length) ∧
    (∀ pid, k.futexes.isQueued pid = true ↔ ∃ address, pid ∈ queuesAfter ms address) ∧
    (Function.support fun address => (queuesAfter ms address).length).Finite ∧
    k.futexes.total = ∑ᶠ address, (queuesAfter ms address).length ∧
    ∀ (i : Nat) (m : Moment), ms[i]? = some m → m.KeepsOrder (queuesAfter (ms.take i)) := by
  have hq : k.futexes.Matches k.procs := run.sound.queues
  simp only [← run.queue_eq]
  refine ⟨fun address => FutexTable.waiters_eq, fun pid => hq.isQueued_iff,
    (Finset.finite_toSet _).subset hq.support_subset, hq.total_eq, fun i m hm => ?_⟩
  obtain ⟨run', allowed, step⟩ := run.before hm
  obtain ⟨-, -, effect⟩ := run.effect hm
  obtain ⟨sound, sound', course⟩ := run.course hm
  rw [← run'.queue_eq]
  exact course.keepsOrder sound allowed sound' effect step

/-- Two processes wait on one address and a third one waits on the address next to it, which is in
the same eight bytes. Then the first address is woken once. -/
def waitOnNeighbours : List Event :=
  let waiter (address : UInt64) : Event :=
    .spawn 0 (((TrapFrame.newUser 0x1000 0x2000).set .a7 98).set .a0 address)
  [.memory (Memory.mapPage {} 0 .userReadWrite 1), waiter 0x1000, waiter 0x1004, waiter 0x1000,
    .schedule 0, .syscall (.ofSlot 1 0), .schedule 0, .syscall (.ofSlot 1 1), .schedule 0,
    .syscall (.ofSlot 1 2), .futexWake 0x1000 1]

/-- The process that came first becomes runnable. -/
theorem futex_order_of_waitOnNeighbours :
    ∃ ms k, play (.boot default) waitOnNeighbours = some (ms, k) ∧
      k.futexes.waiters 0x1000 = 1 ∧ k.futexes.waiters 0x1004 = 1 ∧ ∃ m, ms[10]? = some m ∧
        m.answer = .counted 1 ∧ ∃ p, m.before.procs.get? (.ofSlot 1 0) = some p ∧
          m.after.procs.get? (.ofSlot 1 0) =
            some { p with futex := none, status := .runnable } := by
  have hplay : (play (.boot default) waitOnNeighbours).any (fun r =>
      queuesAfter r.1 0x1000 = [.ofSlot 1 2] ∧ queuesAfter r.1 0x1004 = [.ofSlot 1 1] ∧
        queuesAfter (r.1.take 10) 0x1000 = [.ofSlot 1 0, .ofSlot 1 2] ∧
        r.1[10]?.any fun m => m.event.futexOp = .wake 0x1000 1) = true := by
    decide +kernel
  obtain ⟨⟨ms, k⟩, h, hr⟩ := (Option.any_eq_true _ _).1 hplay
  obtain ⟨hq, hq', hq₀, hm⟩ := of_decide_eq_true hr
  obtain ⟨m, hm, he⟩ := (Option.any_eq_true _ _).1 hm
  obtain ⟨hcount, -, -, -, horder⟩ := futex_order (Run.of_play h)
  have order := horder 10 m hm
  obtain ⟨hop, hanswer⟩ := order.wake _ _ (Moment.eq_futexWake (of_decide_eq_true he))
  have hwoken : Pid.ofSlot 1 0 ∈ m.futexOp.woken (queuesAfter (ms.take 10)) := by
    rw [hop, FutexOp.woken, hq₀]
    decide
  obtain ⟨p, hp, -, -, hp'⟩ := order.woken _ hwoken
  rw [hq₀] at hanswer
  refine ⟨ms, k, h, ?_, ?_, m, hm, hanswer, p, hp, hp'⟩
  · rw [hcount, hq]
    rfl
  · rw [hcount, hq']
    rfl

end Run

end SyncKernel
