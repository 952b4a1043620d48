import SyncKernel.Proofs.Reachable
import SyncKernel.Proofs.Leading
import SyncKernel.Proofs.Writes

/-!
# The death of a process

What destroying a process does to everything there is (`Kernel.Buried`). Its record is dying and
waits for nothing; the locks in its list that it owns are given back, one after the other, and no
other byte of user memory changes; its node leaves the futex queues, and then, for each lock of the
list in turn, whoever waits longest on it is woken. The order of these phases shows in the
statement: the list is the one that stood in memory before any lock was marked, and the process does
not wake itself, since it has left its queue by then.

The board is told by `Kernel.destroy_ends` and the memory by `Kernel.destroy_released`, which holds
of kernels that no run leads to as well. That no other node moves is seen from the queues
themselves (`Board.WakesEach.bucket`).
-/

namespace SyncKernel

open Board Step

/-! ## Operations that leave the memory -/

namespace Step

variable {α β : Type}

/-- Whatever kernel it starts from, the operation leaves the memory. -/
def SparesMemory (x : Step α) : Prop :=
  ∀ k, Leaves x k fun _ k' => k'.memory = k.memory

namespace SparesMemory

protected theorem pure (a : α) : SparesMemory (pure a : Step α) :=
  fun _ => leaves_pure.2 rfl

theorem note (n : Notice) : SparesMemory (note n) :=
  fun _ => leaves_note.2 rfl

/-- What leaves the memory step by step leaves it as a whole. -/
protected theorem bind {x : Step α} {f : α → Step β} (hx : SparesMemory x)
    (hf : ∀ a, SparesMemory (f a)) : SparesMemory (x >>= f) := fun k =>
  leaves_bind.2 ((hx k).mono fun a k₁ h => (hf a k₁).mono fun _ _ h' => h'.trans h)

theorem discard {x : Step α} (hx : SparesMemory x) : SparesMemory (discard x) :=
  fun k => leaves_discard.2 (hx k)

end SparesMemory

end Step

/-- The locks in the list of a process are aligned words. -/
theorem Process.aligned_of_mem_locks {p : Process} {m : Memory} {va : UInt64}
    (h : va ∈ p.locks m) : va.toNat % 4 = 0 := by
  unfold Process.locks at h
  split at h
  · exact Memory.aligned_of_mem_walkRobust h
  · cases h

/-- Waking processes leaves the memory. -/
theorem Population.wakeQueue_memory (address : UInt64) (queue : List Waiter) :
    ∀ (most : Nat) (w : Population),
      (wakeQueue address most queue w).2.2.memory = w.memory := by
  induction queue with
  | nil =>
    intro most w
    cases most <;> rfl
  | cons x queue ih =>
    intro most w
    cases most with
    | zero => rfl
    | succ most =>
      rw [wakeQueue]
      split
      · exact ih _ w
      split
      · exact ih _ w
      split
      · next p _ _ => exact ih _ (w.put { p with futex := none, status := .runnable })
      · next p _ _ => exact ih _ ((w.put { p with futex := none }).note _)

namespace Kernel

/-- Waking waiters leaves the memory. -/
theorem spares_futexWake (address : UInt64) (most : Nat) :
    SparesMemory (futexWake address most) := fun k => by
  have hw := Population.wakeQueue_memory address (k.futexes.bucket address) most k.toPopulation
  rw [futexWake, leaves_bind, leaves_get, leaves_bind, leaves_set, leaves_pure]
  rw [Population.futexWake]
  dsimp only
  split <;> exact hw

/-- Taking a process out of a queue leaves the memory. -/
theorem spares_futexUnlink (pid : Pid) (address : UInt64) :
    SparesMemory (futexUnlink pid address) := fun k => by
  rw [futexUnlink, leaves_bind, leaves_get, leaves_bind, leaves_set, leaves_pure]

/-- Waking the waiters of a list of locks leaves the memory. -/
theorem spares_wakeLocks (locks : List UInt64) : SparesMemory (wakeLocks locks) := by
  induction locks with
  | nil => exact .pure _
  | cons address rest ih => exact .bind (spares_futexWake address 1) fun _ => ih

/-- Taking a process from its processor leaves the memory. -/
theorem spares_leaveCpu (pid : Pid) (cpu : Option Nat) : SparesMemory (leaveCpu pid cpu) :=
  fun k => by
  unfold leaveCpu
  split
  · exact leaves_pure.2 rfl
  · rw [leaves_bind, leaves_get]
    split
    · split
      · exact leaves_set.2 rfl
      · exact leaves_pure.2 rfl
    · exact leaves_throw.2 trivial

/-! ## The locks of a process -/

variable {k : Kernel}

/-- Marking locks gives back those that the process owns. -/
theorem markLocks_released (space : SpaceId) (pid : Pid) (locks : List UInt64)
    (aligned : ∀ va ∈ locks, va.toNat % 4 = 0) : ∀ k,
    Leaves (markLocks space pid locks) k fun _ k' =>
      Memory.Released space pid locks k.memory k'.memory := by
  induction locks with
  | nil => exact fun k => leaves_pure.2 .nil
  | cons va rest ih =>
    intro k
    have hva := aligned va List.mem_cons_self
    have ih := ih fun a ha => aligned a (.tail _ ha)
    rw [markLocks, leaves_bind, leaves_get]
    split
    · next m hm =>
      obtain ⟨word, owned, marked⟩ := Memory.markOwnerDied?_eq_some hva hm
      rw [leaves_bind, leaves_set, leaves_bind, leaves_note]
      exact (ih (({ k with memory := m } : Kernel).noted _)).mono fun _ k' h => .mark owned marked h
    · next hm => exact (ih k).mono fun _ k' h => .skip (Memory.markOwnerDied?_eq_none hva hm) h

/-- Destroying a process gives back the locks in its list that it owns, and writes nothing else. -/
theorem destroy_released {pid : Pid} {p : Process} (hp : k.procs.lookup pid = .ok p) :
    Leaves (destroy pid) k fun _ k' =>
      Memory.Released p.space pid (p.locks k.memory) k.memory k'.memory := by
  rw [destroy, leaves_bind, leaves_get, hp]
  dsimp only
  rw [leaves_bind]
  refine (markLocks_released p.space pid (p.locks k.memory)
    (fun _ => Process.aligned_of_mem_locks) k).mono fun _ k₁ hk₁ => ?_
  -- from here on the memory stays
  have rest : ∀ {α : Type} {x : Step α}, SparesMemory x → Leaves x k₁ fun _ k' =>
      Memory.Released p.space pid (p.locks k.memory) k.memory k'.memory :=
    fun hx => (hx k₁).mono fun _ k' h => h ▸ hk₁
  have woken : SparesMemory (do
      wakeLocks (p.locks k.memory)
      note (.destroyed pid)
      return (.ok () : Except Errno Unit)) :=
    .bind (spares_wakeLocks _) fun _ => .bind (.note _) fun _ => .pure _
  refine rest (.bind (spares_leaveCpu pid p.cpu) fun _ => .bind (fun _ => leaves_modify.2 rfl)
    fun _ => ?_)
  split
  · exact .bind (.discard (spares_futexUnlink _ _)) fun _ => woken
  · exact woken

end Kernel

/-! ## The nodes of the others -/

/-- Taking the node of a process out of its queue leaves the nodes of all others. -/
theorem FutexTable.Matches.bucket_remove {t : FutexTable} {procs : ProcessTable} {p : Process}
    {address : UInt64} {before after : List Waiter} (h : t.Matches procs)
    (hp : procs.at? p.pid.slot = some p)
    (hq : t.bucket address = before ++ ⟨p.pid, address⟩ :: after) (c : UInt64) :
    (t.setBucket address (before ++ after)).bucket c =
      (t.bucket c).filter fun x => x.pid ≠ p.pid := by
  rw [bucket_setBucket]
  -- every node of the process is the one that is taken out
  have hnode : ∀ x ∈ t.bucket c, x.pid = p.pid → x = ⟨p.pid, address⟩ :=
    fun x => h.eq_of_mem hp (h.futex_of_split hp hq)
  split
  · next hb =>
    have hbucket : t.bucket c = before ++ ⟨p.pid, address⟩ :: after := by
      rw [← hq]
      exact bucket_congr hb.symm
    have hnot : ∀ x ∈ before ++ after, x.pid ≠ p.pid := by
      intro x hx hpid
      have hnd := List.nodup_middle.1 (hbucket ▸ h.nodup c)
      refine (List.nodup_cons.1 hnd).1 ?_
      rw [← hnode x (by rw [hbucket]; grind) hpid]
      exact hx
    have hkeep : (before ++ after).filter (fun x => x.pid ≠ p.pid) = before ++ after :=
      List.filter_eq_self.2 fun x hx => by simpa using hnot x hx
    rw [hbucket, ← hkeep]
    simp
  · next hb =>
    refine (List.filter_eq_self.2 fun x hx => ?_).symm
    by_contra hpid
    have hpid : x.pid = p.pid := by simpa using hpid
    have hmem := (h.mem_iff c x).1 hx
    rw [hnode x hx hpid] at hmem
    exact hb hmem.1

namespace Board

variable {b b' : Board} {address : UInt64} {pid : Pid} {pids : List Pid} {locks : List UInt64}
  {p q : Process}

/-- Waking a process takes its node out of whatever bucket it is in. -/
theorem Wake.bucket (h : Wake address pid b b') (sound : b.Sound) (c : UInt64) :
    b'.futexes.bucket c = (b.futexes.bucket c).filter fun x => x.pid ≠ pid := by
  cases h with
  | first hq _ hp _ => exact sound.queues.bucket_remove hp hq c

/-- Waking processes takes their nodes out of the buckets. -/
theorem Wakes.bucket (h : Wakes address pids b b') (sound : b.Sound) (c : UInt64) :
    b'.futexes.bucket c = (b.futexes.bucket c).filter fun x => x.pid ∉ pids := by
  induction h with
  | nil => simp
  | cons h _ ih =>
    rw [ih (h.sound sound), h.bucket sound c, List.filter_filter]
    refine List.filter_congr fun x _ => ?_
    simp [Bool.and_comm]

/-- The nodes that go when processes are woken are theirs. -/
theorem WakesEach.bucket (h : WakesEach locks b b') (sound : b.Sound) (c : UInt64) :
    b'.futexes.bucket c =
      (b.futexes.bucket c).filter fun x => x.pid ∉ b.futexes.queue.firstEach locks := by
  induction h with
  | nil => simp [Queues.firstEach]
  | @cons b b₁ b' address rest h _ ih =>
    have hqueue := h.queue
    rw [Queues.drop_length_take] at hqueue
    have hmoves : Moves 0 b b₁ := h.moves
    rw [ih (hmoves.sound sound), h.bucket sound c, List.filter_filter, hqueue]
    refine List.filter_congr fun x _ => ?_
    simp [Queues.firstEach, Bool.and_comm]

/-- Waking processes leaves the processors. -/
theorem Wakes.cpus (h : Wakes address pids b b') : b'.cpus = b.cpus := by
  induction h with
  | nil => rfl
  | cons h _ ih =>
    cases h
    exact ih

/-- Waking processes leaves the processors. -/
theorem WakesEach.cpus (h : WakesEach locks b b') : b'.cpus = b.cpus := by
  induction h with
  | nil => rfl
  | cons h _ ih => exact ih.trans h.cpus

/-- A process that is destroyed takes its own nodes with it. -/
theorem Sound.bucket_buried (h : b.Sound) (hp : b.procs.at? p.pid.slot = some p) (c : UInt64) :
    (b.buried p q).futexes.bucket c = (b.futexes.bucket c).filter fun x => x.pid ≠ p.pid := by
  rw [buried]
  cases hf : p.futex with
  | none =>
    refine (List.filter_eq_self.2 fun x hx => ?_).symm
    by_contra hpid
    have hpid : x.pid = p.pid := by simpa using hpid
    obtain ⟨-, r, hr, hfr⟩ := (h.queues.mem_iff c x).1 hx
    rw [hpid, ProcessTable.get?_pid hp] at hr
    cases hr
    cases hf.symm.trans hfr
  | some address =>
    obtain ⟨before, after, hq, hunlink⟩ := h.queues.unlink_eq hp hf
    rw [futexesWithout, hunlink]
    exact h.queues.bucket_remove hp hq c

end Board

/-! ## Everything together -/

/-- The processes that are woken when a process dies: for each lock in its list in turn, the one
that waits longest on it, the dying process itself having left. -/
def Kernel.heirs (k : Kernel) (p : Process) : List Pid :=
  (k.futexes.queue.leave p.pid).firstEach (p.locks k.memory)

/-- The kernel after the death of the process `p`. -/
structure Kernel.Buried (k : Kernel) (p : Process) (k' : Kernel) : Prop where
  /-- The process is dying; it runs nowhere, waits for nothing and holds no list of locks. -/
  record : k'.procs.get? p.pid = some { p with
    status := .dying
    receive := { p.receive with receiving := false, deadline := none }
    send := {}
    signal := { p.signal with wait := none }
    futex := none
    robust := none
    cpu := none }
  /-- Of the other processes those that are woken are runnable and wait on no futex. -/
  others : ∀ i, i ≠ p.pid.slot → k'.procs.at? i = (k.procs.at? i).map fun q =>
    if q.pid ∈ k.heirs p then { q with futex := none, status := .runnable } else q
  /-- The nodes of the process and of those that are woken are gone. -/
  nodes : ∀ address, k'.futexes.bucket address =
    (k.futexes.bucket address).filter fun x => x.pid ≠ p.pid ∧ x.pid ∉ k.heirs p
  /-- The processor on which the process ran has no current process. -/
  cpus : ∀ c : Fin cpuCount, k'.cpus.get c =
    if p.cpu = some c.val ∧ (k.cpus.get c).current = some p.pid
    then { k.cpus.get c with current := none } else k.cpus.get c
  /-- The locks that the process owned are given back. -/
  memory : Memory.Released p.space p.pid (p.locks k.memory) k.memory k'.memory
  /-- The clock and the time of the last sweep are the same. -/
  times : k'.clock = k.clock ∧ k'.lastSweep = k.lastSweep

namespace Kernel

variable {k k' : Kernel} {p : Process}

/-- The processors after a process left the one it ran on. -/
theorem get_cpusWithout {b : Board} {cpu : Option Nat} (h : ∀ c, cpu = some c → c < cpuCount)
    (pid : Pid) (c : Fin cpuCount) :
    (b.cpusWithout pid cpu).get c =
      if cpu = some c.val ∧ (b.cpus.get c).current = some pid
      then { b.cpus.get c with current := none } else b.cpus.get c := by
  cases cpu with
  | none => simp [cpusWithout]
  | some d =>
    have hd := h d rfl
    rw [cpusWithout, dif_pos hd]
    by_cases hdc : d = c
    · subst hdc
      have hget : b.cpus.get c = b.cpus[(c : Nat)] := rfl
      simp only [true_and, hget]
      split
      · exact Vector.getElem_set_self hd
      · rfl
    · have hne : ¬ (some d = some c.val ∧ (b.cpus.get c).current = some pid) :=
        fun hc => hdc (Option.some.inj hc.1)
      rw [if_neg hne]
      split
      · exact Vector.getElem_set_ne hd c.isLt hdc
      · rfl

/-- Destroying a live process of a kernel in order buries it. -/
theorem destroy_buried (h : k.board.Sound) (hp : k.procs.at? p.pid.slot = some p)
    (live : p.status ≠ .dying) :
    Ends (destroy p.pid) k fun a k' => a = .ok () ∧ k.Buried p k' ∧ k'.board.Sound := by
  have hends := destroy_ends (k := k) (b := k.board) (q := p) (by rw [put_self hp]) h hp live
    (.inl rfl)
  obtain ⟨a, k', step, rfl, hd⟩ := hends
  have hbury : Board.Sound (k.board.buried p p) := h.bury hp (.inl rfl)
  have hqueue : (k.board.buried p p).futexes.queue = k.futexes.queue.leave p.pid :=
    h.queue_buried hp
  have hmoves : Moves k.clock.now (k.board.buried p p) k'.board := hd.wakes.moves
  have hmem := destroy_released (ProcessTable.lookup_of_live hp live) _ _ step
  have hlead := leads_destroy p.pid k _ _ step
  refine ⟨.ok (), k', step, rfl, ⟨?_, fun i hi => ?_, fun a => ?_, fun c => ?_, hmem,
    hlead.clock, hlead.lastSweep⟩, hmoves.sound hbury⟩
  · exact ProcessTable.get?_eq_some.2 ⟨hd.dying rfl, rfl⟩
  · have hbefore : (k.board.buried p p).procs.at? i = k.procs.at? i :=
      ProcessTable.at?_put_of_ne (p := { p.bury with futex := none }) (Ne.symm hi)
    cases hq : k.procs.at? i with
    | none => exact ProcessTable.Each.at?_eq_none (hmoves.drifts hbury) (hbefore.trans hq)
    | some q =>
      obtain rfl : q.pid.slot = i := h.table.placed i q hq
      have hafter := hd.wakes.at?_blocked (hbefore.trans hq)
      rw [hqueue] at hafter
      exact hafter
  · have hnodes : k'.futexes.bucket a = _ := hd.wakes.bucket hbury a
    rw [hnodes, h.bucket_buried hp a, List.filter_filter, hqueue]
    refine List.filter_congr fun x _ => ?_
    rw [Bool.eq_iff_iff, decide_eq_true_iff]
    simp [heirs, and_comm]
  · have hcpus : k'.cpus = k.board.cpusWithout p.pid p.cpu := hd.wakes.cpus
    rw [hcpus]
    exact get_cpusWithout (h.settled hp).cpu p.pid c

/-- A process that was buried can be reclaimed. -/
theorem Buried.reclaim (hb : k.Buried p k') (sound : k'.board.Sound) :
    ∃ k'', Kernel.reclaim p.pid k' = .ok (.ok ()) k'' := by
  have hqueued : k'.futexes.isQueued p.pid = false :=
    sound.queues.isQueued_eq_false fun q hq => by
      cases hb.record.symm.trans hq
      rfl
  have hends : Ends (Kernel.reclaim p.pid) k' fun a _ => a = .ok () := by
    simp [Kernel.reclaim, ProcessTable.reclaim, hb.record, hqueued]
  obtain ⟨_, k'', step, rfl⟩ := hends
  exact ⟨k'', step⟩

end Kernel

namespace Run

/-- In every kernel that a run leads to, destroying a process that is not dying succeeds and buries
it, and it can be reclaimed then. -/
theorem destroy_buries {clock : Clock} {ms : List Moment} {k : Kernel} {pid : Pid} {p : Process}
    (run : Run (.boot clock) ms k) (hp : k.procs.get? pid = some p) (live : p.status ≠ .dying) :
    ∃ k', Kernel.destroy pid k = .ok (.ok ()) k' ∧ k.Buried p k' ∧
      ∃ k'', Kernel.reclaim pid k' = .ok (.ok ()) k'' := by
  obtain ⟨hat, rfl⟩ := ProcessTable.get?_eq_some.1 hp
  obtain ⟨_, k', step, rfl, hb, sound⟩ := Kernel.destroy_buried run.sound hat live
  exact ⟨k', step, hb, hb.reclaim sound⟩

/-- A page with a list of one record and behind it the lock of the record, owned by the first
process there is. -/
def ownedLock : Memory :=
  ((Memory.mapPage {} 0 .userReadWrite 1).setBytes? 0 0x1000
    ([0, 0x1010].flatMap word64Bytes ++ word32Bytes (Pid.ofSlot 1 0).raw)).getD default

/-- A process registers its list of locks, and another waits on the lock in it. -/
def waitOnOwnedLock : List Event :=
  [.memory ownedLock,
    .spawn 0 ((((TrapFrame.newUser 0x1000 0x2000).set .a7 99).set .a0 0x1000).set .a1 24),
    .spawn 0 ((((TrapFrame.newUser 0x1000 0x2000).set .a7 98).set .a0 0x1010).set .a2
      (Pid.ofSlot 1 0).raw.toUInt64),
    .schedule 0, .syscall (.ofSlot 1 0), .schedule 1, .syscall (.ofSlot 1 1)]

/-- The process that waits on the lock is woken when the owner of the lock dies. -/
theorem destroy_buries_of_waitOnOwnedLock :
    ∃ ms k p k', play (.boot default) waitOnOwnedLock = some (ms, k) ∧
      k.procs.get? (.ofSlot 1 0) = some p ∧ p.locks k.memory = [0x1010] ∧
      k.heirs p = [.ofSlot 1 1] ∧
      Kernel.destroy (.ofSlot 1 0) k = .ok (.ok ()) k' ∧ k.Buried p k' := by
  have hplay : ((play (.boot default) waitOnOwnedLock).bind fun r =>
      (r.2.procs.get? (.ofSlot 1 0)).map fun p =>
        (p.status, p.locks r.2.memory, r.2.heirs p)) =
      some (.running, [0x1010], [.ofSlot 1 1]) := by
    decide +kernel
  obtain ⟨⟨ms, k⟩, h, hk⟩ := Option.bind_eq_some_iff.1 hplay
  obtain ⟨p, hp, heq⟩ := Option.map_eq_some_iff.1 hk
  obtain ⟨hstatus, hlocks, hheirs⟩ : p.status = .running ∧ p.locks k.memory = [0x1010] ∧
      k.heirs p = [.ofSlot 1 1] := by simpa using heq
  obtain ⟨k', step, hb, -⟩ := destroy_buries (Run.of_play h) hp (by simp [hstatus])
  exact ⟨ms, k, p, k', h, hp, hlocks, hheirs, step, hb⟩

end Run

end SyncKernel
