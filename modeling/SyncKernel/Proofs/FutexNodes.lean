import SyncKernel.Proofs.Reachable

/-!
# Futex queues of reachable kernels

In every kernel that a run leads to, the nodes of the futex queues and the records that name a futex
belong together one to one: a record that names an address has one node, in the queue of that
address, and there is no other node. A process that was destroyed has none.
-/

namespace SyncKernel

namespace FutexTable.Matches

variable {t : FutexTable} {procs : ProcessTable} {p : Process} {address : UInt64}
  {i : Fin bucketCount} {x : Waiter}

/-- A node stands in the queue of its address and belongs to a record that names it. -/
theorem mem_buckets (h : t.Matches procs) :
    x ∈ t.buckets[i] ↔
      bucketOf x.address = i ∧ ∃ p, procs.get? x.pid = some p ∧ p.futex = some x.address := by
  obtain ⟨address, rfl⟩ := exists_bucketOf i
  rw [getElem_eq_bucket rfl]
  exact h.mem_iff address x

/-- The one node of a process that waits is in the queue of its address. -/
theorem filter_buckets (h : t.Matches procs) (hp : procs.at? p.pid.slot = some p)
    (hf : p.futex = some address) (i : Fin bucketCount) :
    t.buckets[i].filter (fun x => x.pid = p.pid) =
      if i = bucketOf address then [⟨p.pid, address⟩] else [] := by
  have hnode : ∀ x ∈ t.buckets[i], x.pid = p.pid → x = ⟨p.pid, address⟩ := by
    obtain ⟨a, rfl⟩ := exists_bucketOf i
    exact fun x => h.eq_of_mem hp hf
  have hcongr : ∀ x ∈ t.buckets[i],
      decide (x.pid = p.pid) = (x == (⟨p.pid, address⟩ : Waiter)) := by
    intro x hx
    by_cases hpid : x.pid = p.pid
    · simp [hnode x hx hpid]
    · have hne : x ≠ ⟨p.pid, address⟩ := fun he => hpid (congrArg Waiter.pid he)
      simp [hpid, hne]
  have hnodup : t.buckets[i].Nodup := by
    obtain ⟨a, rfl⟩ := exists_bucketOf i
    exact h.nodup a
  have hmem : (⟨p.pid, address⟩ : Waiter) ∈ t.buckets[i] ↔ i = bucketOf address := by
    rw [h.mem_buckets]
    constructor
    · exact fun hx => hx.1.symm
    · exact fun hi => ⟨hi.symm, p, ProcessTable.get?_pid hp, hf⟩
  rw [List.filter_congr hcongr, List.filter_beq, hnodup.count]
  by_cases hi : i = bucketOf address
  · rw [if_pos (hmem.2 hi), if_pos hi]
    rfl
  · rw [if_neg (mt hmem.1 hi), if_neg hi]
    rfl

end FutexTable.Matches

namespace Run

variable {clock : Clock} {ms : List Moment} {k : Kernel}

/-- In every kernel that a run leads to, a process whose record names a futex is blocked and has one
node in all queues, which stands in the queue of the futex; every node is that of one such process;
and once a process is destroyed no queue holds a node of it. -/
theorem futex_nodes (run : Run (.boot clock) ms k) :
    (∀ p ∈ k.procs.processes, ∀ address, p.futex = some address →
      p.status = .blocked ∧
        ∀ i : Fin bucketCount, k.futexes.buckets[i].filter (fun x => x.pid = p.pid) =
          if i = bucketOf address then [⟨p.pid, address⟩] else []) ∧
    (∀ i : Fin bucketCount, ∀ x ∈ k.futexes.buckets[i], bucketOf x.address = i ∧
      ∃! p, p ∈ k.procs.processes ∧ p.pid = x.pid ∧ p.futex = some x.address) ∧
    ∀ pid k', Kernel.destroy pid k = .ok (.ok ()) k' →
      ∀ i : Fin bucketCount, ∀ x ∈ k'.futexes.buckets[i], x.pid ≠ pid := by
  have hs : k.board.Sound := run.sound
  refine ⟨fun p hp address hf => ?_, fun i x hx => ?_, fun pid k' hd i x hx hpid => ?_⟩
  · obtain ⟨j, hj⟩ := ProcessTable.mem_processes.1 hp
    have hat : k.procs.at? p.pid.slot = some p := hs.table.at?_slot hj
    refine ⟨?_, hs.queues.filter_buckets hat hf⟩
    exact (hs.settled hat).blocked_of_waits (r := .futex) (by simp [Process.waits, hf])
  · obtain ⟨hi, p, hget, hf⟩ := hs.queues.mem_buckets.1 hx
    obtain ⟨hat, hpid⟩ := ProcessTable.get?_eq_some.1 hget
    refine ⟨hi, p, ⟨ProcessTable.mem_processes.2 ⟨_, hat⟩, hpid, hf⟩, ?_⟩
    rintro q ⟨hq, hqpid, -⟩
    obtain ⟨j, hj⟩ := ProcessTable.mem_processes.1 hq
    have hqat : k.procs.at? q.pid.slot = some q := hs.table.at?_slot hj
    rw [hqpid] at hqat
    exact Option.some.inj (hqat.symm.trans hat)
  · obtain ⟨hm, hdying⟩ := (Kernel.destroy_moved hs pid).of_eq hd
    obtain ⟨p, hp, hstatus⟩ := hdying rfl
    have hs' : k'.board.Sound := hm.sound hs
    obtain ⟨-, q, hq, hf⟩ := hs'.queues.mem_buckets.1 hx
    rw [hpid] at hq
    cases hp.symm.trans hq
    obtain ⟨hat, rfl⟩ := ProcessTable.get?_eq_some.1 hp
    have hsettled : p.Settled := hs'.settled hat
    rw [hsettled.futex_eq_none (by simp [hstatus])] at hf
    cases hf

/-- A process is entered, is chosen by a processor and waits on a futex in its memory. -/
def waitOnFutex : List Event :=
  [.memory (Memory.mapPage {} 0 .userReadWrite 1),
    .spawn 0 (((TrapFrame.newUser 0x1000 0x2000).set .a7 98).set .a0 0x1000), .schedule 0,
    .syscall (.ofSlot 1 0)]

/-- The process that waits on the futex is blocked and has its node. -/
theorem futex_nodes_of_waitOnFutex :
    ∃ ms k, play (.boot default) waitOnFutex = some (ms, k) ∧
      ∃ p ∈ k.procs.processes, p.status = .blocked ∧
        k.futexes.buckets[bucketOf 0x1000].filter (fun x => x.pid = p.pid) =
          [⟨p.pid, 0x1000⟩] := by
  have hplay : ((play (.boot default) waitOnFutex).map fun r =>
      r.2.procs.processes.map (·.futex)) = some [some 0x1000] := by
    decide +kernel
  obtain ⟨⟨ms, k⟩, h, hfutex⟩ := Option.map_eq_some_iff.1 hplay
  obtain ⟨p, hp, hf⟩ : ∃ p ∈ k.procs.processes, p.futex = some 0x1000 :=
    List.mem_map.1 (hfutex ▸ List.mem_singleton.2 rfl)
  obtain ⟨hblocked, hnode⟩ := (futex_nodes (Run.of_play h)).1 p hp _ hf
  exact ⟨ms, k, h, p, hp, hblocked, hnode (bucketOf 0x1000)⟩

end Run

end SyncKernel
