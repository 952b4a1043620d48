import SyncKernel.Proofs.Reachable

/-!
# Why processes are blocked

Four parts of the kernel block and wake processes, and they share one status. In every kernel that a
run leads to they agree: a blocked process has exactly one reason to be blocked and any other
process has none. This is why no event stops, as the rules whose breach would stop one are about
processes that are woken or made to wait: only a blocked process may be woken, only one that does
not wait on a futex may begin to, and none that does may be reclaimed.
-/

namespace SyncKernel

namespace Run

variable {clock : Clock} {ms : List Moment} {k : Kernel}

/-- In every kernel that a run leads to, a blocked process has exactly one reason to be blocked and
any other process has none; and no event that may happen next stops, unless it is the call of the
scheduler that completes `2 ^ 64` of them. -/
theorem one_reason_and_no_fault (run : Run (.boot clock) ms k) :
    (∀ p ∈ k.procs.processes,
      (p.status = .blocked → ∃! r, p.waits r = true) ∧
        (p.status ≠ .blocked → ∀ r, p.waits r = false)) ∧
      ∀ e : Event, e.Allowed k → scheduleCount ms + e.isSchedule.toNat < 2 ^ 64 →
        ∃ a k', e.perform k = .ok a k' := by
  refine ⟨fun p hp => ?_, fun e allowed hcount => run.perform_ends allowed hcount⟩
  obtain ⟨i, hi⟩ := ProcessTable.mem_processes.1 hp
  have hs : p.Settled := run.sound.table.settled i p hi
  exact ⟨hs.existsUnique, hs.waits_eq_false⟩

/-- A process is entered, is chosen by a processor and receives. -/
def receiveAlone : List Event :=
  [.spawn default ((TrapFrame.newUser 0x1000 0x2000).set .a7 1101), .schedule 0,
    .syscall (.ofSlot 1 0)]

/-- The process that receives is blocked, for one reason, and the next event does not stop. -/
theorem one_reason_of_receiveAlone :
    ∃ ms k, play (.boot default) receiveAlone = some (ms, k) ∧
      (k.procs.processes.map (·.status) = [.blocked]) ∧
      (∀ p ∈ k.procs.processes,
        (p.status = .blocked → ∃! r, p.waits r = true) ∧
          (p.status ≠ .blocked → ∀ r, p.waits r = false)) ∧
      ∃ a k', (Event.schedule 0).perform k = .ok a k' := by
  have hplay : ((play (.boot default) receiveAlone).map fun r =>
      (scheduleCount r.1, r.2.procs.processes.map (·.status))) = some (1, [.blocked]) := by
    decide +kernel
  obtain ⟨⟨ms, k⟩, h, heq⟩ := Option.map_eq_some_iff.1 hplay
  obtain ⟨hcount, hstatus⟩ := Prod.mk.inj heq
  obtain ⟨hone, hstep⟩ := one_reason_and_no_fault (Run.of_play h)
  have allowed : (Event.schedule 0).Allowed k := (by decide : 0 < cpuCount)
  refine ⟨ms, k, h, hstatus, hone, hstep (.schedule 0) allowed ?_⟩
  rw [hcount]
  decide

end Run

end SyncKernel
