import SyncKernel.Proofs.Reachable

/-!
# Refused calls leave no trace

A system call that is refused changes nothing but the register in which its caller finds the error
(`Kernel.syscall_refused`): no record, no byte of memory, no queue, no processor and no time. That
each call is served in this way is part of what is known of it (`Kernel.ComesTo.refused`); here the
call is followed to its end.
-/

namespace SyncKernel

namespace Kernel

open Step

/-- The system call that the registers of a process ask for is refused with an error. -/
def Refuses (k : Kernel) (pid : Pid) (e : Errno) : Prop :=
  (k.AsksForNone pid ∧ e = .functionNotImplemented) ∨
    ∃ call args k', k.Answers pid call args (.error e) k'

/-- The kernel after a system call of the process `p` was refused: the caller finds the error, and
the call was reported. -/
def afterRefusal (k : Kernel) (p : Process) (e : Errno) : Kernel :=
  { k with
    procs := k.procs.put { p with frame := p.frame.setReturn e.toWord }
    journal := .call p.pid p.frame.callNumber p.frame.callArgs.toArray.toList :: k.journal }

variable {k : Kernel} {p : Process} {e : Errno}

/-- A system call of a running process that is refused returns the error and leaves everything else.
-/
theorem syscall_refused (h : k.board.Sound) (hp : k.board.procs.at? p.pid.slot = some p)
    (run : p.status = .running) (refuses : k.Refuses p.pid e) :
    syscall p.pid k = .ok (.returned e.toWord) (k.afterRefusal p e) := by
  have hget : k.procs.get? p.pid = some p := ProcessTable.get?_pid hp
  generalize hk₁ : k.noted (.call p.pid p.frame.callNumber p.frame.callArgs.toArray.toList) = k₁
  have h₁ : k₁.board.Sound := by
    subst hk₁
    exact h
  have hp₁ : k₁.procs.at? p.pid.slot = some p := by
    subst hk₁
    exact hp
  have left : Ends (do setReturn p.pid e.toWord; return SyscallOutcome.returned e.toWord) k₁
      fun o k' => o = .returned e.toWord ∧ k' = k.afterRefusal p e := by
    rw [ends_bind]
    refine (setReturn_ends hp₁ e.toWord).mono fun _ k' hk' => ends_pure.2 ⟨rfl, ?_⟩
    rw [hk', ← hk₁]
    rfl
  have hends : Ends (syscall p.pid) k fun o k' =>
      o = .returned e.toWord ∧ k' = k.afterRefusal p e := by
    rw [syscall, ends_bind, ends_get, hget]
    dsimp only
    rw [ends_bind, ends_note, hk₁]
    obtain ⟨⟨q, hq, hnone⟩, rfl⟩ | ⟨call, args, k', q, hq, hcall, rfl, hserve⟩ := refuses
    · cases hget.symm.trans hq
      rw [hnone]
      dsimp only
      rw [ends_bind, ends_pure]
      exact left
    · cases hget.symm.trans hq
      rw [hcall]
      dsimp only
      rw [ends_bind]
      rw [hk₁] at hserve
      obtain ⟨hcomes, -⟩ := (serve_ends h₁ ⟨p, hp₁, rfl, run⟩ _ call).of_eq hserve
      -- however far the call got, it was refused before it changed anything
      obtain rfl : k' = k₁ := hcomes.refused e rfl
      exact ⟨.error e, _, hserve, left⟩
  obtain ⟨o, k', hcall, rfl, rfl⟩ := hends
  exact hcall

end Kernel

namespace Run

variable {clock : Clock} {ms : List Moment} {k : Kernel}

/-- In every kernel that a run leads to, a system call of a running process that is refused,
whatever its number and arguments, returns the error and changes nothing else. -/
theorem refused_call (run : Run (.boot clock) ms k) :
    ∀ pid p, k.procs.get? pid = some p → p.status = .running → ∀ e, k.Refuses pid e →
      Kernel.syscall pid k = .ok (.returned e.toWord) (k.afterRefusal p e) := by
  intro pid p hget running e refuses
  obtain ⟨hp, rfl⟩ := ProcessTable.get?_eq_some.1 hget
  exact Kernel.syscall_refused run.sound hp running refuses

/-- A process asks for the action for a signal to be written where it has no memory. -/
def actionToNowhere : List Event :=
  [.spawn 0 ((((TrapFrame.newUser 0x1000 0x2000).set .a7 134).set .a0 10).set .a2 0x5000),
    .schedule 0]

/-- The process finds the error and nothing else has changed. -/
theorem refused_call_of_actionToNowhere :
    ∃ ms k, play (.boot default) actionToNowhere = some (ms, k) ∧
      ∃ p, k.procs.get? (.ofSlot 1 0) = some p ∧
        Kernel.syscall (.ofSlot 1 0) k =
          .ok (.returned Errno.badAddress.toWord) (k.afterRefusal p .badAddress) := by
  have hplay : (play (.boot default) actionToNowhere).any (fun r =>
      (r.2.procs.get? (.ofSlot 1 0)).any fun p =>
        p.status = .running ∧ Syscall.ofNumber? p.frame.callNumber.toNat = some .signalAction ∧
          (match Kernel.serve (.ofSlot 1 0) p.frame.callArgs .signalAction
              (r.2.noted (.call (.ofSlot 1 0) p.frame.callNumber p.frame.callArgs.toArray.toList))
            with
            | .ok (.error e) _ => e == .badAddress
            | _ => false) = true) = true := by
    decide +kernel
  obtain ⟨⟨ms, k⟩, h, hr⟩ := (Option.any_eq_true _ _).1 hplay
  obtain ⟨p, hp, hr⟩ := (Option.any_eq_true _ _).1 hr
  obtain ⟨running, hcall, hserve⟩ := of_decide_eq_true hr
  split at hserve
  · next e k' hserved =>
    cases beq_iff_eq.1 hserve
    have refuses : k.Refuses (.ofSlot 1 0) .badAddress :=
      .inr ⟨.signalAction, p.frame.callArgs, k', p, hp, hcall, rfl, hserved⟩
    exact ⟨ms, k, h, p, hp, refused_call (Run.of_play h) _ p hp running _ refuses⟩
  · cases hserve

end Run

end SyncKernel
