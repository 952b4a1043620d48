import SyncKernel.Proofs.Standing

/-!
# What sending a signal does to a process

`Process.Signalled` lists the ways in which sending a signal may come out, each with its condition
and the record it leaves; `sendSignal_ends` says that for a process in order one of them is what
happens. In all of them but one the process is in order again (`Signalled.settled`). The exception
is a signal that the process waits for but cannot be told: its wait is given up and it is still
blocked, and the caller destroys it.
-/

namespace SyncKernel

namespace Process

/-- The outcomes of sending signal `n` with a value to the process `p`, and the record and memory
they leave. -/
inductive Signalled (p : Process) (m : Memory) (n : Nat) (value : UInt64) :
    Except Errno Sent → Process → Memory → Prop where
  /-- There is no such signal, or it is not pending and there is no room in the queue. -/
  | refused {e : Errno}
      (h : isSignal n = false ∨ p.signal.queue.contains n = false ∧
        p.signal.queue.push ⟨n, value⟩ = .error e) :
      Signalled p m n value (.error e) p m
  /-- The signal is pending already. -/
  | merged (hn : isSignal n = true) (h : p.signal.queue.contains n = true) :
      Signalled p m n value (.ok .merged) p m
  /-- The signal is put behind the pending ones. -/
  | queued {queue : SignalQueue} (hn : isSignal n = true)
      (hq : p.signal.queue.push ⟨n, value⟩ = .ok queue)
      (hw : ∀ wait, p.signal.wait = some wait → n ≠ killSignal ∧ wait.accept.contains n = false) :
      Signalled p m n value (.ok .queued) { p with signal := { p.signal with queue } } m
  /-- The kill signal is put behind the pending ones and ends a wait for a signal. -/
  | interrupted {queue : SignalQueue} {wait : SignalWait} (hn : n = killSignal)
      (hq : p.signal.queue.push ⟨n, value⟩ = .ok queue) (hw : p.signal.wait = some wait) :
      Signalled p m n value (.ok .queued)
        { p with
          signal := { p.signal with queue, wait := none, mask := wait.saved }
          frame := p.frame.setReturn Errno.interruptedSystemCall.toWord
          status := .runnable } m
  /-- The process waits for the signal and is told its number. -/
  | handed {wait : SignalWait} {m' : Memory} (hw : p.signal.wait = some wait)
      (hk : n ≠ killSignal) (ha : wait.accept.contains n = true)
      (hm : m.userWrite32 p.space wait.destination (UInt32.ofNat n) = .ok m') :
      Signalled p m n value (.ok .handed)
        { p.leaveWait wait with frame := p.frame.setReturn 0, status := .runnable } m'
  /-- The process waits for the signal and cannot be told its number. -/
  | lost {wait : SignalWait} {e : Errno} (hw : p.signal.wait = some wait) (hk : n ≠ killSignal)
      (ha : wait.accept.contains n = true)
      (hm : m.userWrite32 p.space wait.destination (UInt32.ofNat n) = .error e) :
      Signalled p m n value (.ok .lost) (p.leaveWait wait) m

section
variable {p p' : Process} {m m' : Memory} {n : Nat} {value : UInt64} {a : Except Errno Sent}

/-- A signal that was sent did one of the things that may come of it. -/
theorem signalled_of_sendSignal (h : p.sendSignal m n value = .ok (a, p', m')) :
    Signalled p m n value a p' m' := by
  unfold sendSignal at h
  split at h
  · next hn =>
    cases h
    exact .refused (.inl (by simpa using hn))
  next hn =>
  have hn : isSignal n = true := by simpa using hn
  split at h
  · next wait hf =>
    obtain ⟨hw, hf⟩ := Option.filter_eq_some_iff.1 hf
    have hf : n ≠ killSignal ∧ wait.accept.contains n = true := by simpa using hf
    dsimp only at h
    split at h
    · next hm =>
      cases h
      exact .lost hw hf.1 hf.2 hm
    · next hm =>
      have hs : (p.leaveWait wait).status = .blocked := by
        by_contra hs
        rw [wake, if_neg hs] at h
        cases h
      rw [wake_of_blocked hs] at h
      cases h
      exact .handed hw hf.1 hf.2 hm
  · next hf =>
    have hw : ∀ wait, p.signal.wait = some wait → n ≠ killSignal →
        wait.accept.contains n = false := by
      intro wait hw hk
      simpa [hw, hk] using hf
    split at h
    · next hc =>
      cases h
      exact .merged hn hc
    next hc =>
    split at h
    · next hq =>
      cases h
      exact .refused (.inr ⟨Bool.eq_false_iff.2 hc, hq⟩)
    next queue hq =>
    dsimp only at h
    split at h
    · next wait hf =>
      obtain ⟨hw, hk⟩ := Option.filter_eq_some_iff.1 hf
      have hk : n = killSignal := by simpa using hk
      have hs : (({ p with signal := { p.signal with queue } } : Process).leaveWait wait).status =
          .blocked := by
        by_contra hs
        rw [wake, if_neg hs] at h
        cases h
      rw [wake_of_blocked hs] at h
      cases h
      exact .interrupted hk hq hw
    · next hf =>
      cases h
      refine .queued hn hq fun wait hw' => ?_
      have hk : n ≠ killSignal := by simpa [hw'] using hf
      exact ⟨hk, hw wait hw' hk⟩

/-- Sending a signal to a process in order does not stop, since one that waits is blocked. -/
theorem sendSignal_ends (h : p.Settled) (m : Memory) (n : Nat) (value : UInt64) :
    ∃ a p' m', p.sendSignal m n value = .ok (a, p', m') ∧ Signalled p m n value a p' m' := by
  have hb : ∀ wait, p.signal.wait = some wait → p.status = .blocked := fun wait hw =>
    h.blocked_of_waits (r := .signal) (by simp [waits, hw])
  have ends : ∃ r, p.sendSignal m n value = .ok r := by
    unfold sendSignal
    split
    · exact ⟨_, rfl⟩
    split
    · next wait hf =>
      have hs : (p.leaveWait wait).status = .blocked := hb wait (Option.filter_eq_some_iff.1 hf).1
      dsimp only
      split
      · exact ⟨_, rfl⟩
      · rw [wake_of_blocked hs]
        exact ⟨_, rfl⟩
    split
    · exact ⟨_, rfl⟩
    split
    · exact ⟨_, rfl⟩
    next queue _ =>
    dsimp only
    split
    · next wait hf =>
      have hs : (({ p with signal := { p.signal with queue } } : Process).leaveWait wait).status =
          .blocked := hb wait (Option.filter_eq_some_iff.1 hf).1
      rw [wake_of_blocked hs]
      exact ⟨_, rfl⟩
    · exact ⟨_, rfl⟩
  obtain ⟨⟨a, p', m'⟩, hr⟩ := ends
  exact ⟨a, p', m', hr, signalled_of_sendSignal hr⟩

/-- A signal behind others is one of signals if they are. -/
theorem isSignal_of_push {q q' : SignalQueue} (hq : q.push ⟨n, value⟩ = .ok q')
    (hn : isSignal n = true) (h : ∀ e ∈ q.entries, isSignal e.number = true) :
    ∀ e ∈ q'.entries, isSignal e.number = true := by
  obtain ⟨-, rfl⟩ := SignalQueue.push_eq_ok.1 hq
  intro e he
  rcases List.mem_append.1 he with he | he
  · exact h e he
  · rw [List.mem_singleton.1 he]
    exact hn

/-- The id of a process stays when it is sent a signal. -/
theorem Signalled.pid (h : Signalled p m n value a p' m') : p'.pid = p.pid := by
  cases h <;> rfl

theorem Signalled.futex (h : Signalled p m n value a p' m') : p'.futex = p.futex := by
  cases h <;> rfl

theorem Signalled.receive (h : Signalled p m n value a p' m') : p'.receive = p.receive := by
  cases h <;> rfl

theorem Signalled.send (h : Signalled p m n value a p' m') : p'.send = p.send := by
  cases h <;> rfl

/-- A signal does not block the process it is sent to. -/
theorem Signalled.status (h : Signalled p m n value a p' m') (hb : p'.status = .blocked) :
    p.status = .blocked := by
  cases h <;> first | exact hb | cases hb

/-- A process in order that runs goes on running when it is sent a signal. -/
theorem Signalled.running (h : Signalled p m n value a p' m') (hp : p.Settled)
    (run : p.status = .running) : p'.status = .running := by
  have hw : ∀ wait, p.signal.wait ≠ some wait := by
    intro wait hw
    have hb : p.status = .blocked := hp.blocked_of_waits (r := .signal) (by simp [waits, hw])
    rw [run] at hb
    cases hb
  cases h with
  | refused _ => exact run
  | merged _ _ => exact run
  | queued _ _ _ => exact run
  | interrupted _ _ h => exact absurd h (hw _)
  | handed h _ _ _ => exact absurd h (hw _)
  | lost h _ _ _ => exact absurd h (hw _)

/-- A process that was sent a signal is in order, unless the signal was lost. -/
theorem Signalled.settled (h : Signalled p m n value a p' m') (hp : p.Settled)
    (ha : a ≠ .ok .lost) : p'.Settled := by
  cases h with
  | refused _ => exact hp
  | merged _ _ => exact hp
  | queued hn hq _ =>
    exact ⟨hp.reasons, isSignal_of_push hq hn hp.signals, hp.cpu, hp.sender, hp.buffer, hp.target,
      hp.answer⟩
  | interrupted hn hq hw =>
    have hr : p.waits .signal = true := by simp [waits, hw]
    refine hp.cleared hr (by simp) rfl (fun r hne => ?_)
      (isSignal_of_push hq (hn ▸ rfl) hp.signals) rfl
    cases r <;> first | rfl | exact absurd rfl hne
  | handed hw _ _ _ =>
    have hr : p.waits .signal = true := by simp [waits, hw]
    refine hp.cleared hr (by simp) rfl (fun r hne => ?_) hp.signals rfl
    cases r <;> first | rfl | exact absurd rfl hne
  | lost _ _ _ _ => exact absurd rfl ha

end

end Process

end SyncKernel
