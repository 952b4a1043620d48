import SyncKernel.Proofs.Sound

/-!
# What moves do to a record

A move changes one record at most, and what it may do to it is bounded by `Process.Drift`: nobody
begins to wait to send or for a message, a wait to send goes on, fails with an error or ends with
its process, and no receive gains a sender. `Move.drifts` proves the bound for each move; as it is
reflexive and transitive, it bounds any number of moves (`Moves.drifts`). The counters of runs are
bounded along with it: only `Dispatch` counts a run (`Dispatch.runsAtMost`).
-/

namespace SyncKernel

namespace Errno

/-- The word of an error is not zero. -/
theorem toWord_ne_zero (e : Errno) : e.toWord ≠ 0 := by
  cases e <;> decide

end Errno

namespace Process

/-- The process is runnable and its last call did not answer 0. -/
def Failed (p : Process) : Prop :=
  p.status = .runnable ∧ p.frame.get .a0 ≠ 0

/-- The bound on what moves do to the record `p` of a process. -/
structure Drift (p p' : Process) : Prop where
  pid : p'.pid = p.pid
  runs : p'.runs = p.runs
  sender : p.receive.sender = none → p'.receive.sender = none
  begun : p'.Sends → p.Sends ∧ p'.send = p.send
  receives : p'.Receives → p.Receives ∧ p'.receive = p.receive
  ended : p.Sends → (p'.Sends ∧ p'.send = p.send) ∨ p'.Failed ∨ p'.status = .dying
  failed : p.Failed → p'.Failed ∨ p'.status = .dying
  dying : p.status = .dying → p'.status = .dying

namespace Drift

variable {p p' q : Process}

theorem refl (p : Process) : Drift p p where
  pid := rfl
  runs := rfl
  sender := id
  begun h := ⟨h, rfl⟩
  receives h := ⟨h, rfl⟩
  ended h := .inl ⟨h, rfl⟩
  failed := .inl
  dying := id

theorem trans (h : Drift p q) (h' : Drift q p') : Drift p p' where
  pid := h'.pid.trans h.pid
  runs := h'.runs.trans h.runs
  sender hs := h'.sender (h.sender hs)
  begun hs := by
    obtain ⟨hq, hsend⟩ := h'.begun hs
    obtain ⟨hp, hsend'⟩ := h.begun hq
    exact ⟨hp, hsend.trans hsend'⟩
  receives hr := by
    obtain ⟨hq, hrcv⟩ := h'.receives hr
    obtain ⟨hp, hrcv'⟩ := h.receives hq
    exact ⟨hp, hrcv.trans hrcv'⟩
  ended hs := by
    rcases h.ended hs with ⟨hq, hsend⟩ | hq | hq
    · rcases h'.ended hq with ⟨hp, hsend'⟩ | hp
      · exact .inl ⟨hp, hsend'.trans hsend⟩
      · exact .inr hp
    · exact .inr (h'.failed hq)
    · exact .inr (.inr (h'.dying hq))
  failed hf := by
    rcases h.failed hf with hq | hq
    · exact h'.failed hq
    · exact .inr (h'.dying hq)
  dying hd := h'.dying (h.dying hd)

instance : Std.Refl Drift := ⟨refl⟩

instance : IsTrans Process Drift := ⟨fun _ _ _ => trans⟩

/-- A change that leaves the status, the sending side and the result of the last call. -/
theorem of_same (pid : p'.pid = p.pid) (runs : p'.runs = p.runs) (status : p'.status = p.status)
    (send : p'.send = p.send) (receive : p'.receive = p.receive) (frame : p'.frame = p.frame) :
    Drift p p' where
  pid := pid
  runs := runs
  sender hs := receive ▸ hs
  begun hs := ⟨⟨status ▸ hs.1, send ▸ hs.2⟩, send⟩
  receives hr := ⟨⟨status ▸ hr.1, receive ▸ hr.2⟩, receive⟩
  ended hs := .inl ⟨⟨status ▸ hs.1, send ▸ hs.2⟩, send⟩
  failed hf := .inl ⟨status ▸ hf.1, frame ▸ hf.2⟩
  dying hd := status ▸ hd

/-- What a running process does to its record, as long as it does not begin to send or to receive.
-/
theorem of_running (h : p.Settled) (run : p.status = .running) (pid : p'.pid = p.pid)
    (runs : p'.runs = p.runs) (send : p'.send = p.send) (receive : p'.receive = p.receive) :
    Drift p p' where
  pid := pid
  runs := runs
  sender hs := receive ▸ hs
  begun hs := by
    have hne : p'.send.sending = false := send ▸ h.sending_eq_false (by simp [run])
    rw [hs.2] at hne
    cases hne
  receives hr := by
    have hne : p'.receive.receiving = false := receive ▸ h.receiving_eq_false (by simp [run])
    rw [hr.2] at hne
    cases hne
  ended hs := by
    have hb := hs.1
    rw [run] at hb
    cases hb
  failed hf := by
    have hr := hf.1
    rw [run] at hr
    cases hr
  dying hd := by
    rw [run] at hd
    cases hd

/-- A process that was blocked, but not in a send, is woken. -/
theorem of_woken (hb : p.status = .blocked) (hns : ¬ p.Sends)
    (hb' : p'.status = .runnable) (pid : p'.pid = p.pid) (runs : p'.runs = p.runs)
    (sender : p.receive.sender = none → p'.receive.sender = none) : Drift p p' where
  pid := pid
  runs := runs
  sender := sender
  begun hs := absurd hs.1 (by simp [hb'])
  receives hr := absurd hr.1 (by simp [hb'])
  ended hs := absurd hs hns
  failed hf := by
    have hr := hf.1
    rw [hb] at hr
    cases hr
  dying hd := by
    rw [hb] at hd
    cases hd

/-- A wait to send fails with an error. -/
theorem unsent (hb : p.status = .blocked) (e : Errno) : Drift p (p.unsent e.toWord) where
  pid := rfl
  runs := rfl
  sender := id
  begun hs := nomatch hs.1
  receives hr := nomatch hr.1
  ended _ := by
    refine .inr (.inl ⟨rfl, ?_⟩)
    have hget : (p.unsent e.toWord).frame.get .a0 = e.toWord := TrapFrame.get_setReturn _ _
    rw [hget]
    exact e.toWord_ne_zero
  failed hf := by
    have hr := hf.1
    rw [hb] at hr
    cases hr
  dying hd := by
    rw [hb] at hd
    cases hd

/-- A signal that is sent to a process ends no wait of it but one for a signal. -/
theorem of_signalled {m m' : Memory} {n : Nat} {value : UInt64} {a : Except Errno Sent}
    (h : p.Settled) (hs : p.Signalled m n value a p' m') (ha : a ≠ .ok .lost) : Drift p p' := by
  have waiting : ∀ wait, p.signal.wait = some wait →
      p.status = .blocked ∧ ¬ p.Sends := by
    intro wait hw
    have hr : p.waits .signal = true := by simp [waits, hw]
    refine ⟨h.blocked_of_waits hr, fun hs => ?_⟩
    have hne := h.waits_eq_false_of_ne hr (show Reason.signal ≠ .send by decide)
    rw [hs.waits] at hne
    cases hne
  cases hs with
  | refused _ => exact .refl p
  | merged _ _ => exact .refl p
  | queued _ _ _ => exact .of_same rfl rfl rfl rfl rfl rfl
  | interrupted _ _ hw => exact .of_woken (waiting _ hw).1 (waiting _ hw).2 rfl rfl rfl id
  | handed hw _ _ _ => exact .of_woken (waiting _ hw).1 (waiting _ hw).2 rfl rfl rfl id
  | lost _ _ _ _ => exact absurd rfl ha

/-- A process is destroyed. -/
theorem of_buried (hq : q = p ∨ ∃ wait, p.signal.wait = some wait ∧ q = p.leaveWait wait) :
    Drift p { q.bury with futex := none } where
  pid := by
    rcases hq with rfl | ⟨wait, -, rfl⟩ <;> rfl
  runs := by
    rcases hq with rfl | ⟨wait, -, rfl⟩ <;> rfl
  sender hs := by
    rcases hq with rfl | ⟨wait, -, rfl⟩ <;> exact hs
  begun hs := nomatch hs.1
  receives hr := nomatch hr.1
  ended _ := .inr (.inr rfl)
  failed _ := .inr rfl
  dying _ := rfl

end Drift

end Process

namespace Board

variable {b b' b₁ : Board} {p p' : Process} {now : Millis}

/-- Every slot holds what it held, up to what moves do to a record. -/
def Drifts (b b' : Board) : Prop :=
  ∀ i, Option.Rel Process.Drift (b.procs.at? i) (b'.procs.at? i)

namespace Drifts

theorem refl (b : Board) : Drifts b b :=
  ProcessTable.Each.refl b.procs

theorem trans (h : Drifts b b₁) (h' : Drifts b₁ b') : Drifts b b' :=
  ProcessTable.Each.trans h h'

/-- What is in a slot before is there after, up to what moves do to a record. -/
theorem exists_after {i : Fin slotCount} (hd : Drifts b b') (hp : b.procs.at? i = some p) :
    ∃ p', b'.procs.at? i = some p' ∧ p.Drift p' :=
  ProcessTable.Each.exists_after hd hp

/-- What is in a slot after was there before, up to what moves do to a record. -/
theorem exists_before {i : Fin slotCount} (hd : Drifts b b') (hp : b'.procs.at? i = some p') :
    ∃ p, b.procs.at? i = some p ∧ p.Drift p' :=
  ProcessTable.Each.exists_before hd hp

/-- A board on which one record was replaced. -/
theorem of_procs (hb : b'.procs = b.procs.put p') (hp : b.procs.at? p.pid.slot = some p)
    (hd : p.Drift p') : Drifts b b' := by
  rw [← hd.pid] at hp
  rw [Drifts, hb]
  exact ProcessTable.Each.put (refl b) hp hd

end Drifts

/-! ## Moves -/

/-- Ending a call on messages stays within the bound. -/
theorem Lapse.drifts (m : Lapse now b b') (h : b.Sound) : Drifts b b' := by
  cases m with
  | @ended p _ hp ho =>
    cases ho with
    | expired hr _ =>
      have hns : ¬ p.Sends := fun hs => (h.settled hp).not_receives hs hr
      exact .of_procs rfl hp (.of_woken hr.1 hns rfl rfl rfl fun _ => rfl)
    | forsaken hs _ => exact .of_procs rfl hp (.unsent hs.1 _)
    | gaveUp hs _ _ => exact .of_procs rfl hp (.unsent hs.1 _)

/-- Waking a process from a futex stays within the bound. -/
theorem Wake.drifts {address : UInt64} {pid : Pid} (m : Wake address pid b b') (h : b.Sound) :
    Drifts b b' := by
  cases m with
  | @first _ p before after hq _ hp hb =>
    have hf : p.futex = some address := h.queues.futex_of_split hp hq
    have hns : ¬ p.Sends := by
      intro hs
      have hr : p.waits .futex = true := by simp [Process.waits, hf]
      have hne := (h.settled hp).waits_eq_false_of_ne hr (show Reason.futex ≠ .send by decide)
      rw [hs.waits] at hne
      cases hne
    exact .of_procs rfl hp (.of_woken hb hns rfl rfl rfl id)

/-- A move does nothing to a record beyond the bound. -/
theorem Move.drifts (m : Move now b b') (h : b.Sound) : Drifts b b' := by
  cases m with
  | own hp run own =>
    have hs := own.sameStanding
    exact .of_procs rfl hp (.of_running (h.settled hp) run hs.pid hs.runs hs.send hs.receive)
  | yield hp run => exact .of_procs rfl hp (.of_running (h.settled hp) run rfl rfl rfl rfl)
  | waitFutex hp run _ => exact .of_procs rfl hp (.of_running (h.settled hp) run rfl rfl rfl rfl)
  | waitSignal hp run hw =>
    obtain ⟨wait, mask, rfl⟩ := Process.awaitSignal_none hw
    exact .of_procs rfl hp (.of_running (h.settled hp) run rfl rfl rfl rfl)
  | lapse l => exact l.drifts h
  | wake w => exact w.drifts h
  | signal hp _ hsig ha => exact .of_procs rfl hp (.of_signalled (h.settled hp) hsig ha)
  | bury hp _ hq => exact .of_procs rfl hp (.of_buried hq)
  | release cpu chosen =>
    rcases ProcessTable.release_cases (t := b.procs) cpu b.cpus[cpu].current chosen with
      heq | ⟨p, -, hp, -, ⟨run, -, heq⟩ | ⟨-, heq⟩⟩
    · intro i
      rw [released, heq]
      exact Drifts.refl b i
    · exact .of_procs heq hp (.of_running (h.settled hp) run rfl rfl rfl rfl)
    · exact .of_procs heq hp (.of_same rfl rfl rfl rfl rfl rfl)

/-- Any number of moves stay within the bound. -/
theorem Moves.drifts (ms : Moves now b b') (h : b.Sound) : Drifts b b' := by
  induction ms with
  | refl => exact .refl b
  | tail ms m ih => exact ih.trans (m.drifts (Moves.sound ms h))

/-! ## Counting runs -/

/-- No process was chosen to run more often than `n` times. -/
def RunsAtMost (n : Nat) (b : Board) : Prop :=
  ∀ i p, b.procs.at? i = some p → p.runs.toNat ≤ n

section
variable {n : Nat}

/-- A greater bound on the runs holds as well. -/
theorem RunsAtMost.mono {n' : Nat} (h : RunsAtMost n b) (hn : n ≤ n') : RunsAtMost n' b :=
  fun i p hp => Nat.le_trans (h i p hp) hn

/-- The bound on the counters stays if each record of the new table has a counter of the old one. -/
theorem RunsAtMost.of_at? (h : RunsAtMost n b)
    (heq : ∀ i p', b'.procs.at? i = some p' → ∃ p, b.procs.at? i = some p ∧ p'.runs = p.runs) :
    RunsAtMost n b' := by
  intro i p' hp'
  obtain ⟨p, hp, hr⟩ := heq i p' hp'
  rw [hr]
  exact h i p hp

/-- Moves let nobody run once more. -/
theorem Drifts.runsAtMost (hd : Drifts b b') (h : RunsAtMost n b) : RunsAtMost n b' := by
  refine h.of_at? fun i p' hp' => ?_
  obtain ⟨p, hp, hdp⟩ := hd.exists_before hp'
  exact ⟨p, hp, hdp.runs⟩

/-- A record that has run no more often than the bound may be put. -/
theorem RunsAtMost.put (h : RunsAtMost n b) (hruns : p'.runs.toNat ≤ n) :
    RunsAtMost n (b.put p') := by
  intro i q hq
  rcases ProcessTable.at?_put_cases hq with ⟨-, rfl⟩ | ⟨-, hq⟩
  · exact hruns
  · exact h i q hq

/-- Blocking in a call on messages is no run. -/
theorem Ask.runsAtMost {pid : Pid} {what : Option (Pid × Message)} (m : Ask now pid what b b')
    (h : RunsAtMost n b) : RunsAtMost n b' := by
  cases m with
  | @receive _ p hp _ _ _ _ _ _ _ =>
    have hle : p.runs.toNat ≤ n := h _ _ hp
    exact h.put hle
  | @send _ p _ hp _ _ _ _ _ _ _ =>
    have hle : p.runs.toNat ≤ n := h _ _ hp
    exact h.put hle

/-- A message that passes is no run. -/
theorem Pass.runsAtMost {sender receiver : Pid} {value : UInt64}
    (m : Pass sender receiver value b b') (h : RunsAtMost n b) : RunsAtMost n b' := by
  cases m with
  | @send p r _ _ hr _ _ _ _ _ =>
    have hle : r.runs.toNat ≤ n := h _ _ hr
    exact h.put hle
  | @fetch p s hp _ hs _ _ _ _ _ _ _ _ _ =>
    have hle : p.runs.toNat ≤ n := h _ _ hp
    have hle' : s.runs.toNat ≤ n := h _ _ hs
    have h₁ : RunsAtMost n (b.put (s.unsent 0)) := h.put hle'
    exact h₁.put hle

/-- A process that comes has not run yet, and one that goes does not run. -/
theorem Turnover.runsAtMost (m : Turnover b b') (h : RunsAtMost n b) : RunsAtMost n b' := by
  cases m with
  | reclaim hr =>
    obtain ⟨p, -, -, -, hat⟩ := ProcessTable.reclaim_ok hr
    refine h.of_at? fun i q hq => ?_
    rw [hat] at hq
    split at hq
    · cases hq
    · exact ⟨q, hq, rfl⟩
  | enter ha =>
    obtain ⟨-, rfl⟩ := ProcessTable.alloc_ok ha
    intro i q hq
    rcases ProcessTable.at?_put_cases hq with ⟨-, rfl⟩ | ⟨-, hq⟩
    · exact Nat.zero_le n
    · exact h i q hq

/-- Only taking up a process counts a run. -/
theorem Dispatch.runsAtMost {pid : Pid} (m : Dispatch pid b b') (h : RunsAtMost n b) :
    RunsAtMost (n + 1) b' := by
  cases m with
  | @run p cpu hp _ _ =>
    have hle : p.runs.toNat ≤ n := h _ _ hp
    have hsucc : (p.runs + 1).toNat ≤ n + 1 := by
      rw [UInt64.toNat_add]
      exact Nat.le_trans (Nat.mod_le _ _) (Nat.succ_le_succ hle)
    exact (h.mono (Nat.le_succ n)).put hsucc

end

end Board

end SyncKernel
