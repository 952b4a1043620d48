import SyncKernel.Proofs.Leaves
import SyncKernel.Proofs.Messages

/-!
# What operations do to records

Anybody may ask for an operation, for a process in any state. What it then does to the record of a
process, as long as it does not stop, is one of a few changes, one after the other
(`Process.Change`): it leaves signals alone and lets nobody begin to run (`Process.Aside`), it is
one of the functions on signals, or it buries the process. None of them changes the id of a process,
and a process that runs afterwards ran before, on the same processor (`Process.Changes.running`).
-/

namespace SyncKernel

namespace Process

/-- A change that leaves the id, the signals and the mode of a process alone, and does not bring it
back from the dead. -/
structure SameSignals (p p' : Process) : Prop where
  pid : p'.pid = p.pid
  signal : p'.signal = p.signal
  mode : p'.frame.get .status = p.frame.get .status
  dying : p.status = .dying → p'.status = .dying

/-- A change that leaves the signals of a process alone, and its processor, and does not let it
begin to run. -/
structure Aside (p p' : Process) : Prop extends SameSignals p p' where
  cpu : p'.cpu = p.cpu
  running : p'.status = .running → p.status = .running

/-- One change that operations make in the record of a process, apart from delivering a signal. -/
inductive Change (p : Process) : Process → Prop where
  /-- The signals are left alone. -/
  | aside {p' : Process} (h : p.Aside p') : Change p p'
  /-- An entry is registered or taken back. -/
  | entry {p' : Process} {m : Memory} {address : UInt64}
      (h : p.registerEntry m address = .ok p') : Change p p'
  /-- Actions are exchanged. -/
  | action {p' : Process} {m m' : Memory} {n : Nat} {new old : UInt64} {a : Except Errno Unit}
      (h : p.exchangeAction m n new old = (a, p', m')) : Change p p'
  /-- A pending signal is taken, or the process begins to wait for one. -/
  | await {p' : Process} {m m' : Memory} {accept : SignalSet} {destination : UInt64}
      {a : Except Errno (Option Nat)} (live : p.status ≠ .dying)
      (h : p.awaitSignal m accept destination = (a, p', m')) : Change p p'
  /-- A handler is left. -/
  | leave {p' : Process} {m : Memory} {address : UInt64} (h : p.leaveHandler m address = .ok p') :
      Change p p'
  /-- A signal is sent. -/
  | sent {p' : Process} {m m' : Memory} {n : Nat} {value : UInt64} {a : Except Errno Sent}
      (live : p.status ≠ .dying) (h : p.sendSignal m n value = .ok (a, p', m')) : Change p p'
  /-- The process is destroyed. -/
  | buried : Change p { p.bury with futex := none }

/-- Any number of changes, one after the other. -/
abbrev Changes : Process → Process → Prop :=
  Relation.ReflTransGen Change

variable {p p' q : Process} {m m' : Memory}

/-! ## Changes aside from signals -/

namespace SameSignals

theorem refl (p : Process) : p.SameSignals p :=
  ⟨rfl, rfl, rfl, id⟩

theorem trans (h : p.SameSignals q) (h' : q.SameSignals p') : p.SameSignals p' where
  pid := h'.pid.trans h.pid
  signal := h'.signal.trans h.signal
  mode := h'.mode.trans h.mode
  dying hd := h'.dying (h.dying hd)

instance : Std.Refl SameSignals := ⟨refl⟩

instance : IsTrans Process SameSignals := ⟨fun _ _ _ => trans⟩

end SameSignals

namespace Aside

theorem refl (p : Process) : p.Aside p :=
  ⟨.refl p, rfl, id⟩

theorem trans (h : p.Aside q) (h' : q.Aside p') : p.Aside p' where
  toSameSignals := h.toSameSignals.trans h'.toSameSignals
  cpu := h'.cpu.trans h.cpu
  running run := h.running (h'.running run)

instance : Std.Refl Aside := ⟨refl⟩

instance : IsTrans Process Aside := ⟨fun _ _ _ => trans⟩

/-- A result that is put into the registers. -/
theorem answer (p : Process) (v : UInt64) : p.Aside { p with frame := p.frame.setReturn v } :=
  ⟨⟨rfl, rfl, TrapFrame.get_setReturn_of_ne _ _ nofun, id⟩, rfl, id⟩

/-- A process that is not dying is blocked or made runnable. -/
theorem of_status (hp : p.status ≠ .dying) (hs : p'.status = .blocked ∨ p'.status = .runnable)
    (pid : p'.pid = p.pid) (cpu : p'.cpu = p.cpu) (signal : p'.signal = p.signal)
    (mode : p'.frame.get .status = p.frame.get .status) : p.Aside p' where
  pid := pid
  cpu := cpu
  signal := signal
  mode := mode
  running run := by rcases hs with hs | hs <;> simp [hs] at run
  dying hd := absurd hd hp

/-- Handing a message to a process leaves its signals, and it does not begin to run. -/
theorem handed (hr : p.Receives) (sender : Pid) (value size : UInt64) (perm : UInt32) :
    p.Aside (p.handed sender value size perm) :=
  .of_status (by simp [hr.1]) (.inr rfl) rfl rfl rfl (TrapFrame.get_setReturn_of_ne _ _ nofun)

/-- Ending a waiting send leaves the signals of the sender, and it does not begin to run. -/
theorem unsent (hb : p.status = .blocked) (result : UInt64) : p.Aside (p.unsent result) :=
  .of_status (by simp [hb]) (.inr rfl) rfl rfl rfl (TrapFrame.get_setReturn_of_ne _ _ nofun)

/-- Ending a receive leaves the signals of the receiver, and it does not begin to run. -/
theorem expired (hb : p.status = .blocked) : p.Aside p.expired :=
  .of_status (by simp [hb]) (.inr rfl) rfl rfl rfl (TrapFrame.get_setReturn_of_ne _ _ nofun)

/-- Registering a list of locks leaves the signals of a process. -/
theorem robust {head length : UInt64} (h : p.setRobustList m head length = .ok p') :
    p.Aside p' := by
  unfold setRobustList at h
  split at h
  · cases h
    exact ⟨⟨rfl, rfl, rfl, id⟩, rfl, id⟩
  · split at h
    · cases h
    · split at h
      · cases h
      · cases h
        exact ⟨⟨rfl, rfl, rfl, id⟩, rfl, id⟩

end Aside

/-- Only a blocked process is woken. -/
theorem blocked_of_wake {result : UInt64} (h : p.wake result = .ok p') : p.status = .blocked := by
  by_contra hb
  rw [wake, if_neg hb] at h
  cases h

/-- Only the receive of a blocked process is ended at its deadline. -/
theorem blocked_of_expireReceive (h : p.expireReceive = .ok p') : p.status = .blocked := by
  unfold expireReceive at h
  have hb := blocked_of_wake h
  exact hb

/-- Only the waiting send of a blocked process is ended. -/
theorem blocked_of_finishSend {result : UInt64} (h : p.finishSend result = .ok p') :
    p.status = .blocked := by
  unfold finishSend at h
  have hb := blocked_of_wake h
  exact hb

/-! ## All changes -/

namespace Change

/-- No change of a record changes the id. -/
theorem pid (h : p.Change p') : p'.pid = p.pid := by
  cases h with
  | aside h => exact h.pid
  | entry h => exact (registerEntry_sameStanding h).pid
  | action h => exact (exchangeAction_sameStanding h).pid
  | await _ h =>
    cases awaitSignal_awaits h with
    | refused | taken | waits => rfl
  | leave h => exact (leaveHandler_sameStanding h).pid
  | sent _ h => exact (signalled_of_sendSignal h).pid
  | buried => rfl

/-- No change lets a process begin to run or go on on another processor. -/
theorem running (h : p.Change p') (run : p'.status = .running) :
    p.status = .running ∧ p'.cpu = p.cpu := by
  have same : SameStanding p p' → p.status = .running ∧ p'.cpu = p.cpu :=
    fun hs => ⟨hs.status ▸ run, hs.cpu⟩
  cases h with
  | aside h => exact ⟨h.running run, h.cpu⟩
  | entry h => exact same (registerEntry_sameStanding h)
  | action h => exact same (exchangeAction_sameStanding h)
  | await _ h =>
    cases awaitSignal_awaits h with
    | refused | taken => exact ⟨run, rfl⟩
    | waits => cases run
  | leave h => exact same (leaveHandler_sameStanding h)
  | sent _ h =>
    cases signalled_of_sendSignal h with
    | refused | merged | queued | lost => exact ⟨run, rfl⟩
    | interrupted | handed => cases run
  | buried => cases run

end Change

namespace Changes

theorem pid (h : p.Changes p') : p'.pid = p.pid := by
  induction h with
  | refl => rfl
  | tail _ hc ih => exact hc.pid.trans ih

/-- A process that runs after changes of its record ran before, on the same processor. -/
theorem running (h : p.Changes p') (run : p'.status = .running) :
    p.status = .running ∧ p'.cpu = p.cpu := by
  induction h with
  | refl => exact ⟨run, rfl⟩
  | tail _ hc ih =>
    obtain ⟨hq, hcpu⟩ := hc.running run
    obtain ⟨hp, hcpu'⟩ := ih hq
    exact ⟨hp, hcpu.trans hcpu'⟩

end Changes

end Process

end SyncKernel
