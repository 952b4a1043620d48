import SyncKernel.Proofs.ActionRecords
import SyncKernel.Proofs.Deliveries
import SyncKernel.Proofs.PendingSignals

/-!
# Actions that are installed

A process sets the action for a signal by a record in its memory, and the record of the action from
before it is written back to it. A call to exchange an action is carried out or refused as
`Process.exchangeAction` is (`Kernel.syscall_exchanges`), and between two calls an action changes
only if it is set or its handler is called (`Run.action_kept`). So what is written back is the
record that was given last, in its normal form (`Run.writes_back`), and a record that is acceptable
is taken (`Run.installs_of_offers`).
-/

namespace SyncKernel

open Step

/-! ## One call -/

/-- Only signals have actions. -/
theorem SignalState.isSignal_of_action? {s : SignalState} {n : Nat} {a : Action}
    (h : s.action? n = .ok a) : isSignal n = true := by
  unfold action? at h
  split at h
  · next hn => exact SignalSet.isSignal_iff.2 hn
  · cases h

namespace Process

variable {p p' : Process} {m m' : Memory} {n : Nat} {new old : UInt64}

/-- The exchange of an action is not refused if the signal may have another, the record of the new
one is accepted, and there is room for that of the old one. -/
theorem exchangeAction_ok (hn : isSignal n = true) (hk : n ≠ killSignal)
    (read : new ≠ 0 → ∃ bytes a, m.userRead p.space new ActionRecord.byteSize = .ok bytes ∧
      Action.ofRecord? (.ofBytes bytes) = .ok a)
    (room : old ≠ 0 → m.userCheck p.space old ActionRecord.byteSize .toWrite = .ok ()) :
    ∃ p' m', p.exchangeAction m n new old = (.ok (), p', m') := by
  obtain ⟨_, hread⟩ : ∃ wanted, p.wantedAction m new = .ok wanted := by
    by_cases h0 : new = 0
    · exact ⟨none, wantedAction_eq_ok.2 ⟨fun _ => rfl, absurd h0⟩⟩
    · obtain ⟨bytes, a, hbytes, ha⟩ := read h0
      exact ⟨some a, wantedAction_eq_ok.2 ⟨(absurd · h0), fun _ => ⟨bytes, a, hbytes, ha, rfl⟩⟩⟩
  unfold exchangeAction
  dsimp only
  split
  · next hwanted => cases hread.symm.trans hwanted
  next wanted _ =>
  split
  · next hroom =>
    by_cases h0 : old = 0
    · rw [if_pos h0] at hroom
      cases hroom
    · rw [if_neg h0, room h0] at hroom
      cases hroom
  obtain ⟨before, hbefore⟩ := action?_of_isSignal p.signal hn
  rw [changeAction_eq_ok_iff.2 ⟨hk, hbefore, rfl⟩]
  dsimp only
  split
  · exact ⟨_, _, rfl⟩
  next hold =>
  have hspace : (wanted.elim p fun a => { p with signal := p.signal.setAction n a }).space =
      p.space := by
    cases wanted <;> rfl
  have hcheck := room hold
  rw [← before.toRecord.length_toBytes] at hcheck
  obtain ⟨m₁, hwrite⟩ := Memory.exists_userWrite hcheck
  rw [hspace, hwrite]
  exact ⟨_, _, rfl⟩

/-- The exchange of an action that a call with these arguments asks for. -/
def exchange (p : Process) (m : Memory) (args : SyscallArgs) :
    Except Errno Unit × Process × Memory :=
  p.exchangeAction m args.a0.toUInt32.toNat args.a1 args.a2

/-- That a call with these arguments is refused with `e`. A number that is not that of a signal that
may have another action is refused at once, and otherwise the exchange is. -/
def RefusesExchange (p : Process) (m : Memory) (args : SyscallArgs) (e : Errno) : Prop :=
  isSignal args.a0.toUInt32.toNat = true → args.a0.toUInt32.toNat ≠ killSignal →
    (p.exchange m args).1 = .error e

end Process

namespace Kernel

variable {k k' : Kernel} {p : Process} {args : SyscallArgs}

/-- What serving a call to exchange an action comes to: it is carried out, or it is refused. -/
theorem serveSignalAction_exchanges (hp : k.procs.at? p.pid.slot = some p)
    (run : p.status = .running) :
    Ends (serveSignalAction p.pid args) k fun a k' =>
      (a = .ok (.returned 0) ∧ ∃ p', k'.procs.get? p.pid = some p' ∧
        p.exchange k.memory args = (.ok (), p', k'.memory)) ∨
      ∃ e, a = .error e ∧ p.RefusesExchange k.memory args e := by
  rw [serveSignalAction]
  split
  · next hn =>
    refine ends_pure.2 (.inr ⟨_, rfl, fun signal other => ?_⟩)
    simp only [signal, Bool.not_true, Bool.false_or, beq_iff_eq] at hn
    exact absurd hn other
  rw [ends_bind]
  generalize hr : p.exchangeAction k.memory args.a0.toUInt32.toNat args.a1 args.a2 = r
  obtain ⟨a, p', m⟩ := r
  obtain ⟨e, rfl, rfl, rfl⟩ | ⟨rfl, -⟩ := Process.exchangeAction_cases hr
  · refine ends_ofLive_same hp run (by rw [hr]) (ends_pure.2 ?_)
    exact .inr ⟨e, rfl, fun _ _ => congrArg Prod.fst hr⟩
  · refine ends_ofLive_running hp run (by rw [hr]) fun k' hb hm _ => ends_pure.2 ?_
    have hpid : p'.pid = p.pid := (Process.exchangeAction_sameStanding hr).pid
    have hprocs : k'.procs = k.procs.put p' := congrArg Board.procs hb
    refine .inl ⟨rfl, p', ?_, hm ▸ hr⟩
    rw [hprocs, ← hpid]
    exact ProcessTable.get?_pid ProcessTable.at?_put_self

/-- What a call to exchange an action comes to. -/
theorem syscall_exchanges (h : k.board.Sound) (hp : k.procs.at? p.pid.slot = some p)
    (run : p.status = .running) (asked : k.asked? p.pid = some (.signalAction, args)) :
    Ends (syscall p.pid) k fun o k' =>
      (o = .returned 0 ∧ ∃ p₁ p', k'.procs.get? p.pid = some p' ∧ p'.signal = p₁.signal ∧
        p.exchange k.memory args = (.ok (), p₁, k'.memory)) ∨
      ∃ e : Errno, o = .returned e.toWord ∧ p.RefusesExchange k.memory args e := by
  refine (syscall_ends h ⟨p, hp, rfl, run⟩).mono fun o k' ⟨_, hcases⟩ => ?_
  obtain ⟨hnone, -⟩ | ⟨call, args', a, k₁, ans, -, hmem, ret⟩ := hcases
  · cases asked.symm.trans hnone.asked?
  cases asked.symm.trans ans.asked?
  obtain ⟨q, hq, -, -, hserve⟩ := ans
  cases (ProcessTable.get?_pid hp).symm.trans hq
  have hcases := (serveSignalAction_exchanges (k := k.noted (.call ..)) hp run).of_eq hserve
  obtain ⟨rfl, p₁, hp₁, hx⟩ | ⟨e, rfl, refused⟩ := hcases
  · obtain ⟨rfl, q, hq, hpid, -, hat, -⟩ := ret.of_some rfl
    cases (ProcessTable.get?_eq_some.1 hp₁).1.symm.trans hq
    refine .inl ⟨rfl, p₁, _, ProcessTable.get?_eq_some.2 ⟨hat, hpid⟩, rfl, ?_⟩
    rw [hmem]
    exact hx
  · exact .inr ⟨e, ret.outcome, refused⟩

end Kernel

/-! ## Runs -/

/-- In this moment the process `s`, of which `p` is the record, calls with the arguments `args` to
exchange the action for signal `n`, and the call returns 0. -/
structure Moment.Exchanges (m : Moment) (s : Pid) (n : Nat) (p : Process) (args : SyscallArgs) :
    Prop where
  event : m.event = .syscall s
  process : m.before.procs.get? s = some p
  asked : m.before.asked? s = some (.signalAction, args)
  number : args.a0.toUInt32.toNat = n
  answer : m.answer = .served (.returned 0)

/-- The outcome that answers a system call is what the call came to. -/
theorem Event.syscall_of_perform {k k' : Kernel} {s : Pid} {o : SyscallOutcome}
    (step : (Event.syscall s).perform k = .ok (.served o) k') : Kernel.syscall s k = .ok o k' := by
  have hserved : Leaves (Event.syscall s).perform k fun a k' =>
      ∃ o, a = .served o ∧ Kernel.syscall s k = .ok o k' :=
    leaves_map.2 fun o _ hstep => ⟨o, rfl, hstep⟩
  obtain ⟨_, ho, hstep⟩ := hserved _ _ step
  cases ho
  exact hstep

/-- In this moment the process `s` gives the kernel the record `r` for signal `n`, and the kernel
takes it. -/
def Moment.Installs (m : Moment) (s : Pid) (n : Nat) (r : List UInt8) : Prop :=
  ∃ p args, m.Exchanges s n p args ∧ args.a1 ≠ 0 ∧
    m.before.memory.userRead p.space args.a1 ActionRecord.byteSize = .ok r

/-- Between the `i`-th moment and the `j`-th one the process `s` is not reclaimed, it does not set
the action for signal `n`, and its handler for that signal is not called. -/
def KeepsAction (ms : List Moment) (s : Pid) (n i j : Nat) : Prop :=
  ∀ l m, i < l → l < j → ms[l]? = some m → ¬ m.Reclaims s ∧ ¬ m.Sets s n ∧ ¬ m.Handles s n

/-- The process `s` runs and asks for the record `r` to be installed for a signal that may have
another action. If it wants to have the old one, there is room for it. -/
def Kernel.Offers (k : Kernel) (s : Pid) (r : List UInt8) : Prop :=
  ∃ p args, k.procs.get? s = some p ∧ p.status = .running ∧
    k.asked? s = some (.signalAction, args) ∧ isSignal args.a0.toUInt32.toNat = true ∧
    args.a0.toUInt32.toNat ≠ killSignal ∧ args.a1 ≠ 0 ∧
    k.memory.userRead p.space args.a1 ActionRecord.byteSize = .ok r ∧
    (args.a2 ≠ 0 → k.memory.userCheck p.space args.a2 ActionRecord.byteSize .toWrite = .ok ())

namespace Run

variable {clock : Clock} {ms : List Moment} {k : Kernel} {s : Pid} {n i j : Nat} {m m' : Moment}
  {p p' : Process} {args args' : SyscallArgs}

/-- What holds after one moment of a run, and is kept by those between, holds before another. -/
theorem between {P : Kernel → Prop} (run : Run (.boot clock) ms k) (hm : ms[i]? = some m)
    (start : P m.after) (hij : i < j) (hm' : ms[j]? = some m')
    (kept : ∀ l mₗ, i < l → l < j → ms[l]? = some mₗ → P mₗ.before → P mₗ.after) : P m'.before := by
  induction j, hij using Nat.le_induction generalizing m' with
  | base => exact run.before_succ hm hm' ▸ start
  | succ j hij ih =>
    have hlt : j < ms.length := by
      have := (List.getElem?_eq_some_iff.1 hm').1
      omega
    have hprev : ms[j]? = some ms[j] := List.getElem?_eq_getElem hlt
    have hbefore : P ms[j].before :=
      ih hprev fun l mₗ hil hlj => kept l mₗ hil (Nat.lt_succ_of_lt hlj)
    exact run.before_succ hprev hm' ▸ kept j _ hij (Nat.lt_succ_self j) hprev hbefore

/-- In a moment that neither sets an action of a process nor calls its handler, nor reclaims the
process, the action stays. -/
theorem action_kept (run : Run (.boot clock) ms k) (hm : ms[i]? = some m)
    (there : ¬ m.Reclaims s) (unset : ¬ m.Sets s n) (unhandled : ¬ m.Handles s n) {a : Action}
    (h : ∃ p, m.before.procs.get? s = some p ∧ p.signal.action? n = .ok a) :
    ∃ p, m.after.procs.get? s = some p ∧ p.signal.action? n = .ok a := by
  obtain ⟨p, hp, ha⟩ := h
  obtain ⟨run₀, allowed, step⟩ := run.before hm
  obtain ⟨p', hp', -⟩ := Event.exists_held run₀.sound allowed step hp there
  obtain ⟨hat, rfl⟩ := ProcessTable.get?_eq_some.1 hp
  obtain ⟨hat', -⟩ := ProcessTable.get?_eq_some.1 hp'
  have hstep := (Event.signalStep run₀.sound allowed _ _ step _ p p' hat hat').actions n
  obtain hset | hhandled | heq := hstep
  · exact absurd hset unset
  · exact absurd hhandled unhandled
  · exact ⟨p', hp', heq.trans ha⟩

/-- What happened in a moment in which an action is exchanged. -/
theorem of_exchanges (run : Run (.boot clock) ms k) (hm : ms[i]? = some m)
    (h : m.Exchanges s n p args) :
    ∃ wanted before p₁ p', m.after.procs.get? s = some p' ∧ p'.signal = p₁.signal ∧
      p.Exchanges m.before.memory n args.a1 args.a2 wanted before p₁ m.after.memory := by
  obtain ⟨he, hp, asked, rfl, ha⟩ := h
  obtain ⟨run₀, allowed, step⟩ := run.before hm
  rw [he] at allowed
  rw [he, ha] at step
  obtain ⟨q, hq, rfl, running⟩ := Kernel.status_eq_running.1 allowed
  cases (ProcessTable.get?_pid hq).symm.trans hp
  have hcases := (Kernel.syscall_exchanges run₀.sound hq running asked).of_eq
    (Event.syscall_of_perform step)
  obtain ⟨-, p₁, p', hp', hsignal, hx⟩ | ⟨e, h0, -⟩ := hcases
  · obtain ⟨_, herror, -⟩ | ⟨-, wanted, before, hx⟩ := Process.exchangeAction_cases hx
    · cases herror
    · exact ⟨wanted, before, p₁, p', hp', hsignal, hx⟩
  · exact absurd (SyscallOutcome.returned.inj h0).symm e.toWord_ne_zero

/-- An action that a process has installed is there after the moment. -/
theorem action_installed (run : Run (.boot clock) ms k) (hm : ms[i]? = some m) {r : List UInt8}
    (h : m.Installs s n r) : ∃ a, Action.ofRecord? (.ofBytes r) = .ok a ∧
      ∃ p', m.after.procs.get? s = some p' ∧ p'.signal.action? n = .ok a := by
  obtain ⟨p, args, hx, new, read⟩ := h
  obtain ⟨wanted, before, p₁, p', hp', hsignal, hx⟩ := run.of_exchanges hm hx
  obtain ⟨bytes, a, hbytes, ha, rfl⟩ := hx.read new
  cases read.symm.trans hbytes
  obtain ⟨-, hbefore, rfl⟩ := Process.changeAction_eq_ok_iff.1 hx.changed
  refine ⟨a, ha, p', hp', ?_⟩
  rw [hsignal]
  exact SignalState.action?_setAction_self (SignalState.isSignal_of_action? hbefore) a

/-- The record of an action that was installed is what is written back as long as nothing has
replaced the action. -/
theorem writes_back (run : Run (.boot clock) ms k) {r : List UInt8}
    (hr : r.length = ActionRecord.byteSize) (hij : i < j) (hm : ms[i]? = some m)
    (installs : m.Installs s n r) (kept : KeepsAction ms s n i j) (hm' : ms[j]? = some m')
    (asks : m'.Exchanges s n p args) (place : args.a2 ≠ 0) :
    m'.before.memory.userWrite p.space args.a2 (ActionRecord.normalForm r) =
      .ok m'.after.memory := by
  obtain ⟨a, ha, installed⟩ := run.action_installed hm installs
  have hold : ∃ q, m'.before.procs.get? s = some q ∧ q.signal.action? n = .ok a := by
    refine run.between (P := fun k => ∃ q, k.procs.get? s = some q ∧ q.signal.action? n = .ok a)
      hm installed hij hm' fun l mₗ hil hlj hl => ?_
    obtain ⟨there, unset, unhandled⟩ := kept l mₗ hil hlj hl
    exact run.action_kept hl there unset unhandled
  obtain ⟨q, hq, hqa⟩ := hold
  cases asks.process.symm.trans hq
  obtain ⟨wanted, before, p₁, -, -, -, hx⟩ := run.of_exchanges hm' asks
  obtain ⟨-, hbefore, -⟩ := Process.changeAction_eq_ok_iff.1 hx.changed
  cases hqa.symm.trans hbefore
  rw [← (Action.toBytes_of_ofRecord? hr ha).1]
  exact hx.written place

/-- A process that asks for an acceptable record to be installed is not refused. -/
theorem installs_of_offers (run : Run (.boot clock) ms k) {r : List UInt8} (offers : k.Offers s r)
    (acceptable : ActionRecord.Acceptable r) :
    ∃ k', Kernel.syscall s k = .ok (.returned 0) k' := by
  obtain ⟨p, args, hp, running, asked, hn, hk, new, read, room⟩ := offers
  obtain ⟨a, ha⟩ := Action.exists_ofRecord?_eq_ok.2 acceptable
  obtain ⟨hat, rfl⟩ := ProcessTable.get?_eq_some.1 hp
  obtain ⟨p₁, m₁, hx⟩ := Process.exchangeAction_ok hn hk (fun _ => ⟨r, a, read, ha⟩) room
  obtain ⟨o, k', step, ⟨rfl, -⟩ | ⟨e, -, refused⟩⟩ :=
    Kernel.syscall_exchanges run.sound hat running asked
  · exact ⟨k', step⟩
  · have herror := refused hn hk
    rw [Process.exchange, hx] at herror
    cases herror

end Run

/-- A record of 24 bytes is accepted exactly if it is acceptable, and the action that it stands for
is written back as the record in its normal form, from which the same action is read again. So in
every run, a process that gives the kernel an acceptable record for any signal but the kill signal
is not refused. If it asks for the action later, and meanwhile has not been reclaimed, nor set the
action, nor had its handler called, the record in its normal form is written where it asked for
it. -/
theorem ActionRecord.round_trip (r : List UInt8) (hr : r.length = byteSize) :
    ((∃ a, Action.ofRecord? (.ofBytes r) = .ok a) ↔ Acceptable r) ∧
      (∀ a, Action.ofRecord? (.ofBytes r) = .ok a → a.toRecord.toBytes = normalForm r ∧
        Action.ofRecord? (.ofBytes (normalForm r)) = .ok a) ∧
      ∀ {clock : Clock} {ms : List Moment} {k : Kernel}, Run (.boot clock) ms k →
        (∀ s, k.Offers s r → Acceptable r → ∃ k', Kernel.syscall s k = .ok (.returned 0) k') ∧
        ∀ {s : Pid} {n i j : Nat} {m m' : Moment} {p : Process} {args : SyscallArgs}, i < j →
          ms[i]? = some m → m.Installs s n r → KeepsAction ms s n i j → ms[j]? = some m' →
          m'.Exchanges s n p args → args.a2 ≠ 0 →
          m'.before.memory.userWrite p.space args.a2 (normalForm r) = .ok m'.after.memory ∧
            (m'.before.memory.Made → m'.before.memory.Overwrites p.space args.a2.toNat
              (normalForm r) m'.after.memory) := by
  refine ⟨Action.exists_ofRecord?_eq_ok, fun a => Action.toBytes_of_ofRecord? hr,
    fun run => ⟨fun s => run.installs_of_offers, ?_⟩⟩
  intro s n i j m m' p args hij hm installs kept hm' asks place
  have hwrite := run.writes_back hr hij hm installs kept hm' asks place
  exact ⟨hwrite, fun made => made.overwrites hwrite⟩

/-- A record that asks for a handler at `0x1200`, for the signals 9 and 10 to be masked while it
runs, and for the value of the signal. The bytes that have no meaning are not zero. -/
def maskingRecord : List UInt8 :=
  [0, 0x12, 0, 0, 0, 0, 0, 0] ++ [0, 3, 0, 0, 0, 0, 0, 0] ++ [1, 0, 0, 0] ++ [7, 7, 7, 7]

/-- A process gives the kernel a record for signal 10 and asks for the action later. -/
def readBack (m : Memory) : List Event :=
  let frame := ((TrapFrame.newUser 0x1000 0x2000).set .a7 134).set .a0 10
  [.memory m, .spawn 0 (frame.set .a1 0x10010), .schedule 0, .syscall (.ofSlot 1 0),
    .registers (.ofSlot 1 0) (frame.set .a2 0x10040), .syscall (.ofSlot 1 0)]

/-- The record that is read back does not mask the kill signal, and its last bytes are zero. -/
theorem ActionRecord.round_trip_of_readBack :
    Acceptable maskingRecord ∧
      normalForm maskingRecord =
        [0, 0x12, 0, 0, 0, 0, 0, 0] ++ [0, 2, 0, 0, 0, 0, 0, 0] ++ [1, 0, 0, 0] ++ [0, 0, 0, 0] ∧
      ∃ mem ms k m, play (.boot default) (readBack mem) = some (ms, k) ∧ ms[5]? = some m ∧
        m.before.memory.userWrite 0 0x10040 (normalForm maskingRecord) = .ok m.after.memory ∧
        m.after.memory.bytes? 0 0x10040 24 = some (normalForm maskingRecord) := by
  have hplay : ((({} : Memory).map 0 0x10000 0x1000 .userReadWrite).toOption.any fun mem =>
      (mem.store 0 0x10010 maskingRecord).toOption.any fun mem =>
        (play (.boot default) (readBack mem)).any fun r =>
          (r.1[3]?.any fun m =>
            (m.before.procs.get? (.ofSlot 1 0)).any fun p =>
              (m.before.asked? (.ofSlot 1 0)).any fun c =>
                c.1 = .signalAction ∧ c.2.a0.toUInt32.toNat = 10 ∧ c.2.a1 ≠ 0 ∧
                  m.answer = .served (.returned 0) ∧
                  m.before.memory.userRead p.space c.2.a1 24 = .ok maskingRecord) ∧
          (r.1[5]?.any fun m =>
            (m.before.procs.get? (.ofSlot 1 0)).any fun p =>
              (m.before.asked? (.ofSlot 1 0)).any fun c =>
                c.1 = .signalAction ∧ c.2.a0.toUInt32.toNat = 10 ∧ p.space = 0 ∧
                  c.2.a2 = 0x10040 ∧ m.answer = .served (.returned 0) ∧
                  m.after.memory.bytes? 0 0x10040 24 = some (normalForm maskingRecord))) =
      true := by
    decide +kernel
  obtain ⟨_, -, hplay⟩ := Memory.exists_of_any_toOption hplay
  obtain ⟨mem, -, hplay⟩ := Memory.exists_of_any_toOption hplay
  obtain ⟨⟨ms, k⟩, h, hr⟩ := (Option.any_eq_true _ _).1 hplay
  obtain ⟨first, second⟩ := of_decide_eq_true hr
  obtain ⟨m, hm, hfirst⟩ := (Option.any_eq_true _ _).1 first
  obtain ⟨p, hp, hfirst⟩ := (Option.any_eq_true _ _).1 hfirst
  obtain ⟨⟨call, args⟩, asked, hfirst⟩ := (Option.any_eq_true _ _).1 hfirst
  obtain ⟨rfl, number, new, answer, read⟩ := of_decide_eq_true hfirst
  obtain ⟨m', hm', hsecond⟩ := (Option.any_eq_true _ _).1 second
  obtain ⟨p', hp', hsecond⟩ := (Option.any_eq_true _ _).1 hsecond
  obtain ⟨⟨call', args'⟩, asked', hsecond⟩ := (Option.any_eq_true _ _).1 hsecond
  obtain ⟨rfl, number', space, place, answer', bytes⟩ := of_decide_eq_true hsecond
  dsimp only at place
  have event : ∀ {i : Nat} {m : Moment}, ms[i]? = some m → (readBack mem)[i]? = some m.event := by
    intro i m hm
    rw [← events_of_play h, List.getElem?_map, hm]
    rfl
  have installs : m.Installs (.ofSlot 1 0) 10 maskingRecord :=
    ⟨p, args, ⟨(Option.some.inj (event hm)).symm, hp, asked, number, answer⟩, new, read⟩
  have asks : m'.Exchanges (.ofSlot 1 0) 10 p' args' :=
    ⟨(Option.some.inj (event hm')).symm, hp', asked', number', answer'⟩
  -- between the two calls only the registers change
  have kept : KeepsAction ms (.ofSlot 1 0) 10 3 5 := by
    intro l mₗ h3 h5 hl
    obtain rfl : l = 4 := by omega
    have hevent : _ = mₗ.event := Option.some.inj (event hl)
    refine ⟨?_, ?_, ?_⟩
    · rintro ⟨he, -⟩
      cases hevent.trans he
    · rintro ⟨he, -⟩
      cases hevent.trans he
    · rintro ⟨he, -⟩
      cases hevent.trans he
  have accepted : ∃ a, Action.ofRecord? (.ofBytes maskingRecord) = .ok a :=
    ⟨⟨.handlerWithInfo 0x1200, ⟨0x200#64⟩, ⟨true, false, false⟩⟩, by decide⟩
  obtain ⟨hacceptable, -, hrun⟩ := round_trip maskingRecord rfl
  have hplace : args'.a2 ≠ 0 := by
    rw [place]
    decide
  have hwrite := (hrun (Run.of_play h)).2 (by omega) hm installs kept hm' asks hplace
  rw [space, place] at hwrite
  exact ⟨hacceptable.1 accepted, by decide, mem, ms, k, m', h, hm', hwrite.1, bytes⟩

end SyncKernel
