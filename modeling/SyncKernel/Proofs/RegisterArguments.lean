import SyncKernel.Proofs.Course
import SyncKernel.Proofs.Refusals

/-!
# Arguments that are narrower than their registers

The number of a signal and the word of permissions have 32 bits, and the registers that hold them
have 64. A call takes the low half and does not look at the rest (`SyscallArgs.taken`,
`Kernel.serve_taken`), so that a number beyond all signals may stand for a signal. The id of a
target also has 32 bits, but there the whole register is looked at (`Pid.resolve`). Whatever is out
of range as the call takes it (`SyscallArgs.OutOfRange`) is refused before anything is changed
(`Run.out_of_range_refused`).
-/

namespace SyncKernel

open Step

/-! ## What a call takes -/

/-- The arguments as a call takes them: of the number of a signal and of the word of permissions it
takes the low half of the register. -/
def SyscallArgs.taken (args : SyscallArgs) : Syscall → SyscallArgs
  | .signalAction => { args with a0 := args.a0.toUInt32.toUInt64 }
  | .signalSend => { args with a1 := args.a1.toUInt32.toUInt64 }
  | .trySend | .sendTimeout => { args with a4 := args.a4.toUInt32.toUInt64 }
  | _ => args

/-- An argument of a call of the process `pid` is out of range, and the error that tells. -/
inductive SyscallArgs.OutOfRange (t : ProcessTable) (pid : Pid) (args : SyscallArgs) :
    Syscall → Errno → Prop where
  /-- The number of a signal for which an action is exchanged. -/
  | action (hn : ¬ (1 ≤ args.a0.toNat ∧ args.a0.toNat ≤ signalCount)) :
      OutOfRange t pid args .signalAction .invalidArgument
  /-- The number of a signal that is sent to a process that is alive. -/
  | signal {target : Pid} {q : Process} (ht : pid.resolve args.a0 = .ok target)
      (live : t.lookup target = .ok q)
      (hn : ¬ (1 ≤ args.a1.toNat ∧ args.a1.toNat ≤ signalCount)) :
      OutOfRange t pid args .signalSend .invalidArgument
  /-- The word of permissions of a message with a payload. -/
  | permission {call : Syscall} {target : Pid} (hc : call.sends = true)
      (ht : pid.resolve args.a0 = .ok target) (timeout : call = .sendTimeout → args.a5 ≠ 0)
      (size : args.a3 ≠ 0) (hbits : ∃ i, 5 ≤ i ∧ args.a4.toNat.testBit i = true) :
      OutOfRange t pid args call .invalidArgument
  /-- The id of the target of a signal or a message. -/
  | target {call : Syscall} (hc : call = .signalSend ∨ call.sends = true)
      (ht : UInt32.size ≤ args.a0.toNat) : OutOfRange t pid args call .noSuchProcess

section
variable {k : Kernel} {p : Process} {pid target : Pid} {args : SyscallArgs} {call : Syscall}
  {e : Errno} {msg : Message}

/-- A call does the same with the arguments as it takes them. -/
theorem Kernel.serve_taken (pid : Pid) (args : SyscallArgs) (call : Syscall) :
    serve pid (args.taken call) call = serve pid args call := by
  cases call with
  | signalAction | signalSend =>
    simp only [serve, serveSignalAction, serveSignalSend, SyscallArgs.taken,
      UInt32.toUInt32_toUInt64]
  | trySend | sendTimeout =>
    simp only [serve, serveTrySend, serveSendTimeout, SyscallArgs.taken, Message.ofArgs,
      UInt32.toUInt32_toUInt64]
  | _ => rfl

/-- A number that does not fit in an id names no process. -/
theorem Pid.resolve_of_size_le (caller : Pid) {w : UInt64} (h : UInt32.size ≤ w.toNat) :
    caller.resolve w = .error .noSuchProcess := by
  have h0 : w ≠ 0 := by
    rintro rfl
    simp at h
  rw [resolve, if_neg h0, if_neg (Nat.not_lt.2 h)]

/-- A payload with permissions that are not known is refused. -/
theorem Process.checkPayload_of_perm (p : Process) (m : Memory) (size : msg.size ≠ 0)
    (hbits : 32 ≤ msg.perm.toNat) : p.checkPayload m msg = .error .invalidArgument := by
  unfold checkPayload
  rw [if_neg size]
  split
  · rfl
  · rw [PageFlags.ofBits?, if_neg (Nat.not_lt.2 hbits)]

theorem le_of_testBit {n i : Nat} (hi : 5 ≤ i) (h : n.testBit i = true) : 32 ≤ n := by
  have hpow : 2 ^ 5 ≤ 2 ^ i := Nat.pow_le_pow_right (by omega) hi
  exact Nat.le_trans hpow (Nat.ge_two_pow_of_testBit h)

namespace Kernel

/-- A send with a payload whose permissions are not all known ones is refused. -/
theorem serve_perm_refused (hp : k.procs.lookup pid = .ok p) (hc : call.sends = true)
    (ht : pid.resolve args.a0 = .ok target) (timeout : call = .sendTimeout → args.a5 ≠ 0)
    (size : args.a3 ≠ 0) (hperm : 32 ≤ args.a4.toUInt32.toNat) :
    Ends (serve pid args call) k fun a _ => a = .error .invalidArgument := by
  have hpayload : p.checkPayload k.memory (.ofArgs args) = .error .invalidArgument :=
    p.checkPayload_of_perm k.memory size hperm
  cases call with
  | trySend =>
    have hsend : k.toPopulation.trySend pid target (.ofArgs args) =
        .ok (.error .invalidArgument, k.toPopulation) := by
      rw [Population.trySend, hp]
      dsimp only
      rw [hpayload]
    rw [serve, serveTrySend, ht]
    exact ends_bind.2 (ends_ofPopulation.2 ⟨_, _, hsend, ends_pure.2 rfl⟩)
  | sendTimeout =>
    have hsend : k.toPopulation.sendTimeout pid target (.ofArgs args) args.a5 k.clock.now =
        .ok (.error .invalidArgument, k.toPopulation) := by
      rw [Population.sendTimeout, if_neg (timeout rfl), hp]
      dsimp only
      rw [hpayload]
    rw [serve, serveSendTimeout, ht]
    refine ends_bind.2 (ends_get.2 (ends_bind.2 (ends_ofPopulation.2 ⟨_, _, hsend, ?_⟩)))
    exact ends_pure.2 rfl
  | _ => cases hc

/-- A call is refused if an argument is out of range as the call takes it. -/
theorem serve_outOfRange (hp : k.procs.lookup pid = .ok p)
    (h : (args.taken call).OutOfRange k.procs pid call e) :
    Ends (serve pid args call) k fun a _ => a = .error e := by
  rw [← serve_taken]
  cases h with
  | action hn =>
    have hn' : isSignal args.a0.toUInt32.toNat = false :=
      Bool.eq_false_iff.2 fun h => hn (SignalSet.isSignal_iff.1 h)
    rw [serve_taken, serve, serveSignalAction, hn']
    exact ends_pure.2 rfl
  | @signal target q ht live hn =>
    have hn' : isSignal args.a1.toUInt32.toNat = false :=
      Bool.eq_false_iff.2 fun h => hn (SignalSet.isSignal_iff.1 h)
    have hsend : q.sendSignal k.memory args.a1.toUInt32.toNat args.a2 =
        .ok (.error .invalidArgument, q, k.memory) := by
      rw [Process.sendSignal, hn']
      rfl
    have ht' : pid.resolve args.a0 = .ok target := ht
    rw [serve_taken, serve, serveSignalSend, ht']
    refine ends_bind.2 (ends_bind.2 (ends_ofLive.2 (.inr ⟨q, _, _, _, live, hsend, ?_⟩)))
    exact ends_pure.2 (ends_pure.2 rfl)
  | permission hc ht timeout size hbits =>
    obtain ⟨i, hi, hbit⟩ := hbits
    refine serve_perm_refused hp hc ht timeout size ?_
    cases call with
    | trySend | sendTimeout =>
      have hle : 32 ≤ args.a4.toUInt32.toUInt64.toNat := le_of_testBit hi hbit
      simpa only [SyscallArgs.taken, UInt32.toUInt32_toUInt64, UInt32.toNat_toUInt64] using hle
    | _ => cases hc
  | target hc big =>
    have hresolve := pid.resolve_of_size_le big
    cases call with
    | signalSend =>
      rw [serve, serveSignalSend, hresolve]
      exact ends_pure.2 rfl
    | trySend =>
      rw [serve, serveTrySend, hresolve]
      exact ends_pure.2 rfl
    | sendTimeout =>
      rw [serve, serveSendTimeout, hresolve]
      exact ends_pure.2 rfl
    | _ => rcases hc with hc | hc <;> cases hc

end Kernel

end

/-- The call that a process asks for is told by its registers. -/
theorem Kernel.asked?_eq_some {k : Kernel} {pid : Pid} {p : Process} {call : Syscall}
    {args : SyscallArgs} (hp : k.procs.get? pid = some p) (h : k.asked? pid = some (call, args)) :
    Syscall.ofNumber? p.frame.callNumber.toNat = some call ∧ p.frame.callArgs = args := by
  rw [asked?, hp] at h
  simpa using h

/-! ## Runs -/

namespace Run

variable {clock : Clock} {ms : List Moment} {k : Kernel} {p : Process} {pid : Pid} {call : Syscall}
  {args : SyscallArgs}

/-- In every kernel that a run leads to, a system call does with the registers of its process what
it does with the low half of those that hold the number of a signal or a word of permissions. If
what it takes is out of range, or the id of its target does not fit, it returns the error and
changes nothing else. -/
theorem out_of_range_refused (run : Run (.boot clock) ms k) (hp : k.procs.get? pid = some p)
    (running : p.status = .running) (asked : k.asked? pid = some (call, args)) :
    Kernel.serve pid (args.taken call) call = Kernel.serve pid args call ∧
      ∀ e, (args.taken call).OutOfRange k.procs pid call e →
        Kernel.syscall pid k = .ok (.returned e.toWord) (k.afterRefusal p e) := by
  refine ⟨Kernel.serve_taken pid args call, fun e h => ?_⟩
  obtain ⟨hat, rfl⟩ := ProcessTable.get?_eq_some.1 hp
  obtain ⟨hcall, rfl⟩ := Kernel.asked?_eq_some hp asked
  have live : k.procs.lookup p.pid = .ok p := ProcessTable.lookup_of_live hat (by simp [running])
  obtain ⟨_, k', hserve, rfl⟩ := Kernel.serve_outOfRange
    (k := k.noted (.call p.pid p.frame.callNumber p.frame.callArgs.toArray.toList)) live h
  exact Kernel.syscall_refused run.sound hat running (.inr ⟨call, _, k', p, hp, hcall, rfl, hserve⟩)

/-- A process sends itself the signal of a number. -/
def signalOneself (n : UInt64) : List Event :=
  [.spawn 0 (((TrapFrame.newUser 0x1000 0x2000).set .a7 138).set .a1 n), .schedule 0]

/-- There is no signal 65, so the call is refused. But one with a register that holds 10 in its low
half and more in its high half sends signal 10. -/
theorem out_of_range_refused_of_signalOneself :
    (∃ ms k p, play (.boot default) (signalOneself 65) = some (ms, k) ∧
      k.procs.get? (.ofSlot 1 0) = some p ∧
      Kernel.syscall (.ofSlot 1 0) k = .ok (.returned Errno.invalidArgument.toWord)
        (k.afterRefusal p .invalidArgument)) ∧
      ((play (.boot default) (signalOneself 0x10000000a ++ [.syscall (.ofSlot 1 0)])).any fun r =>
        (r.1[2]?.any fun m => m.answer = .served (.returned 0)) ∧
          (r.2.procs.get? (.ofSlot 1 0)).any fun p => p.signal.queue = ⟨[⟨10, 0⟩]⟩) = true := by
  refine ⟨?_, by decide +kernel⟩
  have hplay : (play (.boot default) (signalOneself 65)).any (fun r =>
      (r.2.procs.get? (.ofSlot 1 0)).any fun p =>
        p.status = .running ∧ (r.2.asked? (.ofSlot 1 0)).any fun c =>
          c.1 = .signalSend ∧ c.2.a0 = 0 ∧ c.2.a1 = 65) = true := by
    decide +kernel
  obtain ⟨⟨ms, k⟩, h, hr⟩ := (Option.any_eq_true _ _).1 hplay
  obtain ⟨p, hp, hr⟩ := (Option.any_eq_true _ _).1 hr
  obtain ⟨running, hr⟩ := of_decide_eq_true hr
  obtain ⟨⟨call, args⟩, asked, hr⟩ := (Option.any_eq_true _ _).1 hr
  obtain ⟨rfl, h0, h1⟩ := of_decide_eq_true hr
  have refused := (out_of_range_refused (Run.of_play h) hp running asked).2
  have itself : Pid.resolve (.ofSlot 1 0) args.a0 = .ok (.ofSlot 1 0) := if_pos h0
  have live : k.procs.lookup (.ofSlot 1 0) = .ok p :=
    ProcessTable.lookup_eq_ok.2 ⟨hp, by simp [running]⟩
  have number : args.a1.toUInt32.toNat = 65 := by
    rw [show args.a1 = 65 from h1]
    rfl
  refine ⟨ms, k, p, h, hp, refused _ (.signal itself live ?_)⟩
  show ¬ (1 ≤ args.a1.toUInt32.toNat ∧ args.a1.toUInt32.toNat ≤ signalCount)
  rw [number]
  decide

end Run

end SyncKernel
