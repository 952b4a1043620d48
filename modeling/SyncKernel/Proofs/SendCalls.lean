import SyncKernel.Proofs.Rendezvous

/-!
# The calls behind messages

A process that waits to send has waited without a break since a call of its own asked for it
(`Run.call_of_waits`). So each message that is received can be traced to one call, and a call that
was received is over with success in the same moment: no message is received twice, none is received
whose send failed or whose sender was destroyed, and none that nobody sent.
-/

namespace SyncKernel

open Board

namespace Board

variable {b b' b₁ : Board} {p p' : Process} {pid : Pid} {now : Millis} {i : Fin slotCount}

/-- Who waits to send did so before, to get rid of the same message. -/
def NoneBegins (b b' : Board) : Prop :=
  ∀ i p', b'.procs.at? i = some p' → p'.Sends →
    ∃ p, b.procs.at? i = some p ∧ p.pid = p'.pid ∧ p.Sends ∧ p'.send = p.send

theorem NoneBegins.trans (h : NoneBegins b b₁) (h' : NoneBegins b₁ b') : NoneBegins b b' := by
  intro i p' hp' hs'
  obtain ⟨q, hq, hpid, hs, hsend⟩ := h' i p' hp' hs'
  obtain ⟨p, hp, hpid', hsp, hsend'⟩ := h i q hq hs
  exact ⟨p, hp, hpid'.trans hpid, hsp, hsend.trans hsend'⟩

/-- Who is blocked was there as it is. -/
def NoneBlocks (b b' : Board) : Prop :=
  ∀ i p', b'.procs.at? i = some p' → p'.status = .blocked → b.procs.at? i = some p'

/-- Nobody blocks when a process comes or goes. -/
theorem Turnover.noneBlocks (m : Turnover b b') : NoneBlocks b b' := fun i p' hp' hb => by
  cases m with
  | reclaim hr =>
    obtain ⟨-, -, -, -, hat⟩ := ProcessTable.reclaim_ok hr
    rw [hat] at hp'
    split at hp'
    · cases hp'
    · exact hp'
  | enter ha =>
    obtain ⟨-, rfl⟩ := ProcessTable.alloc_ok ha
    rcases ProcessTable.at?_put_cases hp' with ⟨-, rfl⟩ | ⟨-, hp⟩
    · cases hb
    · exact hp

/-- Nobody blocks when a processor takes up a process. -/
theorem Dispatch.noneBlocks (m : Dispatch pid b b') : NoneBlocks b b' := fun i p' hp' hb => by
  cases m with
  | run =>
    rcases ProcessTable.at?_put_cases hp' with ⟨-, rfl⟩ | ⟨-, hp⟩
    · cases hb
    · exact hp

/-- Nobody blocks when a message passes. -/
theorem Pass.noneBlocks {sender receiver : Pid} {value : UInt64}
    (m : Pass sender receiver value b b') : NoneBlocks b b' := fun i p' hp' hb => by
  cases m with
  | send =>
    rcases ProcessTable.at?_put_cases hp' with ⟨-, rfl⟩ | ⟨-, hp⟩
    · cases hb
    · exact hp
  | fetch =>
    rcases ProcessTable.at?_put_cases hp' with ⟨-, rfl⟩ | ⟨-, hp'⟩
    · cases hb
    rcases ProcessTable.at?_put_cases hp' with ⟨-, rfl⟩ | ⟨-, hp⟩
    · cases hb
    · exact hp

/-- Nobody begins to wait to send if nobody blocks. -/
theorem NoneBlocks.noneBegins (h : NoneBlocks b b') : NoneBegins b b' :=
  fun i p' hp' hs => ⟨p', h i p' hp' hs.1, rfl, hs, rfl⟩

/-- Nobody begins to wait to send in moves. -/
theorem Drifts.noneBegins (hd : Drifts b b') : NoneBegins b b' := fun i p' hp' hs' => by
  obtain ⟨p, hp, hdrift⟩ := hd.exists_before hp'
  obtain ⟨hs, hsend⟩ := hdrift.begun hs'
  exact ⟨p, hp, hdrift.pid.symm, hs, hsend⟩

/-- A process that blocks in a receive does not wait to send. -/
theorem Ask.noneBegins (m : Ask now pid none b b') (h : b.Sound) : NoneBegins b b' := by
  intro i p' hp' hs'
  cases m with
  | receive hp _ run =>
    rcases ProcessTable.at?_put_cases hp' with ⟨-, rfl⟩ | ⟨-, hp⟩
    · have hsending := (h.settled hp).sending_eq_false (by simp [run])
      cases hsending.symm.trans hs'.2
    · exact ⟨p', hp, rfl, hs', rfl⟩

/-- Only a process that asks to send a message begins to wait to send, and what it sends is that
message. -/
theorem Ask.begins {target : Pid} {msg : Message} (m : Ask now pid (some (target, msg)) b b')
    (hp' : b'.procs.at? i = some p') (hs : p'.Sends) :
    b.procs.at? i = some p' ∨
      p'.pid = pid ∧ p'.send.target = some target ∧ p'.send.message = msg := by
  cases m with
  | send =>
    rcases ProcessTable.at?_put_cases hp' with ⟨-, rfl⟩ | ⟨-, hp⟩
    · exact .inr ⟨‹_›, rfl, rfl⟩
    · exact .inl hp

end Board

/-- A process that waits to send did so before the event, or the event is its call for the message
to be sent. -/
theorem Effect.begun {k k' : Kernel} {e : Event} {a : Answer} {i : Fin slotCount}
    {p' : Process} (m : Effect k e a k') (h : k.board.Sound) (hp' : k'.procs.at? i = some p')
    (hs' : p'.Sends) :
    (∃ p, k.board.procs.at? i = some p ∧ p.pid = p'.pid ∧ p.Sends ∧ p'.send = p.send) ∨
      e = .syscall p'.pid ∧ ∃ call args target k', k.Answers p'.pid call args (.ok .blocked) k' ∧
        call.sends = true ∧ p'.pid.resolve args.a0 = .ok target ∧
        p'.send.target = some target ∧ p'.send.message = .ofArgs args := by
  have moved : ∀ {b₁ : Board}, Moves k.clock.now k.board b₁ → NoneBegins k.board b₁ :=
    fun hm => (hm.drifts h).noneBegins
  cases m with
  | deed _ hd _ => exact .inl (moved hd.moves i p' hp' hs')
  | turnover _ _ ht => exact .inl (ht.noneBlocks.noneBegins i p' hp' hs')
  | idle hl hb => exact .inl (moved (hb ▸ hl.moves.tail (.release _ _)) i p' hp' hs')
  | dispatch hl hd =>
    exact .inl ((moved (hl.moves.tail (.release _ _))).trans hd.noneBlocks.noneBegins i p' hp' hs')
  | unknown _ hr => exact .inl (moved (hr.moves _) i p' hp' hs')
  | @served pid call args a k₁ o _ ans ho _ hr =>
    have hsound : k₁.board.Sound := ho.sound h
    have returned : NoneBegins k₁.board k'.board :=
      ((hr.moves 0).drifts hsound).noneBegins
    generalize k₁.board = b₁ at ho hr returned
    cases ho with
    | deed _ _ hd _ => exact .inl ((moved hd.moves).trans returned i p' hp' hs')
    | refused => exact .inl (returned i p' hp' hs')
    | sent _ _ hpass | received _ hpass =>
      exact .inl (hpass.noneBlocks.noneBegins.trans returned i p' hp' hs')
    | asksToReceive _ hask => exact .inl ((hask.noneBegins h).trans returned i p' hp' hs')
    | @asksToSend _ _ target hs ht hask =>
      obtain ⟨-, rfl⟩ := hr.of_none rfl
      obtain hp | ⟨rfl, htarget, hmsg⟩ := hask.begins hp' hs'
      · exact .inl ⟨p', hp, rfl, hs', rfl⟩
      · exact .inr ⟨rfl, call, args, target, k₁, ans, hs, ht, htarget, hmsg⟩

/-! ## Calls -/

/-- The process `s` waits to send. -/
def Kernel.WaitsToSend (k : Kernel) (s : Pid) : Prop :=
  ∃ p, k.procs.get? s = some p ∧ p.Sends

/-- In the moment `i` the process `s` calls for a message to be sent, and the call is answered. -/
def CallsToSend (ms : List Moment) (i : Nat) (s : Pid) (args : SyscallArgs)
    (answer : Except Errno SyscallOutcome) : Prop :=
  ∃ m call, ms[i]? = some m ∧ m.Answers s call args answer ∧ call.sends = true

/-- The call to send that the process `s` makes in the moment `i` is under way in the moment `j`. -/
inductive UnderWay (ms : List Moment) (s : Pid) (i : Nat) : Nat → Prop where
  /-- It is made in this moment. -/
  | now : UnderWay ms s i i
  /-- It blocked its caller, which has waited to send ever since. -/
  | since {j : Nat} {args : SyscallArgs} (before : i < j)
      (call : CallsToSend ms i s args (.ok .blocked))
      (wait : ∀ l m, i < l → l ≤ j → ms[l]? = some m → m.before.WaitsToSend s) : UnderWay ms s i j

/-- The message `v` of the call to send to the process `t` that the process `s` makes in the moment
`i` is received in the moment `j`. -/
structure Accepted (ms : List Moment) (i j : Nat) (s t : Pid) (v : UInt64) : Prop where
  call : ∃ args answer, CallsToSend ms i s args answer ∧ s.resolve args.a0 = .ok t ∧ args.a1 = v
  underWay : UnderWay ms s i j
  received : ∃ m, ms[j]? = some m ∧ m.Received s t v

/-- What becomes of a call. -/
inductive CallEnd where
  /-- It returns a word. -/
  | returned (word : UInt64)
  /-- Its caller is destroyed while it is blocked. -/
  | destroyed

/-- The call to send that the process `s` makes in the moment `i` ends in a moment. -/
inductive SendEnds (ms : List Moment) (s : Pid) (i : Nat) : Nat → CallEnd → Prop where
  /-- It does not block. -/
  | atOnce {args : SyscallArgs} {answer : Except Errno SyscallOutcome} {word : UInt64}
      (call : CallsToSend ms i s args answer) (h : returnWord answer = some word) :
      SendEnds ms s i i (.returned word)
  /-- The caller does not wait to send any more. -/
  | woken {j : Nat} {m : Moment} {p : Process} {word : UInt64} (before : i < j)
      (underWay : UnderWay ms s i j) (hm : ms[j]? = some m)
      (after : m.after.procs.get? s = some p) (live : p.status ≠ .dying) (ended : ¬ p.Sends)
      (result : p.frame.get .a0 = word) : SendEnds ms s i j (.returned word)
  /-- The caller is destroyed. -/
  | destroyed {j : Nat} {m : Moment} (before : i < j) (underWay : UnderWay ms s i j)
      (hm : ms[j]? = some m) (gone : ∀ p, m.after.procs.get? s = some p → p.status = .dying) :
      SendEnds ms s i j .destroyed

section
variable {clock : Clock} {ms : List Moment} {k : Kernel} {s t : Pid} {v : UInt64} {i i' j j' : Nat}
  {m : Moment} {args args' : SyscallArgs} {answer answer' : Except Errno SyscallOutcome}

/-- A process makes one call in a moment, and it is answered in one way. -/
theorem CallsToSend.unique (h : CallsToSend ms i s args answer)
    (h' : CallsToSend ms i s args' answer') : args = args' ∧ answer = answer' := by
  obtain ⟨m, _, hm, ans, -⟩ := h
  obtain ⟨m', _, hm', ans', -⟩ := h'
  cases hm.symm.trans hm'
  exact (ans.unique ans').2.2

/-- A process that makes a call does not wait to send. -/
theorem Run.not_waits (run : Run (.boot clock) ms k) (hm : ms[i]? = some m) {call : Syscall}
    (ans : m.Answers s call args answer) : ¬ m.before.WaitsToSend s := by
  rintro ⟨p, hp, hs⟩
  obtain ⟨he, -⟩ := ans
  obtain ⟨-, allowed, -⟩ := run.effect hm
  rw [he] at allowed
  obtain ⟨q, hq, rfl, hrun⟩ := Kernel.status_eq_running.1 allowed
  cases (ProcessTable.get?_pid hq).symm.trans hp
  cases hrun.symm.trans hs.1

namespace UnderWay

/-- The caller waits to send after the moment of the call. -/
theorem waits (way : UnderWay ms s i j) (hi : i < i') (hj : i' ≤ j) (hm : ms[i']? = some m) :
    m.before.WaitsToSend s := by
  cases way with
  | now => exact absurd hi (Nat.not_lt.2 hj)
  | since _ _ wait => exact wait i' m hi hj hm

/-- A call is under way from the moment in which it is made. -/
theorem le (way : UnderWay ms s i j) : i ≤ j := by
  cases way with
  | now => exact Nat.le_refl _
  | since before _ _ => exact Nat.le_of_lt before

/-- A call is under way in one more moment if its caller waits to send there. -/
theorem succ (way : UnderWay ms s i j) (call : CallsToSend ms i s args (.ok .blocked))
    (hm : ms[j + 1]? = some m) (wait : m.before.WaitsToSend s) : UnderWay ms s i (j + 1) := by
  refine .since (Nat.lt_succ_of_le way.le) call fun l m' hi hl hm' => ?_
  rcases Nat.lt_or_eq_of_le hl with hlt | rfl
  · exact way.waits hi (Nat.le_of_lt_succ hlt) hm'
  · cases hm.symm.trans hm'
    exact wait

/-- While a call is under way, its caller makes no other. -/
theorem not_calls (run : Run (.boot clock) ms k) (way : UnderWay ms s i j)
    (call : CallsToSend ms i' s args answer) (hi : i < i') : j < i' := by
  by_contra hle
  obtain ⟨m, call, hm, ans, -⟩ := call
  exact run.not_waits hm ans (way.waits hi (Nat.not_lt.1 hle) hm)

/-- At most one call of a process is under way. -/
theorem unique (run : Run (.boot clock) ms k) (way : UnderWay ms s i j) (way' : UnderWay ms s i' j)
    (call : CallsToSend ms i s args answer) (call' : CallsToSend ms i' s args' answer') :
    i = i' := by
  rcases Nat.lt_trichotomy i i' with hlt | heq | hlt
  · exact absurd (way.not_calls run call' hlt) (Nat.not_lt.2 way'.le)
  · exact heq
  · exact absurd (way'.not_calls run call hlt) (Nat.not_lt.2 way.le)

/-- A call is not under way after a moment that its caller does not leave waiting to send. -/
theorem le_of_not_waits (run : Run (.boot clock) ms k) (way : UnderWay ms s i j')
    (hj' : j' < ms.length) (hi : i < j) (hm : ms[j]? = some m)
    (ended : ¬ m.after.WaitsToSend s) : j' ≤ j := by
  by_contra hlt
  have hnext : j + 1 ≤ j' := Nat.lt_of_not_le hlt
  have hm' : ms[j + 1]? = some ms[j + 1] := List.getElem?_eq_getElem (Nat.lt_of_le_of_lt hnext hj')
  have hw := way.waits (Nat.lt_succ_of_lt hi) hnext hm'
  rw [run.before_succ hm hm'] at hw
  exact ended hw

end UnderWay

namespace SendEnds

variable {e e' : CallEnd}

/-- A call that ends is under way until then. -/
theorem underWay (h : SendEnds ms s i j e) : UnderWay ms s i j := by
  cases h with
  | atOnce => exact .now
  | woken _ way => exact way
  | destroyed _ way => exact way

/-- A call that ends was made. -/
theorem calls (h : SendEnds ms s i j e) : ∃ args answer, CallsToSend ms i s args answer := by
  have of_way : i < j → UnderWay ms s i j → ∃ args answer, CallsToSend ms i s args answer := by
    intro before way
    cases way with
    | now => exact absurd before (Nat.lt_irrefl _)
    | since _ call _ => exact ⟨_, _, call⟩
  cases h with
  | atOnce call _ => exact ⟨_, _, call⟩
  | woken before way => exact of_way before way
  | destroyed before way => exact of_way before way

/-- A call ends in a moment of the run. -/
theorem lt_length (h : SendEnds ms s i j e) : j < ms.length := by
  cases h with
  | atOnce call _ =>
    obtain ⟨_, _, hm, -⟩ := call
    exact (List.getElem?_eq_some_iff.1 hm).1
  | woken _ _ hm => exact (List.getElem?_eq_some_iff.1 hm).1
  | destroyed _ _ hm => exact (List.getElem?_eq_some_iff.1 hm).1

/-- A call is not under way any more after it has ended. -/
theorem le_of_underWay (run : Run (.boot clock) ms k) (h : SendEnds ms s i j e)
    (way : UnderWay ms s i j') (hj' : j' < ms.length) : j' ≤ j := by
  cases h with
  | atOnce call hw =>
    cases way with
    | now => exact Nat.le_refl _
    | since _ call' _ =>
      obtain ⟨-, rfl⟩ := call.unique call'
      cases hw
  | woken before _ hm after _ ended _ =>
    refine way.le_of_not_waits run hj' before hm ?_
    rintro ⟨p, hp, hs⟩
    cases after.symm.trans hp
    exact ended hs
  | destroyed before _ hm gone =>
    refine way.le_of_not_waits run hj' before hm ?_
    rintro ⟨p, hp, hs⟩
    cases (gone p hp).symm.trans hs.1

/-- A call ends once, in one way. -/
theorem unique (run : Run (.boot clock) ms k) (h : SendEnds ms s i j e)
    (h' : SendEnds ms s i j' e') : j = j' ∧ e = e' := by
  obtain rfl : j = j' := Nat.le_antisymm (h'.le_of_underWay run h.underWay h.lt_length)
    (h.le_of_underWay run h'.underWay h'.lt_length)
  refine ⟨rfl, ?_⟩
  cases h with
  | atOnce call hw =>
    cases h' with
    | atOnce call' hw' =>
      obtain ⟨-, rfl⟩ := call.unique call'
      cases hw.symm.trans hw'
      rfl
    | woken before | destroyed before => exact absurd before (Nat.lt_irrefl _)
  | woken before _ hm after live ended result =>
    cases h' with
    | atOnce => exact absurd before (Nat.lt_irrefl _)
    | woken _ _ hm' after' _ _ result' =>
      cases hm.symm.trans hm'
      cases after.symm.trans after'
      exact congrArg _ (result.symm.trans result')
    | destroyed _ _ hm' gone =>
      cases hm.symm.trans hm'
      exact absurd (gone _ after) live
  | destroyed before _ hm gone =>
    cases h' with
    | atOnce => exact absurd before (Nat.lt_irrefl _)
    | woken _ _ hm' after' live' =>
      cases hm.symm.trans hm'
      exact absurd (gone _ after') live'
    | destroyed => rfl

end SendEnds

namespace Run

/-- A process that waits to send is blocked in a call of its own for the message. The induction is
on the moments: the wait began in the moment before, or went on there. -/
theorem call_of_waits (run : Run (.boot clock) ms k) (hm : ms[j]? = some m) {p : Process}
    (hp : m.before.procs.get? s = some p) (hs : p.Sends) :
    ∃ i args t, CallsToSend ms i s args (.ok .blocked) ∧ UnderWay ms s i j ∧ i < j ∧
      s.resolve args.a0 = .ok t ∧ p.send.target = some t ∧ p.send.message = .ofArgs args := by
  induction j generalizing m p with
  | zero =>
    rw [run.before_zero hm] at hp
    cases hp
  | succ j ih =>
    have hwait : m.before.WaitsToSend s := ⟨p, hp, hs⟩
    have hj : j < ms.length := Nat.lt_of_succ_lt (List.getElem?_eq_some_iff.1 hm).1
    have hm₀ : ms[j]? = some ms[j] := List.getElem?_eq_getElem hj
    obtain ⟨hsound, -, heffect⟩ := run.effect hm₀
    rw [run.before_succ hm₀ hm] at hp
    obtain ⟨hat, rfl⟩ := ProcessTable.get?_eq_some.1 hp
    obtain ⟨q, hq, hpid, hs₀, hsend⟩ | ⟨he, call, args, t, k₁, ans, hc, ht, htarget, hmsg⟩ :=
      heffect.begun hsound hat hs
    · have hq₀ : ms[j].before.procs.get? p.pid = some q := ProcessTable.get?_eq_some.2 ⟨hq, hpid⟩
      obtain ⟨i, args, t, hcall, way, hij, ht, htarget, hmsg⟩ := ih hm₀ hq₀ hs₀
      exact ⟨i, args, t, hcall, way.succ hcall hm hwait, Nat.lt_succ_of_lt hij, ht,
        hsend ▸ htarget, hsend ▸ hmsg⟩
    · have hcall : CallsToSend ms j p.pid args (.ok .blocked) :=
        ⟨ms[j], call, hm₀, ⟨he, k₁, ans⟩, hc⟩
      exact ⟨j, args, t, hcall, UnderWay.now.succ hcall hm hwait, Nat.lt_succ_self j, ht, htarget,
        hmsg⟩

/-- A received message is that of a call. -/
theorem exists_accepted (run : Run (.boot clock) ms k) (hm : ms[j]? = some m)
    (h : m.Received s t v) : ∃ i, Accepted ms i j s t v := by
  obtain ⟨hsound, allowed, heffect⟩ := run.effect hm
  have hsent : m.Sent s t v :=
    (Moment.received_iff_sent hsound (heffect.traffic hsound allowed)).1 h
  cases hsent with
  | waited before wait message =>
    obtain ⟨i, args, t', hcall, way, -, ht, htarget, hmsg⟩ :=
      run.call_of_waits hm before wait.sends
    cases wait.2.2.symm.trans htarget
    rw [hmsg] at message
    exact ⟨i, ⟨args, _, hcall, ht, message⟩, way, m, hm, h⟩
  | atOnce ans sends ht value =>
    exact ⟨j, ⟨_, _, ⟨m, _, hm, ans, sends⟩, ht, value⟩, .now, m, hm, h⟩

/-- A call whose message is received ends there with success. -/
theorem ends_of_accepted (run : Run (.boot clock) ms k) (h : Accepted ms i j s t v) :
    SendEnds ms s i j (.returned 0) := by
  obtain ⟨m, hm, hrcv⟩ := h.received
  obtain ⟨args, answer, hcall, -⟩ := h.call
  obtain ⟨hsound, allowed, heffect⟩ := run.effect hm
  have hsent : m.Sent s t v :=
    (Moment.received_iff_sent hsound (heffect.traffic hsound allowed)).1 hrcv
  cases hsent with
  | @waited p _ before wait _ after live ended result =>
    have hwait : m.before.WaitsToSend s := ⟨p, before, wait.sends⟩
    have hij : i ≠ j := by
      rintro rfl
      obtain ⟨m', _, hm', ans, -⟩ := hcall
      cases hm.symm.trans hm'
      exact run.not_waits hm ans hwait
    exact .woken (Nat.lt_of_le_of_ne h.underWay.le hij) h.underWay hm after live
      (Process.not_sends_of_new ended) result
  | atOnce ans sends _ _ =>
    have hcall' : CallsToSend ms j s _ _ := ⟨m, _, hm, ans, sends⟩
    obtain rfl : i = j := h.underWay.unique run .now hcall hcall'
    exact .atOnce hcall' rfl

/-- The message of a call that ends with success is received there. -/
theorem accepted_of_ends (run : Run (.boot clock) ms k) (h : SendEnds ms s i j (.returned 0)) :
    ∃ t v, Accepted ms i j s t v := by
  have received : ∃ m t v, ms[j]? = some m ∧ m.Received s t v := by
    cases h with
    | @atOnce _ answer _ call hw =>
      obtain ⟨m, _, hm, ans, sends⟩ := call
      obtain ⟨hsound, allowed, heffect⟩ := run.effect hm
      cases returnWord_eq_zero hw
      obtain ⟨t, v, hrcv⟩ := Moment.received_of_answers (heffect.traffic hsound allowed) ans sends
      exact ⟨m, t, v, hm, hrcv⟩
    | @woken _ m _ _ before way hm after live ended result =>
      obtain ⟨hsound, allowed, heffect⟩ := run.effect hm
      obtain ⟨p, hp, wait⟩ := way.waits before (Nat.le_refl _) hm
      obtain ⟨t, v, hrcv⟩ := Moment.received_of_ended hsound (heffect.traffic hsound allowed) hp
        wait after live ended result
      exact ⟨m, t, v, hm, hrcv⟩
  obtain ⟨m, t, v, hm, hrcv⟩ := received
  obtain ⟨i', hacc⟩ := run.exists_accepted hm hrcv
  obtain ⟨_, _, hcall⟩ := h.calls
  obtain ⟨_, _, hcall', -⟩ := hacc.call
  obtain rfl : i = i' := h.underWay.unique run hacc.underWay hcall hcall'
  exact ⟨t, v, hacc⟩

/-- In every moment of a run a receive ends with the message of a process exactly if a send of that
message ends with success. Each message that is received is that of one call to send, and a call is
received at most once, in the moment in which it ends with success; so a call that ends otherwise,
because it is refused or gives up or its caller is destroyed, is never received. -/
theorem exactly_once (run : Run (.boot clock) ms k) :
    (∀ m ∈ ms, ∀ s t v, m.Received s t v ↔ m.Sent s t v) ∧
    (∀ j m s t v, ms[j]? = some m → m.Received s t v → ∃! i, Accepted ms i j s t v) ∧
    (∀ i j j' s t t' v v', Accepted ms i j s t v → Accepted ms i j' s t' v' →
      j = j' ∧ t = t' ∧ v = v') ∧
    (∀ i j s t v, Accepted ms i j s t v → SendEnds ms s i j (.returned 0)) ∧
    ∀ i j s e, SendEnds ms s i j e → ((∃ j' t v, Accepted ms i j' s t v) ↔ e = .returned 0) := by
  refine ⟨fun m hmem s t v => ?_, fun j m s t v hm hrcv => ?_,
    fun i j j' s t t' v v' hacc hacc' => ?_, fun i j s t v => run.ends_of_accepted,
    fun i j s e hends => ⟨?_, ?_⟩⟩
  · obtain ⟨j, hm⟩ := List.mem_iff_getElem?.1 hmem
    obtain ⟨hsound, allowed, heffect⟩ := run.effect hm
    exact Moment.received_iff_sent hsound (heffect.traffic hsound allowed)
  · obtain ⟨i, hacc⟩ := run.exists_accepted hm hrcv
    refine ⟨i, hacc, fun i' hacc' => ?_⟩
    obtain ⟨_, _, hcall, -⟩ := hacc.call
    obtain ⟨_, _, hcall', -⟩ := hacc'.call
    exact hacc'.underWay.unique run hacc.underWay hcall' hcall
  · obtain ⟨rfl, -⟩ := (run.ends_of_accepted hacc).unique run (run.ends_of_accepted hacc')
    obtain ⟨args, _, hcall, ht, hv⟩ := hacc.call
    obtain ⟨_, _, hcall', ht', hv'⟩ := hacc'.call
    obtain ⟨rfl, -⟩ := hcall.unique hcall'
    cases ht.symm.trans ht'
    exact ⟨rfl, rfl, hv.symm.trans hv'⟩
  · rintro ⟨j', t, v, hacc⟩
    exact (hends.unique run (run.ends_of_accepted hacc)).2
  · rintro rfl
    obtain ⟨t, v, hacc⟩ := run.accepted_of_ends hends
    exact ⟨j, t, v, hacc⟩

/-- The message of `sendThenReceive` is received when the process asks for it, and it is that of one
call, which ends there with success. -/
theorem exactly_once_of_sendThenReceive :
    ∃ ms k, play (.boot default) (sendThenReceive ++ [.syscall (.ofSlot 1 1)]) = some (ms, k) ∧
      ∃ m, ms[5]? = some m ∧ m.Received (.ofSlot 1 0) (.ofSlot 1 1) 7 ∧
        ∃ i, Accepted ms i 5 (.ofSlot 1 0) (.ofSlot 1 1) 7 ∧
          SendEnds ms (.ofSlot 1 0) i 5 (.returned 0) := by
  have hplay : (play (.boot default) (sendThenReceive ++ [.syscall (.ofSlot 1 1)])).any (fun r =>
      r.1[5]?.any fun m => (m.before.procs.get? (.ofSlot 1 0)).any fun p =>
        (m.after.procs.get? (.ofSlot 1 0)).any fun p' =>
          p.SendsTo (.ofSlot 1 1) ∧ p.send.message.value = 7 ∧ p'.status ≠ .dying ∧
            p'.send = {} ∧ p'.frame.get .a0 = 0) = true := by
    decide +kernel
  obtain ⟨⟨ms, k⟩, h, hr⟩ := (Option.any_eq_true _ _).1 hplay
  obtain ⟨m, hm, hr⟩ := (Option.any_eq_true _ _).1 hr
  obtain ⟨p, hp, hr⟩ := (Option.any_eq_true _ _).1 hr
  obtain ⟨p', hp', hr⟩ := (Option.any_eq_true _ _).1 hr
  obtain ⟨wait, message, live, ended, result⟩ := of_decide_eq_true hr
  obtain ⟨hiff, hone, -, hends, -⟩ := exactly_once (Run.of_play h)
  have hrcv : m.Received (.ofSlot 1 0) (.ofSlot 1 1) 7 :=
    (hiff m (List.mem_of_getElem? hm) _ _ _).2 (.waited hp wait message hp' live ended result)
  obtain ⟨i, hacc, -⟩ := hone 5 m _ _ _ hm hrcv
  exact ⟨ms, k, h, m, hm, hrcv, i, hacc, hends _ _ _ _ _ hacc⟩

end Run

end

end SyncKernel
