import SyncKernel.Proofs.Standing

/-!
# Nested handlers

A handler may be interrupted by another signal before it returns. Every delivery that has not been
returned from has its frame on the user stack, below the frames of those before it, and no delivery
and no code that keeps to its own part of the stack changes the frames that are there
(`Nested.wellNested`). So the deliveries can be returned from in the opposite order, and each return
restores the registers and the mask that its delivery found (`Nested.unwinds_exactly`).
-/

namespace SyncKernel

/-! ## Registers and masks -/

/-- Bits that are not set need not be cleared. -/
theorem and_not_of_and_eq_zero {w b : UInt64} (h : w &&& b = 0) : w &&& ~~~b = w := by
  refine UInt64.toBitVec_inj.1 (BitVec.eq_of_getLsbD_eq fun i hi => ?_)
  have hbit : (w &&& b).toBitVec.getLsbD i = false := by simp [h]
  simp only [UInt64.toBitVec_and, UInt64.toBitVec_not, BitVec.getLsbD_and, BitVec.getLsbD_not,
    hi] at hbit ⊢
  grind

/-- Bits that are set need not be set. -/
theorem or_of_and_eq_self {w b : UInt64} (h : w &&& b = b) : w ||| b = w := by
  refine UInt64.toBitVec_inj.1 (BitVec.eq_of_getLsbD_eq fun i hi => ?_)
  have hbit : (w &&& b).toBitVec.getLsbD i = b.toBitVec.getLsbD i := by rw [h]
  simp only [UInt64.toBitVec_and, UInt64.toBitVec_or, BitVec.getLsbD_and,
    BitVec.getLsbD_or] at hbit ⊢
  grind

namespace TrapFrame

variable {f : TrapFrame}

/-- The same registers with interrupts on. -/
def interruptible (f : TrapFrame) : TrapFrame :=
  f.set .status (f.get .status ||| interruptBit)

/-- On the way back to user code, registers that came from there only have interrupts turned on. -/
theorem forceUser_of_fromUser (h : f.fromUser = true) : f.forceUser = f.interruptible := by
  rw [forceUser, and_not_of_and_eq_zero (beq_iff_eq.1 h), interruptible]

/-- A frame with interrupts on stays as it is when they are switched on. -/
theorem interruptible_eq_self (h : f.get .status &&& interruptBit = interruptBit) :
    f.interruptible = f := by
  rw [interruptible, or_of_and_eq_self h]
  simp [set, get]

end TrapFrame

namespace Process

variable {p p' : Process} {m m' : Memory} {n : Nat} {f : UInt64}

/-- The mask of a handler does not contain the kill signal. -/
theorem handlerMask_kill (old : SignalSet) (a : Action) (n : Nat) :
    (handlerMask old a n).contains killSignal = false :=
  SignalSet.contains_erase_kill _

/-! ## One delivery -/

/-- A handler is called: below the stack pointer, and with room below it, stands a frame with the
registers and the mask. -/
structure Calls (p : Process) (m : Memory) (f : UInt64) (p' : Process) (m' : Memory) : Prop where
  aligned : f.toNat % frameAlignment = 0
  room : f.toNat + SignalFrame.byteSize ≤ (p.frame.get .sp).toNat
  stack : (p'.frame.get .sp).toNat + frameGap = f.toNat
  space : p'.space = p.space
  unmasked : p'.signal.mask.contains killSignal = false
  written : ∃ saved : SignalFrame, saved.context = p.frame ∧
    saved.oldMask = p.signal.mask.toWord ∧ m.userWrite p.space f saved.toBytes = .ok m'

/-- Entering a handler writes its frame below the stack pointer. -/
theorem enterHandler_calls {entry handler : UInt64} {e : PendingSignal} {a : Action}
    (h : p.enterHandler m entry handler e a = .ok (p', m', f)) : p.Calls m f p' m' := by
  unfold enterHandler at h
  dsimp only at h
  split at h
  · cases h
  next hroom =>
  split at h
  · cases h
  next m₁ hwrite =>
  cases h
  -- the address is a multiple of the alignment with room for a frame above and the gap below
  generalize haddress :
    ((p.frame.get .sp).toNat - SignalFrame.byteSize) / frameAlignment * frameAlignment = address
    at hroom hwrite ⊢
  have hsp := (p.frame.get .sp).toNat_lt
  have hbytes : SignalFrame.byteSize = 304 := rfl
  simp only [frameAlignment, frameGap, not_or, not_lt] at haddress hroom hsp
  have hto : (UInt64.ofNat address).toNat = address :=
    UInt64.toNat_ofNat_of_lt' (by simp only [UInt64.size]; omega)
  have hto' : (UInt64.ofNat (address - 16)).toNat = address - 16 :=
    UInt64.toNat_ofNat_of_lt' (by simp only [UInt64.size]; omega)
  refine ⟨?_, ?_, ?_, rfl, ?_, _, rfl, rfl, hwrite⟩
  · rw [hto]
    simp only [frameAlignment]
    omega
  · rw [hto]
    omega
  · simp only [TrapFrame.get_set, reduceCtorEq, if_false, if_true, hto, hto', frameGap]
    omega
  · split
    · unfold SignalState.setAction
      split <;> exact handlerMask_kill ..
    · exact handlerMask_kill ..

/-- A signal is only handled on the way back to user code. -/
theorem deliver_calls (h : p.deliver m = .ok (.handled n f, p', m')) :
    p.frame.fromUser = true ∧ p.Calls m f p' m' := by
  generalize hd : Delivery.handled n f = d at h
  cases deliver_delivers h with
  | nothing => cases hd
  | taken _ _ hne => exact absurd hd.symm (hne n f)
  | called user _ _ _ _ hcall =>
    cases hd
    have hcalls := enterHandler_calls hcall
    exact ⟨user, hcalls.aligned, hcalls.room, hcalls.stack, hcalls.space, hcalls.unmasked,
      hcalls.written⟩

end Process

/-! ## Nested deliveries -/

namespace Memory

/-- The bytes of a signal frame are on pages that user code may read and write. -/
def OnStack (m : Memory) (s : SpaceId) (f : UInt64) : Prop :=
  ∀ i < SignalFrame.byteSize, m.Allows s .userReadWrite (f.toNat + i)

/-- A frame whose bytes pass the check is on the stack. -/
theorem onStack_of_check {m : Memory} {s : SpaceId} {f : UInt64}
    (h : m.check s f SignalFrame.byteSize .userReadWrite = .ok ()) : m.OnStack s f :=
  (check_eq_ok.1 h).2

/-- The bytes of a signal frame are the same in both memories. -/
def SameFrame (m m' : Memory) (s : SpaceId) (f : UInt64) : Prop :=
  ∀ i < SignalFrame.byteSize, m'.byte? s (f.toNat + i) = m.byte? s (f.toNat + i)

end Memory

/-- A delivery that has not been returned from. -/
structure Interruption where
  /-- The process that was interrupted. -/
  before : Process
  /-- The process as it went on in its handler. -/
  after : Process
  /-- The address of the frame. -/
  frame : UInt64

/-- Something happened to a process and its memory while it has not returned from the deliveries of
a list: it may have changed its registers and its memory, but not a byte of a frame, and the frames
are still on the stack. -/
structure Undisturbed (live : List Interruption) (p : Process) (m : Memory) (p' : Process)
    (m' : Memory) : Prop where
  made : m'.Made
  space : p'.space = p.space
  unmasked : p.signal.mask.contains killSignal = false →
    p'.signal.mask.contains killSignal = false
  onStack : ∀ d ∈ live, m'.OnStack p.space d.frame
  sameFrame : ∀ d ∈ live, m.SameFrame m' p.space d.frame

/-- The stack pointer of a process is at or below the one that the innermost of some deliveries set.
-/
def Process.Below (p : Process) (live : List Interruption) : Prop :=
  ∀ d ∈ live.head?, p.frame.get .sp ≤ d.after.frame.get .sp

/-- A process that did not mask the kill signal has been interrupted by the deliveries of a list,
the innermost first, each of them below the one before, and has not returned from them. -/
inductive Nested : List Interruption → Process → Memory → Prop
  /-- Nothing was delivered. -/
  | start {p : Process} {m : Memory} (made : m.Made)
      (unmasked : p.signal.mask.contains killSignal = false) : Nested [] p m
  /-- The process runs, without a change to the frames. -/
  | runs {live : List Interruption} {p p' : Process} {m m' : Memory} (nested : Nested live p m)
      (undisturbed : Undisturbed live p m p' m') : Nested live p' m'
  /-- A signal is handled. -/
  | deliver {live : List Interruption} {p p' : Process} {m m' : Memory} {n : Nat} {f : UInt64}
      (nested : Nested live p m) (below : p.Below live) (onStack : m.OnStack p.space f)
      (handled : p.deliver m = .ok (.handled n f, p', m')) : Nested (⟨p, p', f⟩ :: live) p' m'
  /-- The innermost handler returns. -/
  | leave {d : Interruption} {live : List Interruption} {p p' : Process} {m : Memory}
      (nested : Nested (d :: live) p m) (left : p.leaveHandler m d.frame = .ok p') :
      Nested live p' m

/-- A process goes on as another one was: with its mask, and with its registers except that
interrupts are on. -/
structure Process.Resumes (p before : Process) : Prop where
  mask : p.signal.mask = before.signal.mask
  frame : p.frame = before.frame.interruptible
  same : before.frame.get .status &&& TrapFrame.interruptBit = TrapFrame.interruptBit →
    p.frame = before.frame

/-- Whatever a process does between its returns, it can return from the deliveries of a list one
after the other, and each time it goes on as it was when it was interrupted. -/
def Unwinds : List Interruption → Process → Memory → Prop
  | [], _, _ => True
  | d :: live, p, m => ∀ p₁ m₁, Undisturbed (d :: live) p m p₁ m₁ →
      ∃ p₂, p₁.leaveHandler m₁ d.frame = .ok p₂ ∧ p₂.Resumes d.before ∧ Unwinds live p₂ m₁

/-! ## What stands on the stack -/

/-- The frame of a delivery is on the stack and holds what the delivery found. -/
structure Interruption.Stands (d : Interruption) (s : SpaceId) (m : Memory) : Prop where
  user : d.before.frame.fromUser = true
  unmasked : d.before.signal.mask.contains killSignal = false
  aligned : d.frame.toNat % frameAlignment = 0
  limit : d.frame.toNat + SignalFrame.byteSize ≤ userLimit
  stack : (d.after.frame.get .sp).toNat + frameGap = d.frame.toNat
  onStack : m.OnStack s d.frame
  holds : ∃ saved : SignalFrame, saved.context = d.before.frame ∧
    saved.oldMask = d.before.signal.mask.toWord ∧ m.Holds s d.frame.toNat saved.toBytes

/-- All frames stand, each below the one before. -/
structure WellNested (live : List Interruption) (p : Process) (m : Memory) : Prop where
  made : m.Made
  unmasked : p.signal.mask.contains killSignal = false
  stands : ∀ d ∈ live, d.Stands p.space m
  order : live.Pairwise fun inner outer =>
    inner.frame.toNat + SignalFrame.byteSize ≤ outer.frame.toNat - frameGap

section
variable {live : List Interruption} {d : Interruption} {p p' : Process} {m m' : Memory} {n : Nat}
  {f g : UInt64} {s : SpaceId}

/-- A frame stands as long as its bytes do. -/
theorem Interruption.Stands.same (h : d.Stands s m) (onStack : m'.OnStack s d.frame)
    (hsame : m.SameFrame m' s d.frame) : d.Stands s m' := by
  obtain ⟨saved, hcontext, hmask, hholds⟩ := h.holds
  refine ⟨h.user, h.unmasked, h.aligned, h.limit, h.stack, onStack, saved, hcontext, hmask, ?_⟩
  intro i hi
  rw [hsame i (by simpa using hi)]
  exact hholds i hi

/-- A process can return from a delivery whose frame stands. -/
theorem Interruption.Stands.leave (h : d.Stands p.space m) :
    ∃ p', p.leaveHandler m d.frame = .ok p' ∧ p'.Resumes d.before ∧ p'.space = p.space := by
  obtain ⟨saved, hcontext, hmask, hholds⟩ := h.holds
  have hlength : saved.toBytes.length = SignalFrame.byteSize := saved.length_toBytes
  have hread : m.userRead p.space d.frame SignalFrame.byteSize = .ok saved.toBytes := by
    rw [← hlength]
    refine Memory.userRead_of_holds (hlength ▸ h.limit) (fun i hi => ?_) hholds
    exact (h.onStack i (hlength ▸ hi)).mono (by decide)
  have hframe : saved.context.forceUser = d.before.frame.interruptible := by
    rw [hcontext, TrapFrame.forceUser_of_fromUser h.user]
  unfold Process.leaveHandler
  rw [if_neg (not_not.2 h.aligned), hread]
  dsimp only
  rw [SignalFrame.ofBytes_toBytes, hframe, hmask, SignalSet.ofWord_toWord,
    SignalSet.erase_of_not_contains h.unmasked]
  exact ⟨_, rfl, ⟨rfl, rfl, TrapFrame.interruptible_eq_self⟩, rfl⟩

/-- Calling a handler changes nothing at or above the stack pointer. -/
theorem Process.Calls.sameFrame (h : p.Calls m f p' m') (made : m.Made)
    (hg : (p.frame.get .sp).toNat ≤ g.toNat) : m.SameFrame m' p.space g := by
  intro i hi
  obtain ⟨saved, -, -, hwrite⟩ := h.written
  have hroom := h.room
  rw [made.sound.byte?_userWrite hwrite, if_neg (by rw [saved.length_toBytes]; omega)]

/-- The new frame stands once its handler is called. -/
theorem Process.Calls.stands (h : p.Calls m f p' m') (made : m.Made)
    (user : p.frame.fromUser = true) (unmasked : p.signal.mask.contains killSignal = false)
    (onStack : m.OnStack p.space f) : (⟨p, p', f⟩ : Interruption).Stands p.space m' := by
  obtain ⟨saved, hcontext, hmask, hwrite⟩ := h.written
  have hlimit := (Memory.userWrite_eq_ok hwrite).1
  rw [saved.length_toBytes] at hlimit
  refine ⟨user, unmasked, h.aligned, hlimit, h.stack,
    fun i hi => (Memory.allows_userWrite hwrite).2 (onStack i hi), saved, hcontext, hmask, ?_⟩
  intro i hi
  show m'.byte? p.space (f.toNat + i) = saved.toBytes[i]?
  rw [made.sound.byte?_userWrite hwrite, if_pos (by omega), Nat.add_sub_cancel_left]

namespace WellNested

/-- Below the stack pointer of the innermost delivery, a process is below all frames. -/
theorem sp_le (h : WellNested live p m) (below : p.Below live) (hd : d ∈ live) :
    (p.frame.get .sp).toNat ≤ d.frame.toNat - frameGap := by
  cases live with
  | nil => cases hd
  | cons inner outer =>
    have hsp : (p.frame.get .sp).toNat ≤ (inner.after.frame.get .sp).toNat :=
      UInt64.le_iff_toNat_le.1 (below inner rfl)
    have hstack := (h.stands inner List.mem_cons_self).stack
    cases hd with
    | head => omega
    | tail _ hd =>
      have horder := (List.pairwise_cons.1 h.order).1 d hd
      omega

/-- Frames stand as long as nothing disturbs them. -/
theorem undisturbed (h : WellNested live p m) (hu : Undisturbed live p m p' m') :
    WellNested live p' m' where
  made := hu.made
  unmasked := hu.unmasked h.unmasked
  stands d hd := hu.space ▸ (h.stands d hd).same (hu.onStack d hd) (hu.sameFrame d hd)
  order := h.order

/-- A delivery puts its frame below those that stand. -/
theorem deliver (h : WellNested live p m) (below : p.Below live) (onStack : m.OnStack p.space f)
    (handled : p.deliver m = .ok (.handled n f, p', m')) :
    WellNested (⟨p, p', f⟩ :: live) p' m' := by
  obtain ⟨user, hcalls⟩ := Process.deliver_calls handled
  obtain ⟨saved, -, -, hwrite⟩ := hcalls.written
  refine ⟨h.made.userWrite hwrite, hcalls.unmasked, ?_, ?_⟩
  · rw [hcalls.space]
    intro d hd
    cases hd with
    | head => exact hcalls.stands h.made user h.unmasked onStack
    | tail _ hd =>
      have hsp := h.sp_le below hd
      refine (h.stands d hd).same (fun i hi => ?_) (hcalls.sameFrame h.made (by omega))
      exact (Memory.allows_userWrite hwrite).2 ((h.stands d hd).onStack i hi)
  · refine List.pairwise_cons.2 ⟨fun d hd => ?_, h.order⟩
    have hsp := h.sp_le below hd
    have hroom := hcalls.room
    show f.toNat + SignalFrame.byteSize ≤ d.frame.toNat - frameGap
    omega

/-- Returning from the innermost delivery leaves the frames of the others. -/
theorem leave (h : WellNested (d :: live) p m) (left : p.leaveHandler m d.frame = .ok p') :
    WellNested live p' m := by
  have hstands := h.stands d List.mem_cons_self
  obtain ⟨p₁, hleft, hresumes, hspace⟩ := hstands.leave
  cases left.symm.trans hleft
  refine ⟨h.made, ?_, ?_, (List.pairwise_cons.1 h.order).2⟩
  · rw [hresumes.mask]
    exact hstands.unmasked
  · rw [hspace]
    exact fun e he => h.stands e (List.mem_cons_of_mem d he)

/-- Where all frames stand, a process can return from its deliveries one after the other. -/
theorem unwinds (h : WellNested live p m) : Unwinds live p m := by
  induction live generalizing p m with
  | nil => trivial
  | cons d live ih =>
    intro p₁ m₁ hu
    have h₁ := h.undisturbed hu
    obtain ⟨p₂, hleft, hresumes, -⟩ := (h₁.stands d List.mem_cons_self).leave
    exact ⟨p₂, hleft, hresumes, ih (h₁.leave hleft)⟩

end WellNested

/-- All frames of deliveries that have not returned stand. -/
theorem Nested.wellNested (h : Nested live p m) : WellNested live p m := by
  induction h with
  | start made unmasked => exact ⟨made, unmasked, by simp, .nil⟩
  | runs _ undisturbed ih => exact ih.undisturbed undisturbed
  | deliver _ below onStack handled ih => exact ih.deliver below onStack handled
  | leave _ left ih => exact ih.leave left

/-- Handlers may change their registers as they like. -/
theorem Nested.undisturbed_registers (h : Nested live p m) (frame : TrapFrame) :
    Undisturbed live p m { p with frame } m where
  made := h.wellNested.made
  space := rfl
  unmasked := id
  onStack d hd := (h.wellNested.stands d hd).onStack
  sameFrame _ _ _ _ := rfl

/-- While handlers interrupt each other, the frames are aligned and lie below each other with a gap
between them, a further delivery does not change them, and the process can return from all of them.
-/
theorem Nested.unwinds_exactly (h : Nested live p m) :
    (∀ d ∈ live, d.frame.toNat % frameAlignment = 0) ∧
      live.Pairwise (fun inner outer =>
        inner.frame.toNat + SignalFrame.byteSize ≤ outer.frame.toNat - frameGap) ∧
      (∀ n f p' m', p.Below live → p.deliver m = .ok (.handled n f, p', m') →
        ∀ d ∈ live, m.SameFrame m' p.space d.frame) ∧
      Unwinds live p m := by
  have hnested := h.wellNested
  refine ⟨fun d hd => (hnested.stands d hd).aligned, hnested.order, ?_, hnested.unwinds⟩
  intro n f p' m' below handled d hd
  have hsp := hnested.sp_le below hd
  exact (Process.deliver_calls handled).2.sameFrame hnested.made (by omega)

end

/-- A process with two pending signals, both of them handled. -/
def twoSignals : Process where
  pid := .ofSlot 1 0
  frame := .newUser 0x1000 0x20000
  space := 0
  signal :=
    let state : SignalState := { entry := some 0x1000, queue := ⟨[⟨10, 1⟩, ⟨12, 2⟩]⟩ }
    (state.setAction 10 ⟨.handler 0x1200, .empty, {}⟩).setAction 12
      ⟨.handlerWithInfo 0x1300, .empty, {}⟩

/-- The second signal is delivered while the handler of the first one runs. -/
theorem Nested.unwinds_exactly_of_twoSignals :
    ∃ d e p m, Nested [e, d] p m ∧ d.before = twoSignals ∧
      e.frame.toNat + SignalFrame.byteSize ≤ d.frame.toNat - frameGap ∧ Unwinds [e, d] p m := by
  have hplay : (match ({} : Memory).map 0 0x1f000 0x1000 .userReadWrite with
      | .ok m => match twoSignals.deliver m with
        | .ok (.handled _ f, p₁, m₁) =>
          match { p₁ with frame := p₁.frame.set .t0 7 }.deliver m₁ with
          | .ok (.handled _ g, _, _) =>
            decide (m.check 0 f SignalFrame.byteSize .userReadWrite = .ok () ∧ p₁.space = 0 ∧
              m₁.check 0 g SignalFrame.byteSize .userReadWrite = .ok () ∧
              (p₁.frame.set .t0 7).get .sp ≤ p₁.frame.get .sp)
          | _ => false
        | _ => false
      | _ => false) = true := by
    decide +kernel
  split at hplay
  case h_2 => cases hplay
  next m hmap =>
  split at hplay
  case h_2 => cases hplay
  next f p₁ m₁ hdeliver₁ =>
  split at hplay
  case h_2 => cases hplay
  next g p₂ m₂ hdeliver₂ =>
  obtain ⟨hcheck₁, hspace, hcheck₂, hsp⟩ := of_decide_eq_true hplay
  have h₀ : Nested [] twoSignals m := .start (.map .empty hmap) (by decide)
  have h₁ : Nested [⟨twoSignals, p₁, f⟩] p₁ m₁ :=
    .deliver h₀ (by simp [Process.Below]) (Memory.onStack_of_check hcheck₁) hdeliver₁
  have h₂ := h₁.runs (h₁.undisturbed_registers (p₁.frame.set .t0 7))
  have h₃ := h₂.deliver (by simpa [Process.Below] using hsp)
    (hspace ▸ Memory.onStack_of_check hcheck₂) hdeliver₂
  obtain ⟨-, horder, -, hunwinds⟩ := h₃.unwinds_exactly
  exact ⟨_, _, _, _, h₃, rfl, (List.pairwise_cons.1 horder).1 _ (by simp), hunwinds⟩

end SyncKernel
