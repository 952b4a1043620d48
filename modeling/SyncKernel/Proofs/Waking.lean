import SyncKernel.Proofs.Deeds
import SyncKernel.Proofs.Step

/-!
# Waking futexes and destroying processes

What the operations that wake futexes and the one that destroys a process do to the board.
`futexWake_ends` says that waking an address wakes the first processes of its queue and counts them;
no node is dropped, since by the invariant each belongs to a blocked process. `destroy_ends` says
that destroying a process buries it and then wakes the first process of each of its locks; it is
stated for a process that may just have given up a wait for a signal, which is the state in which a
signal that cannot be told leaves it.
-/

namespace SyncKernel

/-- An operation made moves only, and left the clock. -/
structure Kernel.Moved (k k' : Kernel) : Prop where
  moves : Board.Moves k.clock.now k.board k'.board
  clock : k'.clock = k.clock

/-- An operation about the process `subject`, if any, that sends the signal `sent`, if any, did one
deed, and left the clock. -/
structure Kernel.Did (subject : Option Pid) (sent : Option SignalRequest) (expected : FutexOp)
    (k k' : Kernel) : Prop where
  does : Board.Does k.clock.now subject sent k.memory k'.memory expected k.board k'.board
  clock : k'.clock = k.clock

/-- An operation left the board and the clock. -/
structure Kernel.SameBoard (k k' : Kernel) : Prop where
  board : k'.board = k.board
  clock : k'.clock = k.clock

namespace Kernel

variable {k k' k₁ : Kernel} {subject : Option Pid} {sent : Option SignalRequest}
  {expected : FutexOp}

theorem SameBoard.refl (k : Kernel) : SameBoard k k := ⟨rfl, rfl⟩

theorem Moved.sound (h : Moved k k') (hs : k.board.Sound) : k'.board.Sound :=
  h.moves.sound hs

/-- What an operation did to the board consists of moves. -/
theorem Did.moved (h : Did subject sent expected k k') : Moved k k' :=
  ⟨h.does.moves, h.clock⟩

/-- An operation that leaves the board does nothing to it. -/
theorem Did.of_board (hb : k'.board = k.board) (hc : k'.clock = k.clock) :
    Did subject sent .none k k' :=
  ⟨(Board.Deed.lapses (hb ▸ .refl)).does, hc⟩

end Kernel

open Board Step

/-! ## Futexes -/

/-- The node of a queue stands for a process that is blocked. -/
theorem Board.Sound.waiter_blocked {b : Board} {address : UInt64} {x : Waiter} (h : b.Sound)
    (hx : x ∈ b.futexes.bucket address) :
    ∃ p, b.procs.at? p.pid.slot = some p ∧ p.pid = x.pid ∧ p.status = .blocked := by
  obtain ⟨-, p, hget, hf⟩ := (h.queues.mem_iff address x).1 hx
  obtain ⟨hp, hpid⟩ := ProcessTable.get?_eq_some.1 hget
  rw [← hpid] at hp
  exact ⟨p, hp, hpid, (h.settled hp).blocked_of_waits (r := .futex) (by simp [Process.waits, hf])⟩

/-- Waking part of a queue takes the processes that wait longest on the address out of it. -/
theorem Population.wakeQueue_wakes (address : UInt64) (queue : List Waiter) :
    ∀ (most : Nat) (w : Population) (b : Board) (before : List Waiter), b.Sound →
      b.procs = w.procs → b.futexes.bucket address = before ++ queue →
      (∀ x ∈ before, x.address ≠ address) →
      (wakeQueue address most queue w).1 = ((waitingOn address queue).take most).length ∧
        Wakes address ((waitingOn address queue).take most) b
          ⟨(wakeQueue address most queue w).2.2.procs, b.cpus,
            b.futexes.setBucket address (before ++ (wakeQueue address most queue w).2.1)⟩ := by
  have stop : ∀ (b : Board) (before rest : List Waiter),
      b.futexes.bucket address = before ++ rest →
      b.futexes.setBucket address (before ++ rest) = b.futexes :=
    fun b before rest hq => by rw [← hq, FutexTable.setBucket_bucket]
  induction queue with
  | nil =>
    intro most w b before _ hw hq _
    have heq : wakeQueue address most [] w = (0, [], w) := by cases most <;> rfl
    rw [heq, waitingOn_nil, List.take_nil]
    refine ⟨rfl, ?_⟩
    rw [stop b before [] hq, ← hw]
    exact .nil
  | cons x queue ih =>
    intro most w b before hb hw hq hbefore
    cases most with
    | zero =>
      refine ⟨rfl, ?_⟩
      rw [wakeQueue, stop b before _ hq, ← hw]
      exact .nil
    | succ most =>
      by_cases hx : x.address = address
      · -- the node is next in turn, and the record it belongs to is blocked
        obtain ⟨p, hp, hpid, hblocked⟩ :=
          hb.waiter_blocked (hq ▸ List.mem_append_right _ (.head _))
        have hget : b.procs.get? x.pid = some p := hpid ▸ ProcessTable.get?_pid hp
        have hnode : x = ⟨p.pid, address⟩ := by
          cases x
          cases hpid
          cases hx
          rfl
        have hwake := Wake.first (hnode ▸ hq) hbefore hp hblocked
        obtain ⟨hlen, hwakes⟩ :=
          ih most (w.put { p with futex := none, status := .runnable }) _ before
            (hwake.sound hb) (by rw [hw]; rfl)
            (by rw [FutexTable.bucket_setBucket, if_pos rfl]) hbefore
        rw [wakeQueue, if_neg (not_not.2 hx), ← hw, hget, waitingOn_cons, if_pos hx,
          List.take_succ_cons]
        simp only [hblocked, if_true]
        refine ⟨by simpa using hlen, ?_⟩
        rw [← hpid]
        refine .cons hwake ?_
        simpa only [FutexTable.setBucket_setBucket] using hwakes
      · have hbefore' : ∀ y ∈ before ++ [x], y.address ≠ address := by
          intro y hy
          rcases List.mem_append.1 hy with hy | hy
          · exact hbefore y hy
          · rw [List.mem_singleton.1 hy]
            exact hx
        obtain ⟨hlen, hwakes⟩ :=
          ih (most + 1) w b (before ++ [x]) hb hw (by simpa using hq) hbefore'
        rw [wakeQueue, if_pos hx, waitingOn_cons, if_neg hx]
        exact ⟨hlen, by simpa using hwakes⟩

namespace Kernel

variable {k : Kernel}

/-- Waking an address wakes the processes that wait longest on it. -/
theorem futexWake_ends (h : k.board.Sound) (address : UInt64) (most : Nat) :
    Ends (futexWake address most) k fun count k' => k'.clock = k.clock ∧
      count = min most (k.futexes.queue address).length ∧
      Wakes address ((k.futexes.queue address).take most) k.board k'.board := by
  obtain ⟨hlen, hwakes⟩ := Population.wakeQueue_wakes address
    (k.futexes.bucket address) most k.toPopulation k.board [] h rfl rfl nofun
  simp only [futexWake, Population.futexWake, ends_bind, ends_get, ends_set, ends_pure]
  refine ⟨trivial, hlen.trans List.length_take, ?_⟩
  simp only [List.nil_append] at hwakes
  split <;> exact hwakes

/-- Waking one process for each lock of a list does just that. -/
theorem wakeLocks_ends (locks : List UInt64) : ∀ {k : Kernel}, k.board.Sound →
    Ends (wakeLocks locks) k fun _ k' =>
      k'.clock = k.clock ∧ WakesEach locks k.board k'.board := by
  induction locks with
  | nil => exact fun _ => ends_pure.2 ⟨rfl, .nil⟩
  | cons address rest ih =>
    intro k h
    rw [wakeLocks, ends_bind]
    refine (futexWake_ends h address 1).mono fun _ k₁ ⟨hclock, _, hwakes⟩ => ?_
    have hmoves : Moves 0 k.board k₁.board := hwakes.moves
    have h₁ : k₁.board.Sound := hmoves.sound h
    refine (ih h₁).mono fun _ k' ⟨hclock', hrest⟩ => ⟨hclock'.trans hclock, ?_⟩
    exact .cons hwakes hrest

/-! ## Destroying a process -/

/-- Marking locks changes memory only. -/
theorem markLocks_ends (space : SpaceId) (pid : Pid) (locks : List UInt64) : ∀ {k : Kernel},
    Ends (markLocks space pid locks) k fun _ k' => SameBoard k k' := by
  induction locks with
  | nil => exact ends_pure.2 (.refl _)
  | cons address rest ih =>
    intro k
    rw [markLocks, ends_bind, ends_get]
    split
    · simp only [ends_bind, ends_set, ends_note]
      exact ih.mono fun _ k' h => ⟨h.board, h.clock⟩
    · exact ih

/-- Leaving a processor that exists changes that processor only. -/
theorem leaveCpu_ends {pid : Pid} {cpu : Option Nat} (h : ∀ c, cpu = some c → c < cpuCount) :
    Ends (leaveCpu pid cpu) k fun _ k' =>
      k'.board = { k.board with cpus := k.board.cpusWithout pid cpu } ∧ k'.clock = k.clock := by
  cases cpu with
  | none => exact ends_pure.2 ⟨rfl, rfl⟩
  | some c =>
    have hc := h c rfl
    simp only [leaveCpu, ends_bind, ends_get, cpusWithout, hc, dite_true]
    split
    · next hcur => simp [board, hcur]
    · next hcur => simp [board, hcur]

/-- What destroying the process `p` of a board did, `q` being its record when it was destroyed: it
is buried, and one process is woken for each of its locks. -/
structure Destroyed (b : Board) (p q : Process) (k k' : Kernel) : Prop where
  wakes : WakesEach (q.locks k.memory) (b.buried p q) k'.board
  clock : k'.clock = k.clock

/-- A process that was destroyed is dying. -/
theorem Destroyed.dying {b : Board} {p q : Process} {k' : Kernel} (h : Destroyed b p q k k')
    (hpid : q.pid = p.pid) :
    k'.procs.at? p.pid.slot = some { q.bury with futex := none } :=
  h.wakes.at?_of_ne (hpid ▸ ProcessTable.at?_put_self) nofun

/-- Destroying a live process buries it and then wakes one process for each lock of its list. The
process may just have given up a wait for a signal, `p` being its record before. -/
theorem destroy_ends {b : Board} {p q : Process} (hk : k.board = b.put q) (h : b.Sound)
    (hp : b.procs.at? p.pid.slot = some p) (live : p.status ≠ .dying)
    (hq : q = p ∨ ∃ wait, p.signal.wait = some wait ∧ q = p.leaveWait wait) :
    Ends (destroy p.pid) k fun a k' => a = .ok () ∧ Destroyed b p q k k' := by
  have hpid : q.pid = p.pid := by
    rcases hq with rfl | ⟨wait, -, rfl⟩ <;> rfl
  have hcpu : q.cpu = p.cpu := by
    rcases hq with rfl | ⟨wait, -, rfl⟩ <;> rfl
  have hfutex : q.futex = p.futex := by
    rcases hq with rfl | ⟨wait, -, rfl⟩ <;> rfl
  have hstatus : q.status = p.status := by
    rcases hq with rfl | ⟨wait, -, rfl⟩ <;> rfl
  have hlookup : k.procs.lookup p.pid = .ok q := by
    rw [show k.procs = b.procs.put q from congrArg Board.procs hk, ← hpid]
    exact ProcessTable.lookup_of_live ProcessTable.at?_put_self (hstatus ▸ live)
  -- what is left to do once the process is buried
  have rest : ∀ {k₃ : Kernel}, k₃.board = b.buried p q → k₃.clock = k.clock →
      Ends (do wakeLocks (q.locks k.memory); note (.destroyed p.pid); return .ok ()) k₃
        fun a k' => a = (.ok () : Except Errno Unit) ∧ Destroyed b p q k k' := by
    intro k₃ hk₃ hclock₃
    rw [ends_bind]
    refine (wakeLocks_ends _ (hk₃ ▸ h.bury hp hq)).mono fun _ k' ⟨hclock, hw⟩ => ?_
    rw [ends_bind, ends_note, ends_pure]
    exact ⟨rfl, hk₃ ▸ hw, hclock.trans hclock₃⟩
  rw [destroy, ends_bind, ends_get, hlookup]
  dsimp only
  rw [ends_bind]
  refine (markLocks_ends _ _ _).mono fun _ k₁ hk₁ => ?_
  rw [ends_bind]
  refine (leaveCpu_ends fun c hc => (h.settled hp).cpu c (hcpu ▸ hc)).mono
    fun _ k₂ ⟨hk₂, hclock₂⟩ => ?_
  rw [hk₁.board, hk, hcpu] at hk₂
  have hclock₂ : k₂.clock = k.clock := hclock₂.trans hk₁.clock
  have hprocs : k₂.procs.put { q.bury with futex := none } =
      b.procs.put { q.bury with futex := none } := by
    rw [show k₂.procs = _ from congrArg Board.procs hk₂]
    exact ProcessTable.put_put rfl
  have hcpus : k₂.cpus = b.cpusWithout p.pid p.cpu := congrArg Board.cpus hk₂
  have hfutexes : k₂.futexes = b.futexes := congrArg Board.futexes hk₂
  rw [ends_bind, ends_modify, hfutex]
  cases hf : p.futex with
  | none =>
    refine rest ?_ hclock₂
    rw [buried, hf]
    exact Board.ext hprocs hcpus hfutexes
  | some address =>
    dsimp only
    rw [ends_bind, ends_discard, futexUnlink, ends_bind, ends_get, ends_bind, ends_set, ends_pure]
    refine rest ?_ hclock₂
    rw [buried, hf]
    have hunlink := congrArg (fun t => (FutexTable.unlink t p.pid address).2) hfutexes
    exact Board.ext hprocs hcpus hunlink

end Kernel

end SyncKernel
