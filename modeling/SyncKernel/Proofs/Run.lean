import Mathlib
import SyncKernel.Syscall

/-!
# Runs of the kernel

What the rest of the machine may do to the kernel is an `Event`: it calls one of the operations,
moves the clock, lets a process run in user mode, or changes user memory and its mappings. A run
(`Run`) is any finite order of events from a kernel on, each allowed where it happens
(`Event.Allowed`): system calls and returns to user code only happen for a process that is running,
and registers change only while their process runs. A run keeps a `Moment` for each of its events,
so that properties can speak of every step and not only of the kernel that is reached.
-/

namespace SyncKernel

/-- What may happen to the kernel. -/
inductive Event where
  /-- A process is entered. -/
  | spawn (space : SpaceId) (frame : TrapFrame)
  /-- A process asks for a system call. -/
  | syscall (pid : Pid)
  /-- A processor asks for its next process. -/
  | schedule (cpu : Nat)
  /-- The timer interrupts. -/
  | timerTick
  /-- The blocked calls on messages are swept. -/
  | sweep
  /-- The clock goes on. -/
  | advance (ms : Millis)
  /-- The clock is set. -/
  | setClock (ms : Millis)
  /-- A process goes back to user code. -/
  | trapReturn (pid : Pid)
  /-- A signal is sent. -/
  | sendSignal (target : Pid) (n : Nat) (value : UInt64)
  /-- A futex is woken. -/
  | futexWake (address : UInt64) (most : Nat)
  /-- A process is destroyed. -/
  | destroy (pid : Pid)
  /-- A destroyed process is taken out of the table. -/
  | reclaim (pid : Pid)
  /-- User code changes the registers of its process. -/
  | registers (pid : Pid) (frame : TrapFrame)
  /-- User code writes its memory, or the mappings change. -/
  | memory (m : Memory)

/-- What the kernel answers to an event. -/
inductive Answer where
  /-- The id of a new process, or a refusal. -/
  | spawned (result : Except Errno Pid)
  /-- The outcome of a system call. -/
  | served (outcome : SyscallOutcome)
  /-- What a processor does next. -/
  | decided (decision : Decision)
  /-- A number of processes. -/
  | counted (n : Nat)
  /-- Whether a request was carried out. -/
  | replied (result : Except Errno Unit)
  /-- How a process goes on. -/
  | resumed (result : Kernel.TrapReturn)
  /-- Nothing. -/
  | done
deriving DecidableEq

namespace Event

/-- The operation of the kernel, or the change of its surroundings, that an event is. -/
def perform : Event → Step Answer
  | spawn space frame => .spawned <$> Kernel.spawn space frame
  | syscall pid => .served <$> Kernel.syscall pid
  | schedule cpu => .decided <$> Kernel.schedule cpu
  | timerTick => .counted <$> Kernel.timerTick
  | sweep => .counted <$> Kernel.sweepNow
  | advance ms => (fun _ => .done) <$> modify fun k => { k with clock := k.clock.advance ms }
  | setClock ms => (fun _ => .done) <$> modify fun k => { k with clock := k.clock.set ms }
  | trapReturn pid => .resumed <$> Kernel.trapReturn pid
  | sendSignal target n value => .replied <$> Kernel.sendSignal target n value
  | futexWake address most => .counted <$> Kernel.futexWake address most
  | destroy pid => .replied <$> Kernel.destroy pid
  | reclaim pid => .replied <$> Kernel.reclaim pid
  | registers pid frame => (fun _ => .done) <$> modify fun k =>
      { k with procs := k.procs.update pid fun p => { p with frame } }
  | memory m => (fun _ => .done) <$> modify fun k => { k with memory := m }

/-- Whether an event may happen: only a running process enters or leaves the kernel or changes its
registers, of which the status register is not its to change, and only a processor that exists asks
for a process. -/
def Allowed (k : Kernel) : Event → Prop
  | syscall pid | trapReturn pid => k.status pid = .running
  | schedule cpu => cpu < cpuCount
  | registers pid frame =>
    ∃ p, k.procs.get? pid = some p ∧ p.status = .running ∧ frame.get .status = p.frame.get .status
  | _ => True

/-- Whether a processor asks for its next process. -/
def isSchedule : Event → Bool
  | schedule _ => true
  | _ => false

end Event

/-- An event of a run, with the kernel before it, the answer to it, and the kernel after it. -/
structure Moment where
  /-- The kernel before the event. -/
  before : Kernel
  /-- The event. -/
  event : Event
  /-- The answer. -/
  answer : Answer
  /-- The kernel after the event. -/
  after : Kernel

/-- From a kernel, the moments of a list happen one after the other, each event where it is allowed
and none stopped by a fault, and lead to another kernel. -/
inductive Run (k₀ : Kernel) : List Moment → Kernel → Prop
  /-- Nothing happens. -/
  | nil : Run k₀ [] k₀
  /-- One more event happens. -/
  | snoc {ms : List Moment} {k k' : Kernel} {e : Event} {a : Answer} (run : Run k₀ ms k)
      (allowed : e.Allowed k) (step : e.perform k = .ok a k') :
      Run k₀ (ms ++ [⟨k, e, a, k'⟩]) k'

/-- How often a processor asked for its next process. -/
def scheduleCount (ms : List Moment) : Nat :=
  ms.countP fun m => m.event.isSchedule

namespace Run

variable {k₀ k k' : Kernel} {ms ms' : List Moment}

/-- A run may go on with a run from the kernel it leads to. -/
theorem append (run : Run k₀ ms k) (run' : Run k ms' k') : Run k₀ (ms ++ ms') k' := by
  induction run' with
  | nil => rwa [List.append_nil]
  | snoc _ allowed step ih =>
    rw [← List.append_assoc]
    exact .snoc ih allowed step

/-- A run may be begun one moment earlier. -/
theorem cons {e : Event} {a : Answer} (allowed : e.Allowed k₀) (step : e.perform k₀ = .ok a k)
    (run : Run k ms k') : Run k₀ (⟨k₀, e, a, k⟩ :: ms) k' :=
  append (.snoc .nil allowed step) run

variable {i : Nat} {m m' : Moment}

/-- The moments of a run before one of them are a run to the kernel in which its event happens. -/
theorem before (run : Run k₀ ms k) (h : ms[i]? = some m) :
    Run k₀ (ms.take i) m.before ∧ m.event.Allowed m.before ∧
      m.event.perform m.before = .ok m.answer m.after := by
  induction run with
  | nil => cases h
  | @snoc ms k k' e a run allowed step ih =>
    rcases Nat.lt_trichotomy i ms.length with hi | rfl | hi
    · rw [List.getElem?_append_left hi] at h
      rw [List.take_append_of_le_length (Nat.le_of_lt hi)]
      exact ih h
    · rw [List.getElem?_concat_length] at h
      cases h
      rw [List.take_left]
      exact ⟨run, allowed, step⟩
    · rw [List.getElem?_append_right (Nat.le_of_lt hi),
        List.getElem?_singleton, if_neg (Nat.sub_ne_zero_of_lt hi)] at h
      cases h

/-- A run leads to the kernel after its last moment. -/
theorem after_last (run : Run k₀ (ms ++ [m]) k) : k = m.after := by
  generalize hms : ms ++ [m] = l at run
  cases run with
  | nil => simp at hms
  | snoc _ _ _ =>
    obtain ⟨-, rfl⟩ := List.append_singleton_inj.1 hms
    rfl

/-- The first moment of a run begins with the kernel of the run. -/
theorem before_zero (run : Run k₀ ms k) (h : ms[0]? = some m) : m.before = k₀ := by
  have run' := (run.before h).1
  rw [List.take_zero] at run'
  generalize hms : ([] : List Moment) = l at run'
  cases run' with
  | nil => rfl
  | snoc _ _ _ => simp at hms

/-- Each moment of a run begins with the kernel after the one before it. -/
theorem before_succ (run : Run k₀ ms k) (h : ms[i]? = some m) (h' : ms[i + 1]? = some m') :
    m'.before = m.after := by
  have run' := (run.before h').1
  rw [List.take_add_one, h] at run'
  exact run'.after_last

end Run

/-! ## Playing events -/

instance (k : Kernel) : (e : Event) → Decidable (e.Allowed k)
  | .syscall pid | .trapReturn pid => inferInstanceAs (Decidable (k.status pid = .running))
  | .schedule cpu => inferInstanceAs (Decidable (cpu < cpuCount))
  | .registers pid frame =>
    decidable_of_iff
      ((k.procs.get? pid).any fun p =>
        p.status == .running && frame.get .status == p.frame.get .status)
      (by simp [Event.Allowed, Option.any_eq_true])
  | .spawn .. | .timerTick | .sweep | .advance _ | .setClock _ | .sendSignal .. | .futexWake ..
  | .destroy _ | .reclaim _ | .memory _ => inferInstanceAs (Decidable True)

/-- Let events happen one after the other, if each is allowed and none stops. -/
def play (k : Kernel) : List Event → Option (List Moment × Kernel)
  | [] => some ([], k)
  | e :: es =>
    if e.Allowed k then
      match e.perform k with
      | .ok a k' => (play k' es).map fun (ms, k'') => (⟨k, e, a, k'⟩ :: ms, k'')
      | .error _ _ => none
    else none

/-- What was played is a run. -/
theorem Run.of_play {es : List Event} : ∀ {k k' : Kernel} {ms : List Moment},
    play k es = some (ms, k') → Run k ms k' := by
  induction es with
  | nil =>
    intro k k' ms h
    cases h
    exact .nil
  | cons e es ih =>
    intro k k' ms h
    rw [play] at h
    split at h
    · next allowed =>
      split at h
      · next a k₁ step =>
        obtain ⟨⟨ms', k''⟩, hplay, heq⟩ := Option.map_eq_some_iff.1 h
        cases heq
        exact .cons allowed step (ih hplay)
      · cases h
    · cases h

/-- The moments of what was played are those of its events. -/
theorem events_of_play {es : List Event} : ∀ {k k' : Kernel} {ms : List Moment},
    play k es = some (ms, k') → ms.map Moment.event = es := by
  induction es with
  | nil =>
    intro k k' ms h
    cases h
    rfl
  | cons e es ih =>
    intro k k' ms h
    rw [play] at h
    split at h
    · split at h
      · obtain ⟨⟨ms', k''⟩, hplay, heq⟩ := Option.map_eq_some_iff.1 h
        cases heq
        rw [List.map_cons, ih hplay]
      · cases h
    · cases h

end SyncKernel
