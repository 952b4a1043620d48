import Std.Data.ExtTreeMap
import SyncKernel.Process.Basic

/-!
# The process table

A fixed number of slots, each with its generation and the record of a process or none. Parts of the
kernel keep ids, never records: an id finds its process only while the record in its slot carries
that very id. `ProcessTable.get?` finds a process in any status, `ProcessTable.lookup` one that is
not dying. A dying process leaves its slot by `ProcessTable.reclaim`, and the slot then moves on to
its next generation.
-/

namespace SyncKernel

/-- A slot of the process table. -/
structure Slot where
  /-- The generation of the next process in this slot, or of the present one. -/
  generation : Nat := 1
  /-- The record of the process in the slot. -/
  process : Option Process := none
deriving DecidableEq

/-- The process table. -/
structure ProcessTable where
  /-- The slots that have been used, by number. -/
  slots : Std.ExtTreeMap (Fin slotCount) Slot := ∅

namespace ProcessTable

instance : Inhabited ProcessTable := ⟨{}⟩

/-- A slot. One that has not been used is empty and in its first generation. -/
def slot (t : ProcessTable) (i : Fin slotCount) : Slot :=
  t.slots.getD i {}

/-- The table with a slot replaced. -/
def setSlot (t : ProcessTable) (i : Fin slotCount) (s : Slot) : ProcessTable :=
  ⟨t.slots.insert i s⟩

/-- The process in a slot. -/
def at? (t : ProcessTable) (i : Fin slotCount) : Option Process :=
  (t.slot i).process

/-- All processes, by ascending slot. -/
def processes (t : ProcessTable) : List Process :=
  (List.finRange slotCount).filterMap t.at?

/-- The process of an id, in any status. -/
def get? (t : ProcessTable) (pid : Pid) : Option Process :=
  (t.at? pid.slot).filter fun p => p.pid = pid

/-- The process of an id, unless it is dying. -/
def lookup (t : ProcessTable) (pid : Pid) : Except Errno Process :=
  match t.get? pid with
  | some p => if p.status = .dying then .error .noSuchProcess else .ok p
  | none => .error .noSuchProcess

/-- The table with the record in a slot replaced. -/
def setAt (t : ProcessTable) (i : Fin slotCount) (p : Process) : ProcessTable :=
  t.setSlot i { t.slot i with process := some p }

/-- The table with a changed record put back into the slot its id names. -/
def put (t : ProcessTable) (p : Process) : ProcessTable :=
  t.setAt p.pid.slot p

/-- The table with the process of an id changed; nothing changes if there is none. -/
def update (t : ProcessTable) (pid : Pid) (f : Process → Process) : ProcessTable :=
  match t.get? pid with
  | some p => t.setAt pid.slot (f p)
  | none => t

/-- The processes of two ids in different slots, in the order of the ids. The slots are opened in
ascending order, so the two records change places if the first id names the higher slot. -/
def pair? (t : ProcessTable) (a b : Pid) : Option (Process × Process) :=
  if a.slot = b.slot then none
  else do
    let ascending := a.slot < b.slot
    let low ← t.at? (if ascending then a.slot else b.slot)
    let high ← t.at? (if ascending then b.slot else a.slot)
    let (p, q) := if ascending then (low, high) else (high, low)
    if p.pid ≠ a ∨ q.pid ≠ b then none else some (p, q)

/-- The lowest slot without a process. -/
def freeSlot? (t : ProcessTable) : Option (Fin slotCount) :=
  (List.finRange slotCount).find? fun i => (t.at? i).isNone

/-- Enter a new runnable process in the lowest free slot. -/
def alloc (t : ProcessTable) (space : SpaceId) (frame : TrapFrame) :
    Except Errno (Pid × ProcessTable) :=
  match t.freeSlot? with
  | none => .error .outOfMemory
  | some i =>
    let pid := Pid.ofSlot (t.slot i).generation i
    .ok (pid, t.setAt i { pid, frame, space })

/-- Take a dying process out of its slot, which moves on to the next generation. The process must
not wait on a futex. -/
def reclaim (t : ProcessTable) (pid : Pid) : Except Fault (Except Errno ProcessTable) :=
  match t.get? pid with
  | none => .ok (.error .noSuchProcess)
  | some p =>
    if p.status ≠ .dying then .ok (.error .invalidArgument)
    else if p.futex.isSome then .error .reclaimedWhileWaiting
    else .ok (.ok (t.setSlot pid.slot ⟨nextGeneration (t.slot pid.slot).generation, none⟩))

/-! ## Slots after a change -/

/-- A slot that was replaced holds the replacement, the others hold what they held. -/
theorem slot_setSlot (t : ProcessTable) (i j : Fin slotCount) (s : Slot) :
    (t.setSlot i s).slot j = if i = j then s else t.slot j := by
  simp [slot, setSlot, Std.ExtTreeMap.getD_insert]

/-- A record that was put into a slot is found there, in the other slots nothing changes. -/
theorem at?_setAt (t : ProcessTable) (i j : Fin slotCount) (p : Process) :
    (t.setAt i p).at? j = if i = j then some p else t.at? j := by
  simp only [at?, setAt, slot_setSlot]
  split <;> rfl

/-- Putting a record into a slot leaves all generations as they were. -/
theorem generation_setAt (t : ProcessTable) (i j : Fin slotCount) (p : Process) :
    ((t.setAt i p).slot j).generation = (t.slot j).generation := by
  simp only [setAt, slot_setSlot]
  split
  · next h => rw [h]
  · rfl

end ProcessTable

end SyncKernel
