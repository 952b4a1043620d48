import Mathlib
import SyncKernel.Proofs.Table

/-!
# Ids are never used twice

The table is a finite map from ids to processes. A history (`ProcessTable.Use`) says which processes
were entered, changed and reclaimed, in order; it determines a map (`content`), and a table with
that history (`ProcessTable.Reached`) finds with each of the 2^32 words what the map has there.

What makes this work is that a slot's generation is one more than the number of times the slot was
reclaimed (`ProcessTable.Kept`). The ids handed out for a slot so far have the generations up to the
present one, and the present one was handed out only if its process is still there; so the next id
for a free slot is new. This needs that the generation never wraps round, which it would do at the
`maxGeneration`-th reclaim of the same slot.
-/

namespace SyncKernel

/-! ## Generations of ids -/

namespace Pid

/-- The id made for a generation has that generation if there is room for it in the word. -/
theorem generation_ofSlot {g : Nat} {i : Fin slotCount} (room : g ≤ maxGeneration) :
    (ofSlot g i).generation = g := by
  have bound : g ≤ 16777215 := room
  have hi : (i : Nat) < 256 := i.isLt
  show (UInt32.ofNat (g * 256 + i % 256)).toNat / 256 = g
  rw [UInt32.toNat_ofNat']
  omega

/-- The word 0 is in generation 0. -/
theorem raw_ne_zero_of_generation {pid : Pid} (h : 0 < pid.generation) : pid.raw ≠ 0 := by
  intro hraw
  simp [generation, hraw] at h

end Pid

namespace ProcessTable

/-! ## Histories of the table -/

/-- A use of the process table that changes it. -/
inductive Use
  /-- A process was entered under an id. -/
  | entered (pid : Pid) (space : SpaceId) (frame : TrapFrame)
  /-- The record of a process was changed into another one. -/
  | changed (p : Process)
  /-- The process of an id was reclaimed. -/
  | reclaimed (pid : Pid)

/-- A table can be the result of some uses of the empty table, in order. -/
inductive Reached : List Use → ProcessTable → Prop
  /-- The table starts out empty. -/
  | new : Reached [] {}
  /-- A process is entered. -/
  | alloc {es : List Use} {t t' : ProcessTable} {space : SpaceId} {frame : TrapFrame} {pid : Pid}
      (h : Reached es t) (entry : t.alloc space frame = .ok (pid, t')) :
      Reached (es ++ [.entered pid space frame]) t'
  /-- The record in a slot is changed, except for the id. -/
  | change {es : List Use} {t : ProcessTable} {i : Fin slotCount} {q p : Process}
      (h : Reached es t) (present : t.at? i = some q) (same : p.pid = q.pid) :
      Reached (es ++ [.changed p]) (t.setAt i p)
  /-- A process is reclaimed. -/
  | reclaim {es : List Use} {t t' : ProcessTable} {pid : Pid}
      (h : Reached es t) (leave : t.reclaim pid = .ok (.ok t')) :
      Reached (es ++ [.reclaimed pid]) t'

/-- The processes by their ids after a use of the table. -/
def Use.apply (m : Pid → Option Process) : Use → Pid → Option Process
  | .entered pid space frame => Function.update m pid (some { pid, frame, space })
  | .changed p => Function.update m p.pid (some p)
  | .reclaimed pid => Function.update m pid none

/-- The finite map from ids to processes that a history amounts to. -/
def content (es : List Use) : Pid → Option Process :=
  es.foldl Use.apply fun _ => none

/-- The ids that were handed out, in order. -/
def issued (es : List Use) : List Pid :=
  es.filterMap fun
    | .entered pid .. => some pid
    | _ => none

/-- How often a slot was reclaimed. -/
def reclaims (es : List Use) (i : Fin slotCount) : Nat :=
  es.countP fun
    | .reclaimed pid => pid.slot = i
    | _ => false

/-- An id was handed out and not reclaimed since. -/
def InUse (es : List Use) (pid : Pid) : Prop :=
  ∃ es₁ space frame es₂, es = es₁ ++ .entered pid space frame :: es₂ ∧ .reclaimed pid ∉ es₂

section
variable {es : List Use} {e : Use} {t t' : ProcessTable} {i : Fin slotCount} {pid : Pid}
  {p : Process} {space : SpaceId} {frame : TrapFrame}

/-- A history with one more event amounts to the map that the event makes of the one before. -/
@[simp] theorem content_append : content (es ++ [e]) = e.apply (content es) := by
  simp [content]

@[simp] theorem issued_append : issued (es ++ [e]) = issued es ++ issued [e] :=
  List.filterMap_append

@[simp] theorem reclaims_append : reclaims (es ++ [e]) i = reclaims es i + reclaims [e] i :=
  List.countP_append

@[simp] theorem issued_entered : issued [.entered pid space frame] = [pid] := rfl

@[simp] theorem issued_changed : issued [.changed p] = [] := rfl

@[simp] theorem issued_reclaimed : issued [.reclaimed pid] = [] := rfl

@[simp] theorem reclaims_entered : reclaims [.entered pid space frame] i = 0 := rfl

@[simp] theorem reclaims_changed : reclaims [.changed p] i = 0 := rfl

@[simp] theorem reclaims_reclaimed :
    reclaims [.reclaimed pid] i = if pid.slot = i then 1 else 0 := by
  simp [reclaims, List.countP_cons]

/-- What one more use does to the ids in use. -/
theorem inUse_append :
    InUse (es ++ [e]) pid ↔
      (∃ space frame, e = .entered pid space frame) ∨ (InUse es pid ∧ e ≠ .reclaimed pid) := by
  constructor
  · rintro ⟨es₁, space, frame, es₂, hes, hes₂⟩
    obtain rfl | ⟨es₂, e', rfl⟩ := es₂.eq_nil_or_concat
    · obtain ⟨-, he⟩ := List.append_inj' hes rfl
      exact .inl ⟨space, frame, List.singleton_inj.1 he⟩
    · have hes : es ++ [e] = (es₁ ++ .entered pid space frame :: es₂) ++ [e'] := by simpa using hes
      obtain ⟨rfl, he⟩ := List.append_inj' hes rfl
      obtain rfl := List.singleton_inj.1 he
      simp only [List.concat_eq_append, List.mem_append, List.mem_singleton, not_or] at hes₂
      exact .inr ⟨⟨es₁, space, frame, es₂, rfl, hes₂.1⟩, Ne.symm hes₂.2⟩
  · rintro (⟨space, frame, rfl⟩ | ⟨⟨es₁, space, frame, es₂, rfl, hes₂⟩, he⟩)
    · exact ⟨es, space, frame, [], rfl, by simp⟩
    · exact ⟨es₁, space, frame, es₂ ++ [e], by simp, by simpa [hes₂] using Ne.symm he⟩

/-! ## What a use does to the table -/

/-- The slot for a new process is the lowest free one. -/
theorem freeSlot?_eq_some :
    t.freeSlot? = some i ↔ t.at? i = none ∧ ∀ j < i, (t.at? j).isSome := by
  simp only [freeSlot?, List.find?_eq_some_iff_getElem, List.getElem_finRange,
    Option.isNone_iff_eq_none, List.length_finRange, Fin.cast_mk, Bool.not_eq_true',
    Option.isNone_eq_false_iff]
  refine and_congr_right fun _ => ⟨?_, fun below => ⟨i, i.isLt, rfl, fun j hj => below _ hj⟩⟩
  rintro ⟨_, _, rfl, below⟩ j hj
  exact below j hj

/-- There is no slot for a new process exactly if the table has a process for each slot. -/
theorem freeSlot?_eq_none : t.freeSlot? = none ↔ t.processes.length = slotCount := by
  have full : t.processes.length = slotCount ↔ ∀ i, (t.at? i).isSome := by
    simpa [processes] using List.filterMap_length_eq_length (f := t.at?)
      (l := List.finRange slotCount)
  simp [full, freeSlot?, List.find?_eq_none, Option.isSome_iff_ne_none]

/-- A new process gets the id that its slot has in its present generation. -/
theorem alloc_eq_ok : t.alloc space frame = .ok (pid, t') ↔
    ∃ i, t.freeSlot? = some i ∧ pid = .ofSlot (t.slot i).generation i ∧
      t' = t.setAt i { pid, frame, space } := by
  unfold alloc
  cases t.freeSlot? with
  | none => simp
  | some i => simp +contextual [eq_comm]

/-- A record put into a slot that was free or held the same process is found by its id, and by the
other ids what was found before. -/
theorem get?_setAt (placed : p.pid.slot = i) (same : ∀ q, t.at? i = some q → p.pid = q.pid) :
    (t.setAt i p).get? = Function.update t.get? p.pid (some p) := by
  funext other
  rw [Function.update_apply, get?, at?_setAt]
  by_cases hi : i = other.slot
  · subst hi
    by_cases ho : other = p.pid
    · simp [ho]
    · have hno : t.get? other = none := by
        rw [get?, Option.filter_eq_none_iff]
        intro q hq hpid
        exact ho ((of_decide_eq_true hpid).symm.trans (same q hq).symm)
      simp [ho, hno, Ne.symm ho]
  · have ho : other ≠ p.pid := fun h => hi (h ▸ placed.symm)
    rw [if_neg hi, if_neg ho, get?]

/-- A table without the process of a slot, which is in its next generation. -/
def vacate (t : ProcessTable) (i : Fin slotCount) : ProcessTable :=
  t.setSlot i ⟨nextGeneration (t.slot i).generation, none⟩

/-- Only the slot that is vacated loses its process. -/
theorem at?_vacate {j : Fin slotCount} :
    (t.vacate i).at? j = if i = j then none else t.at? j :=
  at?_setSlot

/-- The process of a vacated slot is not found any more, and by the other ids what was found
before. -/
theorem get?_vacate (present : t.get? pid = some p) :
    (t.vacate pid.slot).get? = Function.update t.get? pid none := by
  funext other
  rw [Function.update_apply, get?, at?_vacate]
  obtain ⟨hat, hpid⟩ := get?_eq_some.1 present
  by_cases hi : pid.slot = other.slot
  · by_cases ho : other = pid
    · simp [ho]
    · have hno : t.get? other = none := by
        rw [get?, ← hi, hat, Option.filter_some_neg]
        simpa [hpid] using Ne.symm ho
      simp [hi, ho, hno]
  · have ho : other ≠ pid := fun h => hi (h ▸ rfl)
    rw [if_neg hi, if_neg ho, get?]

/-- A process that waits on no futex can be reclaimed exactly if it is dying. -/
theorem reclaim_of_get? (present : t.get? pid = some p) (idle : p.futex = none) :
    t.reclaim pid = .ok
      (if p.status = .dying then .ok (t.vacate pid.slot) else .error .invalidArgument) := by
  simp only [reclaim, present, idle]
  split <;> simp_all [vacate]

/-- Reclaiming vacates the slot of a process. -/
theorem of_reclaim (leave : t.reclaim pid = .ok (.ok t')) :
    ∃ p, t.get? pid = some p ∧ t' = t.vacate pid.slot := by
  obtain ⟨p, hp, dying, idle, -⟩ := reclaim_ok leave
  rw [reclaim_of_get? hp idle, if_pos dying] at leave
  cases leave
  exact ⟨p, hp, rfl⟩

/-! ## The invariant -/

/-- What every use of the table preserves, as long as no slot runs out of generations. -/
structure Kept (es : List Use) (t : ProcessTable) : Prop where
  /-- The generation of a slot counts how often it was reclaimed. -/
  generation : ∀ i, (t.slot i).generation = reclaims es i + 1
  /-- A record is in the slot that its id names, in the slot's present generation. -/
  present : ∀ i p, t.at? i = some p → p.pid.slot = i ∧ p.pid.generation = reclaims es i + 1
  /-- The table finds what the history says. -/
  found : t.get? = content es
  /-- The ids in use find their processes, and no other word finds one. -/
  live : ∀ pid, (t.get? pid).isSome ↔ InUse es pid
  /-- An id that is not in use any more is of an earlier generation of its slot. -/
  past : ∀ pid ∈ issued es, 0 < pid.generation ∧
    ((t.get? pid).isSome ∨ pid.generation ≤ reclaims es pid.slot)
  /-- No id was handed out twice. -/
  distinct : (issued es).Nodup

namespace Kept

/-- The empty table keeps what every use preserves. -/
theorem new : Kept [] {} where
  generation i := by simp [slot, reclaims]
  present i p hp := by simp [at?, slot] at hp
  found := by
    funext pid
    simp [get?, at?, slot, content]
  live pid := by simp [get?, at?, slot, InUse]
  past pid hpid := by simp [issued] at hpid
  distinct := List.nodup_nil

/-- A process is entered under an id that was never handed out before. -/
theorem alloc (h : Kept es t) (room : ∀ i, reclaims es i < maxGeneration)
    (entry : t.alloc space frame = .ok (pid, t')) :
    pid ∉ issued es ∧ Kept (es ++ [.entered pid space frame]) t' := by
  obtain ⟨i, hfree, hpid, rfl⟩ := alloc_eq_ok.1 entry
  have free : t.at? i = none := (freeSlot?_eq_some.1 hfree).1
  have slot : pid.slot = i := hpid ▸ slot_ofSlot ..
  have generation : pid.generation = reclaims es i + 1 := by
    rw [hpid, h.generation, Pid.generation_ofSlot (room i)]
  have unused : t.get? pid = none := by
    rw [get?, slot, free, Option.filter_none]
  have fresh : pid ∉ issued es := by
    intro hissued
    rcases (h.past pid hissued).2 with hlive | hpast
    · simp [unused] at hlive
    · rw [slot] at hpast
      omega
  have found : (t.setAt i { pid, frame, space }).get? =
      Function.update t.get? pid (some { pid, frame, space }) :=
    get?_setAt slot fun q hq => by simp [free] at hq
  refine ⟨fresh, ?_⟩
  constructor
  case generation =>
    intro j
    simp [generation_setAt, h.generation]
  case present =>
    intro j p hp
    rw [at?_setAt] at hp
    split at hp
    case isTrue hj =>
      cases hp
      exact ⟨slot.trans hj, by simp [generation, hj]⟩
    case isFalse => simpa using h.present j p hp
  case found => rw [found, h.found, content_append]; rfl
  case live =>
    intro other
    rw [found, inUse_append, ← h.live, Function.update_apply]
    by_cases hother : other = pid
    · simp [hother]
    · simp [hother, Ne.symm hother]
  case past =>
    intro other hother
    rw [found, Function.update_apply]
    rw [issued_append, List.mem_append, issued_entered, List.mem_singleton] at hother
    rcases hother with hother | rfl
    · have hne : other ≠ pid := fun e => fresh (e ▸ hother)
      simpa [hne] using h.past other hother
    · exact ⟨by omega, by simp⟩
  case distinct =>
    rw [issued_append, issued_entered, List.nodup_append]
    exact ⟨h.distinct, List.nodup_singleton pid, by grind⟩

/-- A change of a record that keeps its id changes nothing else. -/
theorem change {q : Process} (h : Kept es t) (present : t.at? i = some q)
    (same : p.pid = q.pid) : Kept (es ++ [.changed p]) (t.setAt i p) := by
  obtain ⟨slot, generation⟩ := h.present i q present
  rw [← same] at slot generation
  have found : (t.setAt i p).get? = Function.update t.get? p.pid (some p) :=
    get?_setAt slot fun q' hq' => by simp_all
  have before : t.get? p.pid = some q := get?_eq_some.2 ⟨slot ▸ present, same.symm⟩
  have isSome : ∀ pid, ((t.setAt i p).get? pid).isSome = (t.get? pid).isSome := by
    intro pid
    rw [found, Function.update_apply]
    split
    case isTrue hpid => simp [hpid, before]
    case isFalse => rfl
  constructor
  case generation =>
    intro j
    simp [generation_setAt, h.generation]
  case present =>
    intro j p' hp'
    rw [at?_setAt] at hp'
    split at hp'
    case isTrue hj =>
      cases hp'
      exact ⟨slot.trans hj, by simp [generation, hj]⟩
    case isFalse => simpa using h.present j p' hp'
  case found => rw [found, h.found, content_append]; rfl
  case live =>
    intro pid
    simp [isSome, inUse_append, h.live]
  case past =>
    intro pid hpid
    rw [issued_append, issued_changed, List.append_nil] at hpid
    simpa [isSome] using h.past pid hpid
  case distinct => simpa using h.distinct

/-- The generation of a slot grows with each reclaim. -/
theorem reclaim (h : Kept es t) (room : ∀ i, reclaims (es ++ [.reclaimed pid]) i < maxGeneration)
    (leave : t.reclaim pid = .ok (.ok t')) : Kept (es ++ [.reclaimed pid]) t' := by
  obtain ⟨p, hp, rfl⟩ := of_reclaim leave
  have found := get?_vacate hp
  constructor
  case generation =>
    intro j
    rw [reclaims_append, reclaims_reclaimed, vacate, slot_setSlot]
    split
    case isTrue hj =>
      subst hj
      have := room pid.slot
      simp only [reclaims_append, reclaims_reclaimed, if_true] at this
      rw [h.generation, nextGeneration, if_neg (by omega)]
    case isFalse => exact h.generation j
  case present =>
    intro j p' hp'
    rw [at?_vacate] at hp'
    split at hp'
    case isTrue hj => cases hp'
    case isFalse hj => simpa [hj] using h.present j p' hp'
  case found => rw [found, h.found, content_append]; rfl
  case live =>
    intro other
    rw [found, inUse_append, ← h.live, Function.update_apply]
    by_cases hother : other = pid
    · simp [hother]
    · simp [hother, Ne.symm hother]
  case past =>
    intro other hother
    rw [issued_append, issued_reclaimed, List.append_nil] at hother
    obtain ⟨positive, past⟩ := h.past other hother
    rw [found, Function.update_apply, reclaims_append]
    refine ⟨positive, ?_⟩
    by_cases ho : other = pid
    · obtain ⟨hat, rfl⟩ := get?_eq_some.1 hp
      right
      rw [ho, (h.present _ p hat).2]
      simp
    · rw [if_neg ho]
      exact past.imp_right fun hg => hg.trans (Nat.le_add_right ..)
  case distinct => simpa using h.distinct

end Kept

/-- A slot was reclaimed at least as often as in the history before. -/
theorem reclaims_le_append : reclaims es i ≤ reclaims (es ++ [e]) i := by
  simp

/-- The invariant holds of every table that was reached without a slot running out of
generations. -/
theorem Reached.kept (h : Reached es t) (room : ∀ i, reclaims es i < maxGeneration) :
    Kept es t := by
  induction h with
  | new => exact .new
  | alloc _ entry ih =>
    have room := fun i => reclaims_le_append.trans_lt (room i)
    exact ((ih room).alloc room entry).2
  | change _ present same ih =>
    exact (ih fun i => reclaims_le_append.trans_lt (room i)).change present same
  | reclaim _ leave ih =>
    exact (ih fun i => reclaims_le_append.trans_lt (room i)).reclaim room leave

/-- The id of a process that was reclaimed is of an earlier generation of its slot. -/
theorem Reached.retired (h : Reached es t) (room : ∀ i, reclaims es i < maxGeneration)
    (hpid : .reclaimed pid ∈ es) : pid.generation ≤ reclaims es pid.slot := by
  induction h with
  | new => cases hpid
  | @alloc es _ _ _ _ _ h _ ih | @change es _ _ _ _ h _ _ ih =>
    have hpid : .reclaimed pid ∈ es := by simpa using hpid
    exact (ih (fun i => reclaims_le_append.trans_lt (room i)) hpid).trans reclaims_le_append
  | @reclaim es t _ other h leave ih =>
    have earlier := fun i => reclaims_le_append.trans_lt (room i)
    rcases List.mem_append.1 hpid with hpid | hpid
    · exact (ih earlier hpid).trans reclaims_le_append
    · obtain rfl : pid = other := by simpa using hpid
      obtain ⟨p, hp, -⟩ := of_reclaim leave
      obtain ⟨hat, rfl⟩ := get?_eq_some.1 hp
      simp [((h.kept earlier).present _ p hat).2]

/-! ## The refinement -/

/-- A table does for its users what the map of its history does. -/
structure Refines (es : List Use) (t : ProcessTable) : Prop where
  /-- The ids that were handed out are distinct, and none of them is the word 0. -/
  ids : (issued es).Nodup ∧ ∀ pid ∈ issued es, pid.raw ≠ 0
  /-- A word finds the process that the map has there, as the last change left it. -/
  found : ∀ pid, t.get? pid = content es pid
  /-- It finds one exactly if it was handed out as an id and not reclaimed since. -/
  live : ∀ pid, (t.get? pid).isSome ↔ InUse es pid
  /-- An id that was reclaimed never finds a process again. -/
  stale : ∀ pid, .reclaimed pid ∈ es → t.get? pid = none
  /-- A lookup gives the process that is found if it is not dying, and reports `noSuchProcess`
  otherwise. -/
  lookup : ∀ pid, (∀ p, t.lookup pid = .ok p ↔ t.get? pid = some p ∧ p.status ≠ .dying) ∧
    ∀ e, t.lookup pid = .error e → e = .noSuchProcess
  /-- No process can be entered exactly if there is one for each slot. -/
  full : ∀ space frame e, t.alloc space frame = .error e ↔
    e = .outOfMemory ∧ t.processes.length = slotCount
  /-- A process is entered under a new id in the lowest free slot, and the others stay as they
  are. -/
  entry : ∀ space frame pid t', t.alloc space frame = .ok (pid, t') →
    t.at? pid.slot = none ∧ (∀ j < pid.slot, (t.at? j).isSome) ∧ pid ∉ issued es ∧
      t'.get? = Function.update t.get? pid (some { pid, frame, space })
  /-- A process that waits on no futex is reclaimed if it is dying; nothing else can be
  reclaimed. -/
  leave : ∀ pid, (∀ p, t.get? pid = some p → p.futex = none) →
    (∃ r, t.reclaim pid = .ok r) ∧
      ((∃ t', t.reclaim pid = .ok (.ok t')) ↔ ∃ p, t.get? pid = some p ∧ p.status = .dying)
  /-- The processes other than the reclaimed one stay as they are. -/
  left : ∀ pid t', t.reclaim pid = .ok (.ok t') → t'.get? = Function.update t.get? pid none
  /-- Two ids of different slots give the processes that they find, in this order. -/
  pair : ∀ a b p q, t.pair? a b = some (p, q) ↔
    a.slot ≠ b.slot ∧ t.get? a = some p ∧ t.get? b = some q

/-- A process table refines a finite map from ids to processes, whatever was entered, changed and
reclaimed, as long as no slot was reclaimed so often that its generations are used up. -/
theorem Reached.refines_map (h : Reached es t) (room : ∀ i, reclaims es i < 2 ^ 24 - 1) :
    Refines es t := by
  have kept := h.kept room
  constructor
  case ids =>
    exact ⟨kept.distinct, fun pid hpid => Pid.raw_ne_zero_of_generation (kept.past pid hpid).1⟩
  case found => exact congrFun kept.found
  case live => exact kept.live
  case stale =>
    intro pid hpid
    have retired := h.retired room hpid
    rw [Option.eq_none_iff_forall_ne_some]
    intro p hp
    obtain ⟨hat, rfl⟩ := get?_eq_some.1 hp
    have := (kept.present _ p hat).2
    omega
  case lookup =>
    refine fun pid => ⟨fun p => lookup_eq_ok, fun e he => ?_⟩
    unfold ProcessTable.lookup at he
    grind
  case full =>
    intro space frame e
    rw [← freeSlot?_eq_none, ProcessTable.alloc]
    cases t.freeSlot? <;> simp [eq_comm]
  case entry =>
    intro space frame pid t' entry
    obtain ⟨i, hfree, hpid, rfl⟩ := alloc_eq_ok.1 entry
    obtain ⟨free, below⟩ := freeSlot?_eq_some.1 hfree
    have slot : pid.slot = i := hpid ▸ slot_ofSlot ..
    exact ⟨slot ▸ free, slot ▸ below, (kept.alloc room entry).1,
      get?_setAt slot fun q hq => by simp [free] at hq⟩
  case leave =>
    intro pid idle
    cases hp : t.get? pid with
    | none => simp [ProcessTable.reclaim, hp]
    | some p =>
      rw [reclaim_of_get? hp (idle p hp)]
      by_cases dying : p.status = .dying <;> simp [dying]
  case left =>
    intro pid t' leave
    obtain ⟨p, hp, rfl⟩ := of_reclaim leave
    exact get?_vacate hp
  case pair => exact fun a b p q => pair?_eq_some

/-- The record of a dying process. -/
def dyingRecord (pid : Pid) : Process :=
  { pid, space := 0, frame := default, status := .dying }

/-- A process is entered in the lowest slot, dies and is reclaimed, and the slot is used again. -/
def reuse : List Use :=
  [.entered ⟨0x100⟩ 0 default, .changed (dyingRecord ⟨0x100⟩), .reclaimed ⟨0x100⟩,
    .entered ⟨0x200⟩ 0 default]

/-- The history in which a slot is used again can happen. -/
theorem reached_reuse : ∃ t, Reached reuse t := by
  have entered : Reached (reuse.take 1) _ := Reached.new.alloc
    (alloc_eq_ok.2 ⟨0, freeSlot?_eq_some.2 ⟨rfl, nofun⟩, rfl, rfl⟩)
  have died : Reached (reuse.take 2) _ := entered.change (i := 0) rfl rfl
  have gone : Reached (reuse.take 3) _ := died.reclaim rfl
  exact ⟨_, gone.alloc (alloc_eq_ok.2 ⟨0, freeSlot?_eq_some.2 ⟨rfl, nofun⟩, rfl, rfl⟩)⟩

/-- The second process of the slot is found by its own id and not by the first one's. -/
theorem Reached.refines_map_of_reuse : ∃ t, Reached reuse t ∧
    (∀ i, reclaims reuse i < 2 ^ 24 - 1) ∧ t.get? ⟨0x100⟩ = none ∧ (t.get? ⟨0x200⟩).isSome := by
  obtain ⟨t, h⟩ := reached_reuse
  have room : ∀ i, reclaims reuse i < 2 ^ 24 - 1 := fun i =>
    List.countP_le_length.trans_lt (by decide)
  have refines := h.refines_map room
  exact ⟨t, h, room, refines.stale _ (by simp [reuse]),
    (refines.live _).2 ⟨reuse.take 3, 0, default, [], rfl, nofun⟩⟩

end

end ProcessTable

end SyncKernel
