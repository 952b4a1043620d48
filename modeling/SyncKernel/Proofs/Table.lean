import Mathlib
import SyncKernel.Process.Table

/-!
# Records of the process table

How a record is found after another one was put into the table. An id finds a record exactly if the
record in its slot carries that id (`get?_eq_some`); a record that is put back into its slot
replaces the one there and no other (`at?_put`). Tables are determined by their slots, so putting a
record twice is putting it once (`put_put`), records of different slots may be put in either order
(`put_comm`), and putting the record that is there changes nothing (`put_self`). Reclaiming empties
a slot (`reclaim_ok`) and entering a process fills one (`alloc_ok`). Two tables that hold the same
processes are compared slot by slot (`ProcessTable.Each`).
-/

namespace SyncKernel

namespace ProcessTable

variable {t : ProcessTable} {p q : Process} {pid : Pid} {i j : Fin slotCount}

/-- A process is found by its id in the slot the id names, if the record there has that id. -/
theorem get?_eq_some : t.get? pid = some p ↔ t.at? pid.slot = some p ∧ p.pid = pid := by
  simp [get?, Option.filter_eq_some_iff]

/-- The record in a slot is found by its own id if the id names the slot. -/
theorem get?_pid (h : t.at? p.pid.slot = some p) : t.get? p.pid = some p :=
  get?_eq_some.2 ⟨h, rfl⟩

/-- A look-up finds a process that is there and not dying. -/
theorem lookup_eq_ok : t.lookup pid = .ok p ↔ t.get? pid = some p ∧ p.status ≠ .dying := by
  unfold lookup
  cases t.get? pid with
  | none => simp
  | some q =>
    by_cases hq : q.status = .dying
    · simp only [hq, if_true, Option.some.injEq]
      constructor
      · exact nofun
      · rintro ⟨rfl, h⟩
        exact absurd hq h
    · simp only [hq, if_false, Option.some.injEq]
      constructor
      · intro h
        cases h
        exact ⟨rfl, hq⟩
      · rintro ⟨rfl, -⟩
        rfl

/-- A process in its slot that is not dying is found. -/
theorem lookup_of_live (h : t.at? p.pid.slot = some p) (live : p.status ≠ .dying) :
    t.lookup p.pid = .ok p :=
  lookup_eq_ok.2 ⟨get?_pid h, live⟩

/-- Records of different status are in different slots. -/
theorem slot_ne (hp : t.at? i = some p) (hq : t.at? j = some q) (h : p.status ≠ q.status) :
    i ≠ j := by
  rintro rfl
  cases hp.symm.trans hq
  exact h rfl

/-- The processes of a table are those in its slots. -/
theorem mem_processes : p ∈ t.processes ↔ ∃ i, t.at? i = some p := by
  simp [processes]

/-! ## Putting records back -/

/-- A record that is put stands in the slot of its id, and every other slot is as before. -/
theorem at?_put : (t.put p).at? j = if p.pid.slot = j then some p else t.at? j :=
  at?_setAt t _ j p

@[simp] theorem at?_put_self : (t.put p).at? p.pid.slot = some p := by
  simp [at?_put]

/-- Putting a record leaves every other slot. -/
theorem at?_put_of_ne (h : p.pid.slot ≠ j) : (t.put p).at? j = t.at? j := by
  simp [at?_put, h]

/-- The record in a slot after one was put back. -/
theorem at?_put_cases (hq : (t.put p).at? i = some q) :
    (p.pid.slot = i ∧ q = p) ∨ (p.pid.slot ≠ i ∧ t.at? i = some q) := by
  rw [at?_put] at hq
  split at hq
  · next h => exact .inl ⟨h, (Option.some.inj hq).symm⟩
  · next h => exact .inr ⟨h, hq⟩

/-- A record is found by its id after it was put into the table. -/
theorem get?_put_self : (t.put p).get? p.pid = some p :=
  get?_pid at?_put_self

/-- Putting a record leaves the processes of other slots. -/
theorem get?_put_of_ne (h : p.pid.slot ≠ pid.slot) : (t.put p).get? pid = t.get? pid := by
  simp [get?, at?_put_of_ne h]

/-- The id of a record that was put back finds it, the others find what they found, provided the
record replaced one of the same id. -/
theorem get?_put (h : t.at? p.pid.slot = some q) (hq : q.pid = p.pid) :
    (t.put p).get? pid = if p.pid = pid then some p else t.get? pid := by
  by_cases hs : p.pid.slot = pid.slot
  · by_cases hp : p.pid = pid
    · rw [if_pos hp, ← hp, get?_put_self]
    · have hne : q.pid ≠ pid := hq ▸ hp
      rw [if_neg hp, get?, get?, ← hs, at?_put_self, h,
        Option.filter_some_neg (by simpa using hp), Option.filter_some_neg (by simpa using hne)]
  · have hp : p.pid ≠ pid := fun e => hs (e ▸ rfl)
    rw [if_neg hp, get?_put_of_ne hs]

/-- Two tables with the same slots are equal. -/
theorem slots_ext {t u : ProcessTable} (h : ∀ i : Fin slotCount, t.slots[i]? = u.slots[i]?) :
    t = u := by
  cases t
  cases u
  congr
  exact Std.ExtTreeMap.ext_getElem? fun i => h i

theorem setAt_setAt : (t.setAt i p).setAt i q = t.setAt i q := by
  refine slots_ext fun j => ?_
  simp only [setAt, setSlot, slot, Std.ExtTreeMap.getElem?_insert, Std.ExtTreeMap.getD_insert]
  split <;> simp_all

/-- Of two records of one process the later one stays. -/
theorem put_put (h : p.pid = q.pid) : (t.put p).put q = t.put q := by
  rw [put, put, put, h]
  exact setAt_setAt

/-- Records of different slots may be put back in either order. -/
theorem put_comm (h : p.pid.slot ≠ q.pid.slot) : (t.put p).put q = (t.put q).put p := by
  refine slots_ext fun j => ?_
  simp only [put, setAt, setSlot, slot, Std.ExtTreeMap.getElem?_insert,
    Std.ExtTreeMap.getD_insert]
  grind

/-- Putting back the record that is there changes nothing. -/
theorem put_self (h : t.at? p.pid.slot = some p) : t.put p = t := by
  refine slots_ext fun j => ?_
  simp only [put, setAt, setSlot, Std.ExtTreeMap.getElem?_insert]
  split
  · next hj =>
    have hj : p.pid.slot = j := by simpa using hj
    subst hj
    rw [at?, slot, Std.ExtTreeMap.getD_eq_getD_getElem?] at h
    rw [slot, Std.ExtTreeMap.getD_eq_getD_getElem?]
    cases hs : t.slots[p.pid.slot]? with
    | none => simp [hs] at h
    | some s =>
      simp only [hs, Option.getD_some] at h
      cases s
      simp_all
  · rfl

/-- Changing a present record is putting the changed record back. -/
theorem update_eq_put {f : Process → Process} (h : t.get? pid = some p)
    (hf : (f p).pid = p.pid) : t.update pid f = t.put (f p) := by
  simp only [update, h, put, hf, (get?_eq_some.1 h).2]

/-- The processes of two ids come in the order of the ids, whichever slot is the lower one. -/
theorem pair?_eq_some {a b : Pid} :
    t.pair? a b = some (p, q) ↔ a.slot ≠ b.slot ∧ t.get? a = some p ∧ t.get? b = some q := by
  unfold pair?
  by_cases hslot : a.slot = b.slot
  · simp [hslot]
  · by_cases ascending : a.slot < b.slot
    all_goals
      simp only [hslot, ascending, if_false, if_true, get?_eq_some]
      cases t.at? a.slot <;> cases t.at? b.slot <;> simp
      grind

/-! ## Reclaiming and entering -/

section
variable {t' : ProcessTable}

/-- The id made for a slot names that slot. -/
theorem slot_ofSlot (generation : Nat) (i : Fin slotCount) :
    (Pid.ofSlot generation i).slot = i := by
  refine Fin.ext ?_
  have hcount : slotCount = 256 := rfl
  have hi : (i : Nat) < 256 := i.isLt
  simp only [Pid.slot, Pid.ofSlot, UInt32.toNat_ofNat', hcount]
  omega

/-- A slot that is replaced holds the process of the new one. -/
theorem at?_setSlot {s : Slot} :
    (t.setSlot i s).at? j = if i = j then s.process else t.at? j := by
  simp only [at?, slot_setSlot]
  split <;> rfl

/-- Reclaiming empties the slot of a dying process. -/
theorem reclaim_ok (h : t.reclaim pid = .ok (.ok t')) :
    ∃ p, t.get? pid = some p ∧ p.status = .dying ∧ p.futex = none ∧
      ∀ j, t'.at? j = if pid.slot = j then none else t.at? j := by
  unfold reclaim at h
  split at h
  · cases h
  next p hp =>
    split at h
    · cases h
    next hd =>
      split at h
      · cases h
      next hf =>
        cases h
        exact ⟨p, hp, Decidable.not_not.1 hd, by simpa using hf, fun j => at?_setSlot⟩

/-- Entering a process fills an empty slot with a runnable process. -/
theorem alloc_ok {space : SpaceId} {frame : TrapFrame} (h : t.alloc space frame = .ok (pid, t')) :
    t.at? pid.slot = none ∧ t' = t.put { pid, frame, space } := by
  unfold alloc at h
  split at h
  · cases h
  next i hi =>
    have hfree : t.at? i = none := by simpa using List.find?_some hi
    cases h
    rw [slot_ofSlot]
    exact ⟨hfree, by rw [put, slot_ofSlot]⟩

end

/-! ## Tables compared slot by slot -/

/-- Every record is in the slot that its id names. -/
def Placed (t : ProcessTable) : Prop :=
  ∀ i p, t.at? i = some p → p.pid.slot = i

/-- Every slot holds what it held, up to a relation on records. -/
def Each (R : Process → Process → Prop) (t t' : ProcessTable) : Prop :=
  ∀ i, Option.Rel R (t.at? i) (t'.at? i)

/-- In a table whose records are in their slots, a record is found in the slot that its id names. -/
theorem Placed.at?_slot (h : t.Placed) (hp : t.at? i = some p) : t.at? p.pid.slot = some p := by
  rw [h i p hp, hp]

namespace Each

variable {R S : Process → Process → Prop} {t₁ t' : ProcessTable} {p' : Process}

theorem refl [Std.Refl R] (t : ProcessTable) : t.Each R t := fun i => by
  cases t.at? i with
  | none => exact .none
  | some p => exact .some (Std.Refl.refl p)

theorem trans [IsTrans Process R] (h : t.Each R t₁) (h' : t₁.Each R t') : t.Each R t' := fun i => by
  have hi := h i
  have hi' := h' i
  revert hi hi'
  cases t.at? i <;> cases t₁.at? i <;> cases t'.at? i <;> intro hi hi'
  all_goals first | exact .none | cases hi <;> cases hi'
  next hr hr' => exact .some (trans_of R hr hr')

theorem mono (hRS : ∀ {p q}, R p q → S p q) (h : t.Each R t') : t.Each S t' := fun i => by
  have hi := h i
  revert hi
  cases t.at? i <;> cases t'.at? i <;> intro hi <;> cases hi
  · exact .none
  · next hr => exact .some (hRS hr)

/-- What is empty before is empty after. -/
theorem at?_eq_none (h : t.Each R t') (hi : t.at? i = none) : t'.at? i = none := by
  have hrel := h i
  cases hi' : t'.at? i with
  | none => rfl
  | some p =>
    rw [hi, hi'] at hrel
    cases hrel

/-- What is in a slot before is there after, up to the relation. -/
theorem exists_after (h : t.Each R t') (hp : t.at? i = some p) :
    ∃ p', t'.at? i = some p' ∧ R p p' := by
  have hi := h i
  rw [hp] at hi
  cases hi' : t'.at? i <;> rw [hi'] at hi <;> cases hi
  next p' hr => exact ⟨p', rfl, hr⟩

/-- What is in a slot after was there before, up to the relation. -/
theorem exists_before (h : t.Each R t') (hp : t'.at? i = some p') :
    ∃ p, t.at? i = some p ∧ R p p' := by
  have hi := h i
  rw [hp] at hi
  cases hi' : t.at? i <;> rw [hi'] at hi <;> cases hi
  next p hr => exact ⟨p, rfl, hr⟩

/-- A record may be replaced by one that is related to what its slot held at first. -/
theorem put (h : t.Each R t') (hp : t.at? p'.pid.slot = some p) (hr : R p p') :
    t.Each R (t'.put p') := fun i => by
  by_cases hi : p'.pid.slot = i
  · subst hi
    rw [at?_put_self, hp]
    exact .some hr
  · rw [at?_put_of_ne hi]
    exact h i

/-- Records stay in their slots if they keep their ids. -/
theorem placed (hpid : ∀ {p p'}, R p p' → p'.pid = p.pid) (h : t.Each R t') (hp : t.Placed) :
    t'.Placed := fun i p' hp' => by
  obtain ⟨p, hat, hr⟩ := h.exists_before hp'
  rw [hpid hr, hp i p hat]

end Each

end ProcessTable

end SyncKernel
