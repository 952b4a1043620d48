import SyncKernel.Futex.Table
import SyncKernel.Proofs.Table

/-!
# Futex queues and process records

That a process waits on a futex is kept twice: as a node in the queue of the address and as the
address in the record. `FutexTable.Matches` says that the two agree: no queue holds a node twice,
and the nodes of a queue are exactly those of the processes whose record names an address of that
queue. The rest says what the operations on queues and records do to the agreement: it stays as long
as no record changes its address (`Matches.put`), and a node and the address of its record come
(`Matches.enqueue`) and go (`Matches.remove`) together.
-/

namespace SyncKernel

namespace FutexTable

variable {t : FutexTable} {a b : UInt64} {q : List Waiter} {x : Waiter} {pid : Pid}

/-- Replacing a bucket replaces it for all addresses that share it. -/
theorem bucket_setBucket :
    (t.setBucket a q).bucket b = if bucketOf a = bucketOf b then q else t.bucket b := by
  by_cases h : bucketOf a = bucketOf b
  · simp [bucket, setBucket, h]
  · have hne : (bucketOf a : Nat) ≠ bucketOf b := fun e => h (Fin.ext e)
    simp [bucket, setBucket, h, Vector.getElem_set_ne, hne]

/-- Every bucket is that of some address. -/
theorem exists_bucketOf (i : Fin bucketCount) : ∃ a, bucketOf a = i := by
  refine ⟨UInt64.ofNat (8 * i), Fin.ext ?_⟩
  have hi : (i : Nat) < 256 := i.isLt
  have hmod : (UInt64.ofNat (8 * i)).toNat = 8 * i :=
    UInt64.toNat_ofNat_of_lt' (by simp only [UInt64.size]; omega)
  simp only [bucketOf, hmod]
  rw [Nat.mul_div_cancel_left _ (by decide)]
  exact Nat.mod_eq_of_lt i.isLt

/-- The bucket of an address is the one with its index. -/
theorem getElem_eq_bucket {i : Fin bucketCount} (h : bucketOf a = i) :
    t.buckets[i] = t.bucket a := by
  subst h
  rfl

/-- Replacing a queue by itself changes nothing. -/
theorem setBucket_bucket : t.setBucket a (t.bucket a) = t := by
  cases t
  simp [setBucket, bucket]

/-- Of two replacements of a bucket the later one stays. -/
theorem setBucket_setBucket {q' : List Waiter} :
    (t.setBucket a q).setBucket a q' = t.setBucket a q' := by
  simp [setBucket]

/-- The queues hold the processes that wait on futexes according to their records. -/
structure Matches (t : FutexTable) (procs : ProcessTable) : Prop where
  nodup : ∀ a, (t.bucket a).Nodup
  mem_iff : ∀ a x, x ∈ t.bucket a ↔
    bucketOf x.address = bucketOf a ∧
      ∃ p, procs.get? x.pid = some p ∧ p.futex = some x.address

namespace Matches

variable {procs : ProcessTable} {p p' : Process}

/-- A table without records and nodes is in agreement. -/
theorem empty : Matches {} {} where
  nodup a := by simp [bucket]
  mem_iff a x := by
    have hslot : ∀ i, ({} : ProcessTable).at? i = none := fun i => rfl
    simp [bucket, ProcessTable.get?, hslot]

/-- The node of a process that waits stands in the queue of its address. -/
theorem mem_of_futex (h : t.Matches procs) (hp : procs.at? p.pid.slot = some p)
    (hf : p.futex = some a) : ⟨p.pid, a⟩ ∈ t.bucket a :=
  (h.mem_iff a _).2 ⟨rfl, p, ProcessTable.get?_pid hp, hf⟩

/-- A process has no node but that of the address in its record. -/
theorem futex_of_mem (h : t.Matches procs) (hp : procs.at? p.pid.slot = some p)
    (hx : x ∈ t.bucket a) (hpid : x.pid = p.pid) : p.futex = some x.address := by
  obtain ⟨-, q, hq, hf⟩ := (h.mem_iff a x).1 hx
  rw [hpid, ProcessTable.get?_pid hp] at hq
  cases hq
  exact hf

/-- A process whose node is in the bucket of an address waits on it. -/
theorem futex_of_split {before after : List Waiter} (h : t.Matches procs)
    (hp : procs.at? p.pid.slot = some p) (hq : t.bucket a = before ++ ⟨p.pid, a⟩ :: after) :
    p.futex = some a :=
  h.futex_of_mem (x := ⟨p.pid, a⟩) (a := a) hp (by simp [hq]) rfl

/-- A process has one node. -/
theorem eq_of_mem {c : UInt64} (h : t.Matches procs) (hp : procs.at? p.pid.slot = some p)
    (hf : p.futex = some c) (hx : x ∈ t.bucket a) (hpid : x.pid = p.pid) : x = ⟨p.pid, c⟩ := by
  have hfx := h.futex_of_mem hp hx hpid
  rw [hf] at hfx
  cases x
  cases hfx
  cases hpid
  rfl

/-- Records may change as long as none changes the address it waits on. -/
theorem of_get? {procs' : ProcessTable} (h : t.Matches procs)
    (heq : ∀ (pid : Pid) (address : UInt64),
      (∃ p, procs'.get? pid = some p ∧ p.futex = some address) ↔
        ∃ p, procs.get? pid = some p ∧ p.futex = some address) : t.Matches procs' where
  nodup := h.nodup
  mem_iff a x := by rw [h.mem_iff, heq]

/-- The record of a slot may come, go or change as long as none of them waits. -/
theorem of_slot {procs' : ProcessTable} (h : t.Matches procs) (i : Fin slotCount)
    (hother : ∀ j, i ≠ j → procs'.at? j = procs.at? j)
    (hold : ∀ p, procs.at? i = some p → p.futex = none)
    (hnew : ∀ p, procs'.at? i = some p → p.futex = none) : t.Matches procs' := by
  refine h.of_get? fun pid address => ?_
  by_cases hi : i = pid.slot
  · subst hi
    constructor
    · rintro ⟨p, hp, hf⟩
      rw [hnew p (ProcessTable.get?_eq_some.1 hp).1] at hf
      cases hf
    · rintro ⟨p, hp, hf⟩
      rw [hold p (ProcessTable.get?_eq_some.1 hp).1] at hf
      cases hf
  · rw [ProcessTable.get?, hother _ hi, ProcessTable.get?]

/-- A record may be replaced by one that waits on the same futex. -/
theorem put (h : t.Matches procs) (hp : procs.at? p.pid.slot = some p) (hpid : p'.pid = p.pid)
    (hf : p'.futex = p.futex) : t.Matches (procs.put p') := by
  refine h.of_get? fun pid address => ?_
  rw [ProcessTable.get?_put (hpid.symm ▸ hp) hpid.symm]
  by_cases hx : p'.pid = pid
  · have hget : procs.get? pid = some p := by
      rw [← hx, hpid]
      exact ProcessTable.get?_pid hp
    simp [hx, hget, hf]
  · simp [hx]

/-- A process that did not wait comes to the end of the queue of the address its record is given.
-/
theorem enqueue (h : t.Matches procs) (hp : procs.at? p.pid.slot = some p)
    (hpid : p'.pid = p.pid) (hf : p.futex = none) (hf' : p'.futex = some a) :
    (t.enqueue p.pid a).Matches (procs.put p') := by
  have hnew : ⟨p.pid, a⟩ ∉ t.bucket a := fun hx => by
    have := h.futex_of_mem hp hx rfl
    rw [hf] at this
    cases this
  have hget : ∀ pid address, (∃ q, (procs.put p').get? pid = some q ∧ q.futex = some address) ↔
      (pid = p.pid ∧ address = a) ∨ ∃ q, procs.get? pid = some q ∧ q.futex = some address := by
    intro pid address
    rw [ProcessTable.get?_put (hpid.symm ▸ hp) hpid.symm]
    by_cases hx : p.pid = pid
    · simp [← hx, hpid, ProcessTable.get?_pid hp, hf, hf', eq_comm]
    · simp [hpid, hx, Ne.symm hx]
  refine ⟨fun b => ?_, fun b x => ?_⟩
  · rw [FutexTable.enqueue, bucket_setBucket]
    split
    · rw [List.nodup_append]
      refine ⟨h.nodup a, List.nodup_singleton _, fun y hy z hz => ?_⟩
      rw [List.mem_singleton.1 hz]
      exact fun e => hnew (e ▸ hy)
    · exact h.nodup b
  · rw [FutexTable.enqueue, bucket_setBucket, hget]
    by_cases hab : bucketOf a = bucketOf b
    · rw [if_pos hab, List.mem_append, List.mem_singleton, h.mem_iff, hab]
      obtain ⟨xp, xa⟩ := x
      constructor
      · rintro (⟨hb, hx⟩ | hx)
        · exact ⟨hb, .inr hx⟩
        · cases hx
          exact ⟨hab, .inl ⟨rfl, rfl⟩⟩
      · rintro ⟨hb, ⟨rfl, rfl⟩ | hx⟩
        · exact .inr rfl
        · exact .inl ⟨hb, hx⟩
    · rw [if_neg hab, h.mem_iff]
      refine and_congr_right fun hb => ⟨.inr, ?_⟩
      rintro (⟨-, hx⟩ | hx)
      · exact absurd (hx ▸ hb) hab
      · exact hx

/-- A node goes when its record gives up the address. -/
theorem remove {before after : List Waiter} (h : t.Matches procs)
    (hp : procs.at? p.pid.slot = some p) (hpid : p'.pid = p.pid) (hf : p'.futex = none)
    (hq : t.bucket a = before ++ ⟨p.pid, a⟩ :: after) :
    (t.setBucket a (before ++ after)).Matches (procs.put p') := by
  have hnd : (before ++ ⟨p.pid, a⟩ :: after).Nodup := hq ▸ h.nodup a
  have hmem : ∀ x, x ∈ before ++ after ↔ x ∈ t.bucket a ∧ x ≠ ⟨p.pid, a⟩ := by
    intro x
    have hne : ⟨p.pid, a⟩ ∉ before ++ after := (List.nodup_middle.1 hnd).notMem
    rw [hq]
    constructor
    · exact fun hx => ⟨by grind, fun e => hne (e ▸ hx)⟩
    · rintro ⟨hx, hxne⟩
      grind
  have hfp : p.futex = some a := h.futex_of_split hp hq
  have hget : ∀ pid address, (∃ q, (procs.put p').get? pid = some q ∧ q.futex = some address) ↔
      (∃ q, procs.get? pid = some q ∧ q.futex = some address) ∧ pid ≠ p.pid := by
    intro pid address
    rw [ProcessTable.get?_put (hpid.symm ▸ hp) hpid.symm]
    by_cases hx : p.pid = pid
    · simp [hpid, hx, hf]
    · simp [hpid, hx, Ne.symm hx]
  refine ⟨fun b => ?_, fun b x => ?_⟩
  · rw [bucket_setBucket]
    split
    · exact (List.nodup_middle.1 hnd).of_cons
    · exact h.nodup b
  · rw [bucket_setBucket, hget]
    by_cases hab : bucketOf a = bucketOf b
    · rw [if_pos hab, hmem, h.mem_iff, hab, and_assoc]
      refine and_congr_right fun _ => and_congr_right fun hx => not_congr ?_
      constructor
      · exact fun e => congrArg Waiter.pid e
      · intro e
        obtain ⟨q, hq', hfq⟩ := hx
        rw [e, ProcessTable.get?_pid hp] at hq'
        cases hq'
        rw [hfp] at hfq
        cases x
        cases hfq
        cases e
        rfl
    · rw [if_neg hab, h.mem_iff]
      refine and_congr_right fun hb => ⟨fun hx => ⟨hx, fun e => ?_⟩, fun hx => hx.1⟩
      obtain ⟨q, hq', hfq⟩ := hx
      rw [e, ProcessTable.get?_pid hp] at hq'
      cases hq'
      rw [hfp] at hfq
      exact hab (by rw [← hb, Option.some.inj hfq])

/-- Taking the node of a process out of the queue it stands in takes out that node only. -/
theorem unlink_eq (h : t.Matches procs) (hp : procs.at? p.pid.slot = some p)
    (hf : p.futex = some a) :
    ∃ before after, t.bucket a = before ++ ⟨p.pid, a⟩ :: after ∧
      t.unlink p.pid a = (true, t.setBucket a (before ++ after)) := by
  have hx := h.mem_of_futex hp hf
  -- the search runs through the queue from its end
  obtain ⟨y, after, before, -, hy, hq, her⟩ :=
    List.exists_of_eraseP (List.mem_reverse.2 hx) (p := fun x => x.pid == p.pid) (by simp)
  have hq : t.bucket a = before.reverse ++ y :: after.reverse := by
    rw [← List.reverse_reverse (t.bucket a), hq, List.reverse_append, List.reverse_cons,
      List.append_assoc, List.singleton_append]
  have hy : y = ⟨p.pid, a⟩ :=
    h.eq_of_mem hp hf (hq ▸ List.mem_append_right _ (.head _)) (by simpa using hy)
  refine ⟨before.reverse, after.reverse, hy ▸ hq, ?_⟩
  rw [unlink, if_pos (List.any_eq_true.2 ⟨_, hx, by simp⟩), her, List.reverse_append]

/-- A process whose record names no futex is in no queue. -/
theorem isQueued_eq_false (h : t.Matches procs)
    (hf : ∀ p, procs.get? pid = some p → p.futex = none) : t.isQueued pid = false := by
  simp only [isQueued, List.any_eq_false, List.any_eq_true, beq_iff_eq, not_exists, not_and]
  intro queue hqueue x hx hpid
  obtain ⟨i, hi, rfl⟩ := List.getElem_of_mem hqueue
  obtain ⟨address, haddress⟩ := exists_bucketOf ⟨i, by simpa using hi⟩
  have hmem : x ∈ t.bucket address := by
    rw [← getElem_eq_bucket haddress]
    simpa using hx
  obtain ⟨-, p, hp, hfp⟩ := (h.mem_iff address x).1 hmem
  rw [hf p (hpid ▸ hp)] at hfp
  cases hfp

end Matches

end FutexTable

end SyncKernel
