import SyncKernel.Proofs.Queues

/-!
# One queue for each address

The futex table spreads its nodes over buckets that addresses share. Seen from outside it is
simpler: for each address there is one queue of processes, in order of arrival (`Queues`). `FutexOp`
lists what may happen to these queues, with the queues that it leaves (`FutexOp.after`) and the
processes that it wakes (`FutexOp.woken`). `FutexTable.queue` reads the queues out of the table. The
operations of the table change them as they should (`queue_enqueue`, `queue_remove_first`,
`Matches.queue_unlink`), and its counts are those of the queues (`waiters_eq`,
`Matches.isQueued_iff`, `Matches.total_eq`).
-/

namespace SyncKernel

/-- For each address the processes that wait on it, the longest waiting in front. -/
abbrev Queues := UInt64 → List Pid

namespace Queues

/-- The queues after a process was put at the end of that of an address. -/
def join (q : Queues) (pid : Pid) (address : UInt64) : Queues :=
  Function.update q address (q address ++ [pid])

/-- The queues after up to `most` processes left that of an address at the front. -/
def drop (q : Queues) (address : UInt64) (most : Nat) : Queues :=
  Function.update q address ((q address).drop most)

/-- The queues after a process left the one it stood in. -/
def leave (q : Queues) (pid : Pid) : Queues :=
  fun address => (q address).erase pid

/-- The queues after, for each of a list of addresses in turn, the first process left. -/
def dropEach (q : Queues) : List UInt64 → Queues
  | [] => q
  | address :: rest => dropEach (q.drop address 1) rest

/-- The processes that leave when the first one does for each of a list of addresses in turn. -/
def firstEach (q : Queues) : List UInt64 → List Pid
  | [] => []
  | address :: rest => (q address).take 1 ++ firstEach (q.drop address 1) rest

section
variable {q : Queues} {a c : UInt64} {n n' : Nat} {pid : Pid} {locks : List UInt64}

/-- Processes leave the queue of their own address only. -/
theorem drop_apply : q.drop a n c = if c = a then (q a).drop n else q c :=
  Function.update_apply ..

@[simp] theorem drop_zero : q.drop a 0 = q := by
  simp [drop]

/-- Leaving at the front in two steps is leaving in one. -/
theorem drop_drop : (q.drop a n).drop a n' = q.drop a (n + n') := by
  simp [drop, List.drop_drop]

/-- No more processes leave a queue than stand in it. -/
theorem drop_length_take : q.drop a ((q a).take n).length = q.drop a n := by
  rw [drop, drop, List.length_take]
  congr 1
  rcases Nat.le_total n (q a).length with h | h
  · rw [Nat.min_eq_left h]
  · rw [Nat.min_eq_right h, List.drop_length, List.drop_eq_nil_of_le h]

/-- Who leaves stood in the queue of one of the addresses. -/
theorem exists_of_mem_firstEach (h : pid ∈ q.firstEach locks) : ∃ a ∈ locks, pid ∈ q a := by
  induction locks generalizing q with
  | nil => cases h
  | cons address rest ih =>
    rcases List.mem_append.1 h with h | h
    · exact ⟨address, List.mem_cons_self, List.mem_of_mem_take h⟩
    · obtain ⟨a, ha, hmem⟩ := ih h
      refine ⟨a, List.mem_cons_of_mem _ ha, ?_⟩
      rw [drop_apply] at hmem
      split at hmem
      · next heq => exact heq ▸ List.mem_of_mem_drop hmem
      · exact hmem

end

end Queues

/-- What may happen to the processes that wait on futexes. -/
inductive FutexOp where
  /-- Nothing. -/
  | none
  /-- A process begins to wait on an address. -/
  | wait (pid : Pid) (address : UInt64)
  /-- Up to `most` processes that wait on an address are woken. -/
  | wake (address : UInt64) (most : Nat)
  /-- A process goes, and one process is woken for each of the locks it leaves. -/
  | leave (pid : Pid) (locks : List UInt64)
deriving DecidableEq

namespace FutexOp

/-- The queues after an operation. -/
def after : FutexOp → Queues → Queues
  | none, q => q
  | wait pid address, q => q.join pid address
  | wake address most, q => q.drop address most
  | leave pid locks, q => (q.leave pid).dropEach locks

/-- The processes that an operation wakes. -/
def woken : FutexOp → Queues → List Pid
  | none, _ | wait _ _, _ => []
  | wake address most, q => (q address).take most
  | leave pid locks, q => (q.leave pid).firstEach locks

/-- The addresses that an operation wakes. -/
def wakes : FutexOp → List UInt64
  | none | wait _ _ => []
  | wake address _ => [address]
  | leave _ locks => locks

/-- Who is woken waited on an address that is woken. -/
theorem exists_of_mem_woken {op : FutexOp} {q : Queues} {pid : Pid} (h : pid ∈ op.woken q) :
    ∃ a ∈ op.wakes, pid ∈ q a := by
  cases op with
  | none | wait => cases h
  | wake address most => exact ⟨address, List.mem_singleton_self _, List.mem_of_mem_take h⟩
  | leave gone locks =>
    obtain ⟨a, ha, hmem⟩ := Queues.exists_of_mem_firstEach h
    exact ⟨a, ha, List.mem_of_mem_erase hmem⟩

/-- A process that goes is not woken by the locks it leaves. -/
theorem not_mem_woken_leave {q : Queues} {pid : Pid} (h : ∀ a, (q a).Nodup)
    (locks : List UInt64) : pid ∉ (leave pid locks).woken q := by
  intro hmem
  obtain ⟨a, -, hmem⟩ := Queues.exists_of_mem_firstEach hmem
  exact (h a).not_mem_erase hmem

end FutexOp

/-- The processes of those nodes of a list that wait on an address. -/
def waitingOn (address : UInt64) (nodes : List Waiter) : List Pid :=
  (nodes.filter fun x => x.address = address).map (·.pid)

section
variable {a c : UInt64} {pid : Pid} {l l' : List Waiter} {x : Waiter}

@[simp] theorem waitingOn_append : waitingOn a (l ++ l') = waitingOn a l ++ waitingOn a l' := by
  simp [waitingOn]

@[simp] theorem waitingOn_cons :
    waitingOn a (x :: l) = if x.address = a then x.pid :: waitingOn a l else waitingOn a l := by
  by_cases h : x.address = a <;> simp [waitingOn, h]

@[simp] theorem waitingOn_nil : waitingOn a [] = [] := rfl

/-- A process waits on an address exactly if its node with that address is in the list. -/
@[simp] theorem mem_waitingOn : pid ∈ waitingOn a l ↔ ⟨pid, a⟩ ∈ l := by
  simp only [waitingOn, List.mem_map, List.mem_filter, decide_eq_true_eq]
  constructor
  · rintro ⟨⟨_, _⟩, ⟨h, rfl⟩, rfl⟩
    exact h
  · exact fun h => ⟨_, ⟨h, rfl⟩, rfl⟩

/-- Nobody waits on an address that no node carries. -/
theorem waitingOn_eq_nil (h : ∀ x ∈ l, x.address ≠ a) : waitingOn a l = [] := by
  simpa [waitingOn] using h

/-- The processes that wait on an address are counted by its nodes. -/
theorem length_waitingOn : (waitingOn a l).length = l.countP fun x => x.address == a := by
  rw [waitingOn, List.length_map, List.countP_eq_length_filter]
  rfl

end

namespace FutexTable

variable {t : FutexTable} {a c : UInt64} {pid : Pid} {before after : List Waiter}

/-- The processes that wait on an address, the longest waiting in front. -/
def queue (t : FutexTable) : Queues :=
  fun address => waitingOn address (t.bucket address)

/-- Addresses that share a bucket have the same one. -/
theorem bucket_congr (h : bucketOf a = bucketOf c) : t.bucket a = t.bucket c :=
  (getElem_eq_bucket h).symm

/-- Replacing a bucket changes the queues of the addresses that share it. -/
theorem queue_setBucket {l : List Waiter} :
    (t.setBucket a l).queue c =
      if bucketOf a = bucketOf c then waitingOn c l else t.queue c := by
  rw [queue, bucket_setBucket]
  split <;> rfl

/-- A queue without nodes. -/
theorem queue_empty : ({} : FutexTable).queue = fun _ => [] := by
  funext a
  simp [queue, bucket]

/-- A process that is put into a bucket comes to the end of the queue of its address. -/
theorem queue_enqueue : (t.enqueue pid a).queue = t.queue.join pid a := by
  funext c
  rw [enqueue, queue_setBucket, Queues.join, Function.update_apply]
  by_cases hc : c = a
  · subst hc
    simp [queue]
  · rw [if_neg hc]
    split
    · next hb => simp [queue, bucket_congr hb, Ne.symm hc]
    · rfl

/-- Taking a node out of its bucket leaves the queues of the other addresses. -/
theorem queue_remove_of_ne (hq : t.bucket a = before ++ ⟨pid, a⟩ :: after) (hc : c ≠ a) :
    (t.setBucket a (before ++ after)).queue c = t.queue c := by
  rw [queue_setBucket]
  split
  · next hb => simp [queue, ← bucket_congr hb, hq, Ne.symm hc]
  · rfl

/-- A node stands in the queue of its address as it stands in the bucket. -/
theorem queue_of_bucket (hq : t.bucket a = before ++ ⟨pid, a⟩ :: after) :
    t.queue a = waitingOn a before ++ pid :: waitingOn a after := by
  simp [queue, hq]

/-- Taking the first node of an address out of its bucket takes the first process out of the queue.
-/
theorem queue_remove_first (hq : t.bucket a = before ++ ⟨pid, a⟩ :: after)
    (first : ∀ x ∈ before, x.address ≠ a) :
    t.queue a = pid :: waitingOn a after ∧
      (t.setBucket a (before ++ after)).queue = t.queue.drop a 1 := by
  have hnil : waitingOn a before = [] := waitingOn_eq_nil first
  have hqueue : t.queue a = pid :: waitingOn a after := by
    rw [queue_of_bucket hq, hnil, List.nil_append]
  refine ⟨hqueue, ?_⟩
  funext c
  rw [Queues.drop, Function.update_apply]
  by_cases hc : c = a
  · subst hc
    rw [if_pos rfl, hqueue, queue_setBucket, if_pos rfl, waitingOn_append, hnil]
    rfl
  · rw [if_neg hc, queue_remove_of_ne hq hc]

/-- The number of nodes of an address is the length of its queue. -/
theorem waiters_eq : t.waiters a = (t.queue a).length :=
  length_waitingOn.symm

namespace Matches

variable {procs : ProcessTable} {p : Process}

/-- A process stands in the queue of the address in its record. -/
theorem mem_queue (h : t.Matches procs) :
    pid ∈ t.queue a ↔ ∃ p, procs.get? pid = some p ∧ p.futex = some a := by
  rw [queue, mem_waitingOn, h.mem_iff]
  exact ⟨fun hx => hx.2, fun hx => ⟨rfl, hx⟩⟩

/-- No process stands twice in a queue. -/
theorem queue_nodup (h : t.Matches procs) (a : UInt64) : (t.queue a).Nodup := by
  refine List.Nodup.map_on ?_ ((h.nodup a).filter _)
  intro x hx y hy hpid
  have hxa : x.address = a := by simpa using (List.mem_filter.1 hx).2
  have hya : y.address = a := by simpa using (List.mem_filter.1 hy).2
  obtain ⟨xpid, xaddress⟩ := x
  obtain ⟨ypid, yaddress⟩ := y
  exact congr (congrArg Waiter.mk hpid) (hxa.trans hya.symm)

/-- Taking a process out of its bucket takes it out of all queues. -/
theorem queue_unlink (h : t.Matches procs) (hp : procs.at? p.pid.slot = some p)
    (hf : p.futex = some a) : (t.unlink p.pid a).2.queue = t.queue.leave p.pid := by
  obtain ⟨before, after, hq, hunlink⟩ := h.unlink_eq hp hf
  rw [hunlink]
  funext c
  rw [Queues.leave]
  by_cases hc : c = a
  · subst hc
    have hnot : p.pid ∉ waitingOn c before := by
      have hnodup := h.nodup c
      rw [hq, List.nodup_middle, List.nodup_cons] at hnodup
      rw [mem_waitingOn]
      exact fun hmem => hnodup.1 (List.mem_append_left _ hmem)
    rw [queue_of_bucket hq, List.erase_append_right _ hnot, List.erase_cons_head, queue_setBucket,
      if_pos rfl, waitingOn_append]
  · rw [queue_remove_of_ne hq hc, List.erase_of_not_mem]
    rw [h.mem_queue]
    rintro ⟨q, hget, hfq⟩
    rw [ProcessTable.get?_pid hp] at hget
    cases hget
    exact hc (Option.some.inj (hfq.symm.trans hf))

/-- A process whose record names no futex leaves the queues as they are. -/
theorem queue_leave (h : t.Matches procs) (hp : procs.at? p.pid.slot = some p)
    (hf : p.futex = none) : t.queue.leave p.pid = t.queue := by
  funext c
  refine List.erase_of_not_mem fun hmem => ?_
  obtain ⟨q, hget, hfq⟩ := h.mem_queue.1 hmem
  rw [ProcessTable.get?_pid hp] at hget
  cases hget
  cases hf.symm.trans hfq

/-- A process stands in some bucket exactly if it stands in some queue. -/
theorem isQueued_iff (h : t.Matches procs) : t.isQueued pid = true ↔ ∃ a, pid ∈ t.queue a := by
  simp only [isQueued, List.any_eq_true, beq_iff_eq]
  constructor
  · rintro ⟨nodes, hnodes, x, hx, rfl⟩
    obtain ⟨i, hi, rfl⟩ := List.getElem_of_mem hnodes
    obtain ⟨address, haddress⟩ := exists_bucketOf ⟨i, by simpa using hi⟩
    have hmem : x ∈ t.bucket address := by
      rw [← getElem_eq_bucket haddress]
      simpa using hx
    exact ⟨x.address, h.mem_queue.2 ((h.mem_iff address x).1 hmem).2⟩
  · rintro ⟨a, hmem⟩
    refine ⟨t.bucket a, ?_, ⟨pid, a⟩, mem_waitingOn.1 hmem, rfl⟩
    simp [bucket]

/-- The nodes of one address stand in one bucket. -/
theorem countP_buckets (h : t.Matches procs) (a : UInt64) :
    t.buckets.toList.flatten.countP (fun x => x.address == a) = (t.queue a).length := by
  have hsum : t.buckets.toList.flatten.countP (fun x => x.address == a) =
      ∑ i : Fin bucketCount, t.buckets[i].countP fun x => x.address == a := by
    have hlist : t.buckets.toList = (List.finRange bucketCount).map fun i => t.buckets[i] :=
      List.ext_getElem (by simp) (by simp)
    rw [hlist, List.countP_flatten, List.map_map, Fin.sum_univ_def]
    rfl
  rw [hsum, Finset.sum_eq_single (bucketOf a)]
  · exact length_waitingOn.symm
  · intro i _ hi
    rw [List.countP_eq_zero]
    intro x hx hxa
    obtain ⟨c, rfl⟩ := exists_bucketOf i
    have hb := ((h.mem_iff c x).1 hx).1
    rw [beq_iff_eq.1 hxa] at hb
    exact hi hb.symm
  · simp

/-- The queue of an address is as long as the address is frequent among all nodes. -/
theorem length_eq_count (h : t.Matches procs) (a : UInt64) :
    (t.queue a).length = (t.buckets.toList.flatten.map (·.address)).count a := by
  rw [← h.countP_buckets, List.count, List.countP_map]
  rfl

/-- Processes wait only on the addresses of nodes. -/
theorem support_subset (h : t.Matches procs) : (Function.support fun a => (t.queue a).length) ⊆
    ↑(t.buckets.toList.flatten.map (·.address)).toFinset := by
  intro a ha
  rw [Function.mem_support, h.length_eq_count] at ha
  simpa [List.count_eq_zero] using ha

/-- The number of all nodes is the sum of the lengths of the queues. -/
theorem total_eq (h : t.Matches procs) : t.total = ∑ᶠ a, (t.queue a).length := by
  rw [finsum_eq_sum_of_support_subset _ h.support_subset]
  simp only [h.length_eq_count, List.sum_toFinset_count_eq_length]
  rw [List.length_map]
  rfl

end Matches

end FutexTable

end SyncKernel
