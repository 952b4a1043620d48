import SyncKernel.Futex.Wait
import SyncKernel.Proofs.Fifo

/-!
# Waking a queue with stale nodes

In the kernels that a run leads to, each node of a futex queue belongs to a process that is blocked.
Waking an address does not rely on it. Whatever the queue and the process table hold, it takes the
shortest beginning of the queue of its address that has enough blocked processes (`ShortestWith`);
the other nodes in there, of processes that are not blocked or not there at all, are dropped on the
way and do not count.

The walk over a bucket is told in two parts. Which nodes go and how many count is said by
`wakeQueue_eq`, where the walk looks up each record in a table that it has already changed: what
makes the answer one about the table before is that no two nodes of the address have the same id, so
a record is not changed before its own node is reached (`get?_dequeue_of_ne`). What becomes of the
records is said one node at a time (`Population.dequeue`) and then for any list of nodes
(`at?_dequeueEach`); there ids may repeat, since taking a process out of a queue twice is taking it
out once.

A bucket may also be kept with the latest node in front and walked by position, from its end down
and taking nodes out of the middle. That is the same walk (`wakeDown_eq`): a node that is taken out
only moves nodes that the walk has left behind.
-/

namespace SyncKernel

/-! ## Beginnings of a list -/

/-- `front` is the shortest beginning of the list `l` in which `n` elements have the property `p`,
or all of `l` if fewer have it. -/
structure ShortestWith {α : Type} (p : α → Bool) (n : Nat) (l front : List α) : Prop where
  begins : front <+: l
  enough : front.countP p = n ∨ front = l ∧ front.countP p < n
  shortest : ∀ less, less <+: front → less ≠ front → less.countP p < n

namespace ShortestWith

variable {α : Type} {p q : α → Bool} {n : Nat} {l front : List α} {x : α}

theorem zero (l : List α) : ShortestWith p 0 l [] where
  begins := List.nil_prefix
  enough := .inl List.countP_nil
  shortest _ h hne := absurd (List.prefix_nil.1 h) hne

theorem nil (n : Nat) : ShortestWith p n ([] : List α) [] where
  begins := List.prefix_rfl
  enough := by
    rcases n.eq_zero_or_pos with rfl | hn
    · exact .inl List.countP_nil
    · exact .inr ⟨rfl, hn⟩
  shortest _ h hne := absurd (List.prefix_nil.1 h) hne

/-- An element in front is taken along; if it has the property, one less is needed behind it. -/
theorem cons (h : ShortestWith p n l front) (hpos : p x = false → 0 < n) :
    ShortestWith p (if p x then n + 1 else n) (x :: l) (x :: front) where
  begins := List.prefix_cons_inj x |>.2 h.begins
  enough := by
    rw [List.countP_cons]
    rcases h.enough with hcount | ⟨rfl, hcount⟩
    · exact .inl (by split <;> omega)
    · exact .inr ⟨rfl, by split <;> omega⟩
  shortest less hless hne := by
    cases less with
    | nil =>
      cases hx : p x with
      | true => simp
      | false => simpa using hpos hx
    | cons y less =>
      obtain ⟨rfl, hrest⟩ := List.cons_prefix_cons.1 hless
      have hcount := h.shortest less hrest fun e => hne (e ▸ rfl)
      rw [List.countP_cons]
      split <;> omega

/-- Only what the property says of the elements of the list matters. -/
theorem congr (h : ShortestWith p n l front) (hpq : ∀ x ∈ l, p x = q x) :
    ShortestWith q n l front := by
  have hcount : ∀ less, less <+: l → less.countP q = less.countP p := fun less hless =>
    (List.countP_congr fun x hx => by rw [hpq x (hless.subset hx)]).symm
  refine ⟨h.begins, ?_, fun less hless hne => ?_⟩
  · rw [hcount front h.begins]
    exact h.enough
  · rw [hcount less (hless.trans h.begins)]
    exact h.shortest less hless hne

end ShortestWith

/-! ## One node -/

/-- The record of a process whose node was taken out of a queue: it waits on no futex, and it is
runnable if it was blocked. -/
def Process.dequeued (p : Process) : Process :=
  { p with futex := none, status := if p.status = .blocked then .runnable else p.status }

/-- Taking out the node of a process twice changes its record once. -/
theorem Process.dequeued_dequeued (p : Process) : p.dequeued.dequeued = p.dequeued := by
  unfold dequeued
  split <;> simp_all

/-- Whether an id finds a blocked process. -/
def ProcessTable.isBlocked (t : ProcessTable) (pid : Pid) : Bool :=
  (t.get? pid).any fun p => p.status = .blocked

/-- The report about a node that is dropped: its process is there, and is not blocked. -/
def ProcessTable.dropNotice? (t : ProcessTable) (pid : Pid) : Option Notice :=
  ((t.get? pid).filter fun p => p.status ≠ .blocked).map fun p => .futexDropped pid p.status

namespace Population

/-- The population after the node of an id was taken out of a queue. -/
def dequeue (w : Population) (pid : Pid) : Population :=
  match w.procs.get? pid with
  | none => w
  | some p =>
    if p.status = .blocked then w.put p.dequeued
    else (w.put p.dequeued).note (.futexDropped pid p.status)

/-- The population after the nodes of some ids were taken out of a queue, one after the other. -/
def dequeueEach (w : Population) (pids : List Pid) : Population :=
  pids.foldl dequeue w

section
variable {w : Population} {pid other : Pid} {pids : List Pid} {i : Fin slotCount}

/-- Taking out a node changes the record of its process, if it is there. -/
theorem procs_dequeue : (w.dequeue pid).procs =
    (w.procs.get? pid).elim w.procs fun p => w.procs.put p.dequeued := by
  unfold dequeue
  cases w.procs.get? pid with
  | none => rfl
  | some p => by_cases hb : p.status = .blocked <;> simp [hb, put, note]

/-- Taking out one node leaves the records of the other ids. -/
theorem get?_dequeue_of_ne (h : other ≠ pid) :
    (w.dequeue pid).procs.get? other = w.procs.get? other := by
  rw [procs_dequeue]
  cases hget : w.procs.get? pid with
  | none => rfl
  | some p =>
    obtain ⟨hp, rfl⟩ := ProcessTable.get?_eq_some.1 hget
    have hput : (w.procs.put p.dequeued).get? other =
        if p.pid = other then some p.dequeued else w.procs.get? other :=
      ProcessTable.get?_put hp rfl
    exact hput.trans (if_neg (Ne.symm h))

/-- Taking out a node leaves alone whether another process is blocked. -/
theorem isBlocked_dequeue_of_ne (h : other ≠ pid) :
    (w.dequeue pid).procs.isBlocked other = w.procs.isBlocked other := by
  rw [ProcessTable.isBlocked, get?_dequeue_of_ne h, ProcessTable.isBlocked]

/-- Taking out a node leaves alone what is reported about another one. -/
theorem dropNotice?_dequeue_of_ne (h : other ≠ pid) :
    (w.dequeue pid).procs.dropNotice? other = w.procs.dropNotice? other := by
  rw [ProcessTable.dropNotice?, get?_dequeue_of_ne h, ProcessTable.dropNotice?]

/-- Taking out one node changes the record that its id finds and no other. -/
theorem at?_dequeue : (w.dequeue pid).procs.at? i = (w.procs.at? i).map fun p =>
    if p.pid.slot = i ∧ p.pid = pid then p.dequeued else p := by
  have same : (∀ p, w.procs.at? i = some p → ¬ (p.pid.slot = i ∧ p.pid = pid)) →
      w.procs.at? i = (w.procs.at? i).map fun p =>
        if p.pid.slot = i ∧ p.pid = pid then p.dequeued else p := by
    intro h
    cases hp : w.procs.at? i with
    | none => rfl
    | some p => rw [Option.map_some, if_neg (h p hp)]
  rw [procs_dequeue]
  cases hget : w.procs.get? pid with
  | none =>
    refine same ?_
    rintro p hp ⟨rfl, rfl⟩
    cases hget.symm.trans (ProcessTable.get?_pid hp)
  | some p =>
    obtain ⟨hp, rfl⟩ := ProcessTable.get?_eq_some.1 hget
    have hput : (w.procs.put p.dequeued).at? i = _ := ProcessTable.at?_put
    refine hput.trans ?_
    split
    · next hi =>
      have hi : p.pid.slot = i := hi
      subst hi
      simp [hp]
    · next hi =>
      refine same ?_
      rintro q - ⟨rfl, hq⟩
      exact hi (congrArg Pid.slot hq).symm

/-- What becomes of the records when several nodes are taken out. -/
theorem at?_dequeueEach : (w.dequeueEach pids).procs.at? i = (w.procs.at? i).map fun p =>
    if p.pid.slot = i ∧ p.pid ∈ pids then p.dequeued else p := by
  induction pids generalizing w with
  | nil => simp [dequeueEach]
  | cons pid pids ih =>
    have hcons : w.dequeueEach (pid :: pids) = (w.dequeue pid).dequeueEach pids := rfl
    rw [hcons, ih, at?_dequeue, Option.map_map]
    refine Option.map_congr fun p _ => ?_
    simp only [Function.comp_apply, List.mem_cons]
    by_cases hp : p.pid.slot = i ∧ p.pid = pid
    · rw [if_pos hp, Process.dequeued_dequeued, ite_self, if_pos ⟨hp.1, .inl hp.2⟩]
    · rw [if_neg hp]
      refine if_congr ?_ rfl rfl
      exact and_congr_right fun hi => (or_iff_right fun e => hp ⟨hi, e⟩).symm

/-- Taking out nodes leaves the generations of the slots. -/
theorem generation_dequeueEach :
    ((w.dequeueEach pids).procs.slot i).generation = (w.procs.slot i).generation := by
  induction pids generalizing w with
  | nil => rfl
  | cons pid pids ih =>
    refine (ih (w := w.dequeue pid)).trans ?_
    rw [procs_dequeue]
    cases w.procs.get? pid with
    | none => rfl
    | some p => exact ProcessTable.generation_setAt ..

/-- Taking out nodes leaves the memory. -/
theorem memory_dequeueEach : (w.dequeueEach pids).memory = w.memory := by
  induction pids generalizing w with
  | nil => rfl
  | cons pid pids ih =>
    refine (ih (w := w.dequeue pid)).trans ?_
    unfold dequeue
    split
    · rfl
    · split <;> rfl

/-- The nodes that are dropped are reported in order. -/
theorem journal_dequeueEach (distinct : pids.Nodup) : (w.dequeueEach pids).journal =
    (pids.filterMap w.procs.dropNotice?).reverse ++ w.journal := by
  induction pids generalizing w with
  | nil => rfl
  | cons pid pids ih =>
    obtain ⟨hpid, distinct⟩ := List.nodup_cons.1 distinct
    have hcons : w.dequeueEach (pid :: pids) = (w.dequeue pid).dequeueEach pids := rfl
    have hrest : pids.filterMap (w.dequeue pid).procs.dropNotice? =
        pids.filterMap w.procs.dropNotice? :=
      List.filterMap_congr fun other h => dropNotice?_dequeue_of_ne fun e => hpid (e ▸ h)
    have hfirst : (w.dequeue pid).journal =
        (w.procs.dropNotice? pid).toList ++ w.journal := by
      unfold dequeue ProcessTable.dropNotice?
      cases w.procs.get? pid with
      | none => rfl
      | some p => by_cases hb : p.status = .blocked <;> simp [hb, put, note, Option.filter]
    rw [hcons, ih distinct, hrest, hfirst, List.filterMap_cons]
    cases w.procs.dropNotice? pid <;> simp

/-! ## A bucket -/

/-- A node of the address is taken out, and if its process was blocked then one less is to be woken
behind it. -/
theorem wakeQueue_cons {address : UInt64} {x : Waiter} (hx : x.address = address) (most : Nat)
    (queue : List Waiter) (w : Population) :
    wakeQueue address (most + 1) (x :: queue) w =
      let rest := wakeQueue address (if w.procs.isBlocked x.pid then most else most + 1) queue
        (w.dequeue x.pid)
      (rest.1 + if w.procs.isBlocked x.pid then 1 else 0, rest.2) := by
  rw [wakeQueue, if_neg (not_not.2 hx)]
  unfold ProcessTable.isBlocked dequeue Process.dequeued
  cases w.procs.get? x.pid with
  | none => rfl
  | some p => by_cases hb : p.status = .blocked <;> simp [hb]

/-- The walk over a bucket takes out the shortest beginning of the queue of an address that has
enough blocked processes, and the other nodes stay in their order. -/
theorem wakeQueue_eq (address : UInt64) (queue : List Waiter) : ∀ (most : Nat) (w : Population),
    (waitingOn address queue).Nodup →
    ∃ front, ShortestWith w.procs.isBlocked most (waitingOn address queue) front ∧
      wakeQueue address most queue w = (front.countP w.procs.isBlocked,
        queue.filter (fun x => ¬ (x.address = address ∧ x.pid ∈ front)), w.dequeueEach front) := by
  induction queue with
  | nil =>
    intro most w _
    refine ⟨[], .nil most, ?_⟩
    cases most <;> rfl
  | cons x queue ih =>
    intro most w distinct
    cases most with
    | zero => exact ⟨[], .zero _, by simp [wakeQueue, dequeueEach]⟩
    | succ most =>
      by_cases hx : x.address = address
      case neg =>
        rw [waitingOn_cons, if_neg hx] at distinct ⊢
        obtain ⟨front, hfront, heq⟩ := ih (most + 1) w distinct
        exact ⟨front, hfront, by simp [wakeQueue, heq, hx]⟩
      rw [waitingOn_cons, if_pos hx] at distinct ⊢
      obtain ⟨hnew, distinct⟩ := List.nodup_cons.1 distinct
      -- the nodes behind find the same records, since none has the id of this one
      have hsame : ∀ pid ∈ waitingOn address queue,
          (w.dequeue x.pid).procs.isBlocked pid = w.procs.isBlocked pid :=
        fun pid hpid => isBlocked_dequeue_of_ne fun e => hnew (e ▸ hpid)
      obtain ⟨front, hfront, heq⟩ :=
        ih (if w.procs.isBlocked x.pid then most else most + 1) (w.dequeue x.pid) distinct
      have hsub : front ⊆ waitingOn address queue := hfront.begins.subset
      have hfront := hfront.congr hsame
      have hcount : front.countP (w.dequeue x.pid).procs.isBlocked =
          front.countP w.procs.isBlocked :=
        List.countP_congr fun pid hpid => by rw [hsame pid (hsub hpid)]
      have hfilter : ∀ y ∈ queue, y.address = address ∧ y.pid ∈ x.pid :: front ↔
          y.address = address ∧ y.pid ∈ front := by
        refine fun y hy => and_congr_right fun ha => ?_
        rw [List.mem_cons]
        refine or_iff_right fun e => hnew (e ▸ mem_waitingOn.2 ?_)
        rwa [← ha]
      refine ⟨x.pid :: front, ?_, ?_⟩
      · have hcons := hfront.cons (x := x.pid) fun hb => by simp [hb]
        convert hcons using 1
        split <;> rfl
      · rw [wakeQueue_cons hx, heq, hcount, List.countP_cons]
        refine Prod.ext rfl (Prod.ext ?_ rfl)
        rw [List.filter_cons_of_neg (by simp [hx])]
        exact List.filter_congr fun y hy => decide_eq_decide.2 (not_congr (hfilter y hy).symm)

/-- The walk over a bucket that keeps the latest node in front, by position: from the end down, as
long as fewer than `most` processes were woken. A node that is taken out leaves the positions in
front of it as they are. -/
def wakeDown (address : UInt64) (most : Nat) :
    (position woken : Nat) → List Waiter → Population → Nat × List Waiter × Population
  | 0, woken, nodes, w => (woken, nodes, w)
  | position + 1, woken, nodes, w =>
    if most ≤ woken then (woken, nodes, w)
    else match nodes[position]? with
      | none => wakeDown address most position woken nodes w
      | some x =>
        if x.address ≠ address then wakeDown address most position woken nodes w
        else wakeDown address most position
          (woken + if w.procs.isBlocked x.pid then 1 else 0) (nodes.eraseIdx position)
          (w.dequeue x.pid)

/-- Walking down by position does the same as walking from the longest waiting on: `kept` are the
nodes that the walk left behind it. -/
theorem wakeDown_eq (address : UInt64) (most : Nat) (queue : List Waiter) :
    ∀ (woken : Nat) (kept : List Waiter) (w : Population),
      wakeDown address most queue.length woken (queue.reverse ++ kept) w =
        let rest := wakeQueue address (most - woken) queue w
        (woken + rest.1, rest.2.1.reverse ++ kept, rest.2.2) := by
  induction queue with
  | nil =>
    intro woken kept w
    have hnil : wakeQueue address (most - woken) [] w = (0, [], w) := by
      cases most - woken <;> rfl
    rw [hnil]
    rfl
  | cons x queue ih =>
    intro woken kept w
    rw [List.length_cons, wakeDown]
    split
    · next hdone =>
      rw [Nat.sub_eq_zero_of_le hdone]
      rfl
    next hmore =>
    have hnodes : (x :: queue).reverse ++ kept = queue.reverse ++ x :: kept := by simp
    have hx : (queue.reverse ++ x :: kept)[queue.length]? = some x := by simp
    have herase : (queue.reverse ++ x :: kept).eraseIdx queue.length = queue.reverse ++ kept := by
      simp [List.eraseIdx_append_of_length_le]
    obtain ⟨rest, hrest⟩ : ∃ rest, most - woken = rest + 1 := ⟨most - woken - 1, by omega⟩
    rw [hnodes, hx, hrest]
    dsimp only
    split
    · next hother =>
      rw [ih, wakeQueue, if_pos hother, hrest]
      simp
    · next haddress =>
      rw [herase, ih, wakeQueue_cons (not_not.1 haddress)]
      have hleft : most - (woken + if w.procs.isBlocked x.pid then 1 else 0) =
          if w.procs.isBlocked x.pid then rest else rest + 1 := by
        split <;> omega
      rw [hleft]
      dsimp only
      congr 1
      omega

/-! ## The whole operation -/

/-- What a wake-up of an address did to a population and a futex table, with the ids `front` taken
out of the queue of the address. -/
structure Woken (w : Population) (t : FutexTable) (address : UInt64) (most : Nat)
    (front : List Pid) (count : Nat) (t' : FutexTable) (w' : Population) : Prop where
  /-- The ids are the shortest beginning of the queue with enough blocked processes, or all of it.
  -/
  shortest : ShortestWith w.procs.isBlocked most (t.queue address) front
  /-- The processes among them that were blocked are counted. -/
  counted : count = front.countP w.procs.isBlocked
  /-- What is behind them in the queue is left. -/
  queue : t.queue address = front ++ t'.queue address
  /-- The other nodes in the bucket, those of other addresses among them, are left in their order.
  -/
  bucket : t'.bucket address =
    (t.bucket address).filter fun x => ¬ (x.address = address ∧ x.pid ∈ front)
  /-- The other buckets are the same. -/
  buckets : ∀ c, bucketOf c ≠ bucketOf address → t'.bucket c = t.bucket c
  /-- A process that was taken out waits on no futex, and is runnable if it was blocked; otherwise
  no record changes. -/
  records : ∀ i, w'.procs.at? i = (w.procs.at? i).map fun p =>
    if p.pid.slot = i ∧ p.pid ∈ front then p.dequeued else p
  /-- The generations of the slots and the memory are the same. -/
  rest : (∀ i, (w'.procs.slot i).generation = (w.procs.slot i).generation) ∧ w'.memory = w.memory
  /-- The processes that were dropped are reported, and then the number of those that were woken, if
  there are any. -/
  journal : w'.journal = (if 0 < count then [.futexWoke count address] else []) ++
    (front.filterMap w.procs.dropNotice?).reverse ++ w.journal

/-- What is left of a queue without duplicates when a beginning of it goes. -/
theorem waitingOn_filter_front {address : UInt64} {l : List Waiter} {front : List Pid}
    (distinct : (waitingOn address l).Nodup) (h : front <+: waitingOn address l) :
    waitingOn address l = front ++
      waitingOn address (l.filter fun x => ¬ (x.address = address ∧ x.pid ∈ front)) := by
  have hfilter : waitingOn address (l.filter fun x => ¬ (x.address = address ∧ x.pid ∈ front)) =
      (waitingOn address l).filter fun pid => pid ∉ front := by
    unfold waitingOn
    rw [List.filter_map, List.filter_filter, List.filter_filter]
    refine congrArg _ (List.filter_congr fun x _ => ?_)
    by_cases hx : x.address = address <;> simp [hx]
  obtain ⟨rest, hrest⟩ := h
  rw [← hrest] at distinct
  have hdisjoint : ∀ pid ∈ rest, pid ∉ front := fun pid hpid hfront =>
    List.disjoint_of_nodup_append distinct hfront hpid
  have hleft : rest.filter (fun pid => pid ∉ front) = rest :=
    List.filter_eq_self.2 fun pid hpid => by simpa using hdisjoint pid hpid
  rw [hfilter, ← hrest, List.filter_append, hleft]
  simp

/-- Waking an address walks down its bucket by position and reports how many were woken. -/
theorem wakeDown_bucket (w : Population) (t : FutexTable) (address : UInt64) (most : Nat) :
    wakeDown address most (t.bucket address).length 0 (t.bucket address).reverse w =
      ((wakeQueue address most (t.bucket address) w).1,
        (wakeQueue address most (t.bucket address) w).2.1.reverse,
        (wakeQueue address most (t.bucket address) w).2.2) := by
  simpa using wakeDown_eq address most (t.bucket address) 0 [] w

/-- Whatever a process table and a futex table hold, as long as no two nodes of an address have the
same id, waking the address takes out the shortest beginning of its queue with enough blocked
processes and makes them runnable; waking none changes nothing. It is a walk down the bucket by
position. -/
theorem wakes_shortest_front (w : Population) (t : FutexTable) (address : UInt64) (most : Nat)
    (distinct : (t.queue address).Nodup) :
    (∃ front count t' w' w₁, w.futexWake t address most = (count, t', w') ∧
      w.Woken t address most front count t' w' ∧
      wakeDown address most (t.bucket address).length 0 (t.bucket address).reverse w =
        (count, (t'.bucket address).reverse, w₁) ∧
      w' = if 0 < count then w₁.note (.futexWoke count address) else w₁) ∧
    w.futexWake t address 0 = (0, t, w) := by
  obtain ⟨front, hfront, heq⟩ := wakeQueue_eq address (t.bucket address) most w distinct
  generalize hcount : front.countP w.procs.isBlocked = count at heq
  have hbucket : ∀ q, (t.setBucket address q).bucket address = q := fun q => by
    rw [FutexTable.bucket_setBucket, if_pos rfl]
  have hjournal := journal_dequeueEach (w := w) (distinct.sublist hfront.begins.sublist)
  have hwake : w.futexWake t address most = (count, t.setBucket address
      ((t.bucket address).filter fun x => ¬ (x.address = address ∧ x.pid ∈ front)),
      if 0 < count then (w.dequeueEach front).note (.futexWoke count address)
      else w.dequeueEach front) := by
    rw [futexWake, heq]
  refine ⟨⟨front, count, _, _, _, hwake, ?_, ?_, rfl⟩, ?_⟩
  · -- the report of the wake-up changes the journal only
    have hreport : ∀ w₁ : Population,
        (if 0 < count then w₁.note (.futexWoke count address) else w₁) =
          { w₁ with journal := (if 0 < count then [.futexWoke count address] else []) ++
            w₁.journal } := by
      intro w₁
      split <;> rfl
    rw [hreport]
    constructor
    case shortest => exact hfront
    case counted => exact hcount.symm
    case queue =>
      rw [FutexTable.queue_setBucket, if_pos rfl]
      exact waitingOn_filter_front distinct hfront.begins
    case bucket => exact hbucket _
    case buckets =>
      intro c hc
      rw [FutexTable.bucket_setBucket, if_neg (Ne.symm hc)]
    case records => exact fun i => at?_dequeueEach
    case rest => exact ⟨fun i => generation_dequeueEach, memory_dequeueEach⟩
    case journal =>
      dsimp only
      rw [hjournal, List.append_assoc]
  · rw [wakeDown_bucket, heq, hbucket]
  · simp [futexWake, wakeQueue, FutexTable.setBucket_bucket]

/-- Three processes, the first of which is dying and the others blocked. -/
def dyingFirst : Population :=
  let process (slot : Nat) (status : Status) : Process :=
    { pid := .ofSlot 1 slot, space := 0, frame := default, status, futex := some 0x1000 }
  { procs := (({} : ProcessTable).put (process 0 .dying) |>.put (process 1 .blocked)).put
      (process 2 .blocked) }

/-- A bucket in which they wait on one address, behind the first of them a node of another address
and one of a process that is not there. -/
def staleBucket : FutexTable :=
  ({} : FutexTable).setBucket 0x1000 [⟨.ofSlot 1 0, 0x1000⟩, ⟨.ofSlot 1 3, 0x1004⟩,
    ⟨.ofSlot 1 4, 0x1000⟩, ⟨.ofSlot 1 1, 0x1000⟩, ⟨.ofSlot 1 2, 0x1000⟩]

/-- Waking one process drops the nodes of the dying process and of the one that is not there. -/
theorem wakes_shortest_front_of_dyingFirst : ∃ t' w',
    dyingFirst.futexWake staleBucket 0x1000 1 = (1, t', w') ∧
      t'.bucket 0x1000 = [⟨.ofSlot 1 3, 0x1004⟩, ⟨.ofSlot 1 2, 0x1000⟩] ∧
      dyingFirst.Woken staleBucket 0x1000 1 [.ofSlot 1 0, .ofSlot 1 4, .ofSlot 1 1] 1 t' w' := by
  have hqueue : staleBucket.queue 0x1000 =
      [.ofSlot 1 0, .ofSlot 1 4, .ofSlot 1 1] ++ [.ofSlot 1 2] := by
    decide +kernel
  have distinct : (staleBucket.queue 0x1000).Nodup := by
    rw [hqueue]
    decide
  obtain ⟨⟨front, count, t', w', -, hwake, woken, -⟩, -⟩ :=
    wakes_shortest_front dyingFirst staleBucket 0x1000 1 distinct
  have hplay : (dyingFirst.futexWake staleBucket 0x1000 1).1 = 1 ∧
      (dyingFirst.futexWake staleBucket 0x1000 1).2.1.bucket 0x1000 =
        [⟨.ofSlot 1 3, 0x1004⟩, ⟨.ofSlot 1 2, 0x1000⟩] := by
    decide +kernel
  rw [hwake] at hplay
  obtain ⟨rfl, hbucket⟩ := hplay
  have hleft : t'.queue 0x1000 = [.ofSlot 1 2] := by
    rw [FutexTable.queue, hbucket]
    decide
  have hfront := woken.queue
  rw [hqueue, hleft] at hfront
  obtain rfl := List.append_cancel_right hfront
  exact ⟨t', w', hwake, hbucket, woken⟩

end

end Population

end SyncKernel
