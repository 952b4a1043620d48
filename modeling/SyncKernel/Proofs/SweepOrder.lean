import SyncKernel.Proofs.Aside
import SyncKernel.Proofs.Reachable
import SyncKernel.Proofs.SweepOutcome

/-!
# The order of the two sweeps

Overdue receives are ended by the periodic sweep and by the scheduler, whichever sees the deadline
first. On a board in order a call is over in one way only (`Process.Overdue.unique`), and calls of
different processes end independently (`Board.Lapse.diamond`). So wherever ending calls stops for
want of an overdue one, the board is the same (`Board.Lapses.unique`), and the two sweeps leave the
same processes in either order. That they report the same number is seen from the blocked processes,
of which each call that is ended takes away one. In other tables this is wrong: a sender in a low
slot may get rid of its message to a receiver that the scheduler would have ended.
-/

namespace SyncKernel

open Board

/-- On a board in order, a call on messages is over in one way only. -/
theorem Process.Overdue.unique {t : ProcessTable} {now : Millis} {p p' q : Process}
    (h : p.Settled) (hp : p.Overdue t now p') (hq : p.Overdue t now q) : p' = q := by
  have alone : ∀ {target}, p.SendsTo target → ¬ p.Receives := fun hs => h.not_receives hs.sends
  cases hp with
  | expired hr _ =>
    cases hq with
    | expired _ _ => rfl
    | forsaken hs _ | gaveUp hs _ _ => exact absurd hr (alone hs)
  | forsaken hs gone =>
    cases hq with
    | expired hr _ => exact absurd hr (alone hs)
    | forsaken _ _ => rfl
    | gaveUp hs' live _ =>
      cases hs.2.2.symm.trans hs'.2.2
      exact absurd live gone
  | gaveUp hs live _ =>
    cases hq with
    | expired hr _ => exact absurd hr (alone hs)
    | forsaken hs' gone =>
      cases hs.2.2.symm.trans hs'.2.2
      exact absurd live gone
    | gaveUp _ _ _ => rfl

/-- A process about whose calls nothing has to be done is in none that is over. -/
theorem Process.Current.not_overdue {t : ProcessTable} {now : Millis} {p p' : Process}
    (hc : p.Current t now) (h : p.Settled) : ¬ p.Overdue t now p' := fun ho => by
  cases ho with
  | expired hr late => exact absurd (hc.1 hr) (by simp [late])
  | forsaken hs gone =>
    obtain ⟨-, target, r, ht, hr, -⟩ := hc.2 hs.sends (h.not_receives hs.sends)
    cases hs.2.2.symm.trans ht
    exact gone ⟨r, hr⟩
  | gaveUp hs _ late =>
    exact absurd (hc.2 hs.sends (h.not_receives hs.sends)).1 (by simp [late])

namespace Board

variable {b b₁ b₂ : Board} {now : Millis}

/-- Two calls that are over may be ended in either order. -/
theorem Lapse.diamond (h : b.Sound) (m₁ : Lapse now b b₁) (m₂ : Lapse now b b₂) :
    b₁ = b₂ ∨ ∃ d, Lapse now b₁ d ∧ Lapse now b₂ d := by
  have live : ∀ pid, b.procs.Live pid ↔ b₁.procs.Live pid := fun _ => m₁.live_iff.symm
  have live' : ∀ pid, b.procs.Live pid ↔ b₂.procs.Live pid := fun _ => m₂.live_iff.symm
  cases m₁ with
  | @ended p p' hp ho =>
  cases m₂ with
  | @ended q q' hq ho' =>
  by_cases hs : p.pid.slot = q.pid.slot
  · have hpq : p = q := Option.some.inj (hp.symm.trans (hs ▸ hq))
    subst hpq
    exact .inl (by rw [ho.unique (h.settled hp) ho'])
  · have hs₁ : p'.pid.slot ≠ q.pid.slot := ho.pid ▸ hs
    have hs₂ : q'.pid.slot ≠ p.pid.slot := ho'.pid ▸ Ne.symm hs
    have hcomm : (b.put p').put q' = (b.put q').put p' := by
      simp only [Board.put]
      rw [ProcessTable.put_comm]
      rwa [ho'.pid]
    have hq₁ : (b.put p').procs.at? q.pid.slot = some q :=
      (ProcessTable.at?_put_of_ne hs₁).trans hq
    have hp₂ : (b.put q').procs.at? p.pid.slot = some p :=
      (ProcessTable.at?_put_of_ne hs₂).trans hp
    exact .inr ⟨_, .ended hq₁ (ho'.of_live live), hcomm ▸ .ended hp₂ (ho.of_live live')⟩

/-- However calls are ended, if none is left that is over the board is the same. -/
theorem Lapses.unique (h : b.Sound) (ms₁ : Lapses now b b₁) (ms₂ : Lapses now b b₂)
    (done₁ : ∀ b', ¬ Lapse now b₁ b') (done₂ : ∀ b', ¬ Lapse now b₂ b') : b₁ = b₂ := by
  have sound : ∀ {b'}, Lapses now b b' →
      Relation.ReflTransGen (fun x y => x.Sound ∧ Lapse now x y) b b' := by
    intro b' ms
    induction ms with
    | refl => exact .refl
    | tail ms m ih => exact ih.tail ⟨(Lapses.moves ms).sound h, m⟩
  have hjoin := Relation.church_rosser (r := fun x y => x.Sound ∧ Lapse now x y)
    (fun x y z ⟨hx, hy⟩ ⟨_, hz⟩ => ?_) (sound ms₁) (sound ms₂)
  · obtain ⟨d, h₁, h₂⟩ := hjoin
    have final : ∀ {x y}, (∀ b', ¬ Lapse now x b') →
        Relation.ReflTransGen (fun x y => x.Sound ∧ Lapse now x y) x y → y = x := by
      intro x y done hxy
      induction hxy with
      | refl => rfl
      | tail _ m ih => exact absurd (ih ▸ m.2) (done _)
    rw [← final done₁ h₁, final done₂ h₂]
  · obtain rfl | ⟨d, hyd, hzd⟩ := hy.diamond hx hz
    · exact ⟨y, .refl, .refl⟩
    · exact ⟨d, .single ⟨hy.sound hx, hyd⟩, .single ⟨hz.sound hx, hzd⟩⟩

end Board

/-- The slots of the blocked processes. -/
def ProcessTable.blocked (t : ProcessTable) : Set (Fin slotCount) :=
  {i | ∃ p, t.at? i = some p ∧ p.status = .blocked}

/-- A record of a blocked process was replaced by one that is not blocked. -/
theorem ProcessTable.ncard_blocked_put {t : ProcessTable} {p p' : Process}
    (hp : t.at? p.pid.slot = some p) (hpid : p'.pid = p.pid) (hb : p.status = .blocked)
    (hb' : p'.status ≠ .blocked) : 1 + (t.put p').blocked.ncard = t.blocked.ncard := by
  have hset : (t.put p').blocked = t.blocked \ {p.pid.slot} := by
    ext i
    simp only [blocked, Set.mem_ofPred_eq, Set.mem_sdiff, Set.mem_singleton_iff, at?_put, hpid]
    by_cases hi : p.pid.slot = i
    · simp [hi, hb']
    · simp [hi, Ne.symm hi]
  rw [hset, Nat.add_comm]
  exact Set.ncard_sdiff_singleton_add_one ⟨p, hp, hb⟩ (Set.toFinite _)

namespace Population

variable {w w' : Population} {n : Nat} {now : Millis}

/-- On a table in order no message passes in a sweep. -/
theorem not_meets (h : w.procs.Sound) (s r : Process) : ¬ w.procs.Meets now s r :=
  fun hm => h.met _ _ s r hm.sender hm.receiver hm.sends hm.waits

/-- A sweep of a table in order reports how many processes are blocked no more. -/
theorem SweepOutcome.blocked (h : w.SweepOutcome now n w') (sound : w.procs.Sound) :
    n + w'.procs.blocked.ncard = w.procs.blocked.ncard := by
  have hsub : w.procs.endings now ⊆ w.procs.blocked := fun i ⟨p, _, hp, he⟩ => ⟨p, hp, he.blocked⟩
  have hset : w'.procs.blocked = w.procs.blocked \ w.procs.endings now := by
    ext i
    constructor
    · rintro ⟨p', hp', hb⟩
      obtain ⟨p, hp, hr⟩ := h.swept.exists_before hp'
      cases hr with
      | handed hm _ _ => exact absurd hm (not_meets sound _ _)
      | ended he =>
        rw [he.runnable] at hb
        cases hb
      | left unended _ =>
        refine ⟨⟨p', hp, hb⟩, fun ⟨q, q', hq, he⟩ => ?_⟩
        cases hp.symm.trans hq
        exact unended q' he
    · rintro ⟨⟨p, hp, hb⟩, hleft⟩
      obtain ⟨p', hp', hr⟩ := h.swept.exists_after hp
      cases hr with
      | handed hm _ _ => exact absurd hm (not_meets sound _ _)
      | ended he => exact absurd ⟨p, p', hp, he⟩ hleft
      | left _ _ => exact ⟨p, hp', hb⟩
  rw [h.count, hset, Nat.add_comm]
  exact Set.ncard_sdiff_add_ncard_of_subset hsub (Set.toFinite _)

/-- Ending overdue receives reports how many processes are blocked no more. -/
theorem expireSlots_blocked (slots : List (Fin slotCount)) : ∀ {w : Population} {n : Nat},
    w.procs.Placed → expireSlots now slots w = .ok (n, w') →
      n + w'.procs.blocked.ncard = w.procs.blocked.ncard := by
  induction slots with
  | nil =>
    intro w n _ h
    cases h
    exact Nat.zero_add _
  | cons i rest ih =>
    intro w n placed h
    obtain ⟨n', w₁, hrest, ⟨rfl, -, rfl⟩ | ⟨p, hp, -, -, he, rfl⟩⟩ := expireSlots_ok h
    · exact ih placed hrest
    · have hat := placed.at?_slot hp
      obtain ⟨hb, hprocs, -⟩ := expireReceive_ok he
      have hcount : 1 + (w.procs.put p.expired).blocked.ncard = w.procs.blocked.ncard :=
        ProcessTable.ncard_blocked_put hat rfl hb nofun
      have hcount' := ih ((expireReceive_each hat he).placed (fun h => h.pid) placed) hrest
      rw [← hprocs] at hcount
      omega

/-- Where nothing has to be done, no receive is ended. -/
theorem expireSlots_of_current (hc : ∀ i p, w.procs.at? i = some p → p.Current w.procs now)
    (slots : List (Fin slotCount)) : expireSlots now slots w = .ok (0, w) := by
  induction slots with
  | nil => rfl
  | cons i rest ih =>
    rw [expireSlots]
    cases hp : w.procs.at? i with
    | none => simp only [bind, Except.bind, pure, Except.pure, ih]
    | some p =>
      have hleft : ¬ (p.status = .blocked ∧ p.receive.receiving ∧
          deadlineElapsed p.receive.deadline now) := by
        rintro ⟨hb, hr, late⟩
        simp [(hc i p hp).1 ⟨hb, hr⟩] at late
      simp only [if_neg hleft, bind, Except.bind, pure, Except.pure, ih]

/-- A sweep of a board in order ends calls until none is over, and leaves the memory. -/
theorem sweep_lapses {b : Board} (h : b.Sound) (hw : b.procs = w.procs) (now : Millis) :
    ∃ n w', w.sweep now = .ok (n, w') ∧ Lapses now b { b with procs := w'.procs } ∧
      (∀ b', ¬ Lapse now { b with procs := w'.procs } b') ∧
      n + w'.procs.blocked.ncard = w.procs.blocked.ncard ∧ w'.memory = w.memory ∧
      ∀ i p, w'.procs.at? i = some p → p.Current w'.procs now := by
  have sound : w.procs.Sound := hw ▸ h.table
  obtain ⟨n, w', hs, ho⟩ := exists_sweepOutcome sound.placed sound.bounded now
  obtain ⟨n₁, w₁, hs₁, hl⟩ := sweepSlots_lapses now (List.finRange slotCount) h hw
  cases hs.symm.trans hs₁
  refine ⟨n, w', hs, hl, fun b' hlapse => ?_, ho.blocked sound,
    ho.memory (not_meets sound), ho.current⟩
  cases hlapse with
  | ended hp hover =>
    exact (ho.current _ _ hp).not_overdue ((hl.moves.sound h).table.settled _ _ hp) hover

end Population

/-- In every kernel that a run leads to, it does not matter whether the scheduler or the timer sees
a deadline first: ending the overdue receives and then sweeping, sweeping and then ending the
overdue receives, and sweeping alone leave the same processes and the same memory, and report the
same number of calls that were ended. -/
theorem Run.sweeps_commute {clock : Clock} {ms : List Moment} {k : Kernel}
    (run : Run (.boot clock) ms k) (now : Millis) :
    ∃ n₁ w₁ n₂ w₂ n w n₃ w₃,
      k.toPopulation.expireReceives now = .ok (n₁, w₁) ∧ w₁.sweep now = .ok (n₂, w₂) ∧
      k.toPopulation.sweep now = .ok (n, w) ∧ w.expireReceives now = .ok (n₃, w₃) ∧
      (w₂.procs = w.procs ∧ w₃.procs = w.procs) ∧
      (w₂.memory = w.memory ∧ w₃.memory = w.memory) ∧
      n₁ + n₂ = n ∧ n + n₃ = n := by
  have h : k.board.Sound := run.sound
  obtain ⟨n, w, hs, hl, done, hcount, hmem, hcur⟩ :=
    Population.sweep_lapses (w := k.toPopulation) h rfl now
  obtain ⟨n₁, w₁, he, hl₁⟩ :=
    Population.expireSlots_lapses now (List.finRange slotCount) (w := k.toPopulation) h rfl
  have h₁ : Board.Sound { k.board with procs := w₁.procs } := hl₁.moves.sound h
  have hcount₁ := Population.expireSlots_blocked _ h.table.placed he
  have hmem₁ : w₁.memory = k.memory := Population.expireSlots_memory _ he
  obtain ⟨n₂, w₂, hs₂, hl₂, done₂, hcount₂, hmem₂, -⟩ :=
    Population.sweep_lapses (w := w₁) h₁ rfl now
  have hboard := Lapses.unique h (hl₁.trans hl₂) hl done₂ done
  have hprocs : w₂.procs = w.procs := congrArg Board.procs hboard
  refine ⟨n₁, w₁, n₂, w₂, n, w, 0, w, he, hs₂, hs, Population.expireSlots_of_current hcur _,
    ⟨hprocs, rfl⟩, ⟨(hmem₂.trans hmem₁).trans hmem.symm, rfl⟩, ?_, rfl⟩
  rw [hprocs] at hcount₂
  have hk : k.board.procs = k.procs := rfl
  omega

/-- A process waits 5 milliseconds for a message and another one as long to send one to itself, and
both deadlines pass. -/
def Run.bothLate : List Event :=
  [.spawn 0 (((TrapFrame.newUser 0x1000 0x2000).set .a7 1103).set .a2 5), .schedule 0,
    .syscall (.ofSlot 1 0),
    .spawn 1 ((((TrapFrame.newUser 0x1000 0x2000).set .a7 1102).set .a0 257).set .a5 5),
    .schedule 0, .syscall (.ofSlot 1 1), .advance 6]

/-- The scheduler ends one of the two calls and the timer the other, or the timer ends both. -/
theorem Run.sweeps_commute_of_bothLate :
    ∃ ms k n₁ w₁ n₂ w₂ w, play (.boot default) bothLate = some (ms, k) ∧
      k.toPopulation.expireReceives 6 = .ok (n₁, w₁) ∧ w₁.sweep 6 = .ok (n₂, w₂) ∧
      k.toPopulation.sweep 6 = .ok (2, w) ∧ n₁ + n₂ = 2 ∧ w₂.procs = w.procs := by
  have hplay : (play (.boot default) bothLate).any (fun r =>
      (r.2.toPopulation.sweep 6).toOption.map (·.1) = some 2) = true := by
    decide +kernel
  obtain ⟨⟨ms, k⟩, h, hk⟩ := (Option.any_eq_true _ _).1 hplay
  obtain ⟨n₁, w₁, n₂, w₂, n, w, n₃, w₃, he, hs₂, hs, -, ⟨hprocs, -⟩, -, hn, -⟩ :=
    sweeps_commute (of_play h) 6
  have hn2 : n = 2 := by
    have hcount := of_decide_eq_true hk
    rw [hs] at hcount
    exact Option.some.inj hcount
  subst hn2
  exact ⟨ms, k, n₁, w₁, n₂, w₂, w, h, he, hs₂, hs, hn, hprocs⟩

end SyncKernel
