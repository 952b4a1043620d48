import SyncKernel.Proofs.Step

/-!
# What operations leave

An operation that anybody may ask for, for any process, may stop with a fault, and nothing is said
of the kernel then. `Step.Leaves` says what holds of the answer and the kernel whenever it does not
stop; it is the counterpart of `Step.Ends`, and the lemmas take it through the same ways of building
operations.
-/

namespace SyncKernel

/-- A computation in two parts answers if both do. -/
theorem Except.bind_eq_ok {ε α β : Type} {x : Except ε α} {f : α → Except ε β} {b : β} :
    (x >>= f) = .ok b ↔ ∃ a, x = .ok a ∧ f a = .ok b := by
  cases x with
  | error e => simp [bind, Except.bind]
  | ok a => simp [bind, Except.bind]

/-- A computation whose answer is mapped answers if it does. -/
theorem Except.map_eq_ok {ε α β : Type} {x : Except ε α} {f : α → β} {b : β} :
    x.map f = .ok b ↔ ∃ a, x = .ok a ∧ f a = b := by
  cases x <;> simp [Except.map]

namespace Step

variable {α β : Type} {k : Kernel}

/-- If the operation run from `k` does not stop, its answer and the kernel it leaves satisfy `Q`. -/
def Leaves (x : Step α) (k : Kernel) (Q : α → Kernel → Prop) : Prop :=
  ∀ a k', x k = .ok a k' → Q a k'

/-- What an operation leaves may be weakened. -/
theorem Leaves.mono {x : Step α} {Q R : α → Kernel → Prop} (h : Leaves x k Q)
    (hQR : ∀ a k', Q a k' → R a k') : Leaves x k R :=
  fun a k' hx => hQR a k' (h a k' hx)

/-- What an operation is sure to end with is what it leaves. -/
theorem Ends.leaves {x : Step α} {Q : α → Kernel → Prop} (h : Ends x k Q) : Leaves x k Q :=
  fun _ _ => h.of_eq

/-- What an operation is sure to end with holds together with what it leaves. -/
theorem Ends.and_leaves {x : Step α} {Q R : α → Kernel → Prop} (h : Ends x k Q)
    (h' : Leaves x k R) : Ends x k fun a k' => Q a k' ∧ R a k' := by
  obtain ⟨a, k', hx, hQ⟩ := h
  exact ⟨a, k', hx, hQ, h' a k' hx⟩

@[simp] theorem leaves_pure {a : α} {Q : α → Kernel → Prop} : Leaves (pure a) k Q ↔ Q a k :=
  ⟨fun h => h a k rfl, fun h => (ends_pure.2 h).leaves⟩

/-- An operation that stops leaves nothing. -/
@[simp] theorem leaves_throw {fault : Fault} {Q : α → Kernel → Prop} :
    Leaves (throw fault : Step α) k Q ↔ True :=
  iff_true_intro fun _ _ h => nomatch h

/-- Two operations in sequence leave what the second leaves after the first. -/
@[simp] theorem leaves_bind {x : Step α} {f : α → Step β} {Q : β → Kernel → Prop} :
    Leaves (x >>= f) k Q ↔ Leaves x k fun a k' => Leaves (f a) k' Q := by
  constructor
  · intro h a k₁ hx b k' hf
    exact h b k' (by simpa [bind, EStateM.bind, hx] using hf)
  · intro h b k' hb
    cases hx : x k with
    | ok a k₁ => exact h a k₁ hx b k' (by simpa [bind, EStateM.bind, hx] using hb)
    | error e k₁ => simp [bind, EStateM.bind, hx] at hb

@[simp] theorem leaves_map {x : Step α} {f : α → β} {Q : β → Kernel → Prop} :
    Leaves (f <$> x) k Q ↔ Leaves x k fun a k' => Q (f a) k' := by
  rw [← bind_pure_comp, leaves_bind]
  simp

@[simp] theorem leaves_discard {x : Step α} {Q : PUnit → Kernel → Prop} :
    Leaves (discard x) k Q ↔ Leaves x k fun _ k' => Q ⟨⟩ k' :=
  leaves_map (f := fun _ => PUnit.unit)

@[simp] theorem leaves_get {Q : Kernel → Kernel → Prop} : Leaves get k Q ↔ Q k k :=
  ⟨fun h => h k k rfl, fun h => (ends_get.2 h).leaves⟩

@[simp] theorem leaves_set {k₁ : Kernel} {Q : PUnit → Kernel → Prop} :
    Leaves (set k₁) k Q ↔ Q ⟨⟩ k₁ :=
  ⟨fun h => h ⟨⟩ k₁ rfl, fun h => (ends_set.2 h).leaves⟩

@[simp] theorem leaves_modify {f : Kernel → Kernel} {Q : PUnit → Kernel → Prop} :
    Leaves (modify f) k Q ↔ Q ⟨⟩ (f k) :=
  ⟨fun h => h ⟨⟩ (f k) rfl, fun h => (ends_modify.2 h).leaves⟩

/-- A notice is left in the journal. -/
@[simp] theorem leaves_note {n : Notice} {Q : Unit → Kernel → Prop} :
    Leaves (note n) k Q ↔ Q () (k.noted n) :=
  leaves_modify

/-- An operation on the processes leaves the processors, the futex queues, the clock and the time of
the last sweep. -/
@[simp] theorem leaves_ofPopulation {f : Population → Except Fault (α × Population)}
    {Q : α → Kernel → Prop} :
    Leaves (ofPopulation f) k Q ↔
      ∀ a w, f k.toPopulation = .ok (a, w) → Q a { k with toPopulation := w } := by
  unfold ofPopulation
  rw [leaves_bind, leaves_get]
  cases hf : f k.toPopulation with
  | error fault => simp
  | ok aw =>
    obtain ⟨a, w⟩ := aw
    simp only [leaves_bind, leaves_set, leaves_pure]
    exact ⟨fun h b w' hb => by cases hb; exact h, fun h => h a w rfl⟩

/-- An operation on a live process refuses an id that has none, and otherwise leaves what its
function makes of the record and the memory. -/
theorem leaves_ofLive {pid : Pid}
    {f : Process → Memory → Except Fault (Except Errno α × Process × Memory)}
    {Q : Except Errno α → Kernel → Prop} :
    Leaves (ofLive pid f) k Q ↔
      (∀ e, k.procs.lookup pid = .error e → Q (.error e) k) ∧
      ∀ p a p' m, k.procs.lookup pid = .ok p → f p k.memory = .ok (a, p', m) →
        Q a { k with procs := k.procs.put p', memory := m } := by
  rw [ofLive, leaves_ofPopulation]
  cases hl : k.procs.lookup pid with
  | error e =>
    constructor
    · intro h
      refine ⟨fun e' he => ?_, fun _ _ _ _ hq => ?_⟩
      · cases he
        exact h (.error e) k.toPopulation rfl
      · cases hq
    · intro h a w hw
      cases hw
      exact h.1 e rfl
  | ok p =>
    constructor
    · intro h
      refine ⟨fun e' he => ?_, fun q a p' m hq hf => ?_⟩
      · cases he
      · cases hq
        exact h a _ (Except.bind_eq_ok.2 ⟨_, hf, rfl⟩)
    · intro h a w hw
      obtain ⟨⟨_, p', m⟩, hf, hr⟩ := Except.bind_eq_ok.1 hw
      cases hr
      exact h.2 p _ p' m rfl hf

end Step

end SyncKernel
