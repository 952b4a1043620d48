import Mathlib
import SyncKernel.Syscall

/-!
# Operations that come to an end

An operation of the kernel either answers and leaves a kernel, or it stops with a fault. `Step.Ends`
says of an operation run from a kernel that it does not stop, together with what holds of its answer
and of the kernel it leaves. The lemmas give, for each way in which operations are built, what has
to hold for the parts: `ends_bind` for one operation after another, `ends_ofPopulation`,
`ends_ofLive` and `ends_note` for the operations every call is made of.
-/

namespace SyncKernel

/-- The kernel with an event reported. -/
def Kernel.noted (k : Kernel) (n : Notice) : Kernel :=
  { k with toPopulation := k.toPopulation.note n }

namespace Step

variable {α β : Type} {k : Kernel}

/-- Run from `k`, the operation does not stop with a fault, and its answer and the kernel it leaves
satisfy `Q`. -/
def Ends (x : Step α) (k : Kernel) (Q : α → Kernel → Prop) : Prop :=
  ∃ a k', x k = .ok a k' ∧ Q a k'

/-- What an operation ends with may be weakened. -/
theorem Ends.mono {x : Step α} {Q R : α → Kernel → Prop} (h : Ends x k Q)
    (hQR : ∀ a k', Q a k' → R a k') : Ends x k R := by
  obtain ⟨a, k', hx, hQ⟩ := h
  exact ⟨a, k', hx, hQR a k' hQ⟩

/-- An operation has only one end. -/
theorem Ends.of_eq {x : Step α} {Q : α → Kernel → Prop} (h : Ends x k Q) {a : α} {k' : Kernel}
    (hx : x k = .ok a k') : Q a k' := by
  obtain ⟨b, k₁, hy, hQ⟩ := h
  rw [hx] at hy
  injection hy with hb hk
  exact hb ▸ hk ▸ hQ

@[simp] theorem ends_pure {a : α} {Q : α → Kernel → Prop} :
    Ends (pure a) k Q ↔ Q a k := by
  constructor
  · exact fun h => h.of_eq rfl
  · exact fun h => ⟨a, k, rfl, h⟩

/-- Two operations in sequence end if the first does and the second does after it. -/
@[simp] theorem ends_bind {x : Step α} {f : α → Step β} {Q : β → Kernel → Prop} :
    Ends (x >>= f) k Q ↔ Ends x k fun a k' => Ends (f a) k' Q := by
  constructor
  · rintro ⟨b, k', h, hQ⟩
    cases hx : x k with
    | ok a k₁ =>
      refine ⟨a, k₁, hx, b, k', ?_, hQ⟩
      simpa [bind, EStateM.bind, hx] using h
    | error e k₁ => simp [bind, EStateM.bind, hx] at h
  · rintro ⟨a, k₁, hx, b, k', h, hQ⟩
    exact ⟨b, k', by simpa [bind, EStateM.bind, hx] using h, hQ⟩

@[simp] theorem ends_map {x : Step α} {f : α → β} {Q : β → Kernel → Prop} :
    Ends (f <$> x) k Q ↔ Ends x k fun a k' => Q (f a) k' := by
  rw [← bind_pure_comp, ends_bind]
  simp

@[simp] theorem ends_discard {x : Step α} {Q : PUnit → Kernel → Prop} :
    Ends (discard x) k Q ↔ Ends x k fun _ k' => Q ⟨⟩ k' :=
  ends_map (f := fun _ => PUnit.unit)

@[simp] theorem ends_get {Q : Kernel → Kernel → Prop} : Ends get k Q ↔ Q k k :=
  ⟨fun h => h.of_eq rfl, fun h => ⟨k, k, rfl, h⟩⟩

@[simp] theorem ends_set {k₁ : Kernel} {Q : PUnit → Kernel → Prop} :
    Ends (set k₁) k Q ↔ Q ⟨⟩ k₁ :=
  ⟨fun h => h.of_eq rfl, fun h => ⟨⟨⟩, k₁, rfl, h⟩⟩

@[simp] theorem ends_modify {f : Kernel → Kernel} {Q : PUnit → Kernel → Prop} :
    Ends (modify f) k Q ↔ Q ⟨⟩ (f k) :=
  ⟨fun h => h.of_eq rfl, fun h => ⟨⟨⟩, f k, rfl, h⟩⟩

/-- A notice ends in the journal. -/
@[simp] theorem ends_note {n : Notice} {Q : Unit → Kernel → Prop} :
    Ends (note n) k Q ↔ Q () (k.noted n) :=
  ends_modify

/-- An operation on the processes ends if its function does not stop; it leaves the processors, the
futex queues and the clock as they are. -/
@[simp] theorem ends_ofPopulation {f : Population → Except Fault (α × Population)}
    {Q : α → Kernel → Prop} :
    Ends (ofPopulation f) k Q ↔
      ∃ a w, f k.toPopulation = .ok (a, w) ∧ Q a { k with toPopulation := w } := by
  unfold ofPopulation
  rw [ends_bind, ends_get]
  cases hf : f k.toPopulation with
  | error fault =>
    constructor
    · rintro ⟨a, k', h, -⟩
      cases h
    · rintro ⟨a, w, h, -⟩
      cases h
  | ok aw =>
    obtain ⟨a, w⟩ := aw
    simp only [ends_bind, ends_set, ends_pure]
    constructor
    · exact fun h => ⟨a, w, rfl, h⟩
    · rintro ⟨_, _, h, hQ⟩
      cases h
      exact hQ

/-- An operation on a live process ends with the refusal of an id that has none, and otherwise with
what its function makes of the record and the memory. -/
theorem ends_ofLive {pid : Pid}
    {f : Process → Memory → Except Fault (Except Errno α × Process × Memory)}
    {Q : Except Errno α → Kernel → Prop} :
    Ends (ofLive pid f) k Q ↔
      (∃ e, k.procs.lookup pid = .error e ∧ Q (.error e) k) ∨
      ∃ p a p' m, k.procs.lookup pid = .ok p ∧ f p k.memory = .ok (a, p', m) ∧
        Q a { k with procs := k.procs.put p', memory := m } := by
  rw [ofLive, ends_ofPopulation]
  cases hl : k.procs.lookup pid with
  | error e =>
    constructor
    · rintro ⟨_, _, h, hQ⟩
      cases h
      exact .inl ⟨e, rfl, hQ⟩
    · rintro (⟨_, h, hQ⟩ | ⟨_, _, _, _, h, -⟩)
      · cases h
        exact ⟨_, _, rfl, hQ⟩
      · cases h
  | ok p =>
    constructor
    · rintro ⟨a, w, h, hQ⟩
      cases hf : f p k.memory with
      | error fault => simp [bind, Except.bind, hf] at h
      | ok r =>
        obtain ⟨b, p', m⟩ := r
        simp only [hf, bind, Except.bind, pure, Except.pure] at h
        cases h
        exact .inr ⟨p, _, p', m, rfl, hf, hQ⟩
    · rintro (⟨_, h, -⟩ | ⟨_, a, p', m, h, hf, hQ⟩)
      · cases h
      · cases h
        exact ⟨a, _, by simp only [hf, bind, Except.bind, pure, Except.pure], hQ⟩

end Step

end SyncKernel
