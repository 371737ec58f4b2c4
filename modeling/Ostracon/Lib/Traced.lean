import Mathlib
/-!
# Computations that record every state they pass through

A `Traced σ α` runs on a state of type `σ` and records the state after each of
its atomic effects.  The states of that trace are the states a crash can
leave behind, or a concurrent reader can observe, while the computation runs.
A computation that panics stops without a result, after the effects it has
already recorded.

`Spec P x I Q` is a Hoare triple with an invariant of the trace: from a state
satisfying `P`, every state `x` records satisfies `I`, and its result
satisfies `Q`.  There is one rule per combinator; a proof about a computation
written in `do` notation follows its binds with `spec_bind`.
-/

/-- A computation on states `σ` with a result in `α`: the states after each of
its atomic effects, oldest first, and its result with the final state, which
is `none` where it panics. -/
abbrev Traced (σ α : Type) : Type := σ → List σ × Option (α × σ)

namespace Traced

variable {σ α β : Type}

/-- No effect. -/
protected def pure (a : α) : Traced σ α := fun s => ([], some (a, s))

/-- `x`, then `f` on its result from the state `x` leaves. -/
protected def bind (x : Traced σ α) (f : α → Traced σ β) : Traced σ β := fun s =>
  match x s with
  | (t, none) => (t, none)
  | (t, some (a, s')) => (t ++ (f a s').1, (f a s').2)

instance : Monad (Traced σ) where
  pure := Traced.pure
  bind := Traced.bind

/-- Read the state. -/
def get : Traced σ σ := fun s => ([], some (s, s))

/-- One atomic effect. -/
def step (g : σ → σ) : Traced σ Unit := fun s => ([g s], some ((), g s))

/-- A panic: no effect and no result. -/
def halt : Traced σ α := fun _ => ([], none)

/-! ## Running -/

@[simp] theorem pure_apply (a : α) (s : σ) : (pure a : Traced σ α) s = ([], some (a, s)) := rfl

@[simp] theorem get_apply (s : σ) : (get : Traced σ σ) s = ([], some (s, s)) := rfl

@[simp] theorem step_apply (g : σ → σ) (s : σ) : step g s = ([g s], some ((), g s)) := rfl

@[simp] theorem halt_apply (s : σ) : (halt : Traced σ α) s = ([], none) := rfl

theorem bind_apply_of_halt {x : Traced σ α} {f : α → Traced σ β} {s : σ} {t : List σ}
    (h : x s = (t, none)) : (x >>= f) s = (t, none) := by
  show Traced.bind x f s = _
  simp only [Traced.bind, h]

theorem bind_apply_of_result {x : Traced σ α} {f : α → Traced σ β} {s s' : σ} {t : List σ}
    {a : α} (h : x s = (t, some (a, s'))) : (x >>= f) s = (t ++ (f a s').1, (f a s').2) := by
  show Traced.bind x f s = _
  simp only [Traced.bind, h]

theorem bind_apply_of_snd {x : Traced σ α} {f : α → Traced σ β} {s s' : σ} {a : α}
    (h : (x s).2 = some (a, s')) : (x >>= f) s = ((x s).1 ++ (f a s').1, (f a s').2) :=
  bind_apply_of_result (Prod.ext rfl h)

@[simp] theorem get_bind (f : σ → Traced σ β) (s : σ) : (get >>= f) s = f s s := by
  rw [bind_apply_of_result (get_apply s)]
  rfl

@[simp] theorem step_bind (g : σ → σ) (f : Unit → Traced σ β) (s : σ) :
    (step g >>= f) s = (g s :: (f () (g s)).1, (f () (g s)).2) := by
  rw [bind_apply_of_result (step_apply g s)]
  rfl

theorem mem_bind_left {x : Traced σ α} {f : α → Traced σ β} {s s' : σ} (h : s' ∈ (x s).1) :
    s' ∈ ((x >>= f) s).1 := by
  rcases hx : x s with ⟨t, _ | ⟨a, s₁⟩⟩
  · rw [bind_apply_of_halt hx]
    simpa [hx] using h
  · rw [bind_apply_of_result hx]
    exact List.mem_append_left _ (by simpa [hx] using h)

/-! ## Specifications -/

/-- From every state satisfying `P`, every state `x` records satisfies `I`, and
a result `a` with the state `s'` it leaves satisfies `Q a s'`. -/
def Spec (P : σ → Prop) (x : Traced σ α) (I : σ → Prop) (Q : α → σ → Prop) : Prop :=
  ∀ s, P s → (∀ s' ∈ (x s).1, I s') ∧ ∀ a s', (x s).2 = some (a, s') → Q a s'

variable {P P' : σ → Prop} {I I' : σ → Prop} {Q Q' : α → σ → Prop}

theorem Spec.trace {x : Traced σ α} (h : Spec P x I Q) {s : σ} (hs : P s) :
    ∀ s' ∈ (x s).1, I s' :=
  (h s hs).1

theorem Spec.result {x : Traced σ α} (h : Spec P x I Q) {s s' : σ} {a : α} (hs : P s)
    (hr : (x s).2 = some (a, s')) : Q a s' :=
  (h s hs).2 a s' hr

theorem spec_pure {a : α} (h : ∀ s, P s → Q a s) : Spec P (pure a) I Q := by
  intro s hs
  simpa using h s hs

theorem spec_get {Q : σ → σ → Prop} (h : ∀ s, P s → Q s s) : Spec P get I Q := by
  intro s hs
  simpa using h s hs

theorem spec_step {g : σ → σ} {Q : Unit → σ → Prop} (h : ∀ s, P s → I (g s) ∧ Q () (g s)) :
    Spec P (step g) I Q := by
  intro s hs
  obtain ⟨hi, hq⟩ := h s hs
  refine ⟨by simpa using hi, fun a s' hr => ?_⟩
  cases a
  simp only [step_apply, Option.some.injEq, Prod.mk.injEq, true_and] at hr
  exact hr ▸ hq

theorem spec_halt : Spec P (halt : Traced σ α) I Q := by
  intro s _
  simp

theorem spec_bind {x : Traced σ α} {f : α → Traced σ β} {R : α → σ → Prop}
    {Q : β → σ → Prop} (hx : Spec P x I R) (hf : ∀ a, Spec (R a) (f a) I Q) :
    Spec P (x >>= f) I Q := by
  intro s hs
  rcases hr : x s with ⟨t, _ | ⟨a, s₁⟩⟩
  · rw [bind_apply_of_halt hr]
    refine ⟨fun s' hs' => hx.trace hs s' (by simpa [hr] using hs'), fun _ _ h => ?_⟩
    cases h
  · have hR : R a s₁ := hx.result hs (by simp [hr])
    rw [bind_apply_of_result hr]
    refine ⟨fun s' hs' => ?_, fun b s' h => (hf a).result hR h⟩
    rcases List.mem_append.mp hs' with hs' | hs'
    · exact hx.trace hs s' (by simpa [hr] using hs')
    · exact (hf a).trace hR s' hs'

theorem spec_of_imp {x : Traced σ α} {F : Prop} (hF : ∀ s, P s → F) (h : F → Spec P x I Q) :
    Spec P x I Q :=
  fun s hs => h (hF s hs) s hs

theorem spec_ite {c : Prop} [Decidable c] {x y : Traced σ α} (hx : c → Spec P x I Q)
    (hy : ¬c → Spec P y I Q) : Spec P (if c then x else y) I Q := by
  split
  · exact hx ‹_›
  · exact hy ‹_›

theorem Spec.mono {x : Traced σ α} (h : Spec P x I Q) (hP : ∀ s, P' s → P s)
    (hI : ∀ s, I s → I' s) (hQ : ∀ a s, Q a s → Q' a s) : Spec P' x I' Q' := by
  intro s hs
  obtain ⟨ht, hr⟩ := h s (hP s hs)
  exact ⟨fun s' h' => hI s' (ht s' h'), fun a s' h' => hQ a s' (hr a s' h')⟩

end Traced
