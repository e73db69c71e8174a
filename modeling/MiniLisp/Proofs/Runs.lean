import Mathlib.Order.Defs.Unbundled
import MiniLisp.Evaluator

/-!
# What a run leaves behind

A run ends with a value or with an error, and leaves a store either way. What runs do to the store
is a relation between the store before and the store after. A reflexive and transitive relation
passes from the steps of a computation to the whole of it.
-/

namespace MiniLisp

namespace Eval

variable {α β : Type}

/-- The store that a run from `s` leaves, however it ends. -/
def storeAfter (x : Eval α) (s : Store) : Store :=
  match x.run s with
  | .ok _ t => t
  | .error _ t => t

theorem run_lookup (scope : FrameId) (name : String) (s : Store) :
    (lookup scope name).run s = match s.lookup? scope name with
      | some v => .ok v s
      | none => .error (.unboundSymbol name) s := by
  simp only [lookup, EStateM.run_bind, EStateM.run_get]
  cases s.lookup? scope name <;> rfl

/-- Every run leaves a store that is related to the store it began with. -/
def Leaves (P : Store → Store → Prop) (x : Eval α) : Prop := ∀ s, P s (x.storeAfter s)

theorem storeAfter_eq_of_ok {x : Eval α} {s t : Store} {a : α} (h : x.run s = .ok a t) :
    x.storeAfter s = t := by
  rw [storeAfter, h]

theorem storeAfter_eq_of_error {x : Eval α} {s t : Store} {e : EvalError}
    (h : x.run s = .error e t) : x.storeAfter s = t := by
  rw [storeAfter, h]

theorem storeAfter_congr {x y : Eval α} {s : Store} (h : x.run s = y.run s) :
    x.storeAfter s = y.storeAfter s := by
  rw [storeAfter, storeAfter, h]

theorem storeAfter_bind_of_ok {x : Eval α} {s t : Store} {a : α} (h : x.run s = .ok a t)
    (f : α → Eval β) : (x >>= f).storeAfter s = (f a).storeAfter t := by
  simp only [storeAfter, EStateM.run_bind, h]

theorem storeAfter_bind_of_error {x : Eval α} {s t : Store} {e : EvalError}
    (h : x.run s = .error e t) (f : α → Eval β) : (x >>= f).storeAfter s = t := by
  simp only [storeAfter, EStateM.run_bind, h]

theorem Leaves.mono {P Q : Store → Store → Prop} {x : Eval α} (h : Leaves P x)
    (hPQ : ∀ s t, P s t → Q s t) : Leaves Q x :=
  fun s ↦ hPQ s _ (h s)

section Preorder

variable {P : Store → Store → Prop} [IsPreorder Store P]

theorem leaves_pure (a : α) : Leaves P (pure a : Eval α) := fun s ↦ refl_of P s

theorem leaves_throw (e : EvalError) : Leaves P (throw e : Eval α) := fun s ↦ refl_of P s

theorem leaves_lookup (scope : FrameId) (name : String) : Leaves P (lookup scope name) := by
  intro s
  have hs : (lookup scope name).storeAfter s = s := by
    rw [storeAfter, run_lookup]
    cases s.lookup? scope name <;> rfl
  rw [hs]
  exact refl_of P s

/-- What comes after `x` starts from the store that `x` left, if it comes to that. -/
theorem leaves_rest {f : α → Eval β} (hf : ∀ a, Leaves P (f a)) (x : Eval α) (s : Store) :
    P (x.storeAfter s) ((x >>= f).storeAfter s) := by
  cases hrun : x.run s with
  | ok a t =>
      rw [storeAfter_bind_of_ok hrun, storeAfter_eq_of_ok hrun]
      exact hf a t
  | error e t =>
      rw [storeAfter_bind_of_error hrun, storeAfter_eq_of_error hrun]
      exact refl_of P t

theorem Leaves.bind {x : Eval α} {f : α → Eval β} (hx : Leaves P x) (hf : ∀ a, Leaves P (f a)) :
    Leaves P (x >>= f) :=
  fun s ↦ trans_of P (hx s) (leaves_rest hf x s)

theorem leaves_mapM {γ : Type} {f : γ → Eval α} {xs : List γ} (hf : ∀ x ∈ xs, Leaves P (f x)) :
    Leaves P (xs.mapM f) := by
  induction xs with
  | nil => exact leaves_pure []
  | cons x xs ih =>
      rw [List.mapM_cons]
      apply (hf x List.mem_cons_self).bind
      intro v
      apply (ih fun y hy ↦ hf y (List.mem_cons_of_mem x hy)).bind
      intro vs
      exact leaves_pure (v :: vs)

end Preorder

end Eval

end MiniLisp
