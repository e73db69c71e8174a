import MiniLisp.Proofs.Observation
import Mathlib.Data.List.Forall2

/-!
# Two runs that correspond

Two computations correspond if, from stores that correspond, both end with values that correspond or
both with errors that correspond, and in either case with stores that correspond. This passes from
the steps of two computations to the whole of them.
-/

namespace MiniLisp

/-- Which numbers, values, stores and errors of two runs correspond. -/
structure Correspondence where
  number : Double → Double → Prop
  value : Value → Value → Prop
  store : Store → Store → Prop
  error : EvalError → EvalError → Prop

namespace Correspondence

variable {α β γ δ : Type} (c : Correspondence)

def Ends (value : α → β → Prop) :
    EStateM.Result EvalError Store α → EStateM.Result EvalError Store β → Prop
  | .ok a s, .ok b t => value a b ∧ c.store s t
  | .error e s, .error f t => c.error e f ∧ c.store s t
  | _, _ => False

/-- From stores that correspond, the two computations end alike. -/
def Runs (value : α → β → Prop) (x : Eval α) (y : Eval β) : Prop :=
  ∀ s t, c.store s t → c.Ends value (x.run s) (y.run t)

variable {c}

theorem runs_pure {value : α → β → Prop} {a : α} {b : β} (h : value a b) :
    c.Runs value (pure a) (pure b) :=
  fun _ _ hst ↦ ⟨h, hst⟩

theorem runs_throw {value : α → β → Prop} {e f : EvalError} (h : c.error e f) :
    c.Runs value (throw e) (throw f) :=
  fun _ _ hst ↦ ⟨h, hst⟩

theorem Runs.bind {value : α → β → Prop} {value' : γ → δ → Prop} {x : Eval α} {y : Eval β}
    {f : α → Eval γ} {g : β → Eval δ} (hxy : c.Runs value x y)
    (hfg : ∀ a b, value a b → c.Runs value' (f a) (g b)) : c.Runs value' (x >>= f) (y >>= g) := by
  intro s t hst
  have hends := hxy s t hst
  rw [EStateM.run_bind, EStateM.run_bind]
  cases hx : x.run s with
  | ok a s' =>
      cases hy : y.run t with
      | ok b t' =>
          rw [hx, hy] at hends
          exact hfg a b hends.1 s' t' hends.2
      | error f t' => rw [hx, hy] at hends; exact hends.elim
  | error e s' =>
      cases hy : y.run t with
      | ok b t' => rw [hx, hy] at hends; exact hends.elim
      | error f t' => rw [hx, hy] at hends; exact hends

theorem runs_mapM {arg : α → β → Prop} {value : γ → δ → Prop} {f : α → Eval γ} {g : β → Eval δ}
    {xs : List α} {ys : List β} (hargs : List.Forall₂ arg xs ys)
    (hfg : ∀ x y, arg x y → c.Runs value (f x) (g y)) :
    c.Runs (List.Forall₂ value) (xs.mapM f) (ys.mapM g) := by
  induction hargs with
  | nil => exact runs_pure .nil
  | cons hxy _ ih =>
      rw [List.mapM_cons, List.mapM_cons]
      apply (hfg _ _ hxy).bind
      intro v w hvw
      apply ih.bind
      intro vs ws hvws
      exact runs_pure (.cons hvw hvws)

theorem Runs.storeAfter {value : α → β → Prop} {x : Eval α} {y : Eval β} (h : c.Runs value x y)
    {s t : Store} (hst : c.store s t) : c.store (x.storeAfter s) (y.storeAfter t) := by
  have hends := h s t hst
  rw [Eval.storeAfter, Eval.storeAfter]
  cases hx : x.run s <;> cases hy : y.run t <;> rw [hx, hy] at hends
  · exact hends.2
  · exact hends.elim
  · exact hends.elim
  · exact hends.2

end Correspondence

end MiniLisp
