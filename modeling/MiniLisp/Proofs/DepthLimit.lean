import MiniLisp.Proofs.Framing
import MiniLisp.Proofs.Natives

/-!
# The depth limit cuts runs short and changes nothing else

A run with more levels left, on a stack that holds no less, ends as the run with fewer levels does,
unless the latter was cut short; then it goes on from there, and the lines written so far stay the
first ones. Which limit is in force shows only in the error that names it, and only the levels that
are left count.
-/

namespace MiniLisp

/-- Lines are only added, behind those that are there. -/
def Store.Writes (s t : Store) : Prop := s.output.toList <+: t.output.toList

instance : IsPreorder Store Store.Writes where
  refl _ := List.prefix_rfl
  trans _ _ _ hst htu := List.IsPrefix.trans hst htu

def EvalError.withLimit (limit : Int) : EvalError → EvalError
  | .stackExhausted _ => .stackExhausted limit
  | e => e

namespace Eval

variable {α β : Type}

def Exhausted (r : EStateM.Result EvalError Store α) : Prop :=
  ∃ limit s, r = .error (.stackExhausted limit) s

theorem not_exhausted_ok (a : α) (s : Store) :
    ¬ Exhausted (.ok a s : EStateM.Result EvalError Store α) := by
  rintro ⟨limit, t, h⟩
  cases h

/-- The runs of `long` are those of `short`, or go on where those had no level left. -/
structure Outlasts (short long : Eval α) : Prop where
  writes : Leaves Store.Writes long
  same : ∀ s, ¬ Exhausted (short.run s) → long.run s = short.run s
  goesOn : ∀ s, Exhausted (short.run s) → (short.storeAfter s).Writes (long.storeAfter s)

namespace Outlasts

theorem refl {x : Eval α} (hx : Leaves Store.Writes x) : Outlasts x x :=
  ⟨hx, fun _ _ ↦ rfl, fun s _ ↦ refl_of Store.Writes (x.storeAfter s)⟩

theorem pure (a : α) : Outlasts (Pure.pure a) (Pure.pure a) := .refl (leaves_pure a)

theorem throw (e : EvalError) : Outlasts (MonadExcept.throw e : Eval α) (MonadExcept.throw e) :=
  .refl (leaves_throw e)

theorem bind {x x' : Eval α} {f f' : α → Eval β} (hx : Outlasts x x')
    (hf : ∀ a, Outlasts (f a) (f' a)) : Outlasts (x >>= f) (x' >>= f') := by
  have hrest : ∀ s, (x'.storeAfter s).Writes ((x' >>= f').storeAfter s) :=
    leaves_rest (fun a ↦ (hf a).writes) x'
  refine ⟨hx.writes.bind fun a ↦ (hf a).writes, ?_, ?_⟩
  · intro s hs
    cases hrun : x.run s with
    | ok a t =>
        have hx' : x'.run s = .ok a t := by
          rw [hx.same s (hrun ▸ not_exhausted_ok a t), hrun]
        rw [EStateM.run_bind, hrun] at hs
        rw [EStateM.run_bind, EStateM.run_bind, hrun, hx']
        exact (hf a).same t hs
    | error e t =>
        have hs' : ¬ Exhausted (x.run s) := by
          rintro ⟨limit, u, hu⟩
          apply hs
          rw [EStateM.run_bind, hu]
          exact ⟨limit, u, rfl⟩
        rw [EStateM.run_bind, EStateM.run_bind, hx.same s hs', hrun]
  · intro s hs
    cases hrun : x.run s with
    | ok a t =>
        have hx' : x'.run s = .ok a t := by
          rw [hx.same s (hrun ▸ not_exhausted_ok a t), hrun]
        rw [EStateM.run_bind, hrun] at hs
        rw [storeAfter_bind_of_ok hrun, storeAfter_bind_of_ok hx']
        exact (hf a).goesOn t hs
    | error e t =>
        have hs' : Exhausted (x.run s) := by
          obtain ⟨limit, u, hu⟩ := hs
          rw [EStateM.run_bind, hrun] at hu
          cases hu
          exact ⟨limit, t, hrun⟩
        have hgoesOn := hx.goesOn s hs'
        rw [storeAfter_eq_of_error hrun] at hgoesOn
        rw [storeAfter_bind_of_error hrun]
        exact trans_of Store.Writes hgoesOn (hrest s)

theorem mapM {γ : Type} {f f' : γ → Eval α} (hf : ∀ x, Outlasts (f x) (f' x)) (xs : List γ) :
    Outlasts (xs.mapM f) (xs.mapM f') := by
  induction xs with
  | nil => exact .pure []
  | cons x xs ih =>
      rw [List.mapM_cons, List.mapM_cons]
      exact (hf x).bind fun v ↦ ih.bind fun vs ↦ .pure (v :: vs)

end Outlasts

end Eval

namespace Evaluator

open Eval

theorem writes_of_grows {α : Type} {x : Eval α} (h : Leaves Store.Grows x) :
    Leaves Store.Writes x :=
  h.mono fun _ _ hg ↦ hg.output

theorem writes_define (scope : FrameId) (name : String) (v : Value) :
    Leaves Store.Writes (define scope name v) :=
  fun s ↦ refl_of Store.Writes s

section Steps

variable {operand operand' body body' : Step} {scope : FrameId}
  (hoperand : ∀ form, Outlasts (operand form scope) (operand' form scope))
  (hbody : ∀ form scope, Outlasts (body form scope) (body' form scope))

include hbody in
theorem outlasts_apply (fn : Value) (args : List Value) :
    Outlasts (apply body fn args) (apply body' fn args) := by
  cases fn with
  | native op home => exact .refl (writes_of_grows (op.leaves_call home args))
  | closure id params form scope =>
      apply (Outlasts.refl (writes_of_grows (leaves_enter params form scope args))).bind
      intro inner
      exact hbody form inner
  | boolean | number | string | symbol | nil | list => exact .throw _

include hoperand

theorem outlasts_evalDefine (operands : List Form) :
    Outlasts (evalDefine operand scope operands) (evalDefine operand' scope operands) := by
  rw [evalDefine.eq_def, evalDefine.eq_def]
  split
  · rename_i name form
    apply (hoperand form).bind
    intro v
    exact (Outlasts.refl (writes_define scope name v)).bind fun _ ↦ .pure v
  · exact .throw _
  · exact .throw _

theorem outlasts_evalConditional (operands : List Form) :
    Outlasts (evalConditional operand scope operands)
      (evalConditional operand' scope operands) := by
  rw [evalConditional.eq_def, evalConditional.eq_def]
  split
  · rename_i test yes no
    apply (hoperand test).bind
    intro v
    split
    · exact hoperand yes
    · exact hoperand no
  · exact .throw _

theorem outlasts_evalKeyword (operands : List Form) (k : Keyword) :
    Outlasts (evalKeyword operand scope operands k) (evalKeyword operand' scope operands k) := by
  cases k with
  | quote => exact .refl (leaves_evalQuote operands)
  | lambda => exact .refl (writes_of_grows (leaves_evalLambda scope operands))
  | list => exact (Outlasts.mapM hoperand operands).bind fun vs ↦ .pure (Value.list vs)
  | define => exact outlasts_evalDefine hoperand operands
  | conditional => exact outlasts_evalConditional hoperand operands

include hbody

theorem outlasts_evalForm (form : Form) :
    Outlasts (evalForm operand body form scope) (evalForm operand' body' form scope) := by
  cases form with
  | number | string | boolean | nil | quote => exact .pure _
  | symbol name => exact .refl (leaves_lookup scope name)
  | list items =>
      cases items with
      | nil => exact .pure _
      | cons head operands =>
          rw [evalForm, evalForm]
          split
          · exact outlasts_evalKeyword hoperand operands _
          · apply (hoperand head).bind
            intro fn
            apply (Outlasts.mapM hoperand operands).bind
            intro args
            exact outlasts_apply hbody fn args

end Steps

theorem writes_evalWithin (limit : Int) (room : Nat) (stack : Stack) (form : Form)
    (scope : FrameId) : Leaves Store.Writes (evalWithin limit room stack form scope) :=
  (leaves_evalWithin limit room stack form scope).mono fun _ _ hg ↦ hg.output

/-- A run that is at its end goes on as any run that only adds lines. -/
theorem outlasts_exhausted (limit : Int) {x : Eval Value} (hx : Leaves Store.Writes x) :
    Outlasts (throw (.stackExhausted limit)) x :=
  ⟨hx, fun s hs ↦ absurd ⟨limit, s, rfl⟩ hs, fun s _ ↦ hx s⟩

/-- Induction on the fewer levels; the run with the smaller stack is the first to be at its end. -/
theorem outlasts_evalWithin (limit limit' : Int) {room room' : Nat} (hroom : room ≤ room')
    {stack stack' : Stack} (hstack : stack.AtMost stack') (form : Form) (scope : FrameId) :
    Outlasts (evalWithin limit room stack form scope)
      (evalWithin limit' room' stack' form scope) := by
  induction room generalizing room' stack stack' form scope with
  | zero => exact outlasts_exhausted limit (writes_evalWithin limit' room' stack' form scope)
  | succ room ih =>
      obtain ⟨room', rfl⟩ : ∃ k, room' = k + 1 := ⟨room' - 1, by omega⟩
      have hle : room ≤ room' := Nat.le_of_succ_le_succ hroom
      by_cases hholds : stack.holds form.slots
      · rw [evalWithin_of_holds hholds, evalWithin_of_holds (hstack _ hholds)]
        exact outlasts_evalForm (fun form ↦ ih hle (hstack.below _) form scope)
          (ih hle (hstack.below _)) form
      · have hwrites := writes_evalWithin limit' (room' + 1) stack' form scope
        rw [evalWithin_of_not_holds hholds]
        exact outlasts_exhausted limit hwrites

end Evaluator

namespace Eval

variable {α β : Type}

def endWithLimit (limit : Int) :
    EStateM.Result EvalError Store α → EStateM.Result EvalError Store α
  | .ok a s => .ok a s
  | .error e s => .error (e.withLimit limit) s

def withLimit (limit : Int) (x : Eval α) : Eval α :=
  EStateM.adaptExcept (EvalError.withLimit limit) x

variable (limit : Int)

theorem run_withLimit (x : Eval α) (s : Store) :
    (withLimit limit x).run s = endWithLimit limit (x.run s) := by
  rw [withLimit, EStateM.run_adaptExcept]
  cases x.run s <;> rfl

theorem withLimit_pure (a : α) : withLimit limit (pure a) = pure a := rfl

theorem withLimit_throw (e : EvalError) :
    withLimit limit (throw e : Eval α) = throw (e.withLimit limit) := rfl

theorem withLimit_bind (x : Eval α) (f : α → Eval β) :
    withLimit limit (x >>= f) = withLimit limit x >>= fun a ↦ withLimit limit (f a) := by
  funext s
  change (withLimit limit (x >>= f)).run s =
    (withLimit limit x >>= fun a ↦ withLimit limit (f a)).run s
  rw [run_withLimit, EStateM.run_bind, EStateM.run_bind, run_withLimit]
  cases x.run s with
  | ok a t => exact (run_withLimit limit (f a) t).symm
  | error e t => rfl

theorem withLimit_mapM {γ : Type} (f : γ → Eval α) (xs : List γ) :
    withLimit limit (xs.mapM f) = xs.mapM fun x ↦ withLimit limit (f x) := by
  induction xs with
  | nil => rfl
  | cons x xs ih => simp only [List.mapM_cons, withLimit_bind, withLimit_pure, ih]

theorem withLimit_lookup (scope : FrameId) (name : String) :
    withLimit limit (lookup scope name) = lookup scope name := by
  funext s
  change (withLimit limit (lookup scope name)).run s = (lookup scope name).run s
  rw [run_withLimit, run_lookup]
  cases s.lookup? scope name <;> rfl

theorem withLimit_number (x : Double) : withLimit limit (number x) = number x := by
  rw [number]
  split <;> rfl

end Eval

theorem Primitive.withLimit_call (limit : Int) (op : Primitive) (home : FrameId)
    (args : List Value) : Eval.withLimit limit (op.call home args) = op.call home args := by
  rw [call]
  split
  · rfl
  · exact Eval.withLimit_number limit _
  · rfl
  · rename_i e he
    rw [Eval.withLimit_throw]
    cases complaint_of_reply he <;> rfl

namespace Evaluator

open Eval

variable (limit : Int)

theorem withLimit_enter (params : List String) (form : Form) (scope : FrameId)
    (args : List Value) :
    withLimit limit (enter params form scope args) = enter params form scope args := by
  rw [enter]
  split <;> rfl

theorem withLimit_of_paramNames {params : List Form} {e : EvalError}
    (h : paramNames params = .error e) : e.withLimit limit = e := by
  induction params with
  | nil => cases h
  | cons param params ih =>
      cases param with
      | symbol name =>
          rw [paramNames] at h
          exact ih (map_eq_error_iff.mp h)
      | number | string | boolean | nil | quote | list =>
          cases h
          rfl

theorem withLimit_evalLambda (scope : FrameId) (operands : List Form) :
    withLimit limit (evalLambda scope operands) = evalLambda scope operands := by
  rw [evalLambda.eq_def]
  split
  · split
    · rfl
    · rename_i he
      rw [withLimit_throw, withLimit_of_paramNames limit he]
  · rfl
  · rfl

variable (operand body : Step)

theorem withLimit_evalKeyword (scope : FrameId) (operands : List Form) (k : Keyword) :
    withLimit limit (evalKeyword operand scope operands k) =
      evalKeyword (fun form scope ↦ withLimit limit (operand form scope)) scope operands k := by
  cases k with
  | quote =>
      rw [evalKeyword, evalKeyword, evalQuote.eq_def]
      split <;> rfl
  | lambda => exact withLimit_evalLambda limit scope operands
  | list => simp only [evalKeyword, evalAll, withLimit_bind, withLimit_mapM, withLimit_pure]
  | define =>
      rw [evalKeyword, evalKeyword, evalDefine.eq_def, evalDefine.eq_def]
      split
      · rw [withLimit_bind]
        rfl
      · rfl
      · rfl
  | conditional =>
      rw [evalKeyword, evalKeyword, evalConditional.eq_def, evalConditional.eq_def]
      split
      · rw [withLimit_bind]
        congr 1
        funext v
        split <;> rfl
      · rfl

theorem withLimit_apply (fn : Value) (args : List Value) :
    withLimit limit (apply body fn args) =
      apply (fun form scope ↦ withLimit limit (body form scope)) fn args := by
  cases fn with
  | native op home => exact op.withLimit_call limit home args
  | closure id params form scope => rw [apply, apply, withLimit_bind, withLimit_enter]
  | boolean | number | string | symbol | nil | list => rfl

theorem withLimit_evalForm (form : Form) (scope : FrameId) :
    withLimit limit (evalForm operand body form scope) =
      evalForm (fun form scope ↦ withLimit limit (operand form scope))
        (fun form scope ↦ withLimit limit (body form scope)) form scope := by
  cases form with
  | number | string | boolean | nil | quote => rfl
  | symbol name => exact withLimit_lookup limit scope name
  | list items =>
      cases items with
      | nil => rfl
      | cons head operands =>
          rw [evalForm, evalForm]
          split
          · exact withLimit_evalKeyword limit operand scope operands _
          · simp only [evalAll, withLimit_bind, withLimit_mapM, withLimit_apply]

theorem withLimit_evalWithin (limit limit' : Int) (room : Nat) (stack : Stack) :
    evalWithin limit' room stack =
      fun form scope ↦ withLimit limit' (evalWithin limit room stack form scope) := by
  induction room generalizing stack with
  | zero => rfl
  | succ room ih =>
      funext form scope
      rw [evalWithin, evalWithin]
      split
      · rw [withLimit_evalForm, ← ih, ← ih]
      · rfl

end Evaluator

/-- The run from `s` is as it is on a stack without end: the host does not cut it short. -/
def Stack.Suffices {α : Type} (stack : Stack) (x : Stack → Eval α) (s : Store) : Prop :=
  (x stack).run s = (x none).run s

/-- A run can only be cut short that ends as one that used up its levels does. -/
theorem Eval.Outlasts.suffices {α : Type} {x : Stack → Eval α} {stack : Stack}
    (h : Outlasts (x stack) (x none)) {s : Store} (hs : ¬ Exhausted ((x stack).run s)) :
    stack.Suffices x s :=
  (h.same s hs).symm

/-- Evaluates a form at the top level on the given stack. -/
def evaluateOn (limit : Int) (form : Form) (scope : FrameId) (stack : Stack) : Eval Value :=
  Evaluator.evalWithin limit (Evaluator.levels limit) stack form scope

namespace Host

/-- The host cuts none of the runs short that evaluate the forms in turn, from `s` on. -/
def Suffices (limit : Int) (scope : FrameId) : Store → List Form → Prop
  | _, [] => True
  | s, form :: forms =>
    (stackFor limit form).Suffices (evaluateOn limit form scope) s ∧
      Suffices limit scope ((evaluate limit form scope).storeAfter s) forms

theorem suffices_of_not_exhausted {limit : Int} {form : Form} {scope : FrameId} {s : Store}
    (h : ¬ Eval.Exhausted ((evaluate limit form scope).run s)) :
    (stackFor limit form).Suffices (evaluateOn limit form scope) s :=
  Eval.Outlasts.suffices (x := evaluateOn limit form scope)
    (Evaluator.outlasts_evalWithin limit limit (Nat.le_refl _) (Stack.atMost_none _) form scope) h

end Host

/-- A larger limit, and a stack that holds no less, leave a run as it is unless it was exhausted, and
then keep the lines it wrote as the first ones; and a limit counts only as far as it lies above the
level. -/
theorem evaluation_limit (form : Form) (scope : FrameId) (s : Store) (level : Int)
    {limit limit' : Int} (h : limit ≤ limit') {stack stack' : Stack}
    (hstack : stack.AtMost stack') :
    (¬ Eval.Exhausted ((evaluateBelow stack ⟨level, limit⟩ form scope).run s) →
        (evaluateBelow stack' ⟨level, limit'⟩ form scope).run s =
          (evaluateBelow stack ⟨level, limit⟩ form scope).run s) ∧
      (Eval.Exhausted ((evaluateBelow stack ⟨level, limit⟩ form scope).run s) →
        ((evaluateBelow stack ⟨level, limit⟩ form scope).storeAfter s).output.toList <+:
          ((evaluateBelow stack' ⟨level, limit'⟩ form scope).storeAfter s).output.toList) ∧
      ∀ k, (evaluateBelow stack ⟨level + k, limit + k⟩ form scope).run s =
        Eval.endWithLimit (limit + k) ((evaluateBelow stack ⟨level, limit⟩ form scope).run s) := by
  have hroom : (⟨level, limit⟩ : Depth).room ≤ (⟨level, limit'⟩ : Depth).room := by
    simp only [Depth.room]
    omega
  have houtlasts := Evaluator.outlasts_evalWithin limit limit' hroom hstack form scope
  refine ⟨houtlasts.same s, houtlasts.goesOn s, ?_⟩
  intro k
  have hshift : (⟨level + k, limit + k⟩ : Depth).room = (⟨level, limit⟩ : Depth).room := by
    simp only [Depth.room]
    omega
  rw [evaluateBelow, evaluateBelow, hshift, Evaluator.withLimit_evalWithin limit (limit + k)]
  exact Eval.run_withLimit (limit + k) _ s

/-- A function that logs and then calls itself, called without end. -/
def Form.endless : Form :=
  let again : Form := .list [.symbol "lambda", .list [.symbol "f"], .list [.symbol "list",
    .list [.symbol "log", .string "again"], .list [.symbol "f", .symbol "f"]]]
  .list [again, again]

theorem evaluation_limit_endless :
    (4 : Int) ≤ 9 ∧ Stack.AtMost (some 100) none ∧
      Eval.Exhausted ((evaluateBelow (some 100) ⟨0, 4⟩ Form.endless 0).run Store.initial) ∧
      ((evaluateBelow (some 100) ⟨0, 4⟩ Form.endless 0).storeAfter
          Store.initial).output.toList <+:
        ((evaluateBelow none ⟨0, 9⟩ Form.endless 0).storeAfter Store.initial).output.toList ∧
      (evaluateBelow (some 100) ⟨5, 9⟩ Form.endless 0).run Store.initial =
        Eval.endWithLimit 9
          ((evaluateBelow (some 100) ⟨0, 4⟩ Form.endless 0).run Store.initial) := by
  have hle : (4 : Int) ≤ 9 := by decide
  have hstack : Stack.AtMost (some 100) none := Stack.atMost_none (some 100)
  have hend :
      Eval.Exhausted ((evaluateBelow (some 100) ⟨0, 4⟩ Form.endless 0).run Store.initial) :=
    ⟨4, _, rfl⟩
  have hlimit := evaluation_limit Form.endless 0 Store.initial 0 hle hstack
  exact ⟨hle, hstack, hend, hlimit.2.1 hend, hlimit.2.2 5⟩

end MiniLisp
