import MiniLisp.Proofs.DepthLimit
import MiniLisp.Proofs.EchoedValues

/-!
# Runs in two spellings

Forms that echo each other are evaluated alike, level by level, from stores that do. The two runs
may differ in the bodies of the closures that they make and in the signs of zeros, and in nothing
that a session shows.
-/

namespace MiniLisp

open Correspondence

namespace Form

variable {f g : Form}

theorem Matches.eq_symbol_iff (h : f.Matches g) {name : String} :
    f = .symbol name ↔ g = .symbol name := by
  cases h.pairs with
  | quoted hf hg => cases hf <;> cases hg <;> simp
  | number | string | symbol | boolean | nil | list => simp

theorem Matches.items {items items' : List Form} (h : (Form.list items).Matches (.list items')) :
    List.Forall₂ Matches items items' := by
  cases h.pairs with
  | list hitems => exact hitems
  | quoted hf hg hinner =>
      cases hf
      cases hg
      exact .cons (.refl _) (.cons hinner .nil)

/-- A list matches lists and marks alone. -/
theorem Matches.exists_quote {items : List Form} (h : (Form.list items).Matches g)
    (hg : ∀ items', g ≠ .list items') : ∃ inner, g = .quote inner := by
  cases h.pairs with
  | list => exact absurd rfl (hg _)
  | quoted _ hquotes =>
      cases hquotes with
      | mark => exact ⟨_, rfl⟩
      | list => exact absurd rfl (hg _)

theorem Echoes.marked_iff (h : f.Echoes g) : f.Marked ↔ g.Marked := by
  rcases h.marks with rfl | ⟨hf, hg⟩
  · exact Iff.rfl
  · exact iff_of_false hf.not_marked hg.not_marked

end Form

theorem Keyword.ofHead?_eq {head head' : Form} (h : head.Matches head') :
    ofHead? head = ofHead? head' := by
  cases h.pairs with
  | quoted hf hg => cases hf <;> cases hg <;> rfl
  | number | string | symbol | boolean | nil | list => rfl

theorem Keyword.wrongCount_eq {operands operands' : List Form}
    (h : List.Forall₂ Form.Matches operands operands') (k : Keyword) (count : Int) :
    k.wrongCount count operands = k.wrongCount count operands' := by
  rw [wrongCount, wrongCount, h.length_eq]

/-- Both computations end alike from stores that echo each other. -/
abbrev Eval.Echoes (x y : Eval Value) : Prop := echoing.Runs Value.Echoes x y

namespace Evaluator

open Form (Matches)

theorem evalLambda_of_length_ne {scope : FrameId} {operands : List Form}
    (h : operands.length ≠ 2) :
    evalLambda scope operands = throw (Keyword.lambda.wrongCount 2 operands) := by
  rcases operands with _ | ⟨params, _ | ⟨body, _ | ⟨more, rest⟩⟩⟩
  · rfl
  · cases params <;> rfl
  · exact absurd rfl h
  · cases params <;> rfl

theorem evalLambda_of_not_list {scope : FrameId} {params body : Form}
    (h : ∀ items, params ≠ .list items) : evalLambda scope [params, body] =
      throw (.typeMismatch Keyword.lambda.name .parameterList params.toValue) := by
  cases params with
  | list items => exact absurd rfl (h items)
  | number | string | symbol | boolean | nil | quote => rfl

theorem evalDefine_of_length_ne {operand : Step} {scope : FrameId} {operands : List Form}
    (h : operands.length ≠ 2) :
    evalDefine operand scope operands = throw (Keyword.define.wrongCount 2 operands) := by
  rcases operands with _ | ⟨target, _ | ⟨form, _ | ⟨more, rest⟩⟩⟩
  · rfl
  · cases target <;> rfl
  · exact absurd rfl h
  · cases target <;> rfl

theorem evalDefine_of_not_symbol {operand : Step} {scope : FrameId} {target form : Form}
    (h : ∀ name, target ≠ .symbol name) : evalDefine operand scope [target, form] =
      throw (.typeMismatch Keyword.define.name .symbol target.toValue) := by
  cases target with
  | symbol name => exact absurd rfl (h name)
  | number | string | boolean | nil | quote | list => rfl

theorem paramNames_of_not_symbol {param : Form} (params : List Form)
    (h : ∀ name, param ≠ .symbol name) : paramNames (param :: params) =
      .error (.typeMismatch Keyword.lambda.name .parameterSymbol param.toValue) := by
  cases param with
  | symbol name => exact absurd rfl (h name)
  | number | string | boolean | nil | quote | list => rfl

theorem evalForm_of_quotes {operand body : Step} {scope : FrameId} {form inner : Form}
    (h : form.Quotes inner) : evalForm operand body form scope = pure inner.toValue := by
  cases h <;> rfl

theorem alike_mismatch {f g : Form} (h : f.Matches g) (callee : String) (needed : Needed) :
    EvalError.Alike (.typeMismatch callee needed f.toValue)
      (.typeMismatch callee needed g.toValue) :=
  EvalError.alike_typeMismatch (h.toValue.render .machine) callee needed

theorem answers_paramNames {params params' : List Form}
    (h : List.Forall₂ Matches params params') :
    echoing.Answers Eq (paramNames params) (paramNames params') := by
  induction h with
  | nil => exact rfl
  | @cons param param' params params' hparam _ ih =>
      by_cases hsymbol : ∃ name, param = .symbol name
      · obtain ⟨name, rfl⟩ := hsymbol
        obtain rfl := hparam.eq_symbol_iff.mp rfl
        exact ih.map fun names _ hnames ↦ congrArg (name :: ·) hnames
      · have hname : ∀ name, param ≠ .symbol name := fun name heq ↦ hsymbol ⟨name, heq⟩
        have hname' : ∀ name, param' ≠ .symbol name :=
          fun name heq ↦ hname name (hparam.eq_symbol_iff.mpr heq)
        rw [paramNames_of_not_symbol _ hname, paramNames_of_not_symbol _ hname']
        exact alike_mismatch hparam _ _

theorem echoes_evalQuote {operands operands' : List Form}
    (h : List.Forall₂ Matches operands operands') :
    Eval.Echoes (evalQuote operands) (evalQuote operands') := by
  have hcount := Keyword.wrongCount_eq h .quote 1
  rcases h with _ | ⟨hform, _ | ⟨hmore, hrest⟩⟩
  · exact runs_throw (.refl _)
  · exact runs_pure hform.toValue
  · exact runs_throw (hcount ▸ .refl _)

theorem echoes_makeClosure (scope : FrameId) {params params' : List Form} {body body' : Form}
    (hparams : List.Forall₂ Matches params params') (hbody : body.Echoes body') :
    Eval.Echoes (evalLambda scope [.list params, body])
      (evalLambda scope [.list params', body']) := by
  have hnames := answers_paramNames hparams
  rw [evalLambda, evalLambda]
  generalize paramNames params = a at hnames
  generalize paramNames params' = b at hnames
  cases a with
  | error e => cases b with
    | error e' => exact runs_throw hnames
    | ok names' => exact hnames.elim
  | ok names => cases b with
    | error e' => exact hnames.elim
    | ok names' =>
        obtain rfl : names = names' := hnames
        apply runs_freshId.bind
        rintro id _ rfl
        exact runs_pure (.closure id names hbody scope)

/-- Here a mark and its long spelling would be told apart. -/
theorem echoes_evalLambda (scope : FrameId) {operands operands' : List Form}
    (h : (Form.list (.symbol Keyword.lambda.name :: operands)).Echoes
      (.list (.symbol Keyword.lambda.name :: operands')))
    (hmatch : List.Forall₂ Matches operands operands') :
    Eval.Echoes (evalLambda scope operands) (evalLambda scope operands') := by
  by_cases hlength : operands.length = 2
  · obtain ⟨params, body, rfl⟩ := List.length_eq_two.mp hlength
    obtain ⟨params', body', rfl⟩ := List.length_eq_two.mp (hmatch.length_eq ▸ hlength)
    obtain ⟨hparams, hbody⟩ : params.Matches params' ∧ body.Matches body' := by simpa using hmatch
    by_cases hlist : ∃ items, params = .list items <;>
      by_cases hlist' : ∃ items, params' = .list items
    · obtain ⟨items, rfl⟩ := hlist
      obtain ⟨items', rfl⟩ := hlist'
      have hparts := h.parts (.cons hbody .nil) (by rintro ⟨⟩; rfl)
        (List.forall_mem_singleton.mpr (.body items body))
        (List.forall_mem_singleton.mpr (.body items' body'))
      exact echoes_makeClosure scope hparams.items (by simpa using hparts)
    · obtain ⟨items, rfl⟩ := hlist
      obtain ⟨inner, rfl⟩ := hparams.exists_quote (not_exists.mp hlist')
      nomatch h.marked_iff.mpr (.lambda inner body')
    · obtain ⟨items, rfl⟩ := hlist'
      obtain ⟨inner, rfl⟩ := Matches.exists_quote hparams.symm (not_exists.mp hlist)
      nomatch h.marked_iff.mp (.lambda inner body)
    · rw [evalLambda_of_not_list (not_exists.mp hlist),
        evalLambda_of_not_list (not_exists.mp hlist')]
      exact runs_throw (alike_mismatch hparams _ _)
  · have hlength' : operands'.length ≠ 2 := hmatch.length_eq ▸ hlength
    rw [evalLambda_of_length_ne hlength, evalLambda_of_length_ne hlength',
      Keyword.wrongCount_eq hmatch]
    exact runs_throw (.refl _)

section Steps

variable {operand body : Step} {scope : FrameId}
  (hoperand : ∀ f g : Form, f.Echoes g → Eval.Echoes (operand f scope) (operand g scope))
  (hbody : ∀ (f g : Form) (inner : FrameId), f.Echoes g →
    Eval.Echoes (body f inner) (body g inner))

include hbody

/-- The identities of the closures play no part in it. -/
theorem echoes_applyClosure (id id' : Nat) (params : List String) {form form' : Form}
    (hform : form.Echoes form') (captured : FrameId) {args args' : List Value}
    (hargs : List.Forall₂ Value.Echoes args args') :
    Eval.Echoes (apply body (.closure id params form captured) args)
      (apply body (.closure id' params form' captured) args') := by
  have htext : closureText params form = closureText params form' := by
    rw [closureText, closureText, hform.same.render_eq]
  have henter : echoing.Runs Eq (enter params form captured args)
      (enter params form' captured args') := by
    rw [enter, enter, htext, hargs.length_eq]
    split
    · exact runs_extend captured params hargs
    · exact runs_throw (.refl _)
  apply henter.bind
  rintro inner _ rfl
  exact hbody form form' inner hform

theorem echoes_apply {fn fn' : Value} {args args' : List Value} (hfn : fn.Echoes fn')
    (hargs : List.Forall₂ Value.Echoes args args') :
    Eval.Echoes (apply body fn args) (apply body fn' args') := by
  have herror : (EvalError.notCallable fn).Alike (.notCallable fn') :=
    EvalError.alike_notCallable (hfn.render .machine)
  cases hfn with
  | native op home => exact lawful_echoing.runs_call op home hargs
  | closure id params hform captured =>
      exact echoes_applyClosure hbody id id params hform captured hargs
  | boolean | number | string | symbol | nil | list => exact runs_throw herror

omit hbody

include hoperand

theorem echoes_evalAll {forms forms' : List Form} (h : List.Forall₂ Form.Echoes forms forms') :
    echoing.Runs (List.Forall₂ Value.Echoes) (evalAll operand scope forms)
      (evalAll operand scope forms') :=
  runs_mapM h hoperand

theorem echoes_evalDefine {operands operands' : List Form}
    (h : (Form.list (.symbol Keyword.define.name :: operands)).Echoes
      (.list (.symbol Keyword.define.name :: operands')))
    (hmatch : List.Forall₂ Matches operands operands') :
    Eval.Echoes (evalDefine operand scope operands) (evalDefine operand scope operands') := by
  by_cases hlength : operands.length = 2
  · obtain ⟨target, form, rfl⟩ := List.length_eq_two.mp hlength
    obtain ⟨target', form', rfl⟩ := List.length_eq_two.mp (hmatch.length_eq ▸ hlength)
    obtain ⟨htarget, hform⟩ : target.Matches target' ∧ form.Matches form' := by simpa using hmatch
    by_cases hsymbol : ∃ name, target = .symbol name
    · obtain ⟨name, rfl⟩ := hsymbol
      obtain rfl := htarget.eq_symbol_iff.mp rfl
      have hparts := h.parts (.cons hform .nil) (by rintro ⟨⟩; rfl)
        (List.forall_mem_singleton.mpr (.value name form))
        (List.forall_mem_singleton.mpr (.value name form'))
      apply (hoperand form form' (by simpa using hparts)).bind
      intro v w hvw
      apply (runs_define scope name hvw).bind
      intro _ _ _
      exact runs_pure hvw
    · have hname : ∀ name, target ≠ .symbol name := not_exists.mp hsymbol
      have hname' : ∀ name, target' ≠ .symbol name :=
        fun name heq ↦ hname name (htarget.eq_symbol_iff.mpr heq)
      rw [evalDefine_of_not_symbol hname, evalDefine_of_not_symbol hname']
      exact runs_throw (alike_mismatch htarget _ _)
  · have hlength' : operands'.length ≠ 2 := hmatch.length_eq ▸ hlength
    rw [evalDefine_of_length_ne hlength, evalDefine_of_length_ne hlength',
      Keyword.wrongCount_eq hmatch]
    exact runs_throw (.refl _)

theorem echoes_evalConditional {operands operands' : List Form}
    (h : (Form.list (.symbol Keyword.conditional.name :: operands)).Echoes
      (.list (.symbol Keyword.conditional.name :: operands')))
    (hmatch : List.Forall₂ Matches operands operands') :
    Eval.Echoes (evalConditional operand scope operands)
      (evalConditional operand scope operands') := by
  have hcount := Keyword.wrongCount_eq hmatch .conditional 3
  rcases hmatch with _ | ⟨htest, _ | ⟨hyes, _ | ⟨hno, _ | ⟨hmore, hrest⟩⟩⟩⟩
  · exact runs_throw (.refl _)
  · exact runs_throw (.refl _)
  · exact runs_throw (.refl _)
  · have hparts := h.parts (.cons htest (.cons hyes (.cons hno .nil))) (by rintro ⟨⟩; rfl)
      (fun _ ↦ .choice) (fun _ ↦ .choice)
    rcases hparts with _ | ⟨htest, _ | ⟨hyes, _ | ⟨hno, _⟩⟩⟩
    apply (hoperand _ _ htest).bind
    intro v w hvw
    rw [hvw.shape.isTruthy]
    split
    · exact hoperand _ _ hyes
    · exact hoperand _ _ hno
  · exact runs_throw (hcount ▸ .refl _)

theorem echoes_evalKeyword (k : Keyword) {operands operands' : List Form}
    (h : (Form.list (.symbol k.name :: operands)).Echoes (.list (.symbol k.name :: operands')))
    (hmatch : List.Forall₂ Matches operands operands') :
    Eval.Echoes (evalKeyword operand scope operands k) (evalKeyword operand scope operands' k) := by
  cases k with
  | quote => exact echoes_evalQuote hmatch
  | lambda => exact echoes_evalLambda scope h hmatch
  | list =>
      have hparts := h.parts hmatch (by rintro ⟨⟩; rfl) (fun _ ↦ .item) (fun _ ↦ .item)
      exact (echoes_evalAll hoperand hparts).bind fun _ _ hvws ↦ runs_pure (.list hvws)
  | define => exact echoes_evalDefine hoperand h hmatch
  | conditional => exact echoes_evalConditional hoperand h hmatch

include hbody

theorem echoes_evalForm {f g : Form} (h : f.Echoes g) :
    Eval.Echoes (evalForm operand body f scope) (evalForm operand body g scope) := by
  cases h.same.pairs with
  | number hxy => exact runs_pure (.number hxy 0)
  | string | boolean | nil => exact runs_pure (.refl _)
  | symbol name => exact runs_lookup scope name (.refl _)
  | quoted hf hg hinner =>
      rw [evalForm_of_quotes hf, evalForm_of_quotes hg]
      exact runs_pure hinner.toValue
  | list hitems =>
      cases hitems with
      | nil => exact runs_pure (.list .nil)
      | @cons head head' operands operands' hhead hoperands =>
          rw [evalForm, evalForm, ← Keyword.ofHead?_eq hhead]
          cases hk : Keyword.ofHead? head with
          | some k =>
              have hk' : Keyword.ofHead? head' = some k := Keyword.ofHead?_eq hhead ▸ hk
              rw [Keyword.ofHead?_eq_some_iff.mp hk, Keyword.ofHead?_eq_some_iff.mp hk'] at h
              exact echoes_evalKeyword hoperand k h hoperands
          | none =>
              have hk' : Keyword.ofHead? head' = none := Keyword.ofHead?_eq hhead ▸ hk
              have hparts := h.parts (.cons hhead hoperands) (by rintro ⟨⟩; rfl)
                (fun _ ↦ .call hk) (fun _ ↦ .call hk')
              obtain ⟨hfirst, hrest⟩ := List.forall₂_cons.mp hparts
              apply (hoperand head head' hfirst).bind
              intro fn fn' hfn
              apply (echoes_evalAll hoperand hrest).bind
              intro args args' hargs
              exact echoes_apply hbody hfn hargs

end Steps

/-- Induction on the levels that are left: both spellings use them up alike. Of the host they take
different amounts, so this is about a stack without end. -/
theorem echoes_evalWithin (limit : Int) (room : Nat) {f g : Form} (h : f.Echoes g)
    (scope : FrameId) :
    Eval.Echoes (evalWithin limit room none f scope) (evalWithin limit room none g scope) := by
  induction room generalizing f g scope with
  | zero => exact runs_throw (.refl _)
  | succ room ih =>
      rw [evalWithin_of_holds (Stack.holds_none _), evalWithin_of_holds (Stack.holds_none _)]
      exact echoes_evalForm (fun _ _ h ↦ ih h scope) (fun _ _ inner h ↦ ih h inner) h

end Evaluator

theorem Eval.Echoes.observe_eq {x y : Eval Value} (h : Eval.Echoes x y) {s t : Store}
    (hst : s.Alike Value.Echoes t) : x.observe s = y.observe t := by
  have hends := h s t hst
  have hafter : (x.storeAfter s).Alike Value.Echoes (y.storeAfter t) := h.storeAfter hst
  have hlines : (x.storeAfter s).linesAfter s.output.size =
      (y.storeAfter t).linesAfter t.output.size := by
    rw [Store.linesAfter, Store.linesAfter, hafter.output, hst.output]
  have houtcome : Eval.outcome (x.run s) = Eval.outcome (y.run t) := by
    cases hx : x.run s with
    | ok v s' => cases hy : y.run t with
      | ok w t' =>
          rw [hx, hy] at hends
          have hvw : v.Echoes w := hends.1
          rw [Eval.outcome, Eval.outcome, hvw.shape.kind, hvw.render, hvw.render]
      | error f t' => rw [hx, hy] at hends; exact hends.elim
    | error e s' => cases hy : y.run t with
      | ok w t' => rw [hx, hy] at hends; exact hends.elim
      | error f t' =>
          rw [hx, hy] at hends
          rw [Eval.outcome, Eval.outcome, hends.1.kind, hends.1.message]
  rw [Eval.observe, Eval.observe, hlines, houtcome]

def Outcome.isExhausted : Outcome → Bool
  | .error .stackExhausted _ => true
  | _ => false

theorem Eval.not_exhausted_of_outcome {r : EStateM.Result EvalError Store Value}
    (h : (outcome r).isExhausted = false) : ¬ Exhausted r := by
  rintro ⟨limit, s, rfl⟩
  cases h

/-- The host cuts none of the runs short, if no error shows that one was exhausted. -/
theorem Host.suffices_of_outcomes {limit : Int} {scope : FrameId} {s : Store} {forms : List Form}
    (h : ∀ o ∈ observeForms limit scope s forms, o.outcome.isExhausted = false) :
    Suffices limit scope s forms := by
  induction forms generalizing s with
  | nil => trivial
  | cons form forms ih =>
      obtain ⟨hform, hforms⟩ := List.forall_mem_cons.mp h
      exact ⟨suffices_of_not_exhausted (Eval.not_exhausted_of_outcome hform), ih hforms⟩

theorem observeForms_echo {forms forms' : List Form} (h : List.Forall₂ Form.Echoes forms forms')
    {limit : Int} {scope : FrameId} {s t : Store} (hst : s.Alike Value.Echoes t)
    (hs : Host.Suffices limit scope s forms) (ht : Host.Suffices limit scope t forms') :
    observeForms limit scope s forms = observeForms limit scope t forms' := by
  induction h generalizing s t with
  | nil => rfl
  | @cons form form' forms forms' hform _ ih =>
      obtain ⟨hrun, hs⟩ := hs
      obtain ⟨hrun', ht⟩ := ht
      change (evaluate limit form scope).run s = (evaluateOn limit form scope none).run s at hrun
      change (evaluate limit form' scope).run t =
        (evaluateOn limit form' scope none).run t at hrun'
      have hruns : Eval.Echoes (evaluateOn limit form scope none)
          (evaluateOn limit form' scope none) :=
        Evaluator.echoes_evalWithin limit _ hform scope
      have hafter : ((evaluate limit form scope).storeAfter s).Alike Value.Echoes
          ((evaluate limit form' scope).storeAfter t) := by
        rw [Eval.storeAfter_congr hrun, Eval.storeAfter_congr hrun']
        exact hruns.storeAfter hst
      rw [observeForms, observeForms, Eval.observe_congr hrun, Eval.observe_congr hrun',
        hruns.observe_eq hst, ih hafter hs ht]

end MiniLisp
