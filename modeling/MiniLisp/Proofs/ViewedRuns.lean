import MiniLisp.Interpret
import MiniLisp.Proofs.ViewedStores

/-!
# Runs in a view

From stores of which one is seen as the other, a form that uses no hidden name is evaluated alike in
frames that correspond: both runs end with values that correspond, or with errors of one message, and
the stores that they leave are seen alike again.
-/

namespace MiniLisp

namespace View

variable {α β γ δ : Type} {V : View} {n : Extent}

/-- The ends of two runs that began when that much had been given out. -/
def Ends (V : View) (result : Extent → α → β → Prop) (n : Extent) :
    EStateM.Result EvalError Store α → EStateM.Result EvalError Store β → Prop
  | .ok a s, .ok b t => V.Shows s t ∧ n ≤ s.extent ∧ result s.extent a b
  | .error e s, .error e' t => V.Shows s t ∧ n ≤ s.extent ∧ e.Alike e'
  | _, _ => False

/-- The computations end alike in all stores that are seen alike, once that much is given out. -/
def Runs (V : View) (n : Extent) (result : Extent → α → β → Prop) (x : Eval α) (y : Eval β) :
    Prop :=
  ∀ s t, V.Shows s t → n ≤ s.extent → V.Ends result s.extent (x.run s) (y.run t)

abbrev Yields (V : View) (n : Extent) (x y : Eval Value) : Prop := V.Runs n V.Sees x y

/-- The forms that are allowed are evaluated alike, in a frame and in the one it is seen as. -/
def Evaluates (V : View) (step : Evaluator.Step) : Prop :=
  ∀ (form : Form) (f : FrameId) (n : Extent), V.Allows form → V.live f → f < n.frames →
    V.Yields n (step form f) (step form (V.frame f))

section Steps

variable {result : Extent → α → β → Prop} {result' : Extent → γ → δ → Prop}

theorem Ends.of_le {r : EStateM.Result EvalError Store α} {r' : EStateM.Result EvalError Store β}
    {n m : Extent} (h : V.Ends result m r r') (hle : n ≤ m) : V.Ends result n r r' := by
  cases r with
  | ok a s => cases r' with
    | ok b t => exact ⟨h.1, le_trans hle h.2.1, h.2.2⟩
    | error e t => exact h.elim
  | error e s => cases r' with
    | ok b t => exact h.elim
    | error e' t => exact ⟨h.1, le_trans hle h.2.1, h.2.2⟩

theorem runs_pure {a : α} {b : β} (h : ∀ m, n ≤ m → result m a b) :
    V.Runs n result (pure a) (pure b) :=
  fun s _ hst hn ↦ ⟨hst, le_refl _, h s.extent hn⟩

theorem runs_throw {e e' : EvalError} (h : e.Alike e') : V.Runs n result (throw e) (throw e') :=
  fun _ _ hst _ ↦ ⟨hst, le_refl _, h⟩

theorem Runs.bind {x : Eval α} {y : Eval β} {f : α → Eval γ} {g : β → Eval δ}
    (hxy : V.Runs n result x y)
    (hfg : ∀ a b m, n ≤ m → result m a b → V.Runs m result' (f a) (g b)) :
    V.Runs n result' (x >>= f) (y >>= g) := by
  intro s t hst hn
  have hends := hxy s t hst hn
  rw [EStateM.run_bind, EStateM.run_bind]
  cases hx : x.run s with
  | ok a s' =>
      cases hy : y.run t with
      | ok b t' =>
          rw [hx, hy] at hends
          obtain ⟨hst', hle, hab⟩ := hends
          exact (hfg a b s'.extent (le_trans hn hle) hab s' t' hst' (le_refl _)).of_le hle
      | error e t' => rw [hx, hy] at hends; exact hends.elim
  | error e s' =>
      cases hy : y.run t with
      | ok b t' => rw [hx, hy] at hends; exact hends.elim
      | error e' t' => rw [hx, hy] at hends; exact hends

theorem runs_mapM {f g : α → Eval Value} {xs : List α}
    (hfg : ∀ x ∈ xs, ∀ m, n ≤ m → V.Yields m (f x) (g x)) :
    V.Runs n (fun m vs ws ↦ List.Forall₂ (V.Sees m) vs ws) (xs.mapM f) (xs.mapM g) := by
  induction xs generalizing n with
  | nil => exact runs_pure fun _ _ ↦ .nil
  | cons x xs ih =>
      obtain ⟨hhead, htail⟩ := List.forall_mem_cons.mp hfg
      rw [List.mapM_cons, List.mapM_cons]
      apply (hhead n (le_refl n)).bind
      intro v w m hm hvw
      apply (ih fun y hy k hk ↦ htail y hy k (le_trans hm hk)).bind
      intro vs ws k hk hvws
      -- More may have been given out meanwhile, and the first values correspond among it too.
      apply runs_pure
      intro l hl
      exact .cons (hvw.mono (le_trans hk hl)) (hvws.imp fun _ _ h ↦ h.mono hl)

theorem yields_pure {v w : Value} (h : V.Sees n v w) : V.Yields n (pure v) (pure w) :=
  runs_pure fun _ hm ↦ h.mono hm

theorem yields_toValue (form : Form) : V.Yields n (pure form.toValue) (pure form.toValue) :=
  yields_pure (form.sees_toValue V n)

end Steps

section Stores

open Eval

theorem yields_lookup {f : FrameId} (hlive : V.live f) (hf : f < n.frames) {name : String}
    (hname : ¬ V.hidden name) : V.Yields n (lookup f name) (lookup (V.frame f) name) := by
  intro s t hst hn
  have hfound := hst.lookup? hlive (Nat.lt_of_lt_of_le hf hn.1) hname
  rw [run_lookup, run_lookup]
  generalize s.lookup? f name = x at hfound
  generalize t.lookup? (V.frame f) name = y at hfound
  cases hfound with
  | none => exact ⟨hst, le_refl _, .refl _⟩
  | some hvw => exact ⟨hst, le_refl _, hvw⟩

theorem runs_define (f : FrameId) (name : String) {v w : Value} (hvw : V.Sees n v w) :
    V.Runs n (fun _ _ _ ↦ True) (define f name v) (define (V.frame f) name w) :=
  fun s _ hst hn ↦
    ⟨hst.define f name (hvw.mono hn), le_of_eq (s.extent_define f name v).symm, trivial⟩

theorem runs_freshId :
    V.Runs n (fun m i j ↦ i < m.ids ∧ V.identity i = j) freshId freshId :=
  fun s _ hst _ ↦ ⟨hst.freshId, ⟨Nat.le_refl _, Nat.le_succ _⟩, Nat.lt_succ_self s.nextId,
    hst.nextId 0⟩

theorem yields_number (x : Double) : V.Yields n (number x) (number x) := by
  rw [number]
  split
  · apply runs_freshId.bind
    rintro i _ m _ ⟨hi, rfl⟩
    exact yields_pure (.number x (.inr hi))
  · exact yields_toValue (.number x)

theorem runs_write (home : FrameId) (text : String) :
    V.Runs n (fun _ _ _ ↦ True) (write home text) (write home text) :=
  fun _ _ hst _ ↦ ⟨hst.write home text, le_refl _, trivial⟩

theorem runs_extend {f : FrameId} (hlive : V.live f) (hf : f < n.frames) (names : List String)
    {vs ws : List Value} (hvws : List.Forall₂ (V.Sees n) vs ws) :
    V.Runs n (fun m i j ↦ (V.live i ∧ i < m.frames) ∧ V.frame i = j)
      (extend f (names.zip vs)) (extend (V.frame f) (names.zip ws)) := by
  intro s t hst hn
  have hframe := hst.newFrame hlive (Nat.lt_of_lt_of_le hf hn.1)
  have hle := s.le_extent_newFrame (some f)
  have hnext : V.frame s.frames.size = t.frames.size := hst.nextFrame 0
  have hall := hframe.defineAll s.frames.size names rfl
    (hvws.imp fun _ _ hvw ↦ hvw.mono (le_trans hn hle))
  rw [hnext] at hall
  have hextent : ((s.newFrame (some f)).2.defineAll s.frames.size (names.zip vs)).extent =
      ⟨s.frames.size + 1, s.nextId⟩ := by rw [Store.extent_defineAll, Store.extent_newFrame]
  refine ⟨hall, ?_, ⟨hst.live _ (Nat.le_refl _), ?_⟩, hnext⟩
  · rw [Store.extent_defineAll]
    exact hle
  · exact Nat.lt_of_lt_of_eq (Nat.lt_succ_self _) (congrArg Extent.frames hextent).symm

/-- Native functions find what they answer in the values alone. -/
theorem observed (V : View) (n : Extent) :
    (Correspondence.mk Eq (V.Sees n) V.Shows EvalError.Alike).Observed where
  respected := Double.respected_eq
  shape h := h.shape
  boolean b := .boolean b
  nil := .nil
  list h := .list h
  text h := h.render .person
  equal h h' := h.equal h'
  arity _ _ _ := .refl _
  mismatch callee needed h := EvalError.alike_typeMismatch (h.render .machine) callee needed
  zero _ := .refl _

theorem yields_call (op : Primitive) (home : FrameId) {vs ws : List Value}
    (h : List.Forall₂ (V.Sees n) vs ws) : V.Yields n (op.call home vs) (op.call home ws) := by
  have hreply := (V.observed n).reply op h
  rw [Primitive.call, Primitive.call]
  generalize op.reply vs = r at hreply
  generalize op.reply ws = r' at hreply
  cases r with
  | error e => cases r' with
    | error e' => exact runs_throw hreply
    | ok b => exact hreply.elim
  | ok a => cases r' with
    | error e' => exact hreply.elim
    | ok b =>
        cases hreply with
        | known h => exact yields_pure h
        | computed h =>
            obtain rfl := h
            exact yields_number _
        | line text => exact (runs_write home text).bind fun _ _ _ _ _ ↦ yields_pure .nil

end Stores

section Evaluation

open Evaluator

theorem runs_enter {f : FrameId} (hlive : V.live f) (hf : f < n.frames) (params : List String)
    (body : Form) {vs ws : List Value} (hvws : List.Forall₂ (V.Sees n) vs ws) :
    V.Runs n (fun m i j ↦ (V.live i ∧ i < m.frames) ∧ V.frame i = j)
      (enter params body f vs) (enter params body (V.frame f) ws) := by
  rw [enter, enter, hvws.length_eq]
  split
  · exact runs_extend hlive hf params hvws
  · exact runs_throw (.refl _)

theorem yields_apply {body : Step} (hbody : V.Evaluates body) {fn fn' : Value}
    {args args' : List Value} (hfn : V.Sees n fn fn')
    (hargs : List.Forall₂ (V.Sees n) args args') :
    V.Yields n (apply body fn args) (apply body fn' args') := by
  have herror : (EvalError.notCallable fn).Alike (.notCallable fn') :=
    EvalError.alike_notCallable (hfn.render .machine)
  cases hfn with
  | native op home => exact yields_call op home hargs
  | @closure id params form f hid hform hf hlive =>
      apply (runs_enter hlive hf params form hargs).bind
      rintro inner _ m _ ⟨⟨hinner, hlt⟩, rfl⟩
      exact hbody form inner m hform hinner hlt
  | boolean | number | string | symbol | nil | list => exact runs_throw herror

theorem yields_evalQuote (operands : List Form) :
    V.Yields n (evalQuote operands) (evalQuote operands) := by
  rw [evalQuote.eq_def]
  split
  · exact yields_toValue _
  · exact runs_throw (.refl _)

variable {f : FrameId} (hlive : V.live f) (hf : f < n.frames)

include hlive hf

theorem yields_evalLambda {operands : List Form}
    (h : V.Allows (.list (.symbol Keyword.lambda.name :: operands))) :
    V.Yields n (evalLambda f operands) (evalLambda (V.frame f) operands) := by
  rw [evalLambda.eq_def, evalLambda.eq_def]
  split
  next params body =>
    cases paramNames params with
    | error e => exact runs_throw (.refl e)
    | ok names =>
        apply runs_freshId.bind
        rintro id _ m hm ⟨hid, rfl⟩
        exact yields_pure
          (.closure names hid (h.part (.body params body)) (Nat.lt_of_lt_of_le hf hm.1) hlive)
  · exact runs_throw (.refl _)
  · exact runs_throw (.refl _)

section Operands

variable {operand : Step} (hoperand : V.Evaluates operand)

include hoperand

theorem yields_item {whole item : Form} (h : V.Allows whole) (hpart : item.Part whole)
    {m : Extent} (hm : n ≤ m) : V.Yields m (operand item f) (operand item (V.frame f)) :=
  hoperand item f m (h.part hpart) hlive (Nat.lt_of_lt_of_le hf hm.1)

theorem runs_evalAll {whole : Form} (h : V.Allows whole) {forms : List Form}
    (hpart : ∀ form ∈ forms, form.Part whole) :
    V.Runs n (fun m vs ws ↦ List.Forall₂ (V.Sees m) vs ws) (evalAll operand f forms)
      (evalAll operand (V.frame f) forms) :=
  runs_mapM fun form hform _ hm ↦ yields_item hlive hf hoperand h (hpart form hform) hm

theorem yields_evalDefine {operands : List Form}
    (h : V.Allows (.list (.symbol Keyword.define.name :: operands))) :
    V.Yields n (evalDefine operand f operands) (evalDefine operand (V.frame f) operands) := by
  rw [evalDefine.eq_def, evalDefine.eq_def]
  split
  next name form =>
    apply (yields_item hlive hf hoperand h (.value name form) (le_refl n)).bind
    intro v w m _ hvw
    apply (runs_define f name hvw).bind
    intro _ _ k hk _
    exact yields_pure (hvw.mono hk)
  · exact runs_throw (.refl _)
  · exact runs_throw (.refl _)

theorem yields_evalConditional {operands : List Form}
    (h : V.Allows (.list (.symbol Keyword.conditional.name :: operands))) :
    V.Yields n (evalConditional operand f operands)
      (evalConditional operand (V.frame f) operands) := by
  rw [evalConditional.eq_def, evalConditional.eq_def]
  split
  next test yes no =>
    apply (yields_item hlive hf hoperand h (.choice (by simp)) (le_refl n)).bind
    intro v w m hm hvw
    rw [hvw.shape.isTruthy]
    split
    · exact yields_item hlive hf hoperand h (.choice (by simp)) hm
    · exact yields_item hlive hf hoperand h (.choice (by simp)) hm
  · exact runs_throw (.refl _)

theorem yields_evalKeyword {operands : List Form} (k : Keyword)
    (h : V.Allows (.list (.symbol k.name :: operands))) :
    V.Yields n (evalKeyword operand f operands k) (evalKeyword operand (V.frame f) operands k) := by
  cases k with
  | quote => exact yields_evalQuote operands
  | lambda => exact yields_evalLambda hlive hf h
  | list =>
      apply (runs_evalAll hlive hf hoperand h fun form hform ↦ .item hform).bind
      intro vs ws m _ hvws
      exact yields_pure (.list hvws)
  | define => exact yields_evalDefine hlive hf hoperand h
  | conditional => exact yields_evalConditional hlive hf hoperand h

theorem yields_evalForm {body : Step} (hbody : V.Evaluates body) {form : Form}
    (h : V.Allows form) :
    V.Yields n (evalForm operand body form f) (evalForm operand body form (V.frame f)) := by
  cases form with
  | number x => exact yields_toValue (.number x)
  | string s => exact yields_pure (.string s)
  | boolean b => exact yields_pure (.boolean b)
  | nil => exact yields_pure .nil
  | symbol name => exact yields_lookup hlive hf fun hname ↦ h name hname (.symbol name)
  | quote inner => exact yields_toValue inner
  | list items =>
      cases items with
      | nil => exact yields_pure (.list .nil)
      | cons head operands =>
          rw [evalForm, evalForm]
          cases hhead : Keyword.ofHead? head with
          | some k =>
              rw [Keyword.ofHead?_eq_some_iff.mp hhead] at h
              exact yields_evalKeyword hlive hf hoperand k h
          | none =>
              have hitem : ∀ item ∈ head :: operands, item.Part (.list (head :: operands)) :=
                fun item hmem ↦ .call hhead hmem
              obtain ⟨hfirst, hrest⟩ := List.forall_mem_cons.mp hitem
              apply (yields_item hlive hf hoperand h hfirst (le_refl n)).bind
              intro fn fn' m hm hfn
              apply (runs_evalAll hlive (Nat.lt_of_lt_of_le hf hm.1) hoperand h hrest).bind
              intro args args' k hk hargs
              exact yields_apply hbody (hfn.mono hk) hargs

end Operands

end Evaluation

/-- The runs use up their levels and their stacks alike. -/
theorem evaluates_evalWithin (V : View) (limit : Int) (room : Nat) (stack : Stack) :
    V.Evaluates (Evaluator.evalWithin limit room stack) := by
  refine Evaluator.evalWithin_induction
    (P := fun form run ↦ ∀ f n, V.Allows form → V.live f → f < n.frames →
      V.Yields n (run f) (run (V.frame f))) limit
    (fun _ _ _ _ _ _ ↦ runs_throw (.refl _)) ?_ room stack
  intro operand body hoperand hbody form f n h hlive hf
  exact yields_evalForm hlive hf hoperand hbody h

theorem evaluates_evaluate (V : View) (limit : Int) : V.Evaluates (evaluate limit) :=
  fun form f n h hlive hf ↦ V.evaluates_evalWithin limit _ _ form f n h hlive hf

theorem yields_evaluateForms (limit : Int) {f : FrameId} (hlive : V.live f) (hf : f < n.frames)
    {last last' : Value} (hlast : V.Sees n last last') {forms : List Form}
    (hforms : ∀ form ∈ forms, V.Allows form) :
    V.Yields n (evaluateForms limit f last forms) (evaluateForms limit (V.frame f) last' forms) := by
  induction forms generalizing n last last' with
  | nil => exact yields_pure hlast
  | cons form forms ih =>
      obtain ⟨hform, hforms⟩ := List.forall_mem_cons.mp hforms
      apply (V.evaluates_evaluate limit form f n hform hlive hf).bind
      intro v w m hm hvw
      exact ih (Nat.lt_of_lt_of_le hf hm.1) hvw hforms

section Observation

variable {s t : Store}

theorem Runs.storeAfter {result : Extent → α → β → Prop} {x : Eval α} {y : Eval β}
    (h : V.Runs n result x y) (hst : V.Shows s t) (hn : n ≤ s.extent) :
    V.Shows (x.storeAfter s) (y.storeAfter t) ∧ s.extent ≤ (x.storeAfter s).extent := by
  have hends := h s t hst hn
  rw [Eval.storeAfter, Eval.storeAfter]
  cases hx : x.run s <;> cases hy : y.run t <;> rw [hx, hy] at hends
  · exact ⟨hends.1, hends.2.1⟩
  · exact hends.elim
  · exact hends.elim
  · exact ⟨hends.1, hends.2.1⟩

/-- What either run wrote since two moments that are seen alike is the same. -/
theorem Shows.linesAfter {s' t' : Store} (h : V.Shows s t) (h' : V.Shows s' t') :
    s'.linesAfter s.output.size = t'.linesAfter t.output.size := by
  obtain ⟨more, hs, ht⟩ := h.output
  obtain ⟨more', hs', ht'⟩ := h'.output
  rw [Store.linesAfter, Store.linesAfter, ← Array.length_toList, ← Array.length_toList, hs, ht,
    hs', ht', List.length_append, List.length_append, ← List.drop_drop, ← List.drop_drop,
    List.drop_left, List.drop_left]

theorem observe_eq {x y : Eval Value} (h : V.Yields n x y) (hst : V.Shows s t)
    (hn : n ≤ s.extent) : x.observe s = y.observe t := by
  have hends := h s t hst hn
  have hlines := hst.linesAfter (h.storeAfter hst hn).1
  have houtcome : Eval.outcome (x.run s) = Eval.outcome (y.run t) := by
    cases hx : x.run s with
    | ok v s' => cases hy : y.run t with
      | ok w t' =>
          rw [hx, hy] at hends
          obtain ⟨-, -, hvw⟩ := hends
          rw [Eval.outcome, Eval.outcome, hvw.shape.kind, hvw.render, hvw.render]
      | error e t' => rw [hx, hy] at hends; exact hends.elim
    | error e s' => cases hy : y.run t with
      | ok w t' => rw [hx, hy] at hends; exact hends.elim
      | error e' t' =>
          rw [hx, hy] at hends
          obtain ⟨-, -, he⟩ := hends
          rw [Eval.outcome, Eval.outcome, he.kind, he.message]
  rw [Eval.observe, Eval.observe, hlines, houtcome]

theorem observeForms_eq (limit : Int) {f : FrameId} (hlive : V.live f) (hst : V.Shows s t)
    (hf : f < s.frames.size) {forms : List Form} (hforms : ∀ form ∈ forms, V.Allows form) :
    observeForms limit f s forms = observeForms limit (V.frame f) t forms := by
  induction forms generalizing s t with
  | nil => rfl
  | cons form forms ih =>
      obtain ⟨hform, hforms⟩ := List.forall_mem_cons.mp hforms
      have hyields := V.evaluates_evaluate limit form f s.extent hform hlive hf
      obtain ⟨hafter, hle⟩ := hyields.storeAfter hst (le_refl _)
      rw [observeForms, observeForms, observe_eq hyields hst (le_refl _),
        ih hafter (Nat.lt_of_lt_of_le hf hle.1) hforms]

end Observation

end View

end MiniLisp
