import MiniLisp.Operation.Calculate
import MiniLisp.Proofs.ArithmeticReading
import MiniLisp.Proofs.LawfulTexts
import MiniLisp.Repl

/-!
# Calculating and interpreting arithmetic expressions

An arithmetic expression is calculated as its form is evaluated, with three differences: there the
literals are looked up like other names, here closures may be called and levels be used up. In the
stores that sessions reach no literal is bound, so a calculation that succeeds does what the
evaluation does; and an evaluation that succeeds without calling closures does what the calculation
does, if no literal occurs.
-/

namespace MiniLisp

namespace Operation

/-- The name is the operator of an expression in this one. -/
inductive Applies : Operation → String → Prop
  | here (operator : String) (operands : List Operation) :
      Applies (.apply operator operands) operator
  | inside {operator name : String} {operands : List Operation} {e : Operation}
      (mem : e ∈ operands) (h : Applies e name) : Applies (.apply operator operands) name

/-- The name is a symbol or an operator in the expression. -/
inductive Mentions : Operation → String → Prop
  | symbol (name : String) : Mentions (.symbol name) name
  | operator (operator : String) (operands : List Operation) :
      Mentions (.apply operator operands) operator
  | operand {operator name : String} {operands : List Operation} {e : Operation}
      (mem : e ∈ operands) (h : Mentions e name) : Mentions (.apply operator operands) name

theorem Applies.mentions {e : Operation} {name : String} (h : e.Applies name) :
    e.Mentions name := by
  induction h with
  | here operator operands => exact .operator operator operands
  | inside mem _ ih => exact .operand mem ih

theorem evaluateAll_eq_mapM (scope : FrameId) (es : List Operation) :
    evaluateAll scope es = es.mapM (evaluate scope) := by
  induction es with
  | nil => rfl
  | cons e es ih =>
      rw [evaluateAll, ih, List.mapM_cons]

/-- What becomes of the operands, when the operator has been looked up. -/
def applyTo (scope : FrameId) (operands : List Operation) : Value → Eval Value
  | .native op home => operands.mapM (evaluate scope) >>= op.call home
  | v => throw (.notCallable v)

theorem evaluate_apply (scope : FrameId) (operator : String) (operands : List Operation) :
    (apply operator operands).evaluate scope =
      Eval.lookup scope operator >>= applyTo scope operands := by
  rw [evaluate, evaluateAll_eq_mapM]
  congr 1

end Operation

namespace Evaluator

/-- Evaluates with these evaluators in the place of those for the bodies of closures; the evaluator
for a body is told the levels and the stack that are left. -/
def evalCalling (limit : Int) (body : Nat → Stack → Step) : Nat → Stack → Step
  | 0, _, _, _ => throw (.stackExhausted limit)
  | room + 1, stack, form, scope =>
    if stack.holds form.slots then
      evalForm (evalCalling limit body room (stack.below form.heldSlots))
        (body room (stack.below Host.slotsPerLevel)) form scope
    else throw (.stackExhausted limit)

theorem evalCalling_evalWithin (limit : Int) : evalCalling limit (evalWithin limit) =
    evalWithin limit := by
  funext room
  induction room with
  | zero => rfl
  | succ room ih =>
      funext stack form scope
      rw [evalCalling, evalWithin, ih]

theorem evalCalling_of_holds {stack : Stack} {form : Form}
    (h : stack.holds (2 * form.depth + 2)) (limit : Int) (body : Nat → Stack → Step) (room : Nat)
    (scope : FrameId) : evalCalling limit body (room + 1) stack form scope =
      evalForm (evalCalling limit body room (stack.below form.heldSlots))
        (body room (stack.below Host.slotsPerLevel)) form scope := by
  rw [evalCalling, if_pos (Stack.holds_mono h form.slots_le)]

/-- The evaluation of the form from this store does not come to the body of a closure: it is the
same whatever stands in the place of the bodies. No error is ever caught, so a body that was come to
would show in the end. -/
def CallsNoClosure (limit : Int) (form : Form) (scope : FrameId) (s : Store) : Prop :=
  ∀ body, (evalCalling limit body (levels limit) (Host.stackFor limit form) form scope).run s =
    (evaluate limit form scope).run s

end Evaluator

namespace Eval

variable {α β γ : Type} {P : Store → Prop}

/-- From stores with the property, the second computation succeeds wherever the first one does, in
the same way, and the property is kept. -/
def Follows (P : Store → Prop) (x y : Eval α) : Prop :=
  ∀ s a t, P s → x.run s = .ok a t → y.run s = .ok a t ∧ P t

theorem follows_self {x : Eval α} (h : ∀ s, P s → P (x.storeAfter s)) : Follows P x x := by
  intro s a t hs hrun
  have ht := h s hs
  rw [storeAfter_eq_of_ok hrun] at ht
  exact ⟨hrun, ht⟩

/-- No run of the computation succeeds. -/
def Fails (x : Eval α) : Prop := ∀ s a t, x.run s ≠ .ok a t

theorem fails_throw (e : EvalError) : Fails (throw e : Eval α) := by
  intro s a t hrun
  cases hrun

theorem fails_bind (x : Eval α) {f : α → Eval β} (h : ∀ a, Fails (f a)) : Fails (x >>= f) := by
  intro s b u hrun
  rw [EStateM.run_bind] at hrun
  cases hx : x.run s with
  | error e t =>
      rw [hx] at hrun
      cases hrun
  | ok a t =>
      rw [hx] at hrun
      exact h a t b u hrun

theorem Fails.follows {x : Eval α} (h : Fails x) (y : Eval α) : Follows P x y :=
  fun s a t _ hrun ↦ absurd hrun (h s a t)

theorem Follows.bind {x y : Eval α} {f g : α → Eval β} (hxy : Follows P x y)
    (hfg : ∀ a, Follows P (f a) (g a)) : Follows P (x >>= f) (y >>= g) := by
  intro s b u hs hrun
  rw [EStateM.run_bind] at hrun
  cases hx : x.run s with
  | error e t =>
      rw [hx] at hrun
      cases hrun
  | ok a t =>
      rw [hx] at hrun
      obtain ⟨hy, ht⟩ := hxy s a t hs hx
      rw [EStateM.run_bind, hy]
      exact hfg a t b u ht hrun

theorem follows_mapM {f g : γ → Eval α} {xs : List γ} (h : ∀ x ∈ xs, Follows P (f x) (g x)) :
    Follows P (xs.mapM f) (xs.mapM g) := by
  induction xs with
  | nil => exact follows_self fun _ hs ↦ hs
  | cons x xs ih =>
      obtain ⟨hhead, htail⟩ := List.forall_mem_cons.mp h
      rw [List.mapM_cons, List.mapM_cons]
      apply hhead.bind
      intro v
      apply (ih htail).bind
      intro vs
      exact follows_self fun _ hs ↦ hs

end Eval

section Frames

def Store.SameFrames (s t : Store) : Prop := t.frames = s.frames

instance : IsPreorder Store Store.SameFrames where
  refl _ := rfl
  trans _ _ _ hst htu := htu.trans hst

theorem Primitive.sameFrames_call (op : Primitive) (home : FrameId) (args : List Value) :
    Eval.Leaves Store.SameFrames (op.call home args) := by
  intro s
  rw [call]
  split
  · rfl
  · rw [Eval.number]
    split <;> rfl
  · rfl
  · rfl

theorem Operation.sameFrames_evaluate (scope : FrameId) (e : Operation) :
    Eval.Leaves Store.SameFrames (e.evaluate scope) := by
  induction e using Operation.induct with
  | number x => exact Eval.leaves_pure _
  | symbol name => exact Eval.leaves_lookup scope name
  | apply operator operands ih =>
      rw [evaluate_apply]
      apply Eval.Leaves.bind (P := Store.SameFrames) (Eval.leaves_lookup scope operator)
      intro fn
      cases fn with
      | native op home => exact (Eval.leaves_mapM ih).bind (op.sameFrames_call home)
      | boolean | number | string | symbol | nil | list | closure => exact Eval.leaves_throw _

theorem frames_calculate (source : String) (scope : FrameId) (s : Store) :
    ((calculate source scope).storeAfter s).frames = s.frames := by
  rw [calculate]
  split
  · rfl
  · rename_i e _
    have hframes := e.sameFrames_evaluate scope s
    rw [Run.storeAfter, Run.ofEval, EStateM.run_adaptExcept]
    rw [Eval.storeAfter] at hframes
    cases hrun : (e.evaluate scope).run s with
    | ok v t =>
        rw [hrun] at hframes
        exact hframes
    | error x t =>
        rw [hrun] at hframes
        exact hframes

end Frames

/-- Every name stands for itself; the names of the literals do not. -/
def Law.symbols : Law := .naming (fun name ↦ Form.ofName name = .symbol name) fun _ ↦ True

theorem Law.sound_symbols : Law.symbols.Sound :=
  Law.sound_naming fun op ↦ by cases op <;> rfl

/-- No literal is bound in a store that a session reaches. -/
theorem Store.Reachable.obeys_symbols {s : Store} (h : s.Reachable) : s.Obeys Law.symbols := by
  apply Law.sound_symbols.obeys_of_reachable _ h
  intro nesting source
  apply Law.allows_naming (P := fun name ↦ Form.ofName name = .symbol name)
  · rfl
  · exact fun _ _ _ _ hsymbol ↦ hsymbol

theorem Keyword.ofHead?_ofName {name : String} (h : ofName? name = none) :
    ofHead? (Form.ofName name) = none := by
  unfold Form.ofName
  split_ifs
  · rfl
  · rfl
  · rfl
  · exact h

theorem Evaluator.lt_levels {limit : Int} {depth : Nat} (h : (depth : Int) ≤ limit) :
    depth < levels limit := by
  change depth < (limit - 0).toNat + 1
  omega

namespace Operation

open Eval Evaluator

variable {scope : FrameId} {limit : Int}

theorem follows_lookup (body : Nat → Stack → Step) (room : Nat) {stack : Stack}
    (hstack : stack.holds 2) (scope : FrameId) (name : String) :
    Follows (Store.Obeys Law.symbols) (lookup scope name)
      (evalCalling limit body (room + 1) stack (Form.ofName name) scope) := by
  intro s v t hs hrun
  rw [run_lookup] at hrun
  cases hv : s.lookup? scope name with
  | none =>
      rw [hv] at hrun
      cases hrun
  | some w =>
      -- No literal is bound, so a name that is bound is read as itself.
      have hname : Form.ofName name = .symbol name := (hs.lookup hv).1
      rw [hname, evalCalling_of_holds hstack, evalForm, run_lookup]
      rw [hv] at hrun
      cases hrun
      rw [hv]
      exact ⟨rfl, hs⟩

/-- An evaluation that is at its end does not succeed; any other one is that of the form. -/
theorem follows_evalCalling_step {P : Store → Prop} {body : Nat → Stack → Step} {room : Nat}
    {stack : Stack} {form : Form} {y : Eval Value}
    (h : ∀ room below, Follows P
      (evalForm (evalCalling limit body room below) (body room (stack.below Host.slotsPerLevel))
        form scope) y) :
    Follows P (evalCalling limit body room stack form scope) y := by
  cases room with
  | zero => exact (fails_throw _).follows _
  | succ room =>
      rw [evalCalling]
      split
      · exact h room _
      · exact (fails_throw _).follows _

theorem applies_of_mem {operator : String} {operands : List Operation} {P : String → Prop}
    (h : ∀ name, (apply operator operands).Applies name → P name) :
    ∀ e ∈ operands, ∀ name, e.Applies name → P name :=
  fun _ he name hname ↦ h name (.inside he hname)

/-- A calculation that succeeds does what the evaluation with enough levels does on a stack that is
large enough, whatever stands in the place of the bodies of closures. -/
theorem follows_evaluate (limit : Int) (body : Nat → Stack → Step) (scope : FrameId) (e : Operation)
    (hkeyword : ∀ name, e.Applies name → Keyword.ofName? name = none) {room : Nat}
    (hroom : e.toForm.depth < room) {stack : Stack}
    (hstack : stack.holds (2 * e.toForm.depth + 2)) :
    Follows (Store.Obeys Law.symbols) (e.evaluate scope)
      (evalCalling limit body room stack e.toForm scope) := by
  induction e using Operation.induct generalizing room stack with
  | number x =>
      obtain ⟨room, rfl⟩ : ∃ k, room = k + 1 := ⟨room - 1, by omega⟩
      rw [evalCalling_of_holds hstack]
      exact follows_self fun _ hs ↦ hs
  | symbol name =>
      obtain ⟨room, rfl⟩ : ∃ k, room = k + 1 := ⟨room - 1, by omega⟩
      exact follows_lookup body room (Stack.holds_mono hstack (by omega)) scope name
  | apply operator operands ih =>
      rw [evaluate_apply]
      have hitem : ∀ item ∈ Form.ofName operator :: operands.map toForm,
          item.depth < (apply operator operands).toForm.depth := by
        rw [toForm_apply]
        exact fun item hmem ↦ Form.depth_lt_of_mem hmem
      have hoperator := hitem _ List.mem_cons_self
      obtain ⟨room, rfl⟩ : ∃ k, room = k + 2 := ⟨room - 2, by omega⟩
      rw [evalCalling_of_holds hstack]
      have hbelow : ∀ item ∈ Form.ofName operator :: operands.map toForm,
          (stack.below (apply operator operands).toForm.heldSlots).holds (2 * item.depth + 2) :=
        fun item hmem ↦ Form.holds_below_of_depth_lt hstack (hitem item hmem)
      generalize stack.below (apply operator operands).toForm.heldSlots = inner at hbelow
      rw [toForm_apply, evalForm,
        Keyword.ofHead?_ofName (hkeyword operator (.here operator operands))]
      have hlookup : inner.holds 2 :=
        Stack.holds_mono (hbelow _ List.mem_cons_self) (by omega)
      -- Both look the operator up before the operands.
      apply (follows_lookup body room hlookup scope operator).bind
      intro fn
      cases fn with
      | native op home =>
          simp only [applyTo, evalAll, List.mapM_map]
          apply Follows.bind
          · apply follows_mapM
            intro e he
            have hmem : e.toForm ∈ Form.ofName operator :: operands.map toForm :=
              List.mem_cons_of_mem _ (List.mem_map_of_mem he)
            have hdepth := hitem e.toForm hmem
            exact ih e he (applies_of_mem hkeyword e he) (by omega) (hbelow e.toForm hmem)
          · intro args
            apply follows_self
            intro s hs
            exact hs.of_frames_eq (op.sameFrames_call home args s)
      | boolean | number | string | symbol | nil | list | closure =>
          exact (fails_throw _).follows _

theorem run_evaluate_eq_ok (e : Operation)
    (hkeyword : ∀ name, e.Applies name → Keyword.ofName? name = none)
    (hdepth : (e.toForm.depth : Int) ≤ limit) {s t : Store} {v : Value} (hs : s.Obeys Law.symbols)
    (hrun : (e.evaluate scope).run s = .ok v t) :
    (MiniLisp.evaluate limit e.toForm scope).run s = .ok v t := by
  have hfollows := e.follows_evaluate limit (evalWithin limit) scope hkeyword (lt_levels hdepth)
    (Host.holds_stackFor limit e.toForm)
  rw [evalCalling_evalWithin] at hfollows
  exact (hfollows s v t hs hrun).1

/-- Where a calculation succeeds, the evaluation calls no closure. -/
theorem callsNoClosure_of_run (e : Operation)
    (hkeyword : ∀ name, e.Applies name → Keyword.ofName? name = none)
    (hdepth : (e.toForm.depth : Int) ≤ limit) {s t : Store} {v : Value} (hs : s.Obeys Law.symbols)
    (hrun : (e.evaluate scope).run s = .ok v t) : CallsNoClosure limit e.toForm scope s := by
  intro body
  have hfollows := e.follows_evaluate limit body scope hkeyword (lt_levels hdepth)
    (Host.holds_stackFor limit e.toForm)
  rw [(hfollows s v t hs hrun).1, e.run_evaluate_eq_ok hkeyword hdepth hs hrun]

/-- An evaluation that succeeds without the bodies of closures does what the calculation does. -/
theorem follows_evalCalling (e : Operation)
    (hkeyword : ∀ name, e.Applies name → Keyword.ofName? name = none)
    (hsymbol : ∀ name, e.Mentions name → Form.ofName name = .symbol name) (room : Nat)
    (stack : Stack) :
    Follows (fun _ ↦ True)
      (evalCalling limit (fun _ _ _ _ ↦ throw (.notCallable .nil)) room stack e.toForm scope)
      (e.evaluate scope) := by
  induction e using Operation.induct generalizing room stack with
  | number x => exact follows_evalCalling_step fun _ _ ↦ follows_self fun _ hs ↦ hs
  | symbol name =>
      rw [toForm, hsymbol name (.symbol name)]
      exact follows_evalCalling_step fun _ _ ↦ follows_self fun _ hs ↦ hs
  | apply operator operands ih =>
      rw [toForm_apply, evaluate_apply, hsymbol operator (.operator operator operands)]
      apply follows_evalCalling_step
      intro room stack
      have hhead := Keyword.ofHead?_ofName (hkeyword operator (.here operator operands))
      rw [hsymbol operator (.operator operator operands)] at hhead
      rw [evalForm, hhead]
      apply Follows.bind
      · exact follows_evalCalling_step fun _ _ ↦ follows_self fun _ hs ↦ hs
      · intro fn
        cases fn with
        | native op home =>
            simp only [applyTo, evalAll, List.mapM_map]
            apply Follows.bind
            · apply follows_mapM
              intro e he
              exact ih e he (applies_of_mem hkeyword e he)
                (fun name hname ↦ hsymbol name (.operand he hname)) room stack
            · exact fun args ↦ follows_self fun _ hs ↦ hs
        | closure id params form inner =>
            -- What stands in the place of its body fails, and so would a wrong argument count.
            apply Fails.follows
            exact fails_bind _ fun args ↦ fails_bind _ fun _ ↦ fails_throw _
        | boolean | number | string | symbol | nil | list =>
            apply Fails.follows
            exact fails_bind _ fun args ↦ fails_throw _

end Operation

section Texts

variable {source : String} {tokens : List PlacedToken} {form : Form} {limits : Limits}
  {scope : FrameId} {s t : Store} {v : Value}

theorem exists_lex_of_read {e : Operation} (h : Operation.read (lex source) = .ok e) :
    ∃ tokens, lex source = ⟨tokens, none⟩ ∧
      Expression (tokens.map PlacedToken.token) e.toForm := by
  generalize lex source = lexed at h ⊢
  obtain ⟨tokens, error⟩ := lexed
  cases error with
  | none => exact ⟨tokens, rfl, Operation.read_eq_ok_iff.mp h⟩
  | some x =>
      rw [Operation.read, Operation.readFrom_some] at h
      cases h

theorem run_ofEval_eq_ok_iff {x : Eval Value} :
    (Run.ofEval x).run s = .ok v t ↔ x.run s = .ok v t := by
  rw [Run.ofEval, EStateM.run_adaptExcept]
  cases x.run s <;> simp

theorem run_single_eq_ok_iff {limit : Int} {rest : TokenStream} :
    (runBatch limit scope ⟨[form], none, rest⟩).run s = .ok v t ↔
      (evaluate limit form scope).run s = .ok v t := by
  have hbatch : runBatch limit scope ⟨[form], none, rest⟩ =
      Run.ofEval (evaluate limit form scope >>= pure) >>= pure := rfl
  rw [hbatch, bind_pure, bind_pure]
  exact run_ofEval_eq_ok_iff

/-- A batch whose tokens end in an error has no value. -/
theorem run_failing_ne_ok {limit : Int} {forms : List Form} {x : ReadError} {rest : TokenStream} :
    (runBatch limit scope ⟨forms, some x, rest⟩).run s ≠ .ok v t := by
  intro hrun
  rw [runBatch_eq, EStateM.run_bind] at hrun
  cases hforms : (Run.ofEval (evaluateForms limit scope .nil forms)).run s with
  | error e u =>
      rw [hforms] at hrun
      cases hrun
  | ok w u =>
      rw [hforms] at hrun
      cases hrun

/-- A text that is one expression runs to a value exactly if its form can be read and evaluates to
that value. -/
theorem run_interpret_eq_ok_iff (hlex : lex source = ⟨tokens, none⟩)
    (hform : Expression (tokens.map PlacedToken.token) form) :
    (interpret limits source scope).run s = .ok v t ↔
      (form.depth : Int) ≤ limits.nesting ∧ (evaluate limits.depth form scope).run s = .ok v t := by
  have haccepts (limit : Int) (hdepth : (form.depth : Int) ≤ limit) :
      Accepts limit tokens form [] :=
    ⟨tokens, (List.append_nil tokens).symm, hform, hdepth⟩
  have hwhole : AcceptsAll form.depth tokens [form] [] :=
    .cons (haccepts form.depth (Int.le_refl _)) (.nil [])
  rw [interpret_of_lex hlex]
  constructor
  · intro hrun
    obtain ⟨forms, left, error, rest, hall, hread, hend, -⟩ :=
      TokenStream.exists_readForms limits.nesting tokens
    rw [hread] at hrun
    cases error with
    | some x =>
        exact absurd hrun run_failing_ne_ok
    | none =>
        obtain rfl := hend rfl
        have hprefix : forms <+: [form] := hwhole.isPrefix hall
        have hforms : forms = [form] := hprefix.eq_of_length_le (hall.isPrefix hwhole).length_le
        subst hforms
        cases hall with
        | cons hform _ =>
            obtain ⟨_, -, -, hdepth⟩ := hform
            exact ⟨hdepth, run_single_eq_ok_iff.mp hrun⟩
  · rintro ⟨hdepth, hrun⟩
    have hread := TokenStream.readForm_of_accepts (haccepts limits.nesting hdepth) none
    rw [TokenStream.readForms_single hread]
    exact run_single_eq_ok_iff.mpr hrun

end Texts

/-- The expression of `(not (= + (log +)))`. -/
def Operation.loggedSum : Operation :=
  .apply "not" [.apply "=" [.symbol "+", .apply "log" [.symbol "+"]]]

theorem Operation.mem_of_mentions_loggedSum {name : String} (h : loggedSum.Mentions name) :
    name ∈ ["not", "=", "+", "log"] := by
  cases h with
  | operator => decide
  | operand mem h =>
      obtain rfl := List.mem_singleton.mp mem
      cases h with
      | operator => decide
      | operand mem h =>
          rcases List.mem_pair.mp mem with rfl | rfl
          · cases h
            decide
          · cases h with
            | operator => decide
            | operand mem h =>
                obtain rfl := List.mem_singleton.mp mem
                cases h
                decide

end MiniLisp
