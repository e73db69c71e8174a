import MiniLisp.Proofs.Runs

/-!
# What a session shows

Of a value, a session shows its kind and its two texts, of an error its kind and its message, and of
a run also the lines that it wrote. Frames, identities and the bodies of closures are not shown.
-/

namespace MiniLisp

inductive Value.Kind where
  | boolean | number | string | symbol | nil | list | closure | native
deriving DecidableEq

def Value.kind : Value → Kind
  | .boolean _ => .boolean
  | .number _ _ => .number
  | .string _ => .string
  | .symbol _ => .symbol
  | .nil => .nil
  | .list _ => .list
  | .closure _ _ _ _ => .closure
  | .native _ _ => .native

inductive EvalError.Kind where
  | unboundSymbol | wrongArity | typeMismatch | notCallable | stackExhausted | divisionByZero
deriving DecidableEq

def EvalError.kind : EvalError → Kind
  | .unboundSymbol _ => .unboundSymbol
  | .wrongArity _ _ _ => .wrongArity
  | .typeMismatch _ _ _ => .typeMismatch
  | .notCallable _ => .notCallable
  | .stackExhausted _ => .stackExhausted
  | .divisionByZero _ => .divisionByZero

inductive Outcome where
  | value (kind : Value.Kind) (machine person : String)
  | error (kind : EvalError.Kind) (message : String)
deriving DecidableEq

structure Observation where
  lines : List String
  outcome : Outcome
deriving DecidableEq

namespace Eval

def outcome : EStateM.Result EvalError Store Value → Outcome
  | .ok v _ => .value v.kind (v.render .machine) (v.render .person)
  | .error e _ => .error e.kind e.message

def observe (x : Eval Value) (s : Store) : Observation where
  lines := (x.storeAfter s).linesAfter s.output.size
  outcome := outcome (x.run s)

theorem observe_congr {x y : Eval Value} {s : Store} (h : x.run s = y.run s) :
    x.observe s = y.observe s := by
  rw [observe, observe, storeAfter_congr h, h]

end Eval

namespace Value

theorem induct {P : Value → Prop} (boolean : ∀ b, P (.boolean b))
    (number : ∀ x mark, P (.number x mark)) (string : ∀ s, P (.string s))
    (symbol : ∀ name, P (.symbol name)) (nil : P .nil)
    (list : ∀ items, (∀ item ∈ items, P item) → P (.list items))
    (closure : ∀ id params body scope, P (.closure id params body scope))
    (native : ∀ op home, P (.native op home)) (v : Value) : P v :=
  @Value.rec P (fun items ↦ ∀ item ∈ items, P item) boolean number string symbol nil list closure
    native (fun _ h ↦ absurd h List.not_mem_nil)
    (fun _ _ hhead htail _ h ↦ by
      rcases List.mem_cons.mp h with rfl | h
      · exact hhead
      · exact htail _ h) v

theorem renderItems_eq_map (style : Style) (items : List Value) :
    renderItems style items = items.map (render style) := by
  induction items with
  | nil => rfl
  | cons item items ih => rw [renderItems, ih, List.map_cons]

end Value

namespace EvalError

/-- The errors are of one kind and have one message. -/
structure Alike (e f : EvalError) : Prop where
  kind : e.kind = f.kind
  message : e.message = f.message

theorem Alike.refl (e : EvalError) : e.Alike e := ⟨rfl, rfl⟩

variable {v w : Value}

theorem alike_typeMismatch (h : v.text = w.text) (callee : String) (needed : Needed) :
    (typeMismatch callee needed v).Alike (typeMismatch callee needed w) where
  kind := rfl
  message := congrArg (fun text ↦ callee ++ ": expected " ++ needed.describe ++ ", got " ++ text) h

theorem alike_notCallable (h : v.text = w.text) : (notCallable v).Alike (notCallable w) where
  kind := rfl
  message := congrArg (fun text ↦ "not callable: " ++ text) h

end EvalError

/-- What the forms show that are evaluated in turn, each in the store that the one before it left,
whether that one failed or not. -/
def observeForms (limit : Int) (scope : FrameId) (s : Store) : List Form → List Observation
  | [] => []
  | form :: forms =>
    let x := evaluate limit form scope
    x.observe s :: observeForms limit scope (x.storeAfter s) forms

end MiniLisp
