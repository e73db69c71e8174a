import MiniLisp.Proofs.TwoRuns

/-!
# Native functions on arguments that correspond

A native function sees of a value its kind, the number or the items in it, its text, and which
values it equals. Arguments that correspond in all this are answered alike.
-/

namespace MiniLisp

/-- What native functions compute from numbers that correspond corresponds. -/
structure Double.Respected (number : Double → Double → Prop) : Prop where
  refl : ∀ x, number x x
  add : ∀ {x y x' y'}, number x y → number x' y' → number (x + x') (y + y')
  sub : ∀ {x y x' y'}, number x y → number x' y' → number (x - x') (y - y')
  mul : ∀ {x y x' y'}, number x y → number x' y' → number (x * x') (y * y')
  div : ∀ {x y x' y'}, number x y → number x' y' → x'.isZero = false → number (x / x') (y / y')
  neg : ∀ {x y}, number x y → number (-x) (-y)
  isZero : ∀ {x y}, number x y → x.isZero = y.isZero
  less : ∀ {x y x' y'}, number x y → number x' y' → x.less x' = y.less y'
  lessEq : ∀ {x y x' y'}, number x y → number x' y' → x.lessEq x' = y.lessEq y'
  whole? : ∀ {x y}, number x y → x.whole? = y.whole?

theorem Double.respected_eq : Respected Eq where
  refl _ := rfl
  add h h' := by rw [h, h']
  sub h h' := by rw [h, h']
  mul h h' := by rw [h, h']
  div h h' _ := by rw [h, h']
  neg h := by rw [h]
  isZero h := by rw [h]
  less h h' := by rw [h, h']
  lessEq h h' := by rw [h, h']
  whole? h := by rw [h]

/-- The values are of one kind and hold the same, or numbers or items that correspond. -/
inductive Value.Shape (number : Double → Double → Prop) (value : Value → Value → Prop) :
    Value → Value → Prop
  | boolean (b : Bool) : Shape number value (.boolean b) (.boolean b)
  | number {x y : Double} (h : number x y) (m n : Nat) :
      Shape number value (.number x m) (.number y n)
  | string (s : String) : Shape number value (.string s) (.string s)
  | symbol (name : String) : Shape number value (.symbol name) (.symbol name)
  | nil : Shape number value .nil .nil
  | list {vs ws : List Value} (items : List.Forall₂ value vs ws) :
      Shape number value (.list vs) (.list ws)
  | closure (i j : Nat) (params params' : List String) (body body' : Form)
      (scope scope' : FrameId) :
      Shape number value (.closure i params body scope) (.closure j params' body' scope')
  | native (op : Primitive) (home : FrameId) :
      Shape number value (.native op home) (.native op home)

/-- Items are related in a second way if each of them is to whatever it is related to. -/
theorem forall₂_of_mem {α β : Type} {R S : α → β → Prop} {xs : List α} {ys : List β}
    (h : List.Forall₂ R xs ys) (himp : ∀ x ∈ xs, ∀ y, R x y → S x y) : List.Forall₂ S xs ys :=
  ((List.forall₂_and_left xs ys).mpr ⟨himp, h⟩).imp fun _ _ hxy ↦ hxy.1 _ hxy.2

namespace Value.Shape

variable {number : Double → Double → Prop} {value : Value → Value → Prop} {v w : Value}

theorem isTruthy (h : Shape number value v w) : v.isTruthy = w.isTruthy := by
  cases h <;> rfl

theorem kind (h : Shape number value v w) : v.kind = w.kind := by
  cases h <;> rfl

theorem toDouble? (h : Shape number value v w) :
    Option.Rel number v.toDouble? w.toDouble? := by
  cases h with
  | number h => exact .some h
  | boolean | string | symbol | nil | list | closure | native => exact .none

section Related

variable (hshape : ∀ {v w : Value}, value v w → Shape number value v w)

include hshape

/-- Related values have the same texts if numbers and closures have. -/
theorem render_eq (hnumber : ∀ {x y}, number x y → x.render = y.render)
    (hclosure : ∀ {i j params params' body body' scope scope'},
      value (.closure i params body scope) (.closure j params' body' scope') →
        closureText params body = closureText params' body')
    (h : value v w) (style : Style) : v.render style = w.render style := by
  have hvw := hshape h
  induction v using Value.induct generalizing w with
  | boolean | string | symbol | nil | native => cases hvw; rfl
  | number x mark =>
      cases hvw with
      | number hxy => exact hnumber hxy
  | closure id params body scope =>
      cases hvw
      exact hclosure h
  | list items ih =>
      cases hvw with
      | @list _ ws hitems =>
          have htexts : items.map (render style) = ws.map (render style) := by
            rw [← List.forall₂_eq_eq_eq, List.forall₂_map_left_iff, List.forall₂_map_right_iff]
            exact forall₂_of_mem hitems fun v hv w hvw ↦ ih v hv hvw (hshape hvw)
          rw [render, render, renderItems_eq_map, renderItems_eq_map, htexts]

/-- Related values equal related values alike if numbers and closures do. -/
theorem equal_eq
    (hnumber : ∀ {x y m n x' y' m' n'}, value (.number x m) (.number y n) →
      value (.number x' m') (.number y' n') →
        (Value.number x m).equal (.number x' m') = (Value.number y n).equal (.number y' n'))
    (hclosure : ∀ {i j params params' body body' scope scope' i' j' names names' form form' f f'},
      value (.closure i params body scope) (.closure j params' body' scope') →
        value (.closure i' names form f) (.closure j' names' form' f') → (i == i') = (j == j'))
    {v' w' : Value} (h : value v w) (h' : value v' w') : v.equal v' = w.equal w' := by
  have hvw := hshape h
  have hvw' := hshape h'
  induction v using Value.induct generalizing w v' w' with
  | boolean | string | symbol | nil | native => cases hvw; cases hvw' <;> rfl
  | number x mark =>
      cases hvw
      cases hvw' with
      | number => exact hnumber h h'
      | boolean | string | symbol | nil | list | closure | native => rfl
  | closure id params body scope =>
      cases hvw
      cases hvw' with
      | closure => exact hclosure h h'
      | boolean | number | string | symbol | nil | list | native => rfl
  | list items ih =>
      cases hvw with
      | list hitems =>
          cases hvw' with
          | @list vs ws hitems' =>
              clear h h'
              rw [equal, equal]
              induction hitems generalizing vs ws with
              | nil => cases hitems' <;> rfl
              | cons hvw _ ihItems =>
                  obtain ⟨hhead, htail⟩ := List.forall_mem_cons.mp ih
                  cases hitems' with
                  | nil => rfl
                  | cons hvw' hitems' =>
                      rw [equalItems, equalItems,
                        hhead hvw hvw' (hshape hvw) (hshape hvw'), ihItems htail hitems']
          | boolean | number | string | symbol | nil | closure | native => rfl

end Related

end Value.Shape

theorem foldl_related {number : Double → Double → Prop} {f : Double → Double → Double}
    (hf : ∀ {x y x' y'}, number x y → number x' y' → number (f x x') (f y y'))
    {xs ys : List Double} (h : List.Forall₂ number xs ys) {x y : Double} (hxy : number x y) :
    number (xs.foldl f x) (ys.foldl f y) :=
  List.rel_foldl (P := number) (R := number) (fun _ _ h _ _ h' ↦ hf h h') hxy h

theorem Primitive.ascending_eq {number : Double → Double → Prop} {related : Double → Double → Bool}
    {xs ys : List Double} (h : List.Forall₂ number xs ys)
    (hrelated : ∀ {x y x' y'}, number x y → number x' y' → related x x' = related y y') :
    ascending related xs = ascending related ys := by
  induction h with
  | nil => rfl
  | cons hxy htail ih =>
      cases htail with
      | nil => rfl
      | cons hxy' _ =>
          rw [ascending, ascending, hrelated hxy hxy', ih]

namespace Correspondence

/-- What native functions need of a correspondence to find answers that correspond. -/
structure Observed (c : Correspondence) : Prop where
  respected : Double.Respected c.number
  shape : ∀ {v w}, c.value v w → v.Shape c.number c.value w
  boolean : ∀ b, c.value (.boolean b) (.boolean b)
  nil : c.value .nil .nil
  list : ∀ {vs ws}, List.Forall₂ c.value vs ws → c.value (.list vs) (.list ws)
  text : ∀ {v w}, c.value v w → v.render .person = w.render .person
  equal : ∀ {v w v' w'}, c.value v w → c.value v' w' → v.equal v' = w.equal w'
  arity : ∀ callee a count, c.error (.wrongArity callee a count) (.wrongArity callee a count)
  mismatch : ∀ {v w} callee needed, c.value v w →
    c.error (.typeMismatch callee needed v) (.typeMismatch callee needed w)
  zero : ∀ callee, c.error (.divisionByZero callee) (.divisionByZero callee)

/-- What native functions need of a correspondence to run alike. -/
structure Lawful (c : Correspondence) : Prop extends c.Observed where
  number : ∀ {x y}, c.number x y → c.Runs c.value (Eval.number x) (Eval.number y)
  write : ∀ {s t} home text, c.store s t → c.store (s.write home text) (t.write home text)

def Answers {α β : Type} (c : Correspondence) (value : α → β → Prop) :
    Except EvalError α → Except EvalError β → Prop
  | .ok a, .ok b => value a b
  | .error e, .error f => c.error e f
  | _, _ => False

variable {α β γ δ : Type} {c : Correspondence}

theorem Answers.map {value : α → β → Prop} {value' : γ → δ → Prop} {x : Except EvalError α}
    {y : Except EvalError β} {f : α → γ} {g : β → δ} (h : c.Answers value x y)
    (hfg : ∀ a b, value a b → value' (f a) (g b)) : c.Answers value' (x.map f) (y.map g) := by
  cases x with
  | error e => cases y with
    | error e' => exact h
    | ok b => exact h.elim
  | ok a => cases y with
    | error e' => exact h.elim
    | ok b => exact hfg a b h

theorem Answers.bind {value : α → β → Prop} {value' : γ → δ → Prop} {x : Except EvalError α}
    {y : Except EvalError β} {f : α → Except EvalError γ} {g : β → Except EvalError δ}
    (h : c.Answers value x y) (hfg : ∀ a b, value a b → c.Answers value' (f a) (g b)) :
    c.Answers value' (x >>= f) (y >>= g) := by
  cases x with
  | error e => cases y with
    | error e' => exact h
    | ok b => exact h.elim
  | ok a => cases y with
    | error e' => exact h.elim
    | ok b => exact hfg a b h

inductive Reply (c : Correspondence) : Primitive.Reply → Primitive.Reply → Prop
  | known {v w : Value} (h : c.value v w) : Reply c (.known v) (.known w)
  | computed {x y : Double} (h : c.number x y) : Reply c (.computed x) (.computed y)
  | line (text : String) : Reply c (.line text) (.line text)

namespace Observed

open Primitive

variable (hc : c.Observed)

include hc

theorem numbers (op : Primitive) {vs ws : List Value} (h : List.Forall₂ c.value vs ws) :
    c.Answers (List.Forall₂ c.number) (op.numbers vs) (op.numbers ws) := by
  induction h with
  | nil => exact .nil
  | @cons v w vs ws hvw _ ih =>
      have hnumber := (hc.shape hvw).toDouble?
      rw [Primitive.numbers, Primitive.numbers]
      generalize v.toDouble? = a at hnumber
      generalize w.toDouble? = b at hnumber
      cases hnumber with
      | none => exact hc.mismatch op.name .number hvw
      | some hxy => exact ih.map fun _ _ htail ↦ .cons hxy htail

theorem items (op : Primitive) {v w : Value} (h : c.value v w) :
    c.Answers (List.Forall₂ c.value) (op.items v) (op.items w) := by
  have hshape := hc.shape h
  cases hshape with
  | list hitems => exact hitems
  | boolean | number | string | symbol | nil | closure | native => exact hc.mismatch op.name .list h

theorem difference {xs ys : List Double} (h : List.Forall₂ c.number xs ys) :
    c.number (Primitive.difference xs) (Primitive.difference ys) := by
  rcases h with _ | ⟨hxy, _ | ⟨hhead, htail⟩⟩
  · exact hc.respected.refl .zero
  · exact hc.respected.neg hxy
  · exact foldl_related hc.respected.sub (.cons hhead htail) hxy

theorem divideBy {xs ys : List Double} (h : List.Forall₂ c.number xs ys) {x y : Double}
    (hxy : c.number x y) :
    c.Answers c.number (Primitive.divideBy x xs) (Primitive.divideBy y ys) := by
  induction h generalizing x y with
  | nil => exact hxy
  | @cons x' y' xs ys hhead _ ih =>
      rw [Primitive.divideBy, Primitive.divideBy, ← hc.respected.isZero hhead]
      split
      · exact hc.zero div.name
      next hzero => exact ih (hc.respected.div hxy hhead (Bool.eq_false_iff.mpr hzero))

theorem quotient {xs ys : List Double} (h : List.Forall₂ c.number xs ys) :
    c.Answers c.number (Primitive.quotient xs) (Primitive.quotient ys) := by
  have hone : c.number .one .one := hc.respected.refl .one
  rcases h with _ | ⟨hxy, _ | ⟨hhead, htail⟩⟩
  · exact hone
  · exact hc.divideBy (.cons hxy .nil) hone
  · exact hc.divideBy (.cons hhead htail) hxy

theorem allEqual {vs ws : List Value} (h : List.Forall₂ c.value vs ws) :
    Primitive.allEqual vs = Primitive.allEqual ws := by
  cases h with
  | nil => rfl
  | @cons v w vs ws hvw htail =>
      rw [Primitive.allEqual, Primitive.allEqual]
      induction htail with
      | nil => rfl
      | cons hvw' _ ih => rw [List.all_cons, List.all_cons, ih, hc.equal hvw hvw']

theorem texts {vs ws : List Value} (h : List.Forall₂ c.value vs ws) :
    vs.map (·.render .person) = ws.map (·.render .person) := by
  induction h with
  | nil => rfl
  | cons hvw _ ih => rw [List.map_cons, List.map_cons, hc.text hvw, ih]

theorem head {vs ws : List Value} (h : List.Forall₂ c.value vs ws) :
    c.value (vs.head?.getD .nil) (ws.head?.getD .nil) := by
  cases h with
  | nil => exact hc.nil
  | cons hvw _ => exact hvw

theorem nthItem {vs ws : List Value} (h : List.Forall₂ c.value vs ws) (n : Int) :
    c.value (Primitive.nthItem vs n) (Primitive.nthItem ws n) := by
  rw [Primitive.nthItem, Primitive.nthItem]
  split
  · exact hc.nil
  · generalize n.toNat = k
    induction h generalizing k with
    | nil => exact hc.nil
    | cons hvw _ ih =>
        cases k with
        | zero => exact hvw
        | succ k => exact ih k

theorem compute {vs ws : List Value} (h : List.Forall₂ c.value vs ws) (op : Primitive)
    {f : List Double → Double}
    (hf : ∀ {xs ys}, List.Forall₂ c.number xs ys → c.number (f xs) (f ys)) :
    c.Answers c.Reply ((op.numbers vs).map (.computed <| f ·))
      ((op.numbers ws).map (.computed <| f ·)) :=
  (hc.numbers op h).map fun _ _ hxy ↦ .computed (hf hxy)

theorem compare {vs ws : List Value} (h : List.Forall₂ c.value vs ws) (op : Primitive)
    {related : Double → Double → Bool}
    (hrelated : ∀ {x y x' y'}, c.number x y → c.number x' y' → related x x' = related y y') :
    c.Answers c.Reply (op.compare related vs) (op.compare related ws) := by
  apply (hc.numbers op h).map
  intro xs ys hxy
  rw [ascending_eq hxy hrelated]
  exact .known (hc.boolean _)

theorem divide {vs ws : List Value} (h : List.Forall₂ c.value vs ws) :
    c.Answers c.Reply (div.answer vs) (div.answer ws) := by
  apply (hc.numbers div h).bind
  intro xs ys hxy
  apply (hc.quotient hxy).bind
  intro x y hxy
  exact .computed hxy

theorem whole? {v w : Value} (h : c.value v w) :
    v.toDouble?.bind Double.whole? = w.toDouble?.bind Double.whole? := by
  have hnumber := (hc.shape h).toDouble?
  generalize v.toDouble? = a at hnumber
  generalize w.toDouble? = b at hnumber
  cases hnumber with
  | none => rfl
  | some hxy => exact hc.respected.whole? hxy

theorem nth {vs ws : List Value} (h : List.Forall₂ c.value vs ws) :
    c.Answers c.Reply (Primitive.nth.answer vs) (Primitive.nth.answer ws) := by
  rcases h with _ | @⟨v, w, vs, ws, hvw, _ | @⟨v', w', vs, ws, hvw', _ | _⟩⟩
  · exact .known hc.nil
  · exact .known hc.nil
  · apply (hc.items Primitive.nth hvw).bind
    intro items items' hitems
    rw [hc.whole? hvw']
    cases w'.toDouble?.bind Double.whole? with
    | some n => exact .known (hc.nthItem hitems n)
    | none => exact hc.mismatch Primitive.nth.name .wholeNumberIndex hvw'
  · exact .known hc.nil

theorem length {vs ws : List Value} (h : List.Forall₂ c.value vs ws) :
    c.Answers c.Reply (Primitive.length.answer vs) (Primitive.length.answer ws) := by
  rcases h with _ | @⟨v, w, vs, ws, hvw, _ | _⟩
  · exact .known hc.nil
  · have hshape := hc.shape hvw
    cases hshape with
    | string s => exact .computed (hc.respected.refl _)
    | @list items items' hitems =>
        have hreply : c.Reply (.computed (.ofNat items.length))
            (.computed (.ofNat items'.length)) := by
          rw [hitems.length_eq]
          exact .computed (hc.respected.refl _)
        exact hreply
    | boolean | number | symbol | nil | closure | native =>
        exact hc.mismatch Primitive.length.name .list hvw
  · cases hc.shape hvw <;> exact .known hc.nil

theorem cons {vs ws : List Value} (h : List.Forall₂ c.value vs ws) :
    c.Answers c.Reply (Primitive.cons.answer vs) (Primitive.cons.answer ws) := by
  rcases h with _ | @⟨v, w, vs, ws, hvw, _ | @⟨v', w', vs, ws, hvw', _ | _⟩⟩
  · exact .known hc.nil
  · exact .known hc.nil
  · have hshape := hc.shape hvw'
    cases hshape with
    | nil => exact .known (hc.list (.cons hvw .nil))
    | list hitems => exact .known (hc.list (.cons hvw hitems))
    | boolean | number | string | symbol | closure | native =>
        exact hc.mismatch Primitive.cons.name .list hvw'
  · cases hc.shape hvw' <;> exact .known hc.nil

theorem answer (op : Primitive) {vs ws : List Value} (h : List.Forall₂ c.value vs ws) :
    c.Answers c.Reply (op.answer vs) (op.answer ws) := by
  cases op with
  | add =>
      exact hc.compute h .add fun hxy ↦ foldl_related hc.respected.add hxy (hc.respected.refl _)
  | mul =>
      exact hc.compute h .mul fun hxy ↦ foldl_related hc.respected.mul hxy (hc.respected.refl _)
  | sub => exact hc.compute h .sub hc.difference
  | div => exact hc.divide h
  | equals =>
      rw [Primitive.answer, Primitive.answer, hc.allEqual h]
      exact .known (hc.boolean (Primitive.allEqual ws))
  | less => exact hc.compare h .less hc.respected.less
  | lessEq => exact hc.compare h .lessEq hc.respected.lessEq
  | greater => exact hc.compare h .greater fun hxy hxy' ↦ hc.respected.less hxy' hxy
  | greaterEq => exact hc.compare h .greaterEq fun hxy hxy' ↦ hc.respected.lessEq hxy' hxy
  | not =>
      rcases h with _ | @⟨v, w, vs, ws, hvw, _ | _⟩
      · exact .known hc.nil
      · rw [Primitive.answer, Primitive.answer, (hc.shape hvw).isTruthy]
        exact .known (hc.boolean (!w.isTruthy))
      · exact .known hc.nil
  | first =>
      rcases h with _ | @⟨v, w, vs, ws, hvw, _ | _⟩
      · exact .known hc.nil
      · exact (hc.items .first hvw).map fun vs ws hvws ↦ .known (hc.head hvws)
      · exact .known hc.nil
  | rest =>
      rcases h with _ | @⟨v, w, vs, ws, hvw, _ | _⟩
      · exact .known hc.nil
      · apply (hc.items .rest hvw).map
        intro vs ws hvws
        cases hvws with
        | nil => exact .known (hc.list .nil)
        | cons _ htail => exact .known (hc.list htail)
      · exact .known hc.nil
  | nth => exact hc.nth h
  | length => exact hc.length h
  | cons => exact hc.cons h
  | log =>
      rw [Primitive.answer, Primitive.answer, hc.texts h]
      exact .line _

theorem reply (op : Primitive) {vs ws : List Value} (h : List.Forall₂ c.value vs ws) :
    c.Answers c.Reply (op.reply vs) (op.reply ws) := by
  have hcheck : c.Answers Eq (op.arity.check op.name vs.length)
      (op.arity.check op.name ws.length) := by
    rw [h.length_eq, Arity.check]
    split
    · exact rfl
    · exact hc.arity op.name op.arity ws.length
  exact hcheck.bind fun _ _ _ ↦ hc.answer op h

end Observed

theorem Lawful.runs_call (hc : c.Lawful) (op : Primitive) (home : FrameId) {vs ws : List Value}
    (h : List.Forall₂ c.value vs ws) : c.Runs c.value (op.call home vs) (op.call home ws) := by
  have hreply := hc.reply op h
  rw [Primitive.call, Primitive.call]
  generalize op.reply vs = r at hreply
  generalize op.reply ws = r' at hreply
  cases r with
  | error e => cases r' with
    | error f => exact runs_throw hreply
    | ok b => exact hreply.elim
  | ok a => cases r' with
    | error f => exact hreply.elim
    | ok b =>
        cases hreply with
        | known h => exact runs_pure h
        | computed h => exact hc.number h
        | line text => exact fun _ _ hst ↦ ⟨hc.nil, hc.write home text hst⟩

end Correspondence

end MiniLisp
