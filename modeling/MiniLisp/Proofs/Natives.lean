import Mathlib.Data.List.Basic
import MiniLisp.Primitive.Call

/-!
# What native functions complain about and what they answer

A call of a native function fails for one of three reasons: its argument count, an argument of
another kind than it needs, or a zero to divide by. The counts that it admits are those of the
argument lists that it can take apart. What it answers is made of its arguments and their items.
-/

namespace MiniLisp

theorem ok_of_map {ε α β : Type} {f : α → β} {x : Except ε α} {b : β} (h : x.map f = .ok b) :
    ∃ a, x = .ok a ∧ f a = b := by
  cases x with
  | error e => cases h
  | ok a =>
      cases h
      exact ⟨a, rfl, rfl⟩

theorem ok_of_bind {ε α β : Type} {f : α → Except ε β} {x : Except ε α} {b : β}
    (h : (x >>= f) = .ok b) : ∃ a, x = .ok a ∧ f a = .ok b := by
  cases x with
  | error e => cases h
  | ok a => exact ⟨a, rfl, h⟩

theorem map_eq_error_iff {α β : Type} {f : α → β} {x : Except EvalError α} {e : EvalError} :
    x.map f = .error e ↔ x = .error e := by
  cases x <;> simp [Except.map]

theorem error_of_bind {α β : Type} {f : α → Except EvalError β} {x : Except EvalError α}
    {e : EvalError} (h : (x >>= f) = .error e) : x = .error e ∨ ∃ a, x = .ok a ∧ f a = .error e := by
  cases x with
  | error e' =>
      cases h
      exact .inl rfl
  | ok a => exact .inr ⟨a, rfl, h⟩

/-- A property of lists that is one of their items, and that literals have. -/
structure Value.Hereditary (P : Value → Prop) : Prop where
  boolean : ∀ b, P (.boolean b)
  nil : P .nil
  list : ∀ {items}, P (.list items) ↔ ∀ v ∈ items, P v

namespace Primitive

/-- What a quotient divides by: all but the first, or the only one. -/
def divisors {α : Type} : List α → List α
  | [x] => [x]
  | xs => xs.tail

/-- The errors that a call of the function with these arguments may end with. -/
inductive Complaint (op : Primitive) (args : List Value) : EvalError → Prop
  | count : Complaint op args (.wrongArity op.name op.arity args.length)
  | kind (needed : Needed) {v : Value} (mem : v ∈ args) :
      Complaint op args (.typeMismatch op.name needed v)
  | zero : Complaint op args (.divisionByZero div.name)

variable {op : Primitive} {args : List Value} {e : EvalError}

theorem complaint_of_numbers {vs : List Value} (hvs : ∀ v ∈ vs, v ∈ args)
    (h : op.numbers vs = .error e) : Complaint op args e := by
  induction vs with
  | nil => cases h
  | cons v vs ih =>
      rw [numbers] at h
      split at h
      · cases h
        exact .kind .number (hvs v List.mem_cons_self)
      · exact ih (fun w hw ↦ hvs w (List.mem_cons_of_mem v hw)) (map_eq_error_iff.mp h)

theorem complaint_of_items {v : Value} (hv : v ∈ args) (h : op.items v = .error e) :
    Complaint op args e := by
  rw [items] at h
  split at h
  · cases h
  · cases h
    exact .kind .list hv

theorem divideBy_eq_error_iff {x : Double} {ys : List Double} : divideBy x ys = .error e ↔
    (∃ y ∈ ys, y.isZero = true) ∧ e = .divisionByZero div.name := by
  induction ys generalizing x with
  | nil => simp [divideBy]
  | cons y ys ih =>
      rw [divideBy]
      by_cases hy : y.isZero = true
      · rw [if_pos hy]
        constructor
        · rintro ⟨⟩
          exact ⟨⟨y, List.mem_cons_self, hy⟩, rfl⟩
        · rintro ⟨-, rfl⟩
          rfl
      · rw [if_neg hy, ih]
        simp [hy]

theorem quotient_eq_error_iff {xs : List Double} : quotient xs = .error e ↔
    (∃ x ∈ divisors xs, x.isZero = true) ∧ e = .divisionByZero div.name := by
  rw [quotient.eq_def]
  split
  · simp [divisors]
  · exact divideBy_eq_error_iff
  next x xs hne =>
    have hdivisors : divisors (x :: xs) = xs := by
      cases xs with
      | nil => exact absurd rfl hne
      | cons y ys => rfl
    rw [hdivisors]
    exact divideBy_eq_error_iff

theorem complaint_of_nth {v index : Value} (h : nth.answer [v, index] = .error e) :
    Complaint nth [v, index] e := by
  rcases error_of_bind h with h | ⟨vs, -, h⟩
  · exact complaint_of_items (by simp) h
  · split at h
    · cases h
    · cases h
      exact .kind .wholeNumberIndex (by simp)

theorem complaint_of_answer (h : op.answer args = .error e) : Complaint op args e := by
  have hall : ∀ v ∈ args, v ∈ args := fun _ hv ↦ hv
  rw [answer.eq_def] at h
  split at h
  case h_1 | h_2 | h_3 | h_6 | h_7 | h_8 | h_9 =>
      exact complaint_of_numbers hall (map_eq_error_iff.mp h)
  case h_4 =>
      rcases error_of_bind h with h | ⟨xs, -, h⟩
      · exact complaint_of_numbers hall h
      · rcases error_of_bind h with h | ⟨x, -, h⟩
        · rw [(quotient_eq_error_iff.mp h).2]
          exact .zero
        · cases h
  case h_11 | h_12 | h_15 | h_17 => exact complaint_of_items (by simp) (map_eq_error_iff.mp h)
  case h_13 => exact complaint_of_nth h
  all_goals cases h

section Counts

/-- The arguments can be taken apart as the function does it: any of them, one and others, just one,
or two. -/
def Fits : Primitive → List Value → Prop
  | .add, _ | .mul, _ | .log, _ => True
  | .sub, args | .div, args | .equals, args | .less, args | .greater, args | .lessEq, args
  | .greaterEq, args => ∃ v vs, args = v :: vs
  | .not, args | .first, args | .rest, args | .length, args => ∃ v, args = [v]
  | .nth, args | .cons, args => ∃ v w, args = [v, w]

theorem accepts_atLeast_iff {n : Int} {count : Nat} :
    (Arity.atLeast n).accepts count = true ↔ n ≤ count := by
  rw [Arity.accepts, Arity.atLeast, Bool.and_true, decide_eq_true_iff]

theorem accepts_exactly_iff {n : Int} {count : Nat} :
    (Arity.exactly n).accepts count = true ↔ (count : Int) = n := by
  rw [Arity.accepts, Bool.and_eq_true_iff, decide_eq_true_iff]
  change n ≤ count ∧ decide ((count : Int) ≤ n) = true ↔ _
  rw [decide_eq_true_iff]
  omega

/-- The arity of a function admits the argument lists that the function can take apart, and no
others. -/
theorem accepts_iff_fits : op.arity.accepts args.length = true ↔ op.Fits args := by
  have hsome : (1 : Int) ≤ args.length ↔ ∃ v vs, args = v :: vs := by
    rw [← List.ne_nil_iff_exists_cons, ← List.length_pos_iff]
    omega
  have hone : (args.length : Int) = 1 ↔ ∃ v, args = [v] := by
    rw [← List.length_eq_one_iff]
    omega
  have htwo : (args.length : Int) = 2 ↔ ∃ v w, args = [v, w] := by
    rw [← List.length_eq_two]
    omega
  cases op with
  | add | mul | log => exact accepts_atLeast_iff.trans (iff_true_intro (Int.natCast_nonneg _))
  | sub | div | equals | less | greater | lessEq | greaterEq =>
      exact accepts_atLeast_iff.trans hsome
  | not | first | rest | length => exact accepts_exactly_iff.trans hone
  | nth | cons => exact accepts_exactly_iff.trans htwo

theorem reply_of_accepts (h : op.arity.accepts args.length = true) :
    op.reply args = op.answer args := by
  rw [reply, Arity.check, if_pos h]
  rfl

theorem reply_of_not_accepts (h : op.arity.accepts args.length = false) :
    op.reply args = .error (.wrongArity op.name op.arity args.length) := by
  rw [reply, Arity.check, h]
  rfl

theorem complaint_of_reply (h : op.reply args = .error e) : Complaint op args e := by
  cases hcount : op.arity.accepts args.length with
  | true => exact complaint_of_answer ((reply_of_accepts hcount).symm.trans h)
  | false =>
      rw [reply_of_not_accepts hcount] at h
      cases h
      exact .count

end Counts

section Answers

variable {P : Value → Prop} {r : Reply}

/-- The value in the reply, if there is one, has the property. -/
def Reply.Keeps (P : Value → Prop) : Reply → Prop
  | .known v => P v
  | _ => True

theorem keeps_of_map {α : Type} {f : α → Reply} {x : Except EvalError α} (h : x.map f = .ok r)
    (hf : ∀ a, x = .ok a → (f a).Keeps P) : r.Keeps P := by
  obtain ⟨a, ha, rfl⟩ := ok_of_map h
  exact hf a ha

variable (hP : Value.Hereditary P)

include hP

theorem keeps_items {v : Value} {vs : List Value} (hv : P v) (h : op.items v = .ok vs) :
    ∀ w ∈ vs, P w := by
  rw [items] at h
  cases v with
  | list items =>
      cases h
      exact hP.list.mp hv
  | boolean | number | string | symbol | nil | closure | native => cases h

theorem keeps_nthItem {vs : List Value} (h : ∀ v ∈ vs, P v) (index : Int) :
    P (nthItem vs index) := by
  rw [nthItem]
  split
  · exact hP.nil
  · cases hv : vs[index.toNat]? with
    | none => exact hP.nil
    | some v => exact h v (List.mem_of_getElem? hv)

/-- A native function finds its answer among its arguments and their items. -/
theorem keeps_answer (hargs : ∀ v ∈ args, P v) (h : op.answer args = .ok r) : r.Keeps P := by
  rw [answer.eq_def] at h
  -- The cases stand in the order of the definition.
  split at h
  case h_1 | h_2 | h_3 => exact keeps_of_map h fun _ _ ↦ trivial
  case h_4 =>
      obtain ⟨xs, -, h⟩ := ok_of_bind h
      obtain ⟨x, -, h⟩ := ok_of_bind h
      cases h
      exact trivial
  case h_6 | h_7 | h_8 | h_9 => exact keeps_of_map h fun _ _ ↦ hP.boolean _
  case h_5 | h_10 =>
      cases h
      exact hP.boolean _
  case h_11 v =>
      apply keeps_of_map h
      intro vs hvs
      have hitems := keeps_items hP (hargs v List.mem_cons_self) hvs
      cases vs with
      | nil => exact hP.nil
      | cons w vs => exact hitems w List.mem_cons_self
  case h_12 v =>
      apply keeps_of_map h
      intro vs hvs
      have hitems := keeps_items hP (hargs v List.mem_cons_self) hvs
      exact hP.list.mpr fun w hw ↦ hitems w (List.mem_of_mem_tail hw)
  case h_13 v index =>
      obtain ⟨vs, hvs, h⟩ := ok_of_bind h
      split at h
      · cases h
        exact keeps_nthItem hP (keeps_items hP (hargs v List.mem_cons_self) hvs) _
      · cases h
  case h_14 =>
      cases h
      exact trivial
  case h_15 => exact keeps_of_map h fun _ _ ↦ trivial
  case h_16 v =>
      cases h
      exact hP.list.mpr fun w hw ↦ List.mem_singleton.mp hw ▸ hargs v List.mem_cons_self
  case h_17 v tail _ =>
      apply keeps_of_map h
      intro vs hvs
      have hitems := keeps_items hP (hargs tail (by simp)) hvs
      exact hP.list.mpr (List.forall_mem_cons.mpr ⟨hargs v List.mem_cons_self, hitems⟩)
  case h_18 =>
      cases h
      exact trivial
  case h_19 =>
      cases h
      exact hP.nil

theorem keeps_reply (hargs : ∀ v ∈ args, P v) (h : op.reply args = .ok r) : r.Keeps P := by
  obtain ⟨_, -, h⟩ := ok_of_bind h
  exact keeps_answer hP hargs h

end Answers

end Primitive

end MiniLisp
