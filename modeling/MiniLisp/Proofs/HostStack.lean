import MiniLisp.Evaluator
import MiniLisp.Proofs.Respelling

/-!
# What a run takes from the host

A stack is compared with another by what it holds. The slots that a form takes by itself are bounded
by its depth, so the host never cuts short what a form at the top level does without calls. What all
forms keep to on every stack is proved once, with the end of a run as one case and the evaluation of
a form as the other.
-/

namespace MiniLisp

namespace Stack

variable {stack stack' : Stack} {count k : Nat}

theorem holds_iff : stack.holds count ↔ ∀ left ∈ stack, count ≤ left := by
  cases stack <;> simp [holds]

theorem holds_none (count : Nat) : Stack.holds none count := rfl

theorem holds_mono (h : stack.holds count) (hle : k ≤ count) : stack.holds k :=
  holds_iff.mpr fun left hleft ↦ Nat.le_trans hle (holds_iff.mp h left hleft)

theorem holds_below_iff :
    (stack.below k).holds count ↔ count = 0 ∨ stack.holds (count + k) := by
  cases stack with
  | none => simp [holds, below]
  | some left =>
      simp only [holds, below, Option.map_some, Option.all_some, decide_eq_true_eq]
      omega

theorem holds_below (h : stack.holds (count + k)) : (stack.below k).holds count :=
  holds_below_iff.mpr (.inr h)

/-- What the first stack holds, the second one holds too. -/
def AtMost (stack stack' : Stack) : Prop :=
  ∀ count, stack.holds count → stack'.holds count

theorem atMost_none (stack : Stack) : stack.AtMost none := fun count _ ↦ holds_none count

theorem AtMost.below (h : stack.AtMost stack') (k : Nat) :
    (stack.below k).AtMost (stack'.below k) :=
  fun count hcount ↦ holds_below_iff.mpr ((holds_below_iff.mp hcount).imp_right (h (count + k)))

end Stack

namespace Form

theorem depth_lt_of_mem {items : List Form} {item : Form} (h : item ∈ items) :
    item.depth < (Form.list items).depth := by
  rw [Form.depth]
  induction items with
  | nil => exact absurd h List.not_mem_nil
  | cons first items ih =>
      rw [depthOfItems]
      rcases List.mem_cons.mp h with rfl | h
      · omega
      · have := ih h
        omega

theorem heldSlots_le (form : Form) : form.heldSlots ≤ 2 := by
  unfold heldSlots
  split
  · split <;> omega
  · omega

theorem dataSlots_le (form : Form) : form.dataSlots ≤ 2 * form.depth + 2 := by
  induction form using Form.induct with
  | number | string | symbol | boolean | nil => simp [dataSlots]
  | quote inner ih =>
      rw [dataSlots, depth]
      omega
  | list items ih =>
      rw [dataSlots, depth]
      induction items with
      | nil => simp [dataSlotsOfItems]
      | cons item items ihItems =>
          obtain ⟨hhead, htail⟩ := List.forall_mem_cons.mp ih
          have hitems := ihItems htail
          rw [dataSlotsOfItems, depthOfItems]
          omega

/-- What a special form makes data of lies inside the list. -/
theorem depth_lt_of_data? (head : Form) {form : Form} {operands : List Form} {k : Keyword}
    (h : k.data? operands = some form) : form.depth < (Form.list (head :: operands)).depth := by
  have hoperand : ∀ operand ∈ operands, operand.depth < (Form.list (head :: operands)).depth :=
    fun operand hmem ↦ depth_lt_of_mem (List.mem_cons_of_mem head hmem)
  unfold Keyword.data? at h
  split at h
  · split at h
    · cases h
      exact hoperand _ List.mem_cons_self
    · cases h
  · split at h
    · rename_i params _
      have hparam := depth_lt_of_mem (List.mem_of_find?_eq_some h)
      exact Nat.lt_trans hparam (hoperand _ List.mem_cons_self)
    · cases h
      exact hoperand _ List.mem_cons_self
    · cases h
  · split at h
    · split at h
      · cases h
      · cases h
        exact hoperand _ List.mem_cons_self
    · cases h
  · cases h
  · cases h

theorem slots_le (form : Form) : form.slots ≤ 2 * form.depth + 2 := by
  cases form with
  | number | string | symbol | boolean | nil => simp [slots, heldSlots, data?]
  | quote inner =>
      have hinner := inner.dataSlots_le
      simp only [slots, heldSlots, data?, Option.map_some, Option.getD_some, depth]
      omega
  | list items =>
      cases items with
      | nil => simp [slots, heldSlots, data?]
      | cons head operands =>
          have hheld := (Form.list (head :: operands)).heldSlots_le
          rw [slots]
          cases hdata : (Form.list (head :: operands)).data? with
          | none =>
              simp only [Option.map_none, Option.getD_none]
              omega
          | some form =>
              obtain ⟨k, -, hk⟩ := Option.bind_eq_some_iff.mp hdata
              have hform := form.dataSlots_le
              have hdepth := depth_lt_of_data? head hk
              simp only [Option.map_some, Option.getD_some]
              omega

/-- A form leaves for the forms inside it what these take, two slots less for the level. -/
theorem holds_below_of_depth_lt {stack : Stack} {form item : Form} {spare : Nat}
    (h : stack.holds (2 * form.depth + spare)) (hlt : item.depth < form.depth) :
    (stack.below form.heldSlots).holds (2 * item.depth + spare) := by
  have hheld := form.heldSlots_le
  exact Stack.holds_below (Stack.holds_mono h (by omega))

end Form

namespace Host

/-- The stack has room for what the form at the top level takes by itself. -/
theorem holds_stackFor (limit : Int) (form : Form) :
    (stackFor limit form).holds (2 * form.depth + 2) :=
  Stack.holds_iff.mpr fun left hleft ↦ by
    obtain rfl := Option.mem_some_iff.mp hleft
    exact Nat.le_max_left _ _

/-- Below the bound on its slots, the host is made to fit the levels that the limit allows. -/
theorem holds_stackFor_of_le {limit : Int} {count : Nat} (h : (count : Int) ≤ limit)
    (hbound : count ≤ 6663) (form : Form) :
    (stackFor limit form).holds (slotsPerLevel * count + 2) :=
  Stack.holds_iff.mpr fun left hleft ↦ by
    obtain rfl := Option.mem_some_iff.mp hleft
    simp only [slots, slotsPerLevel, sessionSlots]
    omega

end Host

namespace Evaluator

section Room

variable {limit : Int} {room : Nat} {stack : Stack} {form : Form}

theorem evalWithin_of_holds (h : stack.holds form.slots) :
    evalWithin limit (room + 1) stack form =
      evalForm (evalWithin limit room (stack.below form.heldSlots))
        (evalWithin limit room (stack.below Host.slotsPerLevel)) form := by
  funext scope
  rw [evalWithin, if_pos h]

theorem evalWithin_of_not_holds (h : ¬ stack.holds form.slots) :
    evalWithin limit (room + 1) stack form = fun _ ↦ throw (.stackExhausted limit) := by
  funext scope
  rw [evalWithin, if_neg h]

end Room

/-- What holds of a run that is at its end, and of the evaluation of a form if it holds of the runs
inside it and of the bodies that it calls, holds of every run, with any levels on any stack. The
induction is on the levels. -/
theorem evalWithin_induction {P : Form → (FrameId → Eval Value) → Prop} (limit : Int)
    (hend : ∀ form, P form fun _ ↦ throw (.stackExhausted limit))
    (hform : ∀ operand body : Step, (∀ form, P form (operand form)) →
      (∀ form, P form (body form)) → ∀ form, P form (evalForm operand body form)) (room : Nat)
    (stack : Stack) (form : Form) : P form (evalWithin limit room stack form) := by
  induction room generalizing stack form with
  | zero => exact hend form
  | succ room ih =>
      by_cases hholds : stack.holds form.slots
      · rw [evalWithin_of_holds hholds]
        exact hform _ _ (ih _) (ih _) form
      · rw [evalWithin_of_not_holds hholds]
        exact hend form

/-- A form at the top level has one level at least, and a stack that holds what it takes itself. -/
theorem exists_evaluate_eq (limit : Int) (form : Form) :
    ∃ operand body : Step, evaluate limit form = evalForm operand body form := by
  have hholds : (Host.stackFor limit form).holds form.slots :=
    Stack.holds_mono (Host.holds_stackFor limit form) form.slots_le
  exact ⟨_, _, evalWithin_of_holds hholds⟩

end Evaluator

end MiniLisp
