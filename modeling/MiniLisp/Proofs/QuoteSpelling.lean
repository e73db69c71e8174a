import MiniLisp.Proofs.EchoedRuns
import MiniLisp.Repl

/-!
# The mark `'x` means `(quote x)`

A form is *plain* if no list in it has a mark in the place of a parameter list. With all its marks
written out, it echoes the form that it was, and evaluation goes the same way in both spellings.
-/

namespace MiniLisp

namespace Form

/-- The items make a closure and have a mark in the place of its parameter list. -/
def MarkedParams : List Form → Prop
  | .symbol name :: .quote _ :: _ => name = Keyword.lambda.name
  | _ => False

mutual

/-- No list in the form has a mark in the place of a parameter list. -/
def Plain : Form → Prop
  | .quote inner => inner.Plain
  | .list items => ¬ MarkedParams items ∧ PlainItems items
  | _ => True

def PlainItems : List Form → Prop
  | [] => True
  | item :: items => item.Plain ∧ PlainItems items

end

theorem plainItems_iff (items : List Form) : PlainItems items ↔ ∀ item ∈ items, item.Plain := by
  induction items with
  | nil => simp [PlainItems]
  | cons item items ih => rw [PlainItems, ih, List.forall_mem_cons]

theorem plain_list_iff (items : List Form) :
    (Form.list items).Plain ↔ ¬ MarkedParams items ∧ ∀ item ∈ items, item.Plain := by
  rw [Plain, plainItems_iff]

theorem Plain.unmarked {form : Form} (h : form.Plain) : form.Unmarked := by
  refine unmarked_of ?_ (fun items hplain ↦ ((plain_list_iff items).mp hplain).2) h
  rintro _ hplain ⟨params, body⟩
  exact ((plain_list_iff _).mp hplain).1 rfl

theorem Plain.echoes_expand {form : Form} (h : form.Plain) : form.Echoes form.expand :=
  ⟨matches_respell (fun _ ↦ rfl) form, .inr ⟨h.unmarked, unmarked_respell rfl form⟩⟩

end Form

/-- A program in which no parameter list is written with a mark shows the same, form by form and
under every limit, when all its marks are written out, unless the host cuts a run of one of the two
programs short. -/
theorem session_expand {program : List Form} (hplain : ∀ form ∈ program, form.Plain) {limit : Int}
    (hmarks : Host.Suffices limit sessionRoot Store.initial program)
    (hlists : Host.Suffices limit sessionRoot Store.initial (program.map Form.expand)) :
    observeForms limit sessionRoot Store.initial (program.map Form.expand) =
      observeForms limit sessionRoot Store.initial program := by
  have hforms : List.Forall₂ Form.Echoes program (program.map Form.expand) := by
    rw [List.forall₂_map_right_iff, List.forall₂_same]
    exact fun form hform ↦ (hplain form hform).echoes_expand
  exact (observeForms_echo hforms (.refl .refl Store.initial) hmarks hlists).symm

-- In the place of a parameter list the spellings are told apart: a mark is no list of names.
example :
    (observeForms 4 sessionRoot Store.initial
      [.list [.symbol "lambda", .quote (.symbol "x"), .symbol "x"]]).map (·.outcome) =
        [.error .typeMismatch "lambda: expected parameter list, got (quote x)"] ∧
      (observeForms 4 sessionRoot Store.initial
        [.list [.symbol "lambda", (Form.quote (.symbol "x")).expand, .symbol "x"]]).map
          (·.outcome) =
        [.value .closure "(lambda (quote x) x)" "(lambda (quote x) x)"] := by
  decide +kernel

/-- Defines a function whose body holds a mark, prints it, calls it, and calls it wrongly. -/
def markedProgram : List Form :=
  [.list [.symbol "define", .symbol "tag", .list [.symbol "lambda", .list [.symbol "x"],
      .list [.symbol "list", .quote (.list [.symbol "tag", .quote (.symbol "x")]), .symbol "x"]]],
    .symbol "tag",
    .list [.symbol "log", .list [.symbol "tag", .quote (.symbol "a")]],
    .list [.symbol "tag"],
    .list [.symbol "define", .quote (.symbol "x"), .nil]]

theorem session_expand_markedProgram :
    (∀ form ∈ markedProgram, form.Plain) ∧
      Host.Suffices 4 sessionRoot Store.initial markedProgram ∧
      Host.Suffices 4 sessionRoot Store.initial (markedProgram.map Form.expand) ∧
      observeForms 4 sessionRoot Store.initial (markedProgram.map Form.expand) =
        observeForms 4 sessionRoot Store.initial markedProgram := by
  have hplain : ∀ form ∈ markedProgram, form.Plain := by
    simp [markedProgram, Form.Plain, Form.PlainItems, Form.MarkedParams, Keyword.name]
  have hmarks : Host.Suffices 4 sessionRoot Store.initial markedProgram :=
    Host.suffices_of_outcomes (by decide +kernel)
  have hlists : Host.Suffices 4 sessionRoot Store.initial (markedProgram.map Form.expand) :=
    Host.suffices_of_outcomes (by decide +kernel)
  exact ⟨hplain, hmarks, hlists, session_expand hplain hmarks hlists⟩

/-- The name `a` behind so many marks. -/
def Form.marks : Nat → Form
  | 0 => .symbol "a"
  | count + 1 => .quote (marks count)

theorem Form.plain_marks (count : Nat) : (marks count).Plain := by
  induction count with
  | zero => trivial
  | succ count ih => exact ih

/-- Defines a function without parameters that returns what is behind the first of the marks, and
calls it. -/
def deeplyMarkedProgram (count : Nat) : List Form :=
  [.list [.symbol "define", .symbol "f", .list [.symbol "lambda", .list [], .marks count]],
    .list [.symbol "f"]]

/-- Written out, the data takes twice as many slots, and only with the marks the host has room for
it. -/
theorem session_expand_deepMarks :
    (∀ form ∈ deeplyMarkedProgram 600, form.Plain) ∧
      observeForms 9 sessionRoot Store.initial ((deeplyMarkedProgram 600).map Form.expand) ≠
        observeForms 9 sessionRoot Store.initial (deeplyMarkedProgram 600) := by
  have hplain : ∀ form ∈ deeplyMarkedProgram 600, form.Plain := by
    simp [deeplyMarkedProgram, Form.Plain, Form.PlainItems, Form.MarkedParams, Form.plain_marks]
  have hmarks : (observeForms 9 sessionRoot Store.initial (deeplyMarkedProgram 600)).map
      (·.outcome.isExhausted) = [false, false] := by
    decide +kernel
  have hlists : (observeForms 9 sessionRoot Store.initial
      ((deeplyMarkedProgram 600).map Form.expand)).map (·.outcome.isExhausted) = [false, true] := by
    decide +kernel
  refine ⟨hplain, fun heq ↦ ?_⟩
  rw [heq, hmarks] at hlists
  nomatch hlists

end MiniLisp
