import MiniLisp.Proofs.Calculation
import MiniLisp.Proofs.ReadBack
import MiniLisp.Proofs.SessionHeap
import MiniLisp.Proofs.ZeroSigns

/-!
# Quoted text of values

The text of data is that of a form, and quoting the form gives the data back. So the machine text of
a value that holds no function evaluates, behind a quote mark, to an equal value, and nothing else
comes of it.
-/

namespace MiniLisp

namespace Value

mutual

/-- The form that the value comes from when it is quoted; a function comes from none, and `nil`
stands in for it. -/
def datum : Value → Form
  | .boolean b => .boolean b
  | .number x _ => .number x
  | .string s => .string s
  | .symbol name => .symbol name
  | .nil => .nil
  | .list items => .list (datumItems items)
  | .closure _ _ _ _ => .nil
  | .native _ _ => .nil

def datumItems : List Value → List Form
  | [] => []
  | item :: items => item.datum :: datumItems items

end

theorem datumItems_eq_map (items : List Value) : datumItems items = items.map datum := by
  induction items with
  | nil => rfl
  | cons item items ih => rw [datumItems, ih, List.map_cons]

theorem equalItems_map {f : Value → Value} {items : List Value}
    (h : ∀ item ∈ items, item.equal (f item) = true) : equalItems items (items.map f) = true := by
  induction items with
  | nil => rfl
  | cons item items ih =>
      obtain ⟨hhead, htail⟩ := List.forall_mem_cons.mp h
      rw [List.map_cons, equalItems, hhead, ih htail, Bool.and_self]

/-- Data that source text can spell: finite numbers, strings, the literals, names that are read as
one symbol, and lists of such data. -/
inductive Spellable : Value → Prop
  | number {x : Double} (mark : Nat) (hx : x.isFinite = true) : Spellable (.number x mark)
  | string (s : String) : Spellable (.string s)
  | boolean (b : Bool) : Spellable (.boolean b)
  | nil : Spellable .nil
  | symbol {name : String} (h : Lexer.Bindable name) : Spellable (.symbol name)
  | list {items : List Value} (h : ∀ item ∈ items, Spellable item) : Spellable (.list items)

end Value

theorem Lexer.Bindable.spells {name : String} (h : Bindable name) :
    Spells (.symbol name) name.toList := by
  obtain ⟨source, t, ht, htoken⟩ := h.lexed
  have hall :=
    Lexer.lexFrom_forall (fun _ _ _ _ ↦ Lexer.spells_of_piece) [] .start source.toList nofun
  have hspells := hall t ht
  rwa [htoken] at hspells

theorem Lexer.Bindable.ofName {name : String} (h : Bindable name) :
    Form.ofName name = .symbol name := by
  have hliteral : name ≠ "true" ∧ name ≠ "false" ∧ name ≠ "nil" := by simpa using h.literal
  rw [Form.ofName, if_neg hliteral.1, if_neg hliteral.2.1, if_neg hliteral.2.2]

namespace Form

theorem lexical_singleton {token : Token} :
    Lexical [token] ↔ Lexer.Spells token.dropZeroSign token.text := List.forall_mem_singleton

theorem lexical_parenthesize {tss : List (List Token)} (h : ∀ ts ∈ tss, Lexical ts) :
    Lexical (.leftParen :: (tss.flatten ++ [.rightParen])) := by
  intro token htoken
  simp only [List.mem_cons, List.mem_append, List.mem_flatten, List.not_mem_nil, or_false]
    at htoken
  rcases htoken with rfl | ⟨ts, hts, htoken⟩ | rfl
  · exact Lexer.spells_mark Lexer.piece_leftParen
  · exact h ts hts token htoken
  · exact Lexer.spells_mark Lexer.piece_rightParen

end Form

open Form (Lexical)

namespace Value.Spellable

variable {v : Value}

theorem render_datum (h : v.Spellable) : v.datum.render = v.render .machine := by
  induction h with
  | number | string | boolean | nil | symbol => rfl
  | list h ih =>
      rw [datum, datumItems_eq_map, Form.render_list, List.map_map, render, renderItems_eq_map]
      congr 1
      exact List.map_congr_left ih

theorem exists_expression (h : v.Spellable) : ∃ ts, Expression ts v.datum ∧ Lexical ts := by
  induction h with
  | @number x mark hx =>
      exact ⟨[.number x], .number x, Form.lexical_singleton.mpr (Lexer.spells_render hx)⟩
  | string s => exact ⟨[.string s], .string s, Form.lexical_singleton.mpr (Lexer.spells_string s)⟩
  | boolean b =>
      cases b with
      | true =>
          exact ⟨[.symbol "true"], .symbol "true",
            Form.lexical_singleton.mpr (Lexer.spells_name ['r', 'u', 'e'] rfl)⟩
      | false =>
          exact ⟨[.symbol "false"], .symbol "false",
            Form.lexical_singleton.mpr (Lexer.spells_name ['a', 'l', 's', 'e'] rfl)⟩
  | nil =>
      exact ⟨[.symbol "nil"], .symbol "nil",
        Form.lexical_singleton.mpr (Lexer.spells_name ['i', 'l'] rfl)⟩
  | @symbol name hname =>
      have hexpression := Expression.symbol name
      rw [hname.ofName] at hexpression
      exact ⟨[.symbol name], hexpression, Form.lexical_singleton.mpr hname.spells⟩
  | @list items h ih =>
      have hitems : ∃ tss, List.Forall₂ (fun ts item ↦ Expression ts item ∧ Lexical ts) tss
          (items.map datum) := by
        clear h
        induction items with
        | nil => exact ⟨[], .nil⟩
        | cons item items ihItems =>
            obtain ⟨⟨ts, hitem⟩, htail⟩ := List.forall_mem_cons.mp ih
            obtain ⟨tss, hitems⟩ := ihItems htail
            exact ⟨ts :: tss, .cons hitem hitems⟩
      obtain ⟨tss, hitems⟩ := hitems
      rw [datum, datumItems_eq_map]
      refine ⟨_, .list (hitems.imp fun _ _ hitem ↦ hitem.1), Form.lexical_parenthesize ?_⟩
      intro ts hts
      obtain ⟨item, -, hitem⟩ := exists_mem_of_mem_right hitems.flip hts
      exact hitem.2

theorem equal_datum (h : v.Spellable) : v.equal v.datum.desugar.toValue = true := by
  induction h with
  | @number x mark hx =>
      have hnan := Double.isNaN_of_isFinite hx
      have hequal : x.equal x.dropZeroSign = true :=
        (Double.equal_iff hnan ((Double.isNaN_dropZeroSign x).trans hnan)).mpr
          (Double.dropZeroSign_dropZeroSign x).symm
      exact Bool.or_eq_true_iff.mpr (.inl hequal)
  | string | boolean | symbol => exact beq_self_eq_true _
  | nil => rfl
  | @list items h ih =>
      have hvalue : (datum (.list items)).desugar.toValue =
          .list (items.map fun item ↦ item.datum.desugar.toValue) := by
        rw [datum, datumItems_eq_map, Form.desugar, Form.respell_list, Form.toValue_list,
          List.map_map, List.map_map]
        rfl
      rw [hvalue, equal]
      exact equalItems_map ih

end Value.Spellable

variable {source : String} {ts : List Token} {form : Form} {limits : Limits} {scope : FrameId}
  {s t : Store} {v : Value}

/-- A text that is split into an expression runs to the value of the form, if it may be read. -/
theorem run_interpret_of_splits (hsplits : Lexer.Splits source.toList [] ts)
    (hform : Expression ts form) :
    (interpret limits source scope).run s = .ok v t ↔
      (form.depth : Int) ≤ limits.nesting ∧ (evaluate limits.depth form scope).run s = .ok v t := by
  obtain ⟨placed, htokens, rfl⟩ := Lexer.tokenize_of_splits hsplits
  exact run_interpret_eq_ok_iff (tokenize_eq_ok_iff.mp htokens) hform

theorem run_evaluate_quote (limit : Int) (form : Form) (scope : FrameId) (s : Store) :
    (evaluate limit (.quote form) scope).run s = .ok form.toValue s := by
  obtain ⟨operand, body, hform⟩ := Evaluator.exists_evaluate_eq limit (.quote form)
  rw [hform]
  rfl

namespace Value

/-- A list that looks like a quoted form, with a name, a negative zero and escapes in it. -/
def quoteLike : Value :=
  .list [.symbol "quote", .list [.symbol "a-b", .number (-Double.zero) 0, .string "(\\\"\n"],
    .list [], .nil]

theorem spellable_quoteLike : quoteLike.Spellable := by
  have hquote : Lexer.Bindable "quote" :=
    ⟨⟨"quote", ⟨.symbol "quote", ⟨1, 1⟩⟩, by decide +kernel, rfl⟩, by decide⟩
  have hname : Lexer.Bindable "a-b" :=
    ⟨⟨"a-b", ⟨.symbol "a-b", ⟨1, 1⟩⟩, by decide +kernel, rfl⟩, by decide⟩
  have hinner : Spellable
      (.list [.symbol "a-b", .number (-Double.zero) 0, .string "(\\\"\n"]) := by
    refine .list fun item hitem ↦ ?_
    simp only [List.mem_cons, List.not_mem_nil, or_false] at hitem
    rcases hitem with rfl | rfl | rfl
    · exact .symbol hname
    · exact .number 0 (by decide)
    · exact .string _
  refine .list fun item hitem ↦ ?_
  simp only [List.mem_cons, List.not_mem_nil, or_false] at hitem
  rcases hitem with rfl | rfl | rfl | rfl
  · exact .symbol hquote
  · exact hinner
  · exact .list nofun
  · exact .nil

end Value

end MiniLisp
