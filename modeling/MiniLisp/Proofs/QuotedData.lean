import MiniLisp.Proofs.CompiledText
import MiniLisp.Proofs.Observation

/-!
# Quoted forms as text and as data

Quoting a form gives a value, printing the form gives source text, and a script holds it as data.
The text of the value is that of the form, the data is the value in JSON, and none of the three
shows which of its marks a form has written out.
-/

namespace MiniLisp

/-- The JSON text of data: strings and names are string literals, and a list stands in brackets. -/
inductive Script.Json : Value → String → Prop
  | number (x : Double) (mark : Nat) : Json (.number x mark) x.render
  | string (s : String) : Json (.string s) (stringLiteral s)
  | symbol (name : String) : Json (.symbol name) (stringLiteral name)
  | yes : Json (.boolean true) "true"
  | no : Json (.boolean false) "false"
  | nil : Json .nil "null"
  | list {items : List Value} {texts : List String} (h : List.Forall₂ Json items texts) :
      Json (.list items) ("[" ++ ", ".intercalate texts ++ "]")

theorem Value.text_list (items : List Value) :
    (Value.list items).text = parenthesize (items.map text) := by
  rw [text, render, renderItems_eq_map]
  rfl

theorem Form.text_toValue (form : Form) : form.toValue.text = form.render := by
  induction form using Form.induct with
  | number | string | symbol | boolean | nil => rfl
  | quote inner ih =>
      rw [toValue, Value.text_list, List.map_cons, List.map_singleton, ih]
      rfl
  | list items ih =>
      rw [toValue_list, Value.text_list, render_list, List.map_map]
      congr 1
      exact List.map_congr_left ih

namespace Script

theorem data_list (items : List Form) : data (.list items) = array (items.map data) := by
  rw [data, dataItems_eq_map]

theorem data_expand (form : Form) : data form.expand = data form := by
  induction form using Form.induct with
  | number | string | symbol | boolean | nil => rfl
  | quote inner ih =>
      rw [Form.expand, Form.respell, data_list, List.map_cons, List.map_singleton, ← Form.expand,
        ih, data]
      rfl
  | list items ih =>
      rw [Form.expand, Form.respell_list, data_list, data_list, List.map_map]
      congr 1
      exact List.map_congr_left ih

theorem forall₂_json_iff {items : List Form} {texts : List String}
    (h : ∀ item ∈ items, ∀ text, Json item.toValue text ↔ text = data item) :
    List.Forall₂ Json (items.map Form.toValue) texts ↔ texts = items.map data := by
  induction items generalizing texts with
  | nil => simp
  | cons item items ih =>
      obtain ⟨hitem, hitems⟩ := List.forall_mem_cons.mp h
      simp [List.forall₂_cons_left_iff, hitem, ih hitems]

theorem json_list_iff {items : List Form}
    (h : ∀ item ∈ items, ∀ text, Json item.toValue text ↔ text = data item) (text : String) :
    Json (Form.list items).toValue text ↔ text = data (.list items) := by
  rw [Form.toValue_list, data_list]
  constructor
  · intro hjson
    cases hjson with
    | list htexts =>
        rw [(forall₂_json_iff h).mp htexts]
        rfl
  · rintro rfl
    exact .list ((forall₂_json_iff h).mpr rfl)

theorem json_symbol_iff (name text : String) :
    Json (Form.symbol name).toValue text ↔ text = data (.symbol name) :=
  ⟨fun | .symbol _ => rfl, fun h ↦ h ▸ .symbol name⟩

/-- The data of a form is the only JSON text of its value. -/
theorem json_toValue_iff (form : Form) (text : String) :
    Json form.toValue text ↔ text = data form := by
  induction form using Form.induct generalizing text with
  | number x => exact ⟨fun | .number .. => rfl, fun h ↦ h ▸ .number x 0⟩
  | string s => exact ⟨fun | .string _ => rfl, fun h ↦ h ▸ .string s⟩
  | symbol name => exact json_symbol_iff name text
  | boolean b =>
      cases b with
      | true => exact ⟨fun | .yes => rfl, fun h ↦ h ▸ .yes⟩
      | false => exact ⟨fun | .no => rfl, fun h ↦ h ▸ .no⟩
  | nil => exact ⟨fun | .nil => rfl, fun h ↦ h ▸ .nil⟩
  | quote inner ih =>
      -- The value and the data of a mark are those of the list that spells it out.
      have hitems : ∀ item ∈ [.symbol Keyword.quote.name, inner], ∀ text,
          Json item.toValue text ↔ text = data item := by
        rw [List.forall_mem_cons, List.forall_mem_singleton]
        exact ⟨json_symbol_iff Keyword.quote.name, ih⟩
      exact json_list_iff hitems text
  | list items ih => exact json_list_iff ih text

end Script

/-- The value of a quoted form has the text of the form, and the data of the form for its JSON. Two
forms of which only the marks are spelled differently, at whatever depth, have all three in common. -/
theorem quotations_agree (form : Form) :
    form.toValue.text = form.render ∧
      (∀ text, Script.Json form.toValue text ↔ text = Script.data form) ∧
      ∀ other : Form, other.expand = form.expand →
        other.toValue = form.toValue ∧ other.render = form.render ∧
          Script.data other = Script.data form := by
  refine ⟨form.text_toValue, Script.json_toValue_iff form, fun other h ↦ ⟨?_, ?_, ?_⟩⟩
  · rw [← other.toValue_expand, h, form.toValue_expand]
  · rw [← other.render_expand, h, form.render_expand]
  · rw [← Script.data_expand other, h, Script.data_expand form]

/-- A mark inside a mark, behind a name and in front of an empty list. -/
def Form.nestedMark : Form := .list [.symbol "a", .quote (.quote (.symbol "b")), .list []]

/-- The same list with the outer mark written out. -/
def Form.outerWritten : Form :=
  .list [.symbol "a", .list [.symbol "quote", .quote (.symbol "b")], .list []]

theorem quotations_agree_nestedMark :
    Form.outerWritten.expand = Form.nestedMark.expand ∧
      Form.outerWritten.toValue = Form.nestedMark.toValue ∧
      Form.outerWritten.render = Form.nestedMark.render ∧
      Script.data Form.outerWritten = Script.data Form.nestedMark :=
  ⟨rfl, (quotations_agree Form.nestedMark).2.2 Form.outerWritten rfl⟩

end MiniLisp
