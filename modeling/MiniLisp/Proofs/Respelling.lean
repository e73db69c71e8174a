import MiniLisp.Form.Printer
import MiniLisp.Keyword

/-!
# Other spellings of a form

The mark `'x` and the list `(quote x)` spell the same data. A form is respelled by writing all its
marks out, and by another choice of its numbers. Neither the data it stands for nor its text shows
how the marks were written, and nesting is counted alike.
-/

namespace MiniLisp

namespace Form

theorem induct {P : Form → Prop} (number : ∀ x, P (.number x)) (string : ∀ s, P (.string s))
    (symbol : ∀ name, P (.symbol name)) (boolean : ∀ b, P (.boolean b)) (nil : P .nil)
    (quote : ∀ inner, P inner → P (.quote inner))
    (list : ∀ items, (∀ item ∈ items, P item) → P (.list items)) (form : Form) : P form :=
  @Form.rec P (fun items ↦ ∀ item ∈ items, P item) number string symbol boolean nil quote list
    (fun _ h ↦ absurd h List.not_mem_nil)
    (fun _ _ hhead htail _ h ↦ by
      rcases List.mem_cons.mp h with rfl | h
      · exact hhead
      · exact htail _ h) form

mutual

/-- The form with its marks written out and its numbers changed. -/
def respell (number : Double → Double) : Form → Form
  | .number x => .number (number x)
  | .string s => .string s
  | .symbol name => .symbol name
  | .boolean b => .boolean b
  | .nil => .nil
  | .quote inner => .list [.symbol Keyword.quote.name, inner.respell number]
  | .list items => .list (respellItems number items)

def respellItems (number : Double → Double) : List Form → List Form
  | [] => []
  | item :: items => item.respell number :: respellItems number items

end

def expand (form : Form) : Form := form.respell id

theorem respellItems_eq_map (number : Double → Double) (items : List Form) :
    respellItems number items = items.map (respell number) := by
  induction items with
  | nil => rfl
  | cons item items ih => rw [respellItems, ih, List.map_cons]

theorem renderItems_eq_map (items : List Form) : renderItems items = items.map render := by
  induction items with
  | nil => rfl
  | cons item items ih => rw [renderItems, ih, List.map_cons]

theorem toValues_eq_map (items : List Form) : toValues items = items.map toValue := by
  induction items with
  | nil => rfl
  | cons item items ih => rw [toValues, ih, List.map_cons]

theorem respell_list (number : Double → Double) (items : List Form) :
    (Form.list items).respell number = .list (items.map (respell number)) := by
  rw [respell, respellItems_eq_map]

theorem render_list (items : List Form) :
    (Form.list items).render = parenthesize (items.map render) := by
  rw [render, renderItems_eq_map]

theorem toValue_list (items : List Form) :
    (Form.list items).toValue = .list (items.map toValue) := by
  rw [toValue, toValues_eq_map]

theorem render_respell {number : Double → Double} (hnumber : ∀ x, (number x).render = x.render)
    (form : Form) : (form.respell number).render = form.render := by
  induction form using Form.induct with
  | number x => exact hnumber x
  | string | symbol | boolean | nil => rfl
  | quote inner ih => rw [respell, render_list, List.map_cons, List.map_singleton, ih]; rfl
  | list items ih =>
      rw [respell_list, render_list, render_list, List.map_map]
      congr 1
      exact List.map_congr_left ih

theorem render_expand (form : Form) : form.expand.render = form.render :=
  render_respell (fun _ ↦ rfl) form

theorem toValue_expand (form : Form) : form.expand.toValue = form.toValue := by
  induction form using Form.induct with
  | number | string | symbol | boolean | nil => rfl
  | quote inner ih =>
      rw [expand, respell, toValue_list, List.map_cons, List.map_singleton]
      rw [expand] at ih
      rw [ih]
      rfl
  | list items ih =>
      rw [expand, respell_list, toValue_list, toValue_list, List.map_map]
      congr 1
      exact List.map_congr_left ih

theorem respell_respell (number number' : Double → Double) (form : Form) :
    (form.respell number).respell number' = form.respell (number' ∘ number) := by
  induction form using Form.induct with
  | number | string | symbol | boolean | nil => rfl
  | quote inner ih =>
      rw [respell, respell_list, respell, List.map_cons, List.map_singleton, ih]
      rfl
  | list items ih =>
      rw [respell_list, respell_list, respell_list, List.map_map]
      congr 1
      exact List.map_congr_left ih

theorem depth_respell (number : Double → Double) (form : Form) :
    (form.respell number).depth = form.depth := by
  induction form using Form.induct with
  | number | string | symbol | boolean | nil => rfl
  | quote inner ih =>
      simp only [respell, depth, depthOfItems, ih]
      omega
  | list items ih =>
      rw [respell_list, depth, depth]
      induction items with
      | nil => rfl
      | cons item items ihItems =>
          obtain ⟨hhead, htail⟩ := List.forall_mem_cons.mp ih
          rw [List.map_cons, depthOfItems, depthOfItems, hhead, ihItems htail]

end Form

end MiniLisp
