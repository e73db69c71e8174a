import MiniLisp.Proofs.Laws
import MiniLisp.Proofs.ReadBack
import MiniLisp.Proofs.TwoStores
import MiniLisp.Proofs.ZeroSigns
import Mathlib.Logic.Relation

/-!
# Values whose closures are spelled otherwise

Another spelling of the marks in the bodies of closures, and other signs of their zeros, change no
text of a value and no answer of a native function. In one place alone are the spellings told apart:
a mark is no parameter list, and a list that begins with `quote` is one. So forms echo each other if
they are the same, or if they are two spellings without a mark in that place, wherever it might be
evaluated.
-/

namespace MiniLisp

namespace Form

/-- The same form, but for the spelling of marks and the signs of zeros. -/
def Matches (f g : Form) : Prop := f.desugar = g.desugar

/-- The first form is the second one in quotes, in either spelling. -/
inductive Quotes : Form → Form → Prop
  | mark (inner : Form) : Quotes (.quote inner) inner
  | list (inner : Form) : Quotes (.list [.symbol Keyword.quote.name, inner]) inner

/-- How forms match, one level down. -/
inductive Pairs : Form → Form → Prop
  | number {x y : Double} (h : x.Matches y) : Pairs (.number x) (.number y)
  | string (s : String) : Pairs (.string s) (.string s)
  | symbol (name : String) : Pairs (.symbol name) (.symbol name)
  | boolean (b : Bool) : Pairs (.boolean b) (.boolean b)
  | nil : Pairs .nil .nil
  | quoted {f g a b : Form} (hf : f.Quotes a) (hg : g.Quotes b) (h : a.Matches b) : Pairs f g
  | list {items items' : List Form} (h : List.Forall₂ Matches items items') :
      Pairs (.list items) (.list items')

/-- The form asks for a closure and has a mark in the place of its parameter list. -/
inductive Marked : Form → Prop
  | lambda (params body : Form) :
      Marked (.list [.symbol Keyword.lambda.name, .quote params, body])

/-- Nothing that may be evaluated with the form, or when a closure of it is called, has a mark in
the place of a parameter list. -/
def Unmarked (form : Form) : Prop := ∀ item, Relation.ReflTransGen Part item form → ¬ item.Marked

/-- The forms are the same, or are spelled differently without being told apart. -/
structure Echoes (f g : Form) : Prop where
  same : f.Matches g
  marks : f = g ∨ f.Unmarked ∧ g.Unmarked

section Matching

variable {f g a : Form}

theorem Matches.refl (f : Form) : f.Matches f := rfl

theorem Matches.depth_eq (h : f.Matches g) : f.depth = g.depth := by
  rw [← f.depth_respell Double.dropZeroSign, ← g.depth_respell Double.dropZeroSign]
  exact congrArg depth h

theorem Matches.render_eq (h : f.Matches g) : f.render = g.render := by
  rw [← render_respell Double.render_dropZeroSign f, ← render_respell Double.render_dropZeroSign g]
  exact congrArg render h

theorem matches_respell {number : Double → Double} (h : ∀ x, (number x).Matches x) (f : Form) :
    f.Matches (f.respell number) := by
  have hnumber : Double.dropZeroSign ∘ number = Double.dropZeroSign := funext h
  rw [Matches, desugar, desugar, respell_respell, hnumber]

theorem quotes_of_respell_eq {number : Double → Double} {items : List Form} {inner : Form}
    (h : (Form.list items).respell number = .list [.symbol Keyword.quote.name, inner]) :
    ∃ b, (Form.list items).Quotes b ∧ b.respell number = inner := by
  rw [respell_list] at h
  obtain ⟨head, rest, rfl, hhead, hrest⟩ := List.map_eq_cons_iff.mp (Form.list.inj h)
  obtain ⟨b, rest, rfl, hb, hnil⟩ := List.map_eq_cons_iff.mp hrest
  obtain rfl := List.map_eq_nil_iff.mp hnil
  cases head with
  | symbol name =>
      cases hhead
      exact ⟨b, .list b, hb⟩
  | number | string | boolean | nil | quote | list => nomatch hhead

theorem Matches.pairs (h : f.Matches g) : f.Pairs g := by
  rw [Matches, desugar, desugar] at h
  cases f with
  | number x => cases g with
    | number y => exact .number (Form.number.inj h)
    | string | symbol | boolean | nil | quote | list => cases h
  | string s => cases g with
    | string t => cases h; exact .string s
    | number | symbol | boolean | nil | quote | list => cases h
  | symbol name => cases g with
    | symbol name' => cases h; exact .symbol name
    | number | string | boolean | nil | quote | list => cases h
  | boolean b => cases g with
    | boolean b' => cases h; exact .boolean b
    | number | string | symbol | nil | quote | list => cases h
  | nil => cases g with
    | nil => exact .nil
    | number | string | symbol | boolean | quote | list => cases h
  | quote a => cases g with
    | quote b => exact .quoted (.mark a) (.mark b) (by simpa [respell, Matches, desugar] using h)
    | list items =>
        obtain ⟨b, hb, hab⟩ := quotes_of_respell_eq h.symm
        exact .quoted (.mark a) hb hab.symm
    | number | string | symbol | boolean | nil => cases h
  | list items => cases g with
    | quote b =>
        obtain ⟨a, ha, hab⟩ := quotes_of_respell_eq h
        exact .quoted ha (.mark b) hab
    | list items' =>
        rw [respell_list, respell_list] at h
        apply Pairs.list
        have hitems := List.forall₂_eq_eq_eq ▸ Form.list.inj h
        rwa [List.forall₂_map_left_iff, List.forall₂_map_right_iff] at hitems
    | number | string | symbol | boolean | nil => cases h

end Matching

section Marks

variable {f g form item whole : Form}

theorem Unmarked.part (h : whole.Unmarked) (hpart : item.Part whole) : item.Unmarked :=
  fun inner hinner ↦ h inner (hinner.tail hpart)

theorem Unmarked.not_marked (h : form.Unmarked) : ¬ form.Marked := h form .refl

/-- What passes from forms to their items, and holds of no marked form, holds of unmarked ones. -/
theorem unmarked_of {P : Form → Prop} (hmarked : ∀ form, P form → ¬ form.Marked)
    (hitem : ∀ items, P (.list items) → ∀ item ∈ items, P item) (h : P form) : form.Unmarked := by
  intro item hpart
  refine hmarked item ?_
  induction hpart using Relation.ReflTransGen.head_induction_on with
  | refl => exact h
  | head hstep _ ih =>
      obtain ⟨items, rfl, mem⟩ := hstep.exists_items
      exact hitem items ih _ mem

/-- A form that has been respelled has no marks at all. -/
theorem unmarked_respell {number : Double → Double} (h : number ∘ number = number) (form : Form) :
    (form.respell number).Unmarked := by
  refine unmarked_of (P := fun form ↦ form.respell number = form) ?_ ?_ ?_
  · rintro _ hfixed ⟨params, body⟩
    nomatch hfixed
  · intro items hfixed item mem
    rw [respell_list, Form.list.injEq] at hfixed
    exact List.map_inj_left.mp (hfixed.trans (List.map_id items).symm) item mem
  · rw [respell_respell, h]

namespace Echoes

theorem refl (f : Form) : f.Echoes f := ⟨.refl f, .inl rfl⟩

/-- Forms that are evaluated with these echo each other as well. -/
theorem parts (h : f.Echoes g) {items items' : List Form}
    (hmatches : List.Forall₂ Matches items items') (heq : f = g → items = items')
    (hparts : ∀ item ∈ items, item.Part f) (hparts' : ∀ item ∈ items', item.Part g) :
    List.Forall₂ Echoes items items' := by
  rcases h.marks with rfl | ⟨hf, hg⟩
  · obtain rfl := heq rfl
    exact List.forall₂_same.mpr fun item _ ↦ .refl item
  · have hright := forall₂_of_mem hmatches.flip fun item' mem item hmatch ↦
      And.intro hmatch (hg.part (hparts' item' mem))
    exact forall₂_of_mem hright.flip fun item mem item' hmatch ↦
      ⟨hmatch.1, .inr ⟨hf.part (hparts item mem), hmatch.2⟩⟩

end Echoes

end Marks

end Form

namespace Value

/-- The values are the same, but for the signs of zeros and the spelling of bodies. -/
inductive Echoes : Value → Value → Prop
  | boolean (b : Bool) : Echoes (.boolean b) (.boolean b)
  | number {x y : Double} (h : x.Matches y) (mark : Nat) : Echoes (.number x mark) (.number y mark)
  | string (s : String) : Echoes (.string s) (.string s)
  | symbol (name : String) : Echoes (.symbol name) (.symbol name)
  | nil : Echoes .nil .nil
  | list {vs ws : List Value} (h : List.Forall₂ Echoes vs ws) : Echoes (.list vs) (.list ws)
  | closure (id : Nat) (params : List String) {body body' : Form} (h : body.Echoes body')
      (scope : FrameId) : Echoes (.closure id params body scope) (.closure id params body' scope)
  | native (op : Primitive) (home : FrameId) : Echoes (.native op home) (.native op home)

namespace Echoes

variable {v w v' w' : Value}

theorem refl (v : Value) : v.Echoes v := by
  induction v using Value.induct with
  | boolean b => exact .boolean b
  | number x mark => exact .number rfl mark
  | string s => exact .string s
  | symbol name => exact .symbol name
  | nil => exact .nil
  | list items ih => exact .list (List.forall₂_same.mpr ih)
  | closure id params body scope => exact .closure id params (.refl body) scope
  | native op home => exact .native op home

theorem shape (h : v.Echoes w) : v.Shape Double.Matches Echoes w := by
  cases h with
  | boolean b => exact .boolean b
  | number h => exact .number h _ _
  | string s => exact .string s
  | symbol name => exact .symbol name
  | nil => exact .nil
  | list h => exact .list h
  | closure => exact .closure _ _ _ _ _ _ _ _
  | native op home => exact .native op home

theorem render (h : v.Echoes w) (style : Style) : v.render style = w.render style := by
  refine Shape.render_eq (fun h ↦ h.shape) Double.Matches.render (fun h ↦ ?_) h style
  cases h with
  | closure _ _ hbody => rw [closureText, closureText, hbody.same.render_eq]

theorem equal (h : v.Echoes w) (h' : v'.Echoes w') : v.equal v' = w.equal w' := by
  refine Shape.equal_eq (fun h ↦ h.shape) (fun h h' ↦ ?_) (fun h h' ↦ ?_) h h'
  · cases h with
    | number h =>
        cases h' with
        | number h' => rw [Value.equal, Value.equal, h.equal h', h.isNaN, h'.isNaN]
  · cases h
    cases h'
    rfl

end Echoes

end Value

theorem Form.Quotes.toValue {f a : Form} (h : f.Quotes a) :
    f.toValue = .list [.symbol Keyword.quote.name, a.toValue] := by
  cases h <;> rfl

theorem Form.Matches.toValue {f g : Form} (h : f.Matches g) : f.toValue.Echoes g.toValue := by
  -- In either spelling, data in quotes is the list of the keyword and the data.
  have hquoted {f g a b : Form} (hf : f.Quotes a) (hg : g.Quotes b)
      (h : a.toValue.Echoes b.toValue) : f.toValue.Echoes g.toValue := by
    rw [hf.toValue, hg.toValue]
    exact .list (.cons (.symbol Keyword.quote.name) (.cons h .nil))
  induction f using Form.induct generalizing g with
  | number x =>
      cases h.pairs with
      | number hxy => exact .number hxy 0
      | quoted hf => nomatch hf
  | string | symbol | boolean | nil =>
      cases h.pairs with
      | quoted hf => nomatch hf
      | _ => exact .refl _
  | quote inner ih =>
      cases h.pairs with
      | quoted hf hg hmatch =>
          cases hf
          exact hquoted (.mark inner) hg (ih hmatch)
  | list items ih =>
      cases h.pairs with
      | @quoted _ _ a b hf hg hmatch =>
          cases hf
          exact hquoted (.list a) hg (ih a (by simp) hmatch)
      | @list _ items' hitems =>
          rw [toValue_list, toValue_list]
          apply Value.Echoes.list
          rw [List.forall₂_map_left_iff, List.forall₂_map_right_iff]
          exact forall₂_of_mem hitems fun item mem item' ↦ ih item mem

theorem Double.respected_matches : Respected Matches where
  refl _ := rfl
  add := Matches.add
  sub := Matches.sub
  mul := Matches.mul
  div := Matches.div
  neg := Matches.neg
  isZero := Matches.isZero
  less := Matches.less
  lessEq := Matches.lessEq
  whole? := Matches.whole?

/-- Runs whose values echo each other. -/
abbrev echoing : Correspondence := .ofValues Double.Matches Value.Echoes EvalError.Alike

theorem lawful_echoing : echoing.Lawful where
  respected := Double.respected_matches
  shape h := Value.Echoes.shape h
  boolean b := .boolean b
  nil := .nil
  list h := .list h
  text h := Value.Echoes.render h .person
  equal h h' := Value.Echoes.equal h h'
  number := Correspondence.runs_number Double.Matches.isNaN fun mark h ↦ .number h mark
  write home text h := Store.Alike.write h home text
  arity _ _ _ := .refl _
  mismatch callee needed h := EvalError.alike_typeMismatch (h.render .machine) callee needed
  zero _ := .refl _

end MiniLisp
