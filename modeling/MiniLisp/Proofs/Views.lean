import Mathlib.Order.Monotone.Basic
import MiniLisp.Proofs.Laws
import MiniLisp.Proofs.TwoCalls

/-!
# Values under other numbers

Two runs of the same forms may number the frames and identities that they make in two ways. A view
maps the numbers of the first run to those of the second; it may hide some names, whose bindings are
not compared, and only live frames are compared at all. Values that correspond in a view have the
same texts, and native functions answer them alike.
-/

namespace MiniLisp

namespace Form

/-- The name occurs in the form, outside quoted data and not at the head of a special form. -/
inductive Uses : Form → String → Prop
  | symbol (name : String) : Uses (.symbol name) name
  | head {head : Form} {operands : List Form} {name : String}
      (hhead : Keyword.ofHead? head = none) (h : Uses head name) :
      Uses (.list (head :: operands)) name
  | operand {head item : Form} {operands : List Form} {name : String}
      (hquote : head ≠ .symbol Keyword.quote.name) (mem : item ∈ operands) (h : Uses item name) :
      Uses (.list (head :: operands)) name

theorem Part.uses {item whole : Form} {name : String} (h : Part item whole)
    (hname : item.Uses name) : whole.Uses name := by
  cases h with
  | @call head _ operands hhead mem =>
      have hquote : head ≠ .symbol Keyword.quote.name := by
        rintro rfl
        cases hhead
      rcases List.mem_cons.mp mem with rfl | mem
      · exact .head hhead hname
      · exact .operand hquote mem hname
  | item mem => exact .operand (by simp [Keyword.name]) mem hname
  | body | value => exact .operand (by simp [Keyword.name]) (by simp) hname
  | choice mem => exact .operand (by simp [Keyword.name]) mem hname

end Form

/-- How many frames there are, and the next identity to be given out. -/
structure Extent where
  frames : Nat
  ids : Nat

instance : Preorder Extent where
  le n m := n.frames ≤ m.frames ∧ n.ids ≤ m.ids
  le_refl n := ⟨Nat.le_refl n.frames, Nat.le_refl n.ids⟩
  le_trans _ _ _ h h' := ⟨Nat.le_trans h.1 h'.1, Nat.le_trans h.2 h'.2⟩

def Store.extent (s : Store) : Extent := ⟨s.frames.size, s.nextId⟩

/-- How the frames and identities of one run are numbered in another. The lines are those that were
written before either run. -/
structure View where
  frame : FrameId → FrameId
  identity : Nat → Nat
  hidden : String → Prop
  live : FrameId → Prop
  lines : List Line
  lines' : List Line
  strictMono_frame : StrictMono frame
  injective_identity : Function.Injective identity
  identity_zero : identity 0 = 0

/-- The second value is the first one, or an item in it. -/
inductive Value.Has : Value → Value → Prop
  | self (v : Value) : Has v v
  | item {vs : List Value} {v w : Value} (mem : v ∈ vs) (h : Has v w) : Has (.list vs) w

theorem Value.Obeys.has {L : Law} {size : Nat} {v w : Value} (h : v.Obeys L size) (hw : v.Has w) :
    w.Obeys L size := by
  induction hw with
  | self v => exact h
  | item mem _ ih => exact ih (h.items _ mem)

namespace View

/-- No hidden name is used in the form. -/
def Allows (V : View) (form : Form) : Prop := ∀ name, V.hidden name → ¬ form.Uses name

/-- The values correspond; what the first one refers to is there, and its bodies are allowed. -/
inductive Sees (V : View) (n : Extent) : Value → Value → Prop
  | boolean (b : Bool) : Sees V n (.boolean b) (.boolean b)
  | number (x : Double) {mark : Nat} (h : mark = 0 ∨ mark < n.ids) :
      Sees V n (.number x mark) (.number x (V.identity mark))
  | string (s : String) : Sees V n (.string s) (.string s)
  | symbol (name : String) : Sees V n (.symbol name) (.symbol name)
  | nil : Sees V n .nil .nil
  | list {vs ws : List Value} (h : List.Forall₂ (Sees V n) vs ws) : Sees V n (.list vs) (.list ws)
  | closure {id : Nat} (params : List String) {body : Form} {scope : FrameId} (hid : id < n.ids)
      (hbody : V.Allows body) (hscope : scope < n.frames) (hlive : V.live scope) :
      Sees V n (.closure id params body scope)
        (.closure (V.identity id) params body (V.frame scope))
  | native (op : Primitive) (home : FrameId) : Sees V n (.native op home) (.native op home)

variable {V : View} {n m : Extent} {v w v' w' : Value}

theorem Allows.part {whole item : Form} (h : V.Allows whole) (hpart : item.Part whole) :
    V.Allows item :=
  fun name hname huses ↦ h name hname (hpart.uses huses)

namespace Sees

/-- What was given out stays given out, also in another view that agrees on it and looks into no
other closures than the first one does. -/
theorem adapt {V' : View} (h : V.Sees n v w) (hle : n ≤ m)
    (hidentity : ∀ id < n.ids, V'.identity id = V.identity id)
    (hframe : ∀ f < n.frames, V'.frame f = V.frame f)
    (hclosures : ∀ id params body scope, v.Has (.closure id params body scope) →
      V.Allows body → V.live scope → V'.Allows body ∧ V'.live scope) : V'.Sees m v w := by
  induction v using Value.induct generalizing w with
  | boolean b => cases h; exact .boolean b
  | string s => cases h; exact .string s
  | symbol name => cases h; exact .symbol name
  | nil => cases h; exact .nil
  | native op home => cases h; exact .native op home
  | number x mark =>
      cases h with
      | number _ hmark =>
          have hsame : V'.identity mark = V.identity mark := by
            rcases hmark with rfl | hmark
            · rw [V'.identity_zero, V.identity_zero]
            · exact hidentity mark hmark
          rw [← hsame]
          exact .number x (hmark.imp_right fun hlt ↦ Nat.lt_of_lt_of_le hlt hle.2)
  | list items ih =>
      cases h with
      | list hitems =>
          refine .list (forall₂_of_mem hitems fun v hv w hvw ↦ ih v hv hvw ?_)
          exact fun id params body scope hhas ↦ hclosures id params body scope (.item hv hhas)
  | closure id params body scope =>
      cases h with
      | closure _ hid hbody hscope hlive =>
          obtain ⟨hbody', hlive'⟩ := hclosures id params body scope (.self _) hbody hlive
          rw [← hidentity id hid, ← hframe scope hscope]
          exact .closure params (Nat.lt_of_lt_of_le hid hle.2) hbody'
            (Nat.lt_of_lt_of_le hscope hle.1) hlive'

theorem mono (h : V.Sees n v w) (hle : n ≤ m) : V.Sees m v w :=
  h.adapt hle (fun _ _ ↦ rfl) (fun _ _ ↦ rfl) fun _ _ _ _ _ hbody hlive ↦ ⟨hbody, hlive⟩

theorem shape (h : V.Sees n v w) : v.Shape Eq (V.Sees n) w := by
  cases h with
  | boolean b => exact .boolean b
  | number x => exact .number rfl _ _
  | string s => exact .string s
  | symbol name => exact .symbol name
  | nil => exact .nil
  | list h => exact .list h
  | closure params => exact .closure _ _ params params _ _ _ _
  | native op home => exact .native op home

theorem render (h : V.Sees n v w) (style : Style) : v.render style = w.render style := by
  refine Value.Shape.render_eq (fun h ↦ h.shape) (fun h ↦ by rw [h]) (fun h ↦ ?_) h style
  cases h
  rfl

theorem equal (h : V.Sees n v w) (h' : V.Sees n v' w') : v.equal v' = w.equal w' := by
  -- Other identities are told apart as the first ones were.
  have hidentity : ∀ i j, (V.identity i == V.identity j) = (i == j) := fun i j ↦ by
    rw [Bool.eq_iff_iff, beq_iff_eq, beq_iff_eq, V.injective_identity.eq_iff]
  refine Value.Shape.equal_eq (fun h ↦ h.shape) (fun h h' ↦ ?_) (fun h h' ↦ ?_) h h'
  · cases h
    cases h'
    rw [Value.equal, Value.equal, hidentity]
  · cases h
    cases h'
    exact (hidentity _ _).symm

end Sees

end View

theorem Form.sees_toValue (V : View) (n : Extent) (form : Form) :
    V.Sees n form.toValue form.toValue := by
  induction form using Form.induct with
  | number x =>
      have hnumber : V.Sees n (.number x 0) (.number x (V.identity 0)) := .number x (.inl rfl)
      rwa [V.identity_zero] at hnumber
  | string s => exact .string s
  | symbol name => exact .symbol name
  | boolean b => exact .boolean b
  | nil => exact .nil
  | quote inner ih => exact .list (.cons (.symbol Keyword.quote.name) (.cons ih .nil))
  | list items ih =>
      rw [toValue_list]
      apply View.Sees.list
      rw [List.forall₂_map_left_iff, List.forall₂_map_right_iff, List.forall₂_same]
      exact ih

end MiniLisp
