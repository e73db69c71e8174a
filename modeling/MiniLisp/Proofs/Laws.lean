import MiniLisp.Proofs.Framing
import MiniLisp.Proofs.Natives
import MiniLisp.Proofs.Respelling

/-!
# Laws of names, forms and errors

A law says which names, forms and errors a session may come upon. A store keeps the law if its frames
bind such names to values that are made of such names and forms; its closures capture frames that
are there, and a frame is younger than its parent. To be sound, a law has to follow the forms from a
whole to its parts, and to allow the errors that its names and forms can lead to.
-/

namespace MiniLisp

/-- How many operands the special form takes, if their number is fixed. -/
def Keyword.count? : Keyword → Option Nat
  | .quote => some 1
  | .lambda => some 2
  | .list => none
  | .define => some 2
  | .conditional => some 3

namespace Form

/-- The name occurs in the form, in quoted data as well; a mark stands for its keyword. -/
inductive Mentions : Form → String → Prop
  | symbol (name : String) : Mentions (.symbol name) name
  | mark (inner : Form) : Mentions (.quote inner) Keyword.quote.name
  | quote {inner : Form} {name : String} (h : Mentions inner name) : Mentions (.quote inner) name
  | list {items : List Form} {item : Form} {name : String} (mem : item ∈ items)
      (h : Mentions item name) : Mentions (.list items) name

/-- The form on the left is evaluated with the one on the right, or when its closure is called. -/
inductive Part : Form → Form → Prop
  | call {head item : Form} {operands : List Form} (hhead : Keyword.ofHead? head = none)
      (mem : item ∈ head :: operands) : Part item (.list (head :: operands))
  | item {item : Form} {operands : List Form} (mem : item ∈ operands) :
      Part item (.list (.symbol Keyword.list.name :: operands))
  | body (params : List Form) (body : Form) :
      Part body (.list [.symbol Keyword.lambda.name, .list params, body])
  | value (name : String) (value : Form) :
      Part value (.list [.symbol Keyword.define.name, .symbol name, value])
  | choice {test yes no item : Form} (mem : item ∈ [test, yes, no]) :
      Part item (.list [.symbol Keyword.conditional.name, test, yes, no])

/-- Evaluating the form puts the name into a value or into a frame. -/
inductive Introduces : Form → String → Prop
  | quoted {inner : Form} {name : String} (h : inner.Mentions name) :
      Introduces (.quote inner) name
  | data {form : Form} {name : String} (h : form.Mentions name) :
      Introduces (.list [.symbol Keyword.quote.name, form]) name
  | parameter {params : List Form} {name : String} (mem : .symbol name ∈ params) (body : Form) :
      Introduces (.list [.symbol Keyword.lambda.name, .list params, body]) name
  | target (name : String) (value : Form) :
      Introduces (.list [.symbol Keyword.define.name, .symbol name, value]) name

/-- A special form that has not the shape its keyword asks for, and its error. -/
inductive Misshapen : Form → EvalError → Prop
  | count {k : Keyword} {n : Nat} (hk : k.count? = some n) {operands : List Form}
      (h : operands.length ≠ n) :
      Misshapen (.list (.symbol k.name :: operands)) (k.wrongCount n operands)
  | parameterList {params : Form} (h : ∀ items, params ≠ .list items) (body : Form) :
      Misshapen (.list [.symbol Keyword.lambda.name, params, body])
        (.typeMismatch Keyword.lambda.name .parameterList params.toValue)
  | parameter {params : List Form} {param : Form} (mem : param ∈ params)
      (h : ∀ name, param ≠ .symbol name) (body : Form) :
      Misshapen (.list [.symbol Keyword.lambda.name, .list params, body])
        (.typeMismatch Keyword.lambda.name .parameterSymbol param.toValue)
  | target {target : Form} (h : ∀ name, target ≠ .symbol name) (value : Form) :
      Misshapen (.list [.symbol Keyword.define.name, target, value])
        (.typeMismatch Keyword.define.name .symbol target.toValue)

theorem Part.exists_items {item whole : Form} (h : item.Part whole) :
    ∃ items, whole = .list items ∧ item ∈ items := by
  cases h with
  | call _ mem => exact ⟨_, rfl, mem⟩
  | item mem | choice mem => exact ⟨_, rfl, List.mem_cons_of_mem _ mem⟩
  | body | value => exact ⟨_, rfl, by simp⟩

theorem Part.mentions {item whole : Form} {name : String} (h : Part item whole)
    (hname : item.Mentions name) : whole.Mentions name := by
  obtain ⟨items, rfl, mem⟩ := h.exists_items
  exact .list mem hname

theorem Introduces.mentions {form : Form} {name : String} (h : form.Introduces name) :
    form.Mentions name := by
  cases h with
  | quoted h => exact .quote h
  | data h => exact .list (by simp) h
  | parameter mem =>
      exact .list (List.mem_cons_of_mem _ List.mem_cons_self) (.list mem (.symbol name))
  | target => exact .list (by simp) (.symbol name)

end Form

/-- Which names, forms and errors a session may come upon. -/
structure Law where
  name : String → Prop
  form : Form → Prop
  error : EvalError → Prop

/-- The names and forms in the value keep the law, and its closures capture frames among the first
`size`. -/
inductive Value.Obeys (L : Law) (size : Nat) : Value → Prop
  | boolean (b : Bool) : Obeys L size (.boolean b)
  | number (x : Double) (mark : Nat) : Obeys L size (.number x mark)
  | string (s : String) : Obeys L size (.string s)
  | symbol {name : String} (h : L.name name) : Obeys L size (.symbol name)
  | nil : Obeys L size .nil
  | list {items : List Value} (h : ∀ v ∈ items, Obeys L size v) : Obeys L size (.list items)
  | closure {id : Nat} {params : List String} {body : Form} {scope : FrameId}
      (hparams : ∀ name ∈ params, L.name name) (hbody : L.form body) (hscope : scope < size) :
      Obeys L size (.closure id params body scope)
  | native (op : Primitive) (home : FrameId) : Obeys L size (.native op home)

/-- A frame is younger than its parent, and the bindings keep the law. -/
structure Store.Obeys (L : Law) (s : Store) : Prop where
  parent : ∀ f g : FrameId, s.parent? f = some g → g < f
  bindings : ∀ (f : FrameId) (name : String) (v : Value), (name, v) ∈ s.bindings f →
    L.name name ∧ v.Obeys L s.frames.size

/-- The law follows the forms to their parts, and allows the errors they can lead to. -/
structure Law.Sound (L : Law) : Prop where
  native : ∀ op : Primitive, L.name op.name
  part : ∀ {whole item : Form}, L.form whole → item.Part whole → L.form item
  introduced : ∀ {form : Form} {name : String}, L.form form → form.Introduces name → L.name name
  misshapen : ∀ {form : Form} {e : EvalError}, L.form form → form.Misshapen e → L.error e
  unbound : ∀ {name : String}, L.form (.symbol name) → L.error (.unboundSymbol name)
  exhausted : ∀ limit : Int, L.error (.stackExhausted limit)
  notCallable : ∀ {size : Nat} {v : Value}, v.Obeys L size → L.error (.notCallable v)
  arity : ∀ {params : List String} {body : Form} (count : Nat), (∀ name ∈ params, L.name name) →
    L.form body → L.error (.wrongArity (closureText params body) (.exactly params.length) count)
  complaint : ∀ {size : Nat} {op : Primitive} {args : List Value} {e : EvalError},
    (∀ v ∈ args, v.Obeys L size) → op.Complaint args e → L.error e

variable {L : Law}

namespace Value.Obeys

theorem mono {size size' : Nat} {v : Value} (h : v.Obeys L size) (hsize : size ≤ size') :
    v.Obeys L size' := by
  induction h with
  | boolean b => exact .boolean b
  | number x mark => exact .number x mark
  | string s => exact .string s
  | symbol h => exact .symbol h
  | nil => exact .nil
  | list _ ih => exact .list ih
  | closure hparams hbody hscope => exact .closure hparams hbody (Nat.lt_of_lt_of_le hscope hsize)
  | native op home => exact .native op home

theorem items {size : Nat} {vs : List Value} (h : (Value.list vs).Obeys L size) :
    ∀ v ∈ vs, v.Obeys L size := by
  cases h with
  | list h => exact h

end Value.Obeys

theorem Form.obeys_toValue {form : Form} (h : ∀ name, form.Mentions name → L.name name)
    (size : Nat) : form.toValue.Obeys L size := by
  induction form using Form.induct with
  | number x => exact .number x 0
  | string s => exact .string s
  | symbol name => exact .symbol (h name (.symbol name))
  | boolean b => exact .boolean b
  | nil => exact .nil
  | quote inner ih =>
      have hkeyword : L.name Keyword.quote.name := h _ (.mark inner)
      have hinner := ih fun name hname ↦ h name (.quote hname)
      refine .list fun v hv ↦ ?_
      rcases List.mem_cons.mp hv with rfl | hv
      · exact .symbol hkeyword
      · exact List.mem_singleton.mp hv ▸ hinner
  | list items ih =>
      rw [toValue_list]
      refine .list fun v hv ↦ ?_
      obtain ⟨item, hitem, rfl⟩ := List.mem_map.mp hv
      exact ih item hitem fun name hname ↦ h name (.list hitem hname)

theorem mem_bindName {name n : String} {v w : Value} {bs : List (String × Value)}
    (h : (n, w) ∈ bindName name v bs) : (n = name ∧ w = v) ∨ (n, w) ∈ bs := by
  induction bs with
  | nil => exact .inl (by simpa [bindName] using h)
  | cons b bs ih =>
      obtain ⟨m, u⟩ := b
      rw [bindName] at h
      split at h
      next hm =>
        rcases List.mem_cons.mp h with hhead | htail
        · obtain ⟨rfl, rfl⟩ := Prod.mk.inj hhead
          exact .inl ⟨hm, rfl⟩
        · exact .inr (List.mem_cons_of_mem _ htail)
      next =>
        rcases List.mem_cons.mp h with hhead | htail
        · exact .inr (hhead ▸ List.mem_cons_self)
        · exact (ih htail).imp_right (List.mem_cons_of_mem _)

namespace Store

theorem size_define (s : Store) (f : FrameId) (name : String) (v : Value) :
    (s.define f name v).frames.size = s.frames.size := by
  rw [define, Array.size_modify]

theorem parent?_define (s : Store) (f g : FrameId) (name : String) (v : Value) :
    (s.define f name v).parent? g = s.parent? g := by
  rw [parent?, parent?, frames_define]
  cases s.frames[g]? with
  | none => rfl
  | some frame => by_cases h : f = g <;> simp [h]

theorem mem_bindings_define {s : Store} {f g : FrameId} {name n : String} {v w : Value}
    (h : (n, w) ∈ (s.define f name v).bindings g) :
    (n = name ∧ w = v) ∨ (n, w) ∈ s.bindings g := by
  rw [bindings, frames_define] at h
  rw [bindings]
  cases hg : s.frames[g]? with
  | none => simp [hg] at h
  | some frame =>
      rw [hg, Option.map_some] at h
      by_cases hf : f = g
      · rw [if_pos hf] at h
        exact mem_bindName h
      · rw [if_neg hf] at h
        exact .inr h

theorem mem_bindings_of_lookup {s : Store} {f : FrameId} {name : String} {v : Value}
    (h : (s.bindings f).lookup name = some v) : (name, v) ∈ s.bindings f := by
  obtain ⟨before, behind, hbindings, -⟩ := List.lookup_eq_some_iff.mp h
  rw [hbindings]
  exact List.mem_append_right before List.mem_cons_self

theorem mem_bindings_of_lookup? {s : Store} {f : FrameId} {name : String} {v : Value}
    (h : s.lookup? f name = some v) : ∃ g, (name, v) ∈ s.bindings g := by
  obtain ⟨g, -, hg⟩ := Option.bind_eq_some_iff.mp h
  exact ⟨g, mem_bindings_of_lookup hg⟩

theorem frames_newFrame (s : Store) (parent : Option FrameId) (f : FrameId) :
    (s.newFrame parent).2.frames[f]? =
      if f = s.frames.size then some ⟨parent, []⟩ else s.frames[f]? :=
  Array.getElem?_push

/-- Frames stay younger than their parents. -/
theorem lt_of_parent?_newFrame {s : Store} {parent : Option FrameId} {f g : FrameId}
    (h : ∀ f g : FrameId, s.parent? f = some g → g < f)
    (hparent : ∀ g, parent = some g → g < s.frames.size)
    (hg : (s.newFrame parent).2.parent? f = some g) : g < f := by
  rw [parent?, frames_newFrame] at hg
  by_cases hf : f = s.frames.size
  · rw [if_pos hf] at hg
    exact hf ▸ hparent g hg
  · rw [if_neg hf] at hg
    exact h f g hg

namespace Obeys

variable {s t : Store}

theorem of_frames_eq (h : s.Obeys L) (hframes : t.frames = s.frames) : t.Obeys L := by
  have hparent : ∀ f, t.parent? f = s.parent? f := fun f ↦ by rw [parent?, parent?, hframes]
  have hbindings : ∀ f, t.bindings f = s.bindings f := fun f ↦ by
    rw [Store.bindings, Store.bindings, hframes]
  refine ⟨?_, ?_⟩
  · intro f g hg
    exact h.parent f g (hparent f ▸ hg)
  · intro f name v hv
    rw [hframes]
    exact h.bindings f name v (hbindings f ▸ hv)

theorem lookup (h : s.Obeys L) {f : FrameId} {name : String} {v : Value}
    (hv : s.lookup? f name = some v) : L.name name ∧ v.Obeys L s.frames.size := by
  obtain ⟨g, hg⟩ := mem_bindings_of_lookup? hv
  exact h.bindings g name v hg

theorem define (h : s.Obeys L) (f : FrameId) {name : String} {v : Value} (hname : L.name name)
    (hv : v.Obeys L s.frames.size) : (s.define f name v).Obeys L := by
  refine ⟨?_, ?_⟩
  · intro g parent hparent
    rw [parent?_define] at hparent
    exact h.parent g parent hparent
  · intro g n w hw
    rw [size_define]
    rcases mem_bindings_define hw with ⟨rfl, rfl⟩ | hw
    · exact ⟨hname, hv⟩
    · exact h.bindings g n w hw

theorem defineAll (h : s.Obeys L) (f : FrameId) {pairs : List (String × Value)}
    (hpairs : ∀ name v, (name, v) ∈ pairs → L.name name ∧ v.Obeys L s.frames.size) :
    (s.defineAll f pairs).Obeys L := by
  induction pairs generalizing s with
  | nil => exact h
  | cons pair pairs ih =>
      obtain ⟨name, v⟩ := pair
      obtain ⟨hname, hv⟩ := hpairs name v List.mem_cons_self
      apply ih (h.define f hname hv)
      intro n w hw
      rw [size_define]
      exact hpairs n w (List.mem_cons_of_mem _ hw)

theorem newFrame (h : s.Obeys L) {parent : Option FrameId}
    (hparent : ∀ g, parent = some g → g < s.frames.size) : (s.newFrame parent).2.Obeys L := by
  refine ⟨fun f g ↦ lt_of_parent?_newFrame h.parent hparent, ?_⟩
  · intro f n v hv
    rw [Store.bindings, frames_newFrame] at hv
    by_cases hf : f = s.frames.size
    · rw [if_pos hf] at hv
      cases hv
    · rw [if_neg hf] at hv
      obtain ⟨hname, hvalue⟩ := h.bindings f n v hv
      exact ⟨hname, hvalue.mono (by simp [Store.newFrame])⟩

end Obeys

theorem size_defineAll (s : Store) (f : FrameId) (pairs : List (String × Value)) :
    (s.defineAll f pairs).frames.size = s.frames.size := by
  induction pairs generalizing s with
  | nil => rfl
  | cons pair pairs ih => rw [defineAll, List.foldl_cons, ← defineAll, ih, size_define]

theorem size_initial : initial.frames.size = 1 := by
  rw [initial, newRoot, size_defineAll]
  rfl

/-- The store of a new session keeps every law that allows the names of the native functions. -/
theorem obeys_initial (h : ∀ op : Primitive, L.name op.name) : initial.Obeys L := by
  have hempty : empty.Obeys L := ⟨fun _ _ hg ↦ by simp [parent?, empty] at hg,
    fun _ _ _ hv ↦ by simp [bindings, empty] at hv⟩
  apply (hempty.newFrame (by simp)).defineAll
  intro name v hv
  obtain ⟨op, -, hop⟩ := List.mem_map.mp hv
  obtain ⟨rfl, rfl⟩ := Prod.mk.inj hop
  exact ⟨h op, .native op _⟩

end Store

end MiniLisp
