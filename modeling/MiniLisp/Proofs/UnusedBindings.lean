import MiniLisp.Proofs.SessionHeap

/-!
# Bindings that nobody mentions

A session can come to a closure through the bindings of its root frame, the items of their lists, and
the frames that those closures capture. If neither such a closure nor the forms to be run use a name,
then nothing that they show depends on what the name is bound to in the root frame. The names of the
special forms are no exception: at the head of a form they are not looked up.
-/

namespace MiniLisp

namespace Form

variable {name : String}

@[simp] theorem uses_symbol {n : String} : (Form.symbol n).Uses name ↔ n = name := by
  constructor
  · rintro ⟨⟩
    rfl
  · rintro rfl
    exact .symbol n

@[simp] theorem uses_list {head : Form} {operands : List Form} :
    (Form.list (head :: operands)).Uses name ↔
      (Keyword.ofHead? head = none ∧ head.Uses name) ∨
        (head ≠ .symbol Keyword.quote.name ∧ ∃ item ∈ operands, item.Uses name) := by
  constructor
  · rintro (_ | ⟨hhead, h⟩ | ⟨hquote, mem, h⟩)
    · exact .inl ⟨hhead, h⟩
    · exact .inr ⟨hquote, _, mem, h⟩
  · rintro (⟨hhead, h⟩ | ⟨hquote, item, mem, h⟩)
    · exact .head hhead h
    · exact .operand hquote mem h

@[simp] theorem not_uses_boolean (b : Bool) : ¬ (Form.boolean b).Uses name := nofun

@[simp] theorem not_uses_nil : ¬ Form.nil.Uses name := nofun

@[simp] theorem not_uses_quote (inner : Form) : ¬ (Form.quote inner).Uses name := nofun

end Form

namespace Store

/-- The frame can be come to from the root, but not through a binding of the name. -/
inductive Exposes (s : Store) (x : String) : FrameId → Prop
  | root : Exposes s x sessionRoot
  | parent {f g : FrameId} (hf : Exposes s x f) (h : s.parent? f = some g) : Exposes s x g
  | captured {f g : FrameId} {name : String} {v : Value} {id : Nat} {params : List String}
      {body : Form} (hf : Exposes s x f) (hname : name ≠ x)
      (hv : (s.bindings f).lookup name = some v) (h : v.Has (.closure id params body g)) :
      Exposes s x g

/-- The value can be come to from the root, but not through a binding of the name. -/
inductive Holds (s : Store) (x : String) : Value → Prop
  | bound {f : FrameId} {name : String} {v w : Value} (hf : s.Exposes x f) (hname : name ≠ x)
      (hv : (s.bindings f).lookup name = some v) (h : v.Has w) : Holds s x w

variable {s : Store} {x : String}

theorem Obeys.of_holds {L : Law} (h : s.Obeys L) {w : Value} (hw : s.Holds x w) :
    w.Obeys L s.frames.size := by
  cases hw with
  | bound _ _ hv hhas => exact (h.bindings _ _ _ (mem_bindings_of_lookup hv)).2.has hhas

/-- The view of a store as itself in which bindings of the name are hidden, and frames that only
they lead to. -/
def masking (s : Store) (x : String) : View :=
  { View.same with
    hidden := fun name ↦ name = x
    live := fun f ↦ s.Exposes x f ∨ s.frames.size ≤ f }

theorem allows_masking {form : Form} (h : ¬ form.Uses x) : (s.masking x).Allows form := by
  rintro name rfl
  exact h

theorem Reachable.shows_masking (h : s.Reachable)
    (hclosures : ∀ id params body scope, s.Holds x (.closure id params body scope) →
      ¬ body.Uses x) (v : Value) : (s.masking x).Shows s (s.define sessionRoot x v) where
  rooted := h.rooted
  rooted' := h.rooted.define sessionRoot x v
  frames := by
    intro f a hlive ha
    have hf : f < s.frames.size := (Array.getElem?_eq_some_iff.mp ha).1
    have hexposed : s.Exposes x f := hlive.resolve_right (Nat.not_le_of_lt hf)
    obtain ⟨b, hb, -, -, hbindings⟩ := h.shows_same.1.frames f a trivial ha
    obtain rfl : b = a := Option.some.inj (hb.symm.trans ha)
    have hvalues : ∀ name, name ≠ x → Option.Rel ((s.masking x).Sees s.extent)
        (b.bindings.lookup name) (b.bindings.lookup name) := by
      intro name hname
      have hsame := hbindings name not_false
      cases hw : b.bindings.lookup name with
      | none => exact .none
      | some w =>
          rw [hw] at hsame
          rw [← bindings_of_frame ha] at hw
          cases hsame with
          | some hsees =>
              refine .some (hsees.adapt (le_refl _) (fun _ _ ↦ rfl) (fun _ _ ↦ rfl) ?_)
              intro id params body scope hhas _ _
              have hbody := hclosures id params body scope (.bound hexposed hname hw hhas)
              exact ⟨allows_masking hbody, .inl (.captured hexposed hname hw hhas)⟩
    have hparent : b.parent = b.parent.map (s.masking x).frame := Option.map_id'.symm
    have hparentLive : ∀ g, b.parent = some g → (s.masking x).live g :=
      fun g hg ↦ .inl (.parent hexposed ((parent?_of_frame ha).trans hg))
    refine ⟨_, by rw [frames_define]; exact congrArg _ ha, ?_⟩
    split
    · refine ⟨hparent, hparentLive, fun name (hname : name ≠ x) ↦ ?_⟩
      rw [lookup_bindName, if_neg hname]
      exact hvalues name hname
    · exact ⟨hparent, hparentLive, hvalues⟩
  live _ hf := .inr hf
  nextFrame k := by
    rw [size_define]
    rfl
  nextId _ := rfl
  output := ⟨s.output.toList, rfl, rfl⟩

end Store

/-- What a name is bound to in the root frame cannot be observed if neither the forms use it nor the
closures that a session can come to without it. -/
theorem unused_binding {s : Store} (h : s.Reachable) {x : String} {forms : List Form}
    (hforms : ∀ form ∈ forms, ¬ form.Uses x)
    (hclosures : ∀ id params body scope, s.Holds x (.closure id params body scope) →
      ¬ body.Uses x) (v : Value) (limit : Int) :
    observeForms limit sessionRoot (s.define sessionRoot x v) forms =
      observeForms limit sessionRoot s forms := by
  have hroot : (s.masking x).live sessionRoot := .inl .root
  exact (View.observeForms_eq limit hroot (h.shows_masking hclosures v) h.root_lt_size
    fun form hform ↦ Store.allows_masking (hforms form hform)).symm

/-- A closure that takes the conditional and quotes its name. -/
def Value.conditionalNamer : Value :=
  .closure 1 ["y"] (.list [.symbol "if", .symbol "y", .quote (.symbol "if"), .nil]) sessionRoot

set_option maxRecDepth 20000 in
/-- The forms take the conditional while its name is bound, and call a closure that does. -/
theorem unused_binding_conditional :
    let s := Store.initial.freshId.2.define sessionRoot "f" .conditionalNamer
    let forms : List Form := [.list [.symbol "f", .boolean true],
      .list [.symbol "if", .boolean false, .symbol "+", .quote (.symbol "if")]]
    s.Reachable ∧ (∀ form ∈ forms, ¬ form.Uses "if") ∧
      (∀ id params body scope, s.Holds "if" (.closure id params body scope) →
        ¬ body.Uses "if") ∧
      observeForms 9 sessionRoot (s.define sessionRoot "if" .nil) forms =
        observeForms 9 sessionRoot s forms := by
  intro s forms
  have htokens : tokenize "(define f (lambda (y) (if y 'if nil)))" = .ok [⟨.leftParen, ⟨1, 1⟩⟩,
      ⟨.symbol "define", ⟨1, 2⟩⟩, ⟨.symbol "f", ⟨1, 9⟩⟩, ⟨.leftParen, ⟨1, 11⟩⟩,
      ⟨.symbol "lambda", ⟨1, 12⟩⟩, ⟨.leftParen, ⟨1, 19⟩⟩, ⟨.symbol "y", ⟨1, 20⟩⟩,
      ⟨.rightParen, ⟨1, 21⟩⟩, ⟨.leftParen, ⟨1, 23⟩⟩, ⟨.symbol "if", ⟨1, 24⟩⟩,
      ⟨.symbol "y", ⟨1, 27⟩⟩, ⟨.quoteMark, ⟨1, 29⟩⟩, ⟨.symbol "if", ⟨1, 30⟩⟩,
      ⟨.symbol "nil", ⟨1, 33⟩⟩, ⟨.rightParen, ⟨1, 36⟩⟩, ⟨.rightParen, ⟨1, 37⟩⟩,
      ⟨.rightParen, ⟨1, 38⟩⟩] := by decide +kernel
  have hreachable : s.Reachable := by
    have hinterpret := Store.Reachable.initial.interpret ⟨9, 9⟩
      "(define f (lambda (y) (if y 'if nil)))" Store.Reachable.initial.root_lt_size
    rw [interpret_single ⟨9, 9⟩ htokens rfl] at hinterpret
    exact hinterpret
  have hkeyword : Keyword.ofHead? (.symbol "if") = some .conditional := by decide
  have hforms : ∀ form ∈ forms, ¬ form.Uses "if" := by
    simp [forms, hkeyword]
  have hobeys : s.Obeys ⟨fun _ ↦ True, fun form ↦ ¬ form.Uses "if", fun _ ↦ True⟩ := by
    have hinitial : Store.initial.freshId.2.Obeys
        ⟨fun _ ↦ True, fun form ↦ ¬ form.Uses "if", fun _ ↦ True⟩ :=
      (Store.obeys_initial fun _ ↦ trivial).of_frames_eq rfl
    refine hinitial.define sessionRoot trivial (.closure (fun _ _ ↦ trivial) ?_ ?_)
    · simp [hkeyword]
    · exact Store.Reachable.initial.root_lt_size
  have hclosures : ∀ id params body scope, s.Holds "if" (.closure id params body scope) →
      ¬ body.Uses "if" := by
    intro id params body scope hholds
    cases hobeys.of_holds hholds with
    | closure _ hbody _ => exact hbody
  exact ⟨hreachable, hforms, hclosures, unused_binding hreachable hforms hclosures .nil 9⟩

end MiniLisp
