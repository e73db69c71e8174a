import MiniLisp.Proofs.HostStack
import MiniLisp.Proofs.Runs

/-!
# Evaluation is framed to its own scope

A run in a frame binds names in that frame alone, and only names that the form itself defines there:
the targets of its definitions outside quoting and outside the bodies of closures. A call binds
names in a frame of its own, which no one has seen before, so it leaves every older frame as it was.
The lines that were written stay, and new ones come behind them.
-/

namespace MiniLisp

namespace Form

/-- The list is quoted data or makes a closure, so its items are not evaluated in place. -/
def Shielded (items : List Form) : Prop :=
  items.head? = some (.symbol Keyword.quote.name) ∨ items.head? = some (.symbol Keyword.lambda.name)

/-- A definition of the name occurs in the form, outside quoting and outside closures. -/
inductive Defines : Form → String → Prop
  | here (name : String) (value : Form) :
      Defines (.list [.symbol Keyword.define.name, .symbol name, value]) name
  | inside {items : List Form} {item : Form} {name : String} (shown : ¬ Shielded items)
      (mem : item ∈ items) (inner : Defines item name) : Defines (.list items) name

end Form

theorem Keyword.ofHead?_eq_some_iff {head : Form} {k : Keyword} :
    ofHead? head = some k ↔ head = .symbol k.name := by
  constructor
  · intro h
    cases head with
    | symbol name =>
        have hname := List.find?_some h
        rw [eq_of_beq hname]
    | number | string | boolean | nil | quote | list => simp [ofHead?] at h
  · rintro rfl
    cases k <;> decide

theorem Form.not_shielded_of_ofHead?_eq_none {head : Form} {operands : List Form}
    (h : Keyword.ofHead? head = none) : ¬ Shielded (head :: operands) := by
  intro hs
  rcases hs with hq | hl
  · rw [Keyword.ofHead?_eq_some_iff.mpr (Option.some.inj hq)] at h
    simp at h
  · rw [Keyword.ofHead?_eq_some_iff.mpr (Option.some.inj hl)] at h
    simp at h

theorem lookup_bindName (name : String) (v : Value) (bs : List (String × Value)) (n : String) :
    (bindName name v bs).lookup n = if n = name then some v else bs.lookup n := by
  induction bs with
  | nil => by_cases h : n = name <;> simp [bindName, List.lookup_cons, h, beq_false_of_ne]
  | cons b bs ih =>
      obtain ⟨m, w⟩ := b
      by_cases hm : m = name
      · subst hm
        by_cases h : n = m <;> simp [bindName, List.lookup_cons, h, beq_false_of_ne]
      · by_cases h : n = m
        · have hn : n ≠ name := fun hn ↦ hm (h ▸ hn)
          simp [bindName, hm, h]
        · simp [bindName, List.lookup_cons, hm, ih, beq_false_of_ne h]

/-- What may become of a frame when some of the given names are bound in it. -/
structure Frame.Extended (names : String → Prop) (before after : Frame) : Prop where
  parent : after.parent = before.parent
  bound : ∀ name, (before.bindings.lookup name).isSome → (after.bindings.lookup name).isSome
  unchanged : ∀ name, ¬ names name → after.bindings.lookup name = before.bindings.lookup name

namespace Frame.Extended

variable {names : String → Prop} {a b c : Frame}

theorem refl (names : String → Prop) (a : Frame) : a.Extended names a :=
  ⟨rfl, fun _ h ↦ h, fun _ _ ↦ rfl⟩

theorem trans (hab : a.Extended names b) (hbc : b.Extended names c) : a.Extended names c where
  parent := hbc.parent.trans hab.parent
  bound := fun name h ↦ hbc.bound name (hab.bound name h)
  unchanged := fun name h ↦ (hbc.unchanged name h).trans (hab.unchanged name h)

theorem mono {names' : String → Prop} (h : a.Extended names b)
    (hnames : ∀ name, names name → names' name) : a.Extended names' b where
  parent := h.parent
  bound := h.bound
  unchanged := fun name hn ↦ h.unchanged name fun hn' ↦ hn (hnames name hn')

theorem bindName {name : String} (h : names name) (a : Frame) (v : Value) :
    a.Extended names { a with bindings := MiniLisp.bindName name v a.bindings } where
  parent := rfl
  bound := by
    intro n hn
    rw [lookup_bindName]
    split
    · rfl
    · exact hn
  unchanged := by
    intro n hn
    have hne : n ≠ name := fun hne ↦ hn (hne ▸ h)
    rw [lookup_bindName, if_neg hne]

end Frame.Extended

namespace Store

/-- Every frame but `scope` is as it was, and in `scope` some of the names were bound. -/
def Framed (scope : FrameId) (names : String → Prop) (s t : Store) : Prop :=
  ∀ (g : FrameId) (before : Frame), s.frames[g]? = some before → ∃ after, t.frames[g]? = some after ∧
    before.Extended names after ∧ (g ≠ scope → after = before)

def Keeps (s t : Store) : Prop :=
  ∀ (g : FrameId) (frame : Frame), s.frames[g]? = some frame → t.frames[g]? = some frame

structure Evolves (scope : FrameId) (names : String → Prop) (s t : Store) : Prop where
  frames : s.Framed scope names t
  output : s.output.toList <+: t.output.toList

structure Grows (s t : Store) : Prop where
  frames : s.Keeps t
  output : s.output.toList <+: t.output.toList

theorem Keeps.framed {s t : Store} (h : s.Keeps t) (scope : FrameId) (names : String → Prop) :
    s.Framed scope names t :=
  fun g before hg ↦ ⟨before, h g before hg, .refl names before, fun _ ↦ rfl⟩

theorem Grows.evolves {s t : Store} (h : s.Grows t) (scope : FrameId) (names : String → Prop) :
    s.Evolves scope names t :=
  ⟨h.frames.framed scope names, h.output⟩

theorem grows_of_frames_eq {s t : Store} (hf : t.frames = s.frames)
    (ho : s.output.toList <+: t.output.toList) : s.Grows t :=
  ⟨fun g frame hg ↦ by rwa [hf], ho⟩

instance : IsPreorder Store Grows where
  refl _ := ⟨fun _ _ hg ↦ hg, List.prefix_rfl⟩
  trans _ _ _ hst htu :=
    ⟨fun g frame hg ↦ htu.frames g frame (hst.frames g frame hg), hst.output.trans htu.output⟩

instance (scope : FrameId) (names : String → Prop) : IsPreorder Store (Evolves scope names) where
  refl s := (refl_of Grows s).evolves scope names
  trans s t u hst htu := by
    refine ⟨?_, hst.output.trans htu.output⟩
    intro g before hg
    obtain ⟨middle, hm, hbm, hsame⟩ := hst.frames g before hg
    obtain ⟨after, ha, hma, hsame'⟩ := htu.frames g middle hm
    exact ⟨after, ha, hbm.trans hma, fun hne ↦ (hsame' hne).trans (hsame hne)⟩

theorem Evolves.mono {scope : FrameId} {names names' : String → Prop} {s t : Store}
    (h : s.Evolves scope names t) (hnames : ∀ name, names name → names' name) :
    s.Evolves scope names' t := by
  refine ⟨?_, h.output⟩
  intro g before hg
  obtain ⟨after, ha, hba, hsame⟩ := h.frames g before hg
  exact ⟨after, ha, hba.mono hnames, hsame⟩

theorem frames_define (s : Store) (f g : FrameId) (name : String) (v : Value) :
    (s.define f name v).frames[g]? = (s.frames[g]?).map fun frame ↦
      if f = g then { frame with bindings := bindName name v frame.bindings } else frame := by
  rw [define, Array.getElem?_modify]
  by_cases h : f = g <;> simp [h]

theorem define_evolves {names : String → Prop} {name : String} (h : names name) (s : Store)
    (scope : FrameId) (v : Value) : s.Evolves scope names (s.define scope name v) := by
  refine ⟨?_, List.prefix_rfl⟩
  intro g before hg
  rw [frames_define, hg]
  by_cases hs : scope = g
  · refine ⟨_, by rw [Option.map_some, if_pos hs], .bindName h before v, ?_⟩
    exact fun hne ↦ absurd hs.symm hne
  · exact ⟨before, by rw [Option.map_some, if_neg hs], .refl names before, fun _ ↦ rfl⟩

theorem Grows.defineAll {s t : Store} (h : s.Grows t) {f : FrameId} (hf : s.frames.size ≤ f)
    (pairs : List (String × Value)) : s.Grows (t.defineAll f pairs) := by
  induction pairs generalizing t with
  | nil => exact h
  | cons pair pairs ih =>
      apply ih
      refine ⟨?_, h.output⟩
      intro g frame hg
      have hlt : g < s.frames.size := (Array.getElem?_eq_some_iff.mp hg).1
      have hne : f ≠ g := Nat.ne_of_gt (Nat.lt_of_lt_of_le hlt hf)
      rw [frames_define, h.frames g frame hg, Option.map_some, if_neg hne]

theorem newFrame_grows (s : Store) (parent : Option FrameId) : s.Grows (s.newFrame parent).2 := by
  refine ⟨?_, List.prefix_rfl⟩
  intro g frame hg
  have hlt : g < s.frames.size := (Array.getElem?_eq_some_iff.mp hg).1
  rw [newFrame, Array.getElem?_push_lt hlt, ← Array.getElem?_eq_getElem hlt, hg]

end Store

namespace Eval

theorem leaves_freshId : Leaves Store.Grows freshId :=
  fun _ ↦ Store.grows_of_frames_eq rfl List.prefix_rfl

theorem leaves_number (x : Double) : Leaves Store.Grows (number x) := by
  rw [number]
  split
  · exact leaves_freshId.bind fun mark ↦ leaves_pure (Value.number x mark)
  · exact leaves_pure (Value.number x 0)

theorem leaves_write (home : FrameId) (text : String) : Leaves Store.Grows (write home text) := by
  intro s
  have hs : (write home text).storeAfter s = s.write home text := rfl
  rw [hs]
  refine ⟨fun _ _ hg ↦ hg, ?_⟩
  rw [Store.write, Array.toList_push]
  exact List.prefix_append _ _

theorem leaves_define {names : String → Prop} {name : String} (h : names name) (scope : FrameId)
    (v : Value) : Leaves (Store.Evolves scope names) (define scope name v) :=
  fun s ↦ Store.define_evolves h s scope v

theorem leaves_extend (scope : FrameId) (pairs : List (String × Value)) :
    Leaves Store.Grows (extend scope pairs) :=
  fun s ↦ (s.newFrame_grows (some scope)).defineAll (Nat.le_refl _) pairs

end Eval

theorem Primitive.leaves_call (op : Primitive) (home : FrameId) (args : List Value) :
    Eval.Leaves Store.Grows (op.call home args) := by
  rw [call]
  split
  · exact Eval.leaves_pure _
  · exact Eval.leaves_number _
  · exact (Eval.leaves_write home _).bind fun _ ↦ Eval.leaves_pure Value.nil
  · exact Eval.leaves_throw _

namespace Evaluator

open Eval

theorem leaves_enter (params : List String) (form : Form) (scope : FrameId) (args : List Value) :
    Leaves Store.Grows (enter params form scope args) := by
  rw [enter]
  split
  · exact leaves_extend scope _
  · exact leaves_throw _

theorem eq_size_of_enter {params : List String} {form : Form} {scope inner : FrameId}
    {args : List Value} {s t : Store} (h : (enter params form scope args).run s = .ok inner t) :
    inner = s.frames.size := by
  rw [enter] at h
  split at h
  · injection h with hinner _
    exact hinner.symm
  · cases h

/-- A body binds names in the frame that was made for the call, so the call itself binds none. -/
theorem leaves_apply {body : Step}
    (hbody : ∀ form scope, Leaves (Store.Evolves scope form.Defines) (body form scope))
    (fn : Value) (args : List Value) : Leaves Store.Grows (apply body fn args) := by
  cases fn with
  | native op home => exact op.leaves_call home args
  | closure id params form scope =>
      intro s
      have henter := leaves_enter params form scope args s
      cases hrun : (enter params form scope args).run s with
      | ok inner t =>
          rw [storeAfter_eq_of_ok hrun] at henter
          have hrest := hbody form inner t
          rw [apply, storeAfter_bind_of_ok hrun]
          refine ⟨?_, henter.output.trans hrest.output⟩
          intro g frame hg
          have hlt : g < s.frames.size := (Array.getElem?_eq_some_iff.mp hg).1
          have hne : g ≠ inner := by
            rw [eq_size_of_enter hrun]
            exact Nat.ne_of_lt hlt
          obtain ⟨after, ha, -, hsame⟩ := hrest.frames g frame (henter.frames g frame hg)
          rw [ha, hsame hne]
      | error e t =>
          rw [apply, storeAfter_bind_of_error hrun]
          rwa [storeAfter_eq_of_error hrun] at henter
  | boolean | number | string | symbol | nil | list => exact leaves_throw _

theorem leaves_evalAll {operand : Step} {scope : FrameId} {names : String → Prop}
    {forms : List Form}
    (hforms : ∀ form ∈ forms, Leaves (Store.Evolves scope names) (operand form scope)) :
    Leaves (Store.Evolves scope names) (evalAll operand scope forms) :=
  leaves_mapM hforms

theorem leaves_evalQuote {P : Store → Store → Prop} [IsPreorder Store P] (operands : List Form) :
    Leaves P (evalQuote operands) := by
  rw [evalQuote.eq_def]
  split
  · exact leaves_pure _
  · exact leaves_throw _

theorem leaves_evalLambda (scope : FrameId) (operands : List Form) :
    Leaves Store.Grows (evalLambda scope operands) := by
  rw [evalLambda.eq_def]
  split
  · split
    · exact leaves_freshId.bind fun id ↦ leaves_pure _
    · exact leaves_throw _
  · exact leaves_throw _
  · exact leaves_throw _

section Operands

variable {operand body : Step} {scope : FrameId}
  (hoperand : ∀ form, Leaves (Store.Evolves scope form.Defines) (operand form scope))

include hoperand

theorem leaves_item {items : List Form} {item : Form} (shown : ¬ Form.Shielded items)
    (mem : item ∈ items) :
    Leaves (Store.Evolves scope (Form.list items).Defines) (operand item scope) :=
  (hoperand item).mono fun _ _ h ↦ h.mono fun _ inner ↦ .inside shown mem inner

theorem leaves_evalDefine (operands : List Form) :
    Leaves (Store.Evolves scope
      (Form.list (.symbol Keyword.define.name :: operands)).Defines)
      (evalDefine operand scope operands) := by
  have shown : ¬ Form.Shielded (.symbol Keyword.define.name :: operands) := by
    simp [Form.Shielded, Keyword.name]
  rw [evalDefine.eq_def]
  split
  · apply (leaves_item hoperand shown (by simp)).bind
    intro v
    exact (leaves_define (.here _ _) scope v).bind fun _ ↦ leaves_pure v
  · exact leaves_throw _
  · exact leaves_throw _

theorem leaves_evalConditional (operands : List Form) :
    Leaves (Store.Evolves scope
      (Form.list (.symbol Keyword.conditional.name :: operands)).Defines)
      (evalConditional operand scope operands) := by
  have shown : ¬ Form.Shielded (.symbol Keyword.conditional.name :: operands) := by
    simp [Form.Shielded, Keyword.name]
  rw [evalConditional.eq_def]
  split
  · apply (leaves_item hoperand shown (by simp)).bind
    intro v
    split
    · exact leaves_item hoperand shown (by simp)
    · exact leaves_item hoperand shown (by simp)
  · exact leaves_throw _

theorem leaves_evalKeyword (operands : List Form) (k : Keyword) :
    Leaves (Store.Evolves scope (Form.list (.symbol k.name :: operands)).Defines)
      (evalKeyword operand scope operands k) := by
  cases k with
  | quote => exact leaves_evalQuote operands
  | lambda => exact (leaves_evalLambda scope operands).mono fun _ _ h ↦ h.evolves _ _
  | list =>
      have shown : ¬ Form.Shielded (.symbol Keyword.list.name :: operands) := by
        simp [Form.Shielded, Keyword.name]
      have hall := leaves_evalAll fun form (mem : form ∈ operands) ↦
        leaves_item hoperand shown (List.mem_cons_of_mem _ mem)
      exact hall.bind fun vs ↦ leaves_pure (Value.list vs)
  | define => exact leaves_evalDefine hoperand operands
  | conditional => exact leaves_evalConditional hoperand operands

theorem leaves_evalForm
    (hbody : ∀ form scope, Leaves (Store.Evolves scope form.Defines) (body form scope))
    (form : Form) :
    Leaves (Store.Evolves scope form.Defines) (evalForm operand body form scope) := by
  cases form with
  | number | string | boolean | nil | quote => exact leaves_pure _
  | symbol name => exact leaves_lookup scope name
  | list items =>
      cases items with
      | nil => exact leaves_pure _
      | cons head operands =>
          rw [evalForm]
          split
          · rename_i k hk
            rw [Keyword.ofHead?_eq_some_iff.mp hk]
            exact leaves_evalKeyword hoperand operands k
          · rename_i hnone
            have shown : ¬ Form.Shielded (head :: operands) :=
              Form.not_shielded_of_ofHead?_eq_none hnone
            apply (leaves_item hoperand shown List.mem_cons_self).bind
            intro fn
            apply Leaves.bind (leaves_evalAll fun form mem ↦
              leaves_item hoperand shown (List.mem_cons_of_mem head mem))
            intro args
            exact (leaves_apply hbody fn args).mono fun _ _ h ↦ h.evolves _ _

end Operands

theorem leaves_evalWithin (limit : Int) (room : Nat) (stack : Stack) (form : Form)
    (scope : FrameId) :
    Leaves (Store.Evolves scope form.Defines) (evalWithin limit room stack form scope) := by
  refine evalWithin_induction
    (P := fun form run ↦ ∀ scope, Leaves (Store.Evolves scope form.Defines) (run scope)) limit
    (fun _ _ ↦ leaves_throw _) ?_ room stack form scope
  intro operand body hoperand hbody form scope
  exact leaves_evalForm (fun form ↦ hoperand form scope) hbody form

end Evaluator

/-- However a run in `scope` ends, at any depth and on any stack, every other frame is as it was, and
in `scope` only names that the form defines there were bound. A call of a closure, however it ends,
leaves every frame as it was, the captured one and its ancestors among them. -/
theorem evaluation_framed (form : Form) (scope : FrameId) (s : Store) :
    (∀ stack depth,
        s.Framed scope form.Defines ((evaluateBelow stack depth form scope).storeAfter s)) ∧
      (∀ limit, s.Framed scope form.Defines ((evaluate limit form scope).storeAfter s)) ∧
      ∀ limit room stack id params body captured args, s.Keeps ((Evaluator.apply
        (Evaluator.evalWithin limit room stack)
        (.closure id params body captured) args).storeAfter s) := by
  refine ⟨?_, ?_, ?_⟩
  · intro stack depth
    exact (Evaluator.leaves_evalWithin depth.limit _ stack form scope s).frames
  · intro limit
    exact (Evaluator.leaves_evalWithin limit _ _ form scope s).frames
  · intro limit room stack id params body captured args
    exact (Evaluator.leaves_apply (Evaluator.leaves_evalWithin limit room stack) _ args s).frames

end MiniLisp
