import MiniLisp.Proofs.LawfulRuns
import MiniLisp.Proofs.Views

/-!
# The closures that a run comes upon

A run comes upon the closures that are bound in the frames it works in, and upon those that its
lambda forms make. If all these are in stock, then so is every closure in its value and in the frames
it leaves, whatever stands in the place of the evaluators for the forms inside a form and for the
bodies it calls.
-/

namespace MiniLisp

/-- The form that makes closures with these parameters and this body. -/
def Form.lambda (params : List String) (body : Form) : Form :=
  .list [.symbol Keyword.lambda.name, .list (params.map .symbol), body]

/-- Which closures a run may come upon, in which frames it may work, and whether it may use up its
levels. -/
structure Stock where
  closure : List String → Form → Prop
  live : FrameId → Prop
  exhausts : Prop

/-- The closures in the value are in stock and capture live frames. -/
def Value.Fits (K : Stock) (v : Value) : Prop :=
  ∀ id params body scope, v.Has (.closure id params body scope) →
    K.closure params body ∧ K.live scope

/-- The parents of live frames are live, and so are all frames to come; the closures that are bound
in live frames are in stock. -/
structure Store.Fits (K : Stock) (s : Store) : Prop where
  parent : ∀ f g : FrameId, K.live f → s.parent? f = some g → K.live g
  bindings : ∀ (f : FrameId) (name : String) (v : Value), K.live f → (name, v) ∈ s.bindings f →
    v.Fits K
  fresh : ∀ f : FrameId, s.frames.size ≤ f → K.live f

/-- Neither a list nor a closure. -/
inductive Value.Flat : Value → Prop
  | boolean (b : Bool) : Flat (.boolean b)
  | number (x : Double) (mark : Nat) : Flat (.number x mark)
  | string (s : String) : Flat (.string s)
  | symbol (name : String) : Flat (.symbol name)
  | nil : Flat .nil
  | native (op : Primitive) (home : FrameId) : Flat (.native op home)

variable {K : Stock}

namespace Value

theorem has_list_iff {items : List Value} {w : Value} :
    (Value.list items).Has w ↔ w = .list items ∨ ∃ item ∈ items, item.Has w := by
  constructor
  · rintro (_ | ⟨mem, h⟩)
    · exact .inl rfl
    · exact .inr ⟨_, mem, h⟩
  · rintro (rfl | ⟨item, mem, h⟩)
    · exact .self _
    · exact .item mem h

theorem fits_of_flat {v : Value} (h : v.Flat) : v.Fits K := by
  intro id params body scope hhas
  cases h <;> cases hhas

theorem fits_list_iff {items : List Value} :
    (Value.list items).Fits K ↔ ∀ item ∈ items, item.Fits K := by
  constructor
  · exact fun h item mem id params body scope hhas ↦ h id params body scope (.item mem hhas)
  · intro h id params body scope hhas
    rcases has_list_iff.mp hhas with hself | ⟨item, mem, hhas⟩
    · cases hself
    · exact h item mem id params body scope hhas

theorem fits_closure_iff {id : Nat} {params : List String} {body : Form} {scope : FrameId} :
    (Value.closure id params body scope).Fits K ↔ K.closure params body ∧ K.live scope := by
  constructor
  · exact fun h ↦ h id params body scope (.self _)
  · rintro h _ _ _ _ ⟨⟩
    exact h

theorem hereditary_fits (K : Stock) : Hereditary (Fits K) where
  boolean b := fits_of_flat (.boolean b)
  nil := fits_of_flat .nil
  list := fits_list_iff

end Value

theorem Form.fits_toValue (form : Form) : form.toValue.Fits K := by
  induction form using Form.induct with
  | number | string | symbol | boolean | nil => exact Value.fits_of_flat (by constructor)
  | quote inner ih =>
      refine Value.fits_list_iff.mpr (List.forall_mem_cons.mpr ⟨Value.fits_of_flat (.symbol _), ?_⟩)
      exact List.forall_mem_singleton.mpr ih
  | list items ih =>
      rw [toValue_list]
      exact Value.fits_list_iff.mpr (List.forall_mem_map.mpr ih)

namespace Store

/-- The native functions are the only functions of a new session. -/
theorem not_has_closure_initial {f : FrameId} {name : String} {v : Value}
    (hv : (name, v) ∈ initial.bindings f) {id : Nat} {params : List String} {body : Form}
    {captured : FrameId} : ¬ v.Has (.closure id params body captured) := by
  intro hhas
  have hobeys : initial.Obeys ⟨fun _ ↦ True, fun _ ↦ False, fun _ ↦ True⟩ :=
    obeys_initial fun _ ↦ trivial
  cases (hobeys.bindings f name v hv).2.has hhas with
  | closure _ hbody _ => exact hbody

end Store

namespace Store.Fits

variable {s t : Store} (h : s.Fits K)

include h

theorem mem_chain {f g : FrameId} (hf : K.live f) (hg : g ∈ s.chain f) : K.live g := by
  rw [chain] at hg
  generalize f + 1 = room at hg
  induction room generalizing f with
  | zero => cases hg
  | succ room ih =>
      rw [chainFrom] at hg
      split at hg
      · cases hg
      · exact List.mem_singleton.mp hg ▸ hf
      next parent bs hframe =>
        rcases List.mem_cons.mp hg with rfl | hg
        · exact hf
        · refine ih (h.parent f parent hf ?_) hg
          rw [parent?, hframe]
          rfl

theorem lookup? {f : FrameId} (hf : K.live f) {name : String} {v : Value}
    (hv : s.lookup? f name = some v) : v.Fits K := by
  obtain ⟨g, hg, hv⟩ := Option.bind_eq_some_iff.mp hv
  have hlive := h.mem_chain hf (List.mem_of_find?_eq_some hg)
  exact h.bindings g name v hlive (mem_bindings_of_lookup hv)

theorem of_frames_eq (hframes : t.frames = s.frames) : t.Fits K := by
  have hparent : ∀ f, t.parent? f = s.parent? f := fun f ↦ by rw [parent?, parent?, hframes]
  have hbindings : ∀ f, t.bindings f = s.bindings f := fun f ↦ by
    rw [Store.bindings, Store.bindings, hframes]
  refine ⟨fun f g hf hg ↦ h.parent f g hf (hparent f ▸ hg),
    fun f name v hf hv ↦ h.bindings f name v hf (hbindings f ▸ hv), ?_⟩
  rw [hframes]
  exact h.fresh

theorem define (f : FrameId) (name : String) {v : Value} (hv : v.Fits K) :
    (s.define f name v).Fits K := by
  refine ⟨?_, ?_, ?_⟩
  · intro g parent hg hparent
    rw [parent?_define] at hparent
    exact h.parent g parent hg hparent
  · intro g n w hg hw
    rcases mem_bindings_define hw with ⟨-, rfl⟩ | hw
    · exact hv
    · exact h.bindings g n w hg hw
  · rw [size_define]
    exact h.fresh

theorem defineAll (f : FrameId) {pairs : List (String × Value)}
    (hpairs : ∀ pair ∈ pairs, pair.2.Fits K) : (s.defineAll f pairs).Fits K := by
  induction pairs generalizing s with
  | nil => exact h
  | cons pair pairs ih =>
      obtain ⟨hpair, hpairs⟩ := List.forall_mem_cons.mp hpairs
      exact ih (h.define f pair.1 hpair) hpairs

theorem newFrame {parent : Option FrameId} (hparent : ∀ g, parent = some g → K.live g) :
    (s.newFrame parent).2.Fits K := by
  refine ⟨?_, ?_, ?_⟩
  · intro f g hf hg
    rw [parent?, frames_newFrame] at hg
    split at hg
    · exact hparent g hg
    · exact h.parent f g hf hg
  · intro f name v hf hv
    rw [Store.bindings, frames_newFrame] at hv
    split_ifs at hv with hnew
    · cases hv
    · exact h.bindings f name v hf hv
  · intro f hf
    have hsize : (s.newFrame parent).2.frames.size = s.frames.size + 1 := Array.size_push ..
    exact h.fresh f (by omega)

end Store.Fits

namespace Stock

variable {α β : Type} {result : α → Prop} {result' : β → Prop}

/-- The end of a run leaves a store that fits; levels are used up only if they may be. -/
def Ends (K : Stock) (result : α → Prop) : EStateM.Result EvalError Store α → Prop
  | .ok a t => t.Fits K ∧ result a
  | .error e t => t.Fits K ∧ ∀ limit, e = .stackExhausted limit → K.exhausts

/-- From every store that fits, the computation ends so. -/
def Runs (K : Stock) (result : α → Prop) (x : Eval α) : Prop :=
  ∀ s, s.Fits K → K.Ends result (x.run s)

abbrev Yields (K : Stock) (x : Eval Value) : Prop := K.Runs (Value.Fits K) x

theorem runs_pure {a : α} (h : result a) : K.Runs result (pure a) := fun _ hs ↦ ⟨hs, h⟩

theorem runs_throw {e : EvalError} (h : ∀ limit, e ≠ .stackExhausted limit) :
    K.Runs result (throw e : Eval α) :=
  fun _ hs ↦ ⟨hs, fun limit he ↦ absurd he (h limit)⟩

theorem Runs.bind {x : Eval α} {f : α → Eval β} (hx : K.Runs result x)
    (hf : ∀ a, result a → K.Runs result' (f a)) : K.Runs result' (x >>= f) := by
  intro s hs
  have hends := hx s hs
  rw [EStateM.run_bind]
  cases hrun : x.run s with
  | ok a t =>
      rw [hrun] at hends
      exact hf a hends.2 t hends.1
  | error e t =>
      rw [hrun] at hends
      exact hends

theorem runs_mapM {f : α → Eval Value} {xs : List α} (hf : ∀ x ∈ xs, K.Yields (f x)) :
    K.Runs (fun vs ↦ ∀ v ∈ vs, v.Fits K) (xs.mapM f) := by
  induction xs with
  | nil => exact runs_pure (List.forall_mem_nil _)
  | cons x xs ih =>
      obtain ⟨hhead, htail⟩ := List.forall_mem_cons.mp hf
      rw [List.mapM_cons]
      apply hhead.bind
      intro v hv
      apply (ih htail).bind
      intro vs hvs
      exact runs_pure (List.forall_mem_cons.mpr ⟨hv, hvs⟩)

theorem runs_freshId : K.Runs (fun _ ↦ True) Eval.freshId :=
  fun _ hs ↦ ⟨hs.of_frames_eq rfl, trivial⟩

theorem runs_define (scope : FrameId) (name : String) {v : Value} (hv : v.Fits K) :
    K.Runs (fun _ ↦ True) (Eval.define scope name v) :=
  fun _ hs ↦ ⟨hs.define scope name hv, trivial⟩

theorem yields_lookup {scope : FrameId} (hscope : K.live scope) (name : String) :
    K.Yields (Eval.lookup scope name) := by
  intro s hs
  rw [Eval.run_lookup]
  cases hv : s.lookup? scope name with
  | some v => exact ⟨hs, hs.lookup? hscope hv⟩
  | none => exact ⟨hs, by rintro _ ⟨⟩⟩

theorem yields_number (x : Double) : K.Yields (Eval.number x) := by
  rw [Eval.number]
  split
  · exact runs_freshId.bind fun mark _ ↦ runs_pure (Value.fits_of_flat (.number x mark))
  · exact runs_pure (Value.fits_of_flat (.number x 0))

/-- The new frame is live, as every frame to come. -/
theorem runs_extend {scope : FrameId} (hscope : K.live scope) (params : List String)
    {args : List Value} (hargs : ∀ v ∈ args, v.Fits K) :
    K.Runs K.live (Eval.extend scope (params.zip args)) := by
  intro s hs
  have hparent : ∀ g, some scope = some g → K.live g := fun g hg ↦ Option.some.inj hg ▸ hscope
  have hframe := hs.newFrame hparent
  refine ⟨hframe.defineAll s.frames.size ?_, hs.fresh _ (Nat.le_refl _)⟩
  rintro ⟨name, v⟩ hpair
  exact hargs v (List.of_mem_zip hpair).2

theorem yields_call (op : Primitive) (home : FrameId) {args : List Value}
    (hargs : ∀ v ∈ args, v.Fits K) : K.Yields (op.call home args) := by
  rw [Primitive.call]
  cases hreply : op.reply args with
  | error e =>
      apply runs_throw
      cases Primitive.complaint_of_reply hreply <;> rintro _ ⟨⟩
  | ok r =>
      have hr := Primitive.keeps_reply (Value.hereditary_fits K) hargs hreply
      cases r with
      | known v => exact runs_pure hr
      | computed x => exact yields_number x
      | line text => exact fun s hs ↦ ⟨hs.of_frames_eq rfl, Value.fits_of_flat .nil⟩

open Evaluator

theorem runs_enter (params : List String) (body : Form) {scope : FrameId} (hscope : K.live scope)
    {args : List Value} (hargs : ∀ v ∈ args, v.Fits K) :
    K.Runs K.live (enter params body scope args) := by
  rw [enter]
  split
  · exact runs_extend hscope params hargs
  · exact runs_throw (by rintro _ ⟨⟩)

theorem yields_evalQuote (operands : List Form) : K.Yields (evalQuote operands) := by
  rw [evalQuote.eq_def]
  split
  · exact runs_pure (Form.fits_toValue _)
  · exact runs_throw (by rintro _ ⟨⟩)

theorem yields_evalLambda {scope : FrameId} (hscope : K.live scope) {operands : List Form}
    (hmade : ∀ params body,
      Form.list (.symbol Keyword.lambda.name :: operands) = .lambda params body →
        K.closure params body) : K.Yields (evalLambda scope operands) := by
  rw [evalLambda.eq_def]
  split
  next params body =>
    rcases paramNames_spec params with ⟨names, hnames, rfl⟩ | ⟨param, -, -, herror⟩
    · rw [hnames]
      apply runs_freshId.bind
      intro id _
      exact runs_pure (Value.fits_closure_iff.mpr ⟨hmade names body rfl, hscope⟩)
    · rw [herror]
      exact runs_throw (by rintro _ ⟨⟩)
  · exact runs_throw (by rintro _ ⟨⟩)
  · exact runs_throw (by rintro _ ⟨⟩)

section Steps

variable {operand body : Step} {scope : FrameId}

theorem yields_apply
    (hbody : ∀ params form inner, K.closure params form → K.live inner → K.Yields (body form inner))
    {fn : Value} (hfn : fn.Fits K) {args : List Value} (hargs : ∀ v ∈ args, v.Fits K) :
    K.Yields (apply body fn args) := by
  cases fn with
  | native op home => exact yields_call op home hargs
  | closure id params form captured =>
      obtain ⟨hclosure, hcaptured⟩ := Value.fits_closure_iff.mp hfn
      apply (runs_enter params form hcaptured hargs).bind
      intro inner hinner
      exact hbody params form inner hclosure hinner
  | boolean | number | string | symbol | nil | list => exact runs_throw (by rintro _ ⟨⟩)

theorem yields_evalDefine {operands : List Form}
    (hoperand : ∀ item, item.Part (.list (.symbol Keyword.define.name :: operands)) →
      K.Yields (operand item scope)) : K.Yields (evalDefine operand scope operands) := by
  rw [evalDefine.eq_def]
  split
  next name form =>
    apply (hoperand form (.value name form)).bind
    intro v hv
    apply (runs_define scope name hv).bind
    intro _ _
    exact runs_pure hv
  · exact runs_throw (by rintro _ ⟨⟩)
  · exact runs_throw (by rintro _ ⟨⟩)

theorem yields_evalConditional {operands : List Form}
    (hoperand : ∀ item, item.Part (.list (.symbol Keyword.conditional.name :: operands)) →
      K.Yields (operand item scope)) : K.Yields (evalConditional operand scope operands) := by
  rw [evalConditional.eq_def]
  split
  next test yes no =>
    apply (hoperand test (.choice (by simp))).bind
    intro v _
    split
    · exact hoperand yes (.choice (by simp))
    · exact hoperand no (.choice (by simp))
  · exact runs_throw (by rintro _ ⟨⟩)

variable (hscope : K.live scope)

include hscope

theorem yields_evalKeyword (k : Keyword) {operands : List Form}
    (hmade : ∀ params body, Form.list (.symbol k.name :: operands) = .lambda params body →
      K.closure params body)
    (hoperand : ∀ item, item.Part (.list (.symbol k.name :: operands)) →
      K.Yields (operand item scope)) : K.Yields (evalKeyword operand scope operands k) := by
  cases k with
  | quote => exact yields_evalQuote operands
  | lambda => exact yields_evalLambda hscope hmade
  | list =>
      apply (runs_mapM fun item hitem ↦ hoperand item (.item hitem)).bind
      intro vs hvs
      exact runs_pure (Value.fits_list_iff.mpr hvs)
  | define => exact yields_evalDefine hoperand
  | conditional => exact yields_evalConditional hoperand

/-- A form keeps to the stock if its parts do, and if the bodies do that it calls; only a form with
something in it calls any. -/
theorem yields_evalForm {form : Form}
    (hmade : ∀ params b, form = .lambda params b → K.closure params b)
    (hoperand : ∀ item, item.Part form → K.Yields (operand item scope))
    (hbody : 0 < form.depth → ∀ params b inner, K.closure params b → K.live inner →
      K.Yields (body b inner)) : K.Yields (evalForm operand body form scope) := by
  cases form with
  | number | string | boolean | nil => exact runs_pure (Value.fits_of_flat (by constructor))
  | symbol name => exact yields_lookup hscope name
  | quote inner => exact runs_pure inner.fits_toValue
  | list items =>
      cases items with
      | nil => exact runs_pure (Value.fits_list_iff.mpr (List.forall_mem_nil _))
      | cons head operands =>
          rw [evalForm]
          split
          next k hk =>
            rw [Keyword.ofHead?_eq_some_iff.mp hk] at hmade hoperand
            exact yields_evalKeyword hscope k hmade hoperand
          next hhead =>
            have hitem : ∀ item ∈ head :: operands, K.Yields (operand item scope) :=
              fun item mem ↦ hoperand item (.call hhead mem)
            obtain ⟨hfirst, hrest⟩ := List.forall_mem_cons.mp hitem
            have hdepth : 0 < (Form.list (head :: operands)).depth := by
              rw [Form.depth, Form.depthOfItems]
              omega
            apply hfirst.bind
            intro fn hfn
            apply (runs_mapM hrest).bind
            intro args hargs
            exact yields_apply (hbody hdepth) hfn hargs

end Steps

end Stock

end MiniLisp
