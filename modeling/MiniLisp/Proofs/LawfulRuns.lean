import Mathlib.Data.List.Basic
import MiniLisp.Proofs.Laws

/-!
# Evaluation keeps a sound law

From a store that keeps the law, a run of a form that the law allows ends in a store that keeps it,
with a value that keeps it or an error that is allowed. Frames are only added meanwhile, so what was
captured before is still there.
-/

namespace MiniLisp

theorem Law.hereditary_obeys (L : Law) (n : Nat) : Value.Hereditary (Value.Obeys L n) where
  boolean := .boolean
  nil := .nil
  list := ⟨Value.Obeys.items, .list⟩

/-- Either the parameters are all names, or the first that is none is to blame. -/
theorem Evaluator.paramNames_spec (params : List Form) :
    (∃ names, paramNames params = .ok names ∧ params = names.map .symbol) ∨
      ∃ param ∈ params, (∀ name, param ≠ .symbol name) ∧ paramNames params =
        .error (.typeMismatch Keyword.lambda.name .parameterSymbol param.toValue) := by
  induction params with
  | nil => exact .inl ⟨[], rfl, rfl⟩
  | cons param params ih =>
      cases param with
      | symbol name =>
          rcases ih with ⟨names, hnames, rfl⟩ | ⟨param, hparam, hsymbol, herror⟩
          · exact .inl ⟨name :: names, by rw [paramNames, hnames]; rfl, rfl⟩
          · exact .inr ⟨param, List.mem_cons_of_mem _ hparam, hsymbol,
              by rw [paramNames, herror]; rfl⟩
      | number | string | boolean | nil | quote | list =>
          exact .inr ⟨_, List.mem_cons_self, by simp, rfl⟩

namespace Law

variable {α β : Type} {L : Law} {n : Nat}

/-- The end of a run that began with `size` frames: the store keeps the law, and either the result
is as it has to be in a store of that many frames or the law allows the error. -/
def Ends (L : Law) (result : Nat → α → Prop) (size : Nat) :
    EStateM.Result EvalError Store α → Prop
  | .ok a t => t.Obeys L ∧ size ≤ t.frames.size ∧ result t.frames.size a
  | .error e t => t.Obeys L ∧ size ≤ t.frames.size ∧ L.error e

/-- The computation keeps the law in every store of at least `n` frames. -/
def Runs (L : Law) (n : Nat) (result : Nat → α → Prop) (x : Eval α) : Prop :=
  ∀ s, s.Obeys L → n ≤ s.frames.size → L.Ends result s.frames.size (x.run s)

def Yields (L : Law) (n : Nat) (x : Eval Value) : Prop := L.Runs n (fun size v ↦ v.Obeys L size) x

/-- The forms that the law allows are evaluated in keeping with it, in any frame that is there. -/
def Evaluates (L : Law) (step : Evaluator.Step) : Prop :=
  ∀ (form : Form) (scope : FrameId) (n : Nat), L.form form → scope < n →
    L.Yields n (step form scope)

section Steps

variable {result : Nat → α → Prop} {result' : Nat → β → Prop}

theorem Ends.of_le {r : EStateM.Result EvalError Store α} {size size' : Nat}
    (h : L.Ends result size' r) (hsize : size ≤ size') : L.Ends result size r := by
  cases r with
  | ok a t => exact ⟨h.1, Nat.le_trans hsize h.2.1, h.2.2⟩
  | error e t => exact ⟨h.1, Nat.le_trans hsize h.2.1, h.2.2⟩

theorem runs_pure {a : α} (h : ∀ size, n ≤ size → result size a) :
    L.Runs n result (pure a : Eval α) :=
  fun s hs hn ↦ ⟨hs, Nat.le_refl _, h s.frames.size hn⟩

theorem runs_throw {e : EvalError} (h : L.error e) : L.Runs n result (throw e : Eval α) :=
  fun _ hs _ ↦ ⟨hs, Nat.le_refl _, h⟩

theorem Runs.bind {x : Eval α} {f : α → Eval β} (hx : L.Runs n result x)
    (hf : ∀ a m, n ≤ m → result m a → L.Runs m result' (f a)) : L.Runs n result' (x >>= f) := by
  intro s hs hn
  have hends := hx s hs hn
  rw [EStateM.run_bind]
  cases hrun : x.run s with
  | ok a t =>
      rw [hrun] at hends
      obtain ⟨ht, hsize, ha⟩ := hends
      exact (hf a t.frames.size (Nat.le_trans hn hsize) ha t ht (Nat.le_refl _)).of_le hsize
  | error e t =>
      rw [hrun] at hends
      exact hends

theorem yields_pure {v : Value} (h : v.Obeys L n) : L.Yields n (pure v) :=
  runs_pure fun _ hsize ↦ h.mono hsize

theorem runs_mapM {f : α → Eval Value} {xs : List α}
    (hf : ∀ x ∈ xs, ∀ m, n ≤ m → L.Yields m (f x)) :
    L.Runs n (fun size vs ↦ ∀ v ∈ vs, v.Obeys L size) (xs.mapM f) := by
  induction xs generalizing n with
  | nil => exact runs_pure fun _ _ _ hv ↦ absurd hv List.not_mem_nil
  | cons x xs ih =>
      obtain ⟨hhead, htail⟩ := List.forall_mem_cons.mp hf
      rw [List.mapM_cons]
      apply (hhead n (Nat.le_refl n)).bind
      intro v m hm hv
      apply (ih fun y hy k hk ↦ htail y hy k (Nat.le_trans hm hk)).bind
      intro vs k hk hvs
      -- The rest may have added frames, and the first value keeps the law among them too.
      apply runs_pure
      intro size hsize
      exact List.forall_mem_cons.mpr
        ⟨hv.mono (Nat.le_trans hk hsize), fun w hw ↦ (hvs w hw).mono hsize⟩

end Steps

section Stores

open Eval

theorem runs_freshId : L.Runs n (fun _ _ ↦ True) freshId :=
  fun _ hs _ ↦ ⟨hs.of_frames_eq rfl, Nat.le_refl _, trivial⟩

theorem runs_write (home : FrameId) (text : String) :
    L.Runs n (fun _ _ ↦ True) (write home text) :=
  fun _ hs _ ↦ ⟨hs.of_frames_eq rfl, Nat.le_refl _, trivial⟩

theorem runs_define (scope : FrameId) {name : String} {v : Value} (hname : L.name name)
    (hv : v.Obeys L n) : L.Runs n (fun _ _ ↦ True) (define scope name v) :=
  fun s hs hn ↦
    ⟨hs.define scope hname (hv.mono hn), Nat.le_of_eq (s.size_define scope name v).symm, trivial⟩

theorem yields_number (x : Double) : L.Yields n (number x) := by
  rw [number]
  split
  · apply runs_freshId.bind
    intro mark m _ _
    exact yields_pure (.number x mark)
  · exact yields_pure (.number x 0)

theorem runs_extend {scope : FrameId} (hscope : scope < n) {pairs : List (String × Value)}
    (hpairs : ∀ name v, (name, v) ∈ pairs → L.name name ∧ v.Obeys L n) :
    L.Runs n (fun size inner ↦ inner < size) (extend scope pairs) := by
  intro s hs hn
  have hmade : (s.newFrame (some scope)).2.frames.size = s.frames.size + 1 := by
    simp [Store.newFrame]
  have hframe : (s.newFrame (some scope)).2.Obeys L :=
    hs.newFrame fun g hg ↦ Option.some.inj hg ▸ Nat.lt_of_lt_of_le hscope hn
  have hall := hframe.defineAll s.frames.size fun name v hv ↦
    (hpairs name v hv).imp_right fun hobeys ↦ hobeys.mono (hmade ▸ Nat.le_succ_of_le hn)
  have hsize := Store.size_defineAll (s.newFrame (some scope)).2 s.frames.size pairs
  rw [hmade] at hsize
  exact ⟨hall, hsize ▸ Nat.le_succ _, hsize ▸ Nat.lt_succ_self _⟩

end Stores

namespace Sound

open Evaluator

variable (hL : L.Sound)

include hL

theorem yields_lookup {name : String} (h : L.form (.symbol name)) (scope : FrameId) :
    L.Yields n (Eval.lookup scope name) := by
  intro s hs _
  rw [Eval.run_lookup]
  cases hv : s.lookup? scope name with
  | some v => exact ⟨hs, Nat.le_refl _, (hs.lookup hv).2⟩
  | none => exact ⟨hs, Nat.le_refl _, hL.unbound h⟩

theorem yields_call (op : Primitive) (home : FrameId) {args : List Value}
    (hargs : ∀ v ∈ args, v.Obeys L n) : L.Yields n (op.call home args) := by
  rw [Primitive.call]
  cases hreply : op.reply args with
  | error e => exact runs_throw (hL.complaint hargs (Primitive.complaint_of_reply hreply))
  | ok r =>
      have hr := Primitive.keeps_reply (L.hereditary_obeys n) hargs hreply
      cases r with
      | known v => exact yields_pure hr
      | computed x => exact yields_number x
      | line text =>
          apply (runs_write home text).bind
          intro _ m _ _
          exact yields_pure .nil

theorem runs_enter {params : List String} {body : Form} {scope : FrameId} {args : List Value}
    (hparams : ∀ name ∈ params, L.name name) (hbody : L.form body) (hscope : scope < n)
    (hargs : ∀ v ∈ args, v.Obeys L n) :
    L.Runs n (fun size inner ↦ inner < size) (enter params body scope args) := by
  rw [enter]
  split
  · apply runs_extend hscope
    intro name v hv
    exact ⟨hparams name (List.of_mem_zip hv).1, hargs v (List.of_mem_zip hv).2⟩
  · exact runs_throw (hL.arity args.length hparams hbody)

theorem yields_apply {body : Step} (hbody : L.Evaluates body) {fn : Value} {args : List Value}
    (hfn : fn.Obeys L n) (hargs : ∀ v ∈ args, v.Obeys L n) : L.Yields n (apply body fn args) := by
  have herror : L.error (.notCallable fn) := hL.notCallable hfn
  cases hfn with
  | native op home => exact hL.yields_call op home hargs
  | @closure id params form scope hparams hform hscope =>
      apply (hL.runs_enter hparams hform hscope hargs).bind
      intro inner m _ hinner
      exact hbody form inner m hform hinner
  | boolean | number | string | symbol | nil | list => exact runs_throw herror

theorem yields_evalQuote {operands : List Form}
    (h : L.form (.list (.symbol Keyword.quote.name :: operands))) :
    L.Yields n (evalQuote operands) := by
  rw [evalQuote.eq_def]
  split
  next form =>
    apply yields_pure
    exact form.obeys_toValue (fun name hname ↦ hL.introduced h (.data hname)) n
  next hcount =>
    apply runs_throw
    apply hL.misshapen h
    exact .count (k := .quote) rfl fun hlength ↦ by
      obtain ⟨form, rfl⟩ := List.length_eq_one_iff.mp hlength
      exact hcount form rfl

theorem yields_evalLambda {scope : FrameId} (hscope : scope < n) {operands : List Form}
    (h : L.form (.list (.symbol Keyword.lambda.name :: operands))) :
    L.Yields n (evalLambda scope operands) := by
  rw [evalLambda.eq_def]
  split
  next params body =>
    rcases paramNames_spec params with ⟨names, hnames, rfl⟩ | ⟨param, hparam, hsymbol, herror⟩
    · rw [hnames]
      apply runs_freshId.bind
      intro id m hm _
      apply yields_pure
      refine .closure ?_ (hL.part h (.body _ body)) (Nat.lt_of_lt_of_le hscope hm)
      intro name hname
      exact hL.introduced h (.parameter (List.mem_map_of_mem hname) body)
    · rw [herror]
      exact runs_throw (hL.misshapen h (.parameter hparam hsymbol body))
  next params body hlist => exact runs_throw (hL.misshapen h (.parameterList hlist body))
  next hcount =>
    apply runs_throw
    apply hL.misshapen h
    exact .count (k := .lambda) rfl fun hlength ↦ by
      obtain ⟨params, body, rfl⟩ := List.length_eq_two.mp hlength
      exact hcount params body rfl

section Operands

variable {operand body : Step} (hoperand : L.Evaluates operand) {scope : FrameId}
  (hscope : scope < n)

include hoperand hscope

omit hL in
theorem yields_evalAll {forms : List Form} (h : ∀ form ∈ forms, L.form form) :
    L.Runs n (fun size vs ↦ ∀ v ∈ vs, v.Obeys L size) (evalAll operand scope forms) :=
  runs_mapM fun form hform m hm ↦
    hoperand form scope m (h form hform) (Nat.lt_of_lt_of_le hscope hm)

theorem yields_evalDefine {operands : List Form}
    (h : L.form (.list (.symbol Keyword.define.name :: operands))) :
    L.Yields n (evalDefine operand scope operands) := by
  rw [evalDefine.eq_def]
  split
  next name form =>
    apply (hoperand form scope n (hL.part h (.value name form)) hscope).bind
    intro v m _ hv
    apply (runs_define scope (hL.introduced h (.target name form)) hv).bind
    intro _ k hk _
    exact yields_pure (hv.mono hk)
  next target form htarget => exact runs_throw (hL.misshapen h (.target htarget form))
  next hcount =>
    apply runs_throw
    apply hL.misshapen h
    exact .count (k := .define) rfl fun hlength ↦ by
      obtain ⟨target, form, rfl⟩ := List.length_eq_two.mp hlength
      exact hcount target form rfl

theorem yields_evalConditional {operands : List Form}
    (h : L.form (.list (.symbol Keyword.conditional.name :: operands))) :
    L.Yields n (evalConditional operand scope operands) := by
  rw [evalConditional.eq_def]
  split
  next test yes no =>
    have hitem : ∀ item ∈ [test, yes, no], ∀ m, n ≤ m → L.Yields m (operand item scope) :=
      fun item hmem m hm ↦
        hoperand item scope m (hL.part h (.choice hmem)) (Nat.lt_of_lt_of_le hscope hm)
    apply (hitem test (by simp) n (Nat.le_refl n)).bind
    intro v m hm _
    split
    · exact hitem yes (by simp) m hm
    · exact hitem no (by simp) m hm
  next hcount =>
    apply runs_throw
    apply hL.misshapen h
    exact .count (k := .conditional) rfl fun hlength ↦ by
      obtain ⟨test, yes, no, rfl⟩ := List.length_eq_three.mp hlength
      exact hcount test yes no rfl

theorem yields_evalKeyword {operands : List Form} (k : Keyword)
    (h : L.form (.list (.symbol k.name :: operands))) :
    L.Yields n (evalKeyword operand scope operands k) := by
  cases k with
  | quote => exact hL.yields_evalQuote h
  | lambda => exact hL.yields_evalLambda hscope h
  | list =>
      apply (yields_evalAll hoperand hscope fun form hform ↦ hL.part h (.item hform)).bind
      intro vs m _ hvs
      exact yields_pure (.list hvs)
  | define => exact hL.yields_evalDefine hoperand hscope h
  | conditional => exact hL.yields_evalConditional hoperand hscope h

theorem yields_evalForm (hbody : L.Evaluates body) {form : Form} (h : L.form form) :
    L.Yields n (evalForm operand body form scope) := by
  cases form with
  | number x => exact yields_pure (.number x 0)
  | string s => exact yields_pure (.string s)
  | boolean b => exact yields_pure (.boolean b)
  | nil => exact yields_pure .nil
  | symbol name => exact hL.yields_lookup h scope
  | quote inner =>
      apply yields_pure
      exact inner.obeys_toValue (fun name hname ↦ hL.introduced h (.quoted hname)) n
  | list items =>
      cases items with
      | nil => exact yields_pure (.list fun v hv ↦ absurd hv List.not_mem_nil)
      | cons head operands =>
          rw [evalForm]
          split
          next k hk =>
            rw [Keyword.ofHead?_eq_some_iff.mp hk] at h
            exact hL.yields_evalKeyword hoperand hscope k h
          next hhead =>
            have hitem : ∀ item ∈ head :: operands, L.form item :=
              fun item hmem ↦ hL.part h (.call hhead hmem)
            obtain ⟨hfirst, hrest⟩ := List.forall_mem_cons.mp hitem
            -- The number of frames grows from the operator to the operands and on to the call.
            apply (hoperand head scope n hfirst hscope).bind
            intro fn m hm hfn
            apply (yields_evalAll hoperand (Nat.lt_of_lt_of_le hscope hm) hrest).bind
            intro args k hk hargs
            exact hL.yields_apply hbody (hfn.mono hk) hargs

end Operands

/-- The body of a closure is among the forms that the law allows, since the closure keeps the law. -/
theorem evaluates_evalWithin (limit : Int) (room : Nat) (stack : Stack) :
    L.Evaluates (evalWithin limit room stack) := by
  refine evalWithin_induction
    (P := fun form run ↦ ∀ scope n, L.form form → scope < n → L.Yields n (run scope)) limit
    (fun _ _ _ _ _ ↦ runs_throw (hL.exhausted limit)) ?_ room stack
  intro operand body hoperand hbody form scope n h hscope
  exact hL.yields_evalForm hoperand hscope hbody h

theorem evaluates (limit : Int) : L.Evaluates (evaluate limit) :=
  fun form scope n h hscope ↦ hL.evaluates_evalWithin limit _ _ form scope n h hscope

end Sound

end Law

end MiniLisp
