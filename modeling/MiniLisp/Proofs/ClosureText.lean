import MiniLisp.Proofs.ClosureStock
import MiniLisp.Proofs.QuoteSpelling
import MiniLisp.Proofs.QuotedValues

/-!
# Closures read back from their text

The text of a closure that a session holds is that of a form which the reader accepts again, under
the same limits. Interpreted in the frame that the closure has captured, it makes a closure of the
same text. The body comes back without its sugar, and calls go the same way as long as no mark in it
takes the place of a parameter list: a mark there is an error of the call, and is read back as the
list of two parameters. Marks that are written out also take more from the host, so it may cut a call
of the one closure short and not of the other.
-/

namespace MiniLisp

/-- A session under these limits has come to the store, and has returned these values so far. -/
inductive Session (limits : Limits) : Store → List Value → Prop
  | start : Session limits Store.initial []
  | value {s t : Store} {returned : List Value} {v : Value} (h : Session limits s returned)
      (source : String) {scope : FrameId} (hscope : scope < s.frames.size)
      (hrun : (interpret limits source scope).run s = .ok v t) : Session limits t (v :: returned)
  | error {s t : Store} {returned : List Value} {e : RunError} (h : Session limits s returned)
      (source : String) {scope : FrameId} (hscope : scope < s.frames.size)
      (hrun : (interpret limits source scope).run s = .error e t) : Session limits t returned

/-- The value is bound in some frame or was returned, by itself or as an item of a list. -/
inductive Holds (s : Store) (returned : List Value) : Value → Prop
  | bound {f : FrameId} {name : String} {v w : Value} (hv : (name, v) ∈ s.bindings f)
      (h : v.Has w) : Holds s returned w
  | returned {v w : Value} (hv : v ∈ returned) (h : v.Has w) : Holds s returned w

namespace Form

/-- The form can be spelled by tokens of a text, and a reader with the limit accepts it. -/
structure Legible (nesting : Int) (form : Form) : Prop where
  spelled : ∃ ts, Expression ts form ∧ Lexical ts
  depth_le : (form.depth : Int) ≤ nesting

variable {nesting : Int} {item whole : Form}

theorem Legible.part (h : whole.Legible nesting) (hpart : item.Part whole) :
    item.Legible nesting := by
  obtain ⟨items, rfl, mem⟩ := hpart.exists_items
  obtain ⟨ts, hexpression, hlexical⟩ := h.spelled
  obtain ⟨tss, rfl, hitems⟩ := hexpression.exists_items
  obtain ⟨us, hus, hitem⟩ := exists_mem_of_mem_right hitems mem
  refine ⟨⟨us, hitem, fun token htoken ↦ hlexical token ?_⟩, ?_⟩
  · apply List.mem_cons_of_mem
    exact List.mem_append_left _ (List.mem_flatten.mpr ⟨us, hus, htoken⟩)
  · have hlt := depth_lt_of_mem mem
    have hle := h.depth_le
    omega

theorem render_lambda (params : List String) (body : Form) :
    (lambda params body).render = closureText params body := by
  have hparams : (params.map Form.symbol).map render = params := by
    rw [List.map_map]
    exact List.map_id params
  rw [lambda, render_list, List.map_cons, List.map_cons, List.map_singleton, render_list, hparams]
  rfl

theorem desugar_lambda (params : List String) (body : Form) :
    (lambda params body).desugar = lambda params body.desugar := by
  have hparams : (params.map Form.symbol).map (respell Double.dropZeroSign) =
      params.map Form.symbol := by
    rw [List.map_map]
    rfl
  rw [lambda, desugar, respell_list, List.map_cons, List.map_cons, List.map_singleton,
    respell_list, hparams]
  rfl

theorem matches_desugar (form : Form) : form.Matches form.desugar :=
  matches_respell Double.dropZeroSign_dropZeroSign form

theorem Unmarked.echoes_desugar {form : Form} (h : form.Unmarked) : form.Echoes form.desugar := by
  have hfixed : Double.dropZeroSign ∘ Double.dropZeroSign = Double.dropZeroSign :=
    funext Double.dropZeroSign_dropZeroSign
  exact ⟨form.matches_desugar, .inr ⟨h, unmarked_respell hfixed form⟩⟩

end Form

theorem AcceptsAll.depth_le {limit : Int} {ts left : List PlacedToken} {forms : List Form}
    (h : AcceptsAll limit ts forms left) : ∀ form ∈ forms, (form.depth : Int) ≤ limit := by
  induction h with
  | nil => exact fun _ hform ↦ absurd hform List.not_mem_nil
  | cons h _ ih =>
      obtain ⟨taken, -, -, hdepth⟩ := h
      exact List.forall_mem_cons.mpr ⟨hdepth, ih⟩

theorem AcceptsAll.legible {limit : Int} {source : String} {tokens left : List PlacedToken}
    {forms : List Form} (h : AcceptsAll limit tokens forms left)
    (hlex : lex source = ⟨tokens, none⟩) : ∀ form ∈ forms, form.Legible limit := by
  intro form hform
  obtain ⟨us, hexpression, hsub⟩ := h.exists_expression form hform
  refine ⟨⟨us, hexpression, fun token htoken ↦ ?_⟩, h.depth_le form hform⟩
  obtain ⟨t, ht, rfl⟩ := List.mem_map.mp (hsub htoken)
  exact Lexer.spells_of_tokenize (tokenize_eq_ok_iff.mpr hlex) t ht

namespace Stock

open Evaluator

/-- The closures whose text can be read, in all frames. -/
def legible (nesting : Int) : Stock :=
  ⟨fun params body ↦ (Form.lambda params body).Legible nesting, fun _ ↦ True, True⟩

variable {nesting : Int}

theorem runs_exhausted {limit : Int} :
    (legible nesting).Yields (throw (.stackExhausted limit)) :=
  fun _ hs ↦ ⟨hs, fun _ _ ↦ trivial⟩

/-- The parts of a legible form are legible, and so are the bodies of the closures it comes upon. -/
theorem yields_evalWithin (limit : Int) (room : Nat) (stack : Stack) {form : Form}
    (h : form.Legible nesting) (scope : FrameId) :
    (legible nesting).Yields (evalWithin limit room stack form scope) := by
  refine evalWithin_induction
    (P := fun form run ↦ form.Legible nesting → ∀ scope, (legible nesting).Yields (run scope)) limit
    (fun _ _ _ ↦ runs_exhausted) ?_ room stack form h scope
  intro operand body hoperand hbody form h scope
  refine yields_evalForm trivial ?_ (fun item hpart ↦ hoperand item (h.part hpart) scope) ?_
  · rintro params body rfl
    exact h
  · intro _ params form inner hclosure _
    exact hbody form (Form.Legible.part hclosure (.body _ form)) inner

theorem yields_evaluateForms (limit : Int) (scope : FrameId) {last : Value}
    (hlast : last.Fits (legible nesting)) {forms : List Form}
    (hforms : ∀ form ∈ forms, form.Legible nesting) :
    (legible nesting).Yields (evaluateForms limit scope last forms) := by
  induction forms generalizing last with
  | nil => exact runs_pure hlast
  | cons form forms ih =>
      obtain ⟨hform, hforms⟩ := List.forall_mem_cons.mp hforms
      apply (yields_evalWithin limit _ _ hform scope).bind
      intro v hv
      exact ih hv hforms

/-- However a text ends, its store is in keeping with the stock, and so is its value. -/
theorem fits_of_ends {limits : Limits} {source : String} {scope : FrameId} {s : Store}
    {r : EStateM.Result RunError Store Value} (h : Run.Ends limits source scope s r)
    (hs : s.Fits (legible limits.nesting)) :
    (∀ {v t}, r = .ok v t →
      t.Fits (legible limits.nesting) ∧ v.Fits (legible limits.nesting)) ∧
      ∀ {e t}, r = .error e t → t.Fits (legible limits.nesting) := by
  have hnil : Value.nil.Fits (legible limits.nesting) := Value.fits_of_flat .nil
  have hends {tokens left : List PlacedToken} {forms : List Form}
      (hlex : lex source = ⟨tokens, none⟩) (hall : AcceptsAll limits.nesting tokens forms left) :=
    yields_evaluateForms limits.depth scope hnil (hall.legible hlex) s hs
  cases h with
  | lex => exact ⟨nofun, by rintro _ _ ⟨⟩; exact hs⟩
  | eval hlex hall hrun | parse hlex hall hrun =>
      have hends := hends hlex hall
      rw [hrun] at hends
      exact ⟨nofun, by rintro _ _ ⟨⟩; exact hends.1⟩
  | value hlex hall hrun =>
      have hends := hends hlex hall
      rw [hrun] at hends
      exact ⟨by rintro _ _ ⟨⟩; exact hends, nofun⟩

end Stock

theorem Store.fits_initial (nesting : Int) : Store.initial.Fits (.legible nesting) where
  parent _ _ _ _ := trivial
  bindings _ _ _ _ hv _ _ _ _ hhas := absurd hhas (not_has_closure_initial hv)
  fresh _ _ := trivial

namespace Session

variable {limits : Limits} {s : Store} {returned : List Value}

theorem fits (h : Session limits s returned) :
    s.Fits (.legible limits.nesting) ∧ ∀ v ∈ returned, v.Fits (.legible limits.nesting) := by
  induction h with
  | start => exact ⟨Store.fits_initial limits.nesting, List.forall_mem_nil _⟩
  | @value s t returned v _ source scope _ hrun ih =>
      obtain ⟨ht, hv⟩ := (Stock.fits_of_ends (Run.ends_interpret limits source scope s) ih.1).1 hrun
      exact ⟨ht, List.forall_mem_cons.mpr ⟨hv, ih.2⟩⟩
  | @error s t returned e _ source scope _ hrun ih =>
      exact ⟨(Stock.fits_of_ends (Run.ends_interpret limits source scope s) ih.1).2 hrun, ih.2⟩

theorem legible (h : Session limits s returned) {id : Nat} {params : List String} {body : Form}
    {scope : FrameId} (hheld : Holds s returned (.closure id params body scope)) :
    (Form.lambda params body).Legible limits.nesting := by
  obtain ⟨hstore, hreturned⟩ := h.fits
  cases hheld with
  | bound hv hhas => exact (hstore.bindings _ _ _ trivial hv _ _ _ _ hhas).1
  | returned hv hhas => exact (hreturned _ hv _ _ _ _ hhas).1

end Session

theorem Evaluator.paramNames_map (names : List String) :
    paramNames (names.map .symbol) = .ok names := by
  induction names with
  | nil => rfl
  | cons name names ih =>
      rw [List.map_cons, paramNames, ih]
      rfl

theorem run_evaluate_lambda (limit : Int) (params : List String) (body : Form) (scope : FrameId)
    (s : Store) : (evaluate limit (.lambda params body) scope).run s =
      .ok (.closure s.nextId params body scope) s.freshId.2 := by
  obtain ⟨operand, inner, hform⟩ := Evaluator.exists_evaluate_eq limit (.lambda params body)
  have hlambda : Evaluator.evalForm operand inner (.lambda params body) scope =
      Evaluator.evalLambda scope [.list (params.map .symbol), body] := rfl
  rw [hform, hlambda, Evaluator.evalLambda, Evaluator.paramNames_map]
  rfl

section ReadBack

variable {limits : Limits} {s : Store} {returned : List Value} {id : Nat} {params : List String}
  {body : Form} {scope : FrameId}

/-- The text makes a closure again, from any store: its body has lost its sugar. -/
theorem run_interpret_closureText (h : (Form.lambda params body).Legible limits.nesting)
    (scope : FrameId) (t : Store) : (interpret limits (closureText params body) scope).run t =
      .ok (.closure t.nextId params body.desugar scope) t.freshId.2 := by
  obtain ⟨ts, hexpression, hlexical⟩ := h.spelled
  obtain ⟨us, hdesugar, hsplits⟩ := Form.exists_printsAs hexpression hlexical
  have htext : Lexer.Splits (closureText params body).toList [] us :=
    Form.render_lambda params body ▸ hsplits [] rfl
  rw [run_interpret_of_splits htext hdesugar, Form.desugar_lambda]
  refine ⟨?_, run_evaluate_lambda limits.depth params body.desugar scope t⟩
  rw [← Form.desugar_lambda, ← (Form.matches_desugar _).depth_eq]
  exact h.depth_le

/-- Applies a function to its arguments at the depth of a call, on the stack that is left for it. -/
def applyAt (depth : Depth) (fn : Value) (args : List Value) (stack : Stack) : Eval Value :=
  Evaluator.apply (evaluateBelow stack depth) fn args

theorem echoes_applyAt {body body' : Form} (h : body.Echoes body') (depth : Depth)
    (id id' : Nat) (params : List String) (scope : FrameId) (args : List Value) :
    Eval.Echoes (applyAt depth (.closure id params body scope) args none)
      (applyAt depth (.closure id' params body' scope) args none) := by
  have hbody : ∀ (f g : Form) (inner : FrameId), f.Echoes g →
      Eval.Echoes (evaluateBelow none depth f inner) (evaluateBelow none depth g inner) :=
    fun _ _ inner hfg ↦ Evaluator.echoes_evalWithin depth.limit _ hfg inner
  have hargs : List.Forall₂ Value.Echoes args args := List.forall₂_same.mpr fun v _ ↦ .refl v
  exact Evaluator.echoes_applyClosure hbody id id' params h scope hargs

theorem suffices_applyAt {depth : Depth} {fn : Value} {args : List Value} {stack : Stack} {u : Store}
    (h : ((applyAt depth fn args stack).observe u).outcome.isExhausted = false) :
    stack.Suffices (applyAt depth fn args) u := by
  have hbody : ∀ form inner, Eval.Outlasts (evaluateBelow stack depth form inner)
      (evaluateBelow none depth form inner) :=
    Evaluator.outlasts_evalWithin _ _ (Nat.le_refl _) (Stack.atMost_none stack)
  exact Eval.Outlasts.suffices (x := applyAt depth fn args) (Evaluator.outlasts_apply hbody fn args)
    (Eval.not_exhausted_of_outcome h)

/-- The text of a closure that a session holds, interpreted in the frame that the closure has
captured, makes a closure with the same parameters, the same frame and the same texts. If no mark
takes the place of a parameter list where the body may be evaluated, both closures, applied to the
same arguments from the same store at the same depth, show the same, unless the host cuts one of the
two runs short. -/
theorem closure_reads_back (h : Session limits s returned)
    (hheld : Holds s returned (.closure id params body scope)) :
    ∃ body', ∀ t : Store,
      (interpret limits (Value.closure id params body scope).text scope).run t =
        .ok (.closure t.nextId params body' scope) t.freshId.2 ∧
      (∀ style, (Value.closure t.nextId params body' scope).render style =
        (Value.closure id params body scope).render style) ∧
      (body.Unmarked → ∀ (stack : Stack) (depth : Depth) (args : List Value) (u : Store),
        stack.Suffices (applyAt depth (.closure id params body scope) args) u →
        stack.Suffices (applyAt depth (.closure t.nextId params body' scope) args) u →
        (applyAt depth (.closure t.nextId params body' scope) args stack).observe u =
          (applyAt depth (.closure id params body scope) args stack).observe u) := by
  refine ⟨body.desugar, fun t ↦ ⟨?_, ?_, ?_⟩⟩
  · exact run_interpret_closureText (h.legible hheld) scope t
  · intro _
    have hbody := body.matches_desugar.render_eq
    rw [Value.render, Value.render, closureText, closureText, hbody]
  · intro hunmarked stack depth args u hrun hagain
    have hechoes := echoes_applyAt hunmarked.echoes_desugar depth id t.nextId params scope args
    rw [Eval.observe_congr hrun, Eval.observe_congr hagain]
    exact (hechoes.observe_eq (.refl .refl u)).symm

/-- A session that begins with the text of a closure. -/
theorem Session.of_lambda {source : String} {tokens : List PlacedToken}
    (htokens : tokenize source = .ok tokens)
    (hform : Expression (tokens.map PlacedToken.token) (.lambda params body))
    (hdepth : ((Form.lambda params body).depth : Int) ≤ limits.nesting) :
    Session limits Store.initial.freshId.2 [.closure 1 params body sessionRoot] := by
  have hnext : Store.initial.nextId = 1 := by decide +kernel
  have hrun := run_evaluate_lambda limits.depth params body sessionRoot Store.initial
  rw [hnext] at hrun
  exact .value .start source Store.Reachable.initial.root_lt_size
    ((run_interpret_eq_ok_iff (tokenize_eq_ok_iff.mp htokens) hform).mpr ⟨hdepth, hrun⟩)

end ReadBack

/-- The body has a mark and a negative zero, and is read back without them. -/
theorem closure_reads_back_sugared :
    let body : Form := .list [.symbol "list", .quote (.symbol "x"), .number (-Double.zero)]
    let lam := Value.closure 1 ["x"] body sessionRoot
    let s := Store.initial.freshId.2
    Session ⟨9, 9⟩ s [lam] ∧ Holds s [lam] lam ∧ body.Unmarked ∧
      lam.text = "(lambda (x) (list (quote x) 0))" ∧ ∃ body',
        let again := Value.closure 2 ["x"] body' sessionRoot
        (interpret ⟨9, 9⟩ lam.text sessionRoot).run s = .ok again s.freshId.2 ∧
        Stack.Suffices (some 20) (applyAt ⟨0, 9⟩ lam [.nil]) s ∧
        Stack.Suffices (some 20) (applyAt ⟨0, 9⟩ again [.nil]) s ∧
        (applyAt ⟨0, 9⟩ again [.nil] (some 20)).observe s =
          (applyAt ⟨0, 9⟩ lam [.nil] (some 20)).observe s := by
  intro body lam s
  have htokens : tokenize "(lambda (x) (list 'x -0))" = .ok [⟨.leftParen, ⟨1, 1⟩⟩,
      ⟨.symbol "lambda", ⟨1, 2⟩⟩, ⟨.leftParen, ⟨1, 9⟩⟩, ⟨.symbol "x", ⟨1, 10⟩⟩,
      ⟨.rightParen, ⟨1, 11⟩⟩, ⟨.leftParen, ⟨1, 13⟩⟩, ⟨.symbol "list", ⟨1, 14⟩⟩,
      ⟨.quoteMark, ⟨1, 19⟩⟩, ⟨.symbol "x", ⟨1, 20⟩⟩, ⟨.number (-Double.zero), ⟨1, 22⟩⟩,
      ⟨.rightParen, ⟨1, 24⟩⟩, ⟨.rightParen, ⟨1, 25⟩⟩] := by decide +kernel
  have hform : Expression [.leftParen, .symbol "lambda", .leftParen, .symbol "x", .rightParen,
      .leftParen, .symbol "list", .quoteMark, .symbol "x", .number (-Double.zero), .rightParen,
      .rightParen] (.lambda ["x"] body) :=
    @Expression.list [[.symbol "lambda"], _, _] _ (.cons (.symbol "lambda")
      (.cons (.list (.cons (.symbol "x") .nil))
        (.cons (.list (.cons (.symbol "list") (.cons (.quote (.symbol "x"))
          (.cons (.number (-Double.zero)) .nil)))) .nil)))
  have hsession : Session ⟨9, 9⟩ s [lam] := .of_lambda htokens hform (by decide)
  have hheld : Holds s [lam] lam := .returned List.mem_cons_self (.self lam)
  have hplain : body.Plain := by
    simp [body, Form.Plain, Form.PlainItems, Form.MarkedParams, Keyword.name]
  have hdesugared := run_interpret_closureText (hsession.legible hheld) sessionRoot s
  obtain ⟨body', hbody'⟩ := closure_reads_back hsession hheld
  obtain ⟨hread, -, happly⟩ := hbody' s
  obtain rfl : body' = body.desugar := by simpa using hread.symm.trans hdesugared
  have hrun : Stack.Suffices (some 20) (applyAt ⟨0, 9⟩ lam [.nil]) s :=
    suffices_applyAt (by decide +kernel)
  have hagain : Stack.Suffices (some 20)
      (applyAt ⟨0, 9⟩ (.closure 2 ["x"] body.desugar sessionRoot) [.nil]) s :=
    suffices_applyAt (by decide +kernel)
  exact ⟨hsession, hheld, hplain.unmarked, by decide +kernel, body.desugar, hread, hrun, hagain,
    happly hplain.unmarked (some 20) ⟨0, 9⟩ [.nil] s hrun hagain⟩

/-- A session returns a closure without parameters, and on that stack a call of the closure that its
text makes shows something else than a call of the closure itself. -/
def ReadBackApart (body : Form) (stack : Stack) : Prop :=
  let lam := Value.closure 1 [] body sessionRoot
  let again := Value.closure 2 [] body.desugar sessionRoot
  let s := Store.initial.freshId.2
  Session ⟨9, 9⟩ s [lam] ∧ Holds s [lam] lam ∧
    (interpret ⟨9, 9⟩ lam.text sessionRoot).run s = .ok again s.freshId.2 ∧
    (applyAt ⟨0, 9⟩ again [] stack).observe s ≠ (applyAt ⟨0, 9⟩ lam [] stack).observe s

theorem readBackApart_of_text {body : Form} {stack : Stack} {source : String}
    {tokens : List PlacedToken} (htokens : tokenize source = .ok tokens)
    (hform : Expression (tokens.map PlacedToken.token) (.lambda [] body))
    (hdepth : (Form.lambda [] body).depth ≤ 9)
    (happly : (applyAt ⟨0, 9⟩ (.closure 2 [] body.desugar sessionRoot) [] stack).observe
        Store.initial.freshId.2 ≠
      (applyAt ⟨0, 9⟩ (.closure 1 [] body sessionRoot) [] stack).observe
        Store.initial.freshId.2) : ReadBackApart body stack := by
  have hsession : Session ⟨9, 9⟩ Store.initial.freshId.2 [.closure 1 [] body sessionRoot] :=
    .of_lambda htokens hform (Int.ofNat_le.mpr hdepth)
  have hheld : Holds Store.initial.freshId.2 [.closure 1 [] body sessionRoot]
      (.closure 1 [] body sessionRoot) := .returned List.mem_cons_self (.self _)
  exact ⟨hsession, hheld, run_interpret_closureText (hsession.legible hheld) sessionRoot _, happly⟩

/-- A call of the first closure fails, as a mark is no parameter list, while a call of the closure
that its text makes returns a closure with the parameters `quote` and `x`. The second closure returns
what is behind the first of four marks: there is room for that on the stack, but not for the same
data with the marks written out. -/
theorem closure_reads_back_apart :
    ReadBackApart (.list [.symbol "lambda", .quote (.symbol "x"), .symbol "y"]) none ∧
      ReadBackApart (.marks 4) (some 8) := by
  have hparams : tokenize "(lambda () (lambda 'x y))" = .ok [⟨.leftParen, ⟨1, 1⟩⟩,
      ⟨.symbol "lambda", ⟨1, 2⟩⟩, ⟨.leftParen, ⟨1, 9⟩⟩, ⟨.rightParen, ⟨1, 10⟩⟩,
      ⟨.leftParen, ⟨1, 12⟩⟩, ⟨.symbol "lambda", ⟨1, 13⟩⟩, ⟨.quoteMark, ⟨1, 20⟩⟩,
      ⟨.symbol "x", ⟨1, 21⟩⟩, ⟨.symbol "y", ⟨1, 23⟩⟩, ⟨.rightParen, ⟨1, 24⟩⟩,
      ⟨.rightParen, ⟨1, 25⟩⟩] := by decide +kernel
  have hparamsForm : Expression [.leftParen, .symbol "lambda", .leftParen, .rightParen, .leftParen,
      .symbol "lambda", .quoteMark, .symbol "x", .symbol "y", .rightParen, .rightParen]
      (.lambda [] (.list [.symbol "lambda", .quote (.symbol "x"), .symbol "y"])) :=
    @Expression.list [[.symbol "lambda"], _, _] _ (.cons (.symbol "lambda") (.cons (.list .nil)
      (.cons (.list (.cons (.symbol "lambda") (.cons (.quote (.symbol "x"))
        (.cons (.symbol "y") .nil)))) .nil)))
  have hmarks : tokenize "(lambda () ''''a)" = .ok [⟨.leftParen, ⟨1, 1⟩⟩,
      ⟨.symbol "lambda", ⟨1, 2⟩⟩, ⟨.leftParen, ⟨1, 9⟩⟩, ⟨.rightParen, ⟨1, 10⟩⟩,
      ⟨.quoteMark, ⟨1, 12⟩⟩, ⟨.quoteMark, ⟨1, 13⟩⟩, ⟨.quoteMark, ⟨1, 14⟩⟩,
      ⟨.quoteMark, ⟨1, 15⟩⟩, ⟨.symbol "a", ⟨1, 16⟩⟩, ⟨.rightParen, ⟨1, 17⟩⟩] := by decide +kernel
  have hmarksForm : Expression [.leftParen, .symbol "lambda", .leftParen, .rightParen, .quoteMark,
      .quoteMark, .quoteMark, .quoteMark, .symbol "a", .rightParen] (.lambda [] (.marks 4)) :=
    @Expression.list [[.symbol "lambda"], _, _] _ (.cons (.symbol "lambda") (.cons (.list .nil)
      (.cons (.quote (.quote (.quote (.quote (.symbol "a"))))) .nil)))
  exact ⟨readBackApart_of_text hparams hparamsForm (by decide) (by decide +kernel),
    readBackApart_of_text hmarks hmarksForm (by decide) (by decide +kernel)⟩

end MiniLisp
