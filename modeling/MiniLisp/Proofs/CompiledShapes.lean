import MiniLisp.Proofs.LawfulTexts
import MiniLisp.Repl
import MiniLisp.Script.Emit

/-!
# Compiled programs have well-shaped forms

A form that has a script is no misshapen special form, and every part of it that evaluation may come
to has a script as well. So it is a law of all forms of a compiled program, and of the bodies of its
closures, that they have scripts; and no error of their evaluation blames the shape of a special
form.
-/

namespace MiniLisp

/-- The error is about the count or the kind of what this callee was given. -/
inductive EvalError.Blames (callee : String) : EvalError → Prop
  | count (arity : Arity) (count : Nat) : Blames callee (.wrongArity callee arity count)
  | kind (needed : Needed) (found : Value) : Blames callee (.typeMismatch callee needed found)

namespace Script

/-- The form has a script. -/
def Emits (form : Form) : Prop := ∃ script, emit form = .ok script

theorem emitAll_eq_map (forms : List Form) : emitAll forms = forms.map emit := by
  induction forms with
  | nil => rfl
  | cons form forms ih => rw [emitAll, ih, List.map_cons]

theorem forall₂_of_mapM {ε α β : Type} {f : α → Except ε β} {xs : List α} {ys : List β}
    (h : xs.mapM f = .ok ys) : List.Forall₂ (fun x y ↦ f x = .ok y) xs ys := by
  induction xs generalizing ys with
  | nil =>
      cases h
      exact .nil
  | cons x xs ih =>
      rw [List.mapM_cons] at h
      obtain ⟨y, hy, h⟩ := ok_of_bind h
      obtain ⟨rest, hrest, h⟩ := ok_of_bind h
      cases h
      exact .cons hy (ih hrest)

theorem exists_ok_of_mapM {ε α β : Type} {f : α → Except ε β} {xs : List α} {ys : List β}
    (h : xs.mapM f = .ok ys) : ∀ x ∈ xs, ∃ y, f x = .ok y := by
  intro x hx
  obtain ⟨y, -, hy⟩ := exists_mem_of_mem_right (forall₂_of_mapM h).flip hx
  exact ⟨y, hy⟩

theorem emits_of_mapM {operands : List Form} {scripts : List String}
    (h : (emitAll operands).mapM id = .ok scripts) : ∀ form ∈ operands, Emits form := by
  intro form hform
  apply exists_ok_of_mapM h
  rw [emitAll_eq_map]
  exact List.mem_map_of_mem hform

theorem emits_symbol {name ident : String} (h : identifier name = .ok ident) :
    Emits (.symbol name) := by
  unfold Emits emit
  cases Operator.ofName? name with
  | some op => exact ⟨op.asFunction, rfl⟩
  | none => exact ⟨ident, h⟩

section Keywords

variable {operands : List Form}

theorem exists_of_emits_quote (h : Emits (.list (.symbol Keyword.quote.name :: operands))) :
    ∃ form, operands = [form] := by
  obtain ⟨script, h⟩ := h
  -- A wrong number of operands has no script, here and for the other keywords.
  rcases operands with _ | ⟨form, _ | ⟨extra, rest⟩⟩
  case cons.nil => exact ⟨form, rfl⟩
  all_goals cases h

theorem emits_of_emits_list (h : Emits (.list (.symbol Keyword.list.name :: operands))) :
    ∀ form ∈ operands, Emits form := by
  obtain ⟨script, h⟩ := h
  obtain ⟨scripts, hscripts, -⟩ := ok_of_map h
  exact emits_of_mapM hscripts

theorem eq_of_paramNames? {params : List Form} {names : List String}
    (h : paramNames? params = some names) : params = names.map .symbol := by
  induction params generalizing names with
  | nil =>
      cases h
      rfl
  | cons param params ih =>
      cases param with
      | symbol name =>
          obtain ⟨rest, hrest, rfl⟩ := Option.map_eq_some_iff.mp h
          rw [ih hrest, List.map_cons]
      | number | string | boolean | nil | quote | list => cases h

theorem exists_of_parameters {params : Form} {text : String} (h : parameters params = .ok text) :
    ∃ names, params = .list (List.map .symbol names) := by
  unfold parameters at h
  split at h
  next items =>
    split at h
    next names hnames => exact ⟨names, congrArg Form.list (eq_of_paramNames? hnames)⟩
    next => cases h
  next => cases h

theorem exists_of_target {form : Form} {text : String} (h : target form = .ok text) :
    ∃ name, form = .symbol name := by
  unfold target at h
  split at h
  next name => exact ⟨name, rfl⟩
  next => cases h

theorem exists_of_emits_lambda (h : Emits (.list (.symbol Keyword.lambda.name :: operands))) :
    ∃ names body, operands = [.list (List.map .symbol names), body] ∧ Emits body := by
  obtain ⟨script, h⟩ := h
  rcases operands with _ | ⟨params, _ | ⟨body, _ | ⟨extra, rest⟩⟩⟩
  case cons.cons.nil =>
      obtain ⟨text, htext, h⟩ := ok_of_bind h
      obtain ⟨bodyScript, hbody, -⟩ := ok_of_bind h
      obtain ⟨names, rfl⟩ := exists_of_parameters htext
      exact ⟨names, body, rfl, bodyScript, hbody⟩
  all_goals cases h

theorem exists_of_emits_define (h : Emits (.list (.symbol Keyword.define.name :: operands))) :
    ∃ name value, operands = [.symbol name, value] ∧ Emits value := by
  obtain ⟨script, h⟩ := h
  rcases operands with _ | ⟨form, _ | ⟨value, _ | ⟨extra, rest⟩⟩⟩
  case cons.cons.nil =>
      obtain ⟨text, htext, h⟩ := ok_of_bind h
      obtain ⟨valueScript, hvalue, -⟩ := ok_of_bind h
      obtain ⟨name, rfl⟩ := exists_of_target htext
      exact ⟨name, value, rfl, valueScript, hvalue⟩
  all_goals cases h

theorem exists_of_emits_conditional
    (h : Emits (.list (.symbol Keyword.conditional.name :: operands))) :
    ∃ test yes no, operands = [test, yes, no] ∧ Emits test ∧ Emits yes ∧ Emits no := by
  obtain ⟨script, h⟩ := h
  rcases operands with _ | ⟨test, _ | ⟨yes, _ | ⟨no, _ | ⟨extra, rest⟩⟩⟩⟩
  case cons.cons.cons.nil =>
      obtain ⟨testScript, htest, h⟩ := ok_of_bind h
      obtain ⟨yesScript, hyes, h⟩ := ok_of_bind h
      obtain ⟨noScript, hno, -⟩ := ok_of_bind h
      exact ⟨test, yes, no, rfl, ⟨testScript, htest⟩, ⟨yesScript, hyes⟩, ⟨noScript, hno⟩⟩
  all_goals cases h

end Keywords

section Calls

variable {name : String} {operands : List Form}

/-- The constructs that evaluation calls as functions, since they are no special forms. -/
theorem emits_of_construct {c : Construct} (hname : Keyword.ofName? name = none)
    (hc : Construct.ofName? name = some c) {script : String}
    (h : construct operands (emitAll operands) c = .ok script) :
    Emits (.symbol name) ∧ ∀ form ∈ operands, Emits form := by
  unfold Construct.ofName? at hc
  split at hc
  -- The five keywords come first, and the name is none of them.
  case h_1 | h_2 | h_3 | h_4 | h_5 => exact absurd hname (by decide)
  case h_6 =>
      cases hc
      obtain ⟨scripts, hscripts, -⟩ := ok_of_map h
      exact ⟨⟨_, rfl⟩, emits_of_mapM hscripts⟩
  case h_7 =>
      cases hc
      refine ⟨⟨_, rfl⟩, ?_⟩
      rcases operands with _ | ⟨items, _ | ⟨index, _ | ⟨extra, rest⟩⟩⟩
      case cons.cons.nil =>
          obtain ⟨itemsScript, hitems, h⟩ := ok_of_bind h
          obtain ⟨indexScript, hindex, -⟩ := ok_of_bind h
          simp [Emits, hitems, hindex]
      all_goals cases h
  case h_8 =>
      cases hc
      refine ⟨⟨_, rfl⟩, ?_⟩
      rcases operands with _ | ⟨arg, _ | ⟨extra, rest⟩⟩
      case cons.nil =>
          obtain ⟨argScript, harg, -⟩ := ok_of_bind h
          simp [Emits, harg]
      all_goals cases h
  case h_9 =>
      obtain ⟨op, hop, rfl⟩ := Option.map_eq_some_iff.mp hc
      obtain ⟨scripts, hscripts, -⟩ := ok_of_bind h
      refine ⟨⟨op.asFunction, ?_⟩, emits_of_mapM hscripts⟩
      rw [emit, hop]

theorem emits_of_emits_call {head : Form} (hhead : Keyword.ofHead? head = none)
    (h : Emits (.list (head :: operands))) : ∀ form ∈ head :: operands, Emits form := by
  obtain ⟨script, h⟩ := h
  cases head with
  | symbol name =>
      rw [emit] at h
      cases hc : Construct.ofName? name with
      | some c =>
          rw [hc] at h
          obtain ⟨hsymbol, hoperands⟩ := emits_of_construct hhead hc h
          exact List.forall_mem_cons.mpr ⟨hsymbol, hoperands⟩
      | none =>
          rw [hc] at h
          obtain ⟨fn, hfn, h⟩ := ok_of_bind h
          obtain ⟨scripts, hscripts, -⟩ := ok_of_bind h
          exact List.forall_mem_cons.mpr ⟨emits_symbol hfn, emits_of_mapM hscripts⟩
  | list items =>
      -- A list at the head is compiled as a form, a symbol as an identifier.
      rw [emit] at h
      obtain ⟨fn, hfn, h⟩ := ok_of_bind h
      obtain ⟨scripts, hscripts, -⟩ := ok_of_bind h
      exact List.forall_mem_cons.mpr ⟨⟨fn, hfn⟩, emits_of_mapM hscripts⟩
  | number | string | boolean | nil | quote => cases h

end Calls

theorem emits_of_part {whole item : Form} (h : Emits whole) (hpart : item.Part whole) :
    Emits item := by
  cases hpart with
  | call hhead mem => exact emits_of_emits_call hhead h item mem
  | item mem => exact emits_of_emits_list h item mem
  | body params body =>
      obtain ⟨names, _, hoperands, hbody⟩ := exists_of_emits_lambda h
      cases hoperands
      exact hbody
  | value name value =>
      obtain ⟨_, _, hoperands, hvalue⟩ := exists_of_emits_define h
      cases hoperands
      exact hvalue
  | choice mem =>
      obtain ⟨_, _, _, hoperands, htest, hyes, hno⟩ := exists_of_emits_conditional h
      cases hoperands
      simp only [List.mem_cons, List.not_mem_nil, or_false] at mem
      rcases mem with rfl | rfl | rfl
      · exact htest
      · exact hyes
      · exact hno

theorem not_misshapen_of_emits {form : Form} (h : Emits form) (e : EvalError) :
    ¬ form.Misshapen e := by
  intro he
  cases he with
  | @count k n hk operands hlength =>
      cases k with
      | quote =>
          obtain ⟨_, rfl⟩ := exists_of_emits_quote h
          exact hlength (Option.some.inj hk)
      | lambda =>
          obtain ⟨_, _, rfl, -⟩ := exists_of_emits_lambda h
          exact hlength (Option.some.inj hk)
      | list => cases hk
      | define =>
          obtain ⟨_, _, rfl, -⟩ := exists_of_emits_define h
          exact hlength (Option.some.inj hk)
      | conditional =>
          obtain ⟨_, _, _, rfl, -⟩ := exists_of_emits_conditional h
          exact hlength (Option.some.inj hk)
  | parameterList hlist body =>
      obtain ⟨names, _, hoperands, -⟩ := exists_of_emits_lambda h
      cases hoperands
      exact hlist _ rfl
  | parameter mem hsymbol body =>
      obtain ⟨names, _, hoperands, -⟩ := exists_of_emits_lambda h
      cases hoperands
      obtain ⟨name, -, rfl⟩ := List.mem_map.mp mem
      exact hsymbol name rfl
  | target hsymbol value =>
      obtain ⟨name, _, hoperands, -⟩ := exists_of_emits_define h
      cases hoperands
      exact hsymbol name rfl

theorem emits_of_statement {form : Form} {line : String} (h : statement form = .ok line) :
    Emits form := by
  unfold statement at h
  split at h
  next name value =>
    obtain ⟨ident, hident, h⟩ := ok_of_bind h
    obtain ⟨script, hscript, -⟩ := ok_of_bind h
    refine ⟨"(" ++ ident ++ " = " ++ script ++ ")", ?_⟩
    change (do return "(" ++ (← identifier name) ++ " = " ++ (← emit value) ++ ")") = _
    rw [hident, hscript]
    rfl
  next =>
    obtain ⟨script, hscript, -⟩ := ok_of_bind h
    exact ⟨script, hscript⟩

/-- A compiled program has a statement for each form that was read. -/
theorem exists_statements_of_compile {nesting : Int} {source script : String}
    (h : compile nesting source = .ok script) : ∃ forms statements,
      readForms source nesting = .ok forms ∧ forms.mapM statement = .ok statements ∧
        script = "\n".intercalate statements := by
  unfold compile at h
  split at h
  · cases h
  next forms hread =>
    split at h
    · cases h
    next statements hstatements =>
      cases h
      exact ⟨forms, statements, hread, hstatements, rfl⟩

theorem exists_of_compile {nesting : Int} {source script : String}
    (h : compile nesting source = .ok script) :
    ∃ forms, readForms source nesting = .ok forms ∧ ∀ form ∈ forms, Emits form := by
  obtain ⟨forms, statements, hread, hstatements, -⟩ := exists_statements_of_compile h
  refine ⟨forms, hread, fun form hform ↦ ?_⟩
  obtain ⟨line, hline⟩ := exists_ok_of_mapM hstatements form hform
  exact emits_of_statement hline

end Script

/-- No closure has the name of a keyword: its text begins with a parenthesis. -/
theorem closureText_ne_name (params : List String) (body : Form) (k : Keyword) :
    closureText params body ≠ k.name := by
  intro h
  have hname : k.name.toList.head? ≠ some '(' := by cases k <;> decide
  apply hname
  rw [← h]
  simp [closureText, parenthesize]

namespace Law

/-- Every form has a script, and no error blames what a special form was given. -/
def emitted : Law where
  name _ := True
  form := Script.Emits
  error e := ∀ k : Keyword, ¬ e.Blames k.name

theorem sound_emitted : emitted.Sound where
  native _ := trivial
  part := Script.emits_of_part
  introduced _ _ := trivial
  misshapen hform he := absurd he (Script.not_misshapen_of_emits hform _)
  unbound _ := by
    intro k hk
    cases hk
  exhausted _ := by
    intro k hk
    cases hk
  notCallable _ := by
    intro k hk
    cases hk
  arity _ _ _ := by
    intro k hk
    generalize hname : k.name = name at hk
    cases hk
    exact closureText_ne_name _ _ k hname.symm
  complaint {_ op _ _} _ he := by
    intro k hk
    have hne : op.name ≠ k.name := by cases op <;> cases k <;> decide
    generalize hname : k.name = name at hk hne
    cases he with
    | count | kind =>
        cases hk
        exact hne rfl
    | zero => cases hk

/-- Whatever the limit on nesting, what is read of a compiled text was compiled. -/
theorem allows_of_compile {nesting : Int} {source script : String}
    (h : Script.compile nesting source = .ok script) (nesting' : Int) :
    emitted.Allows nesting' source := by
  obtain ⟨forms, hread, hforms⟩ := Script.exists_of_compile h
  obtain ⟨tokens, hlex, hall⟩ := exists_acceptsAll_of_readForms hread
  intro tokens' forms' left hlex' hall' form hform
  rw [hlex] at hlex'
  cases hlex'
  exact hforms form ((hall.isPrefix hall').subset hform)

end Law

/-- Where a program can be compiled, no error of its run in a new session blames the shape of a
special form, at whatever limits and in whatever closure it comes up. -/
theorem compiled_shapes {nesting : Int} {source script : String}
    (h : Script.compile nesting source = .ok script) {limits : Limits} {e : EvalError} {s : Store}
    (hrun : (interpret limits source sessionRoot).run Store.initial = .error (.eval e) s)
    (k : Keyword) : ¬ e.Blames k.name := by
  have hroot : sessionRoot < Store.initial.frames.size := by
    rw [Store.size_initial]
    decide
  have hends := Law.sound_emitted.textEnds_interpret (Law.allows_of_compile h limits.nesting)
    (Store.obeys_initial Law.sound_emitted.native) hroot
  rw [hrun] at hends
  cases hends with
  | eval _ _ he => exact he k

/-- A closure of one parameter, called without arguments. -/
def Form.missingArgument : Form :=
  .list [.list [.symbol "lambda", .list [.symbol "x"], .symbol "x"]]

/-- The program runs into an error, of the closure that it calls and not of the form that made it. -/
theorem compiled_shapes_missingArgument :
    Script.compile 9 "((lambda (x) x))" = .ok "((x) => x)();" ∧
      (∃ s, (interpret ⟨9, 9⟩ "((lambda (x) x))" sessionRoot).run Store.initial =
        .error (.eval (.wrongArity "(lambda (x) x)" (.exactly 1) 0)) s) ∧
      ∀ k : Keyword, ¬ (EvalError.wrongArity "(lambda (x) x)" (.exactly 1) 0).Blames k.name := by
  have htokens : tokenize "((lambda (x) x))" = .ok [⟨.leftParen, ⟨1, 1⟩⟩, ⟨.leftParen, ⟨1, 2⟩⟩,
      ⟨.symbol "lambda", ⟨1, 3⟩⟩, ⟨.leftParen, ⟨1, 10⟩⟩, ⟨.symbol "x", ⟨1, 11⟩⟩,
      ⟨.rightParen, ⟨1, 12⟩⟩, ⟨.symbol "x", ⟨1, 14⟩⟩, ⟨.rightParen, ⟨1, 15⟩⟩,
      ⟨.rightParen, ⟨1, 16⟩⟩] := by decide +kernel
  have hlex := tokenize_eq_ok_iff.mp htokens
  have hform : (TokenStream.mk (lex "((lambda (x) x))").tokens none 9).readForm =
      (.ok .missingArgument, ⟨[], none, 9⟩) := by
    rw [hlex]
    rfl
  have hbatch := TokenStream.readForms_single hform
  rw [hlex] at hbatch
  have hforms : readForms "((lambda (x) x))" 9 = .ok [.missingArgument] := by
    rw [readForms_eq_answer, TokenStream.lazy, hlex, hbatch]
    rfl
  have hcompile : Script.compile 9 "((lambda (x) x))" = .ok "((x) => x)();" := by
    rw [Script.compile, hforms]
    rfl
  have hrun : ∃ s, (interpret ⟨9, 9⟩ "((lambda (x) x))" sessionRoot).run Store.initial =
      .error (.eval (.wrongArity "(lambda (x) x)" (.exactly 1) 0)) s := by
    rw [interpret_of_lex hlex, hbatch]
    exact ⟨_, rfl⟩
  obtain ⟨s, hs⟩ := hrun
  exact ⟨hcompile, ⟨s, hs⟩, compiled_shapes hcompile hs⟩

end MiniLisp
