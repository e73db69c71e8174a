import MiniLisp.Proofs.DepthLimit
import MiniLisp.Proofs.SingleLines
import MiniLisp.Repl

/-!
# Sessions take every line and report it once

A session goes on behind every line, whatever becomes of it. A blank line shows nothing. Any other
line shows what it logs, and behind that its value or its error, which is never more than one line:
the law that all names are on one line holds of everything a session meets.
-/

namespace MiniLisp

theorem Arity.oneLine_describe (a : Arity) : OneLine a.describe := by
  have hatLeast : OneLine "at least " := by decide
  have hto : OneLine " to " := by decide
  unfold describe
  split
  · exact oneLine_append.mpr ⟨hatLeast, oneLine_toString a.least⟩
  · split
    · exact oneLine_toString a.least
    · simp only [oneLine_append]
      exact ⟨⟨oneLine_toString a.least, hto⟩, oneLine_toString _⟩

namespace EvalError

theorem oneLine_wrongArity {callee : String} (hcallee : OneLine callee) (a : Arity) (count : Nat) :
    OneLine (wrongArity callee a count).message := by
  have hexpected : OneLine ": expected " := by decide
  have hgot : OneLine " argument(s), got " := by decide
  unfold message
  simp only [oneLine_append]
  exact ⟨⟨⟨⟨hcallee, hexpected⟩, a.oneLine_describe⟩, hgot⟩, oneLine_repr count⟩

theorem oneLine_typeMismatch {callee : String} (hcallee : OneLine callee) (needed : Needed)
    {found : Value} (hfound : OneLine found.text) :
    OneLine (typeMismatch callee needed found).message := by
  have hexpected : OneLine ": expected " := by decide
  have hneeded : OneLine needed.describe := by cases needed <;> decide
  have hgot : OneLine ", got " := by decide
  unfold message
  simp only [oneLine_append]
  exact ⟨⟨⟨⟨hcallee, hexpected⟩, hneeded⟩, hgot⟩, hfound⟩

end EvalError

theorem Keyword.oneLine_name (k : Keyword) : OneLine k.name := by
  cases k <;> decide

namespace Law

theorem oneLine_toValue {form : Form} (h : oneLine.form form) : OneLine form.toValue.text :=
  (form.obeys_toValue (L := oneLine) h 0).oneLine_text

theorem oneLine_of_misshapen {form : Form} {e : EvalError} (h : oneLine.form form)
    (he : form.Misshapen e) : OneLine e.message := by
  cases he with
  | count => exact EvalError.oneLine_wrongArity (Keyword.oneLine_name _) _ _
  | parameterList hlist body =>
      apply EvalError.oneLine_typeMismatch Keyword.lambda.oneLine_name
      exact oneLine_toValue fun name hname ↦ h name (.list (by simp) hname)
  | parameter mem hsymbol body =>
      apply EvalError.oneLine_typeMismatch Keyword.lambda.oneLine_name
      apply oneLine_toValue
      intro name hname
      exact h name (.list (List.mem_cons_of_mem _ List.mem_cons_self) (.list mem hname))
  | target hsymbol value =>
      apply EvalError.oneLine_typeMismatch Keyword.define.oneLine_name
      exact oneLine_toValue fun name hname ↦ h name (.list (by simp) hname)

theorem oneLine_of_complaint {size : Nat} {op : Primitive} {args : List Value} {e : EvalError}
    (hargs : ∀ v ∈ args, v.Obeys oneLine size) (he : op.Complaint args e) : OneLine e.message := by
  cases he with
  | count => exact EvalError.oneLine_wrongArity op.oneLine_name _ _
  | kind needed mem =>
      exact EvalError.oneLine_typeMismatch op.oneLine_name needed (hargs _ mem).oneLine_text
  | zero => decide

theorem sound_oneLine : oneLine.Sound where
  native := Primitive.oneLine_name
  part hwhole hpart _ hname := hwhole _ (hpart.mentions hname)
  introduced hform hname := hform _ hname.mentions
  misshapen := oneLine_of_misshapen
  unbound hform := by
    have hunbound : OneLine "unbound symbol: " := by decide
    exact oneLine_append.mpr ⟨hunbound, hform _ (.symbol _)⟩
  exhausted limit := by
    have hbefore : OneLine "stack exhausted: evaluation deeper than " := by decide
    have hlevels : OneLine " levels" := by decide
    exact oneLine_append.mpr ⟨oneLine_append.mpr ⟨hbefore, oneLine_toString limit⟩, hlevels⟩
  notCallable hv := by
    have hnot : OneLine "not callable: " := by decide
    exact oneLine_append.mpr ⟨hnot, hv.oneLine_text⟩
  arity count hparams hbody :=
    EvalError.oneLine_wrongArity (oneLine_closureText hparams hbody) _ count
  complaint := oneLine_of_complaint

theorem allows_oneLine (nesting : Int) (source : String) : oneLine.Allows nesting source := by
  have hquote : OneLine Keyword.quote.name := Keyword.quote.oneLine_name
  refine allows_naming hquote ?_ nesting
  intro t ht name htoken _
  obtain ⟨rest, x, hlexeme⟩ := Lexer.exists_lexeme_of_lex ht
  rw [htoken] at hlexeme
  exact hlexeme.oneLine_name

end Law

theorem Store.lines_of_writes {s t : Store} (h : s.Writes t) :
    t.lines = s.lines ++ t.linesAfter s.output.size := by
  obtain ⟨more, hmore⟩ := h
  rw [lines, lines, linesAfter, ← hmore, ← Array.length_toList, List.drop_left, List.map_append]

namespace Run

theorem evolves_evaluateForms (limit : Int) (scope : FrameId) (last : Value)
    (forms : List Form) :
    Eval.Leaves (Store.Evolves scope fun _ ↦ True) (evaluateForms limit scope last forms) := by
  induction forms generalizing last with
  | nil => exact Eval.leaves_pure last
  | cons form forms ih =>
      have hform : Eval.Leaves (Store.Evolves scope fun _ ↦ True) (evaluate limit form scope) :=
        (Evaluator.leaves_evalWithin limit _ _ form scope).mono fun _ _ h ↦ h.mono fun _ _ ↦ trivial
      exact hform.bind ih

/-- A text does to the store what its forms do. -/
theorem exists_storeAfter_eq (limits : Limits) (source : String) (scope : FrameId) (s : Store) :
    ∃ forms, (interpret limits source scope).storeAfter s =
      (evaluateForms limits.depth scope .nil forms).storeAfter s := by
  have hends := ends_interpret limits source scope s
  rw [storeAfter]
  generalize (interpret limits source scope).run s = r at hends
  cases hends with
  | lex => exact ⟨[], rfl⟩
  | eval _ _ hrun => exact ⟨_, (Eval.storeAfter_eq_of_error hrun).symm⟩
  | parse _ _ hrun | value _ _ hrun => exact ⟨_, (Eval.storeAfter_eq_of_ok hrun).symm⟩

theorem writes_interpret (limits : Limits) (source : String) (scope : FrameId) (s : Store) :
    s.Writes ((interpret limits source scope).storeAfter s) := by
  obtain ⟨forms, hforms⟩ := exists_storeAfter_eq limits source scope s
  rw [hforms]
  exact (evolves_evaluateForms limits.depth scope .nil forms s).output

end Run

/-- What a session shows for its lines, from this store on: of a blank line nothing, and of any
other what it logged and then its value or its error, on one line. -/
inductive Repl.Shows (limits : Limits) : Store → List String → List String → Prop
  | done (s : Store) : Shows limits s [] []
  | blank {s : Store} {line : String} {lines shown : List String}
      (hblank : ∀ c ∈ line.toList, Text.isBlank c = true) (h : Shows limits s lines shown) :
      Shows limits s (line :: lines) shown
  | value {s t : Store} {line : String} {lines shown : List String} {v : Value}
      (hline : ∃ c ∈ line.toList, Text.isBlank c = false)
      (hrun : (interpret limits line sessionRoot).run s = .ok v t) (htext : OneLine v.text)
      (h : Shows limits (t.write sessionRoot v.text) lines shown) :
      Shows limits s (line :: lines) (t.linesAfter s.output.size ++ v.text :: shown)
  | error {s t : Store} {line : String} {lines shown : List String} {e : RunError}
      (hline : ∃ c ∈ line.toList, Text.isBlank c = false)
      (hrun : (interpret limits line sessionRoot).run s = .error e t) (hmessage : OneLine e.message)
      (h : Shows limits (t.write sessionRoot ("error: " ++ e.message)) lines shown) :
      Shows limits s (line :: lines)
        (t.linesAfter s.output.size ++ ("error: " ++ e.message) :: shown)

namespace Repl

variable {limits : Limits} {s t : Store} {line : String}

theorem isBlankLine_iff : isBlankLine line = true ↔ ∀ c ∈ line.toList, Text.isBlank c = true :=
  List.all_eq_true

theorem step_of_ok (hline : isBlankLine line = false) {v : Value}
    (hrun : (interpret limits line sessionRoot).run s = .ok v t) :
    step limits s line = t.write sessionRoot v.text := by
  have hread : interpret limits line sessionRoot s = .ok v t := hrun
  rw [step, hline, runLine, hread]
  rfl

theorem step_of_error (hline : isBlankLine line = false) {e : RunError}
    (hrun : (interpret limits line sessionRoot).run s = .error e t) :
    step limits s line = t.write sessionRoot ("error: " ++ e.message) := by
  have hread : interpret limits line sessionRoot s = .error e t := hrun
  rw [step, hline, runLine, hread]
  rfl

theorem lines_write (s : Store) (home : FrameId) (text : String) :
    (s.write home text).lines = s.lines ++ [text] := by
  simp [Store.write, Store.lines]

/-- A store in which every name is on one line, so that whatever a session shows of it is. -/
structure Steady (s : Store) : Prop where
  obeys : s.Obeys Law.oneLine
  root : sessionRoot < s.frames.size

theorem Steady.write (h : Steady s) (home : FrameId) (text : String) :
    Steady (s.write home text) :=
  ⟨h.obeys.of_frames_eq rfl, h.root⟩

/-- A run of a line ends in a steady store again, with a value or an error that is on one line. -/
theorem Steady.interpret (h : Steady s) (limits : Limits) (line : String) :
    (∃ v t, (MiniLisp.interpret limits line sessionRoot).run s = .ok v t ∧ Steady t ∧
        OneLine v.text) ∨
      ∃ e t, (MiniLisp.interpret limits line sessionRoot).run s = .error e t ∧ Steady t ∧
        OneLine e.message := by
  have hends := Law.sound_oneLine.textEnds_interpret (Law.allows_oneLine limits.nesting line)
    h.obeys h.root
  generalize (MiniLisp.interpret limits line sessionRoot).run s = r at hends
  cases hends with
  | value ht hsize hv =>
      exact .inl ⟨_, _, rfl, ⟨ht, Nat.lt_of_lt_of_le h.root hsize⟩, hv.oneLine_text⟩
  | eval ht hsize he => exact .inr ⟨_, _, rfl, ⟨ht, Nat.lt_of_lt_of_le h.root hsize⟩, he⟩
  | parse e ht hsize =>
      exact .inr ⟨_, _, rfl, ⟨ht, Nat.lt_of_lt_of_le h.root hsize⟩, e.oneLine_message⟩
  | lex he ht hsize =>
      exact .inr ⟨_, _, rfl, ⟨ht, Nat.lt_of_lt_of_le h.root hsize⟩, oneLine_of_lex he⟩

/-- Induction on the lines; every one of them leaves a steady store. -/
theorem exists_shows (h : Steady s) (limits : Limits) (lines : List String) :
    ∃ shown, Shows limits s lines shown ∧
      (lines.foldl (step limits) s).lines = s.lines ++ shown := by
  induction lines generalizing s with
  | nil => exact ⟨[], .done s, (List.append_nil _).symm⟩
  | cons line lines ih =>
      rw [List.foldl_cons]
      cases hblank : isBlankLine line with
      | true =>
          have hstep : step limits s line = s := by rw [step, hblank, if_pos rfl]
          obtain ⟨shown, hshown, hlines⟩ := ih h
          rw [hstep]
          exact ⟨shown, .blank (isBlankLine_iff.mp hblank) hshown, hlines⟩
      | false =>
          have hline : ∃ c ∈ line.toList, Text.isBlank c = false := by
            simpa [isBlankLine] using hblank
          have hwrites := Store.lines_of_writes (Run.writes_interpret limits line sessionRoot s)
          rcases h.interpret limits line with ⟨v, t, hrun, ht, htext⟩ | ⟨e, t, hrun, ht, htext⟩
          · rw [Run.storeAfter, hrun] at hwrites
            obtain ⟨shown, hshown, hlines⟩ := ih (ht.write sessionRoot v.text)
            refine ⟨_, .value hline hrun htext hshown, ?_⟩
            rw [step_of_ok hblank hrun, hlines, lines_write, hwrites]
            simp
          · rw [Run.storeAfter, hrun] at hwrites
            obtain ⟨shown, hshown, hlines⟩ := ih (ht.write sessionRoot ("error: " ++ e.message))
            refine ⟨_, .error hline hrun htext hshown, ?_⟩
            rw [step_of_error hblank hrun, hlines, lines_write, hwrites]
            simp

theorem steady_initial : Steady Store.initial :=
  ⟨Store.obeys_initial Law.sound_oneLine.native, by rw [Store.size_initial]; decide⟩

end Repl

/-- A session on any lines goes through all of them, and its output is what they show in turn. -/
theorem session_shows (limits : Limits) (lines : List String) :
    Repl.Shows limits Store.initial lines (Repl.output limits lines) := by
  obtain ⟨shown, hshown, hlines⟩ := Repl.exists_shows Repl.steady_initial limits lines
  rw [Repl.output, Repl.run, hlines]
  exact hshown

end MiniLisp
