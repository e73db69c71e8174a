import MiniLisp.Proofs.LawfulRuns
import MiniLisp.Proofs.PiecewiseRuns

/-!
# Source texts that keep a law

A text keeps a sound law in every store that does, if the law allows each form that is read from it.
A law that is only about names allows the forms whose tokens bear such names. What holds of the store
of a new session and is kept by every text holds of every store that a session can reach.
-/

namespace MiniLisp

/-- The store that a run of a text leaves, however it ends. -/
def Run.storeAfter {α : Type} (x : Run α) (s : Store) : Store :=
  match x.run s with
  | .ok _ t => t
  | .error _ t => t

/-- The store is left by texts that ran one after the other, each in a frame that was there. -/
inductive Store.Reachable : Store → Prop
  | initial : Reachable Store.initial
  | interpret {s : Store} (h : Reachable s) (limits : Limits) (source : String) {scope : FrameId}
      (hscope : scope < s.frames.size) :
      Reachable (Run.storeAfter (MiniLisp.interpret limits source scope) s)

namespace TokenStream

variable {limit : Int} {ts : List PlacedToken}

theorem exists_parseError {x : ReadError}
    (h : (TokenStream.mk ts none limit).readForm.1 = .error x) :
    ∃ e, x = .parse e := by
  have hverdict := verdict_readForm ts limit
  rw [h] at hverdict
  cases hverdict with
  | unfinished | stray | tooDeep => exact ⟨_, rfl⟩

/-- Forms are read from the front of the tokens, to their end or to an error of parsing. -/
theorem exists_readForms (limit : Int) (ts : List PlacedToken) : ∃ forms left error rest,
    AcceptsAll limit ts forms left ∧
      (TokenStream.mk ts none limit).readForms = ⟨forms, error, rest⟩ ∧
      (error = none → left = []) ∧ ∀ x, error = some x → ∃ e, x = .parse e := by
  obtain ⟨forms, left, hall, hstop⟩ := exists_acceptsAll limit ts
  have hread := hall.readFormsFrom none []
  rw [List.append_nil] at hread
  rw [readForms, hread]
  cases left with
  | nil =>
      rw [readFormsFrom_nil, List.reverse_reverse]
      exact ⟨forms, [], none, _, hall, rfl, fun _ ↦ rfl, by simp⟩
  | cons t left =>
      obtain ⟨x, hx, -⟩ := exists_error_of_not_accepts hstop
      rcases hform : (TokenStream.mk (t :: left) none limit).readForm with ⟨answer, rest⟩
      rw [hform] at hx
      cases hx
      rw [readFormsFrom_of_readForm_error (List.cons_ne_nil t left) hform, List.reverse_reverse]
      refine ⟨forms, t :: left, some x, rest, hall, rfl, by simp, ?_⟩
      intro y hy
      cases hy
      exact exists_parseError (by rw [hform])

end TokenStream

namespace Run

/-- How a run of the text ends, by the forms that are read from it before an error. -/
inductive Ends (limits : Limits) (source : String) (scope : FrameId) (s : Store) :
    EStateM.Result RunError Store Value → Prop
  | lex {tokens : List PlacedToken} {e : LexError} (hlex : lex source = ⟨tokens, some e⟩) :
      Ends limits source scope s (.error (.read (.lex e)) s)
  | eval {tokens left : List PlacedToken} {forms : List Form} {e : EvalError} {t : Store}
      (hlex : MiniLisp.lex source = ⟨tokens, none⟩)
      (hall : AcceptsAll limits.nesting tokens forms left)
      (hrun : (evaluateForms limits.depth scope .nil forms).run s = .error e t) :
      Ends limits source scope s (.error (.eval e) t)
  | parse {tokens left : List PlacedToken} {forms : List Form} {v : Value} {t : Store}
      (hlex : MiniLisp.lex source = ⟨tokens, none⟩)
      (hall : AcceptsAll limits.nesting tokens forms left)
      (hrun : (evaluateForms limits.depth scope .nil forms).run s = .ok v t) (e : ParseError) :
      Ends limits source scope s (.error (.read (.parse e)) t)
  | value {tokens left : List PlacedToken} {forms : List Form} {v : Value} {t : Store}
      (hlex : MiniLisp.lex source = ⟨tokens, none⟩)
      (hall : AcceptsAll limits.nesting tokens forms left)
      (hrun : (evaluateForms limits.depth scope .nil forms).run s = .ok v t) :
      Ends limits source scope s (.ok v t)

theorem ends_interpret (limits : Limits) (source : String) (scope : FrameId) (s : Store) :
    Ends limits source scope s ((interpret limits source scope).run s) := by
  obtain ⟨⟨tokens, error⟩, hlex⟩ : ∃ lexed, MiniLisp.lex source = lexed := ⟨_, rfl⟩
  cases error with
  | some e =>
      rw [interpret, TokenStream.eager, tokenize, hlex]
      exact .lex hlex
  | none =>
      obtain ⟨forms, left, error, rest, hall, hread, -, herror⟩ :=
        TokenStream.exists_readForms limits.nesting tokens
      rw [interpret_of_lex hlex, hread, runBatch_eq, EStateM.run_bind, Run.ofEval,
        EStateM.run_adaptExcept]
      cases hrun : (evaluateForms limits.depth scope .nil forms).run s with
      | error e t => exact .eval hlex hall hrun
      | ok v t =>
          cases error with
          | none => exact .value hlex hall hrun
          | some x =>
              -- The whole text was split into tokens, so this is no error of the lexer.
              obtain ⟨e, rfl⟩ := herror x rfl
              exact .parse hlex hall hrun e

end Run

namespace Law

variable {L : Law}

/-- The law allows every form that is read from the text before an error ends its reading. -/
def Allows (L : Law) (nesting : Int) (source : String) : Prop :=
  ∀ tokens forms left, lex source = ⟨tokens, none⟩ → AcceptsAll nesting tokens forms left →
    ∀ form ∈ forms, L.form form

/-- The end of a run of the text that began with `size` frames, in keeping with the law. -/
inductive TextEnds (L : Law) (source : String) (size : Nat) :
    EStateM.Result RunError Store Value → Prop
  | value {v : Value} {t : Store} (ht : t.Obeys L) (hsize : size ≤ t.frames.size)
      (hv : v.Obeys L t.frames.size) : TextEnds L source size (.ok v t)
  | eval {e : EvalError} {t : Store} (ht : t.Obeys L) (hsize : size ≤ t.frames.size)
      (he : L.error e) : TextEnds L source size (.error (.eval e) t)
  | parse (e : ParseError) {t : Store} (ht : t.Obeys L) (hsize : size ≤ t.frames.size) :
      TextEnds L source size (.error (.read (.parse e)) t)
  | lex {tokens : List PlacedToken} {e : LexError} (he : lex source = ⟨tokens, some e⟩) {t : Store}
      (ht : t.Obeys L) (hsize : size ≤ t.frames.size) :
      TextEnds L source size (.error (.read (.lex e)) t)

namespace Sound

variable (hL : L.Sound)

include hL

theorem yields_evaluateForms (limit : Int) {scope : FrameId} {n : Nat} (hscope : scope < n)
    {last : Value} (hlast : last.Obeys L n) {forms : List Form}
    (hforms : ∀ form ∈ forms, L.form form) :
    L.Yields n (evaluateForms limit scope last forms) := by
  induction forms generalizing n last with
  | nil => exact yields_pure hlast
  | cons form forms ih =>
      obtain ⟨hform, hforms⟩ := List.forall_mem_cons.mp hforms
      apply (hL.evaluates limit form scope n hform hscope).bind
      intro v m hm hv
      exact ih (Nat.lt_of_lt_of_le hscope hm) hv hforms

/-- A text whose forms the law allows runs in keeping with it. -/
theorem textEnds_interpret {limits : Limits} {source : String}
    (hsource : L.Allows limits.nesting source) {s : Store} (hs : s.Obeys L) {scope : FrameId}
    (hscope : scope < s.frames.size) :
    L.TextEnds source s.frames.size ((interpret limits source scope).run s) := by
  have hends {forms : List Form} (hforms : ∀ form ∈ forms, L.form form) :=
    hL.yields_evaluateForms limits.depth hscope .nil hforms s hs (Nat.le_refl _)
  have hrun := Run.ends_interpret limits source scope s
  generalize (interpret limits source scope).run s = r at hrun
  cases hrun with
  | lex hlex => exact .lex hlex hs (Nat.le_refl _)
  | eval hlex hall hrun =>
      have hends := hends (hsource _ _ _ hlex hall)
      rw [hrun] at hends
      exact .eval hends.1 hends.2.1 hends.2.2
  | parse hlex hall hrun e =>
      have hends := hends (hsource _ _ _ hlex hall)
      rw [hrun] at hends
      exact .parse e hends.1 hends.2.1
  | value hlex hall hrun =>
      have hends := hends (hsource _ _ _ hlex hall)
      rw [hrun] at hends
      exact .value hends.1 hends.2.1 hends.2.2

theorem obeys_storeAfter {limits : Limits} {source : String}
    (hsource : L.Allows limits.nesting source) {s : Store} (hs : s.Obeys L) {scope : FrameId}
    (hscope : scope < s.frames.size) :
    ((interpret limits source scope).storeAfter s).Obeys L := by
  have hends := hL.textEnds_interpret hsource hs hscope
  rw [Run.storeAfter]
  generalize (interpret limits source scope).run s = r at hends
  cases hends with
  | value ht | eval ht | parse e ht | lex he ht => exact ht

/-- What texts keep, whatever they are, holds of every store that a session reaches. -/
theorem obeys_of_reachable (hall : ∀ nesting source, L.Allows nesting source) {s : Store}
    (h : s.Reachable) : s.Obeys L := by
  induction h with
  | initial => exact Store.obeys_initial hL.native
  | interpret _ limits source hscope ih =>
      exact hL.obeys_storeAfter (hall limits.nesting source) ih hscope

end Sound

/-- The law that every name has the property. -/
def naming (P : String → Prop) (error : EvalError → Prop) : Law where
  name := P
  form form := ∀ name, form.Mentions name → P name
  error := error

theorem sound_naming {P : String → Prop} (h : ∀ op : Primitive, P op.name) :
    (naming P fun _ ↦ True).Sound where
  native := h
  part hwhole hpart _ hname := hwhole _ (hpart.mentions hname)
  introduced hform hname := hform _ hname.mentions
  misshapen _ _ := trivial
  unbound _ := trivial
  exhausted _ := trivial
  notCallable _ := trivial
  arity _ _ _ := trivial
  complaint _ _ := trivial

end Law

theorem exists_mem_of_mem_right {α β : Type} {R : α → β → Prop} {xs : List α} {ys : List β}
    (h : List.Forall₂ R xs ys) {y : β} (hy : y ∈ ys) : ∃ x ∈ xs, R x y := by
  induction h with
  | nil => exact absurd hy List.not_mem_nil
  | cons hxy _ ih =>
      rcases List.mem_cons.mp hy with rfl | hy
      · exact ⟨_, List.mem_cons_self, hxy⟩
      · obtain ⟨x, hx, hxy⟩ := ih hy
        exact ⟨x, List.mem_cons_of_mem _ hx, hxy⟩

theorem Form.eq_of_ofName_eq_symbol {n name : String} (h : ofName n = .symbol name) : n = name := by
  unfold ofName at h
  split at h
  · cases h
  · split at h
    · cases h
    · split at h
      · cases h
      · exact Form.symbol.inj h

/-- The names in a form are those of its tokens that stand for themselves, and the keyword that its
marks stand for. -/
theorem Expression.of_mentions {ts : List Token} {form : Form} (h : Expression ts form) :
    ∀ name, form.Mentions name → name = Keyword.quote.name ∨
      (.symbol name ∈ ts ∧ Form.ofName name = .symbol name) := by
  refine h.induct (P := fun ts form ↦ ∀ name, form.Mentions name → name = Keyword.quote.name ∨
    (.symbol name ∈ ts ∧ Form.ofName name = .symbol name)) ?number ?string ?symbol ?quote ?list
  case number | string =>
      intro _ name hname
      cases hname
  case symbol =>
      intro n name hname
      generalize hform : Form.ofName n = form at hname
      -- A literal has no names in it, so the token is a name that stands for itself.
      cases hname with
      | symbol =>
          obtain rfl := Form.eq_of_ofName_eq_symbol hform
          exact .inr ⟨List.mem_singleton_self _, hform⟩
      | mark | quote | list =>
          unfold Form.ofName at hform
          split_ifs at hform
  case quote =>
      intro ts inner _ ih name hname
      cases hname with
      | mark => exact .inl rfl
      | quote hname => exact (ih name hname).imp_right (And.imp_left (List.mem_cons_of_mem _))
  case list =>
      intro tss items _ ih name hname
      cases hname with
      | @list _ item _ mem hname =>
          obtain ⟨us, hus, hitem⟩ := exists_mem_of_mem_right ih mem
          refine (hitem name hname).imp_right (And.imp_left fun hmem ↦ ?_)
          apply List.mem_cons_of_mem
          apply List.mem_append_left
          exact List.mem_flatten.mpr ⟨us, hus, hmem⟩

theorem AcceptsAll.exists_expression {limit : Int} {ts left : List PlacedToken}
    {forms : List Form} (h : AcceptsAll limit ts forms left) :
    ∀ form ∈ forms, ∃ us, Expression us form ∧ us ⊆ ts.map PlacedToken.token := by
  induction h with
  | nil => exact fun _ hform ↦ absurd hform List.not_mem_nil
  | cons h _ ih =>
      obtain ⟨taken, rfl, hexpression, -⟩ := h
      intro form hform
      rw [List.map_append]
      rcases List.mem_cons.mp hform with rfl | hform
      · exact ⟨_, hexpression, List.subset_append_left _ _⟩
      · obtain ⟨us, hus, hsub⟩ := ih form hform
        exact ⟨us, hus, List.subset_append_of_subset_right _ hsub⟩

/-- The names of a text have the property if its tokens do that are names and no literals. -/
theorem Law.allows_naming {P : String → Prop} {error : EvalError → Prop} {source : String}
    (hquote : P Keyword.quote.name)
    (h : ∀ t ∈ (lex source).tokens, ∀ name, t.token = .symbol name →
      Form.ofName name = .symbol name → P name) (nesting : Int) :
    (naming P error).Allows nesting source := by
  intro tokens forms left hlex hall form hform name hname
  obtain ⟨us, hus, hsub⟩ := hall.exists_expression form hform
  rcases hus.of_mentions name hname with rfl | ⟨hmem, hliteral⟩
  · exact hquote
  · obtain ⟨t, ht, htoken⟩ := List.mem_map.mp (hsub hmem)
    rw [hlex] at h
    exact h t ht name htoken hliteral

end MiniLisp
