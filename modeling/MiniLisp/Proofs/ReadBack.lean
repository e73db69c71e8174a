import MiniLisp.Proofs.Grammar
import MiniLisp.Proofs.Splitting

/-!
# Printed forms read back

The text of a form that was read is read again, under the same limit, as the form with its marks
written out and its zeros without a sign.
-/

namespace MiniLisp

/-- The one form that makes up a text, which is split ahead of reading. -/
def readText (source : String) (limit : Int) : Except ReadError Form :=
  ((TokenStream.eager source limit).mapError .lex).bind TokenStream.readOnly

theorem readText_eq_ok_iff {source : String} {limit : Int} {form : Form} :
    readText source limit = .ok form ↔ ∃ placed, tokenize source = .ok placed ∧
      Expression (placed.map PlacedToken.token) form ∧ (form.depth : Int) ≤ limit := by
  unfold readText TokenStream.eager
  cases htokens : tokenize source with
  | error e =>
      constructor
      · intro h
        nomatch h
      · rintro ⟨placed, hplaced, -⟩
        nomatch hplaced
  | ok tokens =>
      constructor
      · intro h
        exact ⟨tokens, rfl, TokenStream.readOnly_eq_ok_iff.mp h⟩
      · rintro ⟨placed, hplaced, hexpression⟩
        cases hplaced
        exact TokenStream.readOnly_eq_ok_iff.mpr hexpression

namespace Form

/-- The form with its marks written out and its zeros without a sign. -/
def desugar (form : Form) : Form := form.respell Double.dropZeroSign

/-- Wherever it may end, the text of the form is split into tokens that are an expression for the
form without its sugar. -/
def PrintsAs (form : Form) (ts : List Token) : Prop :=
  Expression ts form.desugar ∧
    ∀ rest, Lexer.stops rest = true → Lexer.Splits form.render.toList rest ts

theorem render_ofName (name : String) : (ofName name).render = name := by
  unfold ofName
  split_ifs with htrue hfalse hnil
  · exact htrue.symm
  · exact hfalse.symm
  · exact hnil.symm
  · rfl

theorem desugar_ofName (name : String) : (ofName name).desugar = ofName name := by
  unfold ofName
  split_ifs <;> rfl

theorem spells_quote : Lexer.Spells (.symbol Keyword.quote.name) Keyword.quote.name.toList :=
  Lexer.spells_name ['u', 'o', 't', 'e'] rfl

theorem printsAs_list {items : List Form} {tss : List (List Token)}
    (h : List.Forall₂ PrintsAs items tss) :
    (Form.list items).PrintsAs (.leftParen :: (tss.flatten ++ [.rightParen])) := by
  constructor
  · rw [desugar, respell_list]
    refine .list ?_
    rw [List.forall₂_map_right_iff]
    exact h.flip.imp fun _ _ hitem ↦ hitem.1
  · intro rest _
    rw [render_list]
    refine Lexer.splits_parenthesize ?_ rest
    rw [List.forall₂_map_left_iff]
    exact h.imp fun _ _ hitem ↦ hitem.2

/-- Tokens that are printed as lexemes for the same tokens, but for the sign of a zero. -/
def Lexical (ts : List Token) : Prop := ∀ t ∈ ts, Lexer.Spells t.dropZeroSign t.text

theorem exists_printsAs_items {tss : List (List Token)} {items : List Form}
    (h : List.Forall₂ (fun ts item ↦ Lexical ts → ∃ us, PrintsAs item us) tss items)
    (hlexical : Lexical tss.flatten) : ∃ uss, List.Forall₂ PrintsAs items uss := by
  induction h with
  | nil => exact ⟨[], .nil⟩
  | @cons ts item tss items hitem _ ih =>
      rw [Lexical, List.flatten_cons, List.forall_mem_append] at hlexical
      obtain ⟨us, hus⟩ := hitem hlexical.1
      obtain ⟨uss, huss⟩ := ih hlexical.2
      exact ⟨us :: uss, .cons hus huss⟩

theorem exists_printsAs {ts : List Token} {form : Form} (h : Expression ts form) :
    Lexical ts → ∃ us, form.PrintsAs us := by
  have hatom {token : Token} {form : Form} (hform : Expression [token.dropZeroSign] form.desugar)
      (htext : form.render.toList = token.text) (hlexical : Lexical [token]) :
      ∃ us, form.PrintsAs us := by
    refine ⟨[token.dropZeroSign], hform, fun rest hrest ↦ ?_⟩
    rw [htext]
    exact (hlexical token List.mem_cons_self).splits hrest
  refine h.induct (P := fun ts form ↦ Lexical ts → ∃ us, form.PrintsAs us)
    ?number ?string ?symbol ?quote ?list
  case number => exact fun x ↦ hatom (.number x.dropZeroSign) rfl
  case string => exact fun s ↦ hatom (.string s) String.toList_ofList
  case symbol =>
    intro name
    refine hatom ?_ (congrArg String.toList (render_ofName name))
    rw [desugar_ofName]
    exact .symbol name
  case quote =>
    intro ts inner _ ih hlexical
    obtain ⟨us, hinner⟩ := ih fun t ht ↦ hlexical t (List.mem_cons_of_mem _ ht)
    have hquote : PrintsAs (.symbol Keyword.quote.name) [.symbol Keyword.quote.name] :=
      ⟨.symbol Keyword.quote.name, fun rest hrest ↦ spells_quote.splits hrest⟩
    -- The mark and its long spelling have the same text and the same form without sugar.
    exact ⟨_, printsAs_list (.cons hquote (.cons hinner .nil))⟩
  case list =>
    intro tss items _ ih hlexical
    obtain ⟨uss, hitems⟩ := exists_printsAs_items ih fun t ht ↦
      hlexical t (List.mem_cons_of_mem _ (List.mem_append_left _ ht))
    exact ⟨_, printsAs_list hitems⟩

end Form

/-- The text of a form that was read is read again as the form without its sugar. -/
theorem readText_render {source : String} {limit : Int} {form : Form}
    (h : readText source limit = .ok form) : readText form.render limit = .ok form.desugar := by
  obtain ⟨placed, htokens, hexpression, hdepth⟩ := readText_eq_ok_iff.mp h
  have hlexical : Form.Lexical (placed.map PlacedToken.token) := by
    intro token htoken
    obtain ⟨t, ht, rfl⟩ := List.mem_map.mp htoken
    exact Lexer.spells_of_tokenize htokens t ht
  obtain ⟨us, hdesugar, hsplits⟩ := Form.exists_printsAs hexpression hlexical
  obtain ⟨printed, hprinted, rfl⟩ := Lexer.tokenize_of_splits (hsplits [] rfl)
  refine readText_eq_ok_iff.mpr ⟨printed, hprinted, hdesugar, ?_⟩
  rw [Form.desugar, Form.depth_respell]
  exact hdepth

def Form.sugared : Form :=
  .list [.symbol "f", .quote (.list [.symbol "a-b", .number (-Double.zero)]), .string "x\n", .nil]

theorem expression_sugared : Expression [.leftParen, .symbol "f", .quoteMark, .leftParen,
    .symbol "a-b", .number (-Double.zero), .rightParen, .string "x\n", .symbol "nil", .rightParen]
    Form.sugared :=
  @Expression.list [[.symbol "f"], _, [.string "x\n"], [.symbol "nil"]] _
    (.cons (.symbol "f")
      (.cons (.quote (.list (.cons (.symbol "a-b") (.cons (.number (-Double.zero)) .nil))))
        (.cons (.string "x\n") (.cons (.symbol "nil") .nil))))

theorem readText_render_sugared :
    readText "(f '(a-b -0) \"x\\n\" nil)" 3 = .ok Form.sugared ∧
      readText Form.sugared.render 3 = .ok Form.sugared.desugar := by
  have htokens : tokenize "(f '(a-b -0) \"x\\n\" nil)" = .ok [⟨.leftParen, ⟨1, 1⟩⟩,
      ⟨.symbol "f", ⟨1, 2⟩⟩, ⟨.quoteMark, ⟨1, 4⟩⟩, ⟨.leftParen, ⟨1, 5⟩⟩, ⟨.symbol "a-b", ⟨1, 6⟩⟩,
      ⟨.number (-Double.zero), ⟨1, 10⟩⟩, ⟨.rightParen, ⟨1, 12⟩⟩, ⟨.string "x\n", ⟨1, 14⟩⟩,
      ⟨.symbol "nil", ⟨1, 20⟩⟩, ⟨.rightParen, ⟨1, 23⟩⟩] := by decide +kernel
  have hread : readText "(f '(a-b -0) \"x\\n\" nil)" 3 = .ok Form.sugared :=
    readText_eq_ok_iff.mpr ⟨_, htokens, expression_sugared, by decide⟩
  exact ⟨hread, readText_render hread⟩

end MiniLisp
