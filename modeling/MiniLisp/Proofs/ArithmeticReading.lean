import MiniLisp.Proofs.LazyReading

/-!
# Arithmetic expressions among the forms

An arithmetic expression is a form without strings, marks and empty lists whose lists all begin with
a name. Its reader accepts exactly the expressions for these forms, and builds the same tree.
-/

namespace MiniLisp

namespace Form

theorem ofName_injective : Function.Injective ofName := by
  intro a b h
  unfold ofName at h
  split_ifs at h <;> simp_all

mutual

/-- No strings, no marks and no empty lists, and a name at the head of every list. -/
def Arithmetic : Form → Prop
  | .string _ => False
  | .quote _ => False
  | .list items => (∃ name, items.head? = some (ofName name)) ∧ ArithmeticItems items
  | _ => True

def ArithmeticItems : List Form → Prop
  | [] => True
  | item :: items => item.Arithmetic ∧ ArithmeticItems items

end

theorem arithmeticItems_iff (items : List Form) :
    ArithmeticItems items ↔ ∀ item ∈ items, item.Arithmetic := by
  induction items with
  | nil => simp [ArithmeticItems]
  | cons item items ih => rw [ArithmeticItems, ih, List.forall_mem_cons]

theorem arithmetic_ofName (name : String) : (ofName name).Arithmetic := by
  unfold ofName
  split_ifs <;> trivial

end Form

namespace Operation

theorem induct {P : Operation → Prop} (number : ∀ x, P (.number x))
    (symbol : ∀ name, P (.symbol name))
    (apply : ∀ operator operands, (∀ e ∈ operands, P e) → P (.apply operator operands))
    (e : Operation) : P e :=
  @Operation.rec P (fun es ↦ ∀ e ∈ es, P e) number symbol apply
    (fun _ h ↦ absurd h List.not_mem_nil)
    (fun _ _ hhead htail _ h ↦ by
      rcases List.mem_cons.mp h with rfl | h
      · exact hhead
      · exact htail _ h) e

mutual

/-- The form that is written like the expression. -/
def toForm : Operation → Form
  | .number x => .number x
  | .symbol name => Form.ofName name
  | .apply operator operands => .list (Form.ofName operator :: toForms operands)

def toForms : List Operation → List Form
  | [] => []
  | e :: es => e.toForm :: toForms es

end

theorem toForms_eq_map (es : List Operation) : toForms es = es.map toForm := by
  induction es with
  | nil => rfl
  | cons e es ih => rw [toForms, ih, List.map_cons]

theorem toForm_apply (operator : String) (operands : List Operation) :
    (apply operator operands).toForm = .list (Form.ofName operator :: operands.map toForm) := by
  rw [toForm, toForms_eq_map]

theorem arithmetic_toForm (e : Operation) : e.toForm.Arithmetic := by
  induction e using Operation.induct with
  | number x => trivial
  | symbol name => exact Form.arithmetic_ofName name
  | apply operator operands ih =>
      rw [toForm_apply]
      refine ⟨⟨operator, rfl⟩, (Form.arithmeticItems_iff _).mpr ?_⟩
      intro form hform
      rcases List.mem_cons.mp hform with rfl | hform
      · exact Form.arithmetic_ofName operator
      · obtain ⟨e, he, rfl⟩ := List.mem_map.mp hform
        exact ih e he

end Operation

namespace Expression

variable {ts : List Token} {form : Form}

theorem eq_of_ofName {name : String} (h : Expression ts (Form.ofName name)) :
    ts = [.symbol name] := by
  generalize hform : Form.ofName name = form at h
  cases h with
  | symbol name' => rw [Form.ofName_injective hform]
  | number | string | quote | list =>
      unfold Form.ofName at hform
      split_ifs at hform

theorem eq_of_number {x : Double} (h : Expression ts (.number x)) : ts = [.number x] := by
  generalize hform : Form.number x = form at h
  cases h with
  | number =>
      cases hform
      rfl
  | symbol =>
      unfold Form.ofName at hform
      split_ifs at hform
  | string | quote | list => cases hform

theorem exists_items {items : List Form} (h : Expression ts (.list items)) : ∃ tss,
    ts = .leftParen :: (tss.flatten ++ [.rightParen]) ∧ List.Forall₂ Expression tss items := by
  generalize hform : Form.list items = form at h
  cases h with
  | @list tss _ hitems =>
      cases hform
      exact ⟨tss, rfl, hitems⟩
  | symbol =>
      unfold Form.ofName at hform
      split_ifs at hform
  | number | string | quote => cases hform

theorem exists_operands {tss : List (List Token)} {operands : List Form}
    (h : List.Forall₂ (fun _ form ↦ form.Arithmetic → ∃ e : Operation, form = e.toForm) tss operands)
    (hoperands : Form.ArithmeticItems operands) :
    ∃ es : List Operation, operands = es.map Operation.toForm := by
  induction h with
  | nil => exact ⟨[], rfl⟩
  | cons hhead _ ih =>
      obtain ⟨e, rfl⟩ := hhead hoperands.1
      obtain ⟨es, rfl⟩ := ih hoperands.2
      exact ⟨e :: es, rfl⟩

theorem exists_toForm (h : Expression ts form) :
    form.Arithmetic → ∃ e : Operation, form = e.toForm := by
  refine h.induct (P := fun _ form ↦ form.Arithmetic → ∃ e : Operation, form = e.toForm)
    ?number ?string ?symbol ?quote ?list
  case number => exact fun x _ ↦ ⟨.number x, rfl⟩
  case string => exact fun _ hform ↦ hform.elim
  case symbol => exact fun name _ ↦ ⟨.symbol name, rfl⟩
  case quote => exact fun _ _ _ _ hform ↦ hform.elim
  case list =>
    rintro tss items - hall ⟨⟨operator, hhead⟩, hitems⟩
    cases hall with
    | nil => cases hhead
    | cons _ hoperands =>
        obtain ⟨es, rfl⟩ := exists_operands hoperands hitems.2
        refine ⟨.apply operator es, ?_⟩
        rw [Operation.toForm_apply, Option.some.inj hhead]

theorem depth_lt (h : Expression ts form) : form.depth < ts.length := by
  refine h.induct (P := fun ts form ↦ form.depth < ts.length) ?number ?string ?symbol ?quote ?list
  case number => exact fun _ ↦ Nat.zero_lt_one
  case string => exact fun _ ↦ Nat.zero_lt_one
  case symbol =>
    intro name
    rw [Form.depth_ofName]
    exact Nat.zero_lt_one
  case quote => exact fun ts inner _ ih ↦ Nat.succ_lt_succ ih
  case list =>
    rintro tss items - hall
    have hitems : Form.depthOfItems items ≤ tss.flatten.length := by
      induction hall with
      | nil => exact Nat.zero_le _
      | cons hhead _ ih =>
          rw [Form.depthOfItems, List.flatten_cons, List.length_append]
          omega
    rw [Form.depth, List.length_cons, List.length_append]
    omega

end Expression

namespace Operation

/-- The tokens behind which these operators wait for operands. -/
inductive Pended : List Token → List Pending → Prop
  | nil : Pended [] []
  | cons {us : List Token} {stack : List Pending} {tss : List (List Token)} {p : Pending}
      (h : Pended us stack)
      (hoperands : List.Forall₂ Expression tss (p.operands.reverse.map toForm)) :
      Pended (us ++ .leftParen :: .symbol p.operator :: tss.flatten) (p :: stack)

theorem readFrom_leftParen (waiting : Option LexError) (stack : List Pending) (operator : String)
    (pos pos' : Position) (ts : List PlacedToken) :
    readFrom waiting stack (⟨.leftParen, pos⟩ :: ⟨.symbol operator, pos'⟩ :: ts) =
      readFrom waiting (⟨operator, []⟩ :: stack) ts := by
  cases stack <;> rfl

theorem expression_apply {tss : List (List Token)} {operands : List Operation} (operator : String)
    (h : List.Forall₂ Expression tss (operands.map toForm)) :
    Expression (.leftParen :: .symbol operator :: (tss.flatten ++ [.rightParen]))
      (apply operator operands).toForm := by
  rw [toForm_apply]
  exact .list (.cons (.symbol operator) h)

/-- An expression handed to the operator that waits for it leaves an operator waiting again, or is
the whole. -/
theorem expression_of_settle {us vs : List Token} {stack : List Pending} {ts : List PlacedToken}
    {e whole : Operation} (hpended : Pended us stack) (he : Expression vs e.toForm)
    (hrest : ∀ stack, Pended (us ++ vs) stack → readFrom none stack ts = .ok whole →
      Expression (us ++ vs ++ ts.map PlacedToken.token) whole.toForm)
    (h : settle none ts (deliver e stack) = .ok whole) :
    Expression (us ++ vs ++ ts.map PlacedToken.token) whole.toForm := by
  cases hpended with
  | nil =>
      cases ts with
      | nil =>
          cases h
          simpa using he
      | cons t ts => cases h
  | @cons us stack tss p hpended hoperands =>
      refine hrest _ ?_ h
      have hall : List.Forall₂ Expression (tss ++ [vs])
          (({ p with operands := e :: p.operands } : Pending).operands.reverse.map toForm) := by
        rw [List.reverse_cons, List.map_append]
        exact List.rel_append hoperands (.cons he .nil)
      have hnext := Pended.cons hpended hall
      simpa using hnext

/-- What the reader has taken when it ends with an expression is an expression for its form. -/
theorem expression_of_readFrom {stack : List Pending} {ts : List PlacedToken} {us : List Token}
    {whole : Operation} (hpended : Pended us stack) (h : readFrom none stack ts = .ok whole) :
    Expression (us ++ ts.map PlacedToken.token) whole.toForm := by
  -- Induction along the reader: what it has taken is told by the operators that still wait.
  induction stack, ts using readFrom.induct none generalizing us with
  | case1 | case2 => cases h
  | case3 t ts p outer htoken ih =>
      obtain ⟨token, pos⟩ := t
      cases htoken
      rw [readFrom_rightParen] at h
      cases hpended with
      | @cons us _ tss _ hpended hoperands =>
          have he := expression_apply p.operator hoperands
          have hwhole := expression_of_settle hpended he (fun stack hnext ↦ ih stack hnext) h
          simpa using hwhole
  | case4 t ts x stack htoken ih =>
      obtain ⟨token, pos⟩ := t
      cases htoken
      rw [readFrom_number] at h
      have hwhole := expression_of_settle (e := .number x) hpended (.number x)
        (fun stack hnext ↦ ih stack hnext) h
      simpa using hwhole
  | case5 t ts name stack htoken ih =>
      obtain ⟨token, pos⟩ := t
      cases htoken
      rw [readFrom_symbol] at h
      have hwhole := expression_of_settle (e := .symbol name) hpended (.symbol name)
        (fun stack hnext ↦ ih stack hnext) h
      simpa using hwhole
  | case6 t stack htoken =>
      simp only [readFrom, htoken] at h
      cases h
  | case7 t stack htoken operator pos ts _ ih =>
      obtain ⟨token, pos'⟩ := t
      cases htoken
      rw [readFrom_leftParen] at h
      have hnext : Pended (us ++ [.leftParen, .symbol operator]) (⟨operator, []⟩ :: stack) :=
        @Pended.cons us stack [] ⟨operator, []⟩ hpended .nil
      have hwhole := ih hnext h
      simpa using hwhole
  | case8 t stack htoken u ts hnot =>
      simp only [readFrom, htoken] at h
      cases h
  | case9 stack t ts hnumber hsymbol hopen hclose =>
      simp only [readFrom] at h
      cases h

/-- Reading an expression for its form hands it to the operator that waits for it. -/
def Reads (e : Operation) : Prop :=
  ∀ (waiting : Option LexError) (stack : List Pending) (placed rest : List PlacedToken),
    Expression (placed.map PlacedToken.token) e.toForm →
    readFrom waiting stack (placed ++ rest) = settle waiting rest (deliver e stack)

theorem reads_operands {operands : List Operation} (h : ∀ e ∈ operands, e.Reads)
    (waiting : Option LexError) (operator : String) (before : List Operation)
    (stack : List Pending) {placed : List PlacedToken} {tss : List (List Token)}
    (hplaced : placed.map PlacedToken.token = tss.flatten)
    (htss : List.Forall₂ Expression tss (operands.map toForm)) (rest : List PlacedToken) :
    readFrom waiting (⟨operator, before⟩ :: stack) (placed ++ rest) =
      readFrom waiting (⟨operator, operands.reverse ++ before⟩ :: stack) rest := by
  induction operands generalizing placed before tss with
  | nil =>
      cases htss
      rw [List.map_eq_nil_iff.mp hplaced]
      rfl
  | cons e operands ih =>
      cases htss with
      | @cons ts _ tss _ hts htss =>
          rw [List.flatten_cons] at hplaced
          obtain ⟨first, others, rfl, rfl, hothers⟩ := List.map_eq_append_iff.mp hplaced
          obtain ⟨he, hoperands⟩ := List.forall_mem_cons.mp h
          rw [List.append_assoc, he waiting _ first _ hts]
          change readFrom waiting (⟨operator, e :: before⟩ :: stack) (others ++ rest) = _
          rw [ih hoperands (e :: before) hothers htss]
          simp

theorem reads (e : Operation) : e.Reads := by
  induction e using Operation.induct with
  | number x =>
      intro waiting stack placed rest h
      obtain ⟨⟨token, pos⟩, rfl, rfl⟩ := List.map_eq_singleton_iff.mp h.eq_of_number
      exact readFrom_number waiting stack x pos rest
  | symbol name =>
      intro waiting stack placed rest h
      obtain ⟨⟨token, pos⟩, rfl, rfl⟩ := List.map_eq_singleton_iff.mp h.eq_of_ofName
      exact readFrom_symbol waiting stack name pos rest
  | apply operator operands ih =>
      intro waiting stack placed rest h
      rw [toForm_apply] at h
      -- The tokens are a parenthesis, the operator, those of the operands and a parenthesis.
      obtain ⟨_, hplaced, hitems⟩ := h.exists_items
      cases hitems with
      | @cons head _ tss _ hhead htss =>
          rw [hhead.eq_of_ofName] at hplaced
          obtain ⟨⟨_, pos⟩, others, rfl, rfl, hothers⟩ := List.map_eq_cons_iff.mp hplaced
          obtain ⟨⟨_, pos'⟩, operandsEnd, rfl, rfl, hend⟩ := List.map_eq_cons_iff.mp hothers
          obtain ⟨inside, last, rfl, hinside, hlast⟩ := List.map_eq_append_iff.mp hend
          obtain ⟨⟨_, close⟩, rfl, rfl⟩ := List.map_eq_singleton_iff.mp hlast
          rw [List.cons_append, List.cons_append, readFrom_leftParen, List.append_assoc,
            reads_operands ih waiting operator [] stack hinside htss, List.singleton_append,
            readFrom_rightParen]
          simp

/-- The arithmetic expressions of a text are those whose forms it is an expression for. -/
theorem read_eq_ok_iff {placed : List PlacedToken} {e : Operation} :
    read ⟨placed, none⟩ = .ok e ↔ Expression (placed.map PlacedToken.token) e.toForm := by
  constructor
  · intro h
    exact expression_of_readFrom .nil h
  · intro h
    have hread := reads e none [] placed [] h
    rwa [List.append_nil] at hread

end Operation

/-- Under a limit that the tokens cannot reach, the arithmetic reader accepts those tokens that are
read as a form without strings, marks and empty lists and with a name at the head of every list, and
it builds the expression that is written like this form. -/
theorem arithmetic_reading {placed : List PlacedToken} {limit : Int}
    (h : (placed.length : Int) ≤ limit) :
    (∀ e, Operation.read ⟨placed, none⟩ = .ok e ↔
      ∃ form, (TokenStream.mk placed none limit).readOnly = .ok form ∧ form.Arithmetic ∧
        form = e.toForm) ∧
    ∀ form, (TokenStream.mk placed none limit).readOnly = .ok form → form.Arithmetic →
      ∃ e : Operation, form = e.toForm := by
  constructor
  · intro e
    rw [Operation.read_eq_ok_iff]
    constructor
    · intro hform
      have hdepth := hform.depth_lt
      rw [List.length_map] at hdepth
      refine ⟨e.toForm, TokenStream.readOnly_eq_ok_iff.mpr ⟨hform, ?_⟩, e.arithmetic_toForm, rfl⟩
      omega
    · rintro ⟨form, hread, -, rfl⟩
      exact (TokenStream.readOnly_eq_ok_iff.mp hread).1
  · intro form hread harithmetic
    exact (TokenStream.readOnly_eq_ok_iff.mp hread).1.exists_toForm harithmetic

/-- The tokens of `(+ (nil x) 1)`. -/
def nestedSum : List PlacedToken :=
  [⟨.leftParen, ⟨1, 1⟩⟩, ⟨.symbol "+", ⟨1, 2⟩⟩, ⟨.leftParen, ⟨1, 4⟩⟩, ⟨.symbol "nil", ⟨1, 5⟩⟩,
    ⟨.symbol "x", ⟨1, 9⟩⟩, ⟨.rightParen, ⟨1, 10⟩⟩, ⟨.number .one, ⟨1, 12⟩⟩, ⟨.rightParen, ⟨1, 13⟩⟩]

theorem arithmetic_reading_nestedSum :
    (nestedSum.length : Int) ≤ 8 ∧
      Operation.read ⟨nestedSum, none⟩ =
        .ok (.apply "+" [.apply "nil" [.symbol "x"], .number .one]) ∧
      (TokenStream.mk nestedSum none 8).readOnly =
        .ok (.list [.symbol "+", .list [.nil, .symbol "x"], .number .one]) := by
  have hlength : (nestedSum.length : Int) ≤ 8 := by decide
  have hread : Operation.read ⟨nestedSum, none⟩ =
      .ok (.apply "+" [.apply "nil" [.symbol "x"], .number .one]) := rfl
  obtain ⟨form, hform, -, rfl⟩ := ((arithmetic_reading hlength).1 _).mp hread
  exact ⟨hlength, hread, hform⟩

end MiniLisp
