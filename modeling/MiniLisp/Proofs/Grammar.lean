import MiniLisp.Form.Parser
import MiniLisp.Proofs.Respelling
import Mathlib.Data.List.Forall2

/-!
# The grammar of forms

An expression is an atom, a mark before an expression, or expressions between parentheses. A reader
accepts the expressions that are not nested too deeply, takes no token more, and builds the form
that the expression denotes.
-/

namespace MiniLisp

/-- The tokens are an expression, and the form is what it denotes. -/
inductive Expression : List Token → Form → Prop
  | number (x : Double) : Expression [.number x] (.number x)
  | string (s : String) : Expression [.string s] (.string s)
  | symbol (name : String) : Expression [.symbol name] (Form.ofName name)
  | quote {ts : List Token} {inner : Form} (h : Expression ts inner) :
      Expression (.quoteMark :: ts) (.quote inner)
  | list {tss : List (List Token)} {items : List Form} (h : List.Forall₂ Expression tss items) :
      Expression (.leftParen :: (tss.flatten ++ [.rightParen])) (.list items)

namespace Expression

theorem induct {P : List Token → Form → Prop} (number : ∀ x, P [.number x] (.number x))
    (string : ∀ s, P [.string s] (.string s))
    (symbol : ∀ name, P [.symbol name] (Form.ofName name))
    (quote : ∀ ts inner, Expression ts inner → P ts inner → P (.quoteMark :: ts) (.quote inner))
    (list : ∀ tss items, List.Forall₂ Expression tss items → List.Forall₂ P tss items →
      P (.leftParen :: (tss.flatten ++ [.rightParen])) (.list items))
    {ts : List Token} {form : Form} (h : Expression ts form) : P ts form :=
  @Expression.rec (fun ts form _ ↦ P ts form) (fun tss items _ ↦ List.Forall₂ P tss items)
    number string symbol (fun h ih ↦ quote _ _ h ih) (fun h ih ↦ list _ _ h ih)
    .nil (fun _ _ hhead htail ↦ .cons hhead htail) ts form h

end Expression

namespace Form

theorem depth_ofName (name : String) : (ofName name).depth = 0 := by
  unfold ofName
  split_ifs <;> rfl

/-- A list fits below a limit if it does and every item does one level down. -/
theorem depth_list_add_le_iff {items : List Form} {d : Nat} {limit : Int} :
    ((Form.list items).depth : Int) + d ≤ limit ↔
      (d : Int) ≤ limit ∧ ∀ item ∈ items, (item.depth : Int) + (d + 1) ≤ limit := by
  rw [depth]
  induction items with
  | nil => simp [depthOfItems]
  | cons item items ih =>
      rw [depthOfItems, List.forall_mem_cons]
      constructor
      · intro h
        have htail := ih.mp (by omega)
        exact ⟨htail.1, by omega, htail.2⟩
      · rintro ⟨hd, hhead, htail⟩
        have htail := ih.mpr ⟨hd, htail⟩
        omega

end Form

/-- The tokens behind which these expressions are open, at depths within the limit. -/
inductive Opened (limit : Int) : List Token → List Open → Prop
  | nil : Opened limit [] []
  | quote {ts : List Token} {stack : List Open} (h : Opened limit ts stack)
      (hdepth : (stack.length : Int) ≤ limit) : Opened limit (ts ++ [.quoteMark]) (.quote :: stack)
  | list {ts : List Token} {stack : List Open} {tss : List (List Token)} {items : List Form}
      (h : Opened limit ts stack) (hdepth : (stack.length : Int) ≤ limit)
      (hitems : List.Forall₂ Expression tss items.reverse)
      (hfits : ∀ item ∈ items, (item.depth : Int) + (stack.length + 1) ≤ limit) :
      Opened limit (ts ++ .leftParen :: tss.flatten) (.list items :: stack)

def ReadStep.Sound (limit : Int) (ts : List Token) : ReadStep → Prop
  | .finish form => Expression ts form ∧ (form.depth : Int) ≤ limit
  | .proceed depth stack => Opened limit ts stack ∧ depth = stack.length
  | .refuse _ => True
  | .tooDeep => True

namespace Form

variable {limit : Int} {pending : Option LexError}

theorem sound_deliver {us vs : List Token} {stack : List Open} {form : Form}
    (hopen : Opened limit us stack) (h : Expression vs form)
    (hdepth : (form.depth : Int) + stack.length ≤ limit) :
    (deliver form stack.length stack).Sound limit (us ++ vs) := by
  induction hopen generalizing vs form with
  | nil => exact ⟨h, by simpa using hdepth⟩
  | @quote us stack hopen _ ih =>
      rw [List.append_assoc]
      refine ih (.quote h) ?_
      simp only [depth, List.length_cons] at hdepth ⊢
      omega
  | @list us stack tss items hopen hstack hitems hfits ih =>
      refine ⟨?_, rfl⟩
      have hall : List.Forall₂ Expression (tss ++ [vs]) (form :: items).reverse := by
        rw [List.reverse_cons]
        exact List.rel_append hitems (.cons h .nil)
      have hopened := Opened.list hopen hstack hall ?_
      · simpa using hopened
      · rw [List.forall_mem_cons]
        exact ⟨by simpa using hdepth, hfits⟩

theorem sound_begin {us : List Token} {stack : List Open} (hopen : Opened limit us stack)
    (hdepth : (stack.length : Int) ≤ limit) (t : PlacedToken) :
    (begin stack.length stack t).Sound limit (us ++ [t.token]) := by
  have hatom {form : Form} (h : Expression [t.token] form) (hform : form.depth = 0) :
      (deliver form stack.length stack).Sound limit (us ++ [t.token]) :=
    sound_deliver hopen h (by rw [hform]; simpa using hdepth)
  obtain ⟨token, pos⟩ := t
  cases token with
  | leftParen =>
      have hempty : List.Forall₂ Expression [] ([] : List Form).reverse := .nil
      exact ⟨Opened.list hopen hdepth hempty (by simp), rfl⟩
  | rightParen => exact trivial
  | quoteMark => exact ⟨hopen.quote hdepth, rfl⟩
  | number x => exact hatom (.number x) rfl
  | string s => exact hatom (.string s) rfl
  | symbol name => exact hatom (.symbol name) (depth_ofName name)

theorem step_of_not_closing {depth : Nat} {stack : List Open} {t : PlacedToken}
    (h : ∀ items outer, t.token = .rightParen → stack ≠ .list items :: outer) :
    step limit depth stack t = if limit < depth then .tooDeep else begin depth stack t := by
  rw [step]
  exact h

/-- One token leads from open expressions to open expressions, or to the end of the outermost. -/
theorem sound_step {us : List Token} {stack : List Open} (hopen : Opened limit us stack)
    (t : PlacedToken) : (step limit stack.length stack t).Sound limit (us ++ [t.token]) := by
  by_cases hclosing : ∃ items outer, t.token = .rightParen ∧ stack = .list items :: outer
  · obtain ⟨items, outer, htoken, rfl⟩ := hclosing
    cases hopen with
    | @list us _ tss _ hopen hdepth hitems hfits =>
        have hstep : step limit (outer.length + 1) (.list items :: outer) t =
            deliver (.list items.reverse) outer.length outer := by
          rw [step, Nat.add_sub_cancel]
          exact htoken
        have hlist : ((Form.list items.reverse).depth : Int) + outer.length ≤ limit :=
          depth_list_add_le_iff.mpr
            ⟨hdepth, fun item hitem ↦ hfits item (List.mem_reverse.mp hitem)⟩
        have hsound := sound_deliver hopen (.list hitems) hlist
        rw [List.length_cons, hstep, htoken]
        simpa using hsound
  · rw [step_of_not_closing fun items outer htoken hstack ↦ hclosing ⟨items, outer, htoken, hstack⟩]
    split
    · exact trivial
    · exact sound_begin hopen (by omega) t

/-- What a reader has taken when it ends with a form is an expression for it. -/
theorem expression_of_readFrom {us : List Token} {stack : List Open} {ts : List PlacedToken}
    {form : Form} {rest : TokenStream} (hopen : Opened limit us stack)
    (h : readFrom limit pending stack.length stack ts = (.ok form, rest)) :
    ∃ taken, ts = taken ++ rest.tokens ∧ rest = ⟨rest.tokens, pending, limit⟩ ∧
      Expression (us ++ taken.map PlacedToken.token) form ∧ (form.depth : Int) ≤ limit := by
  induction ts generalizing us stack with
  | nil => simp [readFrom] at h
  | cons t ts ih =>
      have hsound := sound_step hopen t
      rw [readFrom] at h
      generalize step limit stack.length stack t = taken at h hsound
      cases taken with
      | finish g =>
          obtain ⟨hform, rfl⟩ := Prod.mk.inj h
          cases hform
          exact ⟨[t], rfl, rfl, hsound⟩
      | proceed depth stack =>
          obtain ⟨hopened, rfl⟩ := hsound
          obtain ⟨taken, htaken, hrest, hexpression, hdepth⟩ := ih hopened h
          refine ⟨t :: taken, by rw [htaken]; rfl, hrest, ?_, hdepth⟩
          simpa using hexpression
      | refuse | tooDeep => simp at h

/-- The end of a reader that has been handed a form, in front of the tokens `ts`. -/
def resume (limit : Int) (pending : Option LexError) (ts : List PlacedToken) :
    ReadStep → Except ReadError Form × TokenStream
  | .finish form => (.ok form, ⟨ts, pending, limit⟩)
  | .proceed depth stack => readFrom limit pending depth stack ts
  | .refuse e => (.error (.parse e), ⟨ts, pending, limit⟩)
  | .tooDeep => (.error (.parse (.nestingTooDeep limit)), ⟨ts, pending, limit⟩)

theorem deliver_ne_tooDeep (form : Form) (depth : Nat) (stack : List Open) :
    deliver form depth stack ≠ .tooDeep := by
  induction stack generalizing form depth with
  | nil => nofun
  | cons o stack ih =>
      cases o with
      | quote => exact ih (.quote form) (depth - 1)
      | list items => nofun

theorem readFrom_of_deliver {depth : Nat} {stack : List Open} {t : PlacedToken}
    (ts : List PlacedToken) {form : Form} {depth' : Nat} {stack' : List Open}
    (h : step limit depth stack t = deliver form depth' stack') :
    readFrom limit pending depth stack (t :: ts) =
      resume limit pending ts (deliver form depth' stack') := by
  rw [readFrom, h]
  cases hdeliver : deliver form depth' stack' with
  | finish | proceed | refuse => rfl
  | tooDeep => exact absurd hdeliver (deliver_ne_tooDeep form depth' stack')

theorem readFrom_of_proceed {depth : Nat} {stack : List Open} {t : PlacedToken}
    (ts : List PlacedToken) {depth' : Nat} {stack' : List Open}
    (h : step limit depth stack t = .proceed depth' stack') :
    readFrom limit pending depth stack (t :: ts) = readFrom limit pending depth' stack' ts := by
  rw [readFrom, h]

theorem step_of_not_rightParen {depth : Nat} {t : PlacedToken} (stack : List Open)
    (ht : t.token ≠ .rightParen) (hdepth : (depth : Int) ≤ limit) :
    step limit depth stack t = begin depth stack t := by
  rw [step_of_not_closing fun _ _ htoken ↦ absurd htoken ht, if_neg (Int.not_lt.mpr hdepth)]

/-- Reading tokens hands a form that fits to the innermost open expression. -/
def Reads (ts : List Token) (form : Form) : Prop :=
  ∀ (limit : Int) (pending : Option LexError) (depth : Nat) (stack : List Open)
    (placed rest : List PlacedToken), placed.map PlacedToken.token = ts →
    (form.depth : Int) + depth ≤ limit →
    readFrom limit pending depth stack (placed ++ rest) =
      resume limit pending rest (deliver form depth stack)

theorem reads_atom {token : Token} {form : Form}
    (hbegin : ∀ depth stack pos, begin depth stack ⟨token, pos⟩ = deliver form depth stack)
    (ht : token ≠ .rightParen) (hform : form.depth = 0) : Reads [token] form := by
  intro limit pending depth stack placed rest hplaced hdepth
  obtain ⟨⟨token, pos⟩, hcons, rfl⟩ := List.map_eq_singleton_iff.mp hplaced
  rw [hcons, List.singleton_append]
  refine readFrom_of_deliver rest ?_
  rw [step_of_not_rightParen stack ht (by omega), hbegin]

theorem reads_items {tss : List (List Token)} {items : List Form}
    (h : List.Forall₂ Reads tss items) {placed : List PlacedToken} {depth : Nat}
    (before : List Form) (stack : List Open) (rest : List PlacedToken)
    (hplaced : placed.map PlacedToken.token = tss.flatten)
    (hdepth : ∀ item ∈ items, (item.depth : Int) + depth ≤ limit) :
    readFrom limit pending depth (.list before :: stack) (placed ++ rest) =
      readFrom limit pending depth (.list (items.reverse ++ before) :: stack) rest := by
  induction h generalizing placed before with
  | nil =>
      rw [List.map_eq_nil_iff.mp hplaced]
      rfl
  | @cons ts item tss items hitem _ ih =>
      rw [List.flatten_cons] at hplaced
      obtain ⟨first, others, rfl, hfirst, hothers⟩ := List.map_eq_append_iff.mp hplaced
      obtain ⟨hhead, htail⟩ := List.forall_mem_cons.mp hdepth
      rw [List.append_assoc, hitem _ _ _ _ _ _ hfirst hhead]
      change readFrom limit pending depth (.list (item :: before) :: stack) (others ++ rest) = _
      rw [ih (item :: before) hothers htail]
      simp

/-- Reading an expression that fits hands its form to the innermost open expression. -/
theorem reads_expression {ts : List Token} {form : Form} (h : Expression ts form) :
    Reads ts form := by
  refine h.induct (P := Reads) ?number ?string ?symbol ?quote ?list
  case number => exact fun x ↦ reads_atom (fun _ _ _ ↦ rfl) (by simp) rfl
  case string => exact fun s ↦ reads_atom (fun _ _ _ ↦ rfl) (by simp) rfl
  case symbol => exact fun name ↦ reads_atom (fun _ _ _ ↦ rfl) (by simp) (depth_ofName name)
  case quote =>
      intro ts inner _ ih limit pending depth stack placed rest hplaced hdepth
      obtain ⟨⟨token, pos⟩, others, rfl, rfl, hothers⟩ := List.map_eq_cons_iff.mp hplaced
      rw [Form.depth] at hdepth
      have hstep : step limit depth stack ⟨.quoteMark, pos⟩ =
          .proceed (depth + 1) (.quote :: stack) :=
        step_of_not_rightParen stack (by simp) (by omega)
      rw [List.cons_append, readFrom_of_proceed _ hstep, ih _ _ _ _ _ _ hothers (by omega)]
      rfl
  case list =>
      intro tss items _ ih limit pending depth stack placed rest hplaced hdepth
      obtain ⟨⟨token, pos⟩, others, rfl, rfl, hothers⟩ := List.map_eq_cons_iff.mp hplaced
      obtain ⟨inside, last, rfl, hinside, hlast⟩ := List.map_eq_append_iff.mp hothers
      obtain ⟨⟨token, close⟩, rfl, rfl⟩ := List.map_eq_singleton_iff.mp hlast
      obtain ⟨hlist, hitems⟩ := depth_list_add_le_iff.mp hdepth
      have hopen : step limit depth stack ⟨.leftParen, pos⟩ =
          .proceed (depth + 1) (.list [] :: stack) :=
        step_of_not_rightParen stack (by simp) hlist
      have hclose : step limit (depth + 1) (.list (items.reverse ++ []) :: stack)
          ⟨.rightParen, close⟩ = deliver (.list items) depth stack := by
        simp [step]
      rw [List.cons_append, List.append_assoc, readFrom_of_proceed _ hopen,
        reads_items ih [] stack _ hinside hitems, List.singleton_append,
        readFrom_of_deliver rest hclose]

end Form

namespace TokenStream

/-- The forms that a whole stream can be read as are those its tokens are an expression for. -/
theorem readOnly_eq_ok_iff {placed : List PlacedToken} {limit : Int} {form : Form} :
    (TokenStream.mk placed none limit).readOnly = .ok form ↔
      Expression (placed.map PlacedToken.token) form ∧ (form.depth : Int) ≤ limit := by
  constructor
  · intro h
    unfold readOnly readForm at h
    simp only at h
    rcases hread : Form.readFrom limit none 0 [] placed with ⟨result, rest⟩
    rw [hread] at h
    cases result with
    | error e => nomatch h
    | ok read =>
        obtain ⟨taken, htaken, hrest, hexpression, hdepth⟩ :=
          Form.expression_of_readFrom .nil hread
        rw [hrest] at h
        cases htokens : rest.tokens with
        | nil =>
            rw [htokens] at h
            cases h
            rw [htokens, List.append_nil] at htaken
            rw [htaken]
            exact ⟨hexpression, hdepth⟩
        | cons t ts =>
            rw [htokens] at h
            nomatch h
  · rintro ⟨hexpression, hdepth⟩
    have hread := Form.reads_expression hexpression limit none 0 [] placed [] rfl
      (by simpa using hdepth)
    rw [List.append_nil] at hread
    simp only [readOnly, readForm, hread]
    rfl

end TokenStream

end MiniLisp
