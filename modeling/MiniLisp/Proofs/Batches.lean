import MiniLisp.Proofs.Acceptance

/-!
# Reading form after form

The forms at the front of a stream are read one by one, whatever follows them. What is left begins
with no expression that fits: it is empty, or the reader fails there.
-/

namespace MiniLisp

/-- The tokens begin with expressions for these forms, one after the other. -/
inductive AcceptsAll (limit : Int) :
    List PlacedToken → List Form → List PlacedToken → Prop
  | nil (left : List PlacedToken) : AcceptsAll limit left [] left
  | cons {ts rest left : List PlacedToken} {form : Form} {forms : List Form}
      (h : Accepts limit ts form rest) (hrest : AcceptsAll limit rest forms left) :
      AcceptsAll limit ts (form :: forms) left

variable {limit : Int} {ts rest left : List PlacedToken} {form : Form} {forms : List Form}

theorem Accepts.length_lt (h : Accepts limit ts form rest) : rest.length < ts.length :=
  Form.readFrom_ok_length (TokenStream.readForm_of_accepts h none)

theorem Accepts.mono {limit' : Int} (h : Accepts limit ts form rest) (hlimit : limit ≤ limit') :
    Accepts limit' ts form rest := by
  obtain ⟨taken, hts, hform, hdepth⟩ := h
  exact ⟨taken, hts, hform, Int.le_trans hdepth hlimit⟩

/-- Which expression the tokens begin with does not depend on the limit. -/
theorem Accepts.unique {limit' : Int} {form' : Form} {rest' : List PlacedToken}
    (h : Accepts limit ts form rest) (h' : Accepts limit' ts form' rest') :
    form = form' ∧ rest = rest' := by
  have hread := TokenStream.readForm_of_accepts (h.mono (Int.le_max_left limit limit')) none
  have hread' := TokenStream.readForm_of_accepts (h'.mono (Int.le_max_right limit limit')) none
  rw [hread] at hread'
  cases hread'
  exact ⟨rfl, rfl⟩

theorem Accepts.append (h : Accepts limit ts form rest) (more : List PlacedToken) :
    Accepts limit (ts ++ more) form (rest ++ more) := by
  obtain ⟨taken, rfl, hform⟩ := h
  exact ⟨taken, List.append_assoc .., hform⟩

theorem AcceptsAll.append (h : AcceptsAll limit ts forms left) (more : List PlacedToken) :
    AcceptsAll limit (ts ++ more) forms (left ++ more) := by
  induction h with
  | nil left => exact .nil (left ++ more)
  | cons h _ ih => exact .cons (h.append more) ih

/-- Where all tokens can be read, another limit lets no other forms be read. -/
theorem AcceptsAll.isPrefix {limit' : Int} {forms' : List Form} (h : AcceptsAll limit ts forms [])
    (h' : AcceptsAll limit' ts forms' left) : forms' <+: forms := by
  induction h' generalizing forms with
  | nil => exact List.nil_prefix
  | cons hform _ ih =>
      cases h with
      | nil => exact absurd hform.length_lt (Nat.not_lt_zero _)
      | cons hform' hrest =>
          obtain ⟨rfl, rfl⟩ := hform.unique hform'
          exact List.cons_prefix_cons.mpr ⟨rfl, ih hrest⟩

theorem exists_acceptsAll (limit : Int) (ts : List PlacedToken) : ∃ forms left,
    AcceptsAll limit ts forms left ∧ ∀ form rest, ¬Accepts limit left form rest := by
  induction hlength : ts.length using Nat.strongRecOn generalizing ts with
  | ind n ih =>
      by_cases hform : ∃ form rest, Accepts limit ts form rest
      · obtain ⟨form, rest, h⟩ := hform
        obtain ⟨forms, left, hall, hstop⟩ := ih _ (hlength ▸ h.length_lt) rest rfl
        exact ⟨form :: forms, left, .cons h hall, hstop⟩
      · exact ⟨[], ts, .nil ts, fun form rest h ↦ hform ⟨form, rest, h⟩⟩

namespace TokenStream

theorem readFormsFrom_nil (pending : Option LexError) (done : List Form) :
    readFormsFrom done ⟨[], pending, limit⟩ =
      ⟨done.reverse, pending.map .lex, ⟨[], none, limit⟩⟩ := by
  rw [readFormsFrom]
  cases pending <;> rfl

theorem readFormsFrom_of_readForm_ok {s : TokenStream} {t : TokenStream}
    (h : s.readForm = (.ok form, t)) (done : List Form) :
    readFormsFrom done s = readFormsFrom (form :: done) t := by
  rw [readFormsFrom]
  split
  next htokens =>
    rw [readForm, htokens] at h
    simp [Form.readFrom] at h
  next =>
    split
    next hread =>
      rw [h] at hread
      cases hread
      rfl
    next hread =>
      rw [h] at hread
      cases hread

theorem readFormsFrom_of_readForm_error {s : TokenStream} {t : TokenStream} {e : ReadError}
    (htokens : s.tokens ≠ []) (h : s.readForm = (.error e, t)) (done : List Form) :
    readFormsFrom done s = ⟨done.reverse, some e, t⟩ := by
  rw [readFormsFrom]
  split
  next hnil => exact absurd hnil htokens
  next =>
    split
    next hread =>
      rw [h] at hread
      cases hread
    next hread =>
      rw [h] at hread
      cases hread
      rfl

theorem readForms_single {s : TokenStream} (h : s.readForm = (.ok form, ⟨[], none, limit⟩)) :
    s.readForms = ⟨[form], none, ⟨[], none, limit⟩⟩ := by
  rw [readForms, readFormsFrom_of_readForm_ok h, readFormsFrom_nil]
  rfl

end TokenStream

/-- Forms at the front of a stream are read whatever follows them. -/
theorem AcceptsAll.readFormsFrom (h : AcceptsAll limit ts forms left)
    (pending : Option LexError) (done : List Form) :
    TokenStream.readFormsFrom done ⟨ts, pending, limit⟩ =
      TokenStream.readFormsFrom (forms.reverse ++ done) ⟨left, pending, limit⟩ := by
  induction h generalizing done with
  | nil left => rfl
  | @cons ts rest left form forms h _ ih =>
      rw [TokenStream.readFormsFrom_of_readForm_ok (TokenStream.readForm_of_accepts h pending), ih]
      simp

end MiniLisp
