import MiniLisp.Proofs.Grammar

/-!
# Acceptance and refusal

Behind the tokens of open expressions some expression within the limit goes on, unless a mark waits
for a form that would be too deep. So each answer of a reader says what its tokens are to the
grammar: they begin with an expression, they stop within one, a parenthesis closes nothing, or they
go deeper than the limit.
-/

namespace MiniLisp

/-- The tokens stop within an expression that fits below the limit. -/
def Unfinished (limit : Int) (ts : List Token) : Prop :=
  ∃ (more : List Token) (form : Form),
    more ≠ [] ∧ Expression (ts ++ more) form ∧ (form.depth : Int) ≤ limit

/-- The tokens stop within an expression that fits, but with none that closes a parenthesis next. -/
def StopsBeforeStray (limit : Int) (ts : List Token) : Prop :=
  Unfinished limit ts ∧ ∀ (more : List Token) (form : Form),
    Expression (ts ++ .rightParen :: more) form → limit < form.depth

/-- An expression may be the next thing behind the open ones, or the end of the innermost. -/
def HasRoom (limit : Int) (stack : List Open) : Prop :=
  (∃ items outer, stack = .list items :: outer) ∨ (stack.length : Int) ≤ limit

theorem PlacedToken.exists_map_token_eq (ts : List Token) :
    ∃ placed : List PlacedToken, placed.map PlacedToken.token = ts :=
  ⟨ts.map fun token ↦ ⟨token, .start⟩, by simp [Function.comp_def]⟩

namespace Opened

variable {limit : Int}

theorem exists_expression {us vs : List Token} {stack : List Open} {form : Form}
    (h : Opened limit us stack) (hform : Expression vs form)
    (hdepth : (form.depth : Int) + stack.length ≤ limit) :
    ∃ more whole, Expression (us ++ vs ++ more) whole ∧ (whole.depth : Int) ≤ limit := by
  induction h generalizing vs form with
  | nil => exact ⟨[], form, by simpa using hform, by simpa using hdepth⟩
  | @quote us stack _ _ ih =>
      obtain ⟨more, whole, hwhole, hfits⟩ := ih (.quote hform) (by
        simp only [Form.depth, List.length_cons] at hdepth ⊢
        omega)
      exact ⟨more, whole, by simpa using hwhole, hfits⟩
  | @list us stack tss items _ hstack hitems hfits ih =>
      have hall : List.Forall₂ Expression (tss ++ [vs]) (items.reverse ++ [form]) :=
        List.rel_append hitems (.cons hform .nil)
      have hlist : ((Form.list (items.reverse ++ [form])).depth : Int) + stack.length ≤ limit := by
        refine Form.depth_list_add_le_iff.mpr ⟨hstack, fun item hitem ↦ ?_⟩
        rcases List.mem_append.mp hitem with hitem | hitem
        · exact hfits item (List.mem_reverse.mp hitem)
        · rw [List.mem_singleton.mp hitem]
          simpa using hdepth
      obtain ⟨more, whole, hwhole, hdepth⟩ := ih (.list hall) hlist
      exact ⟨.rightParen :: more, whole, by simpa using hwhole, hdepth⟩

theorem exists_closing {us : List Token} {items : List Form} {outer : List Open}
    (h : Opened limit us (.list items :: outer)) : ∃ more whole,
      Expression (us ++ .rightParen :: more) whole ∧ (whole.depth : Int) ≤ limit := by
  cases h with
  | list h hstack hitems hfits =>
      have hlist : ((Form.list items.reverse).depth : Int) + outer.length ≤ limit :=
        Form.depth_list_add_le_iff.mpr
          ⟨hstack, fun item hitem ↦ hfits item (List.mem_reverse.mp hitem)⟩
      obtain ⟨more, whole, hwhole, hdepth⟩ := h.exists_expression (.list hitems) hlist
      exact ⟨more, whole, by simpa using hwhole, hdepth⟩

theorem unfinished {us : List Token} {stack : List Open} (h : Opened limit us stack)
    (hroom : HasRoom limit stack) : Unfinished limit us := by
  rcases hroom with ⟨items, outer, rfl⟩ | hroom
  · obtain ⟨more, whole, hwhole, hdepth⟩ := h.exists_closing
    exact ⟨_, whole, List.cons_ne_nil _ _, hwhole, hdepth⟩
  · -- any form of depth zero goes on here
    obtain ⟨more, whole, hwhole, hdepth⟩ :=
      h.exists_expression (.string "") (by simpa [Form.depth] using hroom)
    exact ⟨.string "" :: more, whole, List.cons_ne_nil _ _, by simpa using hwhole, hdepth⟩

end Opened

namespace Form

variable {limit : Int}

/-- A reader that starts at the tokens of open expressions has these expressions open. -/
theorem readFrom_of_opened {us : List Token} {stack : List Open} (h : Opened limit us stack)
    (pending : Option LexError) {placed : List PlacedToken}
    (hplaced : placed.map PlacedToken.token = us) (rest : List PlacedToken) :
    readFrom limit pending 0 [] (placed ++ rest) =
      readFrom limit pending stack.length stack rest := by
  induction h generalizing placed rest with
  | nil =>
      rw [List.map_eq_nil_iff.mp hplaced]
      rfl
  | @quote us stack _ hdepth ih =>
      obtain ⟨before, last, rfl, hbefore, hlast⟩ := List.map_eq_append_iff.mp hplaced
      obtain ⟨⟨token, pos⟩, rfl, rfl⟩ := List.map_eq_singleton_iff.mp hlast
      have hstep : step limit stack.length stack ⟨.quoteMark, pos⟩ =
          .proceed (stack.length + 1) (.quote :: stack) :=
        step_of_not_rightParen stack nofun hdepth
      rw [List.append_assoc, ih hbefore, List.singleton_append, readFrom_of_proceed rest hstep]
      rfl
  | @list us stack tss items _ hdepth hitems hfits ih =>
      obtain ⟨before, after, rfl, hbefore, hafter⟩ := List.map_eq_append_iff.mp hplaced
      obtain ⟨⟨token, pos⟩, inside, rfl, rfl, hinside⟩ := List.map_eq_cons_iff.mp hafter
      have hstep : step limit stack.length stack ⟨.leftParen, pos⟩ =
          .proceed (stack.length + 1) (.list [] :: stack) :=
        step_of_not_rightParen stack nofun hdepth
      have hreads : List.Forall₂ Reads tss items.reverse := hitems.imp fun _ _ ↦ reads_expression
      rw [List.append_assoc, ih hbefore, List.cons_append, readFrom_of_proceed _ hstep,
        reads_items hreads [] stack rest hinside fun item hitem ↦
          hfits item (List.mem_reverse.mp hitem)]
      simp

theorem readFrom_of_expression {ts : List PlacedToken} {form : Form}
    (h : Expression (ts.map PlacedToken.token) form) (hdepth : (form.depth : Int) ≤ limit)
    (pending : Option LexError) (rest : List PlacedToken) :
    readFrom limit pending 0 [] (ts ++ rest) = (.ok form, ⟨rest, pending, limit⟩) := by
  rw [reads_expression h limit pending 0 [] ts rest rfl (by simpa using hdepth)]
  rfl

theorem deliver_ne_refuse (form : Form) (depth : Nat) (stack : List Open) (e : ParseError) :
    deliver form depth stack ≠ .refuse e := by
  induction stack generalizing form depth with
  | nil => nofun
  | cons o stack ih =>
      cases o with
      | quote => exact ih (.quote form) (depth - 1)
      | list items => nofun

/-- Only a parenthesis that closes nothing is refused, where a form would not be too deep. -/
theorem step_eq_refuse_iff {depth : Nat} {stack : List Open} {t : PlacedToken} {e : ParseError} :
    step limit depth stack t = .refuse e ↔ e = .unexpectedToken .expression t ∧
      t.token = .rightParen ∧ (depth : Int) ≤ limit ∧
        ∀ items outer, stack ≠ .list items :: outer := by
  obtain ⟨token, pos⟩ := t
  constructor
  · intro h
    by_cases hclosing : ∃ items outer, token = .rightParen ∧ stack = .list items :: outer
    · obtain ⟨items, outer, rfl, rfl⟩ := hclosing
      exact absurd h (deliver_ne_refuse _ _ _ e)
    rw [step_of_not_closing fun items outer htoken hstack ↦
      hclosing ⟨items, outer, htoken, hstack⟩] at h
    split at h
    · nomatch h
    next hdepth =>
      cases token with
      | rightParen =>
          cases h
          exact ⟨rfl, rfl, Int.not_lt.mp hdepth, fun items outer hstack ↦
            hclosing ⟨items, outer, rfl, hstack⟩⟩
      | leftParen | quoteMark => nomatch h
      | number | string | symbol => exact absurd h (deliver_ne_refuse _ _ _ e)
  · rintro ⟨rfl, rfl, hdepth, hstack⟩
    rw [step_of_not_closing fun items outer _ ↦ hstack items outer,
      if_neg (Int.not_lt.mpr hdepth)]
    rfl

/-- The tokens begin with an expression that fits, or leave expressions open up to the last of them
or to one that the reader does not take. -/
inductive Reached (limit : Int) (us : List Token) (ts : List PlacedToken) : Prop
  | whole {taken rest : List PlacedToken} {form : Form} (hts : ts = taken ++ rest)
      (hform : Expression (us ++ taken.map PlacedToken.token) form)
      (hdepth : (form.depth : Int) ≤ limit)
  | ended {stack : List Open} (h : Opened limit (us ++ ts.map PlacedToken.token) stack)
  | refused {taken rest : List PlacedToken} {t : PlacedToken} {stack : List Open} {e : ParseError}
      (hts : ts = taken ++ t :: rest) (h : Opened limit (us ++ taken.map PlacedToken.token) stack)
      (hstep : step limit stack.length stack t = .refuse e)
  | tooDeep {taken rest : List PlacedToken} {t : PlacedToken} {stack : List Open}
      (hts : ts = taken ++ t :: rest) (h : Opened limit (us ++ taken.map PlacedToken.token) stack)
      (hstep : step limit stack.length stack t = .tooDeep)

theorem Reached.cons {us : List Token} {t : PlacedToken} {ts : List PlacedToken}
    (h : Reached limit (us ++ [t.token]) ts) : Reached limit us (t :: ts) := by
  cases h with
  | @whole taken rest form hts hform hdepth =>
      exact .whole (show t :: ts = (t :: taken) ++ rest by rw [hts]; rfl)
        (by simpa using hform) hdepth
  | ended h => exact .ended (by simpa using h)
  | @refused taken rest u stack e hts h hstep =>
      exact .refused (show t :: ts = (t :: taken) ++ u :: rest by rw [hts]; rfl)
        (by simpa using h) hstep
  | @tooDeep taken rest u stack hts h hstep =>
      exact .tooDeep (show t :: ts = (t :: taken) ++ u :: rest by rw [hts]; rfl)
        (by simpa using h) hstep

theorem reached {us : List Token} {stack : List Open} (hopen : Opened limit us stack)
    (ts : List PlacedToken) : Reached limit us ts := by
  induction ts generalizing us stack with
  | nil => exact .ended (by simpa using hopen)
  | cons t ts ih =>
      have hsound := sound_step hopen t
      cases hstep : step limit stack.length stack t with
      | finish form =>
          rw [hstep] at hsound
          exact .whole (show t :: ts = [t] ++ ts from rfl) hsound.1 hsound.2
      | proceed depth stack =>
          rw [hstep] at hsound
          exact (ih hsound.1).cons
      | refuse e =>
          exact .refused (show t :: ts = [] ++ t :: ts from rfl) (by simpa using hopen) hstep
      | tooDeep =>
          exact .tooDeep (show t :: ts = [] ++ t :: ts from rfl) (by simpa using hopen) hstep

theorem readFrom_of_not_hasRoom {stack : List Open} (h : ¬HasRoom limit stack)
    (pending : Option LexError) (ts : List PlacedToken) :
    (readFrom limit pending stack.length stack ts).1 =
      .error (.parse (.nestingTooDeep limit)) := by
  obtain ⟨hlist, hdepth⟩ := not_or.mp h
  have hstack : ∀ items outer, stack ≠ .list items :: outer :=
    fun items outer heq ↦ hlist ⟨items, outer, heq⟩
  cases ts with
  | nil =>
      have hend : endOfTokens limit pending stack.length stack =
          (.parse (.nestingTooDeep limit), pending) := by
        rw [endOfTokens]
        · exact if_pos (Int.not_le.mp hdepth)
        · exact hstack
      rw [readFrom, hend]
  | cons t ts =>
      rw [readFrom, step_of_not_closing fun items outer _ ↦ hstack items outer,
        if_pos (Int.not_le.mp hdepth)]

theorem readFrom_nil_of_hasRoom {stack : List Open} (h : HasRoom limit stack) : ∃ expected,
    (readFrom limit none stack.length stack []).1 = .error (.parse (.endOfInput expected)) := by
  rw [readFrom]
  rcases h with ⟨items, outer, rfl⟩ | hdepth
  · exact ⟨.closingParenthesis, rfl⟩
  · cases stack with
    | nil => exact ⟨.expression, by simp only [endOfTokens, if_neg (Int.not_lt.mpr hdepth)]⟩
    | cons o stack =>
        cases o with
        | list items => exact ⟨.closingParenthesis, rfl⟩
        | quote => exact ⟨.expression, by simp only [endOfTokens, if_neg (Int.not_lt.mpr hdepth)]⟩

/-- What follows an expression is left to read, so an expression does not go on in another. -/
theorem exists_opened_of_unfinished {ts : List PlacedToken}
    (h : Unfinished limit (ts.map PlacedToken.token)) :
    ∃ stack, Opened limit (ts.map PlacedToken.token) stack ∧ HasRoom limit stack := by
  obtain ⟨more, form, hmore, hform, hdepth⟩ := h
  obtain ⟨after, hafter⟩ := PlacedToken.exists_map_token_eq more
  have hread : readFrom limit none 0 [] (ts ++ after) = (.ok form, ⟨[], none, limit⟩) := by
    rw [← hafter, ← List.map_append] at hform
    simpa using readFrom_of_expression hform hdepth none []
  -- in every other case the reader answers before it comes to `after`, and not with `form`
  cases reached .nil ts with
  | @whole taken rest first hts hfirst hfits =>
      rw [hts, List.append_assoc, readFrom_of_expression hfirst hfits none] at hread
      have hnil : rest ++ after = [] := congrArg TokenStream.tokens (Prod.mk.inj hread).2
      rw [← hafter, (List.append_eq_nil_iff.mp hnil).2] at hmore
      exact absurd rfl hmore
  | @ended stack hopen =>
      refine ⟨stack, hopen, not_not.mp fun hroom ↦ ?_⟩
      have hdeep := readFrom_of_not_hasRoom hroom none after
      rw [← readFrom_of_opened hopen none rfl, hread] at hdeep
      cases hdeep
  | @refused taken rest t stack e hts hopen hstep =>
      rw [hts, List.append_assoc, readFrom_of_opened hopen none rfl, List.cons_append, readFrom,
        hstep] at hread
      cases hread
  | @tooDeep taken rest t stack hts hopen hstep =>
      rw [hts, List.append_assoc, readFrom_of_opened hopen none rfl, List.cons_append, readFrom,
        hstep] at hread
      cases hread

theorem stopsBeforeStray_of_refuse {us : List Token} {stack : List Open} {t : PlacedToken}
    {e : ParseError} (hopen : Opened limit us stack)
    (hstep : step limit stack.length stack t = .refuse e) : StopsBeforeStray limit us := by
  obtain ⟨-, ht, hdepth, hstack⟩ := step_eq_refuse_iff.mp hstep
  refine ⟨hopen.unfinished (.inr hdepth), fun more form hform ↦ ?_⟩
  by_contra hfits
  obtain ⟨before, hbefore⟩ := PlacedToken.exists_map_token_eq us
  obtain ⟨after, hafter⟩ := PlacedToken.exists_map_token_eq more
  have hall : (before ++ t :: after).map PlacedToken.token = us ++ .rightParen :: more := by
    rw [List.map_append, List.map_cons, hbefore, hafter, ht]
  rw [← hall] at hform
  have hread := readFrom_of_expression hform (Int.not_lt.mp hfits) none []
  rw [List.append_nil, readFrom_of_opened hopen none hbefore, readFrom, hstep] at hread
  cases hread

theorem exists_opened_of_stopsBeforeStray {ts : List PlacedToken}
    (h : StopsBeforeStray limit (ts.map PlacedToken.token)) :
    ∃ stack, Opened limit (ts.map PlacedToken.token) stack ∧ (stack.length : Int) ≤ limit ∧
      ∀ items outer, stack ≠ .list items :: outer := by
  obtain ⟨stack, hopen, hroom⟩ := exists_opened_of_unfinished h.1
  have hstack : ∀ items outer, stack ≠ .list items :: outer := by
    rintro items outer rfl
    obtain ⟨more, form, hform, hdepth⟩ := hopen.exists_closing
    exact absurd (h.2 more form hform) (Int.not_lt.mpr hdepth)
  refine ⟨stack, hopen, hroom.resolve_left ?_, hstack⟩
  rintro ⟨items, outer, heq⟩
  exact hstack items outer heq

end Form

/-- The tokens begin with an expression for the form, and these are left behind it. -/
def Accepts (limit : Int) (placed : List PlacedToken) (form : Form) (rest : List PlacedToken) :
    Prop :=
  ∃ taken, placed = taken ++ rest ∧ Expression (taken.map PlacedToken.token) form ∧
    (form.depth : Int) ≤ limit

/-- The token is a closing parenthesis behind the beginning of an expression that fits, and goes on
with none. -/
def Stray (limit : Int) (placed : List PlacedToken) (t : PlacedToken) : Prop :=
  ∃ taken rest, placed = taken ++ t :: rest ∧ t.token = .rightParen ∧
    StopsBeforeStray limit (taken.map PlacedToken.token)

namespace TokenStream

variable {placed rest : List PlacedToken} {limit : Int} {form : Form} {t : PlacedToken}

theorem readForm_of_accepts (h : Accepts limit placed form rest) (pending : Option LexError) :
    (TokenStream.mk placed pending limit).readForm = (.ok form, ⟨rest, pending, limit⟩) := by
  obtain ⟨taken, rfl, hform, hdepth⟩ := h
  exact Form.readFrom_of_expression hform hdepth pending rest

theorem readForm_of_unfinished (h : Unfinished limit (placed.map PlacedToken.token)) :
    ∃ expected, (TokenStream.mk placed none limit).readForm.1 =
      .error (.parse (.endOfInput expected)) := by
  obtain ⟨stack, hopen, hroom⟩ := Form.exists_opened_of_unfinished h
  obtain ⟨expected, hend⟩ := Form.readFrom_nil_of_hasRoom hroom
  have hread := Form.readFrom_of_opened hopen none rfl []
  rw [List.append_nil] at hread
  rw [← hread] at hend
  exact ⟨expected, hend⟩

theorem readForm_of_stray (h : Stray limit placed t) :
    (TokenStream.mk placed none limit).readForm.1 =
      .error (.parse (.unexpectedToken .expression t)) := by
  obtain ⟨taken, rest, rfl, ht, hstops⟩ := h
  obtain ⟨stack, hopen, hdepth, hstack⟩ := Form.exists_opened_of_stopsBeforeStray hstops
  have hstep := Form.step_eq_refuse_iff.mpr ⟨rfl, ht, hdepth, hstack⟩
  rw [readForm, Form.readFrom_of_opened hopen none rfl, Form.readFrom, hstep]

/-- What the answer of a reader says about its tokens. -/
inductive Verdict (limit : Int) (placed : List PlacedToken) : Except ReadError Form → Prop
  | form {form : Form} {rest : List PlacedToken} (h : Accepts limit placed form rest) :
      Verdict limit placed (.ok form)
  | unfinished {expected : Expected} (h : Unfinished limit (placed.map PlacedToken.token)) :
      Verdict limit placed (.error (.parse (.endOfInput expected)))
  | stray {t : PlacedToken} (h : Stray limit placed t) :
      Verdict limit placed (.error (.parse (.unexpectedToken .expression t)))
  | tooDeep : Verdict limit placed (.error (.parse (.nestingTooDeep limit)))

theorem verdict_readForm (placed : List PlacedToken) (limit : Int) :
    Verdict limit placed (TokenStream.mk placed none limit).readForm.1 := by
  rw [readForm]
  cases Form.reached (@Opened.nil limit) placed with
  | @whole taken rest form hts hform hdepth =>
      have haccepts : Accepts limit placed form rest := ⟨taken, hts, hform, hdepth⟩
      rw [hts, Form.readFrom_of_expression hform hdepth none]
      exact .form (hts ▸ haccepts)
  | @ended stack hopen =>
      have hread := Form.readFrom_of_opened hopen none rfl []
      rw [List.append_nil] at hread
      rw [hread]
      by_cases hroom : HasRoom limit stack
      · obtain ⟨expected, hend⟩ := Form.readFrom_nil_of_hasRoom hroom
        rw [hend]
        exact .unfinished (hopen.unfinished hroom)
      · rw [Form.readFrom_of_not_hasRoom hroom none]
        exact .tooDeep
  | @refused taken rest t stack e hts hopen hstep =>
      have hstray := Form.stopsBeforeStray_of_refuse hopen hstep
      obtain ⟨rfl, ht, -⟩ := Form.step_eq_refuse_iff.mp hstep
      rw [hts, Form.readFrom_of_opened hopen none rfl, Form.readFrom, hstep]
      exact .stray ⟨taken, rest, rfl, ht, hstray⟩
  | @tooDeep taken rest t stack hts hopen hstep =>
      rw [hts, Form.readFrom_of_opened hopen none rfl, Form.readFrom, hstep]
      exact .tooDeep

/-- Each answer of the reader, told by the grammar alone: the form of an expression that fits, the
end of the input within one, a parenthesis that goes on with none, and else too deep a nesting. -/
theorem readForm_verdict (placed : List PlacedToken) (limit : Int) :
    (∀ form rest, (TokenStream.mk placed none limit).readForm = (.ok form, ⟨rest, none, limit⟩) ↔
      Accepts limit placed form rest) ∧
    ((∃ expected, (TokenStream.mk placed none limit).readForm.1 =
      .error (.parse (.endOfInput expected))) ↔ Unfinished limit (placed.map PlacedToken.token)) ∧
    (∀ t, (TokenStream.mk placed none limit).readForm.1 =
      .error (.parse (.unexpectedToken .expression t)) ↔ Stray limit placed t) ∧
    ((TokenStream.mk placed none limit).readForm.1 = .error (.parse (.nestingTooDeep limit)) ↔
      ¬(∃ form rest, Accepts limit placed form rest) ∧
        ¬Unfinished limit (placed.map PlacedToken.token) ∧ ¬∃ t, Stray limit placed t) := by
  have hverdict := verdict_readForm placed limit
  refine ⟨fun form rest ↦ ⟨fun h ↦ ?_, fun h ↦ readForm_of_accepts h none⟩,
    ⟨fun ⟨expected, h⟩ ↦ ?_, readForm_of_unfinished⟩,
    fun t ↦ ⟨fun h ↦ ?_, readForm_of_stray⟩, fun h ↦ ⟨?_, ?_, ?_⟩, fun ⟨hform, hend, hstray⟩ ↦ ?_⟩
  · rw [h] at hverdict
    cases hverdict with
    | @form _ left haccepts =>
        have hleft := (readForm_of_accepts haccepts none).symm.trans h
        cases hleft
        exact haccepts
  · rw [h] at hverdict
    cases hverdict with
    | unfinished hend => exact hend
  · rw [h] at hverdict
    cases hverdict with
    | stray hstray => exact hstray
  · rintro ⟨form, rest, haccepts⟩
    rw [readForm_of_accepts haccepts none] at h
    nomatch h
  · intro hend
    obtain ⟨expected, hread⟩ := readForm_of_unfinished hend
    rw [h] at hread
    nomatch hread
  · rintro ⟨t, hstray⟩
    rw [readForm_of_stray hstray] at h
    nomatch h
  · generalize (TokenStream.mk placed none limit).readForm.1 = answer at hverdict
    cases hverdict with
    | @form form rest haccepts => exact absurd ⟨form, rest, haccepts⟩ hform
    | unfinished h => exact absurd h hend
    | @stray t h => exact absurd ⟨t, h⟩ hstray
    | tooDeep => rfl

end TokenStream

end MiniLisp
