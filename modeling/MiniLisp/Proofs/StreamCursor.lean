import MiniLisp.Proofs.LazyReading

/-!
# A stream as a cursor

Requests to a stream are answered as by a cursor in the list of its tokens, which goes on by one for
each token that is taken and never goes back. Behind the last token it raises the lexical error that
waits there, once; from then on it is at the end of the input. Forms are read from the cursor by
recursive descent, and a reader that fails leaves the cursor where it stopped.
-/

namespace MiniLisp

inductive Request where
  | peek | advance | atEnd | readForm | readForms

inductive Reply where
  | token (next : Option PlacedToken)
  | ended (answer : Bool)
  | form (form : Form)
  | forms (forms : List Form) (error : Option ReadError)
  | failed (error : ReadError)

namespace Reply

def of {α : Type} (reply : α → Reply) : Except ReadError α → Reply
  | .ok a => reply a
  | .error e => .failed e

/-- The error that the request has raised. -/
def error : Reply → Option ReadError
  | .forms _ error => error
  | .failed e => some e
  | _ => none

end Reply

namespace TokenStream

def serve (s : TokenStream) : Request → Reply × TokenStream
  | .peek => (.of .token s.peek.1, s.peek.2)
  | .advance => (.of .token s.advance.1, s.advance.2)
  | .atEnd => (.of .ended s.atEnd.1, s.atEnd.2)
  | .readForm => (.of .form s.readForm.1, s.readForm.2)
  | .readForms => (.forms s.readForms.forms s.readForms.error, s.readForms.rest)

/-- The replies to the requests, one after the other, whether or not they fail. -/
def serveAll (s : TokenStream) : List Request → List Reply × TokenStream
  | [] => ([], s)
  | request :: requests =>
    let (reply, rest) := s.serve request
    let (replies, last) := rest.serveAll requests
    (reply :: replies, last)

end TokenStream

/-- A place in a list of tokens, and whether the error behind them has been raised. -/
structure Cursor where
  index : Nat
  raised : Bool

namespace Cursor

def start : Cursor := ⟨0, false⟩

def next (c : Cursor) : Cursor := { c with index := c.index + 1 }

/-- Looks for the token at the cursor; what is behind the last one can change the cursor, but does
not move it. -/
def look (s : TokenStream) (c : Cursor) : Except ReadError (Option PlacedToken) × Cursor :=
  match s.tokens[c.index]? with
  | some t => (.ok (some t), c)
  | none =>
    match s.pending, c.raised with
    | some e, false => (.error (.lex e), { c with raised := true })
    | _, _ => (.ok none, c)

/-- Takes the token at the cursor, if there is one. -/
def take (s : TokenStream) (c : Cursor) : Except ReadError (Option PlacedToken) × Cursor :=
  match look s c with
  | (.ok (some t), c) => (.ok (some t), c.next)
  | (answer, c) => (answer, c)

/-- A reader that expects something meets the end of the tokens. -/
inductive Lacks (s : TokenStream) (expected : Expected) (c : Cursor) : ReadError → Cursor → Prop
  | raised {e : ReadError} {c' : Cursor} (h : look s c = (.error e, c')) : Lacks s expected c e c'
  | ended (h : look s c = (.ok none, c)) :
      Lacks s expected c (.parse (.endOfInput expected)) c

/-- What a reader is at: a form, or a list of which it has read these items. -/
inductive Task where
  | form
  | list (items : List Form)

/-- Recursive descent at a nesting depth. -/
inductive Reads (s : TokenStream) : Nat → Task → Cursor → Except ReadError Form → Cursor → Prop
  | tooDeep {d : Nat} {c : Cursor} (h : s.limit < d) :
      Reads s d .form c (.error (.parse (.nestingTooDeep s.limit))) c
  | lacks {d : Nat} {c c' : Cursor} {e : ReadError} (h : (d : Int) ≤ s.limit)
      (hlacks : Lacks s .expression c e c') : Reads s d .form c (.error e) c'
  | atom {d : Nat} {c : Cursor} {t : PlacedToken} {form : Form} (h : (d : Int) ≤ s.limit)
      (hlook : look s c = (.ok (some t), c)) (hatom : Expression [t.token] form) :
      Reads s d .form c (.ok form) c.next
  | stray {d : Nat} {c : Cursor} {t : PlacedToken} (h : (d : Int) ≤ s.limit)
      (hlook : look s c = (.ok (some t), c)) (ht : t.token = .rightParen) :
      Reads s d .form c (.error (.parse (.unexpectedToken .expression t))) c.next
  | quote {d : Nat} {c c' : Cursor} {t : PlacedToken} {answer : Except ReadError Form}
      (h : (d : Int) ≤ s.limit) (hlook : look s c = (.ok (some t), c)) (ht : t.token = .quoteMark)
      (hinner : Reads s (d + 1) .form c.next answer c') :
      Reads s d .form c (answer.map .quote) c'
  | list {d : Nat} {c c' : Cursor} {t : PlacedToken} {answer : Except ReadError Form}
      (h : (d : Int) ≤ s.limit) (hlook : look s c = (.ok (some t), c)) (ht : t.token = .leftParen)
      (hitems : Reads s (d + 1) (.list []) c.next answer c') : Reads s d .form c answer c'
  | unclosed {d : Nat} {items : List Form} {c c' : Cursor} {e : ReadError}
      (hlacks : Lacks s .closingParenthesis c e c') : Reads s d (.list items) c (.error e) c'
  | closed {d : Nat} {items : List Form} {c : Cursor} {t : PlacedToken}
      (hlook : look s c = (.ok (some t), c)) (ht : t.token = .rightParen) :
      Reads s d (.list items) c (.ok (.list items)) c.next
  | failed {d : Nat} {items : List Form} {c c' : Cursor} {t : PlacedToken} {e : ReadError}
      (hlook : look s c = (.ok (some t), c)) (ht : t.token ≠ .rightParen)
      (hitem : Reads s d .form c (.error e) c') : Reads s d (.list items) c (.error e) c'
  | item {d : Nat} {items : List Form} {c c' c'' : Cursor} {t : PlacedToken} {form : Form}
      {answer : Except ReadError Form} (hlook : look s c = (.ok (some t), c))
      (ht : t.token ≠ .rightParen) (hitem : Reads s d .form c (.ok form) c')
      (hrest : Reads s d (.list (items ++ [form])) c' answer c'') :
      Reads s d (.list items) c answer c''

/-- Form after form up to the end of the tokens or to an error. -/
inductive ReadsAll (s : TokenStream) : Cursor → List Form → Option ReadError → Cursor → Prop
  | ended {c : Cursor} (h : look s c = (.ok none, c)) : ReadsAll s c [] none c
  | raised {c c' : Cursor} {e : ReadError} (h : look s c = (.error e, c')) :
      ReadsAll s c [] (some e) c'
  | failed {c c' : Cursor} {t : PlacedToken} {e : ReadError} (h : look s c = (.ok (some t), c))
      (hform : Reads s 0 .form c (.error e) c') : ReadsAll s c [] (some e) c'
  | form {c c' c'' : Cursor} {t : PlacedToken} {form : Form} {forms : List Form}
      {error : Option ReadError} (h : look s c = (.ok (some t), c))
      (hform : Reads s 0 .form c (.ok form) c') (hrest : ReadsAll s c' forms error c'') :
      ReadsAll s c (form :: forms) error c''

inductive Serves (s : TokenStream) (c : Cursor) : Request → Reply → Cursor → Prop
  | peek : Serves s c .peek (.of .token (look s c).1) (look s c).2
  | advance : Serves s c .advance (.of .token (take s c).1) (take s c).2
  | atEnd : Serves s c .atEnd (.of .ended ((look s c).1.map Option.isNone)) (look s c).2
  | readForm {answer : Except ReadError Form} {c' : Cursor} (h : Reads s 0 .form c answer c') :
      Serves s c .readForm (.of .form answer) c'
  | readForms {forms : List Form} {error : Option ReadError} {c' : Cursor}
      (h : ReadsAll s c forms error c') : Serves s c .readForms (.forms forms error) c'

inductive ServesAll (s : TokenStream) : Cursor → List Request → List Reply → Cursor → Prop
  | nil (c : Cursor) : ServesAll s c [] [] c
  | cons {c c' c'' : Cursor} {request : Request} {requests : List Request} {reply : Reply}
      {replies : List Reply} (h : Serves s c request reply c')
      (hrest : ServesAll s c' requests replies c'') :
      ServesAll s c (request :: requests) (reply :: replies) c''

/-- What is left of the stream at the cursor. -/
def rest (s : TokenStream) (c : Cursor) : TokenStream :=
  ⟨s.tokens.drop c.index, if c.raised then none else s.pending, s.limit⟩

section Looking

variable {s : TokenStream} {c c' : Cursor} {t : PlacedToken}

theorem rest_start (s : TokenStream) : rest s start = s := rfl

/-- There is a token at the cursor; or the tokens have ended, and an error waits behind them or
not. -/
inductive Sight (s : TokenStream) (c : Cursor) :
    Except ReadError (Option PlacedToken) × Cursor → Prop
  | token {t : PlacedToken} (h : (rest s c).tokens = t :: (rest s c.next).tokens) :
      Sight s c (.ok (some t), c)
  | error {e : LexError} (htokens : (rest s c).tokens = []) (hpending : (rest s c).pending = some e)
      (hrest : rest s { c with raised := true } = ⟨[], none, s.limit⟩) (hs : s.pending = some e) :
      Sight s c (.error (.lex e), { c with raised := true })
  | ended (hrest : rest s c = ⟨[], none, s.limit⟩) : Sight s c (.ok none, c)

theorem sight_look (s : TokenStream) (c : Cursor) : Sight s c (look s c) := by
  unfold look
  cases htoken : s.tokens[c.index]? with
  | some t =>
      obtain ⟨hindex, rfl⟩ := List.getElem?_eq_some_iff.mp htoken
      exact .token (List.drop_eq_getElem_cons hindex)
  | none =>
      have hdrop : s.tokens.drop c.index = [] :=
        List.drop_eq_nil_of_le (List.getElem?_eq_none_iff.mp htoken)
      dsimp only
      split
      next e hpending hraised =>
        refine .error hdrop ?_ ?_ hpending
        · rw [rest, hraised]
          exact hpending
        · rw [rest, hdrop]
          rfl
      next hnot =>
        refine .ended ?_
        rw [rest, hdrop]
        cases hraised : c.raised with
        | true => rfl
        | false =>
            cases hpending : s.pending with
            | none => rfl
            | some e => exact absurd hraised (hnot e hpending)

theorem peek_rest (s : TokenStream) (c : Cursor) :
    (rest s c).peek = ((look s c).1, rest s (look s c).2) := by
  have hsight := sight_look s c
  generalize look s c = seen at hsight
  cases hsight with
  | token h => rw [TokenStream.peek, h]
  | error htokens hpending hrest =>
      rw [TokenStream.peek, htokens, TokenStream.exhausted, hpending, hrest, htokens]
      rfl
  | ended hrest => rw [hrest]; rfl

theorem tokens_of_look (h : look s c = (.ok (some t), c)) :
    (rest s c).tokens = t :: (rest s c.next).tokens := by
  have hsight := sight_look s c
  rw [h] at hsight
  cases hsight with
  | token h => exact h

theorem rest_of_look_none (h : look s c = (.ok none, c)) : rest s c = ⟨[], none, s.limit⟩ := by
  have hsight := sight_look s c
  rw [h] at hsight
  cases hsight with
  | ended hrest => exact hrest

theorem advance_rest (s : TokenStream) (c : Cursor) :
    (rest s c).advance = ((take s c).1, rest s (take s c).2) := by
  have hsight := sight_look s c
  rw [take]
  generalize look s c = seen at hsight
  cases hsight with
  | token h =>
      rw [TokenStream.advance, h]
      rfl
  | error htokens hpending hrest =>
      rw [TokenStream.advance, htokens, TokenStream.exhausted, hpending, hrest, htokens]
      rfl
  | ended hrest => rw [hrest, TokenStream.advance, TokenStream.exhausted]

theorem atEnd_rest (s : TokenStream) (c : Cursor) :
    (rest s c).atEnd = ((look s c).1.map Option.isNone, rest s (look s c).2) := by
  rw [TokenStream.atEnd, peek_rest]

theorem look_of_take_some (h : take s c = (.ok (some t), c')) :
    look s c = (.ok (some t), c) ∧ c' = c.next := by
  have hsight := sight_look s c
  rw [take] at h
  generalize look s c = seen at hsight h
  cases hsight with
  | token htokens =>
      obtain ⟨ht, rfl⟩ := Prod.mk.inj h
      obtain rfl : _ = t := by simpa using ht
      exact ⟨rfl, rfl⟩
  | error => simp at h
  | ended => simp at h

theorem look_of_take {answer : Except ReadError (Option PlacedToken)}
    (h : take s c = (answer, c')) (hanswer : ∀ t, answer ≠ .ok (some t)) :
    look s c = (answer, c') := by
  rw [take] at h
  split at h
  next t _ _ => exact absurd (Prod.mk.inj h).1.symm (hanswer t)
  next hlook => exact hlook.trans h

theorem lacks_of_look (h : look s c = (.ok none, c')) (expected : Expected) :
    Lacks s expected c (.parse (.endOfInput expected)) c' := by
  have hsight := sight_look s c
  rw [h] at hsight
  cases hsight with
  | ended => exact .ended h

theorem eq_of_look_some (h : look s c = (.ok (some t), c')) :
    c = c' := by
  have hsight := sight_look s c
  rw [h] at hsight
  cases hsight with
  | token => rfl

/-- A reader that lacks a token has come to the end of the stream, or to the error behind it. -/
theorem endOfTokens_of_lacks {expected : Expected} {e : ReadError}
    (h : Lacks s expected c e c') :
    (rest s c).tokens = [] ∧ rest s c' = ⟨[], none, s.limit⟩ ∧
      (match (rest s c).pending with
        | some e => (.lex e, none)
        | none => (.parse (.endOfInput expected), none)) = (e, (none : Option LexError)) := by
  have hsight := sight_look s c
  cases h with
  | raised h =>
      rw [h] at hsight
      cases hsight with
      | error htokens hpending hrest => exact ⟨htokens, hrest, by rw [hpending]⟩
  | ended h =>
      have hrest := rest_of_look_none h
      rw [hrest]
      exact ⟨rfl, rfl, rfl⟩

end Looking

section Reading

variable {s : TokenStream} {c c' : Cursor} {d : Nat}

/-- The open expressions, that of the task being the innermost. -/
def Task.stack (outer : List Open) : Task → List Open
  | .form => outer
  | .list items => .list items.reverse :: outer

/-- The depth of the form that the task ends with. -/
def Task.depth (d : Nat) : Task → Nat
  | .form => d
  | .list _ => d - 1

/-- How a stream is read on when a reader in it has answered. -/
def handOver (s : TokenStream) (d : Nat) (outer : List Open) (c : Cursor) :
    Except ReadError Form → Except ReadError Form × TokenStream
  | .ok form => Form.resume s.limit (rest s c).pending (rest s c).tokens (Form.deliver form d outer)
  | .error e => (.error e, rest s c)

/-- A form is asked for behind these open expressions: where the innermost is a list, there is a
token that does not close it. -/
def Asks (s : TokenStream) (c : Cursor) (outer : List Open) : Prop :=
  ∀ items stack, outer = .list items :: stack →
    ∃ t, look s c = (.ok (some t), c) ∧ t.token ≠ .rightParen

theorem asks_nil (s : TokenStream) (c : Cursor) : Asks s c [] := by
  intro items stack h
  cases h

theorem asks_quote (s : TokenStream) (c : Cursor) (outer : List Open) :
    Asks s c (.quote :: outer) := by
  intro items stack h
  cases h

section Asked

variable {outer : List Open}

theorem not_list_of_asks (h : Asks s c outer) (htokens : (rest s c).tokens = [])
    (items : List Form) (stack : List Open) : outer ≠ .list items :: stack := by
  intro heq
  obtain ⟨t, hlook, -⟩ := h items stack heq
  rw [tokens_of_look hlook] at htokens
  cases htokens

theorem not_closing_of_asks (h : Asks s c outer) {t : PlacedToken} {ts : List PlacedToken}
    (htokens : (rest s c).tokens = t :: ts) (items : List Form) (stack : List Open)
    (ht : t.token = .rightParen) : outer ≠ .list items :: stack := by
  intro heq
  obtain ⟨u, hlook, hu⟩ := h items stack heq
  rw [tokens_of_look hlook] at htokens
  cases htokens
  exact hu ht

theorem readFrom_of_tooDeep (h : s.limit < d) (hasks : Asks s c outer) :
    Form.readFrom s.limit (rest s c).pending d outer (rest s c).tokens =
      (.error (.parse (.nestingTooDeep s.limit)), rest s c) := by
  cases htokens : (rest s c).tokens with
  | nil =>
      have hend : Form.endOfTokens s.limit (rest s c).pending d outer =
          (.parse (.nestingTooDeep s.limit), (rest s c).pending) := by
        rw [Form.endOfTokens]
        · exact if_pos h
        · exact not_list_of_asks hasks htokens
      rw [Form.readFrom, hend, ← htokens]
      rfl
  | cons t ts =>
      have hstep : Form.step s.limit d outer t = .tooDeep := by
        rw [Form.step_of_not_closing (not_closing_of_asks hasks htokens), if_pos h]
      rw [Form.readFrom, hstep, ← htokens]
      rfl

theorem readFrom_of_stray (h : (d : Int) ≤ s.limit) (hasks : Asks s c outer) {t : PlacedToken}
    (hlook : look s c = (.ok (some t), c)) (ht : t.token = .rightParen) :
    Form.readFrom s.limit (rest s c).pending d outer (rest s c).tokens =
      (.error (.parse (.unexpectedToken .expression t)), rest s c.next) := by
  have htokens := tokens_of_look hlook
  have hstep : Form.step s.limit d outer t = .refuse (.unexpectedToken .expression t) :=
    Form.step_eq_refuse_iff.mpr ⟨rfl, ht, h, fun items stack ↦
      not_closing_of_asks hasks htokens items stack ht⟩
  rw [htokens, Form.readFrom, hstep]
  rfl

theorem begin_of_atom {t : PlacedToken} {form : Form} (h : Expression [t.token] form) (d : Nat)
    (outer : List Open) :
    t.token ≠ .rightParen ∧ Form.begin d outer t = Form.deliver form d outer := by
  obtain ⟨token, pos⟩ := t
  generalize hts : [(PlacedToken.mk token pos).token] = ts at h
  cases h with
  | number | string | symbol =>
      cases hts
      exact ⟨nofun, rfl⟩
  | quote h =>
      obtain ⟨-, rfl⟩ := List.cons.inj hts
      cases h
  | list h => exact absurd (List.cons.inj hts).2.symm (by simp)

end Asked

/-- The stack of a stream's reader does what recursive descent does. -/
theorem Reads.readFrom {task : Task} {answer : Except ReadError Form}
    (h : Reads s d task c answer c') (outer : List Open) (hasks : task = .form → Asks s c outer) :
    Form.readFrom s.limit (rest s c).pending d (task.stack outer) (rest s c).tokens =
      handOver s (task.depth d) outer c' answer := by
  induction h generalizing outer with
  | tooDeep h => exact readFrom_of_tooDeep h (hasks rfl)
  | @lacks d c c' e h hlacks =>
      obtain ⟨htokens, hrest, hlacking⟩ := endOfTokens_of_lacks hlacks
      have hend : Form.endOfTokens s.limit (rest s c).pending d outer = (e, none) := by
        rw [Form.endOfTokens]
        · exact (if_neg (Int.not_lt.mpr h)).trans hlacking
        · exact not_list_of_asks (hasks rfl) htokens
      rw [htokens, Task.stack, Form.readFrom, hend, handOver, hrest]
  | @atom d c t form h hlook hatom =>
      obtain ⟨ht, hbegin⟩ := begin_of_atom hatom d outer
      have hstep := (Form.step_of_not_rightParen outer ht h).trans hbegin
      rw [tokens_of_look hlook, Task.stack, Form.readFrom_of_deliver _ hstep]
      rfl
  | stray h hlook ht => exact readFrom_of_stray h (hasks rfl) hlook ht
  | @quote d c c' t answer h hlook ht _ ih =>
      have hstep : Form.step s.limit d outer t = .proceed (d + 1) (.quote :: outer) := by
        rw [Form.step_of_not_rightParen outer (by simp [ht]) h, Form.begin, ht]
      rw [tokens_of_look hlook, Task.stack, Form.readFrom_of_proceed _ hstep]
      refine (ih (.quote :: outer) fun _ ↦ asks_quote s c.next outer).trans ?_
      cases answer <;> rfl
  | @list d c c' t answer h hlook ht _ ih =>
      have hstep : Form.step s.limit d outer t = .proceed (d + 1) (.list [] :: outer) := by
        rw [Form.step_of_not_rightParen outer (by simp [ht]) h, Form.begin, ht]
      rw [tokens_of_look hlook, Task.stack, Form.readFrom_of_proceed _ hstep]
      exact ih outer (by simp)
  | @unclosed d items c c' e hlacks =>
      obtain ⟨htokens, hrest, hlacking⟩ := endOfTokens_of_lacks hlacks
      have hend : Form.endOfTokens s.limit (rest s c).pending d (.list items.reverse :: outer) =
          (e, none) := hlacking
      rw [htokens, Task.stack, Form.readFrom, hend, handOver, hrest]
  | @closed d items c t hlook ht =>
      have hstep : Form.step s.limit d (.list items.reverse :: outer) t =
          Form.deliver (.list items) (d - 1) outer := by
        simp [Form.step, ht]
      rw [tokens_of_look hlook, Task.stack, Form.readFrom_of_deliver _ hstep]
      rfl
  | @failed d items c c' t e hlook ht _ ih =>
      exact ih (.list items.reverse :: outer) fun _ _ _ _ ↦ ⟨t, hlook, ht⟩
  | @item d items c c' c'' t form answer hlook ht _ _ ih ihRest =>
      have hitem := ih (.list items.reverse :: outer) fun _ _ _ _ ↦ ⟨t, hlook, ht⟩
      have hrest := ihRest outer (by simp)
      rw [Task.stack, List.reverse_append] at hrest
      exact hitem.trans hrest

theorem Reads.index_lt {task : Task} {answer : Except ReadError Form}
    (h : Reads s d task c answer c') {form : Form} (hanswer : answer = .ok form) :
    c.index < c'.index := by
  induction h generalizing form with
  | tooDeep | lacks | stray | unclosed | failed => cases hanswer
  | atom | closed => exact Nat.lt_succ_self _
  | @quote d c c' t answer _ _ _ _ ih =>
      cases answer with
      | error e => cases hanswer
      | ok inner => exact Nat.lt_of_succ_lt (ih rfl)
  | list _ _ _ _ ih => exact Nat.lt_of_succ_lt (ih hanswer)
  | item _ _ _ _ ih ihRest => exact Nat.lt_trans (ih rfl) (ihRest hanswer)

/-- How many tokens are left at the cursor. -/
def left (s : TokenStream) (c : Cursor) : Nat := s.tokens.length - c.index

theorem left_lt_of_look {t : PlacedToken} (h : look s c = (.ok (some t), c))
    (hindex : c.index < c'.index) : left s c' < left s c := by
  have hlength := congrArg List.length (tokens_of_look h)
  simp only [rest, List.length_drop, List.length_cons] at hlength
  unfold left
  omega

theorem exists_lacks_or_look (s : TokenStream) (c : Cursor) :
    (∃ t, look s c = (.ok (some t), c)) ∨
      ∀ expected, ∃ e c', Lacks s expected c e c' := by
  have hsight := sight_look s c
  rcases hlook : look s c with ⟨answer, c'⟩
  rw [hlook] at hsight
  cases hsight with
  | token => exact .inl ⟨_, rfl⟩
  | error => exact .inr fun expected ↦ ⟨_, _, .raised hlook⟩
  | ended => exact .inr fun expected ↦ ⟨_, _, .ended hlook⟩

theorem exists_reads (s : TokenStream) (d : Nat) (task : Task) (c : Cursor) :
    ∃ answer c', Reads s d task c answer c' := by
  induction hleft : left s c using Nat.strongRecOn generalizing d task c with
  | ind n ih =>
      subst hleft
      have hform : ∀ d, ∃ answer c', Reads s d .form c answer c' := by
        intro d
        by_cases hdepth : s.limit < d
        · exact ⟨_, _, .tooDeep hdepth⟩
        have hdepth : (d : Int) ≤ s.limit := Int.not_lt.mp hdepth
        rcases exists_lacks_or_look s c with ⟨t, hlook⟩ | hlacks
        · have hnext (task : Task) : ∃ answer c', Reads s (d + 1) task c.next answer c' :=
            ih _ (left_lt_of_look hlook (Nat.lt_succ_self _)) (d + 1) task c.next rfl
          obtain ⟨token, pos⟩ := t
          cases token with
          | leftParen =>
              obtain ⟨answer, c', h⟩ := hnext (.list [])
              exact ⟨answer, c', .list hdepth hlook rfl h⟩
          | rightParen => exact ⟨_, _, .stray hdepth hlook rfl⟩
          | quoteMark =>
              obtain ⟨answer, c', h⟩ := hnext .form
              exact ⟨_, c', .quote hdepth hlook rfl h⟩
          | number x => exact ⟨_, _, .atom hdepth hlook (.number x)⟩
          | string x => exact ⟨_, _, .atom hdepth hlook (.string x)⟩
          | symbol name => exact ⟨_, _, .atom hdepth hlook (.symbol name)⟩
        · obtain ⟨e, c', h⟩ := hlacks .expression
          exact ⟨_, c', .lacks hdepth h⟩
      cases task with
      | form => exact hform d
      | list items =>
          rcases exists_lacks_or_look s c with ⟨t, hlook⟩ | hlacks
          · by_cases ht : t.token = .rightParen
            · exact ⟨_, _, .closed hlook ht⟩
            obtain ⟨answer, c', hitem⟩ := hform d
            cases answer with
            | error e => exact ⟨_, c', .failed hlook ht hitem⟩
            | ok form =>
                have hless := left_lt_of_look hlook (hitem.index_lt rfl)
                obtain ⟨answer, c'', hrest⟩ := ih _ hless d (.list (items ++ [form])) c' rfl
                exact ⟨answer, c'', .item hlook ht hitem hrest⟩
          · obtain ⟨e, c', h⟩ := hlacks .closingParenthesis
            exact ⟨_, c', .unclosed h⟩

theorem exists_readsAll (s : TokenStream) (c : Cursor) :
    ∃ forms error c', ReadsAll s c forms error c' := by
  induction hleft : left s c using Nat.strongRecOn generalizing c with
  | ind n ih =>
      subst hleft
      have hsight := sight_look s c
      rcases hlook : look s c with ⟨seen, c'⟩
      rw [hlook] at hsight
      cases hsight with
      | token =>
          obtain ⟨answer, c', hform⟩ := exists_reads s 0 .form c
          cases answer with
          | error e => exact ⟨[], some e, c', .failed hlook hform⟩
          | ok form =>
              have hless := left_lt_of_look hlook (hform.index_lt rfl)
              obtain ⟨forms, error, c'', hrest⟩ := ih _ hless c' rfl
              exact ⟨form :: forms, error, c'', .form hlook hform hrest⟩
      | error => exact ⟨_, _, _, .raised hlook⟩
      | ended => exact ⟨_, _, _, .ended hlook⟩

end Reading

section Serving

variable {s : TokenStream} {c c' : Cursor}

theorem readForm_rest {answer : Except ReadError Form} (h : Reads s 0 .form c answer c') :
    (rest s c).readForm = (answer, rest s c') := by
  rw [TokenStream.readForm]
  refine (h.readFrom [] fun _ ↦ asks_nil s c).trans ?_
  cases answer <;> rfl

theorem readForms_rest {forms : List Form} {error : Option ReadError}
    (h : ReadsAll s c forms error c') (done : List Form) :
    TokenStream.readFormsFrom done (rest s c) = ⟨done.reverse ++ forms, error, rest s c'⟩ := by
  induction h generalizing done with
  | ended h => rw [rest_of_look_none h, TokenStream.readFormsFrom_nil, List.append_nil]; rfl
  | @raised c c' e h =>
      have hsight := sight_look s c
      rw [h] at hsight
      cases hsight with
      | @error x htokens hpending hrest =>
          have hstream : rest s c = ⟨[], some x, s.limit⟩ := by rw [← htokens, ← hpending]; rfl
          rw [hstream, TokenStream.readFormsFrom_nil, hrest, List.append_nil]
          rfl
  | @failed c c' t e h hform =>
      have htokens : (rest s c).tokens ≠ [] := by
        rw [tokens_of_look h]
        exact List.cons_ne_nil _ _
      rw [TokenStream.readFormsFrom_of_readForm_error htokens (readForm_rest hform),
        List.append_nil]
  | @form c c' c'' t form forms error h hform _ ih =>
      rw [TokenStream.readFormsFrom_of_readForm_ok (readForm_rest hform), ih]
      simp

theorem serve_rest {request : Request} {reply : Reply} (h : Serves s c request reply c') :
    (rest s c).serve request = (reply, rest s c') := by
  cases h with
  | peek => rw [TokenStream.serve, peek_rest]
  | advance => rw [TokenStream.serve, advance_rest]
  | atEnd => rw [TokenStream.serve, atEnd_rest]
  | readForm h => rw [TokenStream.serve, readForm_rest h]
  | readForms h =>
      rw [TokenStream.serve, TokenStream.readForms, readForms_rest h []]
      rfl

theorem exists_serves (s : TokenStream) (c : Cursor) (request : Request) :
    ∃ reply c', Serves s c request reply c' := by
  cases request with
  | peek => exact ⟨_, _, .peek⟩
  | advance => exact ⟨_, _, .advance⟩
  | atEnd => exact ⟨_, _, .atEnd⟩
  | readForm =>
      obtain ⟨answer, c', h⟩ := exists_reads s 0 .form c
      exact ⟨_, c', .readForm h⟩
  | readForms =>
      obtain ⟨forms, error, c', h⟩ := exists_readsAll s c
      exact ⟨_, c', .readForms h⟩

variable {requests : List Request} {replies : List Reply}

theorem serveAll_rest (h : ServesAll s c requests replies c') :
    (rest s c).serveAll requests = (replies, rest s c') := by
  induction h with
  | nil c => rfl
  | cons h _ ih => simp only [TokenStream.serveAll, serve_rest h, ih]

theorem exists_servesAll (s : TokenStream) (c : Cursor) (requests : List Request) :
    ∃ replies c', ServesAll s c requests replies c' := by
  induction requests generalizing c with
  | nil => exact ⟨[], c, .nil c⟩
  | cons request requests ih =>
      obtain ⟨reply, c', h⟩ := exists_serves s c request
      obtain ⟨replies, c'', hrest⟩ := ih c'
      exact ⟨reply :: replies, c'', .cons h hrest⟩

end Serving

section Ends

/-- What a stream at its end replies. -/
def endReply (limit : Int) : Request → Reply
  | .peek | .advance => .token none
  | .atEnd => .ended true
  | .readForm =>
    .failed (.parse (if limit < 0 then .nestingTooDeep limit else .endOfInput .expression))
  | .readForms => .forms [] none

theorem serve_end (limit : Int) (request : Request) :
    (⟨[], none, limit⟩ : TokenStream).serve request =
      (endReply limit request, ⟨[], none, limit⟩) := by
  cases request with
  | peek | advance | atEnd => rfl
  | readForm =>
      have hend : Form.endOfTokens limit none 0 [] = (.parse
          (if limit < 0 then .nestingTooDeep limit else .endOfInput .expression), none) := by
        rw [Form.endOfTokens]
        · by_cases hlimit : limit < 0 <;> simp [hlimit]
        · simp
      rw [TokenStream.serve, TokenStream.readForm, Form.readFrom, hend]
      rfl
  | readForms =>
      rw [TokenStream.serve, TokenStream.readForms, TokenStream.readFormsFrom_nil]
      rfl

theorem serveAll_end (limit : Int) (requests : List Request) :
    (⟨[], none, limit⟩ : TokenStream).serveAll requests =
      (requests.map (endReply limit), ⟨[], none, limit⟩) := by
  induction requests with
  | nil => rfl
  | cons request requests ih => simp only [TokenStream.serveAll, serve_end, ih, List.map_cons]

variable {s : TokenStream} {c c' : Cursor} {e : LexError}

/-- The error behind the tokens has been raised, and the stream has ended. -/
def RaisedAt (s : TokenStream) (e : LexError) (c : Cursor) : Prop :=
  s.pending = some e ∧ rest s c = ⟨[], none, s.limit⟩

theorem raisedAt_of_look (h : look s c = (.error (.lex e), c')) : RaisedAt s e c' := by
  have hsight := sight_look s c
  rw [h] at hsight
  cases hsight with
  | error _ _ hrest hs => exact ⟨hs, hrest⟩

theorem Lacks.raisedAt {expected : Expected} (h : Lacks s expected c (.lex e) c') :
    RaisedAt s e c' := by
  cases h with
  | raised h => exact raisedAt_of_look h

theorem Reads.raisedAt {d : Nat} {task : Task} {answer : Except ReadError Form}
    (h : Reads s d task c answer c') (hanswer : answer = .error (.lex e)) :
    RaisedAt s e c' := by
  induction h with
  | tooDeep | atom | stray | closed => cases hanswer
  | lacks _ hlacks | unclosed hlacks =>
      cases hanswer
      exact hlacks.raisedAt
  | @quote _ _ _ _ answer _ _ _ _ ih =>
      cases answer with
      | ok form => cases hanswer
      | error e =>
          cases hanswer
          exact ih rfl
  | list _ _ _ _ ih | failed _ _ _ ih | item _ _ _ _ _ ih => exact ih hanswer

theorem ReadsAll.raisedAt {forms : List Form} {error : Option ReadError}
    (h : ReadsAll s c forms error c') (herror : error = some (.lex e)) :
    RaisedAt s e c' := by
  induction h with
  | ended => cases herror
  | raised h =>
      cases herror
      exact raisedAt_of_look h
  | failed _ hform =>
      cases herror
      exact hform.raisedAt rfl
  | form _ _ _ ih => exact ih herror

theorem eq_error_of_error_of {α : Type} {reply : α → Reply} (hreply : ∀ a, (reply a).error = none)
    {answer : Except ReadError α} {error : ReadError}
    (h : (Reply.of reply answer).error = some error) : answer = .error error := by
  cases answer with
  | ok a =>
      rw [Reply.of, hreply] at h
      cases h
  | error e =>
      cases h
      rfl

/-- The error behind the tokens is the only lexical error that a request raises. -/
theorem Serves.raisedAt {request : Request} {reply : Reply}
    (h : Serves s c request reply c') (hreply : reply.error = some (.lex e)) :
    RaisedAt s e c' := by
  have hlook {answer : Except ReadError (Option PlacedToken)} {c' : Cursor}
      (h : look s c = (answer, c')) (hanswer : answer = .error (.lex e)) :
      RaisedAt s e c' :=
    raisedAt_of_look (hanswer ▸ h)
  cases h with
  | peek => exact hlook rfl (eq_error_of_error_of (fun _ ↦ rfl) hreply)
  | advance =>
      have hanswer := eq_error_of_error_of (fun _ ↦ rfl) hreply
      rw [take] at hanswer ⊢
      split at hanswer
      · cases hanswer
      · exact hlook ‹_› hanswer
  | atEnd =>
      have hanswer := eq_error_of_error_of (fun _ ↦ rfl) hreply
      cases hseen : (look s c).1 with
      | ok seen =>
          rw [hseen] at hanswer
          cases hanswer
      | error error =>
          rw [hseen] at hanswer
          cases hanswer
          exact hlook rfl hseen
  | readForm h => exact h.raisedAt (eq_error_of_error_of (fun _ ↦ rfl) hreply)
  | readForms h => exact h.raisedAt hreply

theorem ServesAll.after_lexError {requests : List Request} {reply : Reply}
    {replies before after : List Reply} (h : ServesAll s c requests replies c')
    (hreplies : replies = before ++ reply :: after) (hreply : reply.error = some (.lex e)) :
    s.pending = some e ∧
      after = (requests.drop (before.length + 1)).map (endReply s.limit) := by
  induction h generalizing before with
  | nil => simp at hreplies
  | @cons _ c' _ _ requests _ replies h hrest ih =>
      cases before with
      | nil =>
          obtain ⟨rfl, rfl⟩ := List.cons.inj hreplies
          obtain ⟨hpending, hend⟩ := h.raisedAt hreply
          have hafter := serveAll_rest hrest
          rw [hend, serveAll_end] at hafter
          exact ⟨hpending, (congrArg Prod.fst hafter).symm⟩
      | cons _ before => exact ih (List.cons.inj hreplies).2

end Ends

/-- A stream answers every series of requests as the cursor in its tokens does; after the lexical
error behind them, which it raises once, it is at its end. -/
theorem serveAll_of_cursor (s : TokenStream) (requests : List Request) :
    (∃ replies c, ServesAll s start requests replies c) ∧
      ∀ replies c, ServesAll s start requests replies c →
        s.serveAll requests = (replies, rest s c) ∧
          ∀ before reply after e, replies = before ++ reply :: after →
            reply.error = some (.lex e) → s.pending = some e ∧
              after = (requests.drop (before.length + 1)).map (endReply s.limit) := by
  refine ⟨exists_servesAll s start requests, fun replies c h ↦ ⟨?_, ?_⟩⟩
  · have hrun := serveAll_rest h
    rwa [rest_start] at hrun
  · exact fun _ _ _ _ hreplies hreply ↦ h.after_lexError hreplies hreply

/-- The tokens of an open list in front of a string that is not closed. -/
def openList : TokenStream := ⟨[⟨.leftParen, ⟨1, 1⟩⟩], some ⟨.unterminatedString, ⟨1, 3⟩⟩, 8⟩

theorem serveAll_of_cursor_openList :
    openList.serveAll [.peek, .readForm, .atEnd, .advance] =
      ([.token (some ⟨.leftParen, ⟨1, 1⟩⟩), .failed (.lex ⟨.unterminatedString, ⟨1, 3⟩⟩),
        .ended true, .token none], ⟨[], none, 8⟩) := by
  have hread : Reads openList 0 .form start
      (.error (.lex ⟨.unterminatedString, ⟨1, 3⟩⟩)) ⟨1, true⟩ :=
    .list (by decide) rfl rfl (.unclosed (.raised rfl))
  have hrun := (serveAll_of_cursor openList _).2 _ ⟨1, true⟩
    (.cons .peek (.cons (.readForm hread) (.cons .atEnd (.cons .advance (.nil _)))))
  exact hrun.1

end Cursor

end MiniLisp
