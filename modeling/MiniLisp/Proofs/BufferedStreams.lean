import MiniLisp.Form.Descent
import MiniLisp.Proofs.StreamCursor

/-!
# What a buffered stream shows

The buffer and the iterator behind it are seen from outside as one stream: the token in the buffer
comes first, then what the iterator has still to give. Every request to a buffered stream is answered
as the stream answers that it stands for, and leaves the one that this leaves. So the series of
requests that a cursor answers, and the readers that follow a grammar, are also those of a parser
with one token of look-ahead and a lexer that is never ahead of it.
-/

namespace MiniLisp

namespace Lexed

/-- Takes the first token; when there is none, the error is raised and gone. -/
def next : Lexed → Except LexError (Option PlacedToken) × Lexed
  | ⟨t :: ts, error⟩ => (.ok (some t), ⟨ts, error⟩)
  | ⟨[], some e⟩ => (.error e, ⟨[], none⟩)
  | ⟨[], none⟩ => (.ok none, ⟨[], none⟩)

end Lexed

namespace Lexer

theorem lexFrom_append_done (before done : List PlacedToken) (pos : Position) (cs : List Char) :
    lexFrom (done ++ before) pos cs =
      ⟨before.reverse ++ (lexFrom done pos cs).tokens, (lexFrom done pos cs).error⟩ := by
  induction done, pos, cs using lexFrom.induct with
  | case1 done pos => rw [lexFrom, lexFrom, List.reverse_append]
  | case2 done pos c cs more hgap ih =>
      rw [lexFrom, hgap, lexFrom, hgap]
      exact ih
  | case3 done pos c cs token more hlexeme ih =>
      rw [lexFrom, hlexeme, lexFrom, hlexeme]
      exact ih
  | case4 done pos c cs fault hfault =>
      rw [lexFrom, hfault, lexFrom, hfault, List.reverse_append]

/-- The lexer that goes from token to token splits a text as the one that splits all of it. -/
theorem next_lexFrom (pos : Position) (cs : List Char) :
    (lexFrom [] pos cs).next = ((nextToken pos cs).1,
      lexFrom [] (nextToken pos cs).2.1 (nextToken pos cs).2.2) := by
  induction pos, cs using nextToken.induct with
  | case1 pos => rw [nextToken, lexFrom]; rfl
  | case2 pos c cs more hgap ih =>
      rw [nextToken, lexFrom, hgap]
      exact ih
  | case3 pos c cs token more hlexeme =>
      rw [nextToken, lexFrom, hlexeme]
      exact congrArg Lexed.next (lexFrom_append_done [⟨token, pos⟩] [] _ _)
  | case4 pos c cs fault hfault =>
      rw [nextToken, lexFrom, hfault]
      simp only [lexFrom]
      rfl

end Lexer

namespace TokenSource

/-- What is still to come of the tokens, and the error behind it. -/
def toCome : TokenSource → Lexed
  | .list ts => ⟨ts, none⟩
  | .text pos cs => Lexer.lexFrom [] pos cs

theorem next_toCome (source : TokenSource) :
    source.toCome.next = (source.next.1, source.next.2.toCome) := by
  cases source with
  | list ts => cases ts <;> rfl
  | text pos cs => exact Lexer.next_lexFrom pos cs

end TokenSource

namespace TokenStream

variable {s rest : TokenStream}

theorem peek_of_advance_some {t : PlacedToken} (h : s.advance = (.ok (some t), rest)) :
    s.peek = (.ok (some t), { rest with tokens := t :: rest.tokens }) := by
  rcases s with ⟨_ | ⟨t', ts⟩, _ | x, limit⟩
  · cases h
  · cases h
  · cases h
    rfl
  · cases h
    rfl

theorem peek_of_advance {answer : Except ReadError (Option PlacedToken)}
    (h : s.advance = (answer, rest)) (hanswer : ∀ t, answer ≠ .ok (some t)) :
    s.peek = (answer, rest) := by
  rcases s with ⟨_ | ⟨t, ts⟩, pending, limit⟩
  · exact h
  · cases h
    exact absurd rfl (hanswer t)

theorem readFormsFrom_of_peek_error {e : ReadError} (h : s.peek = (.error e, rest))
    (done : List Form) : s.readFormsFrom done = ⟨done.reverse, some e, rest⟩ := by
  rcases s with ⟨_ | ⟨t, ts⟩, _ | x, limit⟩
  · cases h
  · cases h
    exact readFormsFrom_nil (some x) done
  · cases h
  · cases h

theorem readFormsFrom_of_peek_none (h : s.peek = (.ok none, rest)) (done : List Form) :
    s.readFormsFrom done = ⟨done.reverse, none, rest⟩ := by
  rcases s with ⟨_ | ⟨t, ts⟩, _ | x, limit⟩
  · cases h
    exact readFormsFrom_nil none done
  · cases h
  · cases h
  · cases h

theorem tokens_of_peek_some {t : PlacedToken} (h : s.peek = (.ok (some t), rest)) :
    rest = s ∧ s.tokens ≠ [] := by
  rcases s with ⟨_ | ⟨t', ts⟩, _ | x, limit⟩
  · cases h
  · cases h
  · cases h
    exact ⟨rfl, List.cons_ne_nil _ _⟩
  · cases h
    exact ⟨rfl, List.cons_ne_nil _ _⟩

end TokenStream

namespace BufferedStream

/-- The stream that a buffered one stands for. -/
def contents (s : BufferedStream) : TokenStream :=
  ⟨s.buffer.toList ++ s.source.toCome.tokens, s.source.toCome.error, s.limit⟩

theorem contents_lazy (source : String) (limit : Int) :
    (lazy source limit).contents = .lazy source limit := rfl

theorem contents_eager (source : String) (limit : Int) :
    (eager source limit).map contents = TokenStream.eager source limit := by
  rw [eager, TokenStream.eager]
  cases tokenize source <;> rfl

section Requests

variable {s : BufferedStream}

theorem contents_of_buffer {t : PlacedToken} (h : s.buffer = some t) :
    s.contents.tokens = t :: ({ s with buffer := none } : BufferedStream).contents.tokens := by
  rw [contents, contents, h]
  rfl

/-- Past an empty buffer, the iterator is the stream. -/
theorem advance_contents_of_empty (h : s.buffer = none) :
    s.contents.advance = (s.pull.1, s.pull.2.contents) := by
  have hnext := s.source.next_toCome
  simp only [pull, contents, h, Option.toList_none, List.nil_append]
  rw [TokenStream.advance]
  generalize s.source.toCome = lexed at hnext ⊢
  generalize s.source.next = given at hnext ⊢
  rcases given with ⟨answer, source⟩
  rcases lexed with ⟨_ | ⟨t, ts⟩, _ | e⟩
  all_goals
    obtain ⟨rfl, hrest⟩ := Prod.mk.inj hnext
    simp only [← hrest]
    rfl

theorem contents_advance (s : BufferedStream) :
    s.contents.advance = (s.advance.1, s.advance.2.contents) := by
  cases hbuffer : s.buffer with
  | none => rw [advance, hbuffer, advance_contents_of_empty hbuffer]
  | some t =>
      rw [advance, hbuffer, TokenStream.advance, contents_of_buffer hbuffer]
      rfl

theorem contents_peek (s : BufferedStream) :
    s.contents.peek = (s.peek.1, s.peek.2.contents) := by
  cases hbuffer : s.buffer with
  | some t => rw [peek, hbuffer, TokenStream.peek, contents_of_buffer hbuffer]
  | none =>
      have hadvance := advance_contents_of_empty hbuffer
      rw [peek, hbuffer]
      rcases hpull : s.pull with ⟨e | _ | t, rest⟩
      · rw [hpull] at hadvance
        exact TokenStream.peek_of_advance hadvance (by simp)
      · rw [hpull] at hadvance
        exact TokenStream.peek_of_advance hadvance (by simp)
      · rw [hpull] at hadvance
        obtain ⟨-, hempty⟩ := size_pull hpull
        rw [TokenStream.peek_of_advance_some hadvance, contents, hempty, hbuffer]
        rfl

theorem contents_atEnd (s : BufferedStream) :
    s.contents.atEnd = (s.atEnd.1, s.atEnd.2.contents) := by
  rw [TokenStream.atEnd, contents_peek, atEnd]

end Requests

section Reading

open Cursor

variable {S : TokenStream} {s : BufferedStream} {c : Cursor}

theorem look_of_peek (h : s.contents = rest S c) {answer : Except ReadError (Option PlacedToken)}
    {s' : BufferedStream} (hpeek : s.peek = (answer, s')) :
    ∃ c', look S c = (answer, c') ∧ s'.contents = rest S c' := by
  have hcontents := s.contents_peek
  rw [h, peek_rest, hpeek] at hcontents
  obtain ⟨hanswer, hrest⟩ := Prod.mk.inj hcontents
  exact ⟨(look S c).2, Prod.ext hanswer rfl, hrest.symm⟩

theorem take_of_advance (h : s.contents = rest S c)
    {answer : Except ReadError (Option PlacedToken)} {s' : BufferedStream}
    (hadvance : s.advance = (answer, s')) :
    ∃ c', take S c = (answer, c') ∧ s'.contents = rest S c' := by
  have hcontents := s.contents_advance
  rw [h, advance_rest, hadvance] at hcontents
  obtain ⟨hanswer, hrest⟩ := Prod.mk.inj hcontents
  exact ⟨(take S c).2, Prod.ext hanswer rfl, hrest.symm⟩

/-- The reader has done what recursive descent from the cursor does, and left the stream there. -/
def Follows (S : TokenStream) (d : Nat) (task : Task) (c : Cursor) (a : Answer s) : Prop :=
  ∃ c', Reads S d task c a.result c' ∧ a.rest.contents = rest S c'

/-- Each of the requests of the reader is one to the cursor. -/
theorem follows_descend {d : Nat} (h : s.contents = rest S c)
    (hitems : ∀ {s' : BufferedStream} {c' : Cursor}, s'.size < s.size → s'.contents = rest S c' →
      Follows S (d + 1) (.list []) c' (s'.descendItems (d + 1) []))
    (hinner : ∀ {s' : BufferedStream} {c' : Cursor}, s'.size < s.size → s'.contents = rest S c' →
      Follows S (d + 1) .form c' (s'.descend (d + 1))) :
    Follows S d .form c (s.descend d) := by
  have hlimit : s.limit = S.limit := congrArg TokenStream.limit h
  rw [descend]
  split
  next hdeep =>
    rw [hlimit] at hdeep ⊢
    exact ⟨c, .tooDeep hdeep, h⟩
  next hdeep =>
    rw [hlimit] at hdeep
    have hdepth : (d : Int) ≤ S.limit := Int.not_lt.mp hdeep
    split
    next e rest hnext =>
      obtain ⟨c', htake, hrest⟩ := take_of_advance h hnext
      exact ⟨c', .lacks hdepth (.raised (look_of_take htake (by simp))), hrest⟩
    next rest hnext =>
      obtain ⟨c', htake, hrest⟩ := take_of_advance h hnext
      exact ⟨c', .lacks hdepth (lacks_of_look (look_of_take htake (by simp)) .expression), hrest⟩
    next t rest hnext =>
      obtain ⟨c', htake, hrest⟩ := take_of_advance h hnext
      obtain ⟨hlook, rfl⟩ := look_of_take_some htake
      have hlt := size_advance hnext
      dsimp only
      split
      next ht =>
        obtain ⟨c', hreads, hafter⟩ := hitems hlt hrest
        exact ⟨c', .list hdepth hlook ht hreads, hafter⟩
      next ht =>
        obtain ⟨c', hreads, hafter⟩ := hinner hlt hrest
        exact ⟨c', .quote hdepth hlook ht hreads, hafter⟩
      next ht => exact ⟨_, .stray hdepth hlook ht, hrest⟩
      next x ht => exact ⟨_, .atom hdepth hlook (ht ▸ .number x), hrest⟩
      next text ht => exact ⟨_, .atom hdepth hlook (ht ▸ .string text), hrest⟩
      next name ht => exact ⟨_, .atom hdepth hlook (ht ▸ .symbol name), hrest⟩

theorem follows_descendItems {d : Nat} {items : List Form} (h : s.contents = rest S c)
    (hitem : ∀ {s' : BufferedStream}, s'.size ≤ s.size → s'.contents = rest S c →
      Follows S d .form c (s'.descend d))
    (hitems : ∀ {form : Form} {s' : BufferedStream} {c' : Cursor}, s'.size < s.size →
      s'.contents = rest S c' →
      Follows S d (.list (form :: items).reverse) c' (s'.descendItems d (form :: items))) :
    Follows S d (.list items.reverse) c (s.descendItems d items) := by
  rw [descendItems]
  split
  next e rest hnext =>
    obtain ⟨c', hlook, hrest⟩ := look_of_peek h hnext
    exact ⟨c', .unclosed (.raised hlook), hrest⟩
  next rest hnext =>
    obtain ⟨c', hlook, hrest⟩ := look_of_peek h hnext
    exact ⟨c', .unclosed (lacks_of_look hlook .closingParenthesis), hrest⟩
  next t rest hnext =>
    obtain ⟨c', hlook, hrest⟩ := look_of_peek h hnext
    obtain rfl := eq_of_look_some hlook
    split
    next ht =>
      obtain ⟨c', htake, hafter⟩ := take_of_advance hrest (Prod.eta rest.advance).symm
      obtain ⟨-, rfl⟩ : _ ∧ c.next = c' := by simpa [take, hlook] using htake
      exact ⟨c.next, .closed hlook ht, hafter⟩
    next ht =>
      have hle : rest.size ≤ s.size := (peek_spec hnext).2
      obtain ⟨c', hreads, hafter⟩ := hitem hle hrest
      dsimp only
      split
      next e hresult =>
        rw [hresult] at hreads
        exact ⟨c', .failed hlook ht hreads, hafter⟩
      next form hresult =>
        rw [hresult] at hreads
        have hlt := Nat.lt_of_lt_of_le ((rest.descend d).size_lt form hresult) hle
        obtain ⟨c'', hrest, hlast⟩ := hitems hlt hafter
        rw [List.reverse_cons] at hrest
        exact ⟨c'', .item hlook ht hreads hrest, hlast⟩

/-- Induction on the tokens that are to come: a form takes one before it asks for another form, and
an item takes one before the next item. -/
theorem follows (S : TokenStream) (n : Nat) :
    (∀ {s : BufferedStream} {c : Cursor} {d : Nat}, s.size < n → s.contents = rest S c →
      Follows S d .form c (s.descend d)) ∧
    ∀ {s : BufferedStream} {c : Cursor} {d : Nat} (items : List Form), s.size < n →
      s.contents = rest S c → Follows S d (.list items.reverse) c (s.descendItems d items) := by
  induction n with
  | zero => exact ⟨fun h ↦ absurd h (Nat.not_lt_zero _), fun _ h ↦ absurd h (Nat.not_lt_zero _)⟩
  | succ n ih =>
      have hform : ∀ {s : BufferedStream} {c : Cursor} {d : Nat}, s.size < n + 1 →
          s.contents = rest S c → Follows S d .form c (s.descend d) :=
        fun hsize h ↦ follows_descend h
          (fun hlt ↦ ih.2 [] (Nat.lt_of_lt_of_le hlt (Nat.le_of_lt_succ hsize)))
          (fun hlt ↦ ih.1 (Nat.lt_of_lt_of_le hlt (Nat.le_of_lt_succ hsize)))
      refine ⟨hform, fun items hsize h ↦ follows_descendItems h ?_ ?_⟩
      · exact fun hle ↦ hform (Nat.lt_of_le_of_lt hle hsize)
      · exact fun hlt ↦ ih.2 _ (Nat.lt_of_lt_of_le hlt (Nat.le_of_lt_succ hsize))

theorem contents_readForm (s : BufferedStream) :
    s.contents.readForm = (s.readForm.1, s.readForm.2.contents) := by
  obtain ⟨c', hreads, hrest⟩ :=
    (follows s.contents (s.size + 1)).1 (d := 0) (Nat.lt_succ_self _) (rest_start s.contents).symm
  rw [readForm, ← rest_start s.contents, readForm_rest hreads, hrest]

theorem contents_readOnly (s : BufferedStream) : s.contents.readOnly = s.readOnly := by
  rw [TokenStream.readOnly, contents_readForm, readOnly]
  rcases s.readForm with ⟨answer, rest⟩
  cases answer with
  | error e => rfl
  | ok form =>
      have hpeek : rest.contents.peek.1 = rest.peek.1 := congrArg Prod.fst rest.contents_peek
      dsimp only
      generalize rest.contents.peek.1 = seen at hpeek
      subst hpeek
      rcases rest.peek.1 with e | _ | t <;> rfl

end Reading

section Series

def Batch.contents (b : Batch) : TokenStream.Batch := ⟨b.forms, b.error, b.rest.contents⟩

theorem contents_readFormsFrom (done : List Form) (s : BufferedStream) :
    s.contents.readFormsFrom done = (s.readFormsFrom done).contents := by
  induction hsize : s.size using Nat.strongRecOn generalizing done s with
  | ind n ih =>
      subst hsize
      have hcontents := s.contents_peek
      rw [readFormsFrom]
      split
      next e rest hpeek =>
        rw [hpeek] at hcontents
        rw [TokenStream.readFormsFrom_of_peek_error hcontents]
        rfl
      next rest hpeek =>
        rw [hpeek] at hcontents
        rw [TokenStream.readFormsFrom_of_peek_none hcontents]
        rfl
      next t rest hpeek =>
        rw [hpeek] at hcontents
        obtain ⟨hrest, htokens⟩ := TokenStream.tokens_of_peek_some hcontents
        have hform := rest.contents_readForm
        rw [hrest] at hform
        dsimp only
        split
        next e hanswer =>
          rw [readForm, hanswer] at hform
          rw [TokenStream.readFormsFrom_of_readForm_error htokens hform]
          rfl
        next form hanswer =>
          have hlt := Nat.lt_of_lt_of_le ((rest.descend 0).size_lt form hanswer) (peek_spec hpeek).2
          rw [readForm, hanswer] at hform
          rw [TokenStream.readFormsFrom_of_readForm_ok hform]
          exact ih _ hlt _ _ rfl

theorem contents_readForms (s : BufferedStream) : s.contents.readForms = s.readForms.contents :=
  contents_readFormsFrom [] s

def serve (s : BufferedStream) : Request → Reply × BufferedStream
  | .peek => (.of .token s.peek.1, s.peek.2)
  | .advance => (.of .token s.advance.1, s.advance.2)
  | .atEnd => (.of .ended s.atEnd.1, s.atEnd.2)
  | .readForm => (.of .form s.readForm.1, s.readForm.2)
  | .readForms => (.forms s.readForms.forms s.readForms.error, s.readForms.rest)

theorem contents_serve (s : BufferedStream) (request : Request) :
    s.contents.serve request = ((s.serve request).1, (s.serve request).2.contents) := by
  cases request with
  | peek => rw [TokenStream.serve, contents_peek, serve]
  | advance => rw [TokenStream.serve, contents_advance, serve]
  | atEnd => rw [TokenStream.serve, contents_atEnd, serve]
  | readForm => rw [TokenStream.serve, contents_readForm, serve]
  | readForms => rw [TokenStream.serve, contents_readForms, serve, Batch.contents]

/-- The replies to the requests, one after the other, whether or not they fail. -/
def serveAll (s : BufferedStream) : List Request → List Reply × BufferedStream
  | [] => ([], s)
  | request :: requests =>
    let (reply, rest) := s.serve request
    let (replies, last) := rest.serveAll requests
    (reply :: replies, last)

/-- Whatever is asked of a buffered stream, it answers as the stream that it stands for, and stands
in the end for what that stream has become. -/
theorem contents_serveAll (s : BufferedStream) (requests : List Request) :
    s.contents.serveAll requests = ((s.serveAll requests).1, (s.serveAll requests).2.contents) := by
  induction requests generalizing s with
  | nil => rfl
  | cons request requests ih => simp only [TokenStream.serveAll, contents_serve, ih, serveAll]

/-- A text that is split as far as it is read, or ahead of reading, answers every series of requests
through the buffer as the stream of its tokens does. -/
theorem serveAll_of_text (source : String) (limit : Int) (requests : List Request) :
    ((lazy source limit).serveAll requests).1 =
        ((TokenStream.lazy source limit).serveAll requests).1 ∧
      (eager source limit).map (fun s ↦ (s.serveAll requests).1) =
        (TokenStream.eager source limit).map fun s ↦ (s.serveAll requests).1 := by
  constructor
  · rw [← contents_lazy, contents_serveAll]
  · rw [← contents_eager]
    cases eager source limit with
    | error e => rfl
    | ok s => exact congrArg Except.ok (congrArg Prod.fst (s.contents_serveAll requests)).symm

end Series

end BufferedStream

end MiniLisp
