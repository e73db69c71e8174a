import MiniLisp.Token.Stream

/-!
# Buffered streams

A parser takes its tokens from an iterator: from a list that was made ahead, or from the lexer, which
splits the text as far as tokens are asked for. Between them stands a buffer for the one token that
has been looked at and not yet been taken.
-/

namespace MiniLisp

namespace Lexer

/-- The next token of the text `cs` that begins at `pos`, and where the text goes on behind it. When
the lexer has failed, it is at its end. -/
def nextToken (pos : Position) :
    List Char → Except LexError (Option PlacedToken) × Position × List Char
  | [] => (.ok none, pos, [])
  | c :: cs =>
    match piece c cs with
    | .gap more => nextToken (pos.advance (c :: cs.take more)) (cs.drop more)
    | .lexeme token more =>
      (.ok (some ⟨token, pos⟩), pos.advance (c :: cs.take more), cs.drop more)
    | .fault fault => (.error ⟨fault, pos⟩, pos, [])
termination_by cs => cs.length
decreasing_by simp only [List.length_drop, List.length_cons]; omega

theorem length_nextToken {pos pos' : Position} {cs rest : List Char} {t : PlacedToken}
    (h : nextToken pos cs = (.ok (some t), pos', rest)) : rest.length < cs.length := by
  induction pos, cs using nextToken.induct with
  | case1 pos => simp [nextToken] at h
  | case2 pos c cs more hgap ih =>
      rw [nextToken, hgap] at h
      have hlt := ih h
      rw [List.length_drop] at hlt
      rw [List.length_cons]
      omega
  | case3 pos c cs token more hlexeme =>
      rw [nextToken, hlexeme] at h
      obtain ⟨-, -, rfl⟩ : _ ∧ _ ∧ cs.drop more = rest := by simpa using h
      rw [List.length_drop, List.length_cons]
      omega
  | case4 pos c cs fault hfault =>
      rw [nextToken, hfault] at h
      simp at h

end Lexer

/-- An iterator of tokens: a list of them, or a text with the position at which it begins. -/
inductive TokenSource where
  | list (tokens : List PlacedToken)
  | text (pos : Position) (chars : List Char)

namespace TokenSource

def next : TokenSource → Except LexError (Option PlacedToken) × TokenSource
  | .list [] => (.ok none, .list [])
  | .list (t :: ts) => (.ok (some t), .list ts)
  | .text pos cs =>
    let (answer, pos, rest) := Lexer.nextToken pos cs
    (answer, .text pos rest)

/-- No more tokens are to come than this. -/
def size : TokenSource → Nat
  | .list ts => ts.length
  | .text _ cs => cs.length

theorem size_next {source rest : TokenSource} {t : PlacedToken}
    (h : source.next = (.ok (some t), rest)) : rest.size < source.size := by
  cases source with
  | list ts =>
      cases ts with
      | nil => simp [next] at h
      | cons t' ts =>
          obtain ⟨-, rfl⟩ := Prod.mk.inj h
          exact Nat.lt_succ_self _
  | text pos cs =>
      rw [next] at h
      rcases hnext : Lexer.nextToken pos cs with ⟨answer, pos', chars⟩
      rw [hnext] at h
      obtain ⟨rfl, rfl⟩ := Prod.mk.inj h
      exact Lexer.length_nextToken hnext

end TokenSource

structure BufferedStream where
  source : TokenSource
  buffer : Option PlacedToken
  limit : Int

namespace BufferedStream

def lazy (source : String) (limit : Int) : BufferedStream :=
  ⟨.text .start source.toList, none, limit⟩

def eager (source : String) (limit : Int) : Except LexError BufferedStream :=
  (tokenize source).map fun tokens ↦ ⟨.list tokens, none, limit⟩

/-- Takes the next token of the iterator, past the buffer. -/
def pull (s : BufferedStream) : Except ReadError (Option PlacedToken) × BufferedStream :=
  match s.source.next with
  | (.ok token, source) => (.ok token, { s with source := source })
  | (.error e, source) => (.error (.lex e), { s with source := source })

def peek (s : BufferedStream) : Except ReadError (Option PlacedToken) × BufferedStream :=
  match s.buffer with
  | some t => (.ok (some t), s)
  | none =>
    match s.pull with
    | (.ok (some t), rest) => (.ok (some t), { rest with buffer := some t })
    | (answer, rest) => (answer, rest)

def advance (s : BufferedStream) : Except ReadError (Option PlacedToken) × BufferedStream :=
  match s.buffer with
  | some t => (.ok (some t), { s with buffer := none })
  | none => s.pull

def atEnd (s : BufferedStream) : Except ReadError Bool × BufferedStream :=
  (s.peek.1.map Option.isNone, s.peek.2)

/-- No more tokens are to come than this, the one in the buffer included. -/
def size (s : BufferedStream) : Nat := s.source.size + s.buffer.toList.length

variable {s rest : BufferedStream} {t : PlacedToken}

theorem size_pull (h : s.pull = (.ok (some t), rest)) :
    rest.source.size < s.source.size ∧ rest.buffer = s.buffer := by
  rcases hnext : s.source.next with ⟨e | token, source⟩
  · rw [pull, hnext] at h
    cases h
  · rw [pull, hnext] at h
    cases h
    exact ⟨TokenSource.size_next hnext, rfl⟩

theorem size_advance (h : s.advance = (.ok (some t), rest)) : rest.size < s.size := by
  unfold advance at h
  split at h
  next t' hbuffer =>
    obtain ⟨-, rfl⟩ := Prod.mk.inj h
    rw [size, size, hbuffer]
    exact Nat.lt_succ_self _
  next hbuffer =>
    obtain ⟨hlt, hsame⟩ := size_pull h
    rw [size, size, hsame]
    omega

/-- A token that was looked at is in the buffer. -/
theorem peek_spec (h : s.peek = (.ok (some t), rest)) :
    rest.buffer = some t ∧ rest.size ≤ s.size := by
  unfold peek at h
  split at h
  next t' hbuffer =>
    obtain ⟨ht, rfl⟩ := Prod.mk.inj h
    obtain rfl : t' = t := by simpa using ht
    exact ⟨hbuffer, Nat.le_refl _⟩
  next hbuffer =>
    split at h
    next t' rest' hpull =>
      obtain ⟨ht, rfl⟩ := Prod.mk.inj h
      obtain rfl : t' = t := by simpa using ht
      obtain ⟨hlt, -⟩ := size_pull hpull
      refine ⟨rfl, ?_⟩
      rw [size, size, hbuffer]
      exact hlt
    next answer rest' hnot hpull =>
      obtain ⟨rfl, rfl⟩ := Prod.mk.inj h
      exact absurd rfl (hnot t)

theorem size_advance_of_peek (h : s.peek = (.ok (some t), rest)) :
    rest.advance.2.size < s.size := by
  obtain ⟨hbuffer, hle⟩ := peek_spec h
  have hadvance : rest.advance = (.ok (some t), { rest with buffer := none }) := by
    rw [advance, hbuffer]
  have hlt := size_advance hadvance
  rw [hadvance]
  exact Nat.lt_of_lt_of_le hlt hle

end BufferedStream

end MiniLisp
