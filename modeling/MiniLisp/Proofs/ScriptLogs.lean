import Mathlib.Algebra.Ring.Nat
import Mathlib.Logic.Relation
import MiniLisp.Proofs.CompiledText
import MiniLisp.Proofs.ScriptNames

/-!
# The calls of `log` in a script

A form calls `log` once for each of its evaluated forms that `log` heads. Its script has a call of
`console.log` for each of these, with one exception: a comparison is written as the comparisons of
its neighbours, so that the script of an operand between two others comes twice, and a comparison of
one operand drops it. The calls are counted as they stand in the text, string literals apart.
-/

namespace MiniLisp

open Script

namespace Script

def Operator.compares : Operator → Bool
  | .add | .sub | .mul | .div => false
  | .less | .greater | .lessEq | .greaterEq | .equals => true

/-- The counts of the comparisons of neighbours, from the counts of all operands. -/
def neighbours : List Nat → List Nat
  | a :: b :: rest => (a + b) :: neighbours (b :: rest)
  | _ => []

def chained (counts : List Nat) : Nat := (neighbours counts).sum

/-- The operands that the script of a comparison does not have exactly once. -/
def misplaced {α : Type} : List α → List α
  | [operand] => [operand]
  | operands => operands.tail.dropLast

section Counts

theorem chained_cons {counts : List Nat} (hne : counts ≠ [])
    (h : ∀ n ∈ counts.dropLast, n = 0) (a : Nat) :
    chained (a :: counts) = (a :: counts).sum := by
  induction counts generalizing a with
  | nil => exact absurd rfl hne
  | cons b rest ih =>
      cases rest with
      | nil => simp [chained, neighbours]
      | cons c rest =>
          have hb : b = 0 := h b (by simp)
          have hrest := ih (List.cons_ne_nil c rest) (fun n hn ↦ h n (by simp [hn])) b
          rw [chained] at hrest ⊢
          rw [neighbours, List.sum_cons, hrest, hb]
          simp

theorem chained_of_misplaced {counts : List Nat} (h : ∀ n ∈ misplaced counts, n = 0) :
    chained counts = counts.sum := by
  rcases counts with _ | ⟨a, _ | ⟨b, rest⟩⟩
  · rfl
  · simp [chained, neighbours, h a List.mem_cons_self]
  · exact chained_cons (List.cons_ne_nil b rest) h a

theorem misplaced_map {α β : Type} (f : α → β) (operands : List α) :
    misplaced (operands.map f) = (misplaced operands).map f := by
  rcases operands with _ | ⟨a, _ | ⟨b, rest⟩⟩
  · rfl
  · rfl
  · simp [misplaced, List.map_dropLast]

end Counts

/-- Adds up the counts of the operands of a construct; the parameters of a function and the target
of a definition are not evaluated. -/
def Construct.count (compared : List Nat → Nat) (counts : List Nat) : Construct → Nat
  | .quote => 0
  | .lambda | .define => counts.tail.sum
  | .log => counts.sum + 1
  | .operator op => if op.compares then compared counts else counts.sum
  | .list | .conditional | .nth | .not => counts.sum

end Script

namespace Form

mutual

/-- Counts the evaluated forms that `log` heads; a comparison counts as told by the counts of its
operands. -/
def tally (compared : List Nat → Nat) : Form → Nat
  | .list (.symbol name :: operands) =>
    match Construct.ofName? name with
    | some c => c.count compared (tallies compared operands)
    | none => (tallies compared operands).sum
  | .list items => (tallies compared items).sum
  | _ => 0

def tallies (compared : List Nat → Nat) : List Form → List Nat
  | [] => []
  | form :: forms => form.tally compared :: tallies compared forms

end

/-- How many of its evaluated forms `log` heads. -/
def logs : Form → Nat := tally List.sum

/-- How many calls of `console.log` its script has. -/
def placed : Form → Nat := tally chained

theorem tallies_eq_map (compared : List Nat → Nat) (forms : List Form) :
    tallies compared forms = forms.map (tally compared) := by
  induction forms with
  | nil => rfl
  | cons form forms ih => rw [tallies, ih, List.map_cons]

section Counts

variable {compared : List Nat → Nat} {name : String} {operands : List Form}

theorem tally_construct {c : Construct} (hc : Construct.ofName? name = some c) :
    (list (.symbol name :: operands)).tally compared =
      c.count compared (operands.map (tally compared)) := by
  rw [tally, hc, tallies_eq_map]

theorem tally_call (hc : Construct.ofName? name = none) :
    (list (.symbol name :: operands)).tally compared = (operands.map (tally compared)).sum := by
  rw [tally, hc, tallies_eq_map]

theorem tally_list {items : List Form} (h : ∀ name operands, items ≠ .symbol name :: operands) :
    (list items).tally compared = (items.map (tally compared)).sum := by
  rw [tally, tallies_eq_map]
  exact fun name operands ↦ h name operands

end Counts

/-- The items of a form that are evaluated, apart from a name at its head. -/
def evaluated : Form → List Form
  | .list (.symbol name :: operands) =>
    match Construct.ofName? name with
    | some .quote => []
    | some .lambda | some .define => operands.tail
    | _ => operands
  | .list items => items
  | _ => []

/-- The form is a comparison of these operands. -/
def Compares (form : Form) (operands : List Form) : Prop :=
  ∃ name op, form = .list (.symbol name :: operands) ∧
    Construct.ofName? name = some (.operator op) ∧ op.compares = true

/-- No comparison among the evaluated forms has a call of `log` in an operand that is misplaced. -/
def ComparesOnce (form : Form) : Prop :=
  ∀ item operands, Relation.ReflTransGen (fun part whole ↦ part ∈ whole.evaluated) item form →
    item.Compares operands → ∀ operand ∈ misplaced operands, operand.logs = 0

section Evaluated

theorem mem_of_mem_evaluated {item : Form} {items : List Form}
    (h : item ∈ (list items).evaluated) : item ∈ items := by
  unfold evaluated at h
  split at h
  next name operands heq =>
    cases heq
    apply List.mem_cons_of_mem
    split at h
    · cases h
    · exact List.mem_of_mem_tail h
    · exact List.mem_of_mem_tail h
    · exact h
  next _ heq =>
    cases heq
    exact h
  next hlist => exact absurd rfl (hlist items)

theorem ComparesOnce.of_mem {form item : Form} (h : form.ComparesOnce)
    (hitem : item ∈ form.evaluated) : item.ComparesOnce :=
  fun part operands hpart ↦ h part operands (hpart.tail hitem)

theorem comparesOnce_of {form : Form}
    (h : ∀ operands, form.Compares operands → ∀ operand ∈ misplaced operands, operand.logs = 0)
    (hitems : ∀ item ∈ form.evaluated, item.ComparesOnce) : form.ComparesOnce := by
  intro item operands hitem
  cases hitem with
  | refl => exact h operands
  | tail hpart hmem => exact hitems _ hmem item operands hpart

theorem comparesOnce_of_not_list {form : Form} (h : ∀ items, form ≠ .list items) :
    form.ComparesOnce := by
  refine comparesOnce_of (fun _ ⟨_, _, heq, _⟩ ↦ absurd heq (h _)) ?_
  cases form with
  | list items => exact absurd rfl (h items)
  | number | string | symbol | boolean | nil | quote => exact List.forall_mem_nil _

/-- The count of a construct depends only on those of its evaluated operands. -/
theorem count_evaluated {name : String} {operands : List Form} {c : Construct}
    (hc : Construct.ofName? name = some c) (h : (list (.symbol name :: operands)).ComparesOnce)
    (heq : (list (.symbol name :: operands)).evaluated.map placed =
      (list (.symbol name :: operands)).evaluated.map logs) :
    c.count chained (operands.map placed) =
      c.count List.sum (operands.map logs) := by
  simp only [evaluated, hc] at heq
  cases c with
  | quote => rfl
  | lambda | define =>
      rw [Construct.count, Construct.count, ← List.map_tail, ← List.map_tail, heq]
  | log | list | conditional | nth | not => rw [Construct.count, Construct.count, heq]
  | operator op =>
      rw [Construct.count, Construct.count, heq]
      split
      next hcompares =>
        apply chained_of_misplaced
        rw [misplaced_map]
        exact List.forall_mem_map.mpr (h _ operands .refl ⟨name, op, rfl, hc, hcompares⟩)
      next => rfl

theorem placed_eq_logs {form : Form} (h : form.ComparesOnce) : form.placed = form.logs := by
  induction form using Form.induct with
  | number | string | symbol | boolean | nil | quote => rfl
  | list items ih =>
      have heq : (list items).evaluated.map placed = (list items).evaluated.map logs :=
        List.map_congr_left fun item hitem ↦
          ih item (mem_of_mem_evaluated hitem) (h.of_mem hitem)
      by_cases hname : ∃ name operands, items = .symbol name :: operands
      · obtain ⟨name, operands, rfl⟩ := hname
        cases hc : Construct.ofName? name with
        | none =>
            simp only [evaluated, hc] at heq
            rw [placed, logs, tally_call hc, tally_call hc]
            exact congrArg List.sum heq
        | some c =>
            rw [placed, logs, tally_construct hc, tally_construct hc]
            exact count_evaluated hc h heq
      · have hitems : ∀ name operands, items ≠ .symbol name :: operands :=
          fun name operands heq ↦ hname ⟨name, operands, heq⟩
        rw [evaluated] at heq
        · rw [placed, logs, tally_list hitems, tally_list hitems]
          exact congrArg List.sum heq
        · exact fun name operands ↦ hitems name operands

end Evaluated

end Form

namespace Script

def Mode.behind (c : Char) : Mode → Mode
  | .code => if c = '\x22' then .literal else .code
  | .literal => if c = '\x22' then .code else if c = '\x5c' then .escape else .literal
  | .escape => .literal

def logCall : List Char := "console.log(".toList

/-- Counts the places in code at which a call of `console.log` begins. -/
def logCallsFrom : Mode → List Char → Nat
  | _, [] => 0
  | .code, c :: cs =>
    logCallsFrom (Mode.code.behind c) cs + if logCall.isPrefixOf (c :: cs) then 1 else 0
  | mode, c :: cs => logCallsFrom (mode.behind c) cs

def logCalls (script : String) : Nat := logCallsFrom .code script.toList

/-- The text does not go on with what is left of a call that begins in front of it. A name can end
like a beginning of `console`, but no piece of a script ends between the point and the bracket. -/
def Apart (cs : List Char) : Prop :=
  ∀ begun, begun <:+ "onsole".toList → ¬ begun ++ ".log(".toList <+: cs

/-- In front of a text that stands apart, the piece has that many calls in it. -/
structure Places (piece : List Char) (n : Nat) : Prop where
  apart : ∀ {rest}, Apart rest → Apart (piece ++ rest)
  count : ∀ {rest}, Apart rest → logCallsFrom .code (piece ++ rest) = logCallsFrom .code rest + n

/-- The character neither opens a string literal nor is a point. -/
def Idle (c : Char) : Prop := c ∉ ['\x22', '.']

instance (c : Char) : Decidable (Idle c) := inferInstanceAs (Decidable (_ ∉ _))

section Pieces

variable {c : Char} {rest piece piece' : List Char} {m n : Nat}

theorem apart_nil : Apart [] := by
  intro begun _ h
  simp at h

/-- A character that is none of these cannot go on with a call. -/
theorem apart_cons_of_not_mem (hc : c ∉ "onsole.".toList) : Apart (c :: rest) := by
  intro begun hbegun hprefix
  cases begun with
  | nil => exact hc ((List.cons_prefix_cons.mp hprefix).1 ▸ by decide)
  | cons d begun =>
      obtain ⟨rfl, -⟩ := List.cons_prefix_cons.mp hprefix
      have hd : d ∈ "onsole".toList := hbegun.subset List.mem_cons_self
      exact hc (List.mem_append_left ['.'] hd)

theorem Apart.cons (hc : c ≠ '.') (h : Apart rest) : Apart (c :: rest) := by
  intro begun hbegun hprefix
  cases begun with
  | nil => exact hc (List.cons_prefix_cons.mp hprefix).1.symm
  | cons d begun =>
      exact h begun ((List.suffix_cons d begun).trans hbegun) (List.cons_prefix_cons.mp hprefix).2

/-- A point in front of another letter than the first of `log` belongs to a number. -/
theorem apart_point (hc : c ≠ 'l') : Apart ('.' :: c :: rest) := by
  intro begun hbegun hprefix
  cases begun with
  | nil => exact hc (List.cons_prefix_cons.mp (List.cons_prefix_cons.mp hprefix).2).1.symm
  | cons d begun =>
      obtain ⟨rfl, -⟩ := List.cons_prefix_cons.mp hprefix
      have hpoint : '.' ∈ "onsole".toList := hbegun.subset List.mem_cons_self
      exact absurd hpoint (by decide)

/-- No call begins at a character in front of a text that stands apart. -/
theorem logCallsFrom_cons (hquote : c ≠ '\x22') (h : Apart rest) :
    logCallsFrom .code (c :: rest) = logCallsFrom .code rest := by
  have hnot : logCall.isPrefixOf (c :: rest) = false := by
    rw [Bool.eq_false_iff, ne_eq, List.isPrefixOf_iff_prefix]
    intro hprefix
    exact h _ List.suffix_rfl (List.cons_prefix_cons.mp hprefix).2
  rw [logCallsFrom, hnot, Mode.behind, if_neg hquote]
  rfl

theorem places_nil : Places [] 0 := ⟨id, fun _ ↦ rfl⟩

theorem Places.append (h : Places piece m) (h' : Places piece' n) :
    Places (piece ++ piece') (m + n) where
  apart hrest := by
    rw [List.append_assoc]
    exact h.apart (h'.apart hrest)
  count hrest := by
    rw [List.append_assoc, h.count (h'.apart hrest), h'.count hrest]
    omega

theorem Places.cons (h : Places piece n) (hc : Idle c) : Places (c :: piece) n := by
  simp only [Idle, List.mem_cons, List.not_mem_nil, or_false, not_or] at hc
  exact ⟨fun hrest ↦ (h.apart hrest).cons hc.2, fun hrest ↦
    (logCallsFrom_cons hc.1 (h.apart hrest)).trans (h.count hrest)⟩

theorem places_of_idle (h : ∀ c ∈ piece, Idle c) : Places piece 0 := by
  induction piece with
  | nil => exact places_nil
  | cons c piece ih =>
      obtain ⟨hc, hpiece⟩ := List.forall_mem_cons.mp h
      exact (ih hpiece).cons hc

theorem places_logCall : Places logCall 1 :=
  ⟨fun _ ↦ apart_cons_of_not_mem (by decide), fun _ ↦ rfl⟩

end Pieces

section Atoms

theorem idle_of_isNameChar {c : Char} (h : isNameChar c = true) : Idle c := by
  have hdelimiters : ['\x22', '.'].all (!isNameChar ·) = true := by decide
  exact fun hmem ↦ by simpa [h] using List.all_eq_true.mp hdelimiters c hmem

theorem idle_of_isDigit {c : Char} (h : Lexer.isDigit c = true) : Idle c :=
  idle_of_isNameChar (Bool.or_eq_true_iff.mpr (.inr h))

theorem places_fraction {c : Char} {cs : List Char} (h : ∀ d ∈ c :: cs, Lexer.isDigit d = true) :
    Places ('.' :: c :: cs) 0 := by
  have hdigits : Places (c :: cs) 0 := places_of_idle fun d hd ↦ idle_of_isDigit (h d hd)
  have hc : c ≠ 'l' := by
    rintro rfl
    exact absurd (h 'l' List.mem_cons_self) (by decide)
  exact ⟨fun _ ↦ apart_point hc, fun hrest ↦
    (logCallsFrom_cons (by decide) (hdigits.apart hrest)).trans (hdigits.count hrest)⟩

theorem places_numeral {n : Lexer.Numeral} (h : n.Digital) : Places n.text 0 := by
  have hwhole : Places n.whole 0 :=
    places_of_idle fun c hc ↦ idle_of_isDigit (h.isDigit_whole c hc)
  have hdigits := h.isDigit_fraction
  unfold Lexer.Numeral.text
  cases hfraction : n.fraction with
  | nil => exact hwhole
  | cons c cs =>
      rw [hfraction] at hdigits
      exact hwhole.append (places_fraction hdigits)

theorem places_text {text : String} (h : text.toList.all (fun c ↦ decide (Idle c)) = true) :
    Places text.toList 0 :=
  places_of_idle (forall_mem_of_all h)

theorem places_number (x : Double) : Places x.render.toList 0 := by
  cases hx : x.isFinite with
  | true =>
      obtain ⟨negative, n, hdigital, -, htext, -⟩ := Double.render_spells hx
      rw [htext]
      split
      · exact (places_numeral hdigital).cons (by decide)
      · exact places_numeral hdigital
  | false =>
      have hidle : ∀ text ∈ ["NaN", "-Infinity", "Infinity"],
          text.toList.all (fun c ↦ decide (Idle c)) = true := by decide
      exact places_text (hidle _ (render_of_not_isFinite hx))

theorem places_identifier {name ident : String} (h : identifier name = .ok ident) :
    Places ident.toList 0 := by
  obtain ⟨c, cs, hident, hc, hcs⟩ := nameFormed_of_identifier h
  rw [hident]
  refine places_of_idle (List.forall_mem_cons.mpr ⟨?_, fun d hd ↦ ?_⟩)
  · exact idle_of_isNameChar (isNameChar_iff.mpr (.inl hc))
  · exact idle_of_isNameChar (isNameChar_iff.mpr (hcs d hd))

/-- The piece of a string literal is skipped without leaving the literal. -/
def Skipped (cs : List Char) : Prop :=
  ∀ rest, logCallsFrom .literal (cs ++ rest) = logCallsFrom .literal rest

theorem skipped_of_literal {cs : List Char} (h : ∀ c ∈ cs, Literal c) : Skipped cs := by
  intro rest
  induction cs with
  | nil => rfl
  | cons c cs ih =>
      obtain ⟨hc, hcs⟩ := List.forall_mem_cons.mp h
      have hmode : Mode.behind c .literal = .literal := by
        have hends := hc.2
        simp only [List.mem_cons, List.not_mem_nil, or_false, not_or] at hends
        rw [Mode.behind, if_neg hends.1, if_neg hends.2]
      rw [List.cons_append, logCallsFrom, hmode, ih hcs]
      exact nofun

theorem Skipped.append {cs ds : List Char} (h : Skipped cs) (h' : Skipped ds) :
    Skipped (cs ++ ds) := by
  intro rest
  rw [List.append_assoc, h, h']

theorem skipped_flatMap {α : Type} {f : α → List Char} (h : ∀ a, Skipped (f a)) (as : List α) :
    Skipped (as.flatMap f) := by
  induction as with
  | nil => exact fun _ ↦ rfl
  | cons a as ih => exact (h a).append ih

theorem skipped_literalChar (c : Char) : Skipped (literalChar c) := by
  -- A backslash takes the next character with it, and the digits behind it are plain.
  have hescape (d : Char) : Skipped ['\x5c', d] := fun _ ↦ rfl
  unfold literalChar
  split_ifs with hmark hnewline hreturn htab hbackspace hfeed hprintable
  · exact hescape c
  · exact hescape 'n'
  · exact hescape 'r'
  · exact hescape 't'
  · exact hescape 'b'
  · exact hescape 'f'
  · apply skipped_of_literal
    refine List.forall_mem_singleton.mpr ⟨⟨hprintable.1, Nat.le_of_lt_succ hprintable.2⟩, ?_⟩
    simpa using hmark
  · refine skipped_flatMap (fun unit ↦ ?_) _
    exact (hescape 'u').append (skipped_of_literal (literal_hexDigits 4 unit))

theorem places_stringLiteral (s : String) : Places (stringLiteral s).toList 0 where
  apart _ := by
    rw [stringLiteral, String.toList_ofList]
    exact apart_cons_of_not_mem (by decide)
  count {rest} _ := by
    have hbody : Skipped (s.toList.flatMap literalChar) := skipped_flatMap skipped_literalChar _
    rw [stringLiteral, String.toList_ofList, List.cons_append, List.append_assoc]
    exact hbody ('\x22' :: rest)

end Atoms

section Texts

variable {a b text separator : String} {m n : Nat} {texts : List String} {counts : List Nat}

theorem Places.appendText (ha : Places a.toList m) (hb : Places b.toList n) :
    Places (a ++ b).toList (m + n) := by
  rw [String.toList_append]
  exact ha.append hb

theorem places_enclosed {opening closing : String} (hopening : Places opening.toList 0)
    (hclosing : Places closing.toList 0) (h : Places text.toList n) :
    Places (opening ++ text ++ closing).toList n := by
  simpa using (hopening.appendText h).appendText hclosing

/-- Each text has its number of calls. -/
def PlacesAll (texts : List String) (counts : List Nat) : Prop :=
  List.Forall₂ (fun text n ↦ Places text.toList n) texts counts

theorem places_intercalate (hseparator : Places separator.toList 0) (h : PlacesAll texts counts) :
    Places (separator.intercalate texts).toList counts.sum := by
  induction h with
  | nil => exact places_text rfl
  | @cons text n texts counts htext hrest ih =>
      cases hrest with
      | nil => simpa using htext
      | cons =>
          rw [String.intercalate_cons_cons, List.sum_cons]
          exact (htext.appendText hseparator).appendText ih

theorem places_commas (h : PlacesAll texts counts) : Places (commas texts).toList counts.sum :=
  places_intercalate (places_text (by decide)) h

theorem places_commas_of_forall (h : ∀ text ∈ texts, Places text.toList 0) :
    Places (commas texts).toList 0 := by
  have hall : PlacesAll texts (texts.map fun _ ↦ 0) :=
    List.forall₂_map_right_iff.mpr (List.forall₂_same.mpr h)
  simpa using places_commas hall

theorem places_array (h : Places (commas texts).toList n) : Places (array texts).toList n :=
  places_enclosed (places_text (by decide)) (places_text (by decide)) h

theorem places_call {fn : String} (hfn : Places (fn ++ "(").toList m) (h : PlacesAll texts counts) :
    Places (call fn texts).toList (m + counts.sum) :=
  (hfn.appendText (places_commas h)).appendText (places_text (by decide))

theorem places_function {names body : String} (hnames : Places names.toList 0)
    (hbody : Places body.toList n) : Places ("((" ++ names ++ ") => " ++ body ++ ")").toList n :=
  places_enclosed (places_enclosed (places_text (by decide)) (places_text (by decide)) hnames)
    (places_text (by decide)) hbody

theorem places_assignment {name value : String} (hname : Places name.toList 0)
    (hvalue : Places value.toList n) : Places ("(" ++ name ++ " = " ++ value ++ ")").toList n :=
  places_enclosed (places_enclosed (places_text (by decide)) (places_text (by decide)) hname)
    (places_text (by decide)) hvalue

theorem places_choice {test yes no : String} {k : Nat} (htest : Places test.toList k)
    (hyes : Places yes.toList m) (hno : Places no.toList n) :
    Places ("(" ++ test ++ " ? " ++ yes ++ " : " ++ no ++ ")").toList (k + (m + n)) := by
  have hmark : Places " ? ".toList 0 := places_text (by decide)
  have hcolon : Places " : ".toList 0 := places_text (by decide)
  have htested : Places ("(" ++ test ++ " ? ").toList k :=
    places_enclosed (places_text (by decide)) hmark htest
  have hall := ((htested.appendText hyes).appendText hcolon).appendText hno
  rw [← Nat.add_assoc]
  exact hall.appendText (places_text (by decide))

theorem places_item {list index : String} (hlist : Places list.toList m)
    (hindex : Places index.toList n) : Places (list ++ "[" ++ index ++ "]").toList (m + n) := by
  have hopen : Places "[".toList 0 := places_text (by decide)
  have hclose : Places "]".toList 0 := places_text (by decide)
  exact ((hlist.appendText hopen).appendText hindex).appendText hclose

theorem places_data (form : Form) : Places (data form).toList 0 := by
  induction form using Form.induct with
  | number x => exact places_number x
  | string s => exact places_stringLiteral s
  | symbol name => exact places_stringLiteral name
  | boolean b => exact places_text (by cases b <;> decide)
  | nil => exact places_text (by decide)
  | quote inner ih =>
      refine places_array (places_commas_of_forall ?_)
      simp only [List.mem_cons, List.not_mem_nil, or_false, forall_eq_or_imp, forall_eq]
      exact ⟨places_stringLiteral "quote", ih⟩
  | list items ih =>
      rw [data, dataItems_eq_map]
      exact places_array (places_commas_of_forall (List.forall_mem_map.mpr ih))

end Texts

section Operators

variable {args : List String} {counts : List Nat} (op : Operator)

/-- The operator between two operands. -/
theorem places_between : Places (" " ++ op.spelling ++ " ").toList 0 :=
  places_text (by cases op <;> decide)

theorem placesAll_comparisons (h : PlacesAll args counts) :
    PlacesAll (comparisons op args) (neighbours counts) := by
  induction h with
  | nil => exact .nil
  | @cons a m args counts ha hargs ih =>
      cases hargs with
      | nil => exact .nil
      | cons hb hrest =>
          refine .cons ?_ ih
          have hpair := (ha.appendText (places_between op)).appendText hb
          rwa [← String.append_assoc, ← String.append_assoc] at hpair

theorem places_compareAll (h : PlacesAll args counts) {script : String}
    (hscript : compareAll op args = .ok script) : Places script.toList (chained counts) := by
  have hand : Places " && ".toList 0 := places_text (by decide)
  unfold compareAll at hscript
  split at hscript
  · cases hscript
  · cases hscript
    cases h with
    | cons _ hnil =>
        cases hnil
        exact places_text (by decide)
  · cases hscript
    exact places_enclosed (places_text (by decide)) (places_text (by decide))
      (places_intercalate hand (placesAll_comparisons op h))

theorem places_operate (h : PlacesAll args counts) {script : String}
    (hscript : operate op args = .ok script) :
    Places script.toList (if op.compares then chained counts else counts.sum) := by
  have hchain : Places (chain op args).toList counts.sum :=
    places_enclosed (places_text (by decide)) (places_text (by decide))
      (places_intercalate (places_between op) h)
  have hsingle {a : String} (h : PlacesAll [a] counts) : Places a.toList counts.sum := by
    cases h with
    | cons ha hnil =>
        cases hnil
        exact ha
  unfold operate at hscript
  split at hscript
  case h_1 | h_2 =>
      cases h
      cases hscript
      exact places_text (by decide)
  case h_3 | h_4 => cases hscript
  case h_5 | h_6 =>
      cases hscript
      exact hsingle h
  case h_7 | h_8 =>
      cases hscript
      exact places_enclosed (places_text (by decide)) (places_text (by decide)) (hsingle h)
  case h_9 | h_10 | h_11 | h_12 =>
      cases hscript
      exact hchain
  case h_13 =>
      have hcompares : op.compares = true := by cases op <;> first | rfl | contradiction
      rw [if_pos hcompares]
      exact places_compareAll op h hscript

end Operators

section Forms

theorem EmitsAll.placesAll {operands : List Form} {texts : List String}
    (h : EmitsAll operands texts) (hplaces : ∀ form ∈ operands, ∀ text, emit form = .ok text →
      Places text.toList form.placed) : PlacesAll texts (operands.map Form.placed) := by
  induction h with
  | nil => exact .nil
  | @cons form text operands texts hform _ ih =>
      obtain ⟨hhead, htail⟩ := List.forall_mem_cons.mp hplaces
      exact .cons (hhead text hform) (ih htail)

theorem places_emit {form : Form} {script : String} (h : emit form = .ok script) :
    Places script.toList form.placed := by
  induction form using Form.induct generalizing script with
  | number x =>
      cases written_of_emit h
      exact places_number x
  | string s =>
      cases written_of_emit h
      exact places_stringLiteral s
  | boolean b =>
      cases written_of_emit h
      exact places_text (by cases b <;> decide)
  | nil =>
      cases written_of_emit h
      exact places_text (by decide)
  | symbol name =>
      cases written_of_emit h with
      | @operatorName _ op => exact places_text (by cases op <;> decide)
      | name hname => exact places_identifier hname
  | quote inner =>
      cases written_of_emit h
      exact places_data inner
  | list items ih =>
      have hall {operands : List Form} {texts : List String} (h : EmitsAll operands texts)
          (hsub : operands ⊆ items) : PlacesAll texts (operands.map Form.placed) :=
        h.placesAll fun form hform _ htext ↦ ih form (hsub hform) htext
      have hopen : Places "(".toList 0 := places_text (by decide)
      cases written_of_emit h with
      | empty => exact places_text (by decide)
      | quote hc form =>
          rw [Form.placed, Form.tally_construct hc]
          exact places_data form
      | list hc htexts =>
          rw [Form.placed, Form.tally_construct hc]
          exact places_array (places_commas (hall htexts (List.subset_cons_self _ _)))
      | lambda hc _ hidents hbody =>
          have hnames := places_commas_of_forall fun ident hident ↦
            places_identifier (hidents ident hident).choose_spec
          rw [Form.placed, Form.tally_construct hc]
          exact places_function hnames (ih _ (by simp) hbody)
      | conditional hc htest hyes hno =>
          rw [Form.placed, Form.tally_construct hc]
          exact places_choice (ih _ (by simp) htest) (ih _ (by simp) hyes) (ih _ (by simp) hno)
      | define hc hname hvalue =>
          rw [Form.placed, Form.tally_construct hc]
          exact places_assignment (places_identifier hname) (ih _ (by simp) hvalue)
      | log hc htexts =>
          rw [Form.placed, Form.tally_construct hc, Construct.count, Nat.add_comm]
          exact places_call places_logCall (hall htexts (List.subset_cons_self _ _))
      | nth hc hitems hindex =>
          rw [Form.placed, Form.tally_construct hc]
          exact places_item (ih _ (by simp) hitems) (ih _ (by simp) hindex)
      | not hc harg =>
          rw [Form.placed, Form.tally_construct hc]
          exact places_enclosed (places_text (by decide)) (places_text (by decide))
            (ih _ (by simp) harg)
      | operator hc htexts hscript =>
          rw [Form.placed, Form.tally_construct hc]
          exact places_operate _ (hall htexts (List.subset_cons_self _ _)) hscript
      | call hc hfn htexts =>
          rw [Form.placed, Form.tally_call hc, ← Nat.zero_add (List.sum _)]
          exact places_call ((places_identifier hfn).appendText hopen)
            (hall htexts (List.subset_cons_self _ _))
      | headed hfn htexts =>
          rw [Form.placed, Form.tally_list (by simp)]
          exact places_call ((ih _ List.mem_cons_self hfn).appendText hopen)
            (hall htexts (List.subset_cons_self _ _))

/-- A script has the calls of `log` that its form has, but for the operands that comparisons
misplace. -/
theorem logCalls_of_emit {form : Form} {script : String} (h : emit form = .ok script) :
    logCalls script = form.placed ∧ (form.ComparesOnce → logCalls script = form.logs) := by
  have hplaced : logCalls script = form.placed := by
    have hcount := (places_emit h).count apart_nil
    rw [List.append_nil] at hcount
    exact hcount.trans (Nat.zero_add _)
  exact ⟨hplaced, fun hform ↦ hplaced.trans (Form.placed_eq_logs hform)⟩

/-- A comparison of two calls of `log`, of which one writes the text of a call. -/
def twoLogs : Form :=
  .list [.symbol "<", .list [.symbol "log", .string "console.log("],
    .list [.symbol "log", .quote (.symbol "log")]]

theorem logCalls_of_emit_twoLogs :
    emit twoLogs = .ok "(console.log(\"console.log(\") < console.log(\"log\"))" ∧
      logCalls "(console.log(\"console.log(\") < console.log(\"log\"))" = twoLogs.logs ∧
      twoLogs.logs = 2 := by
  have hscript : emit twoLogs = .ok "(console.log(\"console.log(\") < console.log(\"log\"))" := rfl
  have hlog {operand : Form} (h : ∀ items, operand ≠ .list items) :
      (Form.list [.symbol "log", operand]).ComparesOnce := by
    refine Form.comparesOnce_of ?_ fun item hitem ↦ Form.comparesOnce_of_not_list ?_
    · rintro _ ⟨_, op, heq, hc, -⟩
      cases heq
      cases (show some Construct.log = some (.operator op) from hc)
    · rcases List.mem_cons.mp (Form.mem_of_mem_evaluated hitem) with rfl | hitem
      · exact nofun
      · exact List.mem_singleton.mp hitem ▸ h
  have honce : twoLogs.ComparesOnce := by
    refine Form.comparesOnce_of ?_ fun item hitem ↦ ?_
    · rintro _ ⟨_, _, heq, -, -⟩
      cases heq
      exact List.forall_mem_nil _
    · rcases List.mem_cons.mp (Form.mem_of_mem_evaluated hitem) with rfl | hitem
      · exact Form.comparesOnce_of_not_list nofun
      · rcases List.mem_cons.mp hitem with rfl | hitem
        · exact hlog nofun
        · exact List.mem_singleton.mp hitem ▸ hlog nofun
  exact ⟨hscript, (logCalls_of_emit hscript).2 honce, rfl⟩

/-- A comparison drops its only operand. -/
def loneLog : Form := .list [.symbol "=", .list [.symbol "log", .number .zero]]

/-- A comparison has its inner operand twice. -/
def innerLog : Form :=
  .list [.symbol "<", .number .zero, .list [.symbol "log", .number .zero], .number .zero]

theorem logCalls_of_emit_misplaced :
    (emit loneLog = .ok "true" ∧ loneLog.logs = 1 ∧ logCalls "true" = 0) ∧
      (emit innerLog = .ok "(0 < console.log(0) && console.log(0) < 0)" ∧ innerLog.logs = 1 ∧
        logCalls "(0 < console.log(0) && console.log(0) < 0)" = 2) :=
  ⟨⟨rfl, rfl, rfl⟩, rfl, rfl, by decide⟩

end Forms

end Script

end MiniLisp
