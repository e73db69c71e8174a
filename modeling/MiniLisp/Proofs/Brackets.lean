import MiniLisp.Script.Emit

/-!
# Brackets of a script

A reader of a script goes through its characters one by one. In code it keeps the brackets that are
open, and each closing bracket has to match the innermost of them; a double quote leads into a string
literal, where a backslash takes the next character with it. Pieces of a script are told by the
brackets that a reader has open before and behind them, so they can be put together.
-/

namespace MiniLisp.Script

inductive Bracket where
  | round | square
deriving DecidableEq

inductive Mode where
  | code | literal | escape
deriving DecidableEq

/-- Where the reader is, and which brackets are open, the innermost one first. -/
structure Scanner where
  mode : Mode
  opened : List Bracket
deriving DecidableEq

namespace Scanner

def close (s : Scanner) (b : Bracket) : Option Scanner :=
  match s.opened with
  | [] => none
  | inner :: outer => if inner = b then some { s with opened := outer } else none

/-- What the reader knows behind the character; it stops at a closing bracket that does not match. -/
def step (s : Scanner) (c : Char) : Option Scanner :=
  match s.mode with
  | .code =>
    if c = '\x22' then some { s with mode := .literal }
    else if c = '(' then some { s with opened := .round :: s.opened }
    else if c = '[' then some { s with opened := .square :: s.opened }
    else if c = ')' then s.close .round
    else if c = ']' then s.close .square
    else some s
  | .literal =>
    if c = '\x22' then some { s with mode := .code }
    else if c = '\x5c' then some { s with mode := .escape }
    else some s
  | .escape => some { s with mode := .literal }

def scan (s : Scanner) (cs : List Char) : Option Scanner := cs.foldlM step s

theorem scan_append (s : Scanner) (cs ds : List Char) :
    s.scan (cs ++ ds) = (s.scan cs).bind (·.scan ds) :=
  List.foldlM_append

theorem scan_cons (s : Scanner) (c : Char) (cs : List Char) :
    s.scan (c :: cs) = (s.step c).bind (·.scan cs) :=
  List.foldlM_cons

/-- Characters that the reader passes over one by one it passes over together. -/
theorem scan_of_steps {s : Scanner} {cs : List Char} (h : ∀ c ∈ cs, s.step c = some s) :
    s.scan cs = some s := by
  induction cs with
  | nil => rfl
  | cons c cs ih =>
      obtain ⟨hhead, htail⟩ := List.forall_mem_cons.mp h
      rw [scan_cons, hhead, Option.bind_some, ih htail]

theorem scan_flatMap {α : Type} {s : Scanner} {f : α → List Char}
    (h : ∀ a, s.scan (f a) = some s) (as : List α) : s.scan (as.flatMap f) = some s := by
  induction as with
  | nil => rfl
  | cons a as ih => rw [List.flatMap_cons, scan_append, h, Option.bind_some, ih]

end Scanner

/-- The brackets of the text match, and no string literal in it is left open. -/
def Balanced (cs : List Char) : Prop := Scanner.scan ⟨.code, []⟩ cs = some ⟨.code, []⟩

instance (cs : List Char) : Decidable (Balanced cs) := inferInstanceAs (Decidable (_ = _))

def Printable (c : Char) : Prop := 0x20 ≤ c.toNat ∧ c.toNat ≤ 0x7e

instance (c : Char) : Decidable (Printable c) := inferInstanceAs (Decidable (_ ∧ _))

/-- The text is printable, and leads a reader of code from some open brackets to others. -/
structure Turns (text : String) (before behind : List Bracket) : Prop where
  printable : ∀ c ∈ text.toList, Printable c
  scan : Scanner.scan ⟨.code, before⟩ text.toList = some ⟨.code, behind⟩

/-- Whatever is open before the text is open behind it. -/
def Neutral (text : String) : Prop := ∀ opened, Turns text opened opened

/-- The character is printable and means nothing to a reader of code. -/
def Plain (c : Char) : Prop := Printable c ∧ c ∉ ['\x22', '(', '[', ')', ']']

instance (c : Char) : Decidable (Plain c) := inferInstanceAs (Decidable (_ ∧ _))

theorem forall_mem_of_all {P : Char → Prop} [DecidablePred P] {cs : List Char}
    (h : cs.all (fun c ↦ decide (P c)) = true) : ∀ c ∈ cs, P c :=
  fun c hc ↦ of_decide_eq_true (List.all_eq_true.mp h c hc)

section Pieces

variable {a b text separator : String} {o p q : List Bracket}

theorem Turns.append (ha : Turns a o p) (hb : Turns b p q) : Turns (a ++ b) o q where
  printable := by
    rw [String.toList_append]
    exact List.forall_mem_append.mpr ⟨ha.printable, hb.printable⟩
  scan := by rw [String.toList_append, Scanner.scan_append, ha.scan, Option.bind_some, hb.scan]

theorem neutral_of_plain (h : ∀ c ∈ text.toList, Plain c) : Neutral text := by
  refine fun opened ↦ ⟨fun c hc ↦ (h c hc).1, Scanner.scan_of_steps fun c hc ↦ ?_⟩
  have hplain := (h c hc).2
  simp only [List.mem_cons, List.not_mem_nil, or_false, not_or] at hplain
  obtain ⟨hquote, hround, hsquare, hround', hsquare'⟩ := hplain
  rw [Scanner.step, if_neg hquote, if_neg hround, if_neg hsquare, if_neg hround', if_neg hsquare']

theorem turns_text (h : text.toList.all (fun c ↦ decide (Printable c)) = true)
    (hscan : Scanner.scan ⟨.code, o⟩ text.toList = some ⟨.code, p⟩) : Turns text o p :=
  ⟨forall_mem_of_all h, hscan⟩

theorem neutral_text (h : text.toList.all (fun c ↦ decide (Plain c)) = true) : Neutral text :=
  neutral_of_plain (forall_mem_of_all h)

theorem neutral_intercalate (hseparator : Neutral separator) {texts : List String}
    (h : ∀ text ∈ texts, Neutral text) : Neutral (separator.intercalate texts) := by
  induction texts with
  | nil => exact neutral_of_plain (by simp)
  | cons text texts ih =>
      obtain ⟨hhead, htail⟩ := List.forall_mem_cons.mp h
      cases texts with
      | nil => simpa using hhead
      | cons next texts =>
          rw [String.intercalate_cons_cons]
          exact fun opened ↦
            ((hhead opened).append (hseparator opened)).append (ih htail opened)

theorem Neutral.balanced (h : Neutral text) : Balanced text.toList := (h []).scan

end Pieces

end MiniLisp.Script
