import MiniLisp.Console
import MiniLisp.Proofs.Sessions

/-!
# Transcripts of a terminal

A terminal cuts its input into lines and runs the same session on them as one that is given the
lines; what it shows more is a prompt in front of every line and a prompt at the end of the input.
-/

namespace MiniLisp

namespace Text

/-- A line ends at a newline, at a carriage return, or at both together. -/
inductive LineEnd : List Char → Prop
  | newline : LineEnd ['\n']
  | carriageReturn : LineEnd ['\r']
  | both : LineEnd ['\r', '\n']

def Unbroken (line : List Char) : Prop := '\n' ∉ line ∧ '\r' ∉ line

/-- The text falls into these lines, each with its end; only the last one may lack it, and then it is
not empty. A carriage return in front of a newline is no end of its own. -/
inductive Lined : List Char → List (List Char) → Prop
  | nil : Lined [] []
  | last {line : List Char} (hline : Unbroken line) (hne : line ≠ []) : Lined line [line]
  | line {line ending rest : List Char} {lines : List (List Char)} (hline : Unbroken line)
      (hending : LineEnd ending) (hwhole : ending = ['\r'] → rest.head? ≠ some '\n')
      (h : Lined rest lines) : Lined (line ++ ending ++ rest) (line :: lines)

theorem unbroken_nil : Unbroken [] := ⟨List.not_mem_nil, List.not_mem_nil⟩

theorem unbroken_cons_iff {c : Char} {line : List Char} :
    Unbroken (c :: line) ↔ ¬ (c = '\n' ∨ c = '\r') ∧ Unbroken line := by
  simp only [Unbroken, List.mem_cons, not_or, eq_comm]
  tauto

theorem Unbroken.reverse {line : List Char} (h : Unbroken line) : Unbroken line.reverse := by
  simpa [Unbroken] using h

theorem linesFrom_append {line : List Char} (h : Unbroken line) (before : List Char)
    (done : List (List Char)) (rest : List Char) :
    linesFrom before done (line ++ rest) = linesFrom (line.reverse ++ before) done rest := by
  induction line generalizing before with
  | nil => rfl
  | cons c line ih =>
      obtain ⟨hc, hline⟩ := unbroken_cons_iff.mp h
      have hstep : linesFrom before done (c :: (line ++ rest)) =
          linesFrom (c :: before) done (line ++ rest) := by
        rw [linesFrom, if_neg hc]
        rintro cs rfl
        exact absurd (.inr rfl) hc
      rw [List.cons_append, hstep, ih hline, List.reverse_cons, List.append_assoc]
      rfl

theorem linesFrom_lineEnd {ending rest : List Char} (h : LineEnd ending)
    (hwhole : ending = ['\r'] → rest.head? ≠ some '\n') (before : List Char)
    (done : List (List Char)) :
    linesFrom before done (ending ++ rest) = linesFrom [] (before.reverse :: done) rest := by
  cases h with
  | newline | both => rfl
  | carriageReturn =>
      cases rest with
      | nil => rfl
      | cons c rest =>
          have hc : c ≠ '\n' := fun hc ↦ hwhole rfl (hc ▸ rfl)
          simp [linesFrom, hc]

theorem linesFrom_of_lined {text : List Char} {lines : List (List Char)} (h : Lined text lines)
    (done : List (List Char)) : linesFrom [] done text = done.reverse ++ lines := by
  induction h generalizing done with
  | nil => simp [linesFrom]
  | @last line hline hne =>
      have hrun := linesFrom_append hline [] done []
      rw [List.append_nil] at hrun
      rw [hrun]
      simp [linesFrom, hne]
  | line hline hending hwhole _ ih =>
      rw [List.append_assoc, linesFrom_append hline, linesFrom_lineEnd hending hwhole, ih]
      simp

/-- Induction along the walk; what it has read of the current line has no end in it. -/
theorem exists_lined {before : List Char} (hbefore : Unbroken before) (text : List Char) :
    ∃ lines, Lined (before.reverse ++ text) lines := by
  induction before, ([] : List (List Char)), text using linesFrom.induct with
  | case1 before _ =>
      by_cases hne : before = []
      · rw [hne]
        exact ⟨[], .nil⟩
      · refine ⟨[before.reverse], ?_⟩
        rw [List.append_nil]
        exact .last hbefore.reverse (mt List.reverse_eq_nil_iff.mp hne)
  | case2 before _ rest ih =>
      obtain ⟨lines, h⟩ := ih unbroken_nil
      have hlined := Lined.line hbefore.reverse .both nofun h
      exact ⟨_, by simpa using hlined⟩
  | case3 before _ c rest hnot hc ih =>
      obtain ⟨lines, h⟩ := ih unbroken_nil
      have hending : LineEnd [c] := by
        rcases hc with rfl | rfl
        · exact .newline
        · exact .carriageReturn
      have hwhole : [c] = ['\r'] → rest.head? ≠ some '\n' := by
        intro hreturn hnewline
        obtain ⟨cs, hcs⟩ := List.head?_eq_some_iff.mp hnewline
        exact hnot cs (List.singleton_inj.mp hreturn) hcs
      have hlined := Lined.line hbefore.reverse hending hwhole h
      exact ⟨_, by simpa using hlined⟩
  | case4 before _ c rest _ hc ih =>
      obtain ⟨lines, h⟩ := ih (unbroken_cons_iff.mpr ⟨hc, hbefore⟩)
      exact ⟨lines, by simpa using h⟩

/-- The lines of a text are cut in one way. -/
theorem lined_iff {text : String} {lines : List String} :
    Lined text.toList (lines.map String.toList) ↔ lines = Text.lines text := by
  have hlines {cut : List (List Char)} (h : Lined text.toList cut) :
      Text.lines text = cut.map String.ofList := by
    rw [Text.lines, linesFrom_of_lined h []]
    rfl
  constructor
  · intro h
    rw [hlines h, List.map_map]
    simp
  · rintro rfl
    obtain ⟨cut, hcut⟩ := exists_lined unbroken_nil text.toList
    rw [hlines hcut, List.map_map]
    simpa using hcut

example : Text.lines "a\r\n\rb" = ["a", "", "b"] := by decide

end Text

theorem linesText_append (before after : List String) :
    linesText (before ++ after) = linesText before ++ linesText after := by
  rw [linesText, List.map_append, String.join_append]
  rfl

theorem Repl.writes_step (limits : Limits) (s : Store) (line : String) :
    s.Writes (step limits s line) := by
  have hreport (t : Store) (text : String) : t.Writes (t.write sessionRoot text) :=
    (Eval.leaves_write sessionRoot text t).output
  cases hblank : isBlankLine line with
  | true =>
      rw [step, hblank, if_pos rfl]
      exact refl_of Store.Writes s
  | false =>
      have hrun := Run.writes_interpret limits line sessionRoot s
      rw [Run.storeAfter] at hrun
      cases hend : (interpret limits line sessionRoot).run s with
      | ok v t =>
          rw [hend] at hrun
          rw [step_of_ok hblank hend]
          exact trans_of Store.Writes hrun (hreport t _)
      | error e t =>
          rw [hend] at hrun
          rw [step_of_error hblank hend]
          exact trans_of Store.Writes hrun (hreport t _)

namespace Console

/-- The text that each line writes in turn, from a store on. -/
def written (limits : Limits) (s : Store) : List String → List String
  | [] => []
  | line :: lines =>
    let next := Repl.step limits s line
    linesText (next.linesAfter s.output.size) :: written limits next lines

variable {limits : Limits} {s : Store} {lines : List String}

theorem length_written : (written limits s lines).length = lines.length := by
  induction lines generalizing s with
  | nil => rfl
  | cons line lines ih => rw [written, List.length_cons, ih, List.length_cons]

theorem transcriptFrom_eq (settings : Settings) (s : Store) (lines : List String) :
    transcriptFrom settings s lines =
      String.join ((written settings.limits s lines).map (settings.prompt ++ ·)) ++
        settings.prompt := by
  induction lines generalizing s with
  | nil => simp [transcriptFrom, written]
  | cons line lines ih =>
      rw [transcriptFrom, written, ih, List.map_cons, String.join_cons]
      simp only [String.append_assoc]

/-- What the lines write is what the session on them has put out. -/
theorem linesText_lines_foldl (limits : Limits) (s : Store) (lines : List String) :
    linesText (lines.foldl (Repl.step limits) s).lines =
      linesText s.lines ++ String.join (written limits s lines) := by
  induction lines generalizing s with
  | nil => simp [written]
  | cons line lines ih =>
      rw [List.foldl_cons, ih, Store.lines_of_writes (Repl.writes_step limits s line),
        linesText_append, written, String.join_cons, String.append_assoc]

theorem take_written (limits : Limits) (s : Store) (lines : List String) (n : Nat) :
    (written limits s lines).take n = written limits s (lines.take n) := by
  induction lines generalizing s n with
  | nil => simp [written]
  | cons line lines ih =>
      cases n with
      | zero => rfl
      | succ n => rw [written, List.take_succ_cons, ih, List.take_succ_cons, written]

end Console

end MiniLisp
