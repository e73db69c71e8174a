import MiniLisp.Numeric.Decimal
import MiniLisp.Proofs.NearestDouble
import MiniLisp.Token.Lexer
import Mathlib.Data.List.DropRight

/-!
# The text of a number

The search for the shortest decimal ends at a decimal that rounds to the number, and laying it out
around a point gives a numeral with the same value. So the text of a finite number stands for the
number, but for the sign of a zero.
-/

namespace MiniLisp

/-- Digits as the lexer finds them: at least one before the point. -/
structure Lexer.Numeral.Digital (n : Lexer.Numeral) : Prop where
  whole_ne_nil : n.whole ≠ []
  isDigit_whole : ∀ c ∈ n.whole, Lexer.isDigit c = true
  isDigit_fraction : ∀ c ∈ n.fraction, Lexer.isDigit c = true

theorem Lexer.isDigit_of_charIsDigit {c : Char} (h : c.isDigit = true) : Lexer.isDigit c = true := by
  simp only [Char.isDigit, Bool.and_eq_true, decide_eq_true_eq] at h
  exact decide_eq_true h

namespace Decimal

theorem chosen?_reads (reads : Nat → Bool) {low nearer c : Nat}
    (hnearer : nearer = low ∨ nearer = low + 1)
    (h : chosen? low nearer (reads low) (reads (low + 1)) = some c) : reads c = true := by
  cases hlow : reads low <;> cases hhigh : reads (low + 1) <;> rw [hlow, hhigh] at h
  · nomatch h
  · rwa [← Option.some.inj h]
  · rwa [← Option.some.inj h]
  · rw [← Option.some.inj h]
    rcases hnearer with hnearer | hnearer
    · rwa [hnearer]
    · rwa [hnearer]

theorem coarsest_spec {P : Nat → Nat → Prop} {point? : Nat → Option Nat} {finest : Nat}
    (hfinest : P finest 0) (hpoint : ∀ k c, point? k = some c → P c k) (k : Nat) :
    P (coarsest point? finest k).1 (coarsest point? finest k).2 := by
  induction k with
  | zero => exact hfinest
  | succ k ih =>
      rw [coarsest]
      split
      next c hc => exact hpoint (k + 1) c hc
      next => exact ih

theorem readsBack_iff {magnitude c k : Nat} : readsBack magnitude c k = true ↔
    Double.nearestMagnitude (c * tenTo k) (tenTo 1074) = magnitude := by
  rw [readsBack, beq_iff_eq]

theorem readsBack_gridPoint {units magnitude k c : Nat}
    (h : gridPoint? units magnitude k = some c) : readsBack magnitude c k = true := by
  unfold gridPoint? at h
  exact chosen?_reads (fun c ↦ readsBack magnitude c k) (roundQuotient_eq ..) h

variable {x : Double}

theorem readsBack_finest (hx : x.isFinite = true) :
    readsBack x.magnitude (x.units * Nat.pow 5 1074) 0 = true := by
  have hone : tenTo 0 = 1 := rfl
  simp only [readsBack_iff, hone, Nat.mul_one, Double.nearestMagnitude_mul_powFive,
    Double.nearestMagnitude_units hx]

theorem eq_trimZeros_append (digits : List Char) :
    ∃ z, digits = trimZeros digits ++ List.replicate z '0' := by
  refine ⟨(digits.rtakeWhile (· == '0')).length, ?_⟩
  have hzeros : digits.rtakeWhile (· == '0') =
      List.replicate (digits.rtakeWhile (· == '0')).length '0' := by
    refine List.eq_replicate_of_mem fun c hc ↦ ?_
    have := List.mem_rtakeWhile_imp hc
    exact eq_of_beq this
  rw [← hzeros]
  exact (List.rdropWhile_append_rtakeWhile ..).symm

theorem getLast?_trimZeros (digits : List Char) : (trimZeros digits).getLast? ≠ some '0' := by
  intro hlast
  have hne : digits.rdropWhile (· == '0') ≠ [] := by
    intro hnil
    rw [trimZeros, ← List.rdropWhile, hnil] at hlast
    nomatch hlast
  have hdigit := Option.some.inj ((List.getLast?_eq_some_getLast hne).symm.trans hlast)
  have hstays := List.rdropWhile_last_not (· == '0') digits hne
  rw [hdigit] at hstays
  exact hstays rfl

/-- The decimal has digits, and the magnitude is the nearest one to its value. -/
structure Denotes (d : Decimal) (magnitude : Nat) : Prop where
  digits_ne_nil : d.digits ≠ []
  isDigit : ∀ c ∈ d.digits, Lexer.isDigit c = true
  nearest : ∃ a b : Nat, d.point + b = d.digits.length + a ∧
    Double.nearestMagnitude (Nat.ofDigitChars 10 d.digits 0 * tenTo a) (tenTo b) = magnitude

theorem denotes_ofPoint {c k magnitude : Nat} (hpos : 0 < magnitude)
    (h : readsBack magnitude c k = true) : (ofPoint c k).Denotes magnitude := by
  rw [readsBack_iff] at h
  obtain ⟨z, hz⟩ := eq_trimZeros_append (Nat.toDigits 10 c)
  have hlength := congrArg List.length hz
  have hvalue : Nat.ofDigitChars 10 (trimZeros (Nat.toDigits 10 c)) 0 * tenTo z = c := by
    have hc := Nat.ofDigitChars_ten_toDigits (n := c)
    rwa [hz, Nat.ofDigitChars_append, Nat.ofDigitChars_replicate_zero, Nat.mul_comm] at hc
  rw [List.length_append, List.length_replicate] at hlength
  refine ⟨?_, ?_, z + k, 1074, ?_, ?_⟩
  · intro hnil
    change trimZeros (Nat.toDigits 10 c) = [] at hnil
    rw [hnil, Nat.ofDigitChars_nil, Nat.zero_mul] at hvalue
    rw [← hvalue, Nat.zero_mul, Double.nearestMagnitude_zero (tenTo_pos _)] at h
    omega
  · intro d hd
    have hmem : d ∈ Nat.toDigits 10 c := by
      rw [hz]
      exact List.mem_append_left _ hd
    exact Lexer.isDigit_of_charIsDigit (Nat.isDigit_of_mem_toDigits (by decide) (by decide) hmem)
  · simp only [ofPoint]
    omega
  · have hscale : tenTo (z + k) = tenTo z * tenTo k := Nat.pow_add ..
    rw [← h, hscale, ← Nat.mul_assoc]
    simp only [ofPoint, hvalue]

theorem denotes_shortest (hx : x.isFinite = true) (hzero : x.isZero = false) :
    (shortest x).Denotes x.magnitude := by
  have hpos : 0 < x.magnitude := Nat.pos_of_ne_zero (by simpa [Double.isZero] using hzero)
  unfold shortest
  exact denotes_ofPoint hpos
    (coarsest_spec (P := fun c k ↦ readsBack x.magnitude c k = true) (readsBack_finest hx)
      (fun _ _ h ↦ readsBack_gridPoint h) (coarseGrid x.units))

/-- The digits before and behind the point, where `plain` puts it. -/
def numeral (d : Decimal) : Lexer.Numeral :=
  if d.point ≤ 0 then ⟨['0'], List.replicate (-d.point).toNat '0' ++ d.digits⟩
  else if (d.digits.length : Int) ≤ d.point then
    ⟨d.digits ++ List.replicate (d.point.toNat - d.digits.length) '0', []⟩
  else ⟨d.digits.take d.point.toNat, d.digits.drop d.point.toNat⟩

theorem getLast?_fraction_numeral {d : Decimal} (h : d.digits ≠ [])
    (hlast : d.digits.getLast? ≠ some '0') : d.numeral.fraction.getLast? ≠ some '0' := by
  unfold numeral
  split_ifs
  · rwa [List.getLast?_append_of_ne_nil _ h]
  · nofun
  · next hhigh =>
      have hlength : ¬ d.digits.length ≤ d.point.toNat := by omega
      rwa [List.getLast?_drop, if_neg hlength]

theorem plain_eq_text {d : Decimal} (h : d.digits ≠ []) : d.plain = d.numeral.text := by
  unfold plain numeral Lexer.Numeral.text
  split
  · simp [h]
  · split
    · simp
    · next hhigh =>
        have hne : d.digits.drop d.point.toNat ≠ [] := by
          rw [Ne, List.drop_eq_nil_iff]
          omega
        simp [hne]

theorem ofDigitChars_replicate_append (n : Nat) (cs : List Char) :
    Nat.ofDigitChars 10 (List.replicate n '0' ++ cs) 0 = Nat.ofDigitChars 10 cs 0 := by
  rw [Nat.ofDigitChars_append, Nat.ofDigitChars_replicate_zero, Nat.mul_zero]

theorem numeral_value (d : Decimal) {a b : Nat} (h : d.point + b = d.digits.length + a) :
    Nat.ofDigitChars 10 (d.numeral.whole ++ d.numeral.fraction) 0 * tenTo b =
      Nat.ofDigitChars 10 d.digits 0 * tenTo a * tenTo d.numeral.fraction.length := by
  have hadd (m n : Nat) : tenTo (m + n) = tenTo m * tenTo n := Nat.pow_add ..
  unfold numeral
  split
  · have hb : b = a + ((-d.point).toNat + d.digits.length) := by omega
    have hzero : Nat.ofDigitChars 10 ['0'] 0 = 0 := rfl
    simp only [List.length_append, List.length_replicate]
    rw [Nat.ofDigitChars_append, hzero, ofDigitChars_replicate_append, Nat.mul_assoc, ← hadd, ← hb]
  · split
    · have ha : a = (d.point.toNat - d.digits.length) + b := by omega
      have hone : tenTo 0 = 1 := rfl
      simp only [List.append_nil, List.length_nil]
      rw [Nat.ofDigitChars_append, Nat.ofDigitChars_replicate_zero, ha, hadd, hone, Nat.mul_one,
        ← Nat.mul_assoc]
      congr 1
      exact Nat.mul_comm ..
    · have hb : b = a + (d.digits.length - d.point.toNat) := by omega
      simp only [List.take_append_drop, List.length_drop]
      rw [Nat.mul_assoc, ← hadd, ← hb]

theorem isDigit_zeros {n : Nat} : ∀ c ∈ List.replicate n '0', Lexer.isDigit c = true := by
  intro c hc
  rw [List.eq_of_mem_replicate hc]
  rfl

theorem Denotes.digital_numeral {d : Decimal} {magnitude : Nat} (h : d.Denotes magnitude) :
    d.numeral.Digital := by
  have hlength : 0 < d.digits.length := List.length_pos_iff.mpr h.digits_ne_nil
  unfold numeral
  split
  · refine ⟨List.cons_ne_nil _ _, by simp [Lexer.isDigit], fun c hc ↦ ?_⟩
    rcases List.mem_append.mp hc with hc | hc
    · exact isDigit_zeros c hc
    · exact h.isDigit c hc
  · split
    · refine ⟨by simp [h.digits_ne_nil], fun c hc ↦ ?_, by simp⟩
      rcases List.mem_append.mp hc with hc | hc
      · exact h.isDigit c hc
      · exact isDigit_zeros c hc
    · refine ⟨?_, fun c hc ↦ h.isDigit c (List.mem_of_mem_take hc),
        fun c hc ↦ h.isDigit c (List.mem_of_mem_drop hc)⟩
      rw [Ne, ← List.length_eq_zero_iff, List.length_take]
      omega

theorem Denotes.ofDecimal_numeral {d : Decimal} (h : d.Denotes x.magnitude) :
    Double.ofDecimal x.negative d.numeral.whole d.numeral.fraction = x := by
  obtain ⟨a, b, hpoint, hnearest⟩ := h.nearest
  have hvalue := numeral_value d hpoint
  rw [← Double.nearestMagnitude_congr (tenTo_pos _) (tenTo_pos _) hvalue] at hnearest
  rw [Double.ofDecimal, hnearest, Double.ofMagnitude_magnitude]

end Decimal

namespace Double

variable {x : Double}

def dropZeroSign (x : Double) : Double := if x.isZero then .zero else x

/-- The text of a finite number is a numeral that stands for it, with no zero at the end of its
fraction. -/
theorem render_spells (hx : x.isFinite = true) : ∃ (negative : Bool) (n : Lexer.Numeral),
    n.Digital ∧ n.fraction.getLast? ≠ some '0' ∧
      x.render.toList = (if negative then '-' :: n.text else n.text) ∧
      ofDecimal negative n.whole n.fraction = x.dropZeroSign := by
  have hlt : x.magnitude < infinityMagnitude := of_decide_eq_true hx
  have hnan : x.isNaN = false := decide_eq_false (Nat.not_lt_of_lt hlt)
  have hinfinite : x.isInfinite = false := beq_false_of_ne (Nat.ne_of_lt hlt)
  cases hzero : x.isZero with
  | true =>
      refine ⟨false, ⟨['0'], []⟩, ⟨List.cons_ne_nil _ _, by simp [Lexer.isDigit], by simp⟩, nofun,
        ?_, ?_⟩
      · simp [render, hnan, hinfinite, hzero, Lexer.Numeral.text]
      · have hten : 0 < tenTo 0 := tenTo_pos 0
        have hvalue : ofDecimal false ['0'] [] = ofMagnitude false 0 :=
          congrArg (ofMagnitude false) (nearestMagnitude_zero hten)
        simp only [dropZeroSign, hzero, if_true]
        exact hvalue
  | false =>
      have hdenotes := Decimal.denotes_shortest hx hzero
      refine ⟨x.negative, (Decimal.shortest x).numeral, hdenotes.digital_numeral,
        Decimal.getLast?_fraction_numeral hdenotes.digits_ne_nil (Decimal.getLast?_trimZeros _),
        ?_, ?_⟩
      · rw [← Decimal.plain_eq_text hdenotes.digits_ne_nil]
        simp [render, hnan, hinfinite, hzero]
      · rw [hdenotes.ofDecimal_numeral, dropZeroSign, hzero]
        rfl

end Double

end MiniLisp
