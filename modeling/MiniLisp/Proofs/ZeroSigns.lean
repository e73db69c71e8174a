import MiniLisp.Proofs.ShortestDecimal

/-!
# Numbers up to the sign of a zero

Numbers are equal by value if they are the same but for the sign of a zero. That sign is not printed,
and of what is computed from a number it changes the sign of a zero at most, as long as nothing is
divided by zero.
-/

namespace MiniLisp.Double

open Float.Model (UnpackedFloat)

variable {x y x' y' : Double}

/-- The same number, but for the sign of a zero. -/
def Matches (x y : Double) : Prop := x.dropZeroSign = y.dropZeroSign

theorem isNaN_of_isFinite (hx : x.isFinite = true) : x.isNaN = false :=
  decide_eq_false (Nat.not_lt_of_lt (of_decide_eq_true hx))

theorem isNaN_of_isZero (hx : x.isZero = true) : x.isNaN = false := by
  refine decide_eq_false ?_
  rw [show x.magnitude = 0 from eq_of_beq hx]
  exact Nat.not_lt_zero _

theorem dropZeroSign_of_isZero (hx : x.isZero = true) : x.dropZeroSign = zero := by
  rw [dropZeroSign, if_pos hx]

theorem dropZeroSign_of_not_isZero (hx : x.isZero = false) : x.dropZeroSign = x := by
  rw [dropZeroSign, if_neg (Bool.eq_false_iff.mp hx)]

theorem isZero_dropZeroSign (x : Double) : x.dropZeroSign.isZero = x.isZero := by
  cases hx : x.isZero with
  | true =>
      rw [dropZeroSign_of_isZero hx]
      rfl
  | false => rwa [dropZeroSign_of_not_isZero hx]

theorem dropZeroSign_dropZeroSign (x : Double) : x.dropZeroSign.dropZeroSign = x.dropZeroSign := by
  cases hx : x.isZero with
  | true =>
      rw [dropZeroSign_of_isZero hx]
      rfl
  | false => rw [dropZeroSign_of_not_isZero hx, dropZeroSign_of_not_isZero hx]

theorem isNaN_dropZeroSign (x : Double) : x.dropZeroSign.isNaN = x.isNaN := by
  cases hx : x.isZero with
  | true =>
      rw [dropZeroSign_of_isZero hx, isNaN_of_isZero hx]
      rfl
  | false => rw [dropZeroSign_of_not_isZero hx]

theorem matches_iff : x.Matches y ↔ x = y ∨ x.isZero = true ∧ y.isZero = true := by
  unfold Matches
  constructor
  · intro h
    cases hx : x.isZero with
    | true =>
        have hy : y.isZero = true := by rw [← isZero_dropZeroSign, ← h, isZero_dropZeroSign, hx]
        exact .inr ⟨rfl, hy⟩
    | false =>
        have hy : y.isZero = false := by rw [← isZero_dropZeroSign, ← h, isZero_dropZeroSign, hx]
        rw [dropZeroSign_of_not_isZero hx, dropZeroSign_of_not_isZero hy] at h
        exact .inl h
  · rintro (rfl | ⟨hx, hy⟩)
    · rfl
    · rw [dropZeroSign_of_isZero hx, dropZeroSign_of_isZero hy]

theorem rank_eq_iff : x.rank = y.rank ↔ x.Matches y := by
  have hzero (z : Double) : z.isZero = true ↔ z.magnitude = 0 := beq_iff_eq
  rw [matches_iff, hzero, hzero]
  constructor
  · intro h
    by_cases hmagnitude : x.magnitude = 0 ∧ y.magnitude = 0
    · exact .inr hmagnitude
    · refine .inl ?_
      -- the sign of a number other than zero is that of its rank
      have hparts : x.negative = y.negative ∧ x.magnitude = y.magnitude := by
        unfold rank at h
        cases hx : x.negative <;> cases hy : y.negative <;> simp [hx, hy] at h ⊢ <;> omega
      rw [← ofMagnitude_magnitude x, ← ofMagnitude_magnitude y, hparts.1, hparts.2]
  · rintro (rfl | ⟨hx, hy⟩)
    · rfl
    · simp [rank, hx, hy]

theorem equal_iff (hx : x.isNaN = false) (hy : y.isNaN = false) :
    x.equal y = true ↔ x.Matches y := by
  rw [← rank_eq_iff]
  simp [equal, hx, hy]

theorem render_dropZeroSign (x : Double) : x.dropZeroSign.render = x.render := by
  cases hx : x.isZero with
  | false => rw [dropZeroSign_of_not_isZero hx]
  | true =>
      have hnan := isNaN_of_isZero hx
      have hinfinite : x.isInfinite = false := by
        rw [isInfinite, show x.magnitude = 0 from eq_of_beq hx]
        rfl
      have hrender : x.render = "0" := by simp [render, hnan, hinfinite, hx]
      have hzero : zero.render = "0" := rfl
      rw [dropZeroSign_of_isZero hx, hrender, hzero]

section Arithmetic

/-- What the arithmetic of the machine sees of a number. -/
def unpacked (x : Double) : UnpackedFloat := x.toFloat.toModel.unpack

def ofUnpacked (u : UnpackedFloat) : Double := ofFloat (.ofModel (.pack u))

/-- The same for the arithmetic of the machine, but for the sign of a zero. -/
inductive Twins : UnpackedFloat → UnpackedFloat → Prop
  | notANumber : Twins .notANumber .notANumber
  | infinity (s : UnpackedFloat.Sign) : Twins (.infinity s) (.infinity s)
  | zero (s t : UnpackedFloat.Sign) : Twins (.zero s) (.zero t)
  | finite (s : UnpackedFloat.Sign) (m : Nat) (e : Int) (hm : 0 < m) :
      Twins (.finite s m e hm) (.finite s m e hm)

namespace Twins

variable {u v u' v' : UnpackedFloat}

theorem refl (u : UnpackedFloat) : Twins u u := by
  cases u with
  | notANumber => exact .notANumber
  | infinity s => exact .infinity s
  | zero s => exact .zero s s
  | finite s m e hm => exact .finite s m e hm

theorem add (h : Twins u v) (h' : Twins u' v') :
    Twins (.add .binary64 u u') (.add .binary64 v v') := by
  cases h <;> cases h'
  case zero.zero s t s' t' => cases s <;> cases t <;> cases s' <;> cases t' <;> exact .zero _ _
  all_goals exact .refl _

theorem sub (h : Twins u v) (h' : Twins u' v') :
    Twins (.sub .binary64 u u') (.sub .binary64 v v') := by
  cases h <;> cases h'
  case zero.zero s t s' t' => cases s <;> cases t <;> cases s' <;> cases t' <;> exact .zero _ _
  all_goals exact .refl _

theorem mul (h : Twins u v) (h' : Twins u' v') :
    Twins (.mul .binary64 u u') (.mul .binary64 v v') := by
  cases h <;> cases h'
  case zero.zero | zero.finite | finite.zero => exact .zero _ _
  all_goals exact .refl _

/-- The divisor has to be the same: the sign of a zero decides the sign of the infinity. -/
theorem div (h : Twins u v) (w : UnpackedFloat) :
    Twins (.div .binary64 u w) (.div .binary64 v w) := by
  cases h <;> cases w
  case zero.infinity | zero.finite => exact .zero _ _
  all_goals exact .refl _

theorem ofUnpacked (h : Twins u v) : (ofUnpacked u).Matches (ofUnpacked v) := by
  have hzero (s : UnpackedFloat.Sign) : (Double.ofUnpacked (.zero s)).isZero = true := by
    cases s <;> decide +kernel
  cases h with
  | zero s t => exact matches_iff.mpr (.inr ⟨hzero s, hzero t⟩)
  | notANumber | infinity | finite => exact rfl

end Twins

theorem exists_unpacked_of_isZero (hx : x.isZero = true) : ∃ s, x.unpacked = .zero s := by
  have hmagnitude : x.magnitude = 0 := eq_of_beq hx
  rw [← ofMagnitude_magnitude x, hmagnitude]
  cases x.negative with
  | false => exact ⟨.positive, rfl⟩
  | true => exact ⟨.negative, rfl⟩

namespace Matches

theorem unpacked (h : x.Matches y) : Twins x.unpacked y.unpacked := by
  rcases matches_iff.mp h with rfl | ⟨hx, hy⟩
  · exact .refl _
  · obtain ⟨s, hs⟩ := exists_unpacked_of_isZero hx
    obtain ⟨t, ht⟩ := exists_unpacked_of_isZero hy
    rw [hs, ht]
    exact .zero s t

theorem add (h : x.Matches y) (h' : x'.Matches y') : (x + x').Matches (y + y') :=
  (h.unpacked.add h'.unpacked).ofUnpacked

theorem sub (h : x.Matches y) (h' : x'.Matches y') : (x - x').Matches (y - y') :=
  (h.unpacked.sub h'.unpacked).ofUnpacked

theorem mul (h : x.Matches y) (h' : x'.Matches y') : (x * x').Matches (y * y') :=
  (h.unpacked.mul h'.unpacked).ofUnpacked

theorem isZero (h : x.Matches y) : x.isZero = y.isZero := by
  rw [← isZero_dropZeroSign, h, isZero_dropZeroSign]

theorem isNaN (h : x.Matches y) : x.isNaN = y.isNaN := by
  rw [← isNaN_dropZeroSign, h, isNaN_dropZeroSign]

theorem render (h : x.Matches y) : x.render = y.render := by
  rw [← render_dropZeroSign, h, render_dropZeroSign]

theorem div (h : x.Matches y) (h' : x'.Matches y') (hzero : x'.isZero = false) :
    (x / x').Matches (y / y') := by
  rcases matches_iff.mp h' with rfl | ⟨hx', -⟩
  · exact (h.unpacked.div x'.unpacked).ofUnpacked
  · rw [hx'] at hzero
    nomatch hzero

theorem neg (h : x.Matches y) : (-x).Matches (-y) := by
  have hzero {z : Double} (hz : z.isZero = true) : (-z).isZero = true := by
    have hmagnitude : z.magnitude = 0 := eq_of_beq hz
    change (ofMagnitude (!z.negative) z.magnitude).isZero = true
    rw [hmagnitude]
    cases z.negative <;> rfl
  rcases matches_iff.mp h with rfl | ⟨hx, hy⟩
  · exact rfl
  · exact matches_iff.mpr (.inr ⟨hzero hx, hzero hy⟩)

theorem equal (h : x.Matches y) (h' : x'.Matches y') : x.equal x' = y.equal y' := by
  rw [Double.equal, Double.equal, h.isNaN, h'.isNaN, rank_eq_iff.mpr h, rank_eq_iff.mpr h']

theorem less (h : x.Matches y) (h' : x'.Matches y') : x.less x' = y.less y' := by
  rw [Double.less, Double.less, h.isNaN, h'.isNaN, rank_eq_iff.mpr h, rank_eq_iff.mpr h']

theorem lessEq (h : x.Matches y) (h' : x'.Matches y') : x.lessEq x' = y.lessEq y' := by
  rw [Double.lessEq, Double.lessEq, h.isNaN, h'.isNaN, rank_eq_iff.mpr h, rank_eq_iff.mpr h']

theorem whole? (h : x.Matches y) : x.whole? = y.whole? := by
  have hzero {z : Double} (hz : z.isZero = true) : z.whole? = some 0 := by
    have hmagnitude : z.magnitude = 0 := eq_of_beq hz
    rw [← ofMagnitude_magnitude z, hmagnitude]
    cases z.negative <;> decide +kernel
  rcases matches_iff.mp h with rfl | ⟨hx, hy⟩
  · rfl
  · rw [hzero hx, hzero hy]

end Matches

end Arithmetic

end MiniLisp.Double
