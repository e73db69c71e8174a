import MiniLisp.Numeric.Rounding

/-!
# The nearest double of a quotient

Which magnitude is nearest depends on the quotient alone, not on how the fraction is written, and
the magnitude nearest to the value of a finite number is its own.
-/

namespace MiniLisp

theorem roundQuotient_eq (n d : Nat) :
    roundQuotient n d = n / d ∨ roundQuotient n d = n / d + 1 := by
  unfold roundQuotient
  simp only
  split
  · exact Or.inl rfl
  · exact Or.inr rfl

theorem roundQuotient_mul_right (n d : Nat) {k : Nat} (hk : 0 < k) :
    roundQuotient (n * k) (d * k) = roundQuotient n d := by
  have hq : n * k / (d * k) = n / d := Nat.mul_div_mul_right n d hk
  have hr : n * k % (d * k) = n % d * k := Nat.mul_mod_mul_right k n d
  have hlt : 2 * (n % d * k) < d * k ↔ 2 * (n % d) < d := by
    rw [← Nat.mul_assoc]
    exact Nat.mul_lt_mul_right hk
  have heq : 2 * (n % d * k) = d * k ↔ 2 * (n % d) = d := by
    rw [← Nat.mul_assoc]
    exact Nat.mul_left_inj (Nat.ne_of_gt hk)
  simp only [roundQuotient, hq, hr, hlt, heq]

theorem roundQuotient_self_mul (n : Nat) {d : Nat} (hd : 0 < d) : roundQuotient (n * d) d = n := by
  simp [roundQuotient, Nat.mul_div_cancel n hd, hd]

theorem twoTo_pos (n : Nat) : 0 < twoTo n := Nat.pow_pos (by decide)

theorem tenTo_pos (n : Nat) : 0 < tenTo n := Nat.pow_pos (by decide)

namespace Double

theorem nearestMagnitude_mul_right (n d : Nat) {k : Nat} (hk : 0 < k) :
    nearestMagnitude (n * k) (d * k) = nearestMagnitude n d := by
  have hunits : n * k * twoTo 1074 = n * twoTo 1074 * k := Nat.mul_right_comm ..
  have hquotient : n * twoTo 1074 * k / (d * k) = n * twoTo 1074 / d :=
    Nat.mul_div_mul_right _ d hk
  have hscaled (s : Nat) : d * k * twoTo s = d * twoTo s * k := Nat.mul_right_comm ..
  simp only [nearestMagnitude, hunits, hquotient, hscaled, roundQuotient_mul_right _ _ hk]

theorem nearestMagnitude_mul_powFive (n p : Nat) :
    nearestMagnitude (n * Nat.pow 5 p) (tenTo p) = nearestMagnitude n (twoTo p) := by
  have hten : tenTo p = twoTo p * Nat.pow 5 p := Nat.mul_pow 2 5 p
  rw [hten]
  exact nearestMagnitude_mul_right n (twoTo p) (Nat.pow_pos (by decide))

theorem nearestMagnitude_congr {n d n' d' : Nat} (hd : 0 < d) (hd' : 0 < d')
    (h : n * d' = n' * d) : nearestMagnitude n d = nearestMagnitude n' d' := by
  calc nearestMagnitude n d
      = nearestMagnitude (n * d') (d * d') := (nearestMagnitude_mul_right n d hd').symm
    _ = nearestMagnitude (n' * d) (d' * d) := by rw [h, Nat.mul_comm d d']
    _ = nearestMagnitude n' d' := nearestMagnitude_mul_right n' d' hd

theorem nearestMagnitude_zero {d : Nat} (hd : 0 < d) : nearestMagnitude 0 d = 0 := by
  have hround : roundQuotient 0 (d * twoTo 0) = 0 := by
    have := roundQuotient_self_mul 0 (Nat.mul_pos hd (twoTo_pos 0))
    rwa [Nat.zero_mul] at this
  simp only [nearestMagnitude, Nat.zero_mul, Nat.zero_div, Nat.log2_zero, Nat.zero_sub, hround]
  exact Nat.min_zero _

theorem nearestMagnitude_le (n d : Nat) : nearestMagnitude n d ≤ infinityMagnitude :=
  Nat.min_le_left ..

theorem twoTo_52 : twoTo 52 = 4503599627370496 := rfl

theorem twoTo_63 : twoTo 63 = 9223372036854775808 := rfl

theorem infinityMagnitude_eq : infinityMagnitude = 9218868437227405312 := rfl

variable {x : Double}

theorem scale_mul_le_magnitude (x : Double) : x.scale * twoTo 52 ≤ x.magnitude := by
  have hle : x.scale ≤ x.magnitude / twoTo 52 := Nat.sub_le ..
  calc x.scale * twoTo 52
      ≤ x.magnitude / twoTo 52 * twoTo 52 := Nat.mul_le_mul_right _ hle
    _ ≤ x.magnitude := Nat.div_mul_le_self ..

theorem significand_lt (x : Double) : x.significand < twoTo 53 := by
  have h53 : twoTo 53 = 2 * twoTo 52 := rfl
  have hdiv := Nat.div_add_mod x.magnitude (twoTo 52)
  have hmod := Nat.mod_lt x.magnitude (twoTo_pos 52)
  unfold significand scale
  rw [h53, twoTo_52] at *
  omega

theorem le_significand (h : 0 < x.scale) : twoTo 52 ≤ x.significand := by
  have hdiv := Nat.div_add_mod x.magnitude (twoTo 52)
  unfold significand
  unfold scale at *
  rw [twoTo_52] at *
  omega

/-- The scale is what is left of the binary length of the value above that of the significand. -/
theorem log2_units (x : Double) : x.units.log2 - 52 = x.scale := by
  have hlt := significand_lt x
  unfold units
  rcases Nat.eq_zero_or_pos x.scale with hscale | hscale
  · rw [hscale]
    have hone : twoTo 0 = 1 := rfl
    rw [hone, Nat.mul_one]
    rcases Nat.eq_zero_or_pos x.significand with hzero | hpos
    · simp [hzero]
    · have := (Nat.log2_lt (Nat.ne_of_gt hpos)).mpr hlt
      omega
  · have hle := le_significand hscale
    have hpos : 0 < x.significand := Nat.lt_of_lt_of_le (twoTo_pos 52) hle
    have hunits : 0 < x.significand * twoTo x.scale := Nat.mul_pos hpos (twoTo_pos _)
    have hlog : (x.significand * twoTo x.scale).log2 = 52 + x.scale := by
      refine (Nat.log2_eq_iff (Nat.ne_of_gt hunits)).mpr ⟨?_, ?_⟩
      · rw [Nat.pow_add]
        exact Nat.mul_le_mul_right _ hle
      · rw [Nat.add_right_comm, Nat.pow_add]
        exact Nat.mul_lt_mul_of_pos_right hlt (twoTo_pos _)
    omega

/-- The magnitude nearest to the value of a finite number is its own. -/
theorem nearestMagnitude_units (h : x.isFinite = true) :
    nearestMagnitude x.units (twoTo 1074) = x.magnitude := by
  have hfinite : x.magnitude < infinityMagnitude := of_decide_eq_true h
  have hquotient : x.units * twoTo 1074 / twoTo 1074 = x.units :=
    Nat.mul_div_cancel _ (twoTo_pos _)
  have hround : roundQuotient (x.units * twoTo 1074) (twoTo 1074 * twoTo x.scale) =
      x.significand := by
    have := roundQuotient_self_mul x.significand
      (Nat.mul_pos (twoTo_pos 1074) (twoTo_pos x.scale))
    rwa [units, Nat.mul_right_comm, Nat.mul_assoc]
  have hsum : x.scale * twoTo 52 + x.significand = x.magnitude :=
    Nat.add_sub_cancel' (scale_mul_le_magnitude x)
  simp only [nearestMagnitude, hquotient, log2_units, hround, hsum]
  exact Nat.min_eq_right (Nat.le_of_lt hfinite)

theorem toNat_bits_ofMagnitude {negative : Bool} {m : Nat} (hm : m < twoTo 63) :
    (ofMagnitude negative m).bits.toNat = if negative then twoTo 63 + m else m := by
  rw [twoTo_63] at *
  simp only [ofMagnitude, UInt64.toNat_ofNat', twoTo_63]
  refine Nat.mod_eq_of_lt ?_
  split <;> omega

theorem magnitude_ofMagnitude {negative : Bool} {m : Nat} (hm : m < twoTo 63) :
    (ofMagnitude negative m).magnitude = m := by
  rw [magnitude, toNat_bits_ofMagnitude hm]
  split
  · rw [Nat.add_mod_left, Nat.mod_eq_of_lt hm]
  · exact Nat.mod_eq_of_lt hm

theorem ofMagnitude_magnitude (x : Double) : ofMagnitude x.negative x.magnitude = x := by
  have hlt : x.bits.toNat < 2 ^ 64 := x.bits.toNat_lt
  have hmagnitude :
      (if x.negative then twoTo 63 + x.magnitude else x.magnitude) = x.bits.toNat := by
    unfold negative magnitude
    by_cases hneg : twoTo 63 ≤ x.bits.toNat
    · rw [if_pos (decide_eq_true hneg)]
      rw [twoTo_63] at *
      omega
    · rw [if_neg (by simpa using hneg)]
      exact Nat.mod_eq_of_lt (Nat.lt_of_not_le hneg)
  rw [ofMagnitude, hmagnitude, UInt64.ofNat_toNat]

theorem magnitude_ofDecimal (negative : Bool) (whole fraction : List Char) :
    (ofDecimal negative whole fraction).magnitude =
      nearestMagnitude (Nat.ofDigitChars 10 (whole ++ fraction) 0) (tenTo fraction.length) := by
  refine magnitude_ofMagnitude (Nat.lt_of_le_of_lt (nearestMagnitude_le ..) ?_)
  rw [infinityMagnitude_eq, twoTo_63]
  omega

theorem isFinite_ofDecimal {negative : Bool} {whole fraction : List Char}
    (h : (ofDecimal negative whole fraction).isInfinite = false) :
    (ofDecimal negative whole fraction).isFinite = true := by
  have hle := nearestMagnitude_le (Nat.ofDigitChars 10 (whole ++ fraction) 0)
    (tenTo fraction.length)
  rw [← magnitude_ofDecimal negative] at hle
  exact decide_eq_true (Nat.lt_of_le_of_ne hle (by simpa [isInfinite] using h))

end Double

end MiniLisp
