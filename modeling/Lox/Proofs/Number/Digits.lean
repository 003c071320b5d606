import Lox.Proofs.Number.Decimals

/-!
# Seventeen digits are enough

The doubles around a large number lie further apart than the points of the decimal grid that
shows seventeen of its digits. The grid point next to the number is therefore less than half a
step away from it, or less than a quarter where the steps below are half as wide, and reads back.
So the fewest digits of a whole number of seventeen digits or more never go behind the point.
-/

namespace Lox.Number

/-! ## Rounding what is near -/

theorem roundHalfEven_near {num den n : Nat} (hlow : 2 * (n * den) < 2 * num + den)
    (hhigh : 2 * num < 2 * (n * den) + den) : roundHalfEven num den = n := by
  have hdiv := Nat.div_add_mod num den
  have hmod := Nat.mod_lt num (show 0 < den by omega)
  rw [Nat.mul_comm] at hdiv
  rw [roundHalfEven]
  by_cases hbelow : num < n * den
  · have hquotient : num / den + 1 = n := by
      have hlt : num / den < n := Nat.div_lt_of_lt_mul (Nat.mul_comm n den ▸ hbelow)
      have hle : n * den < (num / den + 2) * den := by
        rw [Nat.add_mul]
        omega
      have := Nat.lt_of_mul_lt_mul_right hle
      omega
    subst hquotient
    rw [Nat.add_mul] at hlow hhigh hbelow
    rw [if_neg (by omega)]
  · have hquotient : num / den = n := by
      refine Nat.le_antisymm ?_ ((Nat.le_div_iff_mul_le (by omega)).mpr (by omega))
      have hle : num / den * den < (n + 1) * den := by
        rw [Nat.add_mul]
        omega
      exact Nat.lt_succ_iff.mp (Nat.lt_of_mul_lt_mul_right hle)
    subst hquotient
    rw [if_pos (by omega)]

/-- Between two powers of two the shift is fixed, and only the significand is rounded. -/
theorem nearest_of_binade {num n shift : Nat}
    (hlow : 2 ^ 52 * 2 ^ shift ≤ num * unitsPerOne)
    (hhigh : num * unitsPerOne < 2 ^ 53 * 2 ^ shift)
    (hbelow : 2 * (n * 2 ^ shift) < 2 * (num * unitsPerOne) + 2 ^ shift)
    (habove : 2 * (num * unitsPerOne) < 2 * (n * 2 ^ shift) + 2 ^ shift) :
    nearest num 1 = ⟨n, shift⟩ := by
  rw [nearest]
  generalize num * unitsPerOne = scaled at *
  have hpos := Nat.two_pow_pos shift
  have hlog : scaled.log2 = 52 + shift := by
    refine (Nat.log2_eq_iff (by omega)).mpr ⟨?_, ?_⟩
    · rwa [Nat.pow_add]
    · rwa [Nat.add_right_comm, Nat.pow_add]
  have hround : roundHalfEven scaled (2 ^ shift) = n := roundHalfEven_near hbelow habove
  rw [Nat.div_one, Nat.one_mul, hlog, show 52 + shift + 1 - 53 = shift by omega]
  exact congrArg (Magnitude.mk · shift) hround

namespace Magnitude

variable {x : Magnitude}

/-- A full significand of 53 binary places is found again from any whole number that is at most
half a step away on the decimal grid of seventeen digits. -/
theorem Canonical.toBits_nearest (h : x.Canonical) (hfull : 2 ^ 52 ≤ x.significand)
    {num step : Nat} (hstep : 0 < step) (hfine : step * 10 ^ 16 ≤ x.units)
    (hlow : 2 * x.units ≤ 2 * (num * unitsPerOne) + step)
    (hhigh : 2 * (num * unitsPerOne) ≤ 2 * x.units + step) :
    (nearest num 1).toBits = x.toBits := by
  obtain ⟨significand, shift⟩ := x
  have hlt : significand < 2 ^ 53 := h.lt
  have hunits : (⟨significand, shift⟩ : Magnitude).units = significand * 2 ^ shift := rfl
  rw [hunits] at hfine hlow hhigh
  dsimp only at hfull
  have hupper : significand * 2 ^ shift ≤ (2 ^ 53 - 1) * 2 ^ shift :=
    Nat.mul_le_mul_right _ (by omega)
  by_cases hbinade : 2 ^ 52 * 2 ^ shift ≤ num * unitsPerOne
  · have hsame : nearest num 1 = ⟨significand, shift⟩ :=
      nearest_of_binade hbinade (by omega) (by omega) (by omega)
    rw [hsame]
  · -- the grid point has crossed into the steps of half the width: the number is where they end
    obtain rfl : significand = 2 ^ 52 := by
      rcases Nat.eq_or_lt_of_le hfull with heq | hgt
      · exact heq.symm
      · have hnext : (2 ^ 52 + 1) * 2 ^ shift ≤ significand * 2 ^ shift :=
          Nat.mul_le_mul_right _ hgt
        omega
    obtain ⟨shift, rfl⟩ : ∃ k, shift = k + 1 := by
      refine Nat.exists_eq_succ_of_ne_zero fun hzero => ?_
      subst hzero
      omega
    rw [Nat.pow_succ] at hfine hlow hhigh hbinade
    have hcarry : nearest num 1 = ⟨2 ^ 53, shift⟩ :=
      nearest_of_binade (by omega) (by omega) (by omega) (by omega)
    have hbits : shift * 2 ^ 52 + 2 ^ 53 = (shift + 1) * 2 ^ 52 + 2 ^ 52 := by omega
    rw [hcarry]
    exact congrArg (min · infinityBits) hbits

/-! ## The grid of seventeen digits -/

/-- What is found on a grid is a point of that grid. -/
theorem exponent_onGrid {tie : Tie} {exponent : Int} {d : Decimal}
    (h : x.onGrid tie exponent = some d) : d.exponent = exponent := by
  rw [onGrid] at h
  rcases of_choose h with ⟨rfl, -⟩ | ⟨rfl, -⟩ <;> rfl

theorem isSome_choose {tie : Tie} {low high : Decimal} {lowReads highReads : Bool}
    {twice den : Nat} (h : lowReads = true ∨ highReads = true) :
    (tie.choose low high lowReads highReads twice den).isSome = true := by
  unfold Tie.choose
  grind

theorem le_unitsPerOne : 2 ^ 53 ≤ unitsPerOne := by
  unfold unitsPerOne
  generalize hplaces : 1074 = places
  exact Nat.pow_le_pow_right Nat.two_pos (by omega)

theorem step_pos (places : Nat) : 0 < unitsPerOne * Nat.pow 10 places :=
  Nat.mul_pos (Nat.lt_of_lt_of_le (by decide) le_unitsPerOne) (Nat.pow_pos (by decide))

section Fine

variable (h : x.Canonical) (hfull : 2 ^ 52 ≤ x.significand) {places : Nat}
  (hfine : unitsPerOne * Nat.pow 10 places * 10 ^ 16 ≤ x.units)
include h hfull hfine

/-- A point of the grid that is half a step away or nearer reads back. -/
theorem Canonical.readsBack_near {digits : Nat}
    (hlow : 2 * x.units ≤ 2 * (unitsPerOne * Nat.pow 10 places * digits) +
      unitsPerOne * Nat.pow 10 places)
    (hhigh : 2 * (unitsPerOne * Nat.pow 10 places * digits) ≤ 2 * x.units +
      unitsPerOne * Nat.pow 10 places) :
    Decimal.readsBack ⟨digits, places⟩ x = true := by
  have hstep := step_pos places
  have hpoint : unitsPerOne * Nat.pow 10 places * digits =
      digits * Nat.pow 10 places * unitsPerOne := by
    rw [Nat.mul_comm, Nat.mul_comm unitsPerOne, Nat.mul_assoc]
  have hden : Decimal.den ⟨digits, places⟩ = 1 := by
    rw [Decimal.den, Int.toNat_of_nonpos (by dsimp only; omega)]
  rw [hpoint] at hlow hhigh
  rw [Decimal.readsBack, hden]
  exact decide_eq_true (h.toBits_nearest hfull hstep hfine hlow hhigh)

/-- The nearer of the two neighbours on the grid reads back, so the grid has a hit. -/
theorem Canonical.isSome_onGrid (tie : Tie) : (x.onGrid tie places).isSome = true := by
  have hdiv := Nat.div_add_mod x.units (unitsPerOne * Nat.pow 10 places)
  have hnum : x.units * Nat.pow 10 (-(places : Int)).toNat = x.units := by
    rw [Int.toNat_of_nonpos (by omega)]
    exact Nat.mul_one _
  rw [onGrid, hnum, Int.toNat_natCast]
  refine isSome_choose ?_
  by_cases hhalf : 2 * (x.units % (unitsPerOne * Nat.pow 10 places)) ≤
      unitsPerOne * Nat.pow 10 places
  · exact .inl (h.readsBack_near hfull hfine (by omega) (by omega))
  · have hmod := Nat.mod_lt x.units (step_pos places)
    refine .inr (h.readsBack_near hfull hfine ?_ ?_)
    · rw [Nat.mul_add, Nat.mul_one]
      omega
    · rw [Nat.mul_add, Nat.mul_one]
      omega

end Fine

/-- A number of one or more has all its binary places. -/
theorem Canonical.full_of_le (h : x.Canonical) (hone : unitsPerOne ≤ x.units) :
    2 ^ 52 ≤ x.significand := by
  rcases h.full with hshift | hfull
  · have hunits : x.units = x.significand := by
      rw [units, hshift]
      exact Nat.mul_one _
    have hunit := le_unitsPerOne
    have hlt := h.lt
    omega
  · exact hfull

/-- The search for the fewest digits of a whole number of seventeen digits or more ends before it
goes behind the point. -/
theorem Canonical.exponent_shortest (h : x.Canonical) (hlarge : 10 ^ 16 ≤ x.wholePart)
    (tie : Tie) : 0 ≤ (x.shortest tie).exponent := by
  have hunits : x.wholePart * unitsPerOne ≤ x.units := Nat.div_mul_le_self _ _
  have hone : unitsPerOne ≤ x.units :=
    Nat.le_trans (Nat.le_mul_of_pos_left _ (by omega)) hunits
  obtain ⟨places, hlength⟩ : ∃ places, (Nat.toDigits 10 x.wholePart).length = places + 17 := by
    have hnot := mt (Nat.length_toDigits_le_iff (n := x.wholePart) (k := 16)
      (show 1 < 10 by decide) (by decide)).mp (by omega)
    exact ⟨_, (Nat.sub_add_cancel (by omega)).symm⟩
  have hposition : x.position = places + 17 := by
    rw [position, if_pos hone, hlength]
    rfl
  have hfine : unitsPerOne * Nat.pow 10 places * 10 ^ 16 ≤ x.units := by
    have hnot := mt (Nat.length_toDigits_le_iff (n := x.wholePart) (k := places + 16)
      (show 1 < 10 by decide) (by omega)).mpr (by omega)
    refine Nat.le_trans ?_ hunits
    rw [Nat.mul_assoc, Nat.mul_comm]
    refine Nat.mul_le_mul_right _ ?_
    rw [show Nat.pow 10 places * 10 ^ 16 = 10 ^ (places + 16) from (Nat.pow_add 10 places 16).symm]
    omega
  have hgrid := h.isSome_onGrid (h.full_of_le hone) hfine tie
  have hfound : ((List.range 18).findSome? fun (i : Nat) =>
      x.onGrid tie (x.position - i)).isSome = true := by
    refine List.findSome?_isSome_iff.mpr ⟨17, List.mem_range.mpr (by decide), ?_⟩
    rwa [hposition, show ((places : Int) + 17 - (17 : Nat)) = places by omega]
  obtain ⟨d, hd⟩ := Option.isSome_iff_exists.mp hfound
  obtain ⟨i, hi, hd'⟩ := List.exists_of_findSome?_eq_some hd
  have hlt := List.mem_range.mp hi
  rw [shortest, hd, Option.getD_some, exponent_onGrid hd', hposition]
  omega

end Magnitude

end Lox.Number
