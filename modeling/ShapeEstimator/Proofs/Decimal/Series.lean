/-
  ShapeEstimator.Proofs.Decimal.Series
  ────────────────────────────────
  **SERIES IN WORKING PRECISION.**

  The terms of a series are of moderate size, and for such numbers working precision is all but exact:
  sums lose nothing, products and quotients by small numbers are off in the last places only.

      x + y            exact, where both sizes make six at most
      x / n            off by 10 ^ (-49)
      x · y            off by 10 ^ (-56)

  What is known of the running value and of the sum is an invariant of the steps.  It is carried to the
  end of the series, which is the first tiny term or the last step.
-/
import ShapeEstimator.Proofs.Decimal.Wide

namespace ShapeEstimator.Decimal.Wide

/-! ## §1. Sums. -/

section Sums

variable {x y z : Wide}

@[simp] theorem value_ofDecimal (x : Decimal) : (ofDecimal x).value = x.value := rfl

theorem value_eq_zero (h : x.coefficient = 0) : x.value = 0 := by
  simp [value, size, h, signed_zero]

/-- The digits at more places. -/
theorem size_eq_div {s : ℕ} (h : x.scale ≤ s) :
    x.size = ((x.coefficient * 10 ^ (s - x.scale) : ℕ) : ℚ) / 10 ^ s := by
  obtain ⟨d, rfl⟩ := Nat.exists_eq_add_of_le h
  rw [Nat.add_sub_cancel_left, size, pow_add]
  push_cast
  field_simp

/-- Digits of a number up to six have room at up to 57 places. -/
theorem lt_limit_of_le {m s : ℕ} (hs : s ≤ 57) (h : (m : ℚ) / 10 ^ s ≤ 6) : m < limit := by
  have hpow : (10 : ℚ) ^ s ≤ 10 ^ 57 := pow_le_pow_right₀ (by norm_num) hs
  rw [div_le_iff₀ (by positivity)] at h
  have hlt : (m : ℚ) < 2 ^ 192 := by
    calc (m : ℚ) ≤ 6 * 10 ^ s := h
      _ ≤ 6 * 10 ^ 57 := by linarith
      _ < 2 ^ 192 := by norm_num
  exact_mod_cast hlt

/-- Two signs that differ are opposite. -/
theorem negative_eq_not (h : x.negative ≠ y.negative) : y.negative = !x.negative :=
  Bool.eq_not.2 h.symm

/-- **Sums are exact** where there is room for them. -/
theorem exists_add (hx : x.scale ≤ 57) (hy : y.scale ≤ 57) (h : x.size + y.size ≤ 6) :
    ∃ z, x.add y = some z ∧ z.scale ≤ 57 ∧ z.value = x.value + y.value := by
  unfold add
  by_cases hx0 : x.coefficient = 0
  · exact ⟨y, by rw [if_pos hx0], hy, by rw [value_eq_zero hx0, zero_add]⟩
  by_cases hy0 : y.coefficient = 0
  · exact ⟨x, by rw [if_neg hx0, if_pos hy0], hx, by rw [value_eq_zero hy0, add_zero]⟩
  rw [if_neg hx0, if_neg hy0]
  dsimp only
  -- the digits of both at the greater number of places
  have hs : Nat.max x.scale y.scale ≤ 57 := max_le hx hy
  have hxsize := size_eq_div (x := x) (s := Nat.max x.scale y.scale) (Nat.le_max_left _ _)
  have hysize := size_eq_div (x := y) (s := Nat.max x.scale y.scale) (Nat.le_max_right _ _)
  generalize Nat.max x.scale y.scale = s at hs hxsize hysize ⊢
  generalize x.coefficient * 10 ^ (s - x.scale) = a at hxsize ⊢
  generalize y.coefficient * 10 ^ (s - y.scale) = b at hysize ⊢
  have hsum : ((a + b : ℕ) : ℚ) / 10 ^ s = x.size + y.size := by
    rw [hxsize, hysize, Nat.cast_add, add_div]
  have htotal : a + b < limit := lt_limit_of_le hs (hsum.trans_le h)
  rw [if_neg (by omega)]
  by_cases hsigns : x.negative = y.negative
  · rw [hsigns, if_neg (by simp), if_pos htotal]
    refine ⟨_, rfl, hs, ?_⟩
    calc signed y.negative (((a + b : ℕ) : ℚ) / 10 ^ s)
        = signed x.negative x.size + signed y.negative y.size := by
          rw [hsum, signed_add, hsigns]
      _ = x.value + y.value := rfl
  · -- the smaller number is taken from the greater one
    have hopposite : y.value = -signed x.negative y.size := by
      rw [value, negative_eq_not hsigns, signed_not]
    rw [if_pos (by simpa using hsigns)]
    by_cases hle : b ≤ a
    · rw [if_pos hle]
      refine ⟨_, rfl, hs, ?_⟩
      calc signed x.negative (((a - b : ℕ) : ℚ) / 10 ^ s)
          = signed x.negative (x.size - y.size) := by
            rw [Nat.cast_sub hle, sub_div, hxsize, hysize]
        _ = x.value + y.value := by rw [signed_sub, hopposite, ← sub_eq_add_neg, value]
    · rw [if_neg hle]
      refine ⟨_, rfl, hs, ?_⟩
      calc signed y.negative (((b - a : ℕ) : ℚ) / 10 ^ s)
          = -signed x.negative (y.size - x.size) := by
            rw [Nat.cast_sub (not_le.1 hle).le, sub_div, hxsize, hysize, negative_eq_not hsigns,
              signed_not]
        _ = x.value + y.value := by rw [signed_sub, hopposite, neg_sub, sub_eq_add_neg, value]

end Sums

/-! ## §2. Quotients by small numbers. -/

section Quotients

variable {x : Wide} {d Q s R : ℕ}

/-- Digits are taken until the places or the bits are used up, so the last place is far behind the
point. -/
theorem unit_le_of_stop (hQ : (Q : ℚ) / 10 ^ s ≤ 6)
    (h : Nat.min 9 ((192 - bitLength Q) * 77 / 256) = 0
      ∨ 57 < s + Nat.min 9 ((192 - bitLength Q) * 77 / 256)) :
    (1 : ℚ) / 10 ^ s ≤ 1 / 10 ^ 49 := by
  have hnine : Nat.min 9 ((192 - bitLength Q) * 77 / 256) ≤ 9 := Nat.min_le_left _ _
  rcases h with hbits | hplaces
  · -- there are 189 bits
    have hshort : (192 - bitLength Q) * 77 / 256 = 0 := by
      rcases Nat.min_eq_zero_iff.1 hbits with h | h
      · exact absurd h (by decide)
      · exact h
    have hlong : 189 ≤ bitLength Q := by omega
    have hQ0 : Q ≠ 0 := by
      rintro rfl
      exact absurd hlong (by decide)
    have hlog : 188 ≤ Q.log2 := by
      rw [bitLength, if_neg hQ0] at hlong
      omega
    have hbig : 2 ^ 188 ≤ Q := (Nat.le_log2 hQ0).1 hlog
    have hcast : (2 : ℚ) ^ 188 ≤ Q := by exact_mod_cast hbig
    have hroom : (6 : ℚ) * 10 ^ 49 ≤ 2 ^ 188 := by norm_num
    rw [div_le_iff₀ (by positivity)] at hQ
    apply one_div_le_one_div_of_le (by positivity)
    linarith
  · apply one_div_le_one_div_of_le (by positivity)
    exact pow_le_pow_right₀ (by norm_num) (by omega)

/-- A remainder is split into digits and a remainder. -/
theorem next_quotient (d Q s R p : ℕ) (hd : 0 < d) :
    (((Q * 10 ^ p + R * 10 ^ p / d : ℕ) : ℚ) + (R * 10 ^ p % d : ℕ) / d) / 10 ^ (s + p)
      = (Q + R / d) / 10 ^ s := by
  have hsplit : ((R * 10 ^ p / d : ℕ) : ℚ) + ((R * 10 ^ p % d : ℕ) : ℚ) / d = R * 10 ^ p / d := by
    have hmod : ((d * (R * 10 ^ p / d) + R * 10 ^ p % d : ℕ) : ℚ) = ((R * 10 ^ p : ℕ) : ℚ) := by
      rw [Nat.div_add_mod]
    push_cast at hmod
    field_simp
    linarith
  rw [Nat.cast_add, add_assoc, hsplit, pow_add]
  push_cast
  field_simp

/-- The quotient at the end is the one so far, or the next one. -/
theorem abs_sub_le_of_stop (hd : 0 < d) (hsize : ((Q : ℚ) + R / d) / 10 ^ s ≤ 6) (hR : R < d)
    (hstop : R = 0 ∨ Nat.min 9 ((192 - bitLength Q) * 77 / 256) = 0
      ∨ 57 < s + Nat.min 9 ((192 - bitLength Q) * 77 / 256))
    {m : ℕ} (hm : m = Q ∨ m = Q + 1 ∧ 0 < R) :
    |(m : ℚ) / 10 ^ s - (Q + R / d) / 10 ^ s| ≤ 1 / 10 ^ 49 := by
  have hdpos : (0 : ℚ) < d := by exact_mod_cast hd
  have hrest : (0 : ℚ) ≤ (R : ℚ) / d := by positivity
  have hrest' : (R : ℚ) / d < 1 := by
    rw [div_lt_one hdpos]
    exact_mod_cast hR
  by_cases hR0 : R = 0
  · have hmQ : m = Q := hm.resolve_right fun h => absurd hR0 h.2.ne'
    rw [hmQ, hR0, Nat.cast_zero, zero_div, add_zero, sub_self, abs_zero]
    positivity
  · have hQ : (Q : ℚ) / 10 ^ s ≤ 6 :=
      le_trans (div_le_div_of_nonneg_right (by linarith) (by positivity)) hsize
    have hunit := unit_le_of_stop hQ (hstop.resolve_left hR0)
    -- either digit is next to the exact quotient
    have hoff : |(m : ℚ) - (Q + R / d)| ≤ 1 := by
      rcases hm with rfl | ⟨rfl, -⟩
      · rw [abs_le]
        constructor <;> linarith
      · push_cast
        rw [abs_le]
        constructor <;> linarith
    rw [← sub_div, abs_div, abs_of_pos (show (0 : ℚ) < 10 ^ s by positivity)]
    exact (div_le_div_of_nonneg_right hoff (by positivity)).trans hunit

/-- A division that is continued is off in a place far behind the point. -/
theorem continueDivision_off (hd : 0 < d) (hs : s ≤ 57) (hsize : ((Q : ℚ) + R / d) / 10 ^ s ≤ 6)
    (hR : R < d) :
    (continueDivision d Q s R).2 ≤ 57
      ∧ |((continueDivision d Q s R).1 : ℚ) / 10 ^ (continueDivision d Q s R).2
          - (Q + R / d) / 10 ^ s| ≤ 1 / 10 ^ 49 := by
  -- every step keeps the exact quotient, so only the digit at the end is off
  induction Q, s, R using continueDivision.induct d with
  | case1 Q s R p hstop half hup =>
    have hpos : 0 < R := by
      rcases hup with h | h
      · exact Nat.lt_of_le_of_lt (Nat.zero_le _) h
      · exact h.1
    rw [continueDivision, dif_pos hstop, if_pos hup]
    exact ⟨hs, abs_sub_le_of_stop hd hsize hR hstop (Or.inr ⟨rfl, hpos⟩)⟩
  | case2 Q s R p hstop half hdown =>
    rw [continueDivision, dif_pos hstop, if_neg hdown]
    exact ⟨hs, abs_sub_le_of_stop hd hsize hR hstop (Or.inl rfl)⟩
  | case3 Q s R p hgo left ih =>
    have hplaces : s + p ≤ 57 := not_lt.1 fun h => hgo (Or.inr (Or.inr h))
    have hnext := next_quotient d Q s R p hd
    rw [continueDivision, dif_neg hgo]
    rw [hnext] at ih
    exact ih hplaces hsize (Nat.mod_lt _ hd)

/-- **Quotients by small numbers** are off in a place far behind the point. -/
theorem divSmall_off (hd : 0 < d) (hx : x.scale ≤ 57) (h : x.size ≤ 6) :
    (x.divSmall d).scale ≤ 57 ∧ |(x.divSmall d).value - x.value / d| ≤ 1 / 10 ^ 49 := by
  unfold divSmall
  split
  · rename_i hexact
    have hvalue : x.value / d = x.value := by
      rcases hexact with hx0 | rfl
      · rw [value_eq_zero hx0, zero_div]
      · rw [Nat.cast_one, div_one]
    rw [hvalue, sub_self, abs_zero]
    exact ⟨hx, by positivity⟩
  · have hdpos : (1 : ℚ) ≤ d := by exact_mod_cast hd
    have hquotient : ((x.coefficient / d : ℕ) + ((x.coefficient % d : ℕ) : ℚ) / d) / 10 ^ x.scale
        = x.size / d := by
      have hfirst := next_quotient d 0 x.scale x.coefficient 0 hd
      simp only [pow_zero, Nat.mul_one, Nat.add_zero, Nat.cast_zero, zero_add] at hfirst
      rw [hfirst, size]
      ring
    have hsize : x.size / d ≤ 6 := (div_le_self x.size_nonneg hdpos).trans h
    obtain ⟨hscale, hoff⟩ := continueDivision_off hd hx (hquotient ▸ hsize)
      (Nat.mod_lt x.coefficient hd)
    refine ⟨hscale, ?_⟩
    rw [hquotient] at hoff
    have hvalue : x.value / d = signed x.negative (x.size / d) := by
      rw [value, signed, signed]
      split <;> ring
    rw [hvalue]
    exact (abs_signed_sub x.negative _ _).trans_le hoff

end Quotients

/-! ## §3. Products and tiny terms. -/

section Products

variable {x y : Wide}

/-- Products of moderate size are there, and off in a place far behind the point. -/
theorem exists_product (h : x.size * y.size ≤ 6) :
    ∃ z, x.mul y = some z ∧ z.scale ≤ 57 ∧ |z.value - x.value * y.value| ≤ 1 / 10 ^ 55 := by
  have habs : |x.value * y.value| ≤ 6 := by rwa [abs_mul, abs_value, abs_value]
  obtain ⟨z, hz⟩ := exists_mul (lt_of_le_of_lt habs (by norm_num))
  obtain ⟨hrange, hoff, -⟩ := mul_isProduct hz
  refine ⟨z, hz, hrange.scale_le, hoff.trans ?_⟩
  have hmax : Max.max 1 |x.value * y.value| ≤ 6 := max_le (by norm_num) habs
  unfold productRoundoff
  linarith

/-- A tiny number is below the last place of a decimal. -/
theorem abs_le_of_isTiny (h : x.isTiny = true) : |x.value| ≤ 8 / 10 ^ 29 := by
  have hbound : ∀ {c s : ℕ}, x.coefficient < c → s ≤ x.scale → (c : ℚ) / 10 ^ s ≤ 8 / 10 ^ 29 →
      x.size ≤ 8 / 10 ^ 29 := by
    intro c s hc hs hle
    have hcast : (x.coefficient : ℚ) ≤ c := by exact_mod_cast hc.le
    have hpow : (10 : ℚ) ^ s ≤ 10 ^ x.scale := pow_le_pow_right₀ (by norm_num) hs
    exact le_trans (div_le_div₀ (by positivity) hcast (by positivity) hpow) hle
  rw [abs_value]
  unfold isTiny at h
  simp only [Bool.or_eq_true, Bool.and_eq_true, beq_iff_eq, decide_eq_true_eq] at h
  rcases h with ((hzero | ⟨hc, hs⟩) | ⟨hc, hs⟩) | ⟨hc, hs⟩
  · rw [size, hzero, Nat.cast_zero, zero_div]
    norm_num
  · exact hbound hc hs (by norm_num)
  · exact hbound hc hs (by norm_num)
  · exact hbound hc hs (by norm_num)

end Products

/-! ## §4. Series. -/

section Series

variable {next : ℕ → Wide → Option (Wide × Wide)} {I : ℕ → Wide → Wide → Prop} {P : Wide → Prop}

/-- **Series.**  What every step keeps of the running value and the sum holds up to the end.  The sum
has a property if it has it after a tiny term and after the last step. -/
theorem sumSeries_of_invariant (last : ℕ)
    (hstep : ∀ index t s, index < last → I index t s →
      ∃ t' u s', next index t = some (t', u) ∧ s.add u = some s' ∧ I (index + 1) t' s'
        ∧ (u.isTiny = true → P s'))
    (hlast : ∀ t s, I last t s → P s) :
    ∀ steps index t s, index + steps = last → I index t s →
      ∃ w, sumSeries next steps index t s = some w ∧ P w := by
  intro steps
  -- the index goes up as the steps that are left go down
  induction steps with
  | zero =>
    intro index t s hindex h
    cases hindex
    exact ⟨s, rfl, hlast t s h⟩
  | succ steps ih =>
    intro index t s hindex h
    obtain ⟨t', u, s', hnext, hadd, hkept, htiny⟩ := hstep index t s (by omega) h
    rw [sumSeries, hnext, Option.bind_some]
    dsimp only
    rw [hadd, Option.bind_some]
    by_cases hend : u.isTiny = true
    · rw [if_pos hend]
      exact ⟨s', rfl, htiny hend⟩
    · rw [if_neg hend]
      exact ih (index + 1) t' s' (by omega) hkept

end Series

end ShapeEstimator.Decimal.Wide
