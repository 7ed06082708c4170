import StockScreen.Json.Numeral
import StockScreen.Proofs.Binary64.Closeness
import StockScreen.Proofs.Binary64.Tokens

/-!
What documents read from the digits of a number. The significand is rounded, the power of ten is, and
so is their product or quotient: two roundings as a rule, and the result is at most two places from
the nearest number. Where the first two are exact the result is the nearest number.
-/

namespace StockScreen

namespace Magnitude

section Largest

def powerSignificand : Nat := 5010420900022432

theorem powerOfTen_308 :
    (powerOfTen 308).units = powerSignificand * twoPow 2045 ∧
      tenPow 308 * twoPow 1074 ≤ powerSignificand * twoPow 2045 ∧
      powerSignificand * twoPow 2045 * (20 * twoPow 52) ≤
        tenPow 308 * twoPow 1074 * (20 * twoPow 52 + 1) ∧
      twoPow 52 * (powerSignificand * twoPow 2045) * (twoPow 53 + 1) ≤
        3 * twoPow 1074 * twoPow 53 * twoPow 1074 := by
  decide +kernel

theorem limits_308 :
    2 * (tenPow 308 * twoPow 1074) <
        (unitsOfRank (infinityRank - 1) + unitsOfRank infinityRank) * 1 ∧
      2 * (2 * (tenPow 19 * twoPow 1074) * twoPow 1074) <
        (unitsOfRank (infinityRank - 1) + unitsOfRank infinityRank) *
          (powerSignificand * twoPow 2045) := by
  decide +kernel

end Largest

section Whole

variable {n : Nat}

theorem nearestRank_whole_lt (hn : n ≤ tenPow 308) :
    nearestRank (n * twoPow 1074) 1 < infinityRank := by
  obtain ⟨hlimit, -⟩ := limits_308
  have hle := Nat.mul_le_mul_right (twoPow 1074) hn
  exact nearestRank_lt_infinityRank Nat.one_pos ((Nat.mul_le_mul_left 2 hle).trans_lt hlimit)

theorem ofNat_units (hn : n ≤ tenPow 308) :
    (ofNat n).units = unitsOfRank (nearestRank (n * twoPow 1074) 1) := by
  rw [units, ofNat, ofRatio_rank, Nat.min_eq_left (nearestRank_whole_lt hn).le]

theorem normal_whole (hpos : 0 < n) : Normal (n * twoPow 1074) 1 := by
  have h : twoPow 52 ≤ twoPow 1074 := twoPow_le (by decide)
  rw [Normal, Nat.mul_one]
  exact h.trans (Nat.le_mul_of_pos_left _ hpos)

theorem whole_le_ofNat (hpos : 0 < n) (hn : n ≤ tenPow 308) :
    Within 1 (n * twoPow 1074) (ofNat n).units := by
  have h := (normal_whole hpos).le_nearest Nat.one_pos
  rwa [Nat.mul_one, ← ofNat_units hn] at h

theorem ofNat_le_whole (hpos : 0 < n) (hn : n ≤ tenPow 308) :
    Within 1 (ofNat n).units (n * twoPow 1074) := by
  have h := (normal_whole hpos).nearest_le Nat.one_pos
  rwa [Nat.mul_one, ← ofNat_units hn] at h

theorem ofNat_units_pos (hpos : 0 < n) (hn : n ≤ tenPow 308) : 0 < (ofNat n).units := by
  refine Nat.pos_of_ne_zero fun hzero => ?_
  have hle := whole_le_ofNat hpos hn
  rw [hzero, Within, Nat.zero_mul] at hle
  have hlt := Nat.mul_pos (Nat.mul_pos hpos (twoPow_pos 1074)) (Nat.pow_pos (n := 1) (twoPow_pos 53))
  omega

theorem powerOfTen_units_pos {k : Nat} (hk : k ≤ 308) : 0 < (powerOfTen k).units :=
  ofNat_units_pos (tenPow_pos k) (tenPow_le hk)

end Whole

section OneStep

variable {s k : Nat}

theorem mul_power_near (hpos : 0 < s) (hs : s ≤ tenPow 308) (hk : k ≤ 308) :
    Near ((ofNat s).mul (powerOfTen k)) (ofRatio (s * tenPow k) 1) := by
  have htwice : twoPow 2148 = twoPow 1074 * twoPow 1074 := twoPow_add 1074 1074
  have hpower := tenPow_pos k
  have hup := (ofNat_le_whole hpos hs).mul (ofNat_le_whole hpower (tenPow_le hk))
  have hdown := (whole_le_ofNat hpos hs).mul (whole_le_ofNat hpower (tenPow_le hk))
  rw [Nat.mul_mul_mul_comm, ← htwice] at hup hdown
  rw [mul]
  refine near_ofRatio (twoPow_pos _) Nat.one_pos ?_ ?_
  · rw [Nat.mul_one]
    exact hup
  · rw [Nat.mul_one]
    exact hdown

theorem div_power_near (hpos : 0 < s) (hs : s ≤ tenPow 308) (hk : k ≤ 308) :
    Near ((ofNat s).div (powerOfTen k)) (ofRatio s (tenPow k)) := by
  have hpower := tenPow_pos k
  have hscale := twoPow_pos 1074
  have hup := (ofNat_le_whole hpos hs).mul (whole_le_ofNat hpower (tenPow_le hk))
  have hdown := (whole_le_ofNat hpos hs).mul (ofNat_le_whole hpower (tenPow_le hk))
  have hunits := powerOfTen_units_pos hk
  rw [div, ← ofRatio_mul_right s (tenPow k) hscale]
  exact near_ofRatio hunits (Nat.mul_pos hpower hscale) hup hdown

end OneStep

section TwoSteps

def largeSignificand : Nat := 5009804225486940

/-- A number and its quotient by the largest power of ten do not both have a small significand, so
not both of them are rounded by as much as a number can be. -/
theorem significands_large {a b x y : Nat} (ha : twoPow 52 ≤ a) (hb : twoPow 52 ≤ b)
    (hlow : 2 * b * (powerSignificand * twoPow y) ≤
      2 * (a * twoPow x) + powerSignificand * twoPow y)
    (hhigh : 2 * (a * twoPow x) ≤ (2 * b + 1) * (powerSignificand * twoPow y)) :
    largeSignificand ≤ a ∨ largeSignificand ≤ b := by
  by_contra hsmall
  obtain ⟨hsa, hsb⟩ := not_or.mp hsmall
  have hy := twoPow_pos y
  rw [twoPow_52] at ha hb
  rw [largeSignificand] at hsa hsb
  by_cases hxy : y + 53 ≤ x
  · have hpower : twoPow 53 * twoPow y ≤ twoPow x := by
      rw [← twoPow_add, Nat.add_comm]
      exact twoPow_le hxy
    have hfactor : (2 * b + 1) * powerSignificand < 2 * a * twoPow 53 := by
      rw [powerSignificand, twoPow_53]
      omega
    refine absurd hhigh (Nat.not_le.mpr ?_)
    calc (2 * b + 1) * (powerSignificand * twoPow y)
        = (2 * b + 1) * powerSignificand * twoPow y := (Nat.mul_assoc _ _ _).symm
      _ < 2 * a * twoPow 53 * twoPow y := Nat.mul_lt_mul_of_pos_right hfactor hy
      _ = 2 * (a * (twoPow 53 * twoPow y)) := by ring
      _ ≤ 2 * (a * twoPow x) := Nat.mul_le_mul_left 2 (Nat.mul_le_mul_left a hpower)
  · have hpower : twoPow x ≤ twoPow 52 * twoPow y := by
      rw [← twoPow_add, Nat.add_comm]
      exact twoPow_le (by omega)
    have hfactor : 2 * a * twoPow 52 + powerSignificand < 2 * b * powerSignificand := by
      rw [powerSignificand, twoPow_52]
      omega
    refine absurd hlow (Nat.not_le.mpr ?_)
    calc 2 * (a * twoPow x) + powerSignificand * twoPow y
        ≤ 2 * (a * (twoPow 52 * twoPow y)) + powerSignificand * twoPow y :=
          Nat.add_le_add_right (Nat.mul_le_mul_left 2 (Nat.mul_le_mul_left a hpower)) _
      _ = (2 * a * twoPow 52 + powerSignificand) * twoPow y := by ring
      _ < 2 * b * powerSignificand * twoPow y := Nat.mul_lt_mul_of_pos_right hfactor hy
      _ = 2 * b * (powerSignificand * twoPow y) := Nat.mul_assoc _ _ _

theorem significand_large {rank x y : Nat} (hrank : twoPow 52 ≤ rank)
    (hquotient : twoPow 52 ≤
      nearestRank (unitsOfRank rank * twoPow x) (powerSignificand * twoPow y)) :
    largeSignificand * gap rank ≤ unitsOfRank rank ∨
      largeSignificand *
          gap (nearestRank (unitsOfRank rank * twoPow x) (powerSignificand * twoPow y)) ≤
        unitsOfRank (nearestRank (unitsOfRank rank * twoPow x) (powerSignificand * twoPow y)) := by
  have hpower : 0 < powerSignificand * twoPow y := Nat.mul_pos (by decide) (twoPow_pos y)
  obtain ⟨hlow, hhigh⟩ := nearestRank_bounds (unitsOfRank rank * twoPow x) hpower
  generalize nearestRank (unitsOfRank rank * twoPow x) (powerSignificand * twoPow y) = quotient
    at hquotient hlow hhigh ⊢
  obtain ⟨a, ha, -, -, haleast⟩ := exists_units rank
  obtain ⟨b, hb, hnext, -, hbleast⟩ := exists_units quotient
  have hbefore := Nat.mul_le_mul_right (powerSignificand * twoPow y) (le_add_gap quotient)
  have hnumber : unitsOfRank rank * twoPow x = a * twoPow (rank / twoPow 52 - 1 + x) := by
    rw [ha, twoPow_add, Nat.mul_assoc, gap]
  have hgrid (c : Nat) : c * gap quotient * (powerSignificand * twoPow y) =
      c * (powerSignificand * twoPow (quotient / twoPow 52 - 1 + y)) := by
    rw [twoPow_add, gap]
    ring
  have hone := hgrid 1
  rw [hnumber] at hlow hhigh
  rw [hnext, hb, hgrid, hgrid] at hhigh
  rw [Nat.add_mul, hb, hgrid] at hbefore
  rw [hb, hgrid] at hlow
  rw [Nat.one_mul, Nat.one_mul] at hone
  rw [hone] at hbefore
  have hlarge := significands_large (haleast hrank) (hbleast hquotient)
    (x := rank / twoPow 52 - 1 + x) (y := quotient / twoPow 52 - 1 + y) (by
      rw [Nat.mul_assoc]
      omega) (by
      rw [Nat.add_mul, Nat.mul_assoc, Nat.one_mul]
      rw [Nat.add_mul, Nat.one_mul] at hhigh
      omega)
  rw [ha, hb]
  exact hlarge.imp (Nat.mul_le_mul_right _) (Nat.mul_le_mul_right _)

variable {s k : Nat}

def firstQuotient (s : Nat) : Magnitude := (ofNat s).div (powerOfTen 308)

theorem firstQuotient_units (hpos : 0 < s) (hs : s ≤ tenPow 19) :
    (firstQuotient s).units =
      unitsOfRank (nearestRank ((ofNat s).units * twoPow 1074) (powerOfTen 308).units) := by
  have hlimit : s ≤ tenPow 308 := hs.trans (tenPow_le (by decide))
  have hunits : (ofNat s).units ≤ 2 * (tenPow 19 * twoPow 1074) := by
    have hle := ofNat_le_whole hpos hlimit
    have hscaled := Nat.mul_le_mul_right (twoPow 1074) hs
    rw [Within, Nat.pow_one, Nat.pow_one, twoPow_53] at hle
    generalize s * twoPow 1074 = scaled at hle hscaled
    generalize tenPow 19 * twoPow 1074 = limit at hscaled ⊢
    omega
  obtain ⟨-, hbound⟩ := limits_308
  obtain ⟨hpower, -⟩ := powerOfTen_308
  have hlt : nearestRank ((ofNat s).units * twoPow 1074) (powerOfTen 308).units < infinityRank := by
    refine nearestRank_lt_infinityRank (powerOfTen_units_pos (Nat.le_refl 308)) ?_
    rw [hpower]
    refine Nat.lt_of_le_of_lt ?_ hbound
    exact Nat.mul_le_mul_left 2 (Nat.mul_le_mul_right _ hunits)
  have hrank : (firstQuotient s).rank =
      nearestRank ((ofNat s).units * twoPow 1074) (powerOfTen 308).units := by
    rw [firstQuotient, div, ofRatio_rank]
    exact Nat.min_eq_left hlt.le
  rw [units.eq_def (firstQuotient s), hrank]

theorem firstQuotient_normal (hthree : 3 ≤ s) (hs : s ≤ tenPow 308) :
    Normal ((ofNat s).units * twoPow 1074) (powerOfTen 308).units := by
  have hle := whole_le_ofNat (Nat.lt_of_lt_of_le (by decide) hthree) hs
  obtain ⟨hpower, -, -, hbound⟩ := powerOfTen_308
  rw [Within, Nat.pow_one, Nat.pow_one] at hle
  rw [Normal, hpower]
  have hfactor : 0 < twoPow 53 + 1 := Nat.succ_pos _
  refine Nat.le_of_mul_le_mul_right ?_ hfactor
  calc twoPow 52 * (powerSignificand * twoPow 2045) * (twoPow 53 + 1)
      ≤ 3 * twoPow 1074 * twoPow 53 * twoPow 1074 := hbound
    _ ≤ s * twoPow 1074 * twoPow 53 * twoPow 1074 := by gcongr
    _ ≤ (ofNat s).units * (twoPow 53 + 1) * twoPow 1074 := Nat.mul_le_mul_right _ hle
    _ = (ofNat s).units * twoPow 1074 * (twoPow 53 + 1) := Nat.mul_right_comm _ _ _

theorem quotient_le {value number power tens scale : Nat} (hpower : 0 < power)
    (hnormal : Normal (number * scale) power) (hnumber : Within 1 number value)
    (htens : tens ≤ power) :
    Within 2 (unitsOfRank (nearestRank (number * scale) power) * tens) (value * scale) := by
  have hdivide := Within.of_le (Nat.mul_le_mul_left
    (unitsOfRank (nearestRank (number * scale) power)) htens)
  exact (hdivide.trans (hnormal.nearest_le hpower)).trans (hnumber.mul_right scale)

/-- Three roundings, of a number, of the power of ten and of their quotient, lower a value by no more
than two can, unless the number and the quotient both have a small significand. -/
theorem le_quotient {a b value number quotient power tens scale : Nat}
    (h : a = largeSignificand ∧ b = twoPow 52 ∨ a = twoPow 52 ∧ b = largeSignificand)
    (hnumber : value * (2 * a) ≤ number * (2 * a + 1))
    (hquotient : number * scale * (2 * b) ≤ quotient * power * (2 * b + 1))
    (hpower : power * (20 * twoPow 52) ≤ tens * (20 * twoPow 52 + 1)) :
    Within 2 (value * scale) (quotient * tens) := by
  have hfactor : 0 < 2 * a * (2 * b) * (20 * twoPow 52) ∧
      (2 * a + 1) * (2 * b + 1) * (20 * twoPow 52 + 1) * twoPow 53 ^ 2 ≤
        2 * a * (2 * b) * (20 * twoPow 52) * (twoPow 53 + 1) ^ 2 := by
    rcases h with ⟨rfl, rfl⟩ | ⟨rfl, rfl⟩ <;> rw [largeSignificand, twoPow_52, twoPow_53] <;>
      decide
  generalize 20 * twoPow 52 = c at hpower hfactor
  refine Nat.le_of_mul_le_mul_right ?_ hfactor.1
  calc value * scale * twoPow 53 ^ 2 * (2 * a * (2 * b) * c)
      = value * (2 * a) * (scale * (2 * b) * c * twoPow 53 ^ 2) := by ring
    _ ≤ number * (2 * a + 1) * (scale * (2 * b) * c * twoPow 53 ^ 2) :=
        Nat.mul_le_mul_right _ hnumber
    _ = number * scale * (2 * b) * ((2 * a + 1) * c * twoPow 53 ^ 2) := by ring
    _ ≤ quotient * power * (2 * b + 1) * ((2 * a + 1) * c * twoPow 53 ^ 2) :=
        Nat.mul_le_mul_right _ hquotient
    _ = power * c * (quotient * (2 * b + 1) * (2 * a + 1) * twoPow 53 ^ 2) := by ring
    _ ≤ tens * (c + 1) * (quotient * (2 * b + 1) * (2 * a + 1) * twoPow 53 ^ 2) :=
        Nat.mul_le_mul_right _ hpower
    _ = quotient * tens * ((2 * a + 1) * (2 * b + 1) * (c + 1) * twoPow 53 ^ 2) := by ring
    _ ≤ quotient * tens * (2 * a * (2 * b) * c * (twoPow 53 + 1) ^ 2) :=
        Nat.mul_le_mul_left _ hfactor.2
    _ = quotient * tens * (twoPow 53 + 1) ^ 2 * (2 * a * (2 * b) * c) := by ring

theorem firstQuotient_le (hthree : 3 ≤ s) (hs : s ≤ tenPow 19) :
    Within 2 ((firstQuotient s).units * (tenPow 308 * twoPow 1074))
      (s * twoPow 1074 * twoPow 1074) := by
  have hpos : 0 < s := Nat.lt_of_lt_of_le (by decide) hthree
  have hlimit : s ≤ tenPow 308 := hs.trans (tenPow_le (by decide))
  have hpower := powerOfTen_units_pos (Nat.le_refl 308)
  obtain ⟨hunits, htens, -⟩ := powerOfTen_308
  rw [← hunits] at htens
  rw [firstQuotient_units hpos hs]
  exact quotient_le hpower (firstQuotient_normal hthree hlimit) (ofNat_le_whole hpos hlimit) htens

theorem le_firstQuotient (hthree : 3 ≤ s) (hs : s ≤ tenPow 19) :
    Within 2 (s * twoPow 1074 * twoPow 1074)
      ((firstQuotient s).units * (tenPow 308 * twoPow 1074)) := by
  have hpos : 0 < s := Nat.lt_of_lt_of_le (by decide) hthree
  have hlimit : s ≤ tenPow 308 := hs.trans (tenPow_le (by decide))
  have hpower := powerOfTen_units_pos (Nat.le_refl 308)
  obtain ⟨hunits, -, htens, -⟩ := powerOfTen_308
  have hrank := (normal_whole hpos).le_rank Nat.one_pos
  have hquotient := (firstQuotient_normal hthree hlimit).le_rank hpower
  have hnumber {a : Nat} (ha : a * gap (nearestRank (s * twoPow 1074) 1) ≤
      unitsOfRank (nearestRank (s * twoPow 1074) 1)) :
      s * twoPow 1074 * (2 * a) ≤
        unitsOfRank (nearestRank (s * twoPow 1074) 1) * (2 * a + 1) := by
    have hnearest := le_nearest (s * twoPow 1074) Nat.one_pos ha
    rwa [Nat.mul_one] at hnearest
  rw [firstQuotient_units hpos hs, ofNat_units hlimit]
  rw [ofNat_units hlimit] at hquotient
  rw [hunits] at hpower hquotient ⊢
  rcases significand_large hrank hquotient with hlarge | hlarge
  · exact le_quotient (.inl ⟨rfl, rfl⟩) (hnumber hlarge)
      (le_nearest _ hpower (gap_mul_le hquotient)) htens
  · exact le_quotient (.inr ⟨rfl, rfl⟩) (hnumber (gap_mul_le hrank))
      (le_nearest _ hpower hlarge) htens

theorem powerOfTen_exact (hk : k ≤ 22) : (powerOfTen k).units = tenPow k * twoPow 1074 := by
  have h : ∀ k ≤ 22, (powerOfTen k).units = tenPow k * twoPow 1074 := by decide +kernel
  exact h k hk

theorem div_twice_near (hthree : 3 ≤ s) (hs : s ≤ tenPow 19) (hk : k ≤ 22) :
    Near ((firstQuotient s).div (powerOfTen k)) (ofRatio s (tenPow (308 + k))) := by
  have hup := (firstQuotient_le hthree hs).mul_right (tenPow k)
  have hdown := (le_firstQuotient hthree hs).mul_right (tenPow k)
  have hscale := twoPow_pos 1074
  have htens (n : Nat) : n * (tenPow 308 * twoPow 1074) * tenPow k =
      n * (tenPow (308 + k) * twoPow 1074) := by
    rw [tenPow_add]
    ring
  have hwhole (n : Nat) : n * twoPow 1074 * twoPow 1074 * tenPow k =
      n * twoPow 1074 * (tenPow k * twoPow 1074) := by ring
  rw [htens, hwhole] at hup hdown
  rw [div, powerOfTen_exact hk, ← ofRatio_mul_right s (tenPow (308 + k)) hscale]
  exact near_ofRatio (Nat.mul_pos (tenPow_pos k) hscale) (Nat.mul_pos (tenPow_pos _) hscale) hup hdown

theorem div_twice_near_small (hthree : s < 3) (hk : k ≤ 16) :
    Near ((firstQuotient s).div (powerOfTen k)) (ofRatio s (tenPow (308 + k))) := by
  have h : ∀ s < 3, ∀ k ≤ 16,
      Near ((firstQuotient s).div (powerOfTen k)) (ofRatio s (tenPow (308 + k))) := by
    decide +kernel
  exact h s hthree k hk

end TwoSteps

section Exact

variable {n k : Nat}

theorem exists_rank (hpos : 0 < n) (hn : n ≤ twoPow 53) :
    ∃ rank, 0 < rank ∧ rank ≤ infinityRank ∧ unitsOfRank rank = n * twoPow 1074 := by
  generalize hj : 52 - n.log2 = j
  have hlow : twoPow 52 ≤ n * twoPow j := by
    calc twoPow 52 ≤ twoPow (n.log2 + j) := twoPow_le (by omega)
      _ = twoPow n.log2 * twoPow j := twoPow_add _ _
      _ ≤ n * twoPow j := Nat.mul_le_mul_right _ (Nat.log2_self_le hpos.ne')
  have hhigh : n * twoPow j ≤ twoPow 53 := by
    by_cases hzero : j = 0
    · rw [hzero]
      exact (Nat.mul_one n).trans_le hn
    · calc n * twoPow j ≤ twoPow (n.log2 + 1) * twoPow j :=
            Nat.mul_le_mul_right _ Nat.lt_log2_self.le
        _ = twoPow (n.log2 + 1 + j) := (twoPow_add _ _).symm
        _ ≤ twoPow 53 := twoPow_le (by omega)
  refine ⟨(1074 - j) * twoPow 52 + n * twoPow j, ?_, ?_, ?_⟩
  · rw [twoPow_52] at hlow
    omega
  · have hinfinity : infinityRank = 2047 * twoPow 52 := rfl
    rw [hinfinity, twoPow_52]
    rw [twoPow_53] at hhigh
    omega
  · rw [unitsOfRank_grid (.inr hlow) hhigh, Nat.mul_assoc, ← twoPow_add]
    congr 2
    omega

theorem ofNat_exact (hn : n ≤ twoPow 53) : (ofNat n).units = n * twoPow 1074 := by
  by_cases hzero : n = 0
  · have hrank : (ofNat 0).rank = 0 := by rw [ofNat, ofRatio_eq_zero Nat.one_pos (by omega), zero]
    rw [hzero, Nat.zero_mul, units, hrank]
    rfl
  · obtain ⟨rank, hpos, hrank, hunits⟩ := exists_rank (Nat.pos_of_ne_zero hzero) hn
    have hself := roundsTo_self hpos Nat.one_pos
    rw [hunits, Nat.mul_one] at hself
    rw [units, ofNat, rank_ofRatio Nat.one_pos hrank hself, hunits]

theorem mul_exact (hn : n ≤ twoPow 53) (hk : k ≤ 22) :
    (ofNat n).mul (powerOfTen k) = ofRatio (n * tenPow k) 1 := by
  have htwice : twoPow 2148 = 1 * (twoPow 1074 * twoPow 1074) := by
    rw [Nat.one_mul, ← twoPow_add]
  rw [mul, ofNat_exact hn, powerOfTen_exact hk, Nat.mul_mul_mul_comm, htwice]
  exact ofRatio_mul_right _ _ (Nat.mul_pos (twoPow_pos _) (twoPow_pos _))

theorem div_exact (hn : n ≤ twoPow 53) (hk : k ≤ 22) :
    (ofNat n).div (powerOfTen k) = ofRatio n (tenPow k) := by
  rw [div, ofNat_exact hn, powerOfTen_exact hk]
  exact ofRatio_mul_right _ _ (twoPow_pos _)

end Exact

end Magnitude

namespace Json

open Magnitude

section Powers

variable {m : Magnitude} {fuel k : Nat}

theorem scale_up (hk : k ≤ largestPower) (hfinite : (m.mul (powerOfTen k)).rank < infinityRank) :
    scale fuel m k = some (m.mul (powerOfTen k)) := by
  have hinfinite : (m.mul (powerOfTen k)).isInfinite = false := beq_eq_false_iff_ne.mpr hfinite.ne
  rw [scale.eq_def]
  simp only [Int.natAbs_natCast, if_pos hk, if_pos (Int.natCast_nonneg k), hinfinite]
  rfl

theorem scale_down (hpos : 0 < k) (hk : k ≤ largestPower) :
    scale fuel m (-k) = some (m.div (powerOfTen k)) := by
  have hneg : ¬(0 : Int) ≤ -k := by omega
  rw [scale.eq_def]
  simp only [Int.natAbs_neg, Int.natAbs_natCast, if_pos hk, if_neg hneg]

theorem scale_down_twice (hm : m ≠ .zero) (hpos : 0 < k) (hk : k ≤ largestPower) :
    scale (fuel + 1) m (-(largestPower + k : Nat)) =
      some ((m.div (powerOfTen largestPower)).div (powerOfTen k)) := by
  have hneg : ¬(0 : Int) ≤ -(largestPower + k : Nat) := by omega
  have hlarge : ¬largestPower + k ≤ largestPower := by omega
  have hrest : -((largestPower + k : Nat) : Int) + largestPower = -k := by omega
  rw [scale.eq_def]
  simp only [Int.natAbs_neg, Int.natAbs_natCast, if_neg hlarge, if_neg hm, if_neg hneg, hrest]
  exact scale_down hpos hk

end Powers

theorem numerator_up (s k : Nat) :
    Decimal.numerator ⟨s, k⟩ = s * tenPow k ∧ Decimal.denominator ⟨s, k⟩ = 1 := by
  have hdown : (-(k : Int)).toNat = 0 := by omega
  rw [Decimal.denominator, hdown]
  exact ⟨rfl, rfl⟩

theorem numerator_down (s k : Nat) :
    Decimal.numerator ⟨s, -k⟩ = s ∧ Decimal.denominator ⟨s, -k⟩ = tenPow k := by
  have hup : (-(k : Int)).toNat = 0 := by omega
  have hdown : (-(-(k : Int))).toNat = k := by omega
  rw [Decimal.numerator, Decimal.denominator, hup, hdown]
  exact ⟨Nat.mul_one s, rfl⟩

/-- The digits of a decimal that is not next to the largest number are read as a number at most two
places from the nearest one. -/
theorem scale_near {d : Decimal} (hpos : 0 < d.significand) (hd : d.Brief)
    (hlimit : (ofRatio d.numerator d.denominator).rank + 2 < infinityRank) :
    ∃ m, scale 3 (.ofNat d.significand) d.exponent = some m ∧ m.rank < infinityRank ∧
      Near m (ofRatio d.numerator d.denominator) := by
  obtain ⟨s, e⟩ := d
  obtain ⟨hs, hmin, hmax⟩ := hd
  simp only at hpos hs hmin hmax
  have hs' : s ≤ tenPow 308 := hs.trans (tenPow_le (by decide))
  by_cases he : 0 ≤ e
  · obtain ⟨k, rfl⟩ := Int.eq_ofNat_of_zero_le he
    have hk : k ≤ 308 := by omega
    have hnear := mul_power_near hpos hs' hk
    obtain ⟨hnumerator, hdenominator⟩ := numerator_up s k
    rw [hnumerator, hdenominator] at hlimit ⊢
    have hfinite := Nat.lt_of_le_of_lt hnear.1 hlimit
    exact ⟨_, scale_up hk hfinite, hfinite, hnear⟩
  · obtain ⟨k, rfl⟩ : ∃ k : Nat, e = -k := ⟨e.natAbs, by omega⟩
    obtain ⟨hnumerator, hdenominator⟩ := numerator_down s k
    rw [hnumerator, hdenominator] at hlimit ⊢
    by_cases hk : k ≤ 308
    · have hnear := div_power_near hpos hs' hk
      exact ⟨_, scale_down (by omega) hk, Nat.lt_of_le_of_lt hnear.1 hlimit, hnear⟩
    · obtain ⟨k, rfl⟩ := Nat.exists_eq_add_of_lt (Nat.lt_of_not_le hk)
      have hzero : ofNat s ≠ .zero := by
        intro h
        have hunits := ofNat_units_pos hpos hs'
        rw [h] at hunits
        exact absurd hunits (by decide)
      have hnear : Near ((firstQuotient s).div (powerOfTen (k + 1)))
          (ofRatio s (tenPow (308 + (k + 1)))) := by
        by_cases hthree : 3 ≤ s
        · exact div_twice_near hthree hs (by omega)
        · exact div_twice_near_small (Nat.lt_of_not_le hthree) (by omega)
      have hk' : k + 1 ≤ 308 := by omega
      exact ⟨_, scale_down_twice hzero k.succ_pos hk', Nat.lt_of_le_of_lt hnear.1 hlimit, hnear⟩

theorem scale_exact {d : Decimal} (hs : d.significand ≤ twoPow 53) (he : d.exponent.natAbs ≤ 22)
    (hfinite : (ofRatio d.numerator d.denominator).rank < infinityRank) :
    scale 3 (.ofNat d.significand) d.exponent = some (ofRatio d.numerator d.denominator) := by
  obtain ⟨s, e⟩ := d
  simp only at hs he
  by_cases hup : 0 ≤ e
  · obtain ⟨k, rfl⟩ := Int.eq_ofNat_of_zero_le hup
    have hk : k ≤ 22 := by omega
    have hk' : k ≤ 308 := hk.trans (by decide)
    obtain ⟨hnumerator, hdenominator⟩ := numerator_up s k
    rw [hnumerator, hdenominator, ← mul_exact hs hk] at hfinite ⊢
    exact scale_up hk' hfinite
  · obtain ⟨k, rfl⟩ : ∃ k : Nat, e = -k := ⟨e.natAbs, by omega⟩
    have hk : k ≤ 22 := by omega
    have hk' : k ≤ 308 := hk.trans (by decide)
    obtain ⟨hnumerator, hdenominator⟩ := numerator_down s k
    rw [hnumerator, hdenominator, ← div_exact hs hk]
    exact scale_down (by omega) hk'

end Json

end StockScreen
