import Mathlib.Algebra.Order.Field.Basic
import StockScreen.Proofs.Binary64.Decimals
import StockScreen.Proofs.Binary64.Values

namespace StockScreen.Magnitude

/-- No value is nearer to `q`, and another as near only where this one is even. -/
structure IsNearest (q : ℚ) (m : Magnitude) : Prop where
  nearest : ∀ n : Magnitude, |q - m.toRat| ≤ |q - n.toRat|
  even : ∀ n : Magnitude, n ≠ m → |q - n.toRat| = |q - m.toRat| → m.rank % 2 = 0

section Nearest

variable {n d : Nat}

def distance (scaled d rank : Nat) : Nat := ((scaled : Int) - (unitsOfRank rank * d : Nat)).natAbs

theorem abs_sub_toRat (n : Nat) (hd : 0 < d) (m : Magnitude) :
    |(n : ℚ) / d - m.toRat| = (distance (n * twoPow 1074) d m.rank : ℚ) / (d * twoPow 1074) := by
  have hd' : (0 : ℚ) < d := Nat.cast_pos.mpr hd
  have hunit := twoPow_cast_pos 1074
  rw [toRat, div_sub_div _ _ hd'.ne' hunit.ne', abs_div, abs_of_pos (mul_pos hd' hunit), distance,
    Nat.cast_natAbs, Int.cast_abs, Int.cast_sub, Int.cast_natCast, Int.cast_natCast, Nat.cast_mul,
    Nat.cast_mul, units, mul_comm (d : ℚ) (unitsOfRank m.rank)]

theorem nearestRank_cases (scaled : Nat) (hd : 0 < d) :
    ∃ floor, unitsOfRank floor * d ≤ scaled ∧ scaled < unitsOfRank (floor + 1) * d ∧
      (nearestRank scaled d = floor ∧
          2 * scaled ≤ unitsOfRank floor * d + unitsOfRank (floor + 1) * d ∧
          (2 * scaled = unitsOfRank floor * d + unitsOfRank (floor + 1) * d → floor % 2 = 0) ∨
        nearestRank scaled d = floor + 1 ∧
          unitsOfRank floor * d + unitsOfRank (floor + 1) * d ≤ 2 * scaled ∧
          (2 * scaled = unitsOfRank floor * d + unitsOfRank (floor + 1) * d → floor % 2 = 1)) := by
  obtain ⟨floor, hlow, hhigh, he⟩ := exists_floor scaled hd
  refine ⟨floor, hlow, hhigh, ?_⟩
  split at he
  · right
    omega
  · left
    omega

theorem distance_nearest (scaled : Nat) (hd : 0 < d) {rank : Nat} (hrank : rank ≤ infinityRank) :
    distance scaled d (min (nearestRank scaled d) infinityRank) ≤ distance scaled d rank ∧
      (rank ≠ min (nearestRank scaled d) infinityRank →
        distance scaled d rank = distance scaled d (min (nearestRank scaled d) infinityRank) →
        min (nearestRank scaled d) infinityRank % 2 = 0) := by
  obtain ⟨floor, hlow, hhigh, hnearest⟩ := nearestRank_cases scaled hd
  have hmono := scaled_strictMono hd
  have hlt {low high : Nat} (h : low < high) : unitsOfRank low * d < unitsOfRank high * d := hmono h
  simp only [distance]
  by_cases hlarge : infinityRank ≤ floor
  -- Beyond infinity every finite value is farther away.
  · have hmin : min (nearestRank scaled d) infinityRank = infinityRank :=
      Nat.min_eq_right (by omega)
    have hinfinity : unitsOfRank infinityRank * d ≤ unitsOfRank floor * d := hmono.monotone hlarge
    rw [hmin]
    rcases hrank.lt_or_eq with h | rfl
    · have hfinite := hlt h
      omega
    · omega
  · have hmin : min (nearestRank scaled d) infinityRank = nearestRank scaled d :=
      Nat.min_eq_left (by omega)
    have hcases : rank < floor ∨ rank = floor ∨ rank = floor + 1 ∨ floor + 1 < rank := by omega
    have hfar : (rank < floor → unitsOfRank rank * d < unitsOfRank floor * d) ∧
        (floor + 1 < rank → unitsOfRank (floor + 1) * d < unitsOfRank rank * d) := ⟨hlt, hlt⟩
    rw [hmin]
    rcases hnearest with ⟨he, hhalf, htie⟩ | ⟨he, hhalf, htie⟩
    · rw [he]
      rcases hcases with h | rfl | rfl | h <;> omega
    · rw [he]
      rcases hcases with h | rfl | rfl | h <;> omega

theorem isNearest_ofRatio (n : Nat) (hd : 0 < d) : IsNearest (n / d) (ofRatio n d) := by
  have hunit : (0 : ℚ) < d * twoPow 1074 := mul_pos (Nat.cast_pos.mpr hd) (twoPow_cast_pos 1074)
  constructor
  · intro m
    rw [abs_sub_toRat n hd, abs_sub_toRat n hd, div_le_div_iff_of_pos_right hunit, Nat.cast_le]
    exact (distance_nearest _ hd m.rank_le).1
  · intro m hne heq
    rw [abs_sub_toRat n hd, abs_sub_toRat n hd, div_left_inj' hunit.ne', Nat.cast_inj] at heq
    exact (distance_nearest _ hd m.rank_le).2 (fun h => hne (eq_of_rank h)) heq

end Nearest

section Infinity

variable {q : ℚ} {m : Magnitude}

/-- Half a step below the power of two that infinity stands for. -/
def overflowBound : ℚ := 2 ^ 1024 - 2 ^ 970

theorem twoPow_cast (k : Nat) : (twoPow k : ℚ) = 2 ^ k := by
  rw [twoPow, Nat.pow_eq, Nat.cast_pow, Nat.cast_ofNat]

theorem toRat_infinity : infinity.toRat = 2 ^ 1024 := by
  have hunits : infinity.units = twoPow 1024 * twoPow 1074 := unitsOfRank_infinityRank
  rw [toRat, hunits, Nat.cast_mul, mul_div_assoc, div_self (twoPow_cast_pos 1074).ne', mul_one,
    twoPow_cast]

theorem toRat_largest (hm : m.rank = infinityRank - 1) : m.toRat = 2 ^ 1024 - 2 ^ 971 := by
  have hrank : infinityRank - 1 = 2045 * twoPow 52 + (twoPow 53 - 1) := rfl
  have hgrid : unitsOfRank (2045 * twoPow 52 + (twoPow 53 - 1)) = (twoPow 53 - 1) * twoPow 2045 :=
    unitsOfRank_grid (.inr (by decide)) (Nat.sub_le _ _)
  have hsplit : twoPow 2045 = twoPow 971 * twoPow 1074 := twoPow_add 971 1074
  rw [toRat, units, hm, hrank, hgrid, hsplit, ← Nat.mul_assoc, Nat.cast_mul, mul_div_assoc,
    div_self (twoPow_cast_pos 1074).ne', mul_one, Nat.cast_mul, Nat.cast_sub (twoPow_pos 53),
    twoPow_cast, twoPow_cast, Nat.cast_one, sub_mul, one_mul, ← pow_add]

theorem rank_of_finite (hm : m.isInfinite = false) (n : Magnitude)
    (hn : n.rank = infinityRank - 1) :
    m.toRat ≤ n.toRat ∧ (m.toRat = n.toRat → m.rank % 2 = 1) := by
  have hne : m.rank ≠ infinityRank := beq_eq_false_iff_ne.mp hm
  have hle := m.rank_le
  have hodd : (infinityRank - 1) % 2 = 1 := by decide
  constructor
  · rw [toRat_le_iff, hn]
    omega
  · intro heq
    have hrank : n.rank ≤ m.rank := toRat_le_iff.mp heq.ge
    have hmn : m.rank = n.rank := by omega
    rw [hmn, hn, hodd]

/-- The nearest value is infinity from the overflow bound on, the bound itself among it, since the
largest finite value is odd. -/
theorem IsNearest.isInfinite_iff (h : m.IsNearest q) :
    m.isInfinite = true ↔ overflowBound ≤ q := by
  obtain ⟨n, hn⟩ : ∃ n : Magnitude, n.rank = infinityRank - 1 := ⟨⟨_, Nat.sub_le _ _⟩, rfl⟩
  have hinfinity := toRat_infinity
  have hlargest := toRat_largest hn
  rw [pow_succ' 2 970] at hlargest
  have hhalf : (0 : ℚ) < 2 ^ 970 := pow_pos two_pos 970
  rw [overflowBound]
  generalize (2 : ℚ) ^ 970 = half at hlargest hhalf ⊢
  generalize (2 : ℚ) ^ 1024 = top at hinfinity hlargest ⊢
  constructor
  · intro hm
    obtain rfl : m = infinity := eq_of_rank (beq_iff_eq.mp hm)
    have hle := h.nearest n
    rw [hinfinity, hlargest] at hle
    by_contra hlt
    have hfar : |q - (top - 2 * half)| < top - q := abs_lt.mpr ⟨by linarith, by linarith⟩
    linarith [neg_abs_le (q - top)]
  · intro hq
    by_contra hm
    obtain ⟨hfinite, hodd⟩ := rank_of_finite (Bool.not_eq_true _ ▸ hm) n hn
    have hle := h.nearest infinity
    have hdistance : |q - m.toRat| = q - m.toRat := abs_of_nonneg (by linarith)
    rw [hinfinity, hdistance] at hle
    have hbelow : |q - top| = top - q := by
      rcases abs_cases (q - top) with ⟨h', -⟩ | ⟨h', -⟩ <;> linarith
    -- Only the bound itself is left, as near to the largest finite value as to infinity.
    have htie : |q - infinity.toRat| = |q - m.toRat| := by
      rw [hinfinity, hdistance, hbelow]
      linarith
    have heven := h.even infinity (fun he => hm (he ▸ rfl)) htie
    rw [hodd (by linarith)] at heven
    contradiction

end Infinity

end StockScreen.Magnitude
