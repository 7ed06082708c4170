import Mathlib.Order.Monotone.Basic
import StockScreen.Binary64.Basic
import StockScreen.Binary64.Layout

namespace StockScreen

theorem twoPow_add (m n : Nat) : twoPow (m + n) = twoPow m * twoPow n := Nat.pow_add 2 m n

theorem twoPow_succ (n : Nat) : twoPow (n + 1) = 2 * twoPow n := Nat.pow_succ'

theorem twoPow_pos (n : Nat) : 0 < twoPow n := Nat.two_pow_pos n

theorem twoPow_le {m n : Nat} (h : m ≤ n) : twoPow m ≤ twoPow n :=
  Nat.pow_le_pow_right (by decide) h

theorem twoPow_52 : twoPow 52 = 4503599627370496 := rfl

theorem twoPow_53 : twoPow 53 = 9007199254740992 := rfl

theorem tenPow_add (m n : Nat) : tenPow (m + n) = tenPow m * tenPow n := Nat.pow_add 10 m n

theorem tenPow_pos (n : Nat) : 0 < tenPow n := Nat.pow_pos (by decide)

theorem twoPow_dvd_tenPow (n : Nat) : twoPow n ∣ tenPow n := ⟨Nat.pow 5 n, Nat.mul_pow 2 5 n⟩

theorem tenPow_le {m n : Nat} (h : m ≤ n) : tenPow m ≤ tenPow n :=
  Nat.pow_le_pow_right (by decide) h

namespace Magnitude

section Units

theorem unitsOfRank_grid {step below : Nat} (h : step = 0 ∨ twoPow 52 ≤ below)
    (hb : below ≤ twoPow 53) : unitsOfRank (step * twoPow 52 + below) = below * twoPow step := by
  rw [unitsOfRank, twoPow_52]
  rw [twoPow_52] at h
  rw [twoPow_53] at hb
  split
  · next hlt =>
    obtain rfl : step = 0 := by omega
    simp [twoPow]
  · next hge =>
    by_cases hlt : below < 9007199254740992
    · have hmod : (step * 4503599627370496 + below) % 4503599627370496 =
          below - 4503599627370496 := by omega
      have hdiv : (step * 4503599627370496 + below) / 4503599627370496 - 1 = step := by omega
      rw [hmod, hdiv, Nat.add_sub_cancel' (by omega)]
    -- The end of a binade is the beginning of the next one, on a grid twice as wide.
    · obtain rfl : below = 9007199254740992 := by omega
      have hmod : (step * 4503599627370496 + 9007199254740992) % 4503599627370496 = 0 := by omega
      have hdiv : (step * 4503599627370496 + 9007199254740992) / 4503599627370496 - 1 =
          step + 1 := by omega
      rw [hmod, hdiv, twoPow_succ]
      omega

theorem exists_grid (rank : Nat) :
    ∃ step below, rank = step * twoPow 52 + below ∧ (step = 0 ∨ twoPow 52 ≤ below) ∧
      below < twoPow 53 := by
  refine ⟨rank / twoPow 52 - 1, rank - (rank / twoPow 52 - 1) * twoPow 52, ?_⟩
  rw [twoPow_52, twoPow_53]
  omega

theorem unitsOfRank_lt_succ (rank : Nat) : unitsOfRank rank < unitsOfRank (rank + 1) := by
  obtain ⟨step, below, rfl, h, hb⟩ := exists_grid rank
  have hs : step = 0 ∨ twoPow 52 ≤ below + 1 := h.imp_right Nat.le_succ_of_le
  rw [unitsOfRank_grid h hb.le, Nat.add_assoc, unitsOfRank_grid hs hb, Nat.add_mul, Nat.one_mul]
  exact Nat.lt_add_of_pos_right (twoPow_pos step)

theorem unitsOfRank_strictMono : StrictMono unitsOfRank :=
  strictMono_nat_of_lt_succ unitsOfRank_lt_succ

theorem scaled_strictMono {d : Nat} (hd : 0 < d) : StrictMono fun rank => unitsOfRank rank * d := by
  intro low high h
  exact Nat.mul_lt_mul_of_pos_right (unitsOfRank_strictMono h) hd

end Units

section Rounding

theorem roundsTo_iff {rank n d : Nat} :
    roundsTo rank n d = true ↔
      if rank % 2 = 0 then
        unitsOfRank (rank - 1) * d + unitsOfRank rank * d ≤ 2 * n ∧
          2 * n ≤ unitsOfRank rank * d + unitsOfRank (rank + 1) * d
      else
        unitsOfRank (rank - 1) * d + unitsOfRank rank * d < 2 * n ∧
          2 * n < unitsOfRank rank * d + unitsOfRank (rank + 1) * d := by
  simp only [roundsTo, ← Nat.add_mul]
  split <;> simp

theorem roundsTo_self {rank d : Nat} (hr : 0 < rank) (hd : 0 < d) :
    roundsTo rank (unitsOfRank rank * d) d = true := by
  have hmono := scaled_strictMono hd
  have hlow : unitsOfRank (rank - 1) * d < unitsOfRank rank * d := hmono (by omega)
  have hhigh : unitsOfRank rank * d < unitsOfRank (rank + 1) * d := hmono (by omega)
  rw [roundsTo_iff]
  split <;> omega

/-- The rank to which `scaled / d` units round, if the ranks had no end. -/
def nearestRank (scaled d : Nat) : Nat :=
  let step := (scaled / d).log2 - 52
  let grid := d * twoPow step
  let below := scaled / grid
  let rest := scaled % grid
  let up := decide (grid < 2 * rest) || (decide (grid = 2 * rest) && decide (below % 2 = 1))
  step * twoPow 52 + below + if up then 1 else 0

theorem ofRatio_rank (n d : Nat) :
    (ofRatio n d).rank = min (nearestRank (n * twoPow 1074) d) infinityRank := rfl

theorem below_bounds (scaled : Nat) {d : Nat} :
    ((scaled / d).log2 - 52 = 0 ∨
        twoPow 52 ≤ scaled / (d * twoPow ((scaled / d).log2 - 52))) ∧
      scaled / (d * twoPow ((scaled / d).log2 - 52)) < twoPow 53 := by
  rw [← Nat.div_div_eq_div_mul]
  generalize scaled / d = quotient
  have hpos := twoPow_pos (quotient.log2 - 52)
  constructor
  · by_cases h : quotient.log2 - 52 = 0
    · exact .inl h
    · refine .inr ((Nat.le_div_iff_mul_le hpos).mpr ?_)
      have hne : quotient ≠ 0 := by
        rintro rfl
        exact h rfl
      calc twoPow 52 * twoPow (quotient.log2 - 52) = twoPow quotient.log2 := by
            rw [← twoPow_add]
            congr 1
            omega
        _ ≤ quotient := Nat.log2_self_le hne
  · refine (Nat.div_lt_iff_lt_mul hpos).mpr ?_
    calc quotient < twoPow (quotient.log2 + 1) := Nat.lt_log2_self
      _ ≤ twoPow (53 + (quotient.log2 - 52)) := twoPow_le (by omega)
      _ = twoPow 53 * twoPow (quotient.log2 - 52) := twoPow_add _ _

theorem exists_floor (scaled : Nat) {d : Nat} (hd : 0 < d) :
    ∃ rank, unitsOfRank rank * d ≤ scaled ∧ scaled < unitsOfRank (rank + 1) * d ∧
      nearestRank scaled d = rank + if
        unitsOfRank rank * d + unitsOfRank (rank + 1) * d < 2 * scaled ∨
          unitsOfRank rank * d + unitsOfRank (rank + 1) * d = 2 * scaled ∧ rank % 2 = 1
        then 1 else 0 := by
  -- The floor is the quotient on the grid of the binade, and the remainder compares with half a
  -- step of that grid as the quotient does with the midpoint.
  obtain ⟨hs, hb⟩ := below_bounds scaled (d := d)
  simp only [nearestRank]
  generalize (scaled / d).log2 - 52 = step at hs hb ⊢
  have hgrid : 0 < d * twoPow step := Nat.mul_pos hd (twoPow_pos step)
  have hdiv := Nat.div_add_mod scaled (d * twoPow step)
  have hrest := Nat.mod_lt scaled hgrid
  generalize scaled / (d * twoPow step) = below at hs hb hdiv ⊢
  generalize scaled % (d * twoPow step) = rest at hdiv hrest ⊢
  have hs' : step = 0 ∨ twoPow 52 ≤ below + 1 := hs.imp_right Nat.le_succ_of_le
  have hlow : unitsOfRank (step * twoPow 52 + below) * d = d * twoPow step * below := by
    rw [unitsOfRank_grid hs hb.le, Nat.mul_comm, Nat.mul_comm below, Nat.mul_assoc]
  have hhigh : unitsOfRank (step * twoPow 52 + below + 1) * d =
      d * twoPow step * below + d * twoPow step := by
    rw [Nat.add_assoc, unitsOfRank_grid hs' hb, Nat.mul_comm, Nat.mul_comm (below + 1),
      ← Nat.mul_assoc, Nat.mul_succ]
  have hparity : (step * twoPow 52 + below) % 2 = below % 2 := by
    rw [twoPow_52]
    omega
  refine ⟨step * twoPow 52 + below, ?_, ?_, ?_⟩
  · rw [hlow]
    omega
  · rw [hhigh]
    omega
  · rw [hlow, hhigh, hparity]
    generalize d * twoPow step * below = base at hdiv ⊢
    generalize d * twoPow step = grid at hdiv hrest ⊢
    simp only [Bool.or_eq_true, Bool.and_eq_true, decide_eq_true_eq]
    have hup : grid < 2 * rest ∨ grid = 2 * rest ∧ below % 2 = 1 ↔
        base + (base + grid) < 2 * scaled ∨
          base + (base + grid) = 2 * scaled ∧ below % 2 = 1 := by omega
    simp only [hup]

theorem nearestRank_eq {scaled d rank : Nat} (hd : 0 < d)
    (h : roundsTo rank scaled d = true) : nearestRank scaled d = rank := by
  obtain ⟨floor, hlow, hhigh, he⟩ := exists_floor scaled hd
  have hmono := scaled_strictMono hd
  rw [roundsTo_iff] at h
  have hbelow : rank ≤ floor + 1 := by
    by_contra hlt
    have h₁ : unitsOfRank (floor + 1) * d ≤ unitsOfRank (rank - 1) * d :=
      hmono.monotone (by omega)
    have h₂ : unitsOfRank (floor + 1) * d ≤ unitsOfRank rank * d := hmono.monotone (by omega)
    split at h <;> omega
  have habove : floor ≤ rank := by
    by_contra hlt
    have h₁ : unitsOfRank rank * d < unitsOfRank floor * d := hmono (by omega)
    have h₂ : unitsOfRank (rank + 1) * d ≤ unitsOfRank floor * d := hmono.monotone (by omega)
    split at h <;> omega
  rw [he]
  obtain rfl | rfl : rank = floor ∨ rank = floor + 1 := by omega
  · rw [if_neg (by split at h <;> omega), Nat.add_zero]
  · rw [Nat.add_sub_cancel] at h
    rw [if_pos (by split at h <;> omega)]

theorem rank_ofRatio {n d rank : Nat} (hd : 0 < d) (hr : rank ≤ infinityRank)
    (h : roundsTo rank (n * twoPow 1074) d = true) : (ofRatio n d).rank = rank := by
  rw [ofRatio_rank, nearestRank_eq hd h, Nat.min_eq_left hr]

theorem eq_of_rank {m₁ m₂ : Magnitude} (h : m₁.rank = m₂.rank) : m₁ = m₂ := by
  cases m₁
  cases m₂
  simp only at h
  subst h
  rfl

theorem ofRatio_eq {n d : Nat} {m : Magnitude} (hd : 0 < d)
    (h : roundsTo m.rank (n * twoPow 1074) d = true) : ofRatio n d = m :=
  eq_of_rank (rank_ofRatio hd m.rank_le h)

end Rounding

end Magnitude

end StockScreen
