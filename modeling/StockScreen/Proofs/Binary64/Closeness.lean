import StockScreen.Proofs.Binary64.Brevity

/-!
How far roundings lead. One rounding changes a value by at most a part in `2 ^ 53`, and a value that
two of them have changed is rounded at most two places from where it would have been.
-/

namespace StockScreen

/-- `x` is at most `y` raised `k` times by a part in `2 ^ 53`. -/
def Within (k x y : Nat) : Prop := x * twoPow 53 ^ k ≤ y * (twoPow 53 + 1) ^ k

namespace Within

variable {j k x y z x' y' c : Nat}

theorem of_le (h : x ≤ y) : Within 0 x y := Nat.mul_le_mul_right _ h

theorem mul (h : Within j x y) (h' : Within k x' y') : Within (j + k) (x * x') (y * y') := by
  calc x * x' * twoPow 53 ^ (j + k) = x * twoPow 53 ^ j * (x' * twoPow 53 ^ k) := by ring
    _ ≤ y * (twoPow 53 + 1) ^ j * (y' * (twoPow 53 + 1) ^ k) := Nat.mul_le_mul h h'
    _ = y * y' * (twoPow 53 + 1) ^ (j + k) := by ring

theorem trans (h : Within j x y) (h' : Within k y z) : Within (j + k) x z := by
  calc x * twoPow 53 ^ (j + k) = x * twoPow 53 ^ j * twoPow 53 ^ k := by ring
    _ ≤ y * (twoPow 53 + 1) ^ j * twoPow 53 ^ k := Nat.mul_le_mul_right _ h
    _ = y * twoPow 53 ^ k * (twoPow 53 + 1) ^ j := by ring
    _ ≤ z * (twoPow 53 + 1) ^ k * (twoPow 53 + 1) ^ j := Nat.mul_le_mul_right _ h'
    _ = z * (twoPow 53 + 1) ^ (j + k) := by ring

theorem mul_right (h : Within k x y) (c : Nat) : Within k (x * c) (y * c) :=
  h.mul (of_le (Nat.le_refl c))

end Within

namespace Magnitude

section Gaps

variable {rank : Nat}

def gap (rank : Nat) : Nat := twoPow (rank / twoPow 52 - 1)

theorem gap_pos (rank : Nat) : 0 < gap rank := twoPow_pos _

theorem gap_le {low high : Nat} (h : low ≤ high) : gap low ≤ gap high :=
  twoPow_le (Nat.sub_le_sub_right (Nat.div_le_div_right h) 1)

theorem exists_units (rank : Nat) :
    ∃ below, unitsOfRank rank = below * gap rank ∧
      unitsOfRank (rank + 1) = (below + 1) * gap rank ∧ below < twoPow 53 ∧
      (twoPow 52 ≤ rank → twoPow 52 ≤ below) := by
  obtain ⟨step, below, rfl, h, hb⟩ := exists_grid rank
  have hs : step = 0 ∨ twoPow 52 ≤ below + 1 := h.imp_right Nat.le_succ_of_le
  have hstep : (step * twoPow 52 + below) / twoPow 52 - 1 = step := by
    rw [twoPow_53] at hb
    rw [twoPow_52] at h ⊢
    omega
  refine ⟨below, ?_, ?_, hb, ?_⟩
  · rw [unitsOfRank_grid h hb.le, gap, hstep]
  · rw [Nat.add_assoc, unitsOfRank_grid hs hb, gap, hstep]
  · rw [twoPow_52] at h ⊢
    omega

theorem unitsOfRank_succ (rank : Nat) : unitsOfRank (rank + 1) = unitsOfRank rank + gap rank := by
  obtain ⟨below, h, hnext, -⟩ := exists_units rank
  rw [h, hnext, Nat.add_mul, Nat.one_mul]

theorem gap_mul_le (h : twoPow 52 ≤ rank) : twoPow 52 * gap rank ≤ unitsOfRank rank := by
  obtain ⟨below, hunits, -, -, hleast⟩ := exists_units rank
  rw [hunits]
  exact Nat.mul_le_mul_right _ (hleast h)

theorem le_add_gap (rank : Nat) :
    unitsOfRank rank ≤ unitsOfRank (rank - 1) + gap rank := by
  cases rank with
  | zero => exact Nat.le_add_right _ _
  | succ rank =>
    rw [unitsOfRank_succ, Nat.add_sub_cancel]
    exact Nat.add_le_add_left (gap_le (Nat.le_succ rank)) _

theorem midpoint_lt (rank : Nat) :
    (unitsOfRank rank + unitsOfRank (rank + 1)) * (twoPow 53 + 1) ^ 2 <
      (unitsOfRank (rank + 2) + unitsOfRank (rank + 3)) * twoPow 53 ^ 2 := by
  obtain ⟨below, h, hnext, hb, -⟩ := exists_units rank
  have h₁ := gap_le (Nat.le_add_right rank 1)
  have h₂ := gap_le (Nat.le_add_right rank 2)
  have hfar : (2 * below + 5) * gap rank ≤ unitsOfRank (rank + 2) + unitsOfRank (rank + 3) := by
    rw [unitsOfRank_succ (rank + 2), unitsOfRank_succ (rank + 1), hnext]
    have hsum : (2 * below + 5) * gap rank = 2 * ((below + 1) * gap rank) + 3 * gap rank := by ring
    omega
  have hnear : unitsOfRank rank + unitsOfRank (rank + 1) = (2 * below + 1) * gap rank := by
    rw [h, hnext]
    ring
  have hfactor : (2 * below + 1) * (twoPow 53 + 1) ^ 2 < (2 * below + 5) * twoPow 53 ^ 2 := by
    rw [twoPow_53] at hb ⊢
    omega
  calc (unitsOfRank rank + unitsOfRank (rank + 1)) * (twoPow 53 + 1) ^ 2
      = (2 * below + 1) * (twoPow 53 + 1) ^ 2 * gap rank := by rw [hnear]; ring
    _ < (2 * below + 5) * twoPow 53 ^ 2 * gap rank :=
        Nat.mul_lt_mul_of_pos_right hfactor (gap_pos rank)
    _ = (2 * below + 5) * gap rank * twoPow 53 ^ 2 := by ring
    _ ≤ _ := Nat.mul_le_mul_right _ hfar

end Gaps

section Rounding

variable {n d n' d' : Nat}

theorem nearestRank_bounds (n : Nat) (hd : 0 < d) :
    unitsOfRank (nearestRank n d - 1) * d + unitsOfRank (nearestRank n d) * d ≤ 2 * n ∧
      2 * n ≤ unitsOfRank (nearestRank n d) * d + unitsOfRank (nearestRank n d + 1) * d := by
  obtain ⟨floor, hlow, hhigh, he⟩ := exists_floor n hd
  have hmono := scaled_strictMono hd
  have hbelow : unitsOfRank (floor - 1) * d ≤ unitsOfRank floor * d := hmono.monotone (by omega)
  have habove : unitsOfRank (floor + 1) * d < unitsOfRank (floor + 1 + 1) * d := hmono (by omega)
  rw [he]
  split
  · rw [Nat.add_sub_cancel]
    omega
  · rw [Nat.add_zero]
    omega

theorem nearestRank_lt_infinityRank (hd : 0 < d)
    (h : 2 * n < (unitsOfRank (infinityRank - 1) + unitsOfRank infinityRank) * d) :
    nearestRank n d < infinityRank := by
  obtain ⟨hlow, -⟩ := nearestRank_bounds n hd
  generalize nearestRank n d = rank at hlow ⊢
  by_contra hlt
  have hmono := scaled_strictMono hd
  have h₁ : unitsOfRank (infinityRank - 1) * d ≤ unitsOfRank (rank - 1) * d :=
    hmono.monotone (by omega)
  have h₂ : unitsOfRank infinityRank * d ≤ unitsOfRank rank * d := hmono.monotone (by omega)
  rw [Nat.add_mul] at h
  omega

/-- Values of which one is at most two roundings above the other are rounded to ranks of which one is
at most two places above the other. -/
theorem nearestRank_le_add_two (hd : 0 < d) (hd' : 0 < d') (h : Within 2 (n * d') (n' * d)) :
    nearestRank n d ≤ nearestRank n' d' + 2 := by
  obtain ⟨hlow, -⟩ := nearestRank_bounds n hd
  obtain ⟨-, hhigh⟩ := nearestRank_bounds n' hd'
  generalize nearestRank n d = r at hlow ⊢
  generalize nearestRank n' d' = r' at hhigh ⊢
  by_contra hlt
  have hmono := scaled_strictMono hd
  have h₂ : unitsOfRank (r' + 2) * d ≤ unitsOfRank (r - 1) * d := hmono.monotone (by omega)
  have h₃ : unitsOfRank (r' + 3) * d ≤ unitsOfRank r * d := hmono.monotone (by omega)
  have hsum : (unitsOfRank (r' + 2) + unitsOfRank (r' + 3)) * d ≤ 2 * n := by
    rw [Nat.add_mul]
    omega
  rw [← Nat.add_mul] at hhigh
  refine absurd (midpoint_lt r') (Nat.not_lt.mpr ?_)
  refine Nat.le_of_mul_le_mul_right ?_ (Nat.mul_pos hd hd')
  calc (unitsOfRank (r' + 2) + unitsOfRank (r' + 3)) * twoPow 53 ^ 2 * (d * d')
      = (unitsOfRank (r' + 2) + unitsOfRank (r' + 3)) * d * (d' * twoPow 53 ^ 2) := by ring
    _ ≤ 2 * n * (d' * twoPow 53 ^ 2) := Nat.mul_le_mul_right _ hsum
    _ = 2 * (n * d' * twoPow 53 ^ 2) := by ring
    _ ≤ 2 * (n' * d * (twoPow 53 + 1) ^ 2) := Nat.mul_le_mul_left 2 h
    _ = 2 * n' * (d * (twoPow 53 + 1) ^ 2) := by ring
    _ ≤ (unitsOfRank r' + unitsOfRank (r' + 1)) * d' * (d * (twoPow 53 + 1) ^ 2) :=
        Nat.mul_le_mul_right _ hhigh
    _ = (unitsOfRank r' + unitsOfRank (r' + 1)) * (twoPow 53 + 1) ^ 2 * (d * d') := by ring

def Near (m m' : Magnitude) : Prop := m.rank ≤ m'.rank + 2 ∧ m'.rank ≤ m.rank + 2

instance (m m' : Magnitude) : Decidable (Near m m') := inferInstanceAs (Decidable (_ ∧ _))

theorem near_ofRatio (hd : 0 < d) (hd' : 0 < d') (h : Within 2 (n * d') (n' * d))
    (h' : Within 2 (n' * d) (n * d')) : Near (ofRatio n d) (ofRatio n' d') := by
  have scaled {n d n' d' : Nat} (hd : 0 < d) (hd' : 0 < d') (h : Within 2 (n * d') (n' * d)) :
      (ofRatio n d).rank ≤ (ofRatio n' d').rank + 2 := by
    have hscaled := h.mul_right (twoPow 1074)
    rw [Nat.mul_right_comm, Nat.mul_right_comm n'] at hscaled
    have hrank := nearestRank_le_add_two hd hd' hscaled
    rw [ofRatio_rank, ofRatio_rank]
    omega
  exact ⟨scaled hd hd' h, scaled hd' hd h'⟩

theorem le_nearest {least : Nat} (n : Nat) (hd : 0 < d)
    (h : least * gap (nearestRank n d) ≤ unitsOfRank (nearestRank n d)) :
    n * (2 * least) ≤ unitsOfRank (nearestRank n d) * d * (2 * least + 1) := by
  obtain ⟨-, hhigh⟩ := nearestRank_bounds n hd
  rw [unitsOfRank_succ] at hhigh
  generalize unitsOfRank (nearestRank n d) = units at h hhigh ⊢
  calc n * (2 * least) = 2 * n * least := by ring
    _ ≤ (units * d + (units + gap (nearestRank n d)) * d) * least := Nat.mul_le_mul_right _ hhigh
    _ = units * d * (2 * least) + least * gap (nearestRank n d) * d := by ring
    _ ≤ units * d * (2 * least) + units * d := Nat.add_le_add_left (Nat.mul_le_mul_right _ h) _
    _ = units * d * (2 * least + 1) := by ring

/-- The values from which rounding keeps 53 places. -/
def Normal (n d : Nat) : Prop := twoPow 52 * d ≤ n

theorem Normal.le_of_lt (hd : 0 < d) (h : Normal n d) {floor : Nat}
    (hlt : n < unitsOfRank (floor + 1) * d) : twoPow 52 ≤ floor := by
  have hunits : unitsOfRank (twoPow 52) = twoPow 52 := by decide
  rw [Normal, ← hunits] at h
  exact Nat.le_of_lt_succ ((scaled_strictMono hd).lt_iff_lt.mp (h.trans_lt hlt))

theorem Normal.le_rank (hd : 0 < d) (h : Normal n d) : twoPow 52 ≤ nearestRank n d := by
  obtain ⟨floor, -, hhigh, he⟩ := exists_floor n hd
  have hfloor := h.le_of_lt hd hhigh
  omega

theorem Normal.le_nearest (hd : 0 < d) (h : Normal n d) :
    Within 1 n (unitsOfRank (nearestRank n d) * d) := by
  have hnearest := Magnitude.le_nearest n hd (gap_mul_le (h.le_rank hd))
  rwa [← twoPow_succ] at hnearest

theorem Normal.nearest_le (hd : 0 < d) (h : Normal n d) :
    Within 1 (unitsOfRank (nearestRank n d) * d) n := by
  obtain ⟨floor, hlow, hhigh, he⟩ := exists_floor n hd
  obtain ⟨below, hunits, hnext, -, hleast⟩ := exists_units floor
  have hbelow := hleast (h.le_of_lt hd hhigh)
  rw [he, Within, Nat.pow_one, Nat.pow_one]
  split
  · next hup =>
    rw [hunits, hnext, ← Nat.add_mul, ← Nat.add_mul] at hup
    rw [hnext]
    have hfactor : 2 * ((below + 1) * twoPow 53) ≤ (2 * below + 1) * (twoPow 53 + 1) := by
      rw [twoPow_52] at hbelow
      rw [twoPow_53]
      omega
    have hn : (2 * below + 1) * (gap floor * d) ≤ 2 * n := by
      have hsum : (below + (below + 1)) * gap floor * d = (2 * below + 1) * (gap floor * d) := by ring
      omega
    refine Nat.le_of_mul_le_mul_left ?_ Nat.two_pos
    calc 2 * ((below + 1) * gap floor * d * twoPow 53)
        = 2 * ((below + 1) * twoPow 53) * (gap floor * d) := by ring
      _ ≤ (2 * below + 1) * (twoPow 53 + 1) * (gap floor * d) := Nat.mul_le_mul_right _ hfactor
      _ = (2 * below + 1) * (gap floor * d) * (twoPow 53 + 1) := by ring
      _ ≤ 2 * n * (twoPow 53 + 1) := Nat.mul_le_mul_right _ hn
      _ = 2 * (n * (twoPow 53 + 1)) := by ring
  · exact Nat.mul_le_mul hlow (Nat.le_succ _)

end Rounding

end Magnitude

end StockScreen
