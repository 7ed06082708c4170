import Mathlib.Tactic.Ring
import StockScreen.Proofs.Binary64.ReadBack

namespace StockScreen

namespace Magnitude

section Gaps

theorem unitsOfRank_lt_gap (rank : Nat) :
    unitsOfRank rank < twoPow 53 * (unitsOfRank (rank + 1) - unitsOfRank rank) := by
  obtain ⟨step, below, rfl, h, hb⟩ := exists_grid rank
  have hs : step = 0 ∨ twoPow 52 ≤ below + 1 := h.imp_right Nat.le_succ_of_le
  rw [Nat.add_assoc, unitsOfRank_grid hs hb, unitsOfRank_grid h hb.le, Nat.add_mul, Nat.one_mul,
    Nat.add_sub_cancel_left]
  exact Nat.mul_lt_mul_of_pos_right hb (twoPow_pos step)

theorem gap_le_twice (rank : Nat) :
    unitsOfRank (rank + 2) + 2 * unitsOfRank rank ≤ 3 * unitsOfRank (rank + 1) := by
  obtain ⟨step, below, rfl, h, hb⟩ := exists_grid rank
  have hs : step = 0 ∨ twoPow 52 ≤ below + 1 := h.imp_right Nat.le_succ_of_le
  have hnext : unitsOfRank (step * twoPow 52 + below + 1) = (below + 1) * twoPow step := by
    rw [Nat.add_assoc, unitsOfRank_grid hs hb]
  have hlast : unitsOfRank (step * twoPow 52 + below + 2) ≤ (below + 3) * twoPow step := by
    by_cases hlt : below + 2 ≤ twoPow 53
    · have hs₂ : step = 0 ∨ twoPow 52 ≤ below + 2 := h.imp_right (Nat.le_add_right_of_le ·)
      rw [Nat.add_assoc, unitsOfRank_grid hs₂ hlt]
      exact Nat.mul_le_mul_right _ (by omega)
    -- Here the binade ends, and the next gap is twice as wide.
    · have hrank : step * twoPow 52 + below + 2 = (step + 1) * twoPow 52 + (twoPow 52 + 1) := by
        rw [twoPow_53] at hb hlt
        rw [twoPow_52]
        omega
      have hgrid : twoPow 52 + 1 ≤ twoPow 53 := by decide
      rw [hrank, unitsOfRank_grid (.inr (Nat.le_succ _)) hgrid, twoPow_succ step, ← Nat.mul_assoc]
      refine Nat.mul_le_mul_right _ ?_
      rw [twoPow_53] at hlt
      rw [twoPow_52]
      omega
  rw [unitsOfRank_grid h hb.le, hnext]
  have hsum : (below + 3) * twoPow step + 2 * (below * twoPow step) =
      3 * ((below + 1) * twoPow step) := by
    ring
  omega

end Gaps

section Search

variable {tie : Tie} {rank : Nat} {exponent : Int}

def wholePart (rank : Nat) (exponent : Int) : Nat :=
  unitsOfRank rank * tenPow (-exponent).toNat / (twoPow 1074 * tenPow exponent.toNat)

theorem scale_eq (exponent : Int) :
    (if exponent < 0 then tenPow (-exponent).toNat else 1) = tenPow (-exponent).toNat := by
  split
  · rfl
  · next h =>
    have hzero : (-exponent).toNat = 0 := by omega
    rw [hzero]
    rfl

theorem grid_eq (exponent : Int) :
    (if exponent < 0 then 1 else tenPow exponent.toNat) = tenPow exponent.toNat := by
  split
  · next h =>
    have hzero : exponent.toNat = 0 := by omega
    rw [hzero]
    rfl
  · rfl

theorem grid_pos (exponent : Int) : 0 < twoPow 1074 * tenPow exponent.toNat :=
  Nat.mul_pos (twoPow_pos _) (tenPow_pos _)

theorem onGrid?_eq_some {d : Decimal} (h : onGrid? tie rank exponent = some d) :
    d.exponent = exponent ∧ d.significand ≤ wholePart rank exponent + 1 := by
  unfold onGrid? at h
  extract_lets scale grid scaled below rest at h
  have hbelow : wholePart rank exponent = below := by
    rw [wholePart, ← scale_eq exponent, ← grid_eq exponent]
  rw [hbelow]
  split at h
  · obtain rfl := Option.some.inj h
    refine ⟨rfl, ?_⟩
    rcases tie.choose_cases below rest grid with hc | hc
    · rw [hc]
      exact Nat.le_succ below
    · rw [hc]
  · obtain rfl := Option.some.inj h
    exact ⟨rfl, Nat.le_succ below⟩
  · obtain rfl := Option.some.inj h
    exact ⟨rfl, Nat.le_refl _⟩
  · contradiction

/-- On a grid whose step is less than three quarters of the gap above a value, one of the two
neighbours is nearer to the value than the midpoint on its side. -/
theorem roundsTo_neighbour {scale grid : Nat} (hs : 0 < scale) (hr : 0 < rank)
    (h : 4 * grid < 3 * ((unitsOfRank (rank + 1) - unitsOfRank rank) * scale)) (hg : 0 < grid) :
    roundsTo rank (unitsOfRank rank * scale / grid * grid) scale = true ∨
      roundsTo rank ((unitsOfRank rank * scale / grid + 1) * grid) scale = true := by
  have hgap := Nat.mul_le_mul_right scale (gap_le_twice (rank - 1))
  have hbefore : rank - 1 + 1 = rank := Nat.sub_add_cancel hr
  have hafter : rank - 1 + 2 = rank + 1 := by omega
  have hmono := scaled_strictMono hs
  have hlow : unitsOfRank (rank - 1) * scale < unitsOfRank rank * scale := hmono (by omega)
  have hhigh : unitsOfRank rank * scale < unitsOfRank (rank + 1) * scale := hmono (by omega)
  have hdiv := Nat.div_add_mod (unitsOfRank rank * scale) grid
  have hmod := Nat.mod_lt (unitsOfRank rank * scale) hg
  rw [hbefore, hafter, Nat.add_mul, Nat.mul_assoc, Nat.mul_assoc] at hgap
  rw [Nat.sub_mul] at h
  rw [roundsTo_iff, roundsTo_iff, Nat.add_mul (_ / _), Nat.one_mul, Nat.mul_comm (_ / _)]
  generalize grid * (unitsOfRank rank * scale / grid) = below at hdiv ⊢
  generalize unitsOfRank rank * scale % grid = rest at hdiv hmod
  split <;> omega

theorem onGrid?_isSome (hr : 0 < rank)
    (h : 4 * (twoPow 1074 * tenPow exponent.toNat) <
      3 * ((unitsOfRank (rank + 1) - unitsOfRank rank) * tenPow (-exponent).toNat)) :
    (onGrid? tie rank exponent).isSome = true := by
  have hs := tenPow_pos (-exponent).toNat
  have hg := grid_pos exponent
  rw [← scale_eq exponent] at hs h
  rw [← grid_eq exponent] at hg h
  unfold onGrid?
  extract_lets scale grid scaled below rest
  have hhit : roundsTo rank (below * grid) scale = true ∨
      roundsTo rank ((below + 1) * grid) scale = true := roundsTo_neighbour hs hr h hg
  cases hbelow : roundsTo rank (below * grid) scale with
  | true => split <;> simp_all
  | false => simp_all

theorem firstHit_le {d : Decimal} (steps : Nat) (h : firstHit tie rank exponent steps = some d) :
    d.exponent ≤ exponent ∧ d.significand ≤ wholePart rank d.exponent + 1 := by
  induction steps generalizing exponent with
  | zero =>
    obtain ⟨he, hs⟩ := onGrid?_eq_some h
    rw [he]
    exact ⟨Int.le_refl _, hs⟩
  | succ steps ih =>
    rw [firstHit] at h
    split at h
    · next hd =>
      obtain rfl := Option.some.inj h
      obtain ⟨he, hs⟩ := onGrid?_eq_some hd
      rw [he]
      exact ⟨Int.le_refl _, hs⟩
    · obtain ⟨he, hs⟩ := ih h
      exact ⟨by omega, hs⟩

theorem le_firstHit {d : Decimal} {fine : Int} (hfine : (onGrid? tie rank fine).isSome = true)
    (steps : Nat) (he : fine ≤ exponent) (h : firstHit tie rank exponent steps = some d) :
    fine ≤ d.exponent := by
  induction steps generalizing exponent with
  | zero => rwa [(onGrid?_eq_some h).1]
  | succ steps ih =>
    rw [firstHit] at h
    split at h
    · next hd =>
      obtain rfl := Option.some.inj h
      rwa [(onGrid?_eq_some hd).1]
    · next hnone =>
      refine ih ?_ h
      have hne : fine ≠ exponent := by
        rintro rfl
        rw [hnone] at hfine
        contradiction
      omega

end Search

section Range

variable {rank : Nat} {exponent : Int}

def startExponent (log : Nat) : Int := ((log : Int) - 1073) * 30103 / 100000 + 1

theorem startExponent_bounds : ∀ log ∈ List.range 2098,
    twoPow (log + 1) * tenPow (-startExponent log).toNat ≤
        twoPow 1074 * tenPow (startExponent log).toNat ∧
      twoPow 1074 * tenPow (startExponent log - 2).toNat ≤
        twoPow log * tenPow (2 - startExponent log).toNat ∧
      -323 ≤ startExponent log := by
  decide +kernel

theorem log2_lt_of_lt_twoPow {n k : Nat} (hn : n ≠ 0) (h : n < twoPow k) : n.log2 < k :=
  (Nat.log2_lt hn).mpr h

theorem unitsOfRank_pos (hr : 0 < rank) : 0 < unitsOfRank rank :=
  (Nat.zero_le _).trans_lt (unitsOfRank_strictMono hr)

theorem unitsOfRank_lt (hr : rank < infinityRank) : unitsOfRank rank < twoPow 1024 * twoPow 1074 :=
  unitsOfRank_infinityRank ▸ unitsOfRank_strictMono hr

theorem exponentAbove_bounds (hr : 0 < rank) (hfinite : rank < infinityRank) :
    unitsOfRank rank * tenPow (-exponentAbove rank).toNat <
        twoPow 1074 * tenPow (exponentAbove rank).toNat ∧
      twoPow 1074 * tenPow (exponentAbove rank - 2).toNat ≤
        unitsOfRank rank * tenPow (2 - exponentAbove rank).toNat ∧
      -323 ≤ exponentAbove rank := by
  have hne : unitsOfRank rank ≠ 0 := (unitsOfRank_pos hr).ne'
  have hlow : twoPow (unitsOfRank rank).log2 ≤ unitsOfRank rank := Nat.log2_self_le hne
  have hhigh : unitsOfRank rank < twoPow ((unitsOfRank rank).log2 + 1) := Nat.lt_log2_self
  have hlt := unitsOfRank_lt hfinite
  rw [← twoPow_add] at hlt
  have hlog : (unitsOfRank rank).log2 < 1024 + 1074 := log2_lt_of_lt_twoPow hne hlt
  obtain ⟨habove, hbelow, hmin⟩ := startExponent_bounds _ (List.mem_range.mpr hlog)
  exact ⟨(Nat.mul_lt_mul_of_pos_right hhigh (tenPow_pos _)).trans_le habove,
    hbelow.trans (Nat.mul_le_mul_right _ hlow), hmin⟩

theorem wholePart_lt (hr : 0 < rank) (hfinite : rank < infinityRank)
    (he : exponentAbove rank - 19 ≤ exponent) : wholePart rank exponent < tenPow 19 := by
  obtain ⟨habove, -, -⟩ := exponentAbove_bounds hr hfinite
  generalize exponentAbove rank = start at habove he
  have hpow : tenPow start.toNat * tenPow (-exponent).toNat ≤
      tenPow 19 * tenPow exponent.toNat * tenPow (-start).toNat := by
    simp only [← tenPow_add]
    exact tenPow_le (by omega)
  refine (Nat.div_lt_iff_lt_mul (grid_pos exponent)).mpr ?_
  refine Nat.lt_of_mul_lt_mul_right (a := tenPow (-start).toNat) ?_
  calc unitsOfRank rank * tenPow (-exponent).toNat * tenPow (-start).toNat
      = unitsOfRank rank * tenPow (-start).toNat * tenPow (-exponent).toNat :=
        Nat.mul_right_comm _ _ _
    _ < twoPow 1074 * tenPow start.toNat * tenPow (-exponent).toNat :=
        Nat.mul_lt_mul_of_pos_right habove (tenPow_pos _)
    _ = twoPow 1074 * (tenPow start.toNat * tenPow (-exponent).toNat) := Nat.mul_assoc _ _ _
    _ ≤ twoPow 1074 * (tenPow 19 * tenPow exponent.toNat * tenPow (-start).toNat) :=
        Nat.mul_le_mul_left _ hpow
    _ = tenPow 19 * (twoPow 1074 * tenPow exponent.toNat) * tenPow (-start).toNat := by ring

theorem onGrid?_start (tie : Tie) (hr : 0 < rank) (hfinite : rank < infinityRank) :
    (onGrid? tie rank (exponentAbove rank - 19)).isSome = true := by
  refine onGrid?_isSome hr ?_
  obtain ⟨-, hbelow, -⟩ := exponentAbove_bounds hr hfinite
  have hgap := unitsOfRank_lt_gap rank
  generalize unitsOfRank (rank + 1) - unitsOfRank rank = gap at hgap ⊢
  generalize exponentAbove rank = start at hbelow ⊢
  have hpow : tenPow (start - 19).toNat * tenPow (2 - start).toNat * tenPow 17 =
      tenPow (start - 2).toNat * tenPow (-(start - 19)).toNat := by
    simp only [← tenPow_add]
    congr 1
    omega
  have hten : 4 * twoPow 53 < 3 * tenPow 17 := by decide
  have hpos : 0 < tenPow (2 - start).toNat * tenPow 17 := Nat.mul_pos (tenPow_pos _) (tenPow_pos _)
  have hlt : twoPow 1074 * tenPow (start - 2).toNat <
      twoPow 53 * gap * tenPow (2 - start).toNat :=
    hbelow.trans_lt (Nat.mul_lt_mul_of_pos_right hgap (tenPow_pos _))
  refine Nat.lt_of_mul_lt_mul_right (a := tenPow (2 - start).toNat * tenPow 17) ?_
  calc 4 * (twoPow 1074 * tenPow (start - 19).toNat) * (tenPow (2 - start).toNat * tenPow 17)
      = 4 * (twoPow 1074 *
          (tenPow (start - 19).toNat * tenPow (2 - start).toNat * tenPow 17)) := by ring
    _ = 4 * (twoPow 1074 * tenPow (start - 2).toNat) * tenPow (-(start - 19)).toNat := by
        rw [hpow]
        ring
    _ ≤ 4 * (twoPow 53 * gap * tenPow (2 - start).toNat) * tenPow (-(start - 19)).toNat :=
        Nat.mul_le_mul_right _ (Nat.mul_le_mul_left 4 hlt.le)
    _ = 4 * twoPow 53 * (gap * tenPow (2 - start).toNat * tenPow (-(start - 19)).toNat) := by ring
    _ < 3 * tenPow 17 * (gap * tenPow (2 - start).toNat * tenPow (-(start - 19)).toNat) := by
        refine Nat.mul_lt_mul_of_pos_right hten ?_
        have hgappos : 0 < gap := Nat.pos_of_ne_zero fun h => by
          rw [h] at hgap
          exact absurd hgap (Nat.not_lt_zero _)
        exact Nat.mul_pos (Nat.mul_pos hgappos (tenPow_pos _)) (tenPow_pos _)
    _ = 3 * (gap * tenPow (-(start - 19)).toNat) * (tenPow (2 - start).toNat * tenPow 17) := by
        ring

theorem onGrid?_least (tie : Tie) (hr : 0 < rank) : (onGrid? tie rank (-324)).isSome = true := by
  refine onGrid?_isSome hr ?_
  have hpos : 0 < unitsOfRank (rank + 1) - unitsOfRank rank :=
    Nat.sub_pos_of_lt (unitsOfRank_lt_succ rank)
  have hten : 4 * (twoPow 1074 * tenPow (-324 : Int).toNat) <
      3 * tenPow (-(-324) : Int).toNat := by decide +kernel
  refine hten.trans_le (Nat.mul_le_mul_left 3 ?_)
  exact Nat.le_mul_of_pos_left _ hpos

theorem numerator_lt {d : Decimal} (hfinite : rank < infinityRank) (h : d.RoundsTo rank) :
    d.numerator < twoPow 1024 * d.denominator := by
  have hden : 0 < d.denominator := tenPow_pos _
  have hhigh : 2 * (d.numerator * twoPow 1074) ≤
      unitsOfRank rank * d.denominator + unitsOfRank (rank + 1) * d.denominator := by
    have hr := roundsTo_iff.mp h
    split at hr <;> omega
  have hrank := Nat.mul_lt_mul_of_pos_right (unitsOfRank_lt hfinite) hden
  have hnext : unitsOfRank (rank + 1) * d.denominator ≤
      twoPow 1024 * twoPow 1074 * d.denominator := by
    refine Nat.mul_le_mul_right _ ?_
    rw [← unitsOfRank_infinityRank]
    exact unitsOfRank_strictMono.monotone hfinite
  refine Nat.lt_of_mul_lt_mul_right (a := twoPow 1074) ?_
  rw [Nat.mul_right_comm]
  generalize twoPow 1024 * twoPow 1074 * d.denominator = bound at hrank hnext ⊢
  omega

end Range

end Magnitude

structure Decimal.Brief (d : Decimal) : Prop where
  significand_le : d.significand ≤ tenPow 19
  exponent_ge : -324 ≤ d.exponent
  exponent_le : d.exponent ≤ 308

namespace Magnitude

variable {m : Magnitude}

theorem shortest_zero (tie : Tie) (h : m.rank = 0) : m.shortest tie = ⟨0, 0⟩ := if_pos h

theorem significand_pos {d : Decimal} (hm : 0 < m.rank) (h : d.RoundsTo m.rank) :
    0 < d.significand := by
  refine Nat.pos_of_ne_zero fun hzero => ?_
  have hpos := Nat.mul_pos (unitsOfRank_pos hm) (tenPow_pos (-d.exponent).toNat)
  have hr := roundsTo_iff.mp h
  rw [Decimal.numerator, hzero, Nat.zero_mul, Nat.zero_mul, Decimal.denominator] at hr
  split at hr <;> omega

theorem shortest_brief (tie : Tie) (hfinite : m.rank < infinityRank) : (m.shortest tie).Brief := by
  by_cases hm : m.rank = 0
  · rw [shortest_zero tie hm]
    exact ⟨Nat.zero_le _, by decide, by decide⟩
  have hpos : 0 < m.rank := Nat.pos_of_ne_zero hm
  have hrounds := shortest_roundsTo tie hpos
  obtain ⟨-, -, hmin⟩ := exponentAbove_bounds hpos hfinite
  have hsteps : exponentAbove m.rank - (exponentAbove m.rank + 1074).toNat = -1074 := by omega
  have hsome : (firstHit tie m.rank (exponentAbove m.rank)
      (exponentAbove m.rank + 1074).toNat).isSome = true := firstHit_isSome hpos _ hsteps
  obtain ⟨d, hd⟩ := Option.isSome_iff_exists.mp hsome
  have hshortest : m.shortest tie = d := by
    rw [shortest, if_neg hm]
    simp only [hd, Option.getD_some]
  rw [hshortest] at hrounds ⊢
  have hstart := le_firstHit (onGrid?_start tie hpos hfinite) _ (by omega) hd
  have hleast := le_firstHit (onGrid?_least tie hpos) _ (by omega) hd
  have hsignificand := (firstHit_le _ hd).2.trans (wholePart_lt hpos hfinite hstart)
  refine ⟨hsignificand, hleast, ?_⟩
  by_contra hlt
  have hden : (-d.exponent).toNat = 0 := by omega
  have hlt' := numerator_lt hfinite hrounds
  have hten : tenPow 309 ≤ tenPow d.exponent.toNat := tenPow_le (by omega)
  have hnum : tenPow d.exponent.toNat ≤ d.significand * tenPow d.exponent.toNat :=
    Nat.le_mul_of_pos_left _ (significand_pos hpos hrounds)
  have hone : tenPow 0 = 1 := rfl
  rw [Decimal.numerator, Decimal.denominator, hden, hone, Nat.mul_one] at hlt'
  exact absurd (twoPow_1024_le.trans (hten.trans hnum)) (Nat.not_le.mpr hlt')

end Magnitude

end StockScreen
