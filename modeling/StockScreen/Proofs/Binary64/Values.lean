import Mathlib.Algebra.Order.Field.Rat
import Mathlib.Tactic.Linarith
import Mathlib.Tactic.NormNum
import StockScreen.Proofs.Binary64.Nearest

namespace StockScreen

namespace Magnitude

variable {m n : Magnitude}

def toRat (m : Magnitude) : ℚ := m.units / twoPow 1074

theorem twoPow_cast_pos (k : Nat) : (0 : ℚ) < twoPow k := Nat.cast_pos.mpr (twoPow_pos k)

theorem toRat_lt_iff : m.toRat < n.toRat ↔ m.rank < n.rank := by
  rw [toRat, toRat, div_lt_div_iff_of_pos_right (twoPow_cast_pos 1074), Nat.cast_lt]
  exact unitsOfRank_strictMono.lt_iff_lt

theorem toRat_le_iff : m.toRat ≤ n.toRat ↔ m.rank ≤ n.rank := by
  rw [← not_lt, toRat_lt_iff, not_lt]

theorem toRat_nonneg (m : Magnitude) : 0 ≤ m.toRat :=
  div_nonneg (Nat.cast_nonneg _) (Nat.cast_nonneg _)

theorem toRat_eq_zero_iff : m.toRat = 0 ↔ m.rank = 0 := by
  have hunits : zero.units = 0 := rfl
  have hzero : zero.toRat = 0 := by rw [toRat, hunits, Nat.cast_zero, zero_div]
  rw [← (toRat_nonneg m).ge_iff_eq', ← hzero, toRat_le_iff]
  exact Nat.le_zero

end Magnitude

namespace Binary64

def toRat? : Binary64 → Option ℚ
  | nan => none
  | signed negative m => some (if negative then -m.toRat else m.toRat)

theorem toRat?_eq_none_iff {x : Binary64} : x.toRat? = none ↔ x = .nan := by
  cases x <;> simp [toRat?]

theorem position_le_iff {s t : Bool} {m n : Magnitude} : position s m ≤ position t n ↔
    (if s then -m.toRat else m.toRat) ≤ if t then -n.toRat else n.toRat := by
  have hle := Magnitude.toRat_le_iff (m := m) (n := n)
  have hge := Magnitude.toRat_le_iff (m := n) (n := m)
  have hm := Magnitude.toRat_eq_zero_iff (m := m)
  have hn := Magnitude.toRat_eq_zero_iff (m := n)
  have hm₀ := m.toRat_nonneg
  have hn₀ := n.toRat_nonneg
  cases s <;> cases t <;> simp only [position, Bool.false_eq_true, if_false, if_true]
  case false.false => rw [hle, Int.ofNat_le]
  case true.true => rw [neg_le_neg_iff, neg_le_neg_iff, hge, Int.ofNat_le]
  case true.false => exact ⟨fun _ => by linarith, fun _ => by omega⟩
  -- Only the zeros lie on both sides of zero.
  case false.true =>
    constructor
    · intro h
      rw [hm.mpr (by omega), hn.mpr (by omega), neg_zero]
    · intro h
      rw [hm.mp (by linarith), hn.mp (by linarith)]
      exact Int.le_refl 0

variable {x y : Binary64}

theorem le_iff : x.le y = true ↔ ∃ a ∈ x.toRat?, ∃ b ∈ y.toRat?, a ≤ b := by
  cases x <;> cases y <;> simp [le, toRat?, position_le_iff]

theorem lt_iff : x.lt y = true ↔ ∃ a ∈ x.toRat?, ∃ b ∈ y.toRat?, a < b := by
  cases x <;> cases y <;> simp [lt, toRat?, ← not_le, position_le_iff]

theorem eq_iff_toRat : x.eq y = true ↔ ∃ a ∈ x.toRat?, a ∈ y.toRat? := by
  rw [eq_iff_le_and_le, Bool.and_eq_true, le_iff, le_iff]
  cases x with
  | nan => simp [toRat?]
  | signed s m =>
    cases y with
    | nan => simp [toRat?]
    | signed t n =>
      simp only [toRat?, Option.mem_some_iff, exists_eq_left', ← le_antisymm_iff]
      exact eq_comm

end Binary64

end StockScreen
