import StockScreen.Proofs.Binary64.Nearest
import StockScreen.Proofs.Binary64.Spelling

namespace StockScreen

namespace Magnitude

theorem twoPow_1024_le : twoPow 1024 ≤ tenPow 309 := by decide +kernel

theorem unitsOfRank_infinityRank : unitsOfRank infinityRank = twoPow 1024 * twoPow 1074 := by
  have hbelow : twoPow 52 ≤ twoPow 53 := twoPow_le (by decide)
  have hgrid : unitsOfRank (2046 * twoPow 52 + twoPow 52) = twoPow 52 * twoPow 2046 :=
    unitsOfRank_grid (.inr (Nat.le_refl _)) hbelow
  have hrank : infinityRank = 2046 * twoPow 52 + twoPow 52 := rfl
  rw [hrank, hgrid, ← twoPow_add, ← twoPow_add]

theorem ofRatio_eq_infinity {n d : Nat} (hd : 0 < d)
    (h : unitsOfRank infinityRank * d ≤ n * twoPow 1074) : ofRatio n d = infinity := by
  obtain ⟨floor, -, hhigh, he⟩ := exists_floor (n * twoPow 1074) hd
  have hlt : infinityRank < floor + 1 := (scaled_strictMono hd).lt_iff_lt.mp (h.trans_lt hhigh)
  apply eq_of_rank
  rw [ofRatio_rank, he]
  exact Nat.min_eq_right (by omega)

theorem ofRatio_eq_zero {n d : Nat} (hd : 0 < d) (h : 2 * (n * twoPow 1074) ≤ d) :
    ofRatio n d = zero := by
  refine ofRatio_eq hd (roundsTo_iff.mpr ?_)
  have h₀ : unitsOfRank 0 = 0 := rfl
  have h₁ : unitsOfRank (0 + 1) = 1 := rfl
  have hz : zero.rank = 0 := rfl
  rw [hz, if_pos rfl, h₀, h₁]
  omega

theorem ofDecimal_eq {significand places : Nat} (h : significand < tenPow places)
    (exponent : Int) :
    ofDecimal significand places exponent =
      ofRatio (significand * tenPow exponent.toNat) (tenPow (-exponent).toNat) := by
  rw [ofDecimal]
  split
  · next hz =>
    rw [hz, Nat.zero_mul, ofRatio_eq_zero (tenPow_pos _) (by omega)]
  · next hz =>
    split
    · next hbig =>
      have hd : (-exponent).toNat = 0 := by omega
      rw [hd]
      refine (ofRatio_eq_infinity (tenPow_pos 0) ?_).symm
      have he : tenPow 309 ≤ tenPow exponent.toNat := tenPow_le (by omega)
      have hs : tenPow exponent.toNat ≤ significand * tenPow exponent.toNat :=
        Nat.le_mul_of_pos_left _ (Nat.pos_of_ne_zero hz)
      have hone : tenPow 0 = 1 := rfl
      rw [unitsOfRank_infinityRank, hone, Nat.mul_one]
      exact Nat.mul_le_mul_right _ (twoPow_1024_le.trans (he.trans hs))
    · split
      · next hsmall =>
        have hn : exponent.toNat = 0 := by omega
        have hone : tenPow 0 = 1 := rfl
        rw [hn, hone, Nat.mul_one]
        refine (ofRatio_eq_zero (tenPow_pos _) ?_).symm
        have hpow : 2 * twoPow 1074 ≤ tenPow 324 := by decide +kernel
        calc 2 * (significand * twoPow 1074) = significand * (2 * twoPow 1074) :=
              Nat.mul_left_comm _ _ _
          _ ≤ tenPow places * tenPow 324 := Nat.mul_le_mul h.le hpow
          _ = tenPow (places + 324) := (tenPow_add _ _).symm
          _ ≤ tenPow (-exponent).toNat := tenPow_le (by omega)
      · have hone : tenPow 0 = 1 := rfl
        split
        · next hneg =>
          have hn : exponent.toNat = 0 := by omega
          rw [hn, hone, Nat.mul_one]
        · next hneg =>
          have hd : (-exponent).toNat = 0 := by omega
          rw [hd, hone]

end Magnitude

namespace Literal

theorem ofDigitChars_lt {digits : Text} (h : Digits digits) (init : Nat) :
    Nat.ofDigitChars 10 digits init < (init + 1) * tenPow digits.length := by
  induction digits generalizing init with
  | nil =>
    rw [Nat.ofDigitChars_nil]
    exact Nat.lt_of_lt_of_eq (Nat.lt_succ_self init) (Nat.mul_one _).symm
  | cons c digits ih =>
    have hc : c.toNat - '0'.toNat < 10 := by
      have hd : ∀ d ∈ "0123456789".toList, d.toNat - '0'.toNat < 10 := by decide
      exact hd c (mem_digits (h c List.mem_cons_self))
    rw [Nat.ofDigitChars_cons, List.length_cons]
    refine (ih (fun d hd => h d (List.mem_cons_of_mem c hd)) _).trans_le ?_
    rw [Nat.add_comm digits.length 1, tenPow_add, ← Nat.mul_assoc]
    refine Nat.mul_le_mul_right _ ?_
    have hten : tenPow 1 = 10 := rfl
    rw [hten]
    omega

theorem ofDigitChars_dropWhile (digits : Text) :
    Nat.ofDigitChars 10 (digits.dropWhile (· == '0')) 0 = Nat.ofDigitChars 10 digits 0 := by
  induction digits with
  | nil => rfl
  | cons c digits ih =>
    by_cases hc : c = '0'
    · subst hc
      rw [List.dropWhile_cons_of_pos (by decide), ih, Nat.ofDigitChars_cons]
      rfl
    · rw [List.dropWhile_cons_of_neg (by simpa using hc)]

def significand (whole fraction : Text) : Nat := Nat.ofDigitChars 10 (whole ++ fraction) 0

theorem value_decimal {whole fraction : Text} (hw : Digits whole) (hf : Digits fraction)
    (negative : Bool) (exponent : Int) :
    value ⟨negative, .decimal whole fraction exponent⟩ =
      .signed negative (.ofRatio
        (significand whole fraction * tenPow (exponent - fraction.length).toNat)
        (tenPow (-(exponent - fraction.length)).toNat)) := by
  have hd : Digits ((whole ++ fraction).dropWhile (· == '0')) := by
    intro c hc
    have hmem := (List.dropWhile_sublist (· == '0')).subset hc
    exact hw.append hf c hmem
  have hlt := ofDigitChars_lt hd 0
  rw [Nat.zero_add, Nat.one_mul] at hlt
  simp only [value]
  rw [digitsValue_eq, Magnitude.ofDecimal_eq hlt, ofDigitChars_dropWhile, significand]

end Literal

end StockScreen
