import StockScreen.Binary64.Layout
import StockScreen.Proofs.Binary64.Decimals

namespace StockScreen

open Literal

namespace Decimal

def numerator (d : Decimal) : Nat := d.significand * tenPow d.exponent.toNat

def denominator (d : Decimal) : Nat := tenPow (-d.exponent).toNat

def RoundsTo (d : Decimal) (rank : Nat) : Prop :=
  Magnitude.roundsTo rank (d.numerator * twoPow 1074) d.denominator = true

end Decimal

theorem Tie.choose_cases (tie : Tie) (below rest grid : Nat) :
    tie.choose below rest grid = below ∨ tie.choose below rest grid = below + 1 := by
  unfold Tie.choose
  split
  · exact .inl rfl
  · split
    · exact .inr rfl
    · cases tie with
      | upward => exact .inr rfl
      | toEven =>
        simp only
        split
        · exact .inl rfl
        · exact .inr rfl

namespace Magnitude

section Search

variable {tie : Tie} {rank : Nat} {exponent : Int}

theorem decimal_roundsTo_iff {n : Nat} :
    Decimal.RoundsTo ⟨n, exponent⟩ rank ↔
      roundsTo rank (n * (twoPow 1074 * if exponent < 0 then 1 else tenPow exponent.toNat))
        (if exponent < 0 then tenPow (-exponent).toNat else 1) = true := by
  have hone : tenPow 0 = 1 := rfl
  rw [Decimal.RoundsTo, Decimal.numerator, Decimal.denominator]
  simp only
  split
  · next h =>
    have hn : exponent.toNat = 0 := by omega
    rw [hn, hone, Nat.mul_one, Nat.mul_one]
  · next h =>
    have hd : (-exponent).toNat = 0 := by omega
    rw [hd, hone, Nat.mul_assoc, Nat.mul_comm (tenPow _)]

theorem onGrid?_roundsTo {d : Decimal} (h : onGrid? tie rank exponent = some d) :
    d.RoundsTo rank := by
  unfold onGrid? at h
  extract_lets scale grid scaled below rest at h
  split at h
  · next hb ha =>
    obtain rfl := Option.some.inj h
    refine decimal_roundsTo_iff.mpr ?_
    rcases tie.choose_cases below rest grid with hc | hc
    · rw [hc]
      exact hb
    · rw [hc]
      exact ha
  · next hb ha =>
    obtain rfl := Option.some.inj h
    exact decimal_roundsTo_iff.mpr hb
  · next hb ha =>
    obtain rfl := Option.some.inj h
    exact decimal_roundsTo_iff.mpr ha
  · contradiction

theorem firstHit_roundsTo {d : Decimal} (steps : Nat)
    (h : firstHit tie rank exponent steps = some d) : d.RoundsTo rank := by
  induction steps generalizing exponent with
  | zero => exact onGrid?_roundsTo h
  | succ steps ih =>
    rw [firstHit] at h
    split at h
    · next hd =>
      obtain rfl := Option.some.inj h
      exact onGrid?_roundsTo hd
    · exact ih h

theorem onGrid?_finest (hr : 0 < rank) : (onGrid? tie rank (-1074)).isSome = true := by
  unfold onGrid?
  extract_lets scale grid scaled below rest
  have hscale : scale = tenPow 1074 := if_pos (by decide)
  have hgrid : grid = twoPow 1074 := by
    have hone : (if (-1074 : Int) < 0 then 1 else tenPow (-1074 : Int).toNat) = 1 :=
      if_pos (by decide)
    rw [show grid = twoPow 1074 * _ from rfl, hone, Nat.mul_one]
  have hdvd : grid ∣ scaled := by
    rw [hgrid, show scaled = unitsOfRank rank * scale from rfl, hscale]
    exact (twoPow_dvd_tenPow 1074).mul_left _
  have hbelow : below * grid = unitsOfRank rank * scale := Nat.div_mul_cancel hdvd
  have hpos : 0 < scale := hscale ▸ tenPow_pos 1074
  have hexact := roundsTo_self hr hpos
  rw [hbelow, hexact]
  cases roundsTo rank ((below + 1) * grid) scale <;> rfl

theorem firstHit_isSome (hr : 0 < rank) (steps : Nat) (he : exponent - steps = -1074) :
    (firstHit tie rank exponent steps).isSome = true := by
  induction steps generalizing exponent with
  | zero =>
    obtain rfl : exponent = -1074 := by omega
    exact onGrid?_finest hr
  | succ steps ih =>
    rw [firstHit]
    split
    · rfl
    · exact ih (by omega)

end Search

theorem shortest_roundsTo (tie : Tie) {m : Magnitude} (hm : 0 < m.rank) :
    (m.shortest tie).RoundsTo m.rank := by
  have hsteps : exponentAbove m.rank - (exponentAbove m.rank + 1074).toNat = -1074 := by
    rw [exponentAbove]
    omega
  have hsome : (firstHit tie m.rank (exponentAbove m.rank)
      (exponentAbove m.rank + 1074).toNat).isSome = true := firstHit_isSome hm _ hsteps
  obtain ⟨d, hd⟩ := Option.isSome_iff_exists.mp hsome
  rw [shortest, if_neg hm.ne']
  simp only [hd, Option.getD_some]
  exact firstHit_roundsTo _ hd

theorem ofRatio_shortest (tie : Tie) (m : Magnitude) :
    ofRatio (m.shortest tie).numerator (m.shortest tie).denominator = m := by
  by_cases hm : m.rank = 0
  · have hz : m = zero := eq_of_rank hm
    have hs : m.shortest tie = ⟨0, 0⟩ := if_pos hm
    rw [hs, hz, Decimal.numerator, Nat.zero_mul]
    exact ofRatio_eq_zero (tenPow_pos _) (by omega)
  · exact ofRatio_eq (tenPow_pos _) (shortest_roundsTo tie (Nat.pos_of_ne_zero hm))

end Magnitude

namespace Binary64

section Positional

theorem digits_ofNat (n : Nat) : Digits (Text.ofNat n) :=
  fun _ hc => Nat.isDigit_of_mem_toDigits (by decide) (by decide) hc

theorem ofNat_ne_nil (n : Nat) : Text.ofNat n ≠ [] := Nat.toDigits_ne_nil

theorem digits_zeros (n : Nat) : Digits (zeros n) := by
  intro c hc
  rw [List.eq_of_mem_replicate hc]
  rfl

theorem ofDigitChars_zeros (n : Nat) : Nat.ofDigitChars 10 (zeros n) 0 = 0 :=
  Nat.ofDigitChars_replicate_zero

theorem exists_positional (d : Decimal) :
    ∃ whole fraction, Digits whole ∧ whole ≠ [] ∧ Digits fraction ∧
      (positional d = whole ∧ fraction = [] ∨ positional d = whole ++ '.' :: fraction) ∧
      significand whole fraction = d.numerator ∧ tenPow fraction.length = d.denominator := by
  have hdigits := digits_ofNat d.significand
  have hvalue : Nat.ofDigitChars 10 (Text.ofNat d.significand) 0 = d.significand :=
    Nat.ofDigitChars_ten_toDigits
  have hne := ofNat_ne_nil d.significand
  have hone : tenPow 0 = 1 := rfl
  rw [positional, Decimal.numerator, Decimal.denominator]
  generalize Text.ofNat d.significand = digits at hdigits hvalue hne ⊢
  split
  · next he =>
    have hden : (-d.exponent).toNat = 0 := by omega
    refine ⟨digits ++ zeros d.exponent.toNat, [], hdigits.append (digits_zeros _),
      List.append_ne_nil_of_left_ne_nil hne _, List.forall_mem_nil _, .inl ⟨rfl, rfl⟩, ?_, ?_⟩
    · rw [significand, List.append_nil, ofDigitChars_append, hvalue, ofDigitChars_zeros,
        Nat.add_zero, zeros, List.length_replicate]
    · rw [hden, List.length_nil]
  · next he =>
    have hnum : d.exponent.toNat = 0 := by omega
    rw [hnum, hone, Nat.mul_one]
    split
    · next hlt =>
      refine ⟨_, _, fun c hc => hdigits c (List.mem_of_mem_take hc), ?_,
        fun c hc => hdigits c (List.mem_of_mem_drop hc), .inr rfl, ?_, ?_⟩
      · apply List.ne_nil_of_length_pos
        rw [List.length_take]
        omega
      · rw [significand, List.take_append_drop, hvalue]
      · rw [List.length_drop]
        congr 1
        omega
    · next hge =>
      refine ⟨['0'], zeros ((-d.exponent).toNat - digits.length) ++ digits, by decide, by decide,
        (digits_zeros _).append hdigits, .inr rfl, ?_, ?_⟩
      · have hzero : Nat.ofDigitChars 10 ['0'] 0 = 0 := rfl
        rw [significand, ofDigitChars_append, ofDigitChars_append, hzero, ofDigitChars_zeros,
          hvalue, Nat.zero_mul, Nat.zero_mul, Nat.zero_add, Nat.zero_add]
      · rw [List.length_append, zeros, List.length_replicate]
        congr 1
        omega

theorem signText_spelled (negative : Bool) : SignText (signText negative) negative := by
  cases negative with
  | false => exact .none
  | true => exact .minus

theorem spelled_positional (negative : Bool) (d : Decimal) :
    ∃ whole fraction, Spelled (signText negative ++ positional d)
        ⟨negative, .decimal whole fraction 0⟩ ∧
      value ⟨negative, .decimal whole fraction 0⟩ =
        .signed negative (.ofRatio d.numerator d.denominator) := by
  obtain ⟨whole, fraction, hw, hne, hf, htext, hnum, hden⟩ := exists_positional d
  have hbody : BodyText (positional d) (.decimal whole fraction 0) := by
    rcases htext with ⟨ht, rfl⟩ | ht
    · have hb := BodyText.whole hw hne .none
      rw [List.append_nil] at hb
      rw [ht]
      exact hb
    · have hb := BodyText.pointed hw hf (.inl hne) .none
      rw [List.append_nil] at hb
      rw [ht]
      exact hb
  refine ⟨whole, fraction, .mk (signText_spelled negative) hbody, ?_⟩
  have hn : (0 - (fraction.length : Int)).toNat = 0 := by omega
  have hd : (-(0 - (fraction.length : Int))).toNat = fraction.length := by omega
  have hone : tenPow 0 = 1 := rfl
  rw [value_decimal hw hf, hn, hd, hone, Nat.mul_one, hnum, hden]

end Positional

theorem spelled_plain (x : Binary64) :
    ∃ l, Spelled x.plain l ∧ l.value = x ∧ (x.isFinite = true ∨ l.body = .infinity ∨
      l.body = .nan) := by
  cases x with
  | nan => exact ⟨⟨false, .nan⟩, .mk .none (.nan (by decide)), rfl, .inr (.inr rfl)⟩
  | signed negative m =>
    rw [plain]
    split
    · next hi =>
      have hm : m = .infinity := Magnitude.eq_of_rank (beq_iff_eq.mp hi)
      rw [hm]
      exact ⟨⟨negative, .infinity⟩, .mk (signText_spelled negative) (.infinity (by decide)), rfl,
        .inr (.inl rfl)⟩
    · next hi =>
      obtain ⟨whole, fraction, hs, hv⟩ := spelled_positional negative (m.shortest .upward)
      rw [Magnitude.ofRatio_shortest] at hv
      exact ⟨_, hs, hv, .inl (by simpa [isFinite] using hi)⟩

theorem ofText?_plain (x : Binary64) : ofText? x.plain = some x := by
  obtain ⟨l, hs, hv, -⟩ := x.spelled_plain
  rw [ofText?, read?_eq_some_iff.mpr hs, Option.map_some, hv]

end Binary64

end StockScreen
