import StockScreen.Proofs.Binary64.Overflow
import StockScreen.Proofs.Binary64.Tokens

/-!
The exact values of written decimals, whose exponents may be of any length, and the numbers that
they are read as. The reader takes no more digits of an exponent once it is large; rounding is
correct all the same, unless the exponent is made up for by as many digits before it.
-/

namespace StockScreen

/-- The number nearest to `q`, with the sign of `q`. -/
def Binary64.RoundsFrom (x : Binary64) (q : ℚ) : Prop :=
  ∃ negative m, x = .signed negative m ∧ m.IsNearest |q| ∧ if negative then q ≤ 0 else 0 ≤ q

theorem Binary64.RoundsFrom.isFinite_iff {x : Binary64} {q : ℚ} (h : x.RoundsFrom q) :
    x.isFinite = true ↔ |q| < Magnitude.overflowBound := by
  obtain ⟨negative, m, rfl, hm, -⟩ := h
  rw [← not_le, ← hm.isInfinite_iff, isFinite, Bool.not_eq_true', Bool.not_eq_true]

theorem Binary64.RoundsFrom.isNaN {x : Binary64} {q : ℚ} (h : x.RoundsFrom q) :
    x.isNaN = false := by
  obtain ⟨negative, m, rfl, -⟩ := h
  rfl

def Binary64.ReadsAs (t : Text) (q : ℚ) : Prop := ∃ x, ofText? t = some x ∧ x.RoundsFrom q

namespace Literal

structure Written where
  negative : Bool
  whole : Text
  fraction : Text
  power : Int

def Written.magnitude (w : Written) : ℚ :=
  significand w.whole w.fraction * 10 ^ (w.power - w.fraction.length)

def Written.toRat (w : Written) : ℚ := if w.negative then -w.magnitude else w.magnitude

inductive PointText : Text → Text → Text → Prop
  | whole {whole : Text} (hw : Digits whole) (hne : whole ≠ []) : PointText whole whole []
  | pointed {whole fraction : Text} (hw : Digits whole) (hf : Digits fraction)
      (hne : whole ≠ [] ∨ fraction ≠ []) : PointText (whole ++ '.' :: fraction) whole fraction

inductive PowerText : Text → Int → Prop
  | none : PowerText [] 0
  | some {mark : Char} {sign digits : Text} {negative : Bool} (hm : mark = 'e' ∨ mark = 'E')
      (hs : SignText sign negative) (hd : Digits digits) (hne : digits ≠ []) :
      PowerText (mark :: (sign ++ digits))
        (if negative then -(Nat.ofDigitChars 10 digits 0) else Nat.ofDigitChars 10 digits 0)

/-- The grammar of decimals: a sign, digits with a point and an exponent, of which only the digits
are required. -/
inductive DecimalText : Text → Written → Prop
  | mk {sign digits whole fraction e : Text} {negative : Bool} {power : Int}
      (hs : SignText sign negative) (hp : PointText digits whole fraction)
      (he : PowerText e power) :
      DecimalText (sign ++ (digits ++ e)) ⟨negative, whole, fraction, power⟩

section Exponent

def Agree (exponent power : Int) : Prop :=
  exponent = power ∨ (exponentLimit : Int) ≤ exponent ∧ (exponentLimit : Int) ≤ power ∨
    exponent ≤ -exponentLimit ∧ power ≤ -exponentLimit

theorem foldl_of_limit {n : Nat} (hn : exponentLimit ≤ n) (t : Text) :
    t.foldl (fun n c => if n < exponentLimit then 10 * n + (c.toNat - 48) else n) n = n := by
  induction t with
  | nil => rfl
  | cons c t ih => rw [List.foldl_cons, if_neg (Nat.not_lt.mpr hn), ih]

theorem foldl_reaches_limit (t : Text) (n : Nat) (h : exponentLimit ≤ Nat.ofDigitChars 10 t n) :
    exponentLimit ≤
      t.foldl (fun n c => if n < exponentLimit then 10 * n + (c.toNat - 48) else n) n := by
  induction t generalizing n with
  | nil => exact h
  | cons c t ih =>
    rw [List.foldl_cons]
    split
    · exact ih _ h
    · next hn =>
      rw [foldl_of_limit (Nat.not_lt.mp hn)]
      exact Nat.not_lt.mp hn

theorem exponentValue_cases (digits : Text) :
    exponentValue digits = Nat.ofDigitChars 10 digits 0 ∨
      exponentLimit ≤ exponentValue digits ∧ exponentLimit ≤ Nat.ofDigitChars 10 digits 0 := by
  rcases Nat.lt_or_ge (Nat.ofDigitChars 10 digits 0) exponentLimit with h | h
  · exact .inl (Binary64.foldl_exponent digits 0 h)
  · exact .inr ⟨foldl_reaches_limit digits 0 h, h⟩

theorem PowerText.read {t : Text} {power : Int} (h : PowerText t power) :
    ∃ exponent, ExponentText t exponent ∧ Agree exponent power := by
  cases h with
  | none => exact ⟨0, .none, .inl rfl⟩
  | @some mark sign digits negative hm hs hd hne =>
    refine ⟨_, .some hm hs hd hne, ?_⟩
    rcases exponentValue_cases digits with h | ⟨hvalue, hlarge⟩
    · exact .inl (by rw [h])
    · right
      cases negative
      · exact .inl ⟨Int.ofNat_le.mpr hvalue, Int.ofNat_le.mpr hlarge⟩
      · exact .inr ⟨Int.neg_le_neg (Int.ofNat_le.mpr hvalue),
          Int.neg_le_neg (Int.ofNat_le.mpr hlarge)⟩

theorem value_of_agree {whole fraction : Text} {exponent power : Int} (h : Agree exponent power)
    (hfew : whole.length + fraction.length + 536 ≤ exponentLimit ∨ exponent = power)
    (negative : Bool) :
    value ⟨negative, .decimal whole fraction exponent⟩ =
      value ⟨negative, .decimal whole fraction power⟩ := by
  rcases hfew with hfew | rfl
  · rcases h with rfl | h
    · rfl
    · have hdigits : ((whole ++ fraction).dropWhile (· == '0')).length ≤
          whole.length + fraction.length := by
        rw [← List.length_append]
        exact (List.dropWhile_sublist _).length_le
      simp only [value, Magnitude.ofDecimal]
      generalize ((whole ++ fraction).dropWhile (· == '0')) = digits at hdigits ⊢
      have hlimit : exponentLimit = 65536 := rfl
      rcases h with ⟨he, hp⟩ | ⟨he, hp⟩
      · rw [if_pos (show exponent - fraction.length > 310 by omega),
          if_pos (show power - fraction.length > 310 by omega)]
      · rw [if_neg (show ¬exponent - fraction.length > 310 by omega),
          if_neg (show ¬power - fraction.length > 310 by omega),
          if_pos (show exponent - fraction.length + digits.length < -324 by omega),
          if_pos (show power - fraction.length + digits.length < -324 by omega)]
  · rfl

end Exponent

section Rounding

theorem ratio_eq_zpow (s : Nat) (e : Int) :
    ((s * tenPow e.toNat : Nat) : ℚ) / (tenPow (-e).toNat : Nat) = s * 10 ^ e := by
  have hsplit : (10 : ℚ) ^ e = 10 ^ ((e.toNat : Int) - (-e).toNat) := by
    congr 1
    omega
  have hcast (k : Nat) : ((tenPow k : Nat) : ℚ) = 10 ^ k := by
    rw [tenPow, Nat.pow_eq, Nat.cast_pow, Nat.cast_ofNat]
  rw [hsplit, zpow_sub₀ (by norm_num), zpow_natCast, zpow_natCast, Nat.cast_mul, hcast, hcast,
    mul_div_assoc]

theorem Written.magnitude_nonneg (w : Written) : 0 ≤ w.magnitude :=
  mul_nonneg (Nat.cast_nonneg _) (zpow_nonneg (by norm_num) _)

theorem Written.abs_toRat (w : Written) : |w.toRat| = w.magnitude := by
  rw [toRat]
  split
  · rw [abs_neg, abs_of_nonneg w.magnitude_nonneg]
  · exact abs_of_nonneg w.magnitude_nonneg

theorem Written.value_roundsFrom (w : Written) (hw : Digits w.whole) (hf : Digits w.fraction) :
    (value ⟨w.negative, .decimal w.whole w.fraction w.power⟩).RoundsFrom w.toRat := by
  refine ⟨w.negative, _, value_decimal hw hf w.negative w.power, ?_, ?_⟩
  · rw [w.abs_toRat, magnitude, ← ratio_eq_zpow]
    exact Magnitude.isNearest_ofRatio _ (tenPow_pos _)
  · have hnonneg := w.magnitude_nonneg
    rw [toRat]
    split
    · exact neg_nonpos.mpr hnonneg
    · exact hnonneg

end Rounding

section Reading

variable {t : Text} {w : Written}

theorem PointText.digits {digits whole fraction : Text} (h : PointText digits whole fraction) :
    Digits whole ∧ Digits fraction ∧ whole.length + fraction.length ≤ digits.length := by
  cases h with
  | whole hw hne => exact ⟨hw, List.forall_mem_nil _, Nat.le_refl _⟩
  | pointed hw hf hne =>
    rw [List.length_append, List.length_cons]
    exact ⟨hw, hf, by omega⟩

theorem PointText.body {digits whole fraction e : Text} {exponent : Int}
    (h : PointText digits whole fraction) (he : ExponentText e exponent) :
    BodyText (digits ++ e) (.decimal whole fraction exponent) := by
  cases h with
  | whole hw hne => exact .whole hw hne he
  | pointed hw hf hne =>
    rw [List.append_assoc, List.cons_append]
    exact .pointed hw hf hne he

theorem DecimalText.digits (h : DecimalText t w) :
    Digits w.whole ∧ Digits w.fraction ∧ w.whole.length + w.fraction.length ≤ t.length := by
  cases h with
  | mk hs hp he =>
    obtain ⟨hw, hf, hlen⟩ := hp.digits
    refine ⟨hw, hf, hlen.trans ?_⟩
    rw [List.length_append, List.length_append]
    omega

theorem DecimalText.spelled (h : DecimalText t w) :
    ∃ exponent, Spelled t ⟨w.negative, .decimal w.whole w.fraction exponent⟩ ∧
      Agree exponent w.power := by
  cases h with
  | mk hs hp he =>
    obtain ⟨exponent, hexponent, hagree⟩ := he.read
    exact ⟨exponent, .mk hs (hp.body hexponent), hagree⟩

theorem DecimalText.ofText?_eq (h : DecimalText t w) :
    ∃ exponent, Agree exponent w.power ∧
      Binary64.ofText? t = some (value ⟨w.negative, .decimal w.whole w.fraction exponent⟩) := by
  obtain ⟨exponent, hs, hagree⟩ := h.spelled
  refine ⟨exponent, hagree, ?_⟩
  rw [Binary64.ofText?, read?_eq_some_iff.mpr hs, Option.map_some]

theorem DecimalText.not_spellsInfinity (h : DecimalText t w) : ¬SpellsInfinity t := by
  obtain ⟨exponent, hs, -⟩ := h.spelled
  rw [spellsInfinity_iff hs]
  exact LiteralBody.noConfusion

/-- Decimals are read as the nearest number, when the exponent or the whole text is not long. -/
theorem DecimalText.readsAs (h : DecimalText t w)
    (hshort : w.power.natAbs < exponentLimit ∨ t.length + 536 ≤ exponentLimit) :
    Binary64.ReadsAs t w.toRat := by
  obtain ⟨exponent, hagree, hread⟩ := h.ofText?_eq
  obtain ⟨hw, hf, hlen⟩ := h.digits
  refine ⟨_, hread, ?_⟩
  rw [value_of_agree hagree]
  · exact w.value_roundsFrom hw hf
  · rcases hshort with hpower | hlength
    · rw [Agree] at hagree
      omega
    · omega

end Reading

section Whole

def Written.ofNat (n : Nat) : Written := ⟨false, Text.ofNat n, [], 0⟩

theorem decimalText_ofNat (n : Nat) : DecimalText (Text.ofNat n) (.ofNat n) := by
  have h := DecimalText.mk .none
    (.whole (Binary64.digits_ofNat n) (Binary64.ofNat_ne_nil n)) PowerText.none
  rw [List.nil_append, List.append_nil] at h
  exact h

theorem Written.toRat_ofNat (n : Nat) : (Written.ofNat n).toRat = n := by
  have hvalue : significand (Text.ofNat n) [] = n := by
    rw [significand, List.append_nil, Binary64.value_ofNat]
  have hpower : (0 : Int) - ([] : Text).length = 0 := rfl
  simp only [toRat, magnitude, ofNat, hvalue, hpower, zpow_zero, mul_one, Bool.false_eq_true,
    if_false]

end Whole

end Literal

end StockScreen
