import StockScreen.Proofs.Binary64.Brevity

namespace StockScreen

open Literal

namespace Magnitude

theorem nearestRank_mul_right (scaled d : Nat) {k : Nat} (hk : 0 < k) :
    nearestRank (scaled * k) (d * k) = nearestRank scaled d := by
  have hgrid (step : Nat) : d * k * twoPow step = d * twoPow step * k := Nat.mul_right_comm _ _ _
  simp only [nearestRank, Nat.mul_div_mul_right _ _ hk, hgrid, Nat.mul_mod_mul_right]
  generalize (scaled / d).log2 - 52 = step
  have hup : d * twoPow step * k < 2 * (scaled % (d * twoPow step) * k) ↔
      d * twoPow step < 2 * (scaled % (d * twoPow step)) := by
    rw [← Nat.mul_assoc]
    exact Nat.mul_lt_mul_right hk
  have htie : d * twoPow step * k = 2 * (scaled % (d * twoPow step) * k) ↔
      d * twoPow step = 2 * (scaled % (d * twoPow step)) := by
    rw [← Nat.mul_assoc]
    exact Nat.mul_left_inj hk.ne'
  simp only [hup, htie]

theorem ofRatio_mul_right (n d : Nat) {k : Nat} (hk : 0 < k) :
    ofRatio (n * k) (d * k) = ofRatio n d := by
  apply eq_of_rank
  rw [ofRatio_rank, ofRatio_rank, Nat.mul_right_comm, nearestRank_mul_right _ _ hk]

/-- The digits of a number in a document as one integer, with the power of ten that belongs to it.
A whole number has a zero after its point. -/
def written (m : Magnitude) : Decimal :=
  let d := m.shortest .toEven
  let leading := d.exponent + (Text.ofNat d.significand).length - 1
  if (-5 ≤ leading ∧ leading ≤ 15) ∧ 0 ≤ d.exponent then ⟨d.numerator * 10, -1⟩ else d

theorem ofRatio_written (m : Magnitude) :
    ofRatio m.written.numerator m.written.denominator = m := by
  rw [written]
  split
  · next h =>
    have hden : (m.shortest .toEven).denominator = 1 := by
      have hzero : (-(m.shortest .toEven).exponent).toNat = 0 := by omega
      rw [Decimal.denominator, hzero]
      rfl
    have hnumerator (n : Nat) : Decimal.numerator ⟨n, -1⟩ = n := Nat.mul_one n
    have hdenominator (n : Nat) : Decimal.denominator ⟨n, -1⟩ = 1 * 10 := rfl
    rw [hnumerator, hdenominator, ofRatio_mul_right _ _ (by decide), ← hden, ofRatio_shortest]
  · exact ofRatio_shortest .toEven m

end Magnitude

namespace Decimal

inductive WholeText : Text → Prop
  | zero : WholeText ['0']
  | digits {c : Char} {rest : Text} (hzero : c ≠ '0') (hd : Digits (c :: rest)) :
    WholeText (c :: rest)

theorem WholeText.digits_of {t : Text} (h : WholeText t) : Digits t ∧ t ≠ [] := by
  cases h with
  | zero => exact ⟨by decide, by decide⟩
  | digits _ hd => exact ⟨hd, List.cons_ne_nil _ _⟩

def pointText : Text → Text
  | [] => []
  | fraction => '.' :: fraction

def markText (exponent : Int) : Text :=
  'e' :: (if exponent < 0 then '-' else '+') :: Text.ofNat exponent.natAbs

inductive Token : Decimal → Text → Prop
  | pointed {whole fraction : Text} (hw : WholeText whole) (hf : Digits fraction)
    (hne : fraction ≠ []) :
    Token ⟨Literal.significand whole fraction, 0 - fraction.length⟩ (whole ++ '.' :: fraction)
  | marked {whole fraction : Text} {exponent : Int} (hw : WholeText whole) (hf : Digits fraction)
    (hlimit : exponent.natAbs < exponentLimit) :
    Token ⟨Literal.significand whole fraction, exponent - fraction.length⟩
      (whole ++ (pointText fraction ++ markText exponent))

end Decimal

namespace Binary64

open Decimal

section Written

theorem exists_ofNat {n : Nat} (hn : 0 < n) : ∃ c rest, Text.ofNat n = c :: rest ∧ c ≠ '0' := by
  induction n using Nat.strongRecOn with
  | ind n ih =>
    by_cases hlt : n < 10
    · have hdigit : ∀ k < 10, 0 < k → Nat.digitChar k ≠ '0' := by decide
      exact ⟨n.digitChar, [], Nat.toDigits_of_lt_base hlt, hdigit n hlt hn⟩
    · obtain ⟨c, rest, hrest, hc⟩ := ih (n / 10) (by omega) (by omega)
      refine ⟨c, rest ++ [(n % 10).digitChar], ?_, hc⟩
      rw [Text.ofNat, Nat.toDigits_of_base_le (by decide) (Nat.le_of_not_lt hlt)]
      exact congrArg (· ++ _) hrest

theorem value_ofNat (n : Nat) : Nat.ofDigitChars 10 (Text.ofNat n) 0 = n :=
  Nat.ofDigitChars_ten_toDigits

theorem wholeText_append {n : Nat} (hn : 0 < n) {more : Text} (hd : Digits more) :
    WholeText (Text.ofNat n ++ more) := by
  obtain ⟨c, rest, hrest, hc⟩ := exists_ofNat hn
  have hdigits := (digits_ofNat n).append hd
  rw [hrest] at hdigits ⊢
  exact .digits hc hdigits

theorem length_ofNat_pos (n : Nat) : 0 < (Text.ofNat n).length := Nat.length_toDigits_pos

theorem token_whole {d : Decimal} (he : 0 ≤ d.exponent) (hzero : d.significand = 0 → d.exponent = 0) :
    Token ⟨d.numerator * 10, -1⟩ (positional d ++ ['.', '0']) := by
  have hw : WholeText (Text.ofNat d.significand ++ zeros d.exponent.toNat) := by
    by_cases hs : d.significand = 0
    · rw [hs, hzero hs]
      exact .zero
    · exact wholeText_append (Nat.pos_of_ne_zero hs) (digits_zeros _)
  have hvalue : Literal.significand (Text.ofNat d.significand ++ zeros d.exponent.toNat) ['0'] =
      d.numerator * 10 := by
    have hlast : Nat.ofDigitChars 10 ['0'] 0 = 0 := rfl
    have hten : tenPow ['0'].length = 10 := rfl
    rw [Literal.significand, ofDigitChars_append, ofDigitChars_append, value_ofNat, ofDigitChars_zeros,
      hlast, hten, zeros, List.length_replicate]
    rfl
  have hlast : Digits ['0'] ∧ ['0'] ≠ [] := by decide
  have htoken := Token.pointed hw hlast.1 hlast.2
  rw [hvalue] at htoken
  simp only [positional, if_pos he]
  exact htoken

theorem token_fraction {d : Decimal} (he : ¬0 ≤ d.exponent) (hs : 0 < d.significand) :
    Token d (positional d) := by
  obtain ⟨c, rest, hrest, hc⟩ := exists_ofNat hs
  have hdigits := digits_ofNat d.significand
  have hvalue := value_ofNat d.significand
  have hexponent {fraction : Text} (hlen : fraction.length = (-d.exponent).toNat) :
      d.exponent = 0 - fraction.length := by omega
  simp only [positional, if_neg he]
  split
  · next hlt =>
    generalize hn : (Text.ofNat d.significand).length - (-d.exponent).toNat = n
    have hlen : ((Text.ofNat d.significand).drop n).length = (-d.exponent).toNat := by
      rw [List.length_drop]
      omega
    have hw : WholeText ((Text.ofNat d.significand).take n) := by
      obtain ⟨k, rfl⟩ : ∃ k, n = k + 1 := ⟨n - 1, by omega⟩
      have htake : Digits ((Text.ofNat d.significand).take (k + 1)) :=
        fun x hx => hdigits x (List.mem_of_mem_take hx)
      rw [hrest, List.take_succ_cons] at htake ⊢
      exact .digits hc htake
    have hf : Digits ((Text.ofNat d.significand).drop n) :=
      fun x hx => hdigits x (List.mem_of_mem_drop hx)
    have hne : (Text.ofNat d.significand).drop n ≠ [] := by
      apply List.ne_nil_of_length_pos
      omega
    have htoken := Token.pointed hw hf hne
    rwa [← hexponent hlen, Literal.significand, List.take_append_drop, hvalue] at htoken
  · next hge =>
    have hlen : (zeros ((-d.exponent).toNat - (Text.ofNat d.significand).length) ++
        Text.ofNat d.significand).length = (-d.exponent).toNat := by
      rw [List.length_append, zeros, List.length_replicate]
      omega
    have hne : zeros ((-d.exponent).toNat - (Text.ofNat d.significand).length) ++
        Text.ofNat d.significand ≠ [] := List.append_ne_nil_of_right_ne_nil _ (ofNat_ne_nil _)
    have htoken := Token.pointed .zero ((digits_zeros _).append hdigits) hne
    have hzero : Nat.ofDigitChars 10 ['0'] 0 = 0 := rfl
    rw [← hexponent hlen, Literal.significand, ofDigitChars_append, ofDigitChars_append, hzero,
      ofDigitChars_zeros, hvalue, Nat.zero_mul, Nat.zero_mul, Nat.zero_add, Nat.zero_add] at htoken
    exact htoken

theorem token_scientific {d : Decimal} (hs : 0 < d.significand)
    (hlimit : (d.exponent + (Text.ofNat d.significand).length - 1).natAbs < exponentLimit) :
    Token d (scientific d) := by
  obtain ⟨c, rest, hrest, hc⟩ := exists_ofNat hs
  have hdigits := digits_ofNat d.significand
  have hvalue := value_ofNat d.significand
  rw [scientific]
  rw [hrest] at hdigits hvalue hlimit ⊢
  obtain ⟨hcd, hfraction⟩ := List.forall_mem_cons.mp hdigits
  have hw : WholeText [c] := .digits hc (List.forall_mem_singleton.mpr hcd)
  have htoken := Token.marked hw hfraction hlimit
  have hexponent : d.exponent + ((c :: rest).length : Int) - 1 - rest.length = d.exponent := by
    rw [List.length_cons]
    omega
  rw [hexponent, Literal.significand, List.singleton_append, hvalue] at htoken
  cases rest with
  | nil => simpa [pointText, markText] using htoken
  | cons x rest => simpa [pointText, markText] using htoken

theorem length_ofNat_le {n k : Nat} (hk : 0 < k) (hn : n < tenPow k) : (Text.ofNat n).length ≤ k :=
  (Nat.length_toDigits_le_iff (by decide) hk).mpr hn

theorem token_written {m : Magnitude} (hfinite : m.rank < infinityRank) :
    Token m.written (documentDigits m) := by
  obtain ⟨hs, hmin, hmax⟩ := Magnitude.shortest_brief .toEven hfinite
  have hlen := length_ofNat_le (k := 20) (by decide) (hs.trans_lt (by decide))
  have hpos := length_ofNat_pos (m.shortest .toEven).significand
  rw [Magnitude.written, documentDigits]
  by_cases hm : m.rank = 0
  · rw [Magnitude.shortest_zero _ hm]
    exact token_whole (by decide) (fun _ => rfl)
  have hsig : 0 < (m.shortest .toEven).significand :=
    Magnitude.significand_pos (Nat.pos_of_ne_zero hm)
      (Magnitude.shortest_roundsTo _ (Nat.pos_of_ne_zero hm))
  generalize m.shortest .toEven = d at hs hmin hmax hlen hpos hsig
  by_cases hleading : -5 ≤ d.exponent + ((Text.ofNat d.significand).length : Int) - 1 ∧
      d.exponent + ((Text.ofNat d.significand).length : Int) - 1 ≤ 15
  · by_cases he : 0 ≤ d.exponent
    · rw [if_pos ⟨hleading, he⟩, if_pos hleading, if_pos he]
      exact token_whole he fun h => absurd h hsig.ne'
    · rw [if_neg fun h => he h.2, if_pos hleading, if_neg he]
      exact token_fraction he hsig
  · rw [if_neg fun h => hleading h.1, if_neg hleading]
    refine token_scientific hsig ?_
    have hlimit : exponentLimit = 65536 := rfl
    omega

end Written

section ReadBack

theorem le_ofDigitChars (t : Text) (init : Nat) : init ≤ Nat.ofDigitChars 10 t init := by
  rw [Nat.ofDigitChars_eq_ofDigitChars_zero]
  exact (Nat.le_mul_of_pos_left init (tenPow_pos t.length)).trans (Nat.le_add_right _ _)

theorem foldl_exponent (t : Text) (init : Nat) (h : Nat.ofDigitChars 10 t init < exponentLimit) :
    t.foldl (fun n c => if n < exponentLimit then 10 * n + (c.toNat - 48) else n) init =
      Nat.ofDigitChars 10 t init := by
  induction t generalizing init with
  | nil => rfl
  | cons c t ih =>
    rw [Nat.ofDigitChars_cons] at h ⊢
    have hle := le_ofDigitChars t (10 * init + (c.toNat - '0'.toNat))
    rw [List.foldl_cons, if_pos (by omega)]
    exact ih _ h

theorem exponentValue_ofNat {n : Nat} (hn : n < exponentLimit) :
    exponentValue (Text.ofNat n) = n := by
  rw [exponentValue, foldl_exponent _ _ ((value_ofNat n).trans_lt hn), value_ofNat]

theorem exponentText_mark {exponent : Int} (h : exponent.natAbs < exponentLimit) :
    ExponentText (markText exponent) exponent := by
  have hd := digits_ofNat exponent.natAbs
  have hne := ofNat_ne_nil exponent.natAbs
  have hvalue := exponentValue_ofNat h
  by_cases hneg : exponent < 0
  · have hmark := ExponentText.some (.inl rfl) .minus hd hne
    have he : -(exponent.natAbs : Int) = exponent := by omega
    rw [if_pos rfl, hvalue, he] at hmark
    rw [markText, if_pos hneg]
    exact hmark
  · have hmark := ExponentText.some (.inl rfl) .plus hd hne
    have he : (exponent.natAbs : Int) = exponent := by omega
    rw [if_neg (by decide), hvalue, he] at hmark
    rw [markText, if_neg hneg]
    exact hmark

end ReadBack

end Binary64

open Binary64

theorem Decimal.Token.spelled {d : Decimal} {t : Text} (h : Token d t) (negative : Bool) :
    ∃ whole fraction exponent,
      Spelled (signText negative ++ t) ⟨negative, .decimal whole fraction exponent⟩ ∧
      value ⟨negative, .decimal whole fraction exponent⟩ =
        .signed negative (.ofRatio d.numerator d.denominator) := by
  have hsign := signText_spelled negative
  cases h with
  | @pointed whole fraction hw hf hne =>
    obtain ⟨hwhole, hwne⟩ := hw.digits_of
    have hbody := BodyText.pointed hwhole hf (.inl hwne) .none
    rw [List.append_nil] at hbody
    exact ⟨whole, fraction, 0, .mk hsign hbody, value_decimal hwhole hf negative 0⟩
  | @marked whole fraction exponent hw hf hlimit =>
    obtain ⟨hwhole, hwne⟩ := hw.digits_of
    refine ⟨whole, fraction, exponent, .mk hsign ?_, value_decimal hwhole hf negative exponent⟩
    have hmark := exponentText_mark hlimit
    cases fraction with
    | nil => exact .whole hwhole hwne hmark
    | cons c fraction => exact .pointed hwhole hf (.inl hwne) hmark

namespace Binary64

theorem spelled_document (negative : Bool) {m : Magnitude} (hfinite : m.rank < infinityRank) :
    ∃ whole fraction exponent,
      Spelled (signText negative ++ documentDigits m)
        ⟨negative, .decimal whole fraction exponent⟩ ∧
      value ⟨negative, .decimal whole fraction exponent⟩ = .signed negative m := by
  have h := (token_written hfinite).spelled negative
  rwa [m.ofRatio_written] at h

end Binary64

end StockScreen
