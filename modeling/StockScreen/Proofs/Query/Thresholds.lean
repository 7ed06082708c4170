import StockScreen.Proofs.Binary64.Reading
import StockScreen.Proofs.Query.Grammar

namespace StockScreen

open Literal

/-- The segment comes apart at its operator, so that the text after it is read as a threshold. -/
def Operator.Cuts (op : Operator) (segment left right : Text) : Prop :=
  detect? segment = some op ∧ Text.split op.symbol segment = [left, right]

theorem Operator.cuts_around {op : Operator} {left right : Text} (hl : op.FreeUpTo left)
    (hr : ∀ m ∈ right, m ∉ marks) : op.Cuts (left ++ (op.symbol ++ right)) left right :=
  ⟨detect?_eq_some_iff.mpr (firstIn_around hl hr), split_around hl hr⟩

namespace Report

section Cut

variable {op : Operator} {segment left right : Text}

theorem readSegment_of_cuts (h : op.Cuts segment left right) :
    readSegment segment =
      (threshold? right.trim).elim (.error .invalidValue) fun x => .ok ⟨left.trim, op, x⟩ := by
  rw [readSegment, h.1]
  simp only [h.2]
  cases threshold? right.trim <;> rfl

theorem threshold?_of_decimal {t : Text} {w : Written} (h : DecimalText t w)
    (hr : Binary64.ReadsAs t w.toRat) :
    (|w.toRat| < Magnitude.overflowBound → ∃ x, threshold? t = some x ∧ x.isFinite = true) ∧
      (Magnitude.overflowBound ≤ |w.toRat| → threshold? t = none) := by
  obtain ⟨x, hread, hrounds⟩ := hr
  constructor
  · intro hlt
    have hfinite := hrounds.isFinite_iff.mpr hlt
    exact ⟨x, threshold?_eq_some_iff.mpr ⟨hread, .inl hfinite⟩, hfinite⟩
  · intro hle
    refine Option.eq_none_iff_forall_ne_some.mpr fun y hy => ?_
    obtain ⟨hy, hkept⟩ := threshold?_eq_some_iff.mp hy
    obtain rfl : x = y := Option.some.inj (hread.symm.trans hy)
    rcases hkept with hfinite | hnan | hword
    · exact absurd (hrounds.isFinite_iff.mp hfinite) (not_lt.mpr hle)
    · rw [hrounds.isNaN] at hnan
      contradiction
    · exact h.not_spellsInfinity hword

theorem isInfinite_iff_of_isThreshold {t : Text} {x : Binary64} (h : Binary64.IsThreshold t x) :
    x.isInfinite = true ↔ SpellsInfinity t := by
  obtain ⟨l, hl, rfl⟩ := Option.map_eq_some_iff.mp h.1
  constructor
  · intro hinfinite
    rcases h.2 with hfinite | hnan | hword
    · rw [(Binary64.isInfinite_or _).mpr (.inl hfinite)] at hinfinite
      contradiction
    · rw [(Binary64.isInfinite_or _).mpr (.inr hnan)] at hinfinite
      contradiction
    · exact hword
  · intro hword
    have hbody := (spellsInfinity_iff (read?_eq_some_iff.mp hl)).mp hword
    rw [value, hbody]
    rfl

theorem exists_cuts {c : Condition} (h : readSegment segment = .ok c) :
    ∃ left right, c.operator.Cuts segment left right ∧ c.field = left.trim ∧
      Binary64.IsThreshold right.trim c.threshold := by
  obtain ⟨left, right, rfl, hl, hr, hf, hx⟩ := readSegment_eq_ok_iff.mp h
  exact ⟨left, right, Operator.cuts_around hl hr, hf, hx⟩

end Cut

section Pieces

variable {text : Text}

theorem dropped?_eq_some_iff {segment : Text} {d : Dropped} :
    dropped? segment = some d ↔ d.segment = segment ∧ readSegment segment = .error d.reason := by
  obtain ⟨dropped, reason⟩ := d
  rw [dropped?]
  cases readSegment segment with
  | ok c => simp
  | error cause =>
    simp only [Option.some.injEq, Dropped.mk.injEq, Except.error.injEq]
    exact and_congr_left' eq_comm

theorem mem_query_iff {c : Condition} :
    c ∈ (ofText text).query ↔
      ∃ piece ∈ Text.split Query.conjunction text, readSegment piece.trim = .ok c := by
  rw [ofText, List.mem_filterMap]
  simp only [segments, List.mem_map, exists_exists_and_eq_and, kept?_eq_some_iff,
    readSegment_eq_ok_iff]

theorem mem_dropped_iff {d : Dropped} :
    d ∈ (ofText text).dropped ↔ ∃ piece ∈ Text.split Query.conjunction text,
      d.segment = piece.trim ∧ readSegment piece.trim = .error d.reason := by
  rw [ofText, List.mem_filterMap]
  simp only [segments, List.mem_map, exists_exists_and_eq_and, dropped?_eq_some_iff]

end Pieces

/-- A segment that states a decimal of any length is a condition, with a finite threshold, exactly
when the decimal lies within half a step beyond the largest number; otherwise it is dropped as no
value. The decimal has to be rounded correctly, as it is unless it has thousands of digits and an
exponent that makes up for them. The infinite thresholds of a query are those spelled out. -/
theorem keeps_thresholds_in_range :
    (∀ {op : Operator} {segment left right : Text} {w : Written}, op.Cuts segment left right →
      DecimalText right.trim w → Binary64.ReadsAs right.trim w.toRat →
      ((∃ c, readSegment segment = .ok c) ↔ |w.toRat| < Magnitude.overflowBound) ∧
        (∀ c, readSegment segment = .ok c → c.threshold.isFinite = true) ∧
        (¬|w.toRat| < Magnitude.overflowBound → readSegment segment = .error .invalidValue)) ∧
    (∀ {t : Text} {w : Written}, DecimalText t w →
      w.power.natAbs < exponentLimit ∨ t.length + 536 ≤ exponentLimit →
        Binary64.ReadsAs t w.toRat) ∧
    (∀ text c, c ∈ (ofText text).query ↔
      ∃ piece ∈ Text.split Query.conjunction text, readSegment piece.trim = .ok c) ∧
    (∀ text d, d ∈ (ofText text).dropped ↔ ∃ piece ∈ Text.split Query.conjunction text,
      d.segment = piece.trim ∧ readSegment piece.trim = .error d.reason) ∧
    ∀ segment c, readSegment segment = .ok c →
      ∃ left right, c.operator.Cuts segment left right ∧ c.field = left.trim ∧
        (c.threshold.isInfinite = true ↔ SpellsInfinity right.trim) := by
  refine ⟨?_, fun h hshort => h.readsAs hshort, fun text c => mem_query_iff,
    fun text d => mem_dropped_iff, ?_⟩
  · intro op segment left right w hcut hdecimal hrounds
    obtain ⟨hin, hout⟩ := threshold?_of_decimal hdecimal hrounds
    have hread := readSegment_of_cuts hcut
    by_cases hlt : |w.toRat| < Magnitude.overflowBound
    · obtain ⟨x, hx, hfinite⟩ := hin hlt
      rw [hx, Option.elim_some] at hread
      refine ⟨iff_of_true ⟨_, hread⟩ hlt, fun c hc => ?_, fun h => absurd hlt h⟩
      obtain rfl := Except.ok.inj (hread.symm.trans hc)
      exact hfinite
    · rw [hout (not_lt.mp hlt), Option.elim_none] at hread
      refine ⟨iff_of_false ?_ hlt, ?_, fun _ => hread⟩
      · rintro ⟨c, hc⟩
        exact nomatch hread.symm.trans hc
      · intro c hc
        exact nomatch hread.symm.trans hc
  · intro segment c hc
    obtain ⟨left, right, hcut, hfield, hthreshold⟩ := exists_cuts hc
    exact ⟨left, right, hcut, hfield, isInfinite_iff_of_isThreshold hthreshold⟩

def limitText (n : Nat) : Text := ['P', '<'] ++ Text.ofNat n

theorem mem_limitText {n : Nat} {c : Char} (hc : c ∈ limitText n) :
    c ∈ ['P', '<'] ++ "0123456789".toList := by
  rw [limitText, List.mem_append] at hc
  exact List.mem_append.mpr (hc.imp_right fun hc => mem_digits (Binary64.digits_ofNat n c hc))

theorem pieces_limitText (n : Nat) :
    Text.split Query.conjunction (limitText n) = [limitText n] ∧
      (limitText n).trim = limitText n := by
  have hplain : ∀ c ∈ ['P', '<'] ++ "0123456789".toList, c ≠ 'A' ∧ Text.isBlank c = false := by
    decide
  constructor
  · refine Text.split_of_not_occurring fun hand => ?_
    exact (hplain 'A' (mem_limitText (hand.subset (by decide)))).1 rfl
  · exact Text.trim_of_not_blank fun c hc => (hplain c (mem_limitText hc)).2

theorem cuts_limitText (n : Nat) :
    Operator.below.Cuts (limitText n) ['P'] (Text.ofNat n) ∧
      DecimalText (Text.ofNat n).trim (.ofNat n) := by
  have hfree : Operator.below.FreeUpTo ['P'] := by decide
  have hmarks : ∀ c ∈ "0123456789".toList, c ∉ Operator.marks := by decide
  have hblanks : ∀ c ∈ "0123456789".toList, Text.isBlank c = false := by decide
  have hdigits := Binary64.digits_ofNat n
  constructor
  · exact Operator.cuts_around hfree fun c hc => hmarks c (mem_digits (hdigits c hc))
  · rw [Text.trim_of_not_blank fun c hc => hblanks c (mem_digits (hdigits c hc))]
    exact decimalText_ofNat n

theorem keeps_thresholds_short_of_the_bound :
    ⟨limitText (twoPow 1024 - twoPow 970), .invalidValue⟩ ∈
        (ofText (limitText (twoPow 1024 - twoPow 970))).dropped ∧
      ∃ c ∈ (ofText (limitText (twoPow 1024 - twoPow 970 - 1))).query,
        c.threshold.isFinite = true := by
  obtain ⟨hdecimal, hreads, hquery, hdropped, -⟩ := keeps_thresholds_in_range
  have hkept (n : Nat) := hdecimal (cuts_limitText n).1 (cuts_limitText n).2
    (hreads (cuts_limitText n).2 (.inl (Nat.zero_lt_succ _)))
  have hbound : ((twoPow 1024 - twoPow 970 : Nat) : ℚ) = Magnitude.overflowBound := by
    rw [Nat.cast_sub (twoPow_le (by decide)), Magnitude.twoPow_cast, Magnitude.twoPow_cast]
    rfl
  have hbelow : ((twoPow 1024 - twoPow 970 - 1 : Nat) : ℚ) < Magnitude.overflowBound := by
    rw [← hbound, Nat.cast_lt]
    exact Nat.sub_one_lt (by decide +kernel)
  constructor
  · obtain ⟨hpiece, htrim⟩ := pieces_limitText (twoPow 1024 - twoPow 970)
    refine (hdropped _ _).mpr ⟨_, hpiece ▸ List.mem_singleton_self _, htrim.symm, ?_⟩
    rw [htrim]
    apply (hkept _).2.2
    rw [Written.toRat_ofNat, Nat.abs_cast, hbound]
    exact lt_irrefl _
  · obtain ⟨hpiece, htrim⟩ := pieces_limitText (twoPow 1024 - twoPow 970 - 1)
    obtain ⟨c, hc⟩ := (hkept (twoPow 1024 - twoPow 970 - 1)).1.mpr (by
      rw [Written.toRat_ofNat, Nat.abs_cast]
      exact hbelow)
    refine ⟨c, (hquery _ _).mpr ⟨_, hpiece ▸ List.mem_singleton_self _, ?_⟩, (hkept _).2.1 c hc⟩
    rw [htrim]
    exact hc

end Report

end StockScreen
