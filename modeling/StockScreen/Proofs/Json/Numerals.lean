import StockScreen.Proofs.Json.Members
import StockScreen.Proofs.Json.Passing
import StockScreen.Proofs.Json.Scaling
import StockScreen.Proofs.Text.Decoding

namespace StockScreen

open Utf8 (Bytes)
open Literal (Digits)
open Decimal

namespace Json

section Digits

variable {t : Text} {rest : Bytes}

def endings : Bytes := [0x20, 0x0A, 0x09, 0x0D, 0x2C, 0x5D, 0x7D]

theorem Ends.head_eq_false (h : Ends rest) {p : UInt8 → Bool} (hp : ∀ b ∈ endings, p b = false) :
    ∀ b ∈ rest.head?, p b = false := by
  intro b hb
  have hcases := h b hb
  apply hp
  simp only [endings, isBlank_iff, List.mem_cons, List.not_mem_nil, or_false] at hcases ⊢
  tauto

theorem not_blank_of_digit {b : UInt8} (hb : isDigit b = true) : isBlank b = false := by
  have hdigit : ∀ b ∈ ([0x20, 0x0A, 0x09, 0x0D] : Bytes), isDigit b = false := by decide
  refine Bool.eq_false_iff.mpr fun hblank => ?_
  exact Bool.false_ne_true ((hdigit b (isBlank_iff.mp hblank)).symm.trans hb)

theorem digit_bounds {c : Char} (hc : c.isDigit = true) : 48 ≤ c.toNat ∧ c.toNat ≤ 57 := by
  simpa [Char.isDigit, UInt32.le_iff_toNat_le] using hc

theorem encode_digit {c : Char} (hc : c.isDigit = true) :
    ∃ d : UInt8, String.utf8EncodeChar c = [d] ∧ d.toNat = c.toNat ∧ isDigit d = true := by
  obtain ⟨hlow, hhigh⟩ := digit_bounds hc
  have hascii : c.toNat < 0x80 := by omega
  have hd := Utf8.toNat_ascii hascii
  refine ⟨_, (Utf8.Encoded.one hascii).eq_utf8EncodeChar, hd, ?_⟩
  simp only [isDigit, Bool.and_eq_true, decide_eq_true_eq, UInt8.le_iff_toNat_le, hd]
  exact ⟨hlow, hhigh⟩

theorem digitBytes_encode (h : Digits t) : DigitBytes (Utf8.encode t) := by
  intro b hb
  obtain ⟨c, hc, hbc⟩ := List.mem_flatMap.mp hb
  obtain ⟨d, hd, -, hdigit⟩ := encode_digit (h c hc)
  rw [hd] at hbc
  rw [List.mem_singleton.mp hbc]
  exact isDigit_iff.mp hdigit

theorem length_encode (h : Digits t) : (Utf8.encode t).length = t.length := by
  induction t with
  | nil => rfl
  | cons c t ih =>
    obtain ⟨hc, ht⟩ := List.forall_mem_cons.mp h
    obtain ⟨d, hd, -⟩ := encode_digit hc
    rw [Utf8.encode_cons, hd, List.singleton_append, List.length_cons, ih ht, List.length_cons]

theorem takeWhile_digits {ds : Bytes} (hds : DigitBytes ds)
    (hrest : ∀ b ∈ rest.head?, isDigit b = false) :
    (ds ++ rest).takeWhile isDigit = ds ∧ (ds ++ rest).dropWhile isDigit = rest := by
  rw [List.takeWhile_append_of_pos (digitBytes_iff.mp hds),
    List.dropWhile_append_of_pos (digitBytes_iff.mp hds)]
  cases rest with
  | nil => exact ⟨List.append_nil ds, rfl⟩
  | cons b rest =>
    have hb : ¬isDigit b = true := Bool.eq_false_iff.mp (hrest b rfl)
    rw [List.takeWhile_cons_of_neg hb, List.dropWhile_cons_of_neg hb]
    exact ⟨List.append_nil ds, rfl⟩

theorem absorb_encode (h : Digits t) (s count : Nat)
    (hs : Nat.ofDigitChars 10 t s < twoPow 64) :
    absorb s count (Utf8.encode t) = (Nat.ofDigitChars 10 t s, count + t.length) := by
  induction t generalizing s count with
  | nil => rfl
  | cons c t ih =>
    obtain ⟨hc, ht⟩ := List.forall_mem_cons.mp h
    obtain ⟨d, hd, hvalue, -⟩ := encode_digit hc
    have hnext : s * 10 + (d.toNat - 48) = 10 * s + (c.toNat - '0'.toNat) := by
      rw [hvalue, Nat.mul_comm]
      rfl
    rw [Nat.ofDigitChars_cons] at hs ⊢
    have hlt := (Binary64.le_ofDigitChars t _).trans_lt hs
    rw [Utf8.encode_cons, hd, List.singleton_append, absorb]
    simp only [hnext, if_pos hlt]
    rw [ih ht _ _ hs, List.length_cons, Nat.add_right_comm, Nat.add_assoc]

theorem exponentValue_encode (h : Digits t) (init : Nat)
    (hlimit : Nat.ofDigitChars 10 t init < exponentLimit) :
    (Utf8.encode t).foldl
        (fun n d => if n < exponentLimit then n * 10 + (d.toNat - 48) else n) init =
      Nat.ofDigitChars 10 t init := by
  induction t generalizing init with
  | nil => rfl
  | cons c t ih =>
    obtain ⟨hc, ht⟩ := List.forall_mem_cons.mp h
    obtain ⟨d, hd, hvalue, -⟩ := encode_digit hc
    have hnext : init * 10 + (d.toNat - 48) = 10 * init + (c.toNat - '0'.toNat) := by
      rw [hvalue, Nat.mul_comm]
      rfl
    rw [Nat.ofDigitChars_cons] at hlimit ⊢
    have hlt := (Binary64.le_ofDigitChars t _).trans_lt hlimit
    rw [Utf8.encode_cons, hd, List.singleton_append, List.foldl_cons, if_pos (by omega), hnext]
    exact ih ht _ hlimit

end Digits

section Tails

variable {negative : Bool} {s : Nat} {start exponent : Int} {tail : Text} {rest : Bytes}

inductive TailText : Text → Int → Prop where
  | none : TailText [] 0
  | mark {exponent : Int} (h : exponent.natAbs < Literal.exponentLimit) :
    TailText (markText exponent) exponent

theorem exponentDigits (h : exponent.natAbs < Literal.exponentLimit) (hrest : Ends rest) :
    ∃ d ds, Utf8.encode (Text.ofNat exponent.natAbs) ++ rest = d :: ds ∧ isDigit d = true ∧
      exponentValue ((d :: ds).takeWhile isDigit) = exponent.natAbs ∧
      (d :: ds).dropWhile isDigit = rest := by
  have hdigits := Binary64.digits_ofNat exponent.natAbs
  have hbytes := digitBytes_encode hdigits
  have hvalue := Binary64.value_ofNat exponent.natAbs
  have hexponent := exponentValue_encode hdigits 0 (by rw [hvalue]; exact h.trans (by decide))
  obtain ⟨htake, hdrop⟩ := takeWhile_digits hbytes (hrest.head_eq_false (by decide))
  obtain ⟨d, ds, hcons⟩ := List.exists_cons_of_ne_nil
    (Utf8.encode_ne_nil (Binary64.ofNat_ne_nil exponent.natAbs))
  rw [hcons, List.cons_append] at htake hdrop ⊢
  refine ⟨d, ds ++ rest, rfl, digitBytes_iff.mp hbytes d ?_, ?_, hdrop⟩
  · rw [hcons]
    exact List.mem_cons_self
  · rw [htake, ← hcons, exponentValue, hexponent, hvalue]

theorem readExponent_mark (h : exponent.natAbs < Literal.exponentLimit) (hrest : Ends rest) :
    readExponent negative s start ((if exponent < 0 then 0x2D else 0x2B) ::
        (Utf8.encode (Text.ofNat exponent.natAbs) ++ rest)) =
      (fromParts negative s (start + exponent)).map (·, rest) := by
  obtain ⟨d, ds, hcons, hd, hvalue, hdrop⟩ := exponentDigits h hrest
  have hlimit : ¬exponentLimit ≤ exponent.natAbs :=
    Nat.not_le.mpr (h.trans (by decide))
  rw [hcons, readExponent]
  by_cases hneg : exponent < 0
  · have hvalue' : start - (exponent.natAbs : Int) = start + exponent := by omega
    have hplus : isByte '+' 0x2D = false := rfl
    have hminus : isByte '-' 0x2D = true := rfl
    simp only [if_pos hneg, hplus, hminus, hd, hvalue, hdrop, if_neg hlimit, hvalue', if_true,
      Bool.not_true, Bool.false_eq_true, if_false]
  · have hvalue' : start + (exponent.natAbs : Int) = start + exponent := by omega
    have hplus : isByte '+' 0x2B = true := rfl
    simp only [if_neg hneg, hplus, hd, hvalue, hdrop, if_neg hlimit, hvalue', if_true,
      Bool.not_true, Bool.false_eq_true, if_false]

theorem encode_markText (exponent : Int) :
    Utf8.encode (markText exponent) = 0x65 :: (if exponent < 0 then 0x2D else 0x2B) ::
      Utf8.encode (Text.ofNat exponent.natAbs) := by
  have he : String.utf8EncodeChar 'e' = [0x65] := by decide
  have hminus : String.utf8EncodeChar '-' = [0x2D] := by decide
  have hplus : String.utf8EncodeChar '+' = [0x2B] := by decide
  rw [markText, Utf8.encode_cons, Utf8.encode_cons, he]
  split
  · rw [hminus]
    rfl
  · rw [hplus]
    rfl

theorem readTail_written (h : TailText tail exponent) (hrest : Ends rest) :
    readTail negative s start (Utf8.encode tail ++ rest) =
      (fromParts negative s (start + exponent)).map (·, rest) := by
  cases h with
  | none =>
    rw [Int.add_zero]
    cases rest with
    | nil => rfl
    | cons b rest =>
      have hmark : (isByte 'e' b || isByte 'E' b) = false :=
          hrest.head_eq_false (p := fun b => isByte 'e' b || isByte 'E' b) (by decide) b rfl
      exact if_neg (ne_true_of_eq_false hmark)
  | mark h =>
    rw [encode_markText, List.cons_append, List.cons_append]
    exact readExponent_mark h hrest

theorem TailText.not_digit (h : TailText tail exponent) (hrest : Ends rest) :
    ∀ b ∈ (Utf8.encode tail ++ rest).head?, isDigit b = false := by
  cases h with
  | none => exact hrest.head_eq_false (by decide)
  | mark =>
    intro b hb
    rw [encode_markText] at hb
    obtain rfl : 0x65 = b := Option.some.inj hb
    rfl

theorem readFraction_written {fraction : Text} (hf : Digits fraction) (hne : fraction ≠ [])
    (hs : Nat.ofDigitChars 10 fraction s < twoPow 64) (htail : TailText tail exponent)
    (hrest : Ends rest) :
    readFraction negative s start (Utf8.encode fraction ++ (Utf8.encode tail ++ rest)) =
      (fromParts negative (Nat.ofDigitChars 10 fraction s)
        (start - fraction.length + exponent)).map (·, rest) := by
  have hbytes := digitBytes_encode hf
  have habsorb := absorb_encode hf s 0 hs
  obtain ⟨htake, hdrop⟩ := takeWhile_digits hbytes (htail.not_digit hrest)
  obtain ⟨d, ds, hcons⟩ := List.exists_cons_of_ne_nil (Utf8.encode_ne_nil hne)
  have hd : isDigit d = true := digitBytes_iff.mp hbytes d (hcons ▸ List.mem_cons_self)
  rw [Nat.zero_add] at habsorb
  rw [hcons] at htake hdrop habsorb ⊢
  rw [List.cons_append] at htake hdrop ⊢
  rw [readFraction.eq_def]
  simp only [hd, htake, hdrop, habsorb]
  exact readTail_written htail hrest

end Tails

section Unsigned

variable {negative : Bool} {whole : Text} {after rest : Bytes}

theorem whole_digits (hw : WholeText whole) (hs : Nat.ofDigitChars 10 whole 0 < twoPow 64) {c : UInt8}
    (hc : isDigit c = false) (after : Bytes) :
    ∃ d ds, Utf8.encode whole ++ c :: after = d :: ds ∧ isDigit d = true ∧
      (isByte '0' d && decide (1 < ((d :: ds).takeWhile isDigit).length)) = false ∧
      absorb 0 0 ((d :: ds).takeWhile isDigit) =
        (Nat.ofDigitChars 10 whole 0, ((d :: ds).takeWhile isDigit).length) ∧
      (d :: ds).dropWhile isDigit = c :: after := by
  obtain ⟨hdigits, hne⟩ := hw.digits_of
  have hbytes := digitBytes_encode hdigits
  have hrest : ∀ b ∈ (c :: after).head?, isDigit b = false := by
    intro b hb
    obtain rfl : c = b := Option.some.inj hb
    exact hc
  obtain ⟨htake, hdrop⟩ := takeWhile_digits hbytes hrest
  have habsorb := absorb_encode hdigits 0 0 hs
  have hzero : (∀ b ∈ (Utf8.encode whole).head?, isByte '0' b = false) ∨
      (Utf8.encode whole).length = 1 := by
    cases hw with
    | zero => exact .inr rfl
    | @digits c rest hc =>
      refine .inl fun b hb => isByte_eq_false fun hb' => hc ?_
      obtain ⟨d, hd, hvalue, -⟩ := encode_digit (hdigits c List.mem_cons_self)
      rw [Utf8.encode_cons, hd] at hb
      obtain rfl : d = b := Option.some.inj hb
      rw [hb'] at hvalue
      exact Char.toNat_inj.mp hvalue.symm
  rw [Nat.zero_add, ← length_encode hdigits] at habsorb
  obtain ⟨d, ds, hcons⟩ := List.exists_cons_of_ne_nil (Utf8.encode_ne_nil hne)
  rw [hcons, List.cons_append] at htake hdrop ⊢
  rw [hcons] at habsorb hzero hbytes
  refine ⟨d, ds ++ c :: after, rfl, hbytes.head, ?_, ?_, hdrop⟩
  · rw [htake]
    rcases hzero with hzero | hlen
    · rw [hzero d rfl, Bool.false_and]
    · rw [hlen]
      exact Bool.and_false _
  · rw [htake, habsorb]

theorem readUnsigned_point (hw : WholeText whole) (hs : Nat.ofDigitChars 10 whole 0 < twoPow 64)
    (after : Bytes) :
    readUnsigned negative (Utf8.encode whole ++ 0x2E :: after) =
      (readFraction negative (Nat.ofDigitChars 10 whole 0) 0 after).map
        fun (x, rest) => (.decimal x, rest) := by
  obtain ⟨d, ds, hcons, hd, hzero, habsorb, hdrop⟩ := whole_digits hw hs (c := 0x2E) rfl after
  have hpoint : isByte '.' 0x2E = true := rfl
  rw [hcons, readUnsigned.eq_def]
  simp only [hd, hzero, habsorb, hdrop, hpoint, Nat.sub_self]
  rfl

theorem readUnsigned_mark (hw : WholeText whole) (hs : Nat.ofDigitChars 10 whole 0 < twoPow 64)
    (after : Bytes) :
    readUnsigned negative (Utf8.encode whole ++ 0x65 :: after) =
      (readExponent negative (Nat.ofDigitChars 10 whole 0) 0 after).map
        fun (x, rest) => (.decimal x, rest) := by
  obtain ⟨d, ds, hcons, hd, hzero, habsorb, hdrop⟩ := whole_digits hw hs (c := 0x65) rfl after
  have hpoint : isByte '.' 0x65 = false := rfl
  have hmark : isByte 'e' 0x65 = true := rfl
  rw [hcons, readUnsigned.eq_def]
  simp only [hd, hzero, habsorb, hdrop, hpoint, hmark, Nat.sub_self]
  rfl

theorem readUnsigned_fraction {fraction tail : Text} {exponent : Int} (hw : WholeText whole)
    (hf : Digits fraction) (hne : fraction ≠ [])
    (hs : Literal.significand whole fraction < twoPow 64) (htail : TailText tail exponent)
    (hrest : Ends rest) :
    readUnsigned negative (Utf8.encode (whole ++ '.' :: (fraction ++ tail)) ++ rest) =
      (fromParts negative (Literal.significand whole fraction)
        (exponent - fraction.length)).map fun x => (.decimal x, rest) := by
  have hpoint : String.utf8EncodeChar '.' = [0x2E] := by decide
  rw [Literal.significand, Nat.ofDigitChars_append] at hs ⊢
  have hwhole := (Binary64.le_ofDigitChars fraction _).trans_lt hs
  have hexponent : 0 - (fraction.length : Int) + exponent = exponent - fraction.length := by omega
  rw [Utf8.encode_append, Utf8.encode_cons, hpoint, Utf8.encode_append, List.append_assoc,
    List.append_assoc, List.singleton_append, List.append_assoc, readUnsigned_point hw hwhole,
    readFraction_written hf hne hs htail hrest, hexponent]
  cases fromParts negative _ _ <;> rfl

theorem readUnsigned_exponent {exponent : Int} (hw : WholeText whole)
    (hs : Literal.significand whole [] < twoPow 64)
    (hlimit : exponent.natAbs < Literal.exponentLimit) (hrest : Ends rest) :
    readUnsigned negative (Utf8.encode (whole ++ markText exponent) ++ rest) =
      (fromParts negative (Literal.significand whole []) exponent).map
        fun x => (.decimal x, rest) := by
  rw [Literal.significand, List.append_nil] at hs ⊢
  rw [Utf8.encode_append, encode_markText, List.append_assoc, List.cons_append,
    readUnsigned_mark hw hs, List.cons_append, readExponent_mark hlimit hrest, Int.zero_add]
  cases fromParts negative _ _ <;> rfl

theorem readUnsigned_token {d : Decimal} {t : Text} (h : Token d t)
    (hs : d.significand < twoPow 64) (negative : Bool) (hrest : Ends rest) :
    readUnsigned negative (Utf8.encode t ++ rest) =
      (fromParts negative d.significand d.exponent).map fun x => (.decimal x, rest) := by
  cases h with
  | @pointed whole fraction hw hf hne =>
    have hread : readUnsigned negative _ = _ := readUnsigned_fraction hw hf hne hs .none hrest
    rwa [List.append_nil] at hread
  | @marked whole fraction exponent hw hf hlimit =>
    cases fraction with
    | nil =>
      have hread : readUnsigned negative _ = _ := readUnsigned_exponent hw hs hlimit hrest
      have hexponent : exponent - (([] : Text).length : Int) = exponent := Int.sub_zero exponent
      rw [hexponent]
      exact hread
    | cons c fraction =>
      exact readUnsigned_fraction hw hf (List.cons_ne_nil _ _) hs (.mark hlimit) hrest

end Unsigned

section Written

variable {m : Magnitude}

theorem written_zero (hm : m.rank = 0) : m.written = ⟨0, -1⟩ := by
  rw [Magnitude.written, Magnitude.shortest_zero _ hm]
  decide

theorem written_significand_pos (hm : 0 < m.rank) : 0 < m.written.significand := by
  have hpos := Magnitude.significand_pos hm (Magnitude.shortest_roundsTo .toEven hm)
  rw [Magnitude.written]
  split
  · exact Nat.mul_pos (Nat.mul_pos hpos (tenPow_pos _)) (by decide)
  · exact hpos

theorem written_brief (hfinite : m.rank < infinityRank) : m.written.Brief := by
  have hbrief := Magnitude.shortest_brief .toEven hfinite
  rw [Magnitude.written]
  generalize m.shortest .toEven = d at hbrief
  split
  · next h =>
    obtain ⟨⟨-, hleading⟩, he⟩ := h
    have hexponent : -324 ≤ (-1 : Int) ∧ (-1 : Int) ≤ 308 := by decide
    refine ⟨?_, hexponent.1, hexponent.2⟩
    have hdigits : d.significand < tenPow (Text.ofNat d.significand).length :=
      (Nat.length_toDigits_le_iff (by decide) (Binary64.length_ofNat_pos _)).mp (Nat.le_refl _)
    calc d.numerator * 10
        ≤ tenPow (Text.ofNat d.significand).length * tenPow d.exponent.toNat * tenPow 1 :=
          Nat.mul_le_mul_right _ (Nat.mul_le_mul_right _ hdigits.le)
      _ = tenPow ((Text.ofNat d.significand).length + d.exponent.toNat + 1) := by
          rw [tenPow_add, tenPow_add]
      _ ≤ tenPow 19 := tenPow_le (by omega)
  · exact hbrief

/-- The two largest numbers, where two places more can be out of range. -/
def largest : Magnitude := ⟨infinityRank - 1, by decide⟩

def nextLargest : Magnitude := ⟨infinityRank - 2, by decide⟩

theorem scale_largest : ∀ m ∈ [largest, nextLargest],
    scale 3 (.ofNat m.written.significand) m.written.exponent = some largest := by
  decide +kernel

theorem scale_written_exact (hfinite : m.rank < infinityRank)
    (hs : m.written.significand ≤ twoPow 53) (he : m.written.exponent.natAbs ≤ 22) :
    scale 3 (.ofNat m.written.significand) m.written.exponent = some m := by
  have hratio := m.ofRatio_written
  have hexact := scale_exact hs he (by rwa [hratio])
  rwa [hratio] at hexact

theorem scale_written_near (hfinite : m.rank < infinityRank) :
    ∃ m', scale 3 (.ofNat m.written.significand) m.written.exponent = some m' ∧
      m'.rank < infinityRank ∧ m'.Near m := by
  have hratio := m.ofRatio_written
  by_cases hzero : m.rank = 0
  · have hexact := scale_written_exact hfinite (written_zero hzero ▸ Nat.zero_le _)
      (written_zero hzero ▸ by decide)
    exact ⟨m, hexact, hfinite, Nat.le_add_right _ 2, Nat.le_add_right _ 2⟩
  by_cases hlimit : m.rank + 2 < infinityRank
  · have hnear := scale_near (written_significand_pos (Nat.pos_of_ne_zero hzero))
      (written_brief hfinite) (by rwa [hratio])
    rwa [hratio] at hnear
  · obtain hm | hm : m.rank = largest.rank ∨ m.rank = nextLargest.rank := by
      have hlargest : largest.rank = infinityRank - 1 := rfl
      have hnext : nextLargest.rank = infinityRank - 2 := rfl
      omega
    · rw [Magnitude.eq_of_rank hm]
      exact ⟨largest, scale_largest _ (by simp), by decide, by decide⟩
    · rw [Magnitude.eq_of_rank hm]
      exact ⟨largest, scale_largest _ (by simp), by decide, by decide⟩

end Written

end Json

/-- What a number may be when a document of it is read back: a finite one of the same sign and at
most two places away. It is the number itself if the digits are an integer of 53 places and the power
of ten is at most the 22nd. -/
inductive Binary64.RereadAs : Binary64 → Binary64 → Prop where
  | mk {negative : Bool} {m m' : Magnitude} (hfinite : m'.rank < infinityRank) (hnear : m'.Near m)
    (hexact : m.written.significand ≤ twoPow 53 → m.written.exponent.natAbs ≤ 22 → m' = m) :
    RereadAs (.signed negative m) (.signed negative m')

theorem Binary64.RereadAs.eq_of_zero {negative : Bool} {y : Binary64}
    (h : (signed negative .zero).RereadAs y) : y = signed negative .zero := by
  cases h with
  | mk _ _ hexact =>
    have hwritten : Magnitude.zero.written = ⟨0, -1⟩ := Json.written_zero rfl
    rw [hexact (hwritten ▸ Nat.zero_le _) (hwritten ▸ by decide)]

namespace Json

section Numbers

variable {rest : Bytes}

theorem token_exists_digit {d : Decimal} {t : Text} (h : Token d t) :
    ∃ b bytes, Utf8.encode t = b :: bytes ∧ isDigit b = true := by
  have hwhole {whole more : Text} (hw : WholeText whole) :
      ∃ b bytes, Utf8.encode (whole ++ more) = b :: bytes ∧ isDigit b = true := by
    obtain ⟨hdigits, hne⟩ := hw.digits_of
    obtain ⟨b, bytes, hcons⟩ := List.exists_cons_of_ne_nil (Utf8.encode_ne_nil hne)
    have hb := digitBytes_iff.mp (digitBytes_encode hdigits) b (hcons ▸ List.mem_cons_self)
    exact ⟨b, bytes ++ Utf8.encode more, by rw [Utf8.encode_append, hcons, List.cons_append], hb⟩
  cases h with
  | pointed hw => exact hwhole hw
  | marked hw => exact hwhole hw

theorem readNumber_digits {d : Decimal} {t : Text} (h : Token d t) (hs : d.significand < twoPow 64)
    (negative : Bool) (expected : Text) {a : Bytes} (ha : Blanks a) (hrest : Ends rest) :
    readNumber expected (a ++ (Utf8.encode (Binary64.signText negative ++ t) ++ rest)) =
      (fromParts negative d.significand d.exponent).map (·, rest) := by
  have hread := readUnsigned_token h hs negative hrest
  obtain ⟨b, bytes, hcons, hb⟩ := token_exists_digit h
  cases negative with
  | true =>
    have hminus : Utf8.encode (Binary64.signText true ++ t) = 0x2D :: Utf8.encode t := by
      rw [Utf8.encode_append]
      rfl
    rw [readNumber, skipBlanks_append ha, hminus, List.cons_append, skipBlanks_cons rfl]
    have hnumeral : readNumeral 0x2D (Utf8.encode t ++ rest) =
        readUnsigned true (Utf8.encode t ++ rest) := if_pos rfl
    have hstarts : startsNumeral 0x2D = true := rfl
    simp only [hstarts, if_true, hnumeral, hread]
    cases fromParts true _ _ <;> rfl
  | false =>
    have hblank := not_blank_of_digit hb
    have hminus : isByte '-' b = false := isByte_of_digit hb rfl
    have hplain : Utf8.encode (Binary64.signText false ++ t) = b :: bytes := hcons
    rw [hcons, List.cons_append] at hread
    rw [readNumber, skipBlanks_append ha, hplain, List.cons_append, skipBlanks_cons hblank]
    have hnumeral : readNumeral b (bytes ++ rest) = readUnsigned false (b :: (bytes ++ rest)) := by
      rw [readNumeral, hminus]
      rfl
    have hstarts : startsNumeral b = true := by
      rw [startsNumeral, hb, Bool.or_true]
    simp only [hstarts, if_true, hnumeral, hread]
    cases fromParts false _ _ <;> rfl

theorem readNumber_written {x : Binary64} (hx : x.isFinite = true) :
    ∃ y, x.RereadAs y ∧ ∀ (expected : Text) (a rest : Bytes), Blanks a → Ends rest →
      readNumber expected (a ++ (Utf8.encode (numberText x) ++ rest)) = .ok (y, rest) := by
  cases x with
  | nan => contradiction
  | signed negative m =>
    have hm : m.isInfinite = false := by simpa [Binary64.isFinite] using hx
    have hfinite : m.rank < infinityRank := lt_of_le_of_ne m.rank_le (beq_eq_false_iff_ne.mp hm)
    obtain ⟨m', hscale, hfinite', hnear⟩ := scale_written_near hfinite
    have hs : m.written.significand < twoPow 64 :=
      (written_brief hfinite).significand_le.trans_lt (by decide)
    refine ⟨.signed negative m', .mk hfinite' hnear fun hs he => ?_, fun expected a rest ha hrest => ?_⟩
    · exact Option.some.inj (hscale.symm.trans (scale_written_exact hfinite hs he))
    · rw [numberText, if_neg (ne_true_of_eq_false hm),
        readNumber_digits (Binary64.token_written hfinite) hs negative expected ha hrest, fromParts,
        hscale]
      rfl

end Numbers

end Json

end StockScreen
