import Mathlib.Data.List.TakeWhile
import Mathlib.Tactic.IntervalCases
import StockScreen.Binary64.Literal
import StockScreen.Proofs.Text.Trimming

namespace StockScreen.Literal

def Digits (t : Text) : Prop := ∀ c ∈ t, c.isDigit = true

instance (t : Text) : Decidable (Digits t) := Text.decidableForallMem t _

theorem Digits.append {s t : Text} (hs : Digits s) (ht : Digits t) : Digits (s ++ t) :=
  List.forall_mem_append.mpr ⟨hs, ht⟩

inductive SignText : Text → Bool → Prop
  | none : SignText [] false
  | plus : SignText ['+'] false
  | minus : SignText ['-'] true

inductive ExponentText : Text → Int → Prop
  | none : ExponentText [] 0
  | some {mark : Char} {sign digits : Text} {negative : Bool} (hm : mark = 'e' ∨ mark = 'E')
      (hs : SignText sign negative) (hd : Digits digits) (hne : digits ≠ []) :
      ExponentText (mark :: (sign ++ digits))
        (if negative then -exponentValue digits else exponentValue digits)

inductive BodyText : Text → LiteralBody → Prop
  | infinity {t : Text} (h : lower t = ['i', 'n', 'f'] ∨
      lower t = ['i', 'n', 'f', 'i', 'n', 'i', 't', 'y']) : BodyText t .infinity
  | nan {t : Text} (h : lower t = ['n', 'a', 'n']) : BodyText t .nan
  | whole {whole e : Text} {exponent : Int} (hw : Digits whole) (hne : whole ≠ [])
      (he : ExponentText e exponent) : BodyText (whole ++ e) (.decimal whole [] exponent)
  | pointed {whole fraction e : Text} {exponent : Int} (hw : Digits whole) (hf : Digits fraction)
      (hne : whole ≠ [] ∨ fraction ≠ []) (he : ExponentText e exponent) :
      BodyText (whole ++ '.' :: (fraction ++ e)) (.decimal whole fraction exponent)

inductive Spelled : Text → Literal → Prop
  | mk {sign t : Text} {negative : Bool} {body : LiteralBody} (hs : SignText sign negative)
      (hb : BodyText t body) : Spelled (sign ++ t) ⟨negative, body⟩

section Scan

theorem digits_takeWhile (t : Text) : Digits (t.takeWhile Char.isDigit) := by
  intro c hc
  exact List.mem_takeWhile_imp hc

theorem takeWhile_digits {whole rest : Text} (hw : Digits whole)
    (hr : ∀ c ∈ rest.head?, c.isDigit = false) :
    (whole ++ rest).takeWhile Char.isDigit = whole ∧
      (whole ++ rest).dropWhile Char.isDigit = rest := by
  rw [List.takeWhile_append_of_pos hw, List.dropWhile_append_of_pos hw]
  cases rest with
  | nil => simp
  | cons c rest =>
    have hc : c.isDigit = false := hr c rfl
    simp [hc]

theorem takeSign_of_head {t : Text} (ht : ∀ c ∈ t.head?, c ≠ '+' ∧ c ≠ '-') :
    takeSign t = (false, t) := by
  unfold takeSign
  split
  · exact absurd rfl (ht '+' rfl).1
  · exact absurd rfl (ht '-' rfl).2
  · rfl

theorem takeSign_append {sign t : Text} {negative : Bool} (hs : SignText sign negative)
    (ht : ∀ c ∈ t.head?, c ≠ '+' ∧ c ≠ '-') : takeSign (sign ++ t) = (negative, t) := by
  cases hs with
  | none => exact takeSign_of_head ht
  | plus => rfl
  | minus => rfl

theorem takeSign_spelled {t rest : Text} {negative : Bool} (h : takeSign t = (negative, rest)) :
    ∃ sign, SignText sign negative ∧ t = sign ++ rest := by
  unfold takeSign at h
  split at h <;> obtain ⟨rfl, rfl⟩ := Prod.mk.inj h
  · exact ⟨['+'], .plus, rfl⟩
  · exact ⟨['-'], .minus, rfl⟩
  · exact ⟨[], .none, rfl⟩

end Scan

section Exponent

theorem exponentPart?_spelled {t : Text} {exponent : Int} (h : exponentPart? t = some exponent) :
    ExponentText t exponent := by
  cases t with
  | nil =>
    obtain rfl : 0 = exponent := Option.some.inj h
    exact .none
  | cons c t =>
    rw [exponentPart?] at h
    split at h
    · next hc =>
      rcases hs : takeSign t with ⟨negative, digits⟩
      obtain ⟨sign, hsign, rfl⟩ := takeSign_spelled hs
      rw [exponent?, hs] at h
      simp only [Option.ite_none_left_eq_some, Bool.or_eq_true, not_or, Bool.not_eq_true,
        List.isEmpty_eq_false_iff, Bool.not_eq_false', List.all_eq_true, Option.some.injEq] at h
      rw [← h.2]
      exact .some hc hsign h.1.2 h.1.1
    · contradiction

theorem ExponentText.read {t : Text} {exponent : Int} (h : ExponentText t exponent) :
    exponentPart? t = Option.some exponent := by
  cases h with
  | none => rfl
  | @some mark sign digits negative hm hs hd hne =>
    have hh : ∀ c ∈ digits.head?, c ≠ '+' ∧ c ≠ '-' := by
      intro c hc
      have hcd := hd c (List.mem_of_mem_head? hc)
      constructor <;> rintro rfl <;> contradiction
    have hempty : digits.isEmpty = false := List.isEmpty_eq_false_iff.mpr hne
    have hall : digits.all Char.isDigit = true := List.all_eq_true.mpr hd
    rw [exponentPart?, if_pos hm, exponent?, takeSign_append hs hh]
    simp [hempty, hall]

theorem ExponentText.head {t : Text} {exponent : Int} (h : ExponentText t exponent) :
    ∀ c ∈ t.head?, c.isDigit = false ∧ c ≠ '.' := by
  cases h with
  | none => simp
  | some hm hs hd hne =>
    intro c hc
    obtain rfl : _ = c := Option.some.inj hc
    rcases hm with rfl | rfl <;> decide

end Exponent

section Body

theorem fractionPart_of_head {t : Text} (ht : ∀ c ∈ t.head?, c ≠ '.') :
    fractionPart t = ([], t) := by
  unfold fractionPart
  split
  · exact absurd rfl (ht '.' rfl)
  · rfl

theorem decimal?_spelled {t : Text} {body : LiteralBody} (h : decimal? t = some body) :
    BodyText t body := by
  have ht : t.takeWhile Char.isDigit ++ t.dropWhile Char.isDigit = t :=
    List.takeWhile_append_dropWhile
  have hw := digits_takeWhile t
  rw [decimal?] at h
  generalize t.takeWhile Char.isDigit = whole at ht hw h
  generalize t.dropWhile Char.isDigit = rest at ht h
  subst ht
  simp only [Option.ite_none_left_eq_some, Bool.and_eq_true, List.isEmpty_iff, not_and_or,
    Option.map_eq_some_iff] at h
  obtain ⟨hne, exponent, he, rfl⟩ := h
  by_cases hp : ∃ tail, rest = '.' :: tail
  · obtain ⟨tail, rfl⟩ := hp
    have htail : tail.takeWhile Char.isDigit ++ tail.dropWhile Char.isDigit = tail :=
      List.takeWhile_append_dropWhile
    have hb := BodyText.pointed hw (digits_takeWhile tail) hne (exponentPart?_spelled he)
    rw [fractionPart, htail] at hb
    exact hb
  · have hf : fractionPart rest = ([], rest) := by
      apply fractionPart_of_head
      rintro c hc rfl
      exact hp (List.head?_eq_some_iff.mp hc)
    rw [hf] at hne he ⊢
    exact .whole hw (hne.resolve_right fun h => h rfl) (exponentPart?_spelled he)

theorem decimal?_whole {whole e : Text} {exponent : Int} (hw : Digits whole) (hne : whole ≠ [])
    (he : ExponentText e exponent) :
    decimal? (whole ++ e) = some (.decimal whole [] exponent) := by
  obtain ⟨ht, hd⟩ := takeWhile_digits hw fun c hc => (he.head c hc).1
  have hf : fractionPart e = ([], e) := fractionPart_of_head fun c hc => (he.head c hc).2
  have hempty : whole.isEmpty = false := List.isEmpty_eq_false_iff.mpr hne
  rw [decimal?, ht, hd, hf]
  simp [hempty, he.read]

theorem decimal?_pointed {whole fraction e : Text} {exponent : Int} (hw : Digits whole)
    (hf : Digits fraction) (hne : whole ≠ [] ∨ fraction ≠ []) (he : ExponentText e exponent) :
    decimal? (whole ++ '.' :: (fraction ++ e)) = some (.decimal whole fraction exponent) := by
  have hpoint : ∀ c ∈ ('.' :: (fraction ++ e)).head?, c.isDigit = false := by simp
  obtain ⟨ht, hd⟩ := takeWhile_digits hw hpoint
  obtain ⟨hft, hfd⟩ := takeWhile_digits hf fun c hc => (he.head c hc).1
  have hempty : ¬(whole.isEmpty && fraction.isEmpty) = true := by
    rw [Bool.and_eq_true, List.isEmpty_iff, List.isEmpty_iff, not_and_or]
    exact hne
  rw [decimal?, ht, hd, fractionPart, hft, hfd]
  simp only [if_neg hempty, he.read, Option.map_some]

end Body

section Alphabet

def alphabet : Text := "+-.0123456789eEinftyaINFTYA".toList

theorem mem_digits {c : Char} (hc : c.isDigit = true) : c ∈ "0123456789".toList := by
  have hb : 48 ≤ c.toNat ∧ c.toNat ≤ 57 := by
    simpa [Char.isDigit, UInt32.le_iff_toNat_le] using hc
  rw [← Char.ofNat_toNat c]
  generalize c.toNat = n at hb
  obtain ⟨h48, h57⟩ := hb
  interval_cases n <;> decide

theorem mem_alphabet_of_toLower {c : Char} (hc : c.toLower ∈ "infitya".toList) : c ∈ alphabet := by
  by_cases hu : c.val ≥ 'A'.val ∧ c.val ≤ 'Z'.val
  · have hb : 65 ≤ c.toNat ∧ c.toNat ≤ 90 := by
      simpa [UInt32.le_iff_toNat_le] using hu
    rw [← Char.ofNat_toNat c] at hc ⊢
    generalize c.toNat = n at hb hc
    obtain ⟨h65, h90⟩ := hb
    interval_cases n <;> revert hc <;> decide
  · have hsame : c.toLower = c := dif_neg hu
    have ha : ∀ d ∈ "infitya".toList, d ∈ alphabet := by decide
    rw [hsame] at hc
    exact ha c hc

theorem mem_alphabet_of_digits {t : Text} (ht : Digits t) : ∀ c ∈ t, c ∈ alphabet := by
  have h : ∀ c ∈ "0123456789".toList, c ∈ alphabet := by decide
  intro c hc
  exact h c (mem_digits (ht c hc))

theorem mem_alphabet_of_lower {t word : Text} (ht : lower t = word)
    (hw : ∀ c ∈ word, c ∈ "infitya".toList) : ∀ c ∈ t, c ∈ alphabet := by
  subst ht
  intro c hc
  exact mem_alphabet_of_toLower (hw _ (List.mem_map_of_mem hc))

theorem SignText.mem_alphabet {t : Text} {negative : Bool} (h : SignText t negative) :
    ∀ c ∈ t, c ∈ alphabet := by
  cases h <;> decide

theorem ExponentText.mem_alphabet {t : Text} {exponent : Int} (h : ExponentText t exponent) :
    ∀ c ∈ t, c ∈ alphabet := by
  cases h with
  | none => exact List.forall_mem_nil _
  | some hm hs hd hne =>
    have he : ∀ c, c = 'e' ∨ c = 'E' → c ∈ alphabet := by
      rintro c (rfl | rfl) <;> decide
    exact List.forall_mem_cons.mpr
      ⟨he _ hm, List.forall_mem_append.mpr ⟨hs.mem_alphabet, mem_alphabet_of_digits hd⟩⟩

theorem BodyText.mem_alphabet {t : Text} {body : LiteralBody} (h : BodyText t body) :
    ∀ c ∈ t, c ∈ alphabet := by
  cases h with
  | infinity h =>
    rcases h with h | h
    · exact mem_alphabet_of_lower h (by decide)
    · exact mem_alphabet_of_lower h (by decide)
  | nan h => exact mem_alphabet_of_lower h (by decide)
  | whole hw hne he =>
    exact List.forall_mem_append.mpr ⟨mem_alphabet_of_digits hw, he.mem_alphabet⟩
  | pointed hw hf hne he =>
    exact List.forall_mem_append.mpr ⟨mem_alphabet_of_digits hw, List.forall_mem_cons.mpr
      ⟨by decide, List.forall_mem_append.mpr ⟨mem_alphabet_of_digits hf, he.mem_alphabet⟩⟩⟩

theorem Spelled.mem_alphabet {t : Text} {l : Literal} (h : Spelled t l) :
    ∀ c ∈ t, c ∈ alphabet := by
  cases h with
  | mk hs hb => exact List.forall_mem_append.mpr ⟨hs.mem_alphabet, hb.mem_alphabet⟩

end Alphabet

section Read

theorem body?_spelled {t : Text} {body : LiteralBody} (h : body? t = some body) :
    BodyText t body := by
  rw [body?] at h
  split at h
  · next hw =>
    obtain rfl : LiteralBody.infinity = body := Option.some.inj h
    exact .infinity hw
  · split at h
    · next hw =>
      obtain rfl : LiteralBody.nan = body := Option.some.inj h
      exact .nan hw
    · exact decimal?_spelled h

theorem head_of_decimal {whole rest : Text} (hw : Digits whole)
    (hr : whole ≠ [] ∨ ∃ tail, rest = '.' :: tail) :
    ∃ c ∈ "0123456789.".toList, ∃ tail, whole ++ rest = c :: tail := by
  cases whole with
  | nil =>
    obtain ⟨tail, rfl⟩ := hr.resolve_left fun h => h rfl
    exact ⟨'.', by decide, tail, rfl⟩
  | cons c whole =>
    have hd : ∀ d ∈ "0123456789".toList, d ∈ "0123456789.".toList := by decide
    exact ⟨c, hd c (mem_digits (hw c List.mem_cons_self)), whole ++ rest, rfl⟩

theorem body?_of_decimal {c : Char} (hc : c ∈ "0123456789.".toList) (tail : Text) :
    body? (c :: tail) = decimal? (c :: tail) := by
  have hl : ∀ d ∈ "0123456789.".toList, d.toLower ≠ 'i' ∧ d.toLower ≠ 'n' := by decide
  obtain ⟨hi, hn⟩ := hl c hc
  simp [body?, lower, hi, hn]

theorem BodyText.read {t : Text} {body : LiteralBody} (h : BodyText t body) :
    body? t = Option.some body := by
  cases h with
  | infinity h => rw [body?, if_pos h]
  | nan h => rw [body?, h, if_neg (by decide), if_pos rfl]
  | whole hw hne he =>
    obtain ⟨c, hc, tail, ht⟩ := head_of_decimal hw (.inl hne)
    rw [ht, body?_of_decimal hc, ← ht]
    exact decimal?_whole hw hne he
  | pointed hw hf hne he =>
    obtain ⟨c, hc, tail, ht⟩ := head_of_decimal hw (.inr ⟨_, rfl⟩)
    rw [ht, body?_of_decimal hc, ← ht]
    exact decimal?_pointed hw hf hne he

theorem BodyText.head {t : Text} {body : LiteralBody} (h : BodyText t body) :
    ∀ c ∈ t.head?, c ≠ '+' ∧ c ≠ '-' := by
  have word {w : Text} {d : Char} (hw : lower t = d :: w) (hd : d ≠ '+' ∧ d ≠ '-') :
      ∀ c ∈ t.head?, c ≠ '+' ∧ c ≠ '-' := by
    intro c hc
    obtain ⟨tail, rfl⟩ := List.head?_eq_some_iff.mp hc
    have hcd : c.toLower = d := (List.cons.inj hw).1
    constructor <;> rintro rfl
    · exact hd.1 hcd.symm
    · exact hd.2 hcd.symm
  have decimal {c : Char} {tail : Text} (hc : c ∈ "0123456789.".toList) (ht : t = c :: tail) :
      ∀ d ∈ t.head?, d ≠ '+' ∧ d ≠ '-' := by
    have hs : ∀ d ∈ "0123456789.".toList, d ≠ '+' ∧ d ≠ '-' := by decide
    subst ht
    intro d hd
    exact hs d (Option.some.inj hd ▸ hc)
  cases h with
  | infinity h =>
    rcases h with h | h
    · exact word h (by decide)
    · exact word h (by decide)
  | nan h => exact word h (by decide)
  | whole hw hne he =>
    obtain ⟨c, hc, tail, ht⟩ := head_of_decimal hw (.inl hne)
    exact decimal hc ht
  | pointed hw hf hne he =>
    obtain ⟨c, hc, tail, ht⟩ := head_of_decimal hw (.inr ⟨_, rfl⟩)
    exact decimal hc ht

theorem read?_eq_some_iff {t : Text} {l : Literal} : read? t = some l ↔ Spelled t l := by
  constructor
  · intro h
    rcases hs : takeSign t with ⟨negative, rest⟩
    obtain ⟨sign, hsign, rfl⟩ := takeSign_spelled hs
    rw [read?, hs] at h
    obtain ⟨body, hb, rfl⟩ := Option.map_eq_some_iff.mp h
    exact .mk hsign (body?_spelled hb)
  · intro h
    cases h with
    | mk hs hb =>
      rw [read?, takeSign_append hs hb.head]
      simp only [hb.read, Option.map_some]

end Read

section Infinity

def SpellsInfinity (t : Text) : Prop :=
  ∃ sign ∈ [[], ['+'], ['-']], ∃ word, t = sign ++ word ∧
    (lower word = "inf".toList ∨ lower word = "infinity".toList)

theorem spellsInfinity_iff {t : Text} {l : Literal} (h : Spelled t l) :
    SpellsInfinity t ↔ l.body = .infinity := by
  constructor
  · rintro ⟨sign, hs, word, rfl, hw⟩
    have hsign : ∃ negative, SignText sign negative := by
      simp only [List.mem_cons, List.not_mem_nil, or_false] at hs
      rcases hs with rfl | rfl | rfl
      · exact ⟨false, .none⟩
      · exact ⟨false, .plus⟩
      · exact ⟨true, .minus⟩
    obtain ⟨negative, hn⟩ := hsign
    have hread := read?_eq_some_iff.mpr (Spelled.mk hn (.infinity hw))
    rw [read?_eq_some_iff.mpr h] at hread
    rw [Option.some.inj hread]
  · intro hb
    cases h with
    | @mk sign word negative body hs ht =>
      obtain rfl : body = .infinity := hb
      refine ⟨sign, ?_, word, rfl, ?_⟩
      · cases hs <;> decide
      · cases ht with
        | infinity h => exact h

end Infinity

end StockScreen.Literal
