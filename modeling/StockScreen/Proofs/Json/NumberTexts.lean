import StockScreen.Proofs.Json.Numerals
import StockScreen.Proofs.Json.Taking

namespace StockScreen.Json

open Utf8 (Bytes)

section Digits

variable {b : UInt8} {bytes rest : Bytes}

theorem exists_digits (hb : isDigit b = true) (tail : Bytes) :
    ∃ ds rest, tail = ds ++ rest ∧ DigitBytes (b :: ds) ∧
      (∀ b ∈ rest.head?, isDigit b = false) ∧
      (b :: tail).takeWhile isDigit = b :: ds ∧ (b :: tail).dropWhile isDigit = rest := by
  refine ⟨tail.takeWhile isDigit, tail.dropWhile isDigit, List.takeWhile_append_dropWhile.symm,
    digitBytes_iff.mpr (List.forall_mem_cons.mpr ⟨hb, fun _ hd => List.mem_takeWhile_imp hd⟩), ?_,
    List.takeWhile_cons_of_pos hb, List.dropWhile_cons_of_pos hb⟩
  intro c hc
  have hhead := List.head?_dropWhile_not isDigit tail
  rw [hc] at hhead
  simpa using hhead

theorem ExponentPart.not_digit {e : Bytes} (he : ExponentPart e) (hrest : Ends rest) :
    ∀ b ∈ (e ++ rest).head?, isDigit b = false := by
  cases he with
  | none => exact hrest.head_eq_false (by decide)
  | digits he =>
    intro b hb
    obtain rfl := Option.some.inj hb
    rcases he with rfl | rfl <;> rfl

end Digits

section Tails

variable {negative down : Bool} {s : Nat} {start : Int} {bytes rest : Bytes} {x : Binary64}

def ReadsAs {α : Type} (read : Reader α) (v : Bytes) (x : α) : Prop :=
  ∀ rest, Ends rest → read (v ++ rest) = .ok (x, rest)

def raised (negative : Bool) (s : Nat) (start : Int) (down : Bool) (digits : Bytes) :
    Except ReadError Binary64 :=
  if exponentLimit ≤ exponentValue digits then
    if s ≠ 0 ∧ down = false then .error .malformed else .ok (.signed negative .zero)
  else
    fromParts negative s
      (if down then start - exponentValue digits else start + exponentValue digits)

def readRaised (negative : Bool) (s : Nat) (start : Int) (down : Bool) : Reader Binary64 :=
  fun bytes =>
    match bytes with
    | [] => .error .endsEarly
    | b :: _ =>
      if !isDigit b then .error .malformed
      else
        (raised negative s start down (bytes.takeWhile isDigit)).map (·, bytes.dropWhile isDigit)

theorem readExponent_cons (b : UInt8) (tail : Bytes) :
    readExponent negative s start (b :: tail) =
      if isByte '+' b then readRaised negative s start false tail
      else if isByte '-' b then readRaised negative s start true tail
      else readRaised negative s start false (b :: tail) := by
  have hraised (down : Bool) (digits rest : Bytes) :
      (raised negative s start down digits).map (·, rest) =
        if exponentLimit ≤ exponentValue digits then
          if s ≠ 0 ∧ down = false then .error .malformed
          else .ok (.signed negative .zero, rest)
        else
          (fromParts negative s
            (if down then start - exponentValue digits else start + exponentValue digits)).map
              (·, rest) := by
    rw [raised]
    split
    · split <;> rfl
    · rfl
  rw [readExponent.eq_def]
  simp only [readRaised, hraised]
  by_cases hplus : isByte '+' b = true
  · simp only [hplus, if_true]
    rfl
  by_cases hminus : isByte '-' b = true
  · simp only [hplus, hminus, if_true]
    rfl
  · simp only [hplus, hminus, Bool.false_eq_true, if_false]

theorem readRaised_digits {d : UInt8} {ds : Bytes} (hds : DigitBytes (d :: ds))
    (hrest : ∀ b ∈ rest.head?, isDigit b = false) :
    readRaised negative s start down (d :: ds ++ rest) =
      (raised negative s start down (d :: ds)).map (·, rest) := by
  obtain ⟨htake, hdrop⟩ := takeWhile_digits hds hrest
  have hd : isDigit d = true := hds.head
  rw [List.cons_append] at htake hdrop ⊢
  simp only [readRaised, hd, htake, hdrop]
  rfl

theorem exists_of_readRaised (h : readRaised negative s start down bytes = .ok (x, rest)) :
    ∃ d ds, DigitBytes (d :: ds) ∧ bytes = d :: ds ++ rest ∧
      ReadsAs (readRaised negative s start down) (d :: ds) x := by
  cases bytes with
  | nil => cases h
  | cons b tail =>
    simp only [readRaised] at h
    split at h
    · cases h
    · next hb =>
      have hb : isDigit b = true := by simpa using hb
      obtain ⟨ds, rest', rfl, hds, -, htake, hdrop⟩ := exists_digits hb tail
      rw [htake, hdrop] at h
      obtain ⟨x', hx, heq⟩ := map_eq_ok_iff.mp h
      obtain ⟨rfl, rfl⟩ := Prod.mk.inj heq
      refine ⟨b, ds, hds, rfl, fun rest hrest => ?_⟩
      rw [readRaised_digits hds (hrest.head_eq_false (by decide)), hx]
      rfl

theorem exists_of_readExponent (h : readExponent negative s start bytes = .ok (x, rest)) :
    ∃ sign d ds, (sign = [] ∨ sign = [0x2B] ∨ sign = [0x2D]) ∧ DigitBytes (d :: ds) ∧
      bytes = sign ++ d :: ds ++ rest ∧
      ReadsAs (readExponent negative s start) (sign ++ d :: ds) x := by
  cases bytes with
  | nil => cases h
  | cons b tail =>
    rw [readExponent_cons] at h
    split at h
    · next hb =>
      obtain rfl : b = 0x2B := isByte_iff.mp hb
      obtain ⟨d, ds, hds, rfl, hread⟩ := exists_of_readRaised h
      refine ⟨[0x2B], d, ds, .inr (.inl rfl), hds, rfl, fun rest hrest => ?_⟩
      exact (readExponent_cons _ _).trans (hread rest hrest)
    split at h
    · next hb =>
      obtain rfl : b = 0x2D := isByte_iff.mp hb
      obtain ⟨d, ds, hds, rfl, hread⟩ := exists_of_readRaised h
      refine ⟨[0x2D], d, ds, .inr (.inr rfl), hds, rfl, fun rest hrest => ?_⟩
      exact (readExponent_cons _ _).trans (hread rest hrest)
    · next hplus hminus =>
      obtain ⟨d, ds, hds, heq, hread⟩ := exists_of_readRaised h
      obtain ⟨rfl, rfl⟩ := List.cons.inj heq
      refine ⟨[], b, ds, .inl rfl, hds, rfl, fun rest hrest => ?_⟩
      rw [List.nil_append, List.cons_append, readExponent_cons, if_neg hplus, if_neg hminus]
      exact hread rest hrest

theorem exists_of_mark {b : UInt8} (hb : (isByte 'e' b || isByte 'E' b) = true)
    (h : readExponent negative s start bytes = .ok (x, rest)) :
    ∃ e, ExponentPart (b :: e) ∧ bytes = e ++ rest ∧
      ReadsAs (readExponent negative s start) e x := by
  have hmark : b = 0x65 ∨ b = 0x45 := by
    rw [Bool.or_eq_true, isByte_iff, isByte_iff] at hb
    exact hb
  obtain ⟨sign, d, ds, hsign, hds, rfl, hread⟩ := exists_of_readExponent h
  exact ⟨_, .digits hmark hsign hds, rfl, hread⟩

theorem exists_of_readTail (h : readTail negative s start bytes = .ok (x, rest)) :
    ∃ e, ExponentPart e ∧ bytes = e ++ rest ∧ ReadsAs (readTail negative s start) e x := by
  have hplain (hx : fromParts negative s start = .ok x) :
      ReadsAs (readTail negative s start) [] x := by
    intro rest hrest
    have hread : readTail negative s start rest = (fromParts negative s start).map (·, rest) := by
      cases rest with
      | nil => rfl
      | cons b rest =>
        have hmark : (isByte 'e' b || isByte 'E' b) = false :=
          hrest.head_eq_false (p := fun b => isByte 'e' b || isByte 'E' b) (by decide) b rfl
        exact if_neg (ne_true_of_eq_false hmark)
    rw [List.nil_append, hread, hx]
    rfl
  cases bytes with
  | nil =>
    obtain ⟨x', hx, heq⟩ := map_eq_ok_iff.mp h
    obtain ⟨rfl, rfl⟩ := Prod.mk.inj heq
    exact ⟨[], .none, rfl, hplain hx⟩
  | cons b tail =>
    rw [readTail] at h
    split at h
    · next hb =>
      obtain ⟨e, he, rfl, hread⟩ := exists_of_mark hb h
      refine ⟨b :: e, he, rfl, fun rest hrest => ?_⟩
      rw [List.cons_append, readTail, if_pos hb]
      exact hread rest hrest
    · obtain ⟨x', hx, heq⟩ := map_eq_ok_iff.mp h
      obtain ⟨rfl, rfl⟩ := Prod.mk.inj heq
      exact ⟨[], .none, rfl, hplain hx⟩

theorem readFraction_digits {d : UInt8} {ds : Bytes} (hds : DigitBytes (d :: ds))
    (hrest : ∀ b ∈ rest.head?, isDigit b = false) :
    readFraction negative s start (d :: ds ++ rest) =
      readTail negative (absorb s 0 (d :: ds)).1 (start - (absorb s 0 (d :: ds)).2) rest := by
  obtain ⟨htake, hdrop⟩ := takeWhile_digits hds hrest
  have hd : isDigit d = true := hds.head
  rw [List.cons_append] at htake hdrop ⊢
  rw [readFraction.eq_def]
  simp only [hd, htake, hdrop]
  rfl

theorem exists_of_readFraction (h : readFraction negative s start bytes = .ok (x, rest)) :
    ∃ d ds e, DigitBytes (d :: ds) ∧ ExponentPart e ∧ bytes = d :: ds ++ e ++ rest ∧
      ReadsAs (readFraction negative s start) (d :: ds ++ e) x := by
  cases bytes with
  | nil => cases h
  | cons b tail =>
    by_cases hb : isDigit b = true
    · obtain ⟨ds, after, rfl, hds, hafter, -⟩ := exists_digits hb tail
      rw [← List.cons_append, readFraction_digits hds hafter] at h
      obtain ⟨e, he, rfl, hread⟩ := exists_of_readTail h
      refine ⟨b, ds, e, hds, he, by simp only [List.cons_append, List.append_assoc],
        fun rest hrest => ?_⟩
      rw [List.append_assoc, readFraction_digits hds (he.not_digit hrest)]
      exact hread rest hrest
    · rw [readFraction.eq_def] at h
      simp [hb] at h

end Tails

section Numbers

variable {negative : Bool} {bytes rest : Bytes} {n : Numeral}

def whole (negative : Bool) (digits : Bytes) : Except ReadError Numeral :=
  let beyond := digits.length - (absorb 0 0 digits).2
  if beyond = 0 then .ok (integer negative (absorb 0 0 digits).1)
  else (fromParts negative (absorb 0 0 digits).1 beyond).map .decimal

def readAfter (negative : Bool) (digits : Bytes) : Reader Numeral := fun bytes =>
  let (significand, taken) := absorb 0 0 digits
  let beyond := digits.length - taken
  match bytes with
  | [] => (whole negative digits).map (·, [])
  | c :: after =>
    if isByte '.' c then
      (readFraction negative significand beyond after).map fun (x, rest) => (.decimal x, rest)
    else if isByte 'e' c || isByte 'E' c then
      (readExponent negative significand beyond after).map fun (x, rest) => (.decimal x, rest)
    else (whole negative digits).map (·, c :: after)

theorem readUnsigned_digits {d : UInt8} {ds : Bytes} (hds : DigitBytes (d :: ds))
    (hzero : isByte '0' d = true → ds = []) (hrest : ∀ b ∈ rest.head?, isDigit b = false) :
    readUnsigned negative (d :: ds ++ rest) = readAfter negative (d :: ds) rest := by
  obtain ⟨htake, hdrop⟩ := takeWhile_digits hds hrest
  have hd : isDigit d = true := hds.head
  have hlength : (isByte '0' d && decide (1 < (d :: ds).length)) = false := by
    cases hz : isByte '0' d with
    | false => rfl
    | true =>
      rw [hzero hz]
      rfl
  have hwhole (rest : Bytes) : (whole negative (d :: ds)).map (·, rest) =
      if (d :: ds).length - (absorb 0 0 (d :: ds)).2 = 0 then
        .ok (integer negative (absorb 0 0 (d :: ds)).1, rest)
      else
        (fromParts negative (absorb 0 0 (d :: ds)).1
          ↑((d :: ds).length - (absorb 0 0 (d :: ds)).2)).map fun x => (.decimal x, rest) := by
    simp only [whole]
    split
    · rfl
    · cases fromParts negative _ _ <;> rfl
  rw [List.cons_append] at htake hdrop ⊢
  rw [readUnsigned.eq_def]
  simp only [readAfter, hwhole, hd, htake, hdrop, hlength]
  cases rest <;> rfl

theorem readAfter_whole {digits : Bytes} (hpoint : ∀ b ∈ rest.head?, isByte '.' b = false)
    (hmark : ∀ b ∈ rest.head?, (isByte 'e' b || isByte 'E' b) = false) :
    readAfter negative digits rest = (whole negative digits).map (·, rest) := by
  cases rest with
  | nil => rfl
  | cons b rest => simp only [readAfter, hpoint b rfl, hmark b rfl, Bool.false_eq_true, if_false]

theorem exists_of_not_forall_head {p : UInt8 → Bool} (h : ¬∀ b ∈ bytes.head?, p b = false) :
    ∃ b tail, bytes = b :: tail ∧ p b = true := by
  cases bytes with
  | nil => simp at h
  | cons b tail => exact ⟨b, tail, rfl, by simpa using h⟩

theorem exists_of_readAfter {digits : Bytes} (h : readAfter negative digits bytes = .ok (n, rest)) :
    ∃ f e, FractionPart f ∧ ExponentPart e ∧ bytes = f ++ e ++ rest ∧
      ReadsAs (readAfter negative digits) (f ++ e) n := by
  by_cases hpoint : ∀ b ∈ bytes.head?, isByte '.' b = false
  · by_cases hmark : ∀ b ∈ bytes.head?, (isByte 'e' b || isByte 'E' b) = false
    · rw [readAfter_whole hpoint hmark] at h
      obtain ⟨n', hn, heq⟩ := map_eq_ok_iff.mp h
      obtain ⟨rfl, rfl⟩ := Prod.mk.inj heq
      refine ⟨[], [], .none, .none, rfl, fun rest hrest => ?_⟩
      rw [List.append_nil, List.nil_append, readAfter_whole (hrest.head_eq_false (by decide))
        (hrest.head_eq_false (by decide)), hn]
      rfl
    · obtain ⟨b, after, rfl, hb⟩ := exists_of_not_forall_head hmark
      have hread (after : Bytes) : readAfter negative digits (b :: after) =
          (readExponent negative (absorb 0 0 digits).1
            ↑(digits.length - (absorb 0 0 digits).2) after).map
              fun (x, rest) => (.decimal x, rest) := by
        simp only [readAfter, hpoint b rfl, hb, Bool.false_eq_true, if_true, if_false]
      rw [hread] at h
      obtain ⟨⟨x, after'⟩, hx, heq⟩ := map_eq_ok_iff.mp h
      obtain ⟨rfl, rfl⟩ := Prod.mk.inj heq
      obtain ⟨e, he, rfl, hlocal⟩ := exists_of_mark hb hx
      refine ⟨[], b :: e, .none, he, rfl, fun rest hrest => ?_⟩
      rw [List.nil_append, List.cons_append, hread, hlocal rest hrest]
      rfl
  · obtain ⟨b, after, rfl, hb⟩ := exists_of_not_forall_head hpoint
    obtain rfl : b = 0x2E := isByte_iff.mp hb
    have hread (after : Bytes) : readAfter negative digits (0x2E :: after) =
        (readFraction negative (absorb 0 0 digits).1
          ↑(digits.length - (absorb 0 0 digits).2) after).map
            fun (x, rest) => (.decimal x, rest) := by
      simp only [readAfter, hb, if_true]
    rw [hread] at h
    obtain ⟨⟨x, after'⟩, hx, heq⟩ := map_eq_ok_iff.mp h
    obtain ⟨rfl, rfl⟩ := Prod.mk.inj heq
    obtain ⟨d, ds, e, hds, he, rfl, hlocal⟩ := exists_of_readFraction hx
    refine ⟨_, e, .digits hds, he, rfl, fun rest hrest => ?_⟩
    have hfraction := hlocal rest hrest
    rw [List.cons_append, List.cons_append, hread, hfraction]
    rfl

theorem FractionPart.not_digit {f e : Bytes} (hf : FractionPart f) (he : ExponentPart e)
    (hrest : Ends rest) : ∀ b ∈ (f ++ e ++ rest).head?, isDigit b = false := by
  cases hf with
  | none => exact he.not_digit hrest
  | digits =>
    intro b hb
    obtain rfl := Option.some.inj hb
    rfl

theorem exists_of_readUnsigned (h : readUnsigned negative bytes = .ok (n, rest)) :
    ∃ w f e, WholePart w ∧ FractionPart f ∧ ExponentPart e ∧ bytes = w ++ (f ++ e) ++ rest ∧
      ReadsAs (readUnsigned negative) (w ++ (f ++ e)) n := by
  cases bytes with
  | nil => cases h
  | cons b tail =>
    by_cases hb : isDigit b = true
    · obtain ⟨ds, after, rfl, hds, hafter, htake, -⟩ := exists_digits hb tail
      have hzero : isByte '0' b = true → ds = [] := by
        intro hz
        by_contra hne
        rw [readUnsigned.eq_def] at h
        simp [hb, hz, htake, List.length_pos_iff.mpr hne] at h
      rw [← List.cons_append, readUnsigned_digits hds hzero hafter] at h
      obtain ⟨f, e, hf, he, rfl, hlocal⟩ := exists_of_readAfter h
      have hw : WholePart (b :: ds) := by
        by_cases hz : b = 0x30
        · subst hz
          rw [hzero rfl]
          exact .zero
        · exact .digits hz hds
      refine ⟨b :: ds, f, e, hw, hf, he, by simp only [List.cons_append, List.append_assoc],
        fun rest hrest => ?_⟩
      rw [List.append_assoc, readUnsigned_digits hds hzero (hf.not_digit he hrest)]
      exact hlocal rest hrest
    · rw [readUnsigned.eq_def] at h
      simp [hb] at h

theorem exists_of_readNumeral {b : UInt8} (h : readNumeral b bytes = .ok (n, rest)) :
    ∃ v, NumberText (b :: v) ∧ bytes = v ++ rest ∧ ReadsAs (readNumeral b) v n := by
  by_cases hminus : isByte '-' b = true
  · rw [readNumeral, if_pos hminus] at h
    obtain rfl : b = 0x2D := isByte_iff.mp hminus
    obtain ⟨w, f, e, hw, hf, he, rfl, hread⟩ := exists_of_readUnsigned h
    exact ⟨_, .mk (.inr rfl) hw hf he, rfl, hread⟩
  · rw [readNumeral, if_neg hminus] at h
    obtain ⟨w, f, e, hw, hf, he, heq, hread⟩ := exists_of_readUnsigned h
    have hnumber : NumberText (w ++ (f ++ e)) := .mk (.inl rfl) hw hf he
    generalize w ++ (f ++ e) = v at hnumber heq hread
    cases v with
    | nil =>
      have hnone := hread [] fun b hb => by cases hb
      cases hnone
    | cons c v =>
      obtain ⟨rfl, rfl⟩ := List.cons.inj heq
      refine ⟨v, hnumber, rfl, fun rest hrest => ?_⟩
      rw [readNumeral, if_neg hminus]
      exact hread rest hrest

theorem exists_of_readNumber {expected : Text} {x : Binary64}
    (h : readNumber expected bytes = .ok (x, rest)) :
    ∃ a v, Blanks a ∧ NumberText v ∧ bytes = a ++ (v ++ rest) ∧
      ReadsAs (readNumber expected) v x := by
  rw [readNumber] at h
  split at h
  · cases h
  · next b tail hb =>
    obtain ⟨a, ha, hblank, rfl⟩ := exists_of_skipBlanks hb
    split at h
    · next hstarts =>
      obtain ⟨⟨n, after⟩, hn, heq⟩ := map_eq_ok_iff.mp h
      obtain ⟨rfl, rfl⟩ := Prod.mk.inj heq
      obtain ⟨v, hv, rfl, hread⟩ := exists_of_readNumeral hn
      refine ⟨a, b :: v, ha, hv, rfl, fun rest hrest => ?_⟩
      rw [readNumber, List.cons_append, skipBlanks_cons hblank]
      simp only [hstarts, if_true, hread rest hrest]
      rfl
    · cases h

end Numbers

end StockScreen.Json
