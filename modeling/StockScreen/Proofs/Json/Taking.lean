import StockScreen.Proofs.Json.Members
import StockScreen.Proofs.Text.Decoding

namespace StockScreen.Json

open Utf8 (Bytes)

section Results

variable {ε α β : Type} {r : Except ε α} {y : β}

theorem map_eq_ok_iff {f : α → β} : r.map f = .ok y ↔ ∃ x, r = .ok x ∧ f x = y := by
  cases r <;> simp [Except.map]

theorem bind_eq_ok_iff {f : α → Except ε β} : r >>= f = .ok y ↔ ∃ x, r = .ok x ∧ f x = .ok y := by
  cases r <;> simp [bind, Except.bind]

end Results

section Strings

variable {acc bytes rest s raw : Bytes} {t : Text}

theorem eq_backslash {b : UInt8} (h : ¬(!isByte '\\' b) = true) : b = backslash :=
  isByte_iff.mp (by simpa using h)

theorem eq_codeLetter {e : UInt8} (h : ¬(!isByte 'u' e) = true) : e = 0x75 :=
  isByte_iff.mp (by simpa using h)

theorem exists_unescapes (h : stringLoop acc bytes = .ok (t, rest)) :
    ∃ s raw, Unescapes s raw ∧ bytes = s ++ quote :: rest ∧
      Utf8.decode (acc.reverse ++ raw) = .ok t := by
  -- In all other cases of the loop there is no text.
  fun_induction stringLoop acc bytes with
  | case2 acc b _ hb text htext =>
    obtain ⟨rfl, rfl⟩ := Prod.mk.inj (Except.ok.inj h)
    obtain rfl : b = quote := isByte_iff.mp hb
    exact ⟨[], [], .nil, rfl, by rwa [List.append_nil]⟩
  | case5 acc b _ hquote hcontrol hescape ih =>
    obtain ⟨s, raw, hs, rfl, htext⟩ := ih h
    have hplain : b ≠ backslash := by
      rintro rfl
      simp at hescape
    have hb : Unescapes (b :: s) (b :: raw) :=
      .plain (UInt8.not_lt.mp hcontrol) (fun he => hquote (isByte_iff.mpr he)) hplain hs
    exact ⟨_, _, hb, rfl, by simpa using htext⟩
  | case7 acc b _ _ hescape e _ _ b' hb' ih =>
    obtain ⟨s, raw, hs, rfl, htext⟩ := ih h
    obtain rfl : b = backslash := eq_backslash hescape
    exact ⟨_, _, .short (shortEscape?_eq_some_iff.mp hb') hs, rfl, by simpa using htext⟩
  | case11 acc b _ _ hescape e hcode _ _ _ _ _ n hn htrailing hleading ih =>
    obtain ⟨s, raw, hs, rfl, htext⟩ := ih h
    obtain rfl : b = backslash := eq_backslash hescape
    obtain rfl : e = 0x75 := eq_codeLetter hcode
    have hscalar : n < 0xD800 ∨ 0xE000 ≤ n := by
      simp only [isTrailing, isLeading, Bool.and_eq_true, decide_eq_true_eq, Bool.not_eq_true',
        Bool.and_eq_false_iff, decide_eq_false_iff_not] at htrailing hleading
      omega
    exact ⟨_, _, .code (fourHex?_eq_some_iff.mp hn) hscalar hs, rfl,
      by simpa [pushScalar] using htext⟩
  | case17 acc b _ _ hescape e hcode _ _ _ _ n hn _ hleading b' e' hpair _ _ _ _ _ m hm htrailing
      ih =>
    obtain ⟨s, raw, hs, rfl, htext⟩ := ih h
    obtain rfl : b = backslash := eq_backslash hescape
    obtain rfl : e = 0x75 := eq_codeLetter hcode
    have hbytes : isByte '\\' b' = true ∧ isByte 'u' e' = true := by simpa using hpair
    obtain rfl : b' = backslash := isByte_iff.mp hbytes.1
    obtain rfl : e' = 0x75 := isByte_iff.mp hbytes.2
    have hn' : 0xD800 ≤ n ∧ n < 0xDC00 := by simpa [isLeading] using hleading
    have hm' : 0xDC00 ≤ m ∧ m < 0xE000 := by simpa [isTrailing] using htrailing
    exact ⟨_, _, .pair (fourHex?_eq_some_iff.mp hn) hn' (fourHex?_eq_some_iff.mp hm) hm' hs, rfl,
      by simpa [pushScalar] using htext⟩
  | _ => cases h

theorem readString_eq_ok_iff :
    readString bytes = .ok (t, rest) ↔ ∃ s, Spells s t ∧ bytes = s ++ quote :: rest := by
  constructor
  · intro h
    obtain ⟨s, raw, hs, hbytes, htext⟩ := exists_unescapes h
    obtain rfl : raw = Utf8.encode t := Utf8.decode_eq_ok_iff.mp htext
    exact ⟨s, hs, hbytes⟩
  · rintro ⟨s, hs, rfl⟩
    exact readString_spelled hs rest

theorem Unescapes.quotable (h : Unescapes s raw) : Quotable s := by
  induction h with
  | nil => exact .nil
  | plain hcontrol hquote hescape _ ih => exact .plain hcontrol hquote hescape ih
  | short he _ ih => exact .short he ih
  | code hn _ _ ih => exact .code hn ih
  | pair hn _ hm _ _ ih => exact .code hn (.code hm ih)

inductive StringText : Bytes → Text → Prop where
  | mk {s : Bytes} {t : Text} (hs : Spells s t) : StringText (quote :: (s ++ [quote])) t

theorem StringText.valueText {v : Bytes} (h : StringText v t) : ValueText v := by
  cases h with
  | mk hs => exact .string (Unescapes.quotable hs)

theorem Spells.unique {s' : Bytes} {t' : Text} {rest' : Bytes} (hs : Spells s t)
    (hs' : Spells s' t') (h : s ++ quote :: rest = s' ++ quote :: rest') :
    t = t' ∧ rest = rest' := by
  have hread := readString_spelled hs rest
  rw [h, readString_spelled hs'] at hread
  obtain ⟨rfl, rfl⟩ := Prod.mk.inj (Except.ok.inj hread)
  exact ⟨rfl, rfl⟩

theorem StringText.unique {v : Bytes} {t' : Text} (h : StringText v t) (h' : StringText v t') :
    t = t' := by
  generalize heq : v = v' at h'
  cases h with
  | mk hs =>
    cases h' with
    | mk hs' => exact (hs.unique hs' (List.cons.inj heq).2).1

end Strings

section Tokens

variable {bytes rest : Bytes} {b : UInt8}

theorem exists_blanks (bytes : Bytes) : ∃ a, Blanks a ∧ bytes = a ++ skipBlanks bytes :=
  ⟨bytes.takeWhile isBlank, blanks_iff.mpr fun _ hb => List.mem_takeWhile_imp hb,
    List.takeWhile_append_dropWhile.symm⟩

theorem blanks_of_skipBlanks (h : skipBlanks bytes = []) : Blanks bytes := by
  obtain ⟨a, ha, hbytes⟩ := exists_blanks bytes
  rw [h, List.append_nil] at hbytes
  exact hbytes ▸ ha

theorem exists_of_skipBlanks (h : skipBlanks bytes = b :: rest) :
    ∃ a, Blanks a ∧ isBlank b = false ∧ bytes = a ++ b :: rest := by
  obtain ⟨a, ha, hbytes⟩ := exists_blanks bytes
  have hb : isBlank b = false := by
    have hhead := List.head?_dropWhile_not isBlank bytes
    rw [skipBlanks] at h
    simpa [h] using hhead
  exact ⟨a, ha, hb, h ▸ hbytes⟩

theorem exists_of_expectMark {c : Char} (h : expectMark c bytes = .ok rest) :
    ∃ a, Blanks a ∧ bytes = a ++ c.toUInt8 :: rest := by
  rw [expectMark] at h
  split at h
  · cases h
  · next b rest' hb =>
    obtain ⟨a, ha, -, rfl⟩ := exists_of_skipBlanks hb
    split at h
    · next hc =>
      obtain rfl := Except.ok.inj h
      exact ⟨a, ha, by rw [isByte_iff.mp hc]⟩
    · cases h

theorem eq_of_expectBytes {expected : Bytes} (h : expectBytes expected bytes = .ok rest) :
    bytes = expected ++ rest := by
  fun_induction expectBytes expected bytes with
  | case1 bytes => exact Except.ok.inj h
  | case3 expected b bytes ih => rw [ih h, List.cons_append]
  | _ => cases h

theorem readText_eq_ok_iff {expected t : Text} :
    readText expected bytes = .ok (t, rest) ↔
      ∃ a v, Blanks a ∧ StringText v t ∧ bytes = a ++ (v ++ rest) := by
  constructor
  · intro h
    rw [readText] at h
    split at h
    · cases h
    · next b rest' hb =>
      obtain ⟨a, ha, -, rfl⟩ := exists_of_skipBlanks hb
      split at h
      · next hquote =>
        obtain ⟨s, hs, rfl⟩ := readString_eq_ok_iff.mp h
        obtain rfl : b = quote := isByte_iff.mp hquote
        exact ⟨a, _, ha, .mk hs, by simp only [List.append_assoc, List.cons_append, List.nil_append]⟩
      · cases h
  · rintro ⟨a, v, ha, ⟨hs⟩, rfl⟩
    rw [List.cons_append, List.append_assoc]
    exact readText_spelled ha hs expected

theorem exists_of_readOptional {α : Type} {read : Reader α} {o : Option α}
    (h : readOptional read bytes = .ok (o, rest)) :
    ∃ a bytes', Blanks a ∧ bytes = a ++ bytes' ∧
      (o = none ∧ bytes' = Utf8.encode "null".toList ++ rest ∨
        ∃ x, o = some x ∧ read bytes' = .ok (x, rest)) := by
  have hnull : Utf8.encode "null".toList = 'n'.toUInt8 :: "ull".toList.map Char.toUInt8 := by decide
  rw [readOptional] at h
  split at h
  · next b rest' hb =>
    obtain ⟨a, ha, -, rfl⟩ := exists_of_skipBlanks hb
    refine ⟨a, b :: rest', ha, rfl, ?_⟩
    split at h
    · next hn =>
      obtain ⟨after, hword, heq⟩ := map_eq_ok_iff.mp h
      obtain ⟨rfl, rfl⟩ := Prod.mk.inj heq
      exact .inl ⟨rfl, by rw [hnull, eq_of_expectBytes hword, isByte_iff.mp hn, List.cons_append]⟩
    · obtain ⟨⟨x, after⟩, hread, heq⟩ := map_eq_ok_iff.mp h
      obtain ⟨rfl, rfl⟩ := Prod.mk.inj heq
      exact .inr ⟨x, rfl, hread⟩
  · next hb =>
    obtain ⟨⟨x, after⟩, hread, heq⟩ := map_eq_ok_iff.mp h
    obtain ⟨rfl, rfl⟩ := Prod.mk.inj heq
    exact ⟨bytes, [], blanks_of_skipBlanks hb, (List.append_nil _).symm, .inr ⟨x, rfl, hread⟩⟩

theorem readAll_eq_ok_iff {α : Type} {read : Reader α} {x : α} :
    readAll read bytes = .ok x ↔ ∃ a, read bytes = .ok (x, a) ∧ Blanks a := by
  constructor
  · intro h
    rw [readAll] at h
    split at h
    · cases h
    · next y rest hread =>
      split at h
      · next hrest =>
        obtain rfl := Except.ok.inj h
        exact ⟨rest, hread, blanks_of_skipBlanks (List.isEmpty_iff.mp hrest)⟩
      · cases h
  · rintro ⟨a, hread, ha⟩
    exact readAll_eq_ok hread ha

end Tokens

end StockScreen.Json
