import StockScreen.Proofs.Text.Encoding

namespace StockScreen.Utf8

def IsText (bytes : Bytes) : Prop := ∃ t, bytes = encode t

def BreaksAt (bytes : Bytes) (index : Nat) : Prop :=
  ∃ t rest, bytes = encode t ++ rest ∧ index = (encode t).length ∧ rest ≠ [] ∧
    ∀ x, ¬String.utf8EncodeChar x <+: rest

section Places

variable {a b c d : UInt8} {x : Char} {bytes : Bytes}

theorem Encoded.eq_utf8EncodeChar (h : Encoded x bytes) : String.utf8EncodeChar x = bytes := by
  have hx := encoded x
  revert hx
  generalize String.utf8EncodeChar x = others
  intro hx
  cases h <;> cases hx <;> first | rfl | omega

theorem toNat_of_scalar? {n : Nat} (h : scalar? n = some x) : x.toNat = n := by
  rw [scalar?] at h
  by_cases hn : n.isValidChar
  · rw [dif_pos hn] at h
    obtain rfl := Option.some.inj h
    rfl
  · rw [dif_neg hn] at h
    cases h

theorem tail_eq (hb : isTail b = true) {n : Nat} (hn : n % 64 = b.toNat % 64) : tail n = b := by
  simp only [isTail, Bool.and_eq_true, decide_eq_true_eq, UInt8.le_iff_toNat_le] at hb
  have hl : (0x80 : UInt8).toNat = 128 := rfl
  have hu : (0xBF : UInt8).toNat = 191 := rfl
  apply UInt8.toNat_inj.mp
  rw [toNat_tail]
  omega

theorem encoded_of_one? (h : one? a = some x) : Encoded x [a] := by
  rw [one?] at h
  split at h
  · next ha =>
    have hx := toNat_of_scalar? h
    have hlt : a.toNat < 0x80 := UInt8.lt_iff_toNat_lt.mp ha
    have hbyte : UInt8.ofNat x.toNat = a := by rw [hx, UInt8.ofNat_toNat]
    exact hbyte ▸ Encoded.one (by omega)
  · contradiction

theorem encoded_of_two? (h : two? a b = some x) : Encoded x [a, b] := by
  rw [two?] at h
  split at h
  · next hab =>
    simp only [Bool.and_eq_true, decide_eq_true_eq, UInt8.le_iff_toNat_le] at hab
    obtain ⟨⟨hl, hu⟩, hb⟩ := hab
    have hl' : (0xC2 : UInt8).toNat = 194 := rfl
    have hu' : (0xDF : UInt8).toNat = 223 := rfl
    have hx := toNat_of_scalar? h
    have hlead : part 32 192 (x.toNat / 64) = a := by
      apply UInt8.toNat_inj.mp
      rw [toNat_lead₂]
      omega
    have htail : tail x.toNat = b := tail_eq hb (by omega)
    have he := Encoded.two (x := x) (by omega) (by omega)
    rwa [hlead, htail] at he
  · contradiction

theorem encoded_of_three? (h : three? a b c = some x) : Encoded x [a, b, c] := by
  rw [three?] at h
  split at h
  · next habc =>
    simp only [Bool.and_eq_true, decide_eq_true_eq, UInt8.le_iff_toNat_le] at habc
    obtain ⟨⟨⟨hl, hu⟩, hb⟩, hc⟩ := habc
    have hl' : (0xE0 : UInt8).toNat = 224 := rfl
    have hu' : (0xEF : UInt8).toNat = 239 := rfl
    simp only at h
    split at h
    · contradiction
    · have hx := toNat_of_scalar? h
      have hlead : part 16 224 (x.toNat / 4096) = a := by
        apply UInt8.toNat_inj.mp
        rw [toNat_lead₃]
        omega
      have hmiddle : tail (x.toNat / 64) = b := tail_eq hb (by omega)
      have htail : tail x.toNat = c := tail_eq hc (by omega)
      have he := Encoded.three (x := x) (by omega) (by omega)
      rwa [hlead, hmiddle, htail] at he
  · contradiction

theorem encoded_of_four? (h : four? a b c d = some x) : Encoded x [a, b, c, d] := by
  rw [four?] at h
  split at h
  · next habcd =>
    simp only [Bool.and_eq_true, decide_eq_true_eq, UInt8.le_iff_toNat_le] at habcd
    obtain ⟨⟨⟨⟨hl, hu⟩, hb⟩, hc⟩, hd⟩ := habcd
    have hl' : (0xF0 : UInt8).toNat = 240 := rfl
    have hu' : (0xF4 : UInt8).toNat = 244 := rfl
    simp only at h
    split at h
    · contradiction
    · have hx := toNat_of_scalar? h
      have hlead : part 8 240 (x.toNat / 262144) = a := by
        apply UInt8.toNat_inj.mp
        rw [toNat_lead₄]
        omega
      have hsecond : tail (x.toNat / 4096) = b := tail_eq hb (by omega)
      have hthird : tail (x.toNat / 64) = c := tail_eq hc (by omega)
      have htail : tail x.toNat = d := tail_eq hd (by omega)
      have he := Encoded.four (x := x) (by omega) (toNat_lt x)
      rwa [hlead, hsecond, hthird, htail] at he
  · contradiction

end Places

section Exact

variable {bytes rest : Bytes} {t : Text} {index : Nat}

theorem decodeLoop_of_not_prefix (hne : rest ≠ []) (h : ∀ x, ¬String.utf8EncodeChar x <+: rest)
    (position : Nat) (acc : Text) : decodeLoop position acc rest = .error position := by
  have absent {x : Char} {front : Bytes} (he : Encoded x front) : ¬front <+: rest := by
    rw [← he.eq_utf8EncodeChar]
    exact h x
  have none_of {front : Bytes} {read : Option Char} (hp : front <+: rest)
      (he : ∀ x, read = some x → Encoded x front) : read = none := by
    cases read with
    | none => rfl
    | some x => exact absurd hp (absent (he x rfl))
  obtain ⟨a, rest, rfl⟩ := List.exists_cons_of_ne_nil hne
  have h₁ : one? a = none := none_of (List.prefix_append [a] rest) fun _ => encoded_of_one?
  rw [decodeLoop.eq_def]
  simp only [h₁]
  cases rest with
  | nil => rfl
  | cons b rest =>
    have h₂ : two? a b = none := none_of (List.prefix_append [a, b] rest) fun _ => encoded_of_two?
    simp only [h₂]
    cases rest with
    | nil => rfl
    | cons c rest =>
      have h₃ : three? a b c = none :=
        none_of (List.prefix_append [a, b, c] rest) fun _ => encoded_of_three?
      simp only [h₃]
      cases rest with
      | nil => rfl
      | cons d rest =>
        have h₄ : four? a b c d = none :=
          none_of (List.prefix_append [a, b, c, d] rest) fun _ => encoded_of_four?
        simp only [h₄]

theorem exists_longest (bytes : Bytes) :
    ∃ t rest, bytes = encode t ++ rest ∧ ∀ x, ¬String.utf8EncodeChar x <+: rest := by
  induction hn : bytes.length using Nat.strongRecOn generalizing bytes with
  | ind n ih =>
    by_cases h : ∃ x, String.utf8EncodeChar x <+: bytes
    · obtain ⟨x, back, rfl⟩ := h
      have hlt : back.length < n := by
        have hpos := List.length_pos_iff.mpr (encoded x).ne_nil
        rw [List.length_append] at hn
        omega
      obtain ⟨t, rest, rfl, hrest⟩ := ih _ hlt back rfl
      exact ⟨x :: t, rest, by rw [encode_cons, List.append_assoc], hrest⟩
    · exact ⟨[], bytes, rfl, not_exists.mp h⟩

theorem decodeLoop_encode_append (t : Text) (position : Nat) (acc : Text) (rest : Bytes) :
    decodeLoop position acc (encode t ++ rest) =
      decodeLoop (position + (encode t).length) (t.reverse ++ acc) rest := by
  induction t generalizing position acc with
  | nil => rfl
  | cons x t ih =>
    rw [encode_cons, List.append_assoc, decodeLoop_encoded (encoded x), ih, List.length_append,
      List.reverse_cons, List.append_assoc, Nat.add_assoc]
    rfl

theorem decode_of_break (h : BreaksAt bytes index) : decode bytes = .error index := by
  obtain ⟨t, rest, rfl, rfl, hne, hrest⟩ := h
  rw [decode, decodeLoop_encode_append, decodeLoop_of_not_prefix hne hrest, Nat.zero_add]

theorem text_or_break (bytes : Bytes) : IsText bytes ∨ ∃ index, BreaksAt bytes index := by
  obtain ⟨t, rest, rfl, hrest⟩ := exists_longest bytes
  by_cases hne : rest = []
  · exact .inl ⟨t, by rw [hne, List.append_nil]⟩
  · exact .inr ⟨_, t, rest, rfl, rfl, hne, hrest⟩

theorem decode_eq_ok_iff : decode bytes = .ok t ↔ bytes = encode t := by
  constructor
  · intro h
    rcases text_or_break bytes with ⟨u, rfl⟩ | ⟨index, hb⟩
    · rw [decode_encode] at h
      rw [Except.ok.inj h]
    · rw [decode_of_break hb] at h
      contradiction
  · rintro rfl
    exact decode_encode t

theorem decode_eq_error_iff : decode bytes = .error index ↔ BreaksAt bytes index := by
  refine ⟨fun h => ?_, decode_of_break⟩
  rcases text_or_break bytes with ⟨t, rfl⟩ | ⟨other, hb⟩
  · rw [decode_encode] at h
    contradiction
  · rw [decode_of_break hb] at h
    rwa [← Except.error.inj h]

theorem isText_iff : IsText bytes ↔ ∃ t, decode bytes = .ok t :=
  exists_congr fun _ => decode_eq_ok_iff.symm

theorem not_isText_iff : ¬IsText bytes ↔ ∃ index, decode bytes = .error index := by
  rw [isText_iff]
  cases decode bytes <;> simp

end Exact

end StockScreen.Utf8
