import StockScreen.Text.Utf8

namespace StockScreen.Utf8

def part (size mark n : Nat) : UInt8 := UInt8.ofNat (n % size + mark)

def tail (n : Nat) : UInt8 := part 64 128 n

inductive Encoded (x : Char) : Bytes → Prop where
  | one (hu : x.toNat < 0x80) : Encoded x [UInt8.ofNat x.toNat]
  | two (hl : 0x80 ≤ x.toNat) (hu : x.toNat < 0x800) :
    Encoded x [part 32 192 (x.toNat / 64), tail x.toNat]
  | three (hl : 0x800 ≤ x.toNat) (hu : x.toNat < 0x10000) :
    Encoded x [part 16 224 (x.toNat / 4096), tail (x.toNat / 64), tail x.toNat]
  | four (hl : 0x10000 ≤ x.toNat) (hu : x.toNat < 0x110000) :
    Encoded x [part 8 240 (x.toNat / 262144), tail (x.toNat / 4096), tail (x.toNat / 64),
      tail x.toNat]

theorem toNat_part (size mark : Nat) (hs : 0 < size) (hm : size + mark ≤ 256) (n : Nat) :
    (part size mark n).toNat = n % size + mark := by
  have hn : n % size < size := Nat.mod_lt n hs
  have hlt : n % size + mark < 256 := by omega
  exact UInt8.toNat_ofNat_of_lt' hlt

theorem toNat_tail (n : Nat) : (tail n).toNat = n % 64 + 128 :=
  toNat_part 64 128 (by decide) (by decide) n

theorem toNat_lead₂ (n : Nat) : (part 32 192 n).toNat = n % 32 + 192 :=
  toNat_part 32 192 (by decide) (by decide) n

theorem toNat_lead₃ (n : Nat) : (part 16 224 n).toNat = n % 16 + 224 :=
  toNat_part 16 224 (by decide) (by decide) n

theorem toNat_lead₄ (n : Nat) : (part 8 240 n).toNat = n % 8 + 240 :=
  toNat_part 8 240 (by decide) (by decide) n

theorem isTail_tail (n : Nat) : isTail (tail n) = true := by
  simp [isTail, UInt8.le_iff_toNat_le, toNat_tail]
  omega

theorem toNat_ascii {x : Char} (hu : x.toNat < 0x80) : (UInt8.ofNat x.toNat).toNat = x.toNat :=
  UInt8.toNat_ofNat_of_lt' (Nat.lt_trans hu (by decide))

theorem toNat_lt (x : Char) : x.toNat < 0x110000 := by
  have hv := x.valid
  simp only [UInt32.isValidChar, Nat.isValidChar] at hv
  simp only [Char.toNat]
  omega

theorem encoded (x : Char) : Encoded x (String.utf8EncodeChar x) := by
  have hx := toNat_lt x
  have hval : x.val.toNat = x.toNat := rfl
  simp only [String.utf8EncodeChar, hval]
  split
  · exact .one (by omega)
  · split
    · exact .two (by omega) (by omega)
    · split
      · exact .three (by omega) (by omega)
      · exact .four (by omega) hx

section Places

variable {a b c d : UInt8} {x : Char}

theorem one?_eq_none (h : 0x80 ≤ a.toNat) : one? a = none := by
  have ha : ¬a < 0x80 := by simpa [UInt8.lt_iff_toNat_lt] using h
  rw [one?, if_neg ha]

theorem two?_eq_none (h : 0xE0 ≤ a.toNat) : two? a b = none := by
  have ha : ¬a ≤ 0xDF := by
    simp [UInt8.le_iff_toNat_le]
    omega
  simp [two?, ha]

theorem three?_eq_none (h : 0xF0 ≤ a.toNat) : three? a b c = none := by
  have ha : ¬a ≤ 0xEF := by
    simp [UInt8.le_iff_toNat_le]
    omega
  simp [three?, ha]

theorem one?_encoded (hu : x.toNat < 0x80) : one? (UInt8.ofNat x.toNat) = some x := by
  rw [one?, if_pos, toNat_ascii hu, scalar?_toNat]
  rw [UInt8.lt_iff_toNat_lt, toNat_ascii hu]
  exact hu

theorem two?_encoded (hl : 0x80 ≤ x.toNat) (hu : x.toNat < 0x800) :
    two? (part 32 192 (x.toNat / 64)) (tail x.toNat) = some x := by
  have ha := toNat_lead₂ (x.toNat / 64)
  have hn : (x.toNat / 64 % 32 + 192) % 0x20 * 0x40 + (x.toNat % 64 + 128) % 0x40 = x.toNat := by
    omega
  rw [two?, if_pos, ha, toNat_tail, hn, scalar?_toNat]
  simp [UInt8.le_iff_toNat_le, ha, isTail_tail]
  omega

theorem three?_encoded (hl : 0x800 ≤ x.toNat) (hu : x.toNat < 0x10000) :
    three? (part 16 224 (x.toNat / 4096)) (tail (x.toNat / 64)) (tail x.toNat) = some x := by
  have ha := toNat_lead₃ (x.toNat / 4096)
  have hn : (x.toNat / 4096 % 16 + 224) % 0x10 * 0x1000 +
      (x.toNat / 64 % 64 + 128) % 0x40 * 0x40 + (x.toNat % 64 + 128) % 0x40 = x.toNat := by
    omega
  rw [three?, if_pos, ha, toNat_tail, toNat_tail, hn]
  · simp only
    rw [if_neg (by omega), scalar?_toNat]
  · simp [UInt8.le_iff_toNat_le, ha, isTail_tail]
    omega

theorem four?_encoded (hl : 0x10000 ≤ x.toNat) (hu : x.toNat < 0x110000) :
    four? (part 8 240 (x.toNat / 262144)) (tail (x.toNat / 4096)) (tail (x.toNat / 64))
      (tail x.toNat) = some x := by
  have ha := toNat_lead₄ (x.toNat / 262144)
  have hn : (x.toNat / 262144 % 8 + 240) % 8 * 0x40000 +
      (x.toNat / 4096 % 64 + 128) % 0x40 * 0x1000 +
      (x.toNat / 64 % 64 + 128) % 0x40 * 0x40 + (x.toNat % 64 + 128) % 0x40 = x.toNat := by
    omega
  rw [four?, if_pos, ha, toNat_tail, toNat_tail, toNat_tail, hn]
  · simp only
    rw [if_neg (by omega), scalar?_toNat]
  · simp [UInt8.le_iff_toNat_le, ha, isTail_tail]
    omega

end Places

section Decoding

variable {x : Char} {bytes : Bytes}

theorem decodeLoop_encoded (h : Encoded x bytes) (position : Nat) (acc : Text) (rest : Bytes) :
    decodeLoop position acc (bytes ++ rest) =
      decodeLoop (position + bytes.length) (x :: acc) rest := by
  rw [decodeLoop.eq_def]
  cases h with
  | one hu => simp [one?_encoded hu]
  | two hl hu =>
    have ha := toNat_lead₂ (x.toNat / 64)
    have h₁ : one? (part 32 192 (x.toNat / 64)) = none := one?_eq_none (by omega)
    simp [h₁, two?_encoded hl hu]
  | three hl hu =>
    have ha := toNat_lead₃ (x.toNat / 4096)
    have h₁ : one? (part 16 224 (x.toNat / 4096)) = none := one?_eq_none (by omega)
    have h₂ {b : UInt8} : two? (part 16 224 (x.toNat / 4096)) b = none := two?_eq_none (by omega)
    simp [h₁, h₂, three?_encoded hl hu]
  | four hl hu =>
    have ha := toNat_lead₄ (x.toNat / 262144)
    have h₁ : one? (part 8 240 (x.toNat / 262144)) = none := one?_eq_none (by omega)
    have h₂ {b : UInt8} : two? (part 8 240 (x.toNat / 262144)) b = none := two?_eq_none (by omega)
    have h₃ {b c : UInt8} : three? (part 8 240 (x.toNat / 262144)) b c = none :=
      three?_eq_none (by omega)
    simp [h₁, h₂, h₃, four?_encoded hl hu]

theorem encode_cons (x : Char) (t : Text) :
    encode (x :: t) = String.utf8EncodeChar x ++ encode t := List.flatMap_cons

theorem Encoded.ne_nil (h : Encoded x bytes) : bytes ≠ [] := by
  cases h <;> exact List.cons_ne_nil _ _

theorem encode_ne_nil {t : Text} (h : t ≠ []) : encode t ≠ [] := by
  obtain ⟨x, t, rfl⟩ := List.exists_cons_of_ne_nil h
  rw [encode_cons]
  exact List.append_ne_nil_of_left_ne_nil (encoded x).ne_nil _

theorem decodeLoop_encode (t : Text) (position : Nat) (acc : Text) :
    decodeLoop position acc (encode t) = .ok (acc.reverse ++ t) := by
  induction t generalizing position acc with
  | nil => simp [encode, decodeLoop]
  | cons x t ih =>
    rw [encode_cons, decodeLoop_encoded (encoded x), ih]
    simp

theorem decode_encode (t : Text) : decode (encode t) = .ok t := decodeLoop_encode t 0 []

end Decoding

section Mark

variable {x : Char} {bytes rest : Bytes}

theorem Encoded.eq_mark (h : Encoded x bytes) (hp : [0xEF, 0xBB, 0xBF] <+: bytes ++ rest) :
    x = '\uFEFF' := by
  cases h with
  | one hu =>
    have hlead : 0xEF = (UInt8.ofNat x.toNat).toNat :=
      congrArg UInt8.toNat (List.cons_prefix_cons.mp hp).1
    rw [toNat_ascii hu] at hlead
    omega
  | two hl hu =>
    have hlead : 0xEF = (part 32 192 (x.toNat / 64)).toNat :=
      congrArg UInt8.toNat (List.cons_prefix_cons.mp hp).1
    rw [toNat_lead₂] at hlead
    omega
  | three hl hu =>
    simp only [List.cons_append, List.cons_prefix_cons] at hp
    have h₁ : 0xEF = (part 16 224 (x.toNat / 4096)).toNat := congrArg UInt8.toNat hp.1
    have h₂ : 0xBB = (tail (x.toNat / 64)).toNat := congrArg UInt8.toNat hp.2.1
    have h₃ : 0xBF = (tail x.toNat).toNat := congrArg UInt8.toNat hp.2.2.1
    rw [toNat_lead₃] at h₁
    rw [toNat_tail] at h₂ h₃
    have hx : x.toNat = 0xFEFF := by omega
    rw [← Char.ofNat_toNat x, hx]
  | four hl hu =>
    have hlead : 0xEF = (part 8 240 (x.toNat / 262144)).toNat :=
      congrArg UInt8.toNat (List.cons_prefix_cons.mp hp).1
    rw [toNat_lead₄] at hlead
    omega

end Mark

section Ascii

variable {x : Char} {bytes : Bytes} {b : UInt8}

theorem Encoded.toNat_eq (h : Encoded x bytes) (hb : b ∈ bytes) (hu : b.toNat < 0x80) :
    b.toNat = x.toNat := by
  cases h with
  | one hx =>
    rw [List.mem_singleton.mp hb]
    exact toNat_ascii hx
  | two hl _ =>
    have ha := toNat_lead₂ (x.toNat / 64)
    simp only [List.mem_cons, List.not_mem_nil, or_false] at hb
    rcases hb with rfl | rfl <;> simp only [ha, toNat_tail] at hu <;> omega
  | three hl _ =>
    have ha := toNat_lead₃ (x.toNat / 4096)
    simp only [List.mem_cons, List.not_mem_nil, or_false] at hb
    rcases hb with rfl | rfl | rfl <;> simp only [ha, toNat_tail] at hu <;> omega
  | four hl _ =>
    have ha := toNat_lead₄ (x.toNat / 262144)
    simp only [List.mem_cons, List.not_mem_nil, or_false] at hb
    rcases hb with rfl | rfl | rfl | rfl <;> simp only [ha, toNat_tail] at hu <;> omega

theorem mem_encode {t : Text} (hb : b ∈ encode t) (hu : b.toNat < 0x80) :
    Char.ofNat b.toNat ∈ t := by
  obtain ⟨c, hc, hbc⟩ := List.mem_flatMap.mp hb
  rw [(encoded c).toNat_eq hbc hu, Char.ofNat_toNat]
  exact hc

end Ascii

end StockScreen.Utf8
