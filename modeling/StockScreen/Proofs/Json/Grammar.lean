import StockScreen.Json.Skip
import StockScreen.Proofs.Text.Encoding

namespace StockScreen.Json

open Utf8 (Bytes)

def quote : UInt8 := 0x22

def backslash : UInt8 := 0x5C

/-- Goes through the bytes that are given, where another instance goes through all there are. -/
instance (priority := high) decidableForallByte (bytes : Bytes) (p : UInt8 → Prop)
    [DecidablePred p] : Decidable (∀ b ∈ bytes, p b) :=
  List.decidableBAll p bytes

theorem forall_byte {p : UInt8 → Prop} (h : ∀ n < 256, p (UInt8.ofNat n)) (b : UInt8) : p b := by
  have hb := h b.toNat b.toNat_lt
  rwa [UInt8.ofNat_toNat] at hb

section Blanks

def Blanks (bytes : Bytes) : Prop := ∀ b ∈ bytes, b ∈ [0x20, 0x0A, 0x09, 0x0D]

instance (bytes : Bytes) : Decidable (Blanks bytes) :=
  decidableForallByte bytes fun b => b ∈ [0x20, 0x0A, 0x09, 0x0D]

theorem isBlank_iff {b : UInt8} : isBlank b = true ↔ b ∈ [0x20, 0x0A, 0x09, 0x0D] := by
  simp [isBlank, or_assoc]

theorem blanks_iff {bytes : Bytes} : Blanks bytes ↔ ∀ b ∈ bytes, isBlank b = true :=
  forall₂_congr fun _ _ => isBlank_iff.symm

end Blanks

section Codes

/-- The letters of the escapes for one byte, with that byte. -/
def shortEscapes : List (UInt8 × UInt8) :=
  [(0x22, 0x22), (0x5C, 0x5C), (0x2F, 0x2F), (0x62, 0x08), (0x66, 0x0C), (0x6E, 0x0A),
    (0x72, 0x0D), (0x74, 0x09)]

/-- In either case. -/
def HexDigit (b : UInt8) (n : Nat) : Prop :=
  n < 16 ∧ (b = (Nat.digitChar n).toUInt8 ∨ b = (Nat.digitChar n).toUpper.toUInt8)

instance (b : UInt8) (n : Nat) : Decidable (HexDigit b n) := inferInstanceAs (Decidable (_ ∧ _))

inductive HexCode : UInt8 → UInt8 → UInt8 → UInt8 → Nat → Prop where
  | mk {a b c d : UInt8} {i j k l : Nat} (ha : HexDigit a i) (hb : HexDigit b j)
    (hc : HexDigit c k) (hd : HexDigit d l) :
    HexCode a b c d (i * 0x1000 + j * 0x100 + k * 0x10 + l)

theorem shortEscape?_eq_some_iff {e b : UInt8} :
    shortEscape? e = some b ↔ (e, b) ∈ shortEscapes := by
  constructor
  · exact forall_byte (p := fun e => ∀ b ∈ shortEscape? e, (e, b) ∈ shortEscapes)
      (by decide +kernel) e b
  · simp only [shortEscapes, List.mem_cons, Prod.mk.injEq, List.not_mem_nil, or_false]
    rintro (⟨rfl, rfl⟩ | ⟨rfl, rfl⟩ | ⟨rfl, rfl⟩ | ⟨rfl, rfl⟩ | ⟨rfl, rfl⟩ | ⟨rfl, rfl⟩ | ⟨rfl, rfl⟩ |
      ⟨rfl, rfl⟩) <;> rfl

theorem hexValue?_eq_some_iff {b : UInt8} {n : Nat} : hexValue? b = some n ↔ HexDigit b n := by
  constructor
  · exact forall_byte (p := fun b => ∀ n ∈ hexValue? b, HexDigit b n) (by decide +kernel) b n
  · rintro ⟨hn, hb⟩
    have hdigits : ∀ n < 16, hexValue? (Nat.digitChar n).toUInt8 = some n ∧
        hexValue? (Nat.digitChar n).toUpper.toUInt8 = some n := by
      decide
    rcases hb with rfl | rfl
    · exact (hdigits n hn).1
    · exact (hdigits n hn).2

theorem fourHex?_eq_some_iff {a b c d : UInt8} {n : Nat} :
    fourHex? a b c d = some n ↔ HexCode a b c d n := by
  simp only [fourHex?, bind, Option.bind_eq_some_iff, hexValue?_eq_some_iff]
  constructor
  · rintro ⟨i, ha, j, hb, k, hc, l, hd, h⟩
    have hn : n = i * 0x1000 + j * 0x100 + k * 0x10 + l := by
      rw [← Option.some.inj h]
      omega
    rw [hn]
    exact .mk ha hb hc hd
  · rintro ⟨ha, hb, hc, hd⟩
    exact ⟨_, ha, _, hb, _, hc, _, hd, congrArg some (by omega)⟩

end Codes

section Strings

inductive Quotable : Bytes → Prop where
  | nil : Quotable []
  | plain {b : UInt8} {s : Bytes} (hcontrol : 0x20 ≤ b) (hquote : b ≠ quote)
    (hescape : b ≠ backslash) (hs : Quotable s) : Quotable (b :: s)
  | short {e b : UInt8} {s : Bytes} (he : (e, b) ∈ shortEscapes) (hs : Quotable s) :
    Quotable (backslash :: e :: s)
  | code {a b c d : UInt8} {n : Nat} {s : Bytes} (hn : HexCode a b c d n) (hs : Quotable s) :
    Quotable (backslash :: 0x75 :: a :: b :: c :: d :: s)

/-- What stands between quotes, and the bytes it stands for. The codes of a surrogate pair are one
character together, and neither stands alone. -/
inductive Unescapes : Bytes → Bytes → Prop where
  | nil : Unescapes [] []
  | plain {b : UInt8} {s raw : Bytes} (hcontrol : 0x20 ≤ b) (hquote : b ≠ quote)
    (hescape : b ≠ backslash) (hs : Unescapes s raw) : Unescapes (b :: s) (b :: raw)
  | short {e b : UInt8} {s raw : Bytes} (he : (e, b) ∈ shortEscapes) (hs : Unescapes s raw) :
    Unescapes (backslash :: e :: s) (b :: raw)
  | code {a b c d : UInt8} {n : Nat} {s raw : Bytes} (hn : HexCode a b c d n)
    (hscalar : n < 0xD800 ∨ 0xE000 ≤ n) (hs : Unescapes s raw) :
    Unescapes (backslash :: 0x75 :: a :: b :: c :: d :: s)
      (String.utf8EncodeChar (Char.ofNat n) ++ raw)
  | pair {a b c d a' b' c' d' : UInt8} {n m : Nat} {s raw : Bytes}
    (hn : HexCode a b c d n) (hleading : 0xD800 ≤ n ∧ n < 0xDC00)
    (hm : HexCode a' b' c' d' m) (htrailing : 0xDC00 ≤ m ∧ m < 0xE000)
    (hs : Unescapes s raw) :
    Unescapes (backslash :: 0x75 :: a :: b :: c :: d ::
        backslash :: 0x75 :: a' :: b' :: c' :: d' :: s)
      (String.utf8EncodeChar (Char.ofNat (0x10000 + (n - 0xD800) * 0x400 + (m - 0xDC00))) ++ raw)

def Spells (s : Bytes) (t : Text) : Prop := Unescapes s (Utf8.encode t)

variable {s raw : Bytes} {t : Text}

theorem isByte_iff {c : Char} {b : UInt8} : isByte c b = true ↔ b = c.toUInt8 := beq_iff_eq

theorem isByte_eq_false {c : Char} {b : UInt8} (h : b ≠ c.toUInt8) : isByte c b = false :=
  beq_false_of_ne h

@[simp]
theorem isByte_quote : isByte '"' quote = true := by decide

@[simp]
theorem isByte_quote_backslash : isByte '"' backslash = false := by decide

@[simp]
theorem isByte_backslash : isByte '\\' backslash = true := by decide

@[simp]
theorem not_control_backslash : ¬backslash < 0x20 := by decide

theorem stringLoop_plain {b : UInt8} (hcontrol : 0x20 ≤ b) (hquote : b ≠ quote)
    (hescape : b ≠ backslash) (acc rest : Bytes) :
    stringLoop acc (b :: rest) = stringLoop (b :: acc) rest := by
  have hq : isByte '"' b = false := isByte_eq_false hquote
  have hs : isByte '\\' b = false := isByte_eq_false hescape
  rw [stringLoop.eq_def]
  simp [hq, hs, UInt8.not_lt.mpr hcontrol]

theorem not_codeLetter_of_escape {e b : UInt8} (he : shortEscape? e = some b) :
    isByte 'u' e = false := by
  have hnone : shortEscape? 'u'.toUInt8 = none := by decide
  refine isByte_eq_false ?_
  rintro rfl
  exact absurd (hnone.symm.trans he) (Option.some_ne_none b).symm

theorem stringLoop_short {e b : UInt8} (he : shortEscape? e = some b) (acc rest : Bytes) :
    stringLoop acc (backslash :: e :: rest) = stringLoop (b :: acc) rest := by
  rw [stringLoop.eq_def]
  simp [not_codeLetter_of_escape he, he]

theorem stringLoop_code {a b c d : UInt8} {n : Nat} (hn : fourHex? a b c d = some n)
    (hscalar : n < 0xD800 ∨ 0xE000 ≤ n) (acc rest : Bytes) :
    stringLoop acc (backslash :: 0x75 :: a :: b :: c :: d :: rest) =
      stringLoop (pushScalar n acc) rest := by
  have hu : isByte 'u' 0x75 = true := by decide
  have hleading : isLeading n = false := by simp [isLeading]; omega
  have htrailing : isTrailing n = false := by simp [isTrailing]; omega
  rw [stringLoop.eq_def]
  simp [hu, hn, hleading, htrailing]

theorem stringLoop_pair {a b c d a' b' c' d' : UInt8} {n m : Nat}
    (hn : fourHex? a b c d = some n) (hleading : 0xD800 ≤ n ∧ n < 0xDC00)
    (hm : fourHex? a' b' c' d' = some m) (htrailing : 0xDC00 ≤ m ∧ m < 0xE000)
    (acc rest : Bytes) :
    stringLoop acc (backslash :: 0x75 :: a :: b :: c :: d ::
        backslash :: 0x75 :: a' :: b' :: c' :: d' :: rest) =
      stringLoop (pushScalar (0x10000 + (n - 0xD800) * 0x400 + (m - 0xDC00)) acc) rest := by
  have hu : isByte 'u' 0x75 = true := by decide
  have hn' : isTrailing n = false := by simp [isTrailing]; omega
  have hm' : isTrailing m = true := by simpa [isTrailing] using htrailing
  have hl : isLeading n = true := by simpa [isLeading] using hleading
  rw [stringLoop.eq_def]
  simp [hu, hn, hm, hn', hm', hl]

theorem stringLoop_unescapes (h : Unescapes s raw) (acc rest : Bytes) :
    stringLoop acc (s ++ quote :: rest) = stringLoop (raw.reverse ++ acc) (quote :: rest) := by
  induction h generalizing acc with
  | nil => rfl
  | plain hcontrol hquote hescape _ ih =>
    rw [List.cons_append, stringLoop_plain hcontrol hquote hescape, ih, List.reverse_cons,
      List.append_assoc]
    rfl
  | short he _ ih =>
    rw [List.cons_append, List.cons_append, stringLoop_short (shortEscape?_eq_some_iff.mpr he), ih, List.reverse_cons,
      List.append_assoc]
    rfl
  | code hn hscalar _ ih =>
    simp only [List.cons_append]
    rw [stringLoop_code (fourHex?_eq_some_iff.mpr hn) hscalar, ih, List.reverse_append, List.append_assoc]
    rfl
  | pair hn hleading hm htrailing _ ih =>
    simp only [List.cons_append]
    have hn := fourHex?_eq_some_iff.mpr hn
    have hm := fourHex?_eq_some_iff.mpr hm
    rw [stringLoop_pair hn hleading hm htrailing, ih, List.reverse_append, List.append_assoc]
    rfl

theorem readString_spelled (h : Spells s t) (rest : Bytes) :
    readString (s ++ quote :: rest) = .ok (t, rest) := by
  rw [readString, stringLoop_unescapes h, stringLoop.eq_def]
  simp [Utf8.decode_encode]

end Strings

section Escapes

variable {s s' raw raw' : Bytes} {c : Char}

theorem Unescapes.append (h : Unescapes s raw) (h' : Unescapes s' raw') :
    Unescapes (s ++ s') (raw ++ raw') := by
  induction h with
  | nil => exact h'
  | plain hcontrol hquote hescape _ ih => exact .plain hcontrol hquote hescape ih
  | short he _ ih => exact .short he ih
  | code hn hscalar _ ih =>
    rw [List.append_assoc]
    exact .code hn hscalar ih
  | pair hn hleading hm htrailing _ ih =>
    rw [List.append_assoc]
    exact .pair hn hleading hm htrailing ih

theorem unescapes_self (h : ∀ b ∈ s, 0x20 ≤ b ∧ b ≠ quote ∧ b ≠ backslash) : Unescapes s s := by
  induction s with
  | nil => exact .nil
  | cons b s ih =>
    obtain ⟨⟨hcontrol, hquote, hescape⟩, hs⟩ := List.forall_mem_cons.mp h
    exact .plain hcontrol hquote hescape (ih hs)

theorem unescapes_control (hc : c.toNat < 0x20) :
    Unescapes (Utf8.encode (['\\', 'u', '0', '0'] ++ hexPair c.toNat))
      (String.utf8EncodeChar c) := by
  have hcode : ∀ n < 0x20,
      Utf8.encode (['\\', 'u', '0', '0'] ++ hexPair n) = [backslash, 0x75, 0x30, 0x30,
        (Nat.digitChar (n / 16)).toUInt8, (Nat.digitChar (n % 16)).toUInt8] ∧
      fourHex? 0x30 0x30 (Nat.digitChar (n / 16)).toUInt8 (Nat.digitChar (n % 16)).toUInt8 =
        some n := by
    decide
  obtain ⟨htext, hn⟩ := hcode c.toNat hc
  have h := Unescapes.code (fourHex?_eq_some_iff.mp hn) (.inl (by omega)) .nil
  rw [List.append_nil, Char.ofNat_toNat] at h
  rw [htext]
  exact h

theorem unescapes_ordinary (hcontrol : 0x20 ≤ c.toNat) (hquote : c ≠ '"') (hescape : c ≠ '\\') :
    Unescapes (Utf8.encode [c]) (String.utf8EncodeChar c) := by
  have hbytes : Utf8.encode [c] = String.utf8EncodeChar c := List.append_nil _
  rw [hbytes]
  refine unescapes_self fun b hb => ?_
  -- The bytes of a longer encoding are all beyond ASCII.
  have heq : b.toNat < 0x80 → b.toNat = c.toNat := (Utf8.encoded c).toNat_eq hb
  refine ⟨?_, ?_, ?_⟩
  · rw [UInt8.le_iff_toNat_le]
    have h : (0x20 : UInt8).toNat = 0x20 := rfl
    omega
  · rintro rfl
    exact hquote (Char.toNat_inj.mp (heq (by decide)).symm)
  · rintro rfl
    exact hescape (Char.toNat_inj.mp (heq (by decide)).symm)

def shortlyEscaped : Text := ['"', '\\', '\x08', '\t', '\n', '\x0c', '\r']

theorem unescapes_shortlyEscaped (hc : c ∈ shortlyEscaped) :
    Unescapes (Utf8.encode (escapeChar c)) (String.utf8EncodeChar c) := by
  simp only [shortlyEscaped, List.mem_cons, List.not_mem_nil, or_false] at hc
  rcases hc with rfl | rfl | rfl | rfl | rfl | rfl | rfl <;> exact .short (by decide) .nil

theorem unescapes_escapeChar (c : Char) :
    Unescapes (Utf8.encode (escapeChar c)) (String.utf8EncodeChar c) := by
  by_cases hc : c ∈ shortlyEscaped
  · exact unescapes_shortlyEscaped hc
  · simp only [shortlyEscaped, List.mem_cons, List.not_mem_nil, or_false, not_or] at hc
    obtain ⟨hquote, hescape, h₁, h₂, h₃, h₄, h₅⟩ := hc
    simp only [escapeChar, hquote, hescape, h₁, h₂, h₃, h₄, h₅, if_false]
    by_cases hcontrol : c.toNat < 0x20
    · rw [if_pos hcontrol]
      exact unescapes_control hcontrol
    · rw [if_neg hcontrol]
      exact unescapes_ordinary (Nat.le_of_not_lt hcontrol) hquote hescape

theorem spells_escape (t : Text) : Spells (Utf8.encode (t.flatMap escapeChar)) t := by
  induction t with
  | nil => exact .nil
  | cons c t ih =>
    rw [List.flatMap_cons, Utf8.encode_append, Spells, Utf8.encode_cons]
    exact (unescapes_escapeChar c).append ih

end Escapes

section Numbers

def DigitBytes (bytes : Bytes) : Prop := ∀ b ∈ bytes, 0x30 ≤ b ∧ b ≤ 0x39

instance (bytes : Bytes) : Decidable (DigitBytes bytes) :=
  decidableForallByte bytes fun b => 0x30 ≤ b ∧ b ≤ 0x39

theorem isDigit_iff {b : UInt8} : isDigit b = true ↔ 0x30 ≤ b ∧ b ≤ 0x39 := by simp [isDigit]

theorem digitBytes_iff {bytes : Bytes} : DigitBytes bytes ↔ ∀ b ∈ bytes, isDigit b = true :=
  forall₂_congr fun _ _ => isDigit_iff.symm

theorem DigitBytes.head {d : UInt8} {ds : Bytes} (h : DigitBytes (d :: ds)) : isDigit d = true :=
  digitBytes_iff.mp h d List.mem_cons_self

inductive WholePart : Bytes → Prop where
  | zero : WholePart [0x30]
  | digits {d : UInt8} {ds : Bytes} (hzero : d ≠ 0x30) (hds : DigitBytes (d :: ds)) :
    WholePart (d :: ds)

inductive FractionPart : Bytes → Prop where
  | none : FractionPart []
  | digits {d : UInt8} {ds : Bytes} (hds : DigitBytes (d :: ds)) : FractionPart (0x2E :: d :: ds)

inductive ExponentPart : Bytes → Prop where
  | none : ExponentPart []
  | digits {e d : UInt8} {sign ds : Bytes} (he : e = 0x65 ∨ e = 0x45)
    (hsign : sign = [] ∨ sign = [0x2B] ∨ sign = [0x2D]) (hds : DigitBytes (d :: ds)) :
    ExponentPart (e :: (sign ++ d :: ds))

inductive NumberText : Bytes → Prop where
  | mk {sign whole fraction exponent : Bytes} (hsign : sign = [] ∨ sign = [0x2D])
    (hwhole : WholePart whole) (hfraction : FractionPart fraction)
    (hexponent : ExponentPart exponent) : NumberText (sign ++ (whole ++ (fraction ++ exponent)))

end Numbers

section Values

inductive Phrase where
  | value
  | items
  | members

/-- Values, and what stands between the brackets of arrays and the braces of objects that are not
empty. -/
inductive Derives : Phrase → Bytes → Prop where
  | word {w : Text} (hw : w ∈ ["null".toList, "true".toList, "false".toList]) :
    Derives .value (Utf8.encode w)
  | number {n : Bytes} (hn : NumberText n) : Derives .value n
  | string {s : Bytes} (hs : Quotable s) : Derives .value (quote :: (s ++ [quote]))
  | emptyArray {a : Bytes} (ha : Blanks a) : Derives .value (0x5B :: (a ++ [0x5D]))
  | array {inner : Bytes} (h : Derives .items inner) : Derives .value (0x5B :: (inner ++ [0x5D]))
  | emptyObject {a : Bytes} (ha : Blanks a) : Derives .value (0x7B :: (a ++ [0x7D]))
  | object {inner : Bytes} (h : Derives .members inner) :
    Derives .value (0x7B :: (inner ++ [0x7D]))
  | item {a v b : Bytes} (ha : Blanks a) (hv : Derives .value v) (hb : Blanks b) :
    Derives .items (a ++ (v ++ b))
  | items {a v b rest : Bytes} (ha : Blanks a) (hv : Derives .value v) (hb : Blanks b)
    (hrest : Derives .items rest) : Derives .items (a ++ (v ++ (b ++ 0x2C :: rest)))
  | member {a s b c v d : Bytes} (ha : Blanks a) (hs : Quotable s) (hb : Blanks b)
    (hc : Blanks c) (hv : Derives .value v) (hd : Blanks d) :
    Derives .members (a ++ quote :: (s ++ quote :: (b ++ 0x3A :: (c ++ (v ++ d)))))
  | members {a s b c v d rest : Bytes} (ha : Blanks a) (hs : Quotable s) (hb : Blanks b)
    (hc : Blanks c) (hv : Derives .value v) (hd : Blanks d) (hrest : Derives .members rest) :
    Derives .members
      (a ++ quote :: (s ++ quote :: (b ++ 0x3A :: (c ++ (v ++ (d ++ 0x2C :: rest))))))

def ValueText (v : Bytes) : Prop := Derives .value v

def Ends (rest : Bytes) : Prop :=
  ∀ b ∈ rest.head?, isBlank b = true ∨ b = 0x2C ∨ b = 0x5D ∨ b = 0x7D

theorem Ends.cons {b : UInt8} (hb : b ∈ [0x2C, 0x5D, 0x7D]) (rest : Bytes) : Ends (b :: rest) := by
  intro b' hb'
  obtain rfl : b = b' := Option.some.inj hb'
  simpa using Or.inr hb

theorem Ends.blanks {a : Bytes} (ha : Blanks a) {rest : Bytes} (hrest : Ends rest) : Ends (a ++ rest) := by
  cases a with
  | nil => exact hrest
  | cons b a =>
    intro b' hb'
    obtain rfl : b = b' := Option.some.inj hb'
    exact .inl (blanks_iff.mp ha b List.mem_cons_self)

end Values

section Objects

inductive MemberText : Text × Bytes → Bytes → Prop where
  | mk {key : Text} {a s b c v d : Bytes} (ha : Blanks a) (hs : Spells s key) (hb : Blanks b)
    (hc : Blanks c) (hd : Blanks d) :
    MemberText (key, v) (a ++ quote :: (s ++ quote :: (b ++ 0x3A :: (c ++ (v ++ d)))))

inductive MembersText : List (Text × Bytes) → Bytes → Prop where
  | one {member : Text × Bytes} {bytes : Bytes} (h : MemberText member bytes) :
    MembersText [member] bytes
  | cons {member : Text × Bytes} {members : List (Text × Bytes)} {bytes rest : Bytes}
    (h : MemberText member bytes) (hrest : MembersText members rest) :
    MembersText (member :: members) (bytes ++ 0x2C :: rest)

inductive ObjectText : List (Text × Bytes) → Bytes → Prop where
  | empty {a : Bytes} (ha : Blanks a) : ObjectText [] (0x7B :: (a ++ [0x7D]))
  | members {members : List (Text × Bytes)} {inner : Bytes} (h : MembersText members inner) :
    ObjectText members (0x7B :: (inner ++ [0x7D]))

end Objects

end StockScreen.Json
