import StockScreen.Text.Basic

namespace StockScreen.Utf8

abbrev Bytes := List UInt8

def encode (t : Text) : Bytes := t.flatMap String.utf8EncodeChar

def isTail (b : UInt8) : Bool := decide (0x80 ≤ b) && decide (b ≤ 0xBF)

def scalar? (n : Nat) : Option Char :=
  if h : n.isValidChar then some (Char.ofNatAux n h) else none

def one? (a : UInt8) : Option Char := if a < 0x80 then scalar? a.toNat else none

def two? (a b : UInt8) : Option Char :=
  if decide (0xC2 ≤ a) && decide (a ≤ 0xDF) && isTail b then
    scalar? (a.toNat % 0x20 * 0x40 + b.toNat % 0x40)
  else none

def three? (a b c : UInt8) : Option Char :=
  if decide (0xE0 ≤ a) && decide (a ≤ 0xEF) && isTail b && isTail c then
    let n := a.toNat % 0x10 * 0x1000 + b.toNat % 0x40 * 0x40 + c.toNat % 0x40
    if n < 0x800 then none else scalar? n
  else none

def four? (a b c d : UInt8) : Option Char :=
  if decide (0xF0 ≤ a) && decide (a ≤ 0xF4) && isTail b && isTail c && isTail d then
    let n := a.toNat % 8 * 0x40000 + b.toNat % 0x40 * 0x1000 + c.toNat % 0x40 * 0x40 +
      d.toNat % 0x40
    if n < 0x10000 then none else scalar? n
  else none

def decodeLoop (position : Nat) (acc : Text) : Bytes → Except Nat Text
  | [] => .ok acc.reverse
  | a :: rest =>
    match one? a with
    | some x => decodeLoop (position + 1) (x :: acc) rest
    | none =>
      match rest with
      | [] => .error position
      | b :: rest =>
        match two? a b with
        | some x => decodeLoop (position + 2) (x :: acc) rest
        | none =>
          match rest with
          | [] => .error position
          | c :: rest =>
            match three? a b c with
            | some x => decodeLoop (position + 3) (x :: acc) rest
            | none =>
              match rest with
              | [] => .error position
              | d :: rest =>
                match four? a b c d with
                | some x => decodeLoop (position + 4) (x :: acc) rest
                | none => .error position

def decode (bytes : Bytes) : Except Nat Text := decodeLoop 0 [] bytes

theorem encode_append (s t : Text) : encode (s ++ t) = encode s ++ encode t := by
  simp [encode]

theorem scalar?_toNat (c : Char) : scalar? c.toNat = some c := by
  have h : c.toNat.isValidChar := c.valid
  rw [scalar?, dif_pos h]
  rfl

end StockScreen.Utf8
