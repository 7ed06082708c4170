import StockScreen.Json.Value
import StockScreen.Text.Quoted
import StockScreen.Text.Utf8

namespace StockScreen.Json

open Utf8 (Bytes)

inductive Found where
  | null
  | boolean (b : Bool)
  | integer (negative : Bool) (n : Nat)
  | decimal (x : Binary64)
  | string (t : Text)
  | array
  | object
  deriving DecidableEq

inductive Mismatch where
  | wrongKind (found : Found) (expected : Text)
  | unknownKey (key : Text)
  | unknownName (name : Text) (known : List Text)
  | duplicateKey (key : Text)
  | missingKey (key : Text)
  | tooShort (length : Nat) (expected : Text)
  deriving DecidableEq

inductive ReadError where
  | malformed
  | endsEarly
  | mismatch (cause : Mismatch)
  deriving DecidableEq

def Found.text : Found → Text
  | null => "null".toList
  | boolean b => "boolean `".toList ++ (if b then "true".toList else "false".toList) ++ ['\x60']
  | integer negative n =>
    "integer `".toList ++ Binary64.signText negative ++ Text.ofNat n ++ ['\x60']
  | decimal x => "floating point `".toList ++ numberText x ++ ['\x60']
  | string t => "string ".toList ++ t.quoted
  | array => "sequence".toList
  | object => "map".toList

def ticked (t : Text) : Text := '\x60' :: t ++ ['\x60']

def Mismatch.message : Mismatch → Text
  | wrongKind found expected =>
    "invalid type: ".toList ++ found.text ++ ", expected ".toList ++ expected
  | unknownKey key => "unknown field '".toList ++ key ++ ['\'']
  | unknownName name known =>
    "unknown variant ".toList ++ ticked name ++ ", expected one of ".toList ++
      Text.join ", ".toList (known.map ticked)
  | duplicateKey key => "duplicate field ".toList ++ ticked key
  | missingKey key => "missing field ".toList ++ ticked key
  | tooShort length expected =>
    "invalid length ".toList ++ Text.ofNat length ++ ", expected ".toList ++ expected

abbrev Reader (α : Type) := Bytes → Except ReadError (α × Bytes)

def isBlank (b : UInt8) : Bool := b == 0x20 || b == 0x0A || b == 0x09 || b == 0x0D

def skipBlanks (bytes : Bytes) : Bytes := bytes.dropWhile isBlank

def isByte (c : Char) (b : UInt8) : Bool := b == c.toUInt8

def isDigit (b : UInt8) : Bool := decide (0x30 ≤ b) && decide (b ≤ 0x39)

def expectBytes : Bytes → Bytes → Except ReadError Bytes
  | [], bytes => .ok bytes
  | _ :: _, [] => .error .endsEarly
  | e :: expected, b :: bytes => if b = e then expectBytes expected bytes else .error .malformed

def expectWord (word : Text) (bytes : Bytes) : Except ReadError Bytes :=
  expectBytes (word.map Char.toUInt8) bytes

def hexValue? (b : UInt8) : Option Nat :=
  if isDigit b then some (b.toNat - 48)
  else if decide (0x61 ≤ b) && decide (b ≤ 0x66) then some (b.toNat - 87)
  else if decide (0x41 ≤ b) && decide (b ≤ 0x46) then some (b.toNat - 55)
  else none

def fourHex? (a b c d : UInt8) : Option Nat := do
  let a ← hexValue? a
  let b ← hexValue? b
  let c ← hexValue? c
  let d ← hexValue? d
  return ((a * 16 + b) * 16 + c) * 16 + d

def shortEscape? (b : UInt8) : Option UInt8 :=
  if isByte '"' b || isByte '\\' b || isByte '/' b then some b
  else if isByte 'b' b then some 0x08
  else if isByte 'f' b then some 0x0C
  else if isByte 'n' b then some 0x0A
  else if isByte 'r' b then some 0x0D
  else if isByte 't' b then some 0x09
  else none

def isLeading (n : Nat) : Bool := decide (0xD800 ≤ n) && decide (n < 0xDC00)

def isTrailing (n : Nat) : Bool := decide (0xDC00 ≤ n) && decide (n < 0xE000)

def pushScalar (n : Nat) (acc : Bytes) : Bytes :=
  (String.utf8EncodeChar (Char.ofNat n)).reverse ++ acc

/-- The rest of a string after its opening quote. An escape for half of a surrogate pair must be
followed by one for the other half, and the whole must be UTF-8. -/
def stringLoop (acc : Bytes) : Reader Text
  | [] => .error .endsEarly
  | b :: rest =>
    if isByte '"' b then
      match Utf8.decode acc.reverse with
      | .ok text => .ok (text, rest)
      | .error _ => .error .malformed
    else if b < 0x20 then .error .malformed
    else if !isByte '\\' b then stringLoop (b :: acc) rest
    else
      match rest with
      | [] => .error .endsEarly
      | e :: rest =>
        if !isByte 'u' e then
          match shortEscape? e with
          | some b => stringLoop (b :: acc) rest
          | none => .error .malformed
        else
          match rest with
          | h₁ :: h₂ :: h₃ :: h₄ :: rest =>
            match fourHex? h₁ h₂ h₃ h₄ with
            | none => .error .malformed
            | some n =>
              if isTrailing n then .error .malformed
              else if !isLeading n then stringLoop (pushScalar n acc) rest
              else
                match rest with
                | [] => .error .endsEarly
                | [s] => if isByte '\\' s then .error .endsEarly else .error .malformed
                | s :: u :: rest =>
                  if !(isByte '\\' s && isByte 'u' u) then .error .malformed
                  else
                    match rest with
                    | l₁ :: l₂ :: l₃ :: l₄ :: rest =>
                      match fourHex? l₁ l₂ l₃ l₄ with
                      | none => .error .malformed
                      | some m =>
                        if isTrailing m then
                          stringLoop
                            (pushScalar (0x10000 + (n - 0xD800) * 0x400 + (m - 0xDC00)) acc) rest
                        else .error .malformed
                    | _ => .error .endsEarly
          | _ => .error .endsEarly

def readString : Reader Text := stringLoop []

end StockScreen.Json
