import StockScreen.Binary64.Basic
import StockScreen.Json.Reading

/-!
Numbers in JSON text. Integers of 64 bits are read exactly. Of any other number the leading digits
that fit in 64 bits are kept, and the result is rounded once for them and once for each power of
ten, so it may differ from the nearest number in the last place.
-/

namespace StockScreen.Json

open Utf8 (Bytes)

inductive Numeral where
  | integer (negative : Bool) (n : Nat)
  | decimal (x : Binary64)
  deriving DecidableEq

def Numeral.value : Numeral → Binary64
  | integer negative n => .signed negative (.ofNat n)
  | decimal x => x

def Numeral.found : Numeral → Found
  | integer negative n => .integer negative n
  | decimal x => .decimal x

/-- Appends digits to a significand while it stays below `2 ^ 64`; counts those appended. -/
def absorb (significand : Nat) (count : Nat) : Bytes → Nat × Nat
  | [] => (significand, count)
  | d :: rest =>
    let next := significand * 10 + (d.toNat - 48)
    if next < twoPow 64 then absorb next (count + 1) rest else (significand, count)

def largestPower : Nat := 308

/-- Multiplies by a power of ten, in steps of `10 ^ 308` when it is smaller than the format has;
none when the product is out of range. -/
def scale (fuel : Nat) (m : Magnitude) (exponent : Int) : Option Magnitude :=
  if exponent.natAbs ≤ largestPower then
    let power := Magnitude.powerOfTen exponent.natAbs
    if 0 ≤ exponent then
      let product := m.mul power
      if product.isInfinite then none else some product
    else some (m.div power)
  else if m = .zero then some m
  else if 0 ≤ exponent then none
  else
    match fuel with
    | 0 => some .zero
    | fuel + 1 => scale fuel (m.div (.powerOfTen largestPower)) (exponent + largestPower)

/-- Each step divides by `10 ^ 308`, so the third leaves zero. -/
def fromParts (negative : Bool) (significand : Nat) (exponent : Int) :
    Except ReadError Binary64 :=
  match scale 3 (.ofNat significand) exponent with
  | some m => .ok (.signed negative m)
  | none => .error .malformed

/-- Exponents from here on are not counted: only zero can bear a positive one. -/
def exponentLimit : Nat := twoPow 31

def exponentValue (digits : Bytes) : Nat :=
  digits.foldl (fun n d => if n < exponentLimit then n * 10 + (d.toNat - 48) else n) 0

def readExponent (negative : Bool) (significand : Nat) (start : Int) : Reader Binary64 := fun bytes =>
  let (down, bytes) := match bytes with
    | b :: rest => if isByte '+' b then (false, rest) else if isByte '-' b then (true, rest)
      else (false, bytes)
    | [] => (false, bytes)
  match bytes with
  | [] => .error .endsEarly
  | b :: _ =>
    if !isDigit b then .error .malformed
    else
      let digits := exponentValue (bytes.takeWhile isDigit)
      let rest := bytes.dropWhile isDigit
      if exponentLimit ≤ digits then
        if significand ≠ 0 ∧ down = false then .error .malformed
        else .ok (.signed negative .zero, rest)
      else
        (fromParts negative significand (if down then start - digits else start + digits)).map
          (·, rest)

def readTail (negative : Bool) (significand : Nat) (exponent : Int) : Reader Binary64
  | [] => (fromParts negative significand exponent).map (·, [])
  | b :: rest =>
    if isByte 'e' b || isByte 'E' b then readExponent negative significand exponent rest
    else (fromParts negative significand exponent).map (·, b :: rest)

def readFraction (negative : Bool) (significand : Nat) (exponent : Int) : Reader Binary64 :=
  fun bytes =>
    match bytes with
    | [] => .error .endsEarly
    | b :: _ =>
      if !isDigit b then .error .malformed
      else
        let (significand, taken) := absorb significand 0 (bytes.takeWhile isDigit)
        readTail negative significand (exponent - taken) (bytes.dropWhile isDigit)

/-- An integer that needs no rounding as such: negative ones reach down to `-2 ^ 63`, and minus zero
is not among them. -/
def integer (negative : Bool) (n : Nat) : Numeral :=
  if negative && (decide (n = 0) || decide (twoPow 63 < n)) then .decimal (.signed true (.ofNat n))
  else .integer negative n

def readUnsigned (negative : Bool) : Reader Numeral := fun bytes =>
  match bytes with
  | [] => .error .endsEarly
  | b :: _ =>
    let digits := bytes.takeWhile isDigit
    let rest := bytes.dropWhile isDigit
    if !isDigit b || (isByte '0' b && decide (1 < digits.length)) then .error .malformed
    else
      let (significand, taken) := absorb 0 0 digits
      let beyond := digits.length - taken
      match rest with
      | [] =>
        if beyond = 0 then .ok (integer negative significand, [])
        else (fromParts negative significand beyond).map fun x => (.decimal x, [])
      | c :: after =>
        if isByte '.' c then
          (readFraction negative significand beyond after).map fun (x, rest) => (.decimal x, rest)
        else if isByte 'e' c || isByte 'E' c then
          (readExponent negative significand beyond after).map fun (x, rest) => (.decimal x, rest)
        else if beyond = 0 then .ok (integer negative significand, rest)
        else (fromParts negative significand beyond).map fun x => (.decimal x, rest)

def readNumeral (b : UInt8) (rest : Bytes) : Except ReadError (Numeral × Bytes) :=
  if isByte '-' b then readUnsigned true rest else readUnsigned false (b :: rest)

def startsNumeral (b : UInt8) : Bool := isByte '-' b || isDigit b

end StockScreen.Json
