import StockScreen.Binary64.Basic
import StockScreen.Text.Basic

namespace StockScreen

inductive LiteralBody where
  | decimal (whole fraction : Text) (exponent : Int)
  | infinity
  | nan
  deriving DecidableEq, Repr

structure Literal where
  negative : Bool
  body : LiteralBody
  deriving DecidableEq, Repr

namespace Literal

def valueByHalves : Nat → Text → Nat
  | 0, digits => Nat.ofDigitChars 10 digits 0
  | depth + 1, digits =>
    if digits.length ≤ 64 then Nat.ofDigitChars 10 digits 0
    else
      let half := digits.length / 2
      valueByHalves depth (digits.take half) * tenPow (digits.length - half) +
        valueByHalves depth (digits.drop half)

def digitsValue (digits : Text) : Nat := valueByHalves digits.length.log2 digits

theorem ofDigitChars_append (xs ys : Text) :
    Nat.ofDigitChars 10 (xs ++ ys) 0 =
      Nat.ofDigitChars 10 xs 0 * tenPow ys.length + Nat.ofDigitChars 10 ys 0 := by
  rw [Nat.ofDigitChars_append, Nat.ofDigitChars_eq_ofDigitChars_zero, Nat.mul_comm]
  rfl

theorem valueByHalves_eq (depth : Nat) (digits : Text) :
    valueByHalves depth digits = Nat.ofDigitChars 10 digits 0 := by
  induction depth generalizing digits with
  | zero => rfl
  | succ depth ih =>
    simp only [valueByHalves, ih]
    split
    · rfl
    · rw [← List.length_drop, ← ofDigitChars_append, List.take_append_drop]

theorem digitsValue_eq (digits : Text) : digitsValue digits = Nat.ofDigitChars 10 digits 0 :=
  valueByHalves_eq _ digits

def takeSign : Text → Bool × Text
  | '+' :: rest => (false, rest)
  | '-' :: rest => (true, rest)
  | rest => (false, rest)

/-- An exponent takes no more digits once it is this large. -/
def exponentLimit : Nat := 0x10000

def exponentValue (digits : Text) : Nat :=
  digits.foldl (fun n c => if n < exponentLimit then 10 * n + (c.toNat - 48) else n) 0

def exponent? (t : Text) : Option Int :=
  let (negative, digits) := takeSign t
  if digits.isEmpty || !digits.all Char.isDigit then none
  else some (if negative then -exponentValue digits else exponentValue digits)

def exponentPart? : Text → Option Int
  | [] => some 0
  | c :: rest => if c = 'e' ∨ c = 'E' then exponent? rest else none

def fractionPart : Text → Text × Text
  | '.' :: rest => (rest.takeWhile Char.isDigit, rest.dropWhile Char.isDigit)
  | rest => ([], rest)

def decimal? (t : Text) : Option LiteralBody :=
  let whole := t.takeWhile Char.isDigit
  let (fraction, rest) := fractionPart (t.dropWhile Char.isDigit)
  if whole.isEmpty && fraction.isEmpty then none
  else (exponentPart? rest).map (.decimal whole fraction)

def lower (t : Text) : Text := t.map Char.toLower

def body? (t : Text) : Option LiteralBody :=
  if lower t = ['i', 'n', 'f'] ∨ lower t = ['i', 'n', 'f', 'i', 'n', 'i', 't', 'y'] then
    some .infinity
  else if lower t = ['n', 'a', 'n'] then some .nan
  else decimal? t

def read? (t : Text) : Option Literal :=
  let (negative, rest) := takeSign t
  (body? rest).map (⟨negative, ·⟩)

def value (l : Literal) : Binary64 :=
  match l.body with
  | .decimal whole fraction exponent =>
    let digits := (whole ++ fraction).dropWhile (· == '0')
    .signed l.negative
      (.ofDecimal (digitsValue digits) digits.length (exponent - fraction.length))
  | .infinity => .signed l.negative .infinity
  | .nan => .nan

end Literal

def Binary64.ofText? (t : Text) : Option Binary64 := (Literal.read? t).map Literal.value

end StockScreen
