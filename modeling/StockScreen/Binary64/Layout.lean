import StockScreen.Binary64.Basic
import StockScreen.Text.Basic

namespace StockScreen

structure Decimal where
  significand : Nat
  exponent : Int
  deriving DecidableEq, Repr

inductive Tie where
  | upward
  | toEven
  deriving DecidableEq, Repr

def Tie.choose (tie : Tie) (below rest grid : Nat) : Nat :=
  if 2 * rest < grid then below
  else if grid < 2 * rest then below + 1
  else
    match tie with
    | .upward => below + 1
    | .toEven => if below % 2 = 0 then below else below + 1

namespace Magnitude

/-- Whether a value of `2 * numerator / denominator` units lies where all reals round to `rank`:
between the midpoints to its neighbours, these included when the rank is even. -/
def roundsTo (rank numerator denominator : Nat) : Bool :=
  let low := (unitsOfRank (rank - 1) + unitsOfRank rank) * denominator
  let high := (unitsOfRank rank + unitsOfRank (rank + 1)) * denominator
  let value := 2 * numerator
  if rank % 2 = 0 then decide (low ≤ value) && decide (value ≤ high)
  else decide (low < value) && decide (value < high)

/-- The multiple of `10 ^ exponent` that stands for `rank`, if one of the two multiples around the
value rounds to it. One unit is `scale / grid` times `10 ^ exponent`. -/
def onGrid? (tie : Tie) (rank : Nat) (exponent : Int) : Option Decimal :=
  let scale := if exponent < 0 then tenPow (-exponent).toNat else 1
  let grid := twoPow 1074 * if exponent < 0 then 1 else tenPow exponent.toNat
  let scaled := unitsOfRank rank * scale
  let below := scaled / grid
  let rest := scaled % grid
  match roundsTo rank (below * grid) scale, roundsTo rank ((below + 1) * grid) scale with
  | true, true => some ⟨tie.choose below rest grid, exponent⟩
  | true, false => some ⟨below, exponent⟩
  | false, true => some ⟨below + 1, exponent⟩
  | false, false => none

def firstHit (tie : Tie) (rank : Nat) (exponent : Int) : Nat → Option Decimal
  | 0 => onGrid? tie rank exponent
  | steps + 1 =>
    match onGrid? tie rank exponent with
    | some d => some d
    | none => firstHit tie rank (exponent - 1) steps

/-- An exponent such that the value is below that power of ten. The logarithm of two is a little
less than `0.30103`. -/
def exponentAbove (rank : Nat) : Int :=
  (((unitsOfRank rank).log2 : Int) - 1073) * 30103 / 100000 + 1

/-- Every value is a multiple of `10 ^ -1074`, so the search meets a grid that has a hit. -/
def shortest (tie : Tie) (m : Magnitude) : Decimal :=
  if m.rank = 0 then ⟨0, 0⟩
  else
    let first := exponentAbove m.rank
    (firstHit tie m.rank first (first + 1074).toNat).getD ⟨0, 0⟩

end Magnitude

namespace Binary64

def zeros (n : Nat) : Text := List.replicate n '0'

def positional (d : Decimal) : Text :=
  let digits := Text.ofNat d.significand
  let shift := (-d.exponent).toNat
  if 0 ≤ d.exponent then digits ++ zeros d.exponent.toNat
  else if shift < digits.length then
    digits.take (digits.length - shift) ++ '.' :: digits.drop (digits.length - shift)
  else ['0', '.'] ++ zeros (shift - digits.length) ++ digits

def scientific (d : Decimal) : Text :=
  let digits := Text.ofNat d.significand
  let exponent := d.exponent + digits.length - 1
  let fraction := match digits.drop 1 with
    | [] => []
    | rest => '.' :: rest
  digits.take 1 ++ fraction ++ 'e' :: (if exponent < 0 then '-' else '+') ::
    Text.ofNat exponent.natAbs

def signText (negative : Bool) : Text := if negative then ['-'] else []

/-- The shortest positional text that reads back as the number; whole numbers have no point. -/
def plain : Binary64 → Text
  | nan => ['N', 'a', 'N']
  | signed negative m =>
    signText negative ++
      if m.isInfinite then ['i', 'n', 'f'] else positional (m.shortest .upward)

/-- The text of a finite absolute value in a data document: positional with at least one digit
after the point when the leading digit stands between `10 ^ -5` and `10 ^ 15`. -/
def documentDigits (m : Magnitude) : Text :=
  let d := m.shortest .toEven
  let leading := d.exponent + (Text.ofNat d.significand).length - 1
  if -5 ≤ leading ∧ leading ≤ 15 then
    if 0 ≤ d.exponent then positional d ++ ['.', '0'] else positional d
  else scientific d

end Binary64

end StockScreen
