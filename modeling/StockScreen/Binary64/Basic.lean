/-!
Double precision numbers. An absolute value is known by its rank in the increasing list of all
representable ones, so comparing numbers is comparing integers.
-/

namespace StockScreen

def twoPow (n : Nat) : Nat := Nat.pow 2 n

def tenPow (n : Nat) : Nat := Nat.pow 10 n

/-- The number of finite absolute values, and so the rank of infinity. -/
def infinityRank : Nat := 0x7FF0000000000000

structure Magnitude where
  rank : Nat
  rank_le : rank ≤ infinityRank
  deriving DecidableEq, Repr

namespace Magnitude

def zero : Magnitude := ⟨0, Nat.zero_le _⟩

def infinity : Magnitude := ⟨infinityRank, Nat.le_refl _⟩

def isInfinite (m : Magnitude) : Bool := m.rank == infinityRank

/-- The absolute value of a rank as a multiple of `2 ^ -1074`, the least positive one. -/
def unitsOfRank (rank : Nat) : Nat :=
  if rank < twoPow 52 then rank
  else (twoPow 52 + rank % twoPow 52) * twoPow (rank / twoPow 52 - 1)

def units (m : Magnitude) : Nat := unitsOfRank m.rank

/-- The nearest value to `numerator / denominator`. The grid at the value has step
`2 ^ step * 2 ^ -1074`; a quotient that fills its 53 bits after rounding up has the next rank, in
the next binade or at infinity. -/
def ofRatio (numerator denominator : Nat) : Magnitude :=
  let scaled := numerator * twoPow 1074
  let step := (scaled / denominator).log2 - 52
  let grid := denominator * twoPow step
  let below := scaled / grid
  let rest := scaled % grid
  let up := decide (grid < 2 * rest) || (decide (grid = 2 * rest) && decide (below % 2 = 1))
  ⟨min (step * twoPow 52 + below + if up then 1 else 0) infinityRank, Nat.min_le_right _ _⟩

def ofNat (n : Nat) : Magnitude := ofRatio n 1

/-- The nearest value to `significand * 10 ^ exponent`, where the significand has at most
`places` decimal digits. Beyond the range of the format no power is computed. -/
def ofDecimal (significand places : Nat) (exponent : Int) : Magnitude :=
  if significand = 0 then zero
  else if exponent > 310 then infinity
  else if exponent + places < -324 then zero
  else if exponent < 0 then ofRatio significand (tenPow (-exponent).toNat)
  else ofRatio (significand * tenPow exponent.toNat) 1

def mul (m n : Magnitude) : Magnitude := ofRatio (m.units * n.units) (twoPow 2148)

def div (m n : Magnitude) : Magnitude := ofRatio m.units n.units

def powerOfTen (exponent : Nat) : Magnitude := ofNat (tenPow exponent)

end Magnitude

/-- All values that are not a number are one. -/
inductive Binary64 where
  | nan
  | signed (negative : Bool) (magnitude : Magnitude)
  deriving DecidableEq, Repr

namespace Binary64

def zero : Binary64 := .signed false .zero

instance : Inhabited Binary64 := ⟨zero⟩

def ofBits (word : UInt64) : Binary64 :=
  let rank := word.toNat % twoPow 63
  if h : rank ≤ infinityRank then .signed (decide (twoPow 63 ≤ word.toNat)) ⟨rank, h⟩ else .nan

def bits? : Binary64 → Option UInt64
  | nan => none
  | signed negative m => some (UInt64.ofNat ((if negative then twoPow 63 else 0) + m.rank))

def isNaN : Binary64 → Bool
  | nan => true
  | signed _ _ => false

def isInfinite : Binary64 → Bool
  | nan => false
  | signed _ m => m.isInfinite

def isFinite : Binary64 → Bool
  | nan => false
  | signed _ m => !m.isInfinite

def position (negative : Bool) (m : Magnitude) : Int := if negative then -m.rank else m.rank

def lt : Binary64 → Binary64 → Bool
  | signed s m, signed t n => decide (position s m < position t n)
  | _, _ => false

def le : Binary64 → Binary64 → Bool
  | signed s m, signed t n => decide (position s m ≤ position t n)
  | _, _ => false

def eq : Binary64 → Binary64 → Bool
  | signed s m, signed t n => decide (position s m = position t n)
  | _, _ => false

theorem eq_iff_le_and_le (x y : Binary64) : x.eq y = (x.le y && y.le x) := by
  cases x <;> cases y <;> simp only [eq, le, Bool.and_self]
  rw [← Bool.decide_and, decide_eq_decide]
  omega

end Binary64

end StockScreen
