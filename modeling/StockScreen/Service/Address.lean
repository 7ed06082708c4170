import StockScreen.Text.Basic

namespace StockScreen

inductive Host where
  | four (a b c d : Nat)
  | six (groups : List Nat) (scope : Nat)
  deriving DecidableEq, Repr

structure Address where
  host : Host
  port : Nat
  deriving DecidableEq, Repr

namespace Address

def digitValue? (radix : Nat) (c : Char) : Option Nat :=
  let n :=
    if c.isDigit then c.toNat - 48
    else if 'a' ≤ c ∧ c ≤ 'f' then c.toNat - 87
    else if 'A' ≤ c ∧ c ≤ 'F' then c.toNat - 55
    else radix
  if n < radix then some n else none

def number? (radix places bound : Nat) (zeroPrefix : Bool) (t : Text) : Option (Nat × Text) :=
  let digits := t.takeWhile fun c => (digitValue? radix c).isSome
  let n := digits.foldl (fun n c =>
    if bound < n then n else n * radix + (digitValue? radix c).getD 0) 0
  if digits.isEmpty || decide (places < digits.length) || decide (bound < n) then none
  else if !zeroPrefix && digits.head? == some '0' && decide (1 < digits.length) then none
  else some (n, t.drop digits.length)

def mark? (c : Char) : Text → Option Text
  | d :: rest => if c = d then some rest else none
  | [] => none

def octet? (t : Text) : Option (Nat × Text) := number? 10 3 255 false t

def four? (t : Text) : Option ((Nat × Nat × Nat × Nat) × Text) := do
  let (a, t) ← octet? t
  let (b, t) ← octet? (← mark? '.' t)
  let (c, t) ← octet? (← mark? '.' t)
  let (d, t) ← octet? (← mark? '.' t)
  return ((a, b, c, d), t)

def port? (t : Text) : Option (Nat × Text) := do
  number? 10 t.length 65535 true (← mark? ':' t)

/-- Up to `limit` groups between colons, the last two of which may be written as four decimal
numbers; whether they were is told. -/
def groups (first : Bool) : Nat → Text → List Nat × Bool × Text
  | 0, t => ([], false, t)
  | limit + 1, t =>
    match if first then some t else mark? ':' t with
    | none => ([], false, t)
    | some rest =>
      match if limit = 0 then none else four? rest with
      | some ((a, b, c, d), rest) => ([a * 256 + b, c * 256 + d], true, rest)
      | none =>
        match number? 16 4 65535 true rest with
        | none => ([], false, t)
        | some (n, rest) =>
          let (more, decimal, rest) := groups false limit rest
          (n :: more, decimal, rest)

def six? (t : Text) : Option (List Nat × Text) :=
  let (head, decimal, rest) := groups true 8 t
  if head.length = 8 then some (head, rest)
  else if decimal then none
  else do
    let rest ← mark? ':' rest
    let rest ← mark? ':' rest
    let (tail, _, rest) := groups true (7 - head.length) rest
    return (head ++ List.replicate (8 - head.length - tail.length) 0 ++ tail, rest)

def scope (t : Text) : Nat × Text :=
  match t with
  | '%' :: rest => (number? 10 rest.length 0xFFFFFFFF true rest).getD (0, t)
  | _ => (0, t)

def socketFour? (t : Text) : Option (Address × Text) := do
  let ((a, b, c, d), t) ← four? t
  let (port, t) ← port? t
  return (⟨.four a b c d, port⟩, t)

def socketSix? (t : Text) : Option (Address × Text) := do
  let (groups, t) ← six? (← mark? '[' t)
  let (scope, t) := scope t
  let (port, t) ← port? (← mark? ']' t)
  return (⟨.six groups scope, port⟩, t)

def ofText? (t : Text) : Option Address :=
  match (socketFour? t).or (socketSix? t) with
  | some (address, []) => some address
  | _ => none

def fourText (a b c d : Nat) : Text := Text.join ['.'] ([a, b, c, d].map Text.ofNat)

def zeroRun (groups : List Nat) : Nat := (groups.takeWhile (· == 0)).length

def longestRun (groups : List Nat) : Nat × Nat :=
  (List.range groups.length).foldl (fun best start =>
    let length := zeroRun (groups.drop start)
    if best.2 < length then (start, length) else best) (0, 0)

def groupsText (groups : List Nat) : Text := Text.join [':'] (groups.map (Nat.toDigits 16))

def sixText (groups : List Nat) : Text :=
  match groups with
  | [0, 0, 0, 0, 0, 0xFFFF, x, y] =>
    "::ffff:".toList ++ fourText (x / 256) (x % 256) (y / 256) (y % 256)
  | _ =>
    let (start, length) := longestRun groups
    if 1 < length then
      groupsText (groups.take start) ++ [':', ':'] ++ groupsText (groups.drop (start + length))
    else groupsText groups

def text (address : Address) : Text :=
  let host := match address.host with
    | .four a b c d => fourText a b c d
    | .six groups 0 => '[' :: sixText groups ++ [']']
    | .six groups scope => '[' :: sixText groups ++ '%' :: Text.ofNat scope ++ [']']
  host ++ ':' :: Text.ofNat address.port

end Address

end StockScreen
