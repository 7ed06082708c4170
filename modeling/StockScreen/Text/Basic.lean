namespace StockScreen

abbrev Text := List Char

def occursIn {α : Type} [BEq α] (word : List α) : List α → Bool
  | [] => word.isEmpty
  | x :: rest => word.isPrefixOf (x :: rest) || occursIn word rest

namespace Text

/-- The ranges of characters with the Unicode property `White_Space`. -/
def blanks : List (Nat × Nat) :=
  [(0x9, 0xD), (0x20, 0x20), (0x85, 0x85), (0xA0, 0xA0), (0x1680, 0x1680), (0x2000, 0x200A),
    (0x2028, 0x2029), (0x202F, 0x202F), (0x205F, 0x205F), (0x3000, 0x3000)]

def isBlank (c : Char) : Bool :=
  blanks.any fun (first, last) => decide (first ≤ c.toNat) && decide (c.toNat ≤ last)

def trimStart (t : Text) : Text := t.dropWhile isBlank

def trimEnd (t : Text) : Text := (t.reverse.dropWhile isBlank).reverse

def trim (t : Text) : Text := trimEnd (trimStart t)

def padRight (width : Nat) (t : Text) : Text := t ++ List.replicate (width - t.length) ' '

def padLeft (width : Nat) (t : Text) : Text := List.replicate (width - t.length) ' ' ++ t

def ofNat (n : Nat) : Text := Nat.toDigits 10 n

/-- `skip` counts the characters of a separator that are still to be passed over; the piece under
construction and the finished pieces are kept in reverse. -/
def splitLoop (word : Text) : Nat → Text → List Text → Text → List Text
  | _, piece, pieces, [] => (piece.reverse :: pieces).reverse
  | skip + 1, piece, pieces, _ :: rest => splitLoop word skip piece pieces rest
  | 0, piece, pieces, c :: rest =>
    if word.isPrefixOf (c :: rest) then
      splitLoop word (word.length - 1) [] (piece.reverse :: pieces) rest
    else splitLoop word 0 (c :: piece) pieces rest

def split (word t : Text) : List Text := splitLoop word 0 [] [] t

def splitAtChar (c : Char) (t : Text) : List Text := split [c] t

def join (word : Text) (pieces : List Text) : Text := word.intercalate pieces

def ofLines (lines : List Text) : Text := lines.flatMap fun line => line ++ ['\n']

end Text

end StockScreen
