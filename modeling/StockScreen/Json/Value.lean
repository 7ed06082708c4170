import StockScreen.Binary64.Layout
import StockScreen.Text.Basic

namespace StockScreen

inductive Json where
  | null
  | bool (b : Bool)
  | number (x : Binary64)
  | count (n : Nat)
  | string (t : Text)
  | array (items : List Json)
  | object (members : List (Text × Json))

namespace Json

def hexPair (n : Nat) : Text := [Nat.digitChar (n / 16), Nat.digitChar (n % 16)]

def escapeChar (c : Char) : Text :=
  if c = '"' then ['\\', '"']
  else if c = '\\' then ['\\', '\\']
  else if c = '\x08' then ['\\', 'b']
  else if c = '\t' then ['\\', 't']
  else if c = '\n' then ['\\', 'n']
  else if c = '\x0c' then ['\\', 'f']
  else if c = '\r' then ['\\', 'r']
  else if c.toNat < 0x20 then ['\\', 'u', '0', '0'] ++ hexPair c.toNat
  else [c]

def stringText (t : Text) : Text := '"' :: t.flatMap escapeChar ++ ['"']

/-- Values that JSON has no number for become null. -/
def numberText : Binary64 → Text
  | .nan => "null".toList
  | .signed negative m =>
    if m.isInfinite then "null".toList
    else Binary64.signText negative ++ Binary64.documentDigits m

mutual

def compact : Json → Text
  | null => "null".toList
  | bool b => if b then "true".toList else "false".toList
  | number x => numberText x
  | count n => Text.ofNat n
  | string t => stringText t
  | array items => '[' :: Text.join [','] (compactItems items) ++ [']']
  | object members => '\x7b' :: Text.join [','] (compactMembers members) ++ ['\x7d']

def compactItems : List Json → List Text
  | [] => []
  | item :: rest => compact item :: compactItems rest

def compactMembers : List (Text × Json) → List Text
  | [] => []
  | (key, value) :: rest => (stringText key ++ ':' :: compact value) :: compactMembers rest

end

theorem compactItems_eq_map (items : List Json) : compactItems items = items.map compact := by
  induction items with
  | nil => rfl
  | cons item rest ih => simp [compactItems, ih]

theorem compactMembers_eq_map (members : List (Text × Json)) :
    compactMembers members =
      members.map fun (key, value) => stringText key ++ ':' :: compact value := by
  induction members with
  | nil => rfl
  | cons member rest ih =>
    obtain ⟨key, value⟩ := member
    rw [compactMembers, ih]
    rfl

def indentation (level : Nat) : Text := List.replicate (2 * level) ' '

def block (level : Nat) (first last : Char) (lines : List Text) : Text :=
  match lines with
  | [] => [first, last]
  | _ =>
    first :: '\n' :: Text.join [',', '\n'] (lines.map (indentation (level + 1) ++ ·)) ++
      '\n' :: indentation level ++ [last]

mutual

def prettyAt (level : Nat) : Json → Text
  | array items => block level '[' ']' (prettyItems level items)
  | object members => block level '\x7b' '\x7d' (prettyMembers level members)
  | null => compact .null
  | bool b => compact (.bool b)
  | number x => compact (.number x)
  | count n => compact (.count n)
  | string t => compact (.string t)

def prettyItems (level : Nat) : List Json → List Text
  | [] => []
  | item :: rest => prettyAt (level + 1) item :: prettyItems level rest

def prettyMembers (level : Nat) : List (Text × Json) → List Text
  | [] => []
  | (key, value) :: rest =>
    (stringText key ++ ':' :: ' ' :: prettyAt (level + 1) value) :: prettyMembers level rest

end

def pretty (document : Json) : Text := prettyAt 0 document

theorem prettyItems_eq_map (level : Nat) (items : List Json) :
    prettyItems level items = items.map (prettyAt (level + 1)) := by
  induction items with
  | nil => rfl
  | cons item rest ih => rw [prettyItems, ih, List.map_cons]

theorem prettyMembers_eq_map (level : Nat) (members : List (Text × Json)) :
    prettyMembers level members =
      members.map fun (key, value) =>
        stringText key ++ ':' :: ' ' :: prettyAt (level + 1) value := by
  induction members with
  | nil => rfl
  | cons member rest ih =>
    obtain ⟨key, value⟩ := member
    rw [prettyMembers, ih]
    rfl

end Json

end StockScreen
