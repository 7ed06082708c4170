import StockScreen.Text.Utf8

/-!
Text without control sequences. A terminal takes such a sequence as an order and shows nothing for
it; where there is no terminal they are left out, and so are controls that are not blank.
-/

namespace StockScreen.Text

inductive ControlPlace where
  | outside
  | escape
  | escapeTail
  | order
  | command
  | device
  | deviceParameter
  | deviceTail
  | data
  deriving DecidableEq, Repr

def isWithin (first last : Nat) (c : Char) : Bool :=
  decide (first ≤ c.toNat) && decide (c.toNat ≤ last)

namespace ControlPlace

/-- Any place is left by the character that begins a sequence and by the two that cancel one. Data
ends at the byte `0x9C`, also when that byte is part of a character. -/
def next (p : ControlPlace) (c : Char) : ControlPlace :=
  if c = '\x1b' then .escape
  else if c = '\x18' ∨ c = '\x1a' then .outside
  else
    match p with
    | outside => .outside
    | escape =>
      if c = '[' then .order
      else if c = ']' then .command
      else if c = 'P' then .device
      else if c = 'X' ∨ c = '^' ∨ c = '_' then .data
      else if isWithin 0x20 0x2F c then .escapeTail
      else if isWithin 0x30 0x7E c then .outside
      else .escape
    | escapeTail => if isWithin 0x30 0x7E c then .outside else .escapeTail
    | order => if isWithin 0x40 0x7E c then .outside else .order
    | command => if c = '\x07' then .outside else .command
    | device =>
      if isWithin 0x20 0x2F c then .deviceTail
      else if isWithin 0x30 0x3F c then .deviceParameter
      else if isWithin 0x40 0x7E c then .data
      else .device
    | deviceParameter =>
      if isWithin 0x20 0x2F c then .deviceTail
      else if isWithin 0x3C 0x7E c then .data
      else .deviceParameter
    | deviceTail => if isWithin 0x30 0x7E c then .data else .deviceTail
    | data => if (String.utf8EncodeChar c).contains 0x9C then .outside else .data

def isBlankControl (c : Char) : Bool := c == '\t' || c == '\n' || c == '\x0c' || c == '\r'

/-- Short sequences let blanks through. -/
def shows (p : ControlPlace) (c : Char) : Bool :=
  match p with
  | outside => isBlankControl c || (decide (0x20 ≤ c.toNat) && c != '\x7f')
  | escape | escapeTail | order => isBlankControl c
  | _ => false

/-- Once a character is shown, those after it are as if they were outside, up to one that is not
shown there; then reading goes on from the place it had, unless a character beyond ASCII was among
them. -/
def plain : Bool → ControlPlace → Text → Text
  | _, _, [] => []
  | showing, p, c :: rest =>
    if shows (if showing then .outside else p) c then
      c :: plain true (if c.toNat < 0x80 then p else .outside) rest
    else plain false (p.next c) rest

end ControlPlace

def plain (t : Text) : Text := ControlPlace.plain false .outside t

theorem plain_sublist (showing : Bool) (p : ControlPlace) (t : Text) :
    (ControlPlace.plain showing p t).Sublist t := by
  induction t generalizing showing p with
  | nil => exact .slnil
  | cons c rest ih =>
    rw [ControlPlace.plain]
    by_cases hs : (if showing then ControlPlace.outside else p).shows c = true
    · rw [if_pos hs]
      exact (ih _ _).cons_cons c
    · rw [if_neg hs]
      exact (ih _ _).cons c

theorem plain_eq_self {t : Text} (h : ∀ c ∈ t, ControlPlace.shows .outside c = true)
    (showing : Bool) : ControlPlace.plain showing .outside t = t := by
  induction t generalizing showing with
  | nil => rfl
  | cons c rest ih =>
    have hc := h c List.mem_cons_self
    simp only [ControlPlace.plain, ite_self, hc, ↓reduceIte]
    rw [ih fun d hd => h d (List.mem_cons_of_mem _ hd)]

end StockScreen.Text
