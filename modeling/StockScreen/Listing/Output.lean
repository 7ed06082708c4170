import StockScreen.Json.Value
import StockScreen.Listing.Content

namespace StockScreen

namespace Table

def headings : List Text := Stock.nameKey :: Field.all.map Field.name

def cells (s : Stock) : List Text := s.name :: s.values.map Binary64.plain

def width (column : List Text) : Nat := (column.map List.length).foldl max 0

def widths (rows : List (List Text)) : List Nat :=
  (List.range headings.length).map fun k => width (rows.map fun row => row.getD k [])

def row (widths : List Nat) (cells : List Text) : Text :=
  Text.trimEnd (Text.join [' ', ' '] (List.zipWith Text.padRight widths cells))

def widthLimit : Nat := 65535

def stocks (stocks : List Stock) : Option (List Text) :=
  let rows := headings :: stocks.map cells
  let widths := widths rows
  if widths.all fun w => decide (w ≤ widthLimit) then some (rows.map (row widths)) else none

def condition (c : Condition) : Text :=
  "  - ".toList ++ c.text ++ if c.known?.isSome then [] else "  (unknown field)".toList

def dropped (d : Dropped) : Text :=
  "  - '".toList ++ d.segment ++ "' (".toList ++ d.reason.name ++ [')']

def report (r : Report) : List Text :=
  ("query  : ".toList ++ Query.text r.query) :: r.query.map condition ++
    match r.dropped with
    | [] => []
    | segments => "dropped:".toList :: segments.map dropped

def lines : Content → Option (List Text)
  | .stocks listed => stocks listed
  | .report r => some (report r)
  | .fields names => some names

end Table

inductive Format where
  | table
  | json
  | lines
  deriving DecidableEq, Repr

namespace Content

/-- The lines of a listing; only a single document can be made pretty, and only a table can fail
to be laid out. -/
def textLines (content : Content) (format : Format) (pretty : Bool) : Option (List Text) :=
  match format with
  | .json => some [if pretty then content.document.pretty else content.document.compact]
  | .lines => some (content.lines.map Json.compact)
  | .table => Table.lines content

def text? (content : Content) (format : Format) (pretty : Bool) : Option Text :=
  (content.textLines format pretty).map Text.ofLines

end Content

end StockScreen
