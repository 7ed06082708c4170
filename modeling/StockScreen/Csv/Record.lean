import StockScreen.Text.Utf8

/-!
Records of comma separated values. A cell that begins with a quote ends at the next quote, two
quotes standing for one; elsewhere quotes are ordinary. A record ends at a line feed or a carriage
return, and lines with nothing on them hold no record.
-/

namespace StockScreen.Csv

open Utf8 (Bytes)

structure Position where
  byte : Nat
  line : Nat
  deriving DecidableEq, Repr

/-- `start` is where the record before it ended, ahead of any empty lines between them. -/
structure Record where
  start : Position
  cells : List Bytes
  deriving DecidableEq, Repr

def quote : UInt8 := 0x22

def comma : UInt8 := 0x2C

def lineFeed : UInt8 := 0x0A

def carriageReturn : UInt8 := 0x0D

def endsLine (b : UInt8) : Bool := b == lineFeed || b == carriageReturn

inductive Phase where
  | betweenRecords
  | cellStart
  | bare
  | quoted
  | afterQuote
  deriving DecidableEq, Repr

/-- The state of a scan; cell, cells and records are collected in reverse. -/
structure Scan where
  phase : Phase
  cell : Bytes
  cells : List Bytes
  start : Position
  here : Position
  records : List Record

namespace Scan

def begin (here : Position) : Scan := ⟨.betweenRecords, [], [], ⟨0, 1⟩, here, []⟩

def push (s : Scan) (phase : Phase) (b : UInt8) : Scan :=
  { s with phase := phase, cell := b :: s.cell }

def endCell (s : Scan) : Scan :=
  { s with phase := .cellStart, cell := [], cells := s.cell.reverse :: s.cells }

def endRecord (s : Scan) : Scan :=
  { s with
    phase := .betweenRecords
    cell := []
    cells := []
    start := s.here
    records := ⟨s.start, (s.cell.reverse :: s.cells).reverse⟩ :: s.records }

def plain (s : Scan) (b : UInt8) : Scan :=
  if b = comma then s.endCell else if endsLine b then s.endRecord else s.push .bare b

def first (s : Scan) (b : UInt8) : Scan :=
  if b = quote then { s with phase := .quoted } else s.plain b

def advance (p : Position) (b : UInt8) : Position :=
  ⟨p.byte + 1, if b = lineFeed then p.line + 1 else p.line⟩

def step (s : Scan) (b : UInt8) : Scan :=
  let s := { s with here := advance s.here b }
  match s.phase with
  | .betweenRecords => if endsLine b then s else s.first b
  | .cellStart => s.first b
  | .bare => s.plain b
  | .quoted => if b = quote then { s with phase := .afterQuote } else s.push .quoted b
  | .afterQuote => if b = quote then s.push .quoted b else s.plain b

def finish (s : Scan) : List Record :=
  match s.phase with
  | .betweenRecords => s.records.reverse
  | _ => s.endRecord.records.reverse

end Scan

def byteOrderMark : Bytes := [0xEF, 0xBB, 0xBF]

def records (bytes : Bytes) : List Record :=
  if byteOrderMark.isPrefixOf bytes then
    ((bytes.drop 3).foldl Scan.step (.begin ⟨3, 1⟩)).finish
  else (bytes.foldl Scan.step (.begin ⟨0, 1⟩)).finish

/-- A cell that is not UTF-8. `record` counts the header as zero, `field` is the cell's column and
`index` the position in the cell of the first byte that is wrong. -/
structure Fault where
  record : Nat
  start : Position
  field : Nat
  index : Nat
  deriving DecidableEq, Repr

def Fault.message (f : Fault) : Text :=
  let n := Text.ofNat
  "CSV parse error: record ".toList ++ n f.record ++ " (line ".toList ++ n f.start.line ++
    ", field: ".toList ++ n f.field ++ ", byte: ".toList ++ n f.start.byte ++
    "): invalid utf-8: invalid UTF-8 in field ".toList ++ n f.field ++ " near byte index ".toList ++
    n f.index

def decodeCells : Nat → List Bytes → Except (Nat × Nat) (List Text)
  | _, [] => .ok []
  | field, cell :: rest =>
    match Utf8.decode cell with
    | .error index => .error (field, index)
    | .ok text => (decodeCells (field + 1) rest).map (text :: ·)

def Record.texts (r : Record) (number : Nat) : Except Fault (List Text) :=
  match decodeCells 0 r.cells with
  | .ok texts => .ok texts
  | .error (field, index) => .error ⟨number, r.start, field, index⟩

end StockScreen.Csv
