import StockScreen.Document.Write
import StockScreen.Json.Shape
import StockScreen.Json.Skip

/-!
Reading documents back. A stock must have its name and every metric once and nothing else. A
condition may also be an array, and its object may have other keys, which are passed over.
-/

namespace StockScreen

open Utf8 (Bytes)
open Json

def aText : Text := "a string".toList

def aNumber : Text := "f64".toList

/-- One of a list of names, as a text or as the only key of an object whose value is null. -/
def readName {α : Type} (names : List (Text × α)) : Reader α := fun bytes =>
  let choose (name : Text) : Except ReadError α :=
    match names.lookup name with
    | some x => .ok x
    | none => .error (.mismatch (.unknownName name (names.map Prod.fst)))
  match skipBlanks bytes with
  | [] => .error .endsEarly
  | b :: rest =>
    if isByte '"' b then do
      let (name, rest) ← readString rest
      let x ← choose name
      return (x, rest)
    else if isByte '\x7b' b then do
      let rest ← expectMark '"' rest
      let (name, rest) ← readString rest
      let x ← choose name
      let rest ← expectMark ':' rest
      let (_, rest) ← readNull "unit".toList rest
      let rest ← expectMark '\x7d' rest
      return (x, rest)
    else .error .malformed

def Field.names : List (Text × Field) := Field.all.map fun field => (field.name, field)

def Field.fromDocument : Reader Field := readName Field.names

def Operator.names : List (Text × Operator) := Operator.priority.map fun op => (op.symbol, op)

def Operator.fromDocument : Reader Operator := readName Operator.names

structure PartialStock where
  name : Option Text
  values : List (Field × Binary64)

namespace PartialStock

def member (s : PartialStock) (key : Text) : Reader PartialStock := fun bytes =>
  if key = Stock.nameKey then
    if s.name.isSome then .error (.mismatch (.duplicateKey key))
    else do
      let (name, rest) ← memberValue (readText aText) bytes
      return ({ s with name := some name }, rest)
  else
    match Field.named? key with
    | none => .error (.mismatch (.unknownKey key))
    | some field =>
      if (s.values.lookup field).isSome then .error (.mismatch (.duplicateKey key))
      else do
        let (x, rest) ← memberValue (readNumber aNumber) bytes
        return ({ s with values := (field, x) :: s.values }, rest)

/-- The first thing that is missing is reported, the name before the fields in their order. -/
def complete (s : PartialStock) : Except ReadError Stock :=
  match s.name with
  | none => .error (.mismatch (.missingKey Stock.nameKey))
  | some name =>
    match Field.all.find? fun field => (s.values.lookup field).isNone with
    | some field => .error (.mismatch (.missingKey field.name))
    | none => .ok (Stock.ofValues name fun field => (s.values.lookup field).getD .zero)

end PartialStock

def Stock.fromDocument : Reader Stock := fun bytes =>
  match skipBlanks bytes with
  | [] => .error .endsEarly
  | b :: rest =>
    if isByte '\x7b' b then do
      let (s, rest) ← readMembers PartialStock.member ⟨none, []⟩ rest
      let stock ← s.complete
      return (stock, rest)
    else .error (mismatch "a stock record keyed by display field names".toList b rest)

def stocksFromDocument : Reader (List Stock) := readArray Stock.fromDocument

structure PartialCondition where
  field : Option Text
  operator : Option Operator
  threshold : Option Binary64

namespace PartialCondition

def member (c : PartialCondition) (key : Text) : Reader PartialCondition := fun bytes =>
  if key = fieldKey then
    if c.field.isSome then .error (.mismatch (.duplicateKey key))
    else do
      let (field, rest) ← memberValue (readText aText) bytes
      return ({ c with field := some field }, rest)
  else if key = operatorKey then
    if c.operator.isSome then .error (.mismatch (.duplicateKey key))
    else do
      let (op, rest) ← memberValue Operator.fromDocument bytes
      return ({ c with operator := some op }, rest)
  else if key = valueKey then
    if c.threshold.isSome then .error (.mismatch (.duplicateKey key))
    else do
      let (x, rest) ← memberValue (readNumber aNumber) bytes
      return ({ c with threshold := some x }, rest)
  else do
    let rest ← expectMark ':' bytes
    let rest ← skipValue rest
    return (c, rest)

def complete (c : PartialCondition) : Except ReadError Condition :=
  match c.field, c.operator, c.threshold with
  | some field, some op, some x => .ok ⟨field, op, x⟩
  | none, _, _ => .error (.mismatch (.missingKey fieldKey))
  | _, none, _ => .error (.mismatch (.missingKey operatorKey))
  | _, _, none => .error (.mismatch (.missingKey valueKey))

end PartialCondition

def readItem {α : Type} (position : Nat) (expected : Text) (read : Reader α) : Reader α :=
  fun bytes =>
    match nextItem (position = 0) bytes with
    | .error e => .error e
    | .ok none => .error (.mismatch (.tooShort position expected))
    | .ok (some bytes) => read bytes

def Condition.fromItems : Reader Condition := fun bytes => do
  let expected := "struct Condition with 3 elements".toList
  let (field, rest) ← readItem 0 expected (readText aText) bytes
  let (op, rest) ← readItem 1 expected Operator.fromDocument rest
  let (x, rest) ← readItem 2 expected (readNumber aNumber) rest
  let rest ← closeArray rest
  return (⟨field, op, x⟩, rest)

def Condition.fromDocument : Reader Condition := fun bytes =>
  match skipBlanks bytes with
  | [] => .error .endsEarly
  | b :: rest =>
    if isByte '[' b then Condition.fromItems rest
    else if isByte '\x7b' b then do
      let (c, rest) ← readMembers PartialCondition.member ⟨none, none, none⟩ rest
      let condition ← c.complete
      return (condition, rest)
    else .error (mismatch "struct Condition".toList b rest)

def Query.fromDocument : Reader Query := readArray Condition.fromDocument

end StockScreen
