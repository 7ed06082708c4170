import StockScreen.Binary64.Literal
import StockScreen.Query.Condition

namespace StockScreen

inductive DropReason where
  | noOperator
  | repeatedOperator
  | invalidValue
  deriving DecidableEq, Repr

structure Dropped where
  segment : Text
  reason : DropReason
  deriving DecidableEq, Repr

structure Report where
  query : Query
  dropped : List Dropped
  deriving DecidableEq

namespace Report

/-- A threshold is any number that is written as one; a decimal beyond the range of numbers is
none, although its nearest value is infinity. -/
def threshold? (text : Text) : Option Binary64 :=
  match Literal.read? text with
  | none => none
  | some l =>
    if l.value.isInfinite && !decide (l.body = .infinity) then none else some l.value

def readSegment (segment : Text) : Except DropReason Condition :=
  match Operator.detect? segment with
  | none => .error .noOperator
  | some op =>
    match Text.split op.symbol segment with
    | [field, value] =>
      match threshold? value.trim with
      | some threshold => .ok ⟨field.trim, op, threshold⟩
      | none => .error .invalidValue
    | _ => .error .repeatedOperator

def segments (text : Text) : List Text := (Text.split Query.conjunction text).map Text.trim

def kept? (segment : Text) : Option Condition := (readSegment segment).toOption

def dropped? (segment : Text) : Option Dropped :=
  match readSegment segment with
  | .ok _ => none
  | .error reason => some ⟨segment, reason⟩

def ofText (text : Text) : Report :=
  ⟨(segments text).filterMap kept?, (segments text).filterMap dropped?⟩

end Report

def Query.ofText (text : Text) : Query := (Report.ofText text).query

end StockScreen
