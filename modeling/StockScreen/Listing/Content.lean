import StockScreen.Dataset.Load
import StockScreen.Document.Write

namespace StockScreen

inductive Content where
  | stocks (listed : List Stock)
  | report (report : Report)
  | fields (names : List Text)

structure Listing where
  content : Content
  warnings : List Text

def DropReason.name : DropReason → Text
  | .noOperator => "NoOperator".toList
  | .repeatedOperator => "RepeatedOperator".toList
  | .invalidValue => "InvalidValue".toList

namespace Listing

def rowWarning (s : SkippedRow) : Text :=
  "skipped dataset row ".toList ++ Text.ofNat s.row ++ ": ".toList ++
    match s.reason with
    | .tooFewColumns found => "only ".toList ++ Text.ofNat found ++ " columns".toList
    | .invalidMarketCap value => "invalid market capitalization '".toList ++ value ++ ['\'']

def segmentWarning (d : Dropped) : Text :=
  "ignored query segment '".toList ++ d.segment ++ "' (".toList ++ d.reason.name ++ [')']

def fieldWarning (c : Condition) : Text :=
  "unknown field '".toList ++ c.field ++ "' matches no stock".toList

def unknown (q : Query) : List Condition := q.filter fun c => c.known?.isNone

def all (d : Dataset) : Listing := ⟨.stocks d.stocks, d.skipped.map rowWarning⟩

def filter (d : Dataset) (text : Text) : Listing :=
  let report := Report.ofText text
  ⟨.stocks (report.query.screen d.stocks),
    d.skipped.map rowWarning ++ report.dropped.map segmentWarning ++
      (unknown report.query).map fieldWarning⟩

def parse (text : Text) : Listing := ⟨.report (Report.ofText text), []⟩

def fields : Listing := ⟨.fields (Field.all.map Field.name), []⟩

end Listing

def Condition.markedDocument (c : Condition) : Json :=
  .object (c.members ++ [("known_field".toList, .bool c.known?.isSome)])

namespace Content

def lines : Content → List Json
  | stocks listed => listed.map Stock.document
  | report r => r.query.map Condition.markedDocument
  | fields names => names.map Json.string

def document : Content → Json
  | report r =>
    .object [("normalized".toList, .string (Query.text r.query)),
      ("conditions".toList, .array (r.query.map Condition.markedDocument)),
      ("dropped".toList, .array (r.dropped.map Dropped.document))]
  | content => .array content.lines

end Content

end StockScreen
