import StockScreen.Json.Value
import StockScreen.Query.Report

namespace StockScreen

def Stock.document (s : Stock) : Json :=
  .object ((Stock.nameKey, .string s.name) ::
    Field.all.map fun field => (field.name, .number (s.value field)))

def stocksDocument (stocks : List Stock) : Json := .array (stocks.map Stock.document)

def fieldKey : Text := "field".toList

def operatorKey : Text := "operator".toList

def valueKey : Text := "value".toList

def Condition.members (c : Condition) : List (Text × Json) :=
  [(fieldKey, .string c.field), (operatorKey, .string c.operator.symbol),
    (valueKey, .number c.threshold)]

def Condition.document (c : Condition) : Json := .object c.members

def Query.document (q : Query) : Json := .array (q.map Condition.document)

def DropReason.key : DropReason → Text
  | .noOperator => "no_operator".toList
  | .repeatedOperator => "repeated_operator".toList
  | .invalidValue => "invalid_value".toList

def Dropped.document (d : Dropped) : Json :=
  .object [("segment".toList, .string d.segment), ("reason".toList, .string d.reason.key)]

def Report.document (r : Report) : Json :=
  .object [("query".toList, r.query.document), ("dropped".toList, .array (r.dropped.map
    Dropped.document))]

end StockScreen
