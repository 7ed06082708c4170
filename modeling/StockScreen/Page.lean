import StockScreen.Binary64.Layout
import StockScreen.Stock

namespace StockScreen.Page

def escapeChar (c : Char) : Text :=
  if c = '&' then "&amp;".toList
  else if c = '<' then "&lt;".toList
  else if c = '>' then "&gt;".toList
  else if c = '"' then "&quot;".toList
  else if c = '\'' then "&#39;".toList
  else [c]

def escape (t : Text) : Text := t.flatMap escapeChar

def head : Text :=
  "<!DOCTYPE html>\n<html>\n<head>\n<meta charset=\"utf-8\">\n<title>Stocks</title>\n</head>\n<body>\n".toList

def foot : Text := "</tbody>\n</table>\n</body>\n</html>\n".toList

def echo : Option Text → Text
  | none => []
  | some query =>
    "<p>Query: <code>".toList ++ escape query ++ "</code></p>\n".toList

def count (n : Nat) : Text := "<p>".toList ++ Text.ofNat n ++ " stocks</p>\n".toList

def heading (t : Text) : Text := "<th>".toList ++ escape t ++ "</th>".toList

def headings : Text :=
  "<table>\n<thead>\n<tr>".toList ++ (Stock.nameKey :: Field.all.map Field.name).flatMap heading ++
    "</tr>\n</thead>\n<tbody>\n".toList

def cell (t : Text) : Text := "<td>".toList ++ t ++ "</td>".toList

def row (s : Stock) : Text :=
  "<tr>".toList ++ cell (escape s.name) ++ s.values.flatMap (fun x => cell x.plain) ++
    "</tr>\n".toList

def render (stocks : List Stock) (query : Option Text) : Text :=
  head ++ echo query ++ count stocks.length ++ headings ++ stocks.flatMap row ++ foot

end StockScreen.Page
