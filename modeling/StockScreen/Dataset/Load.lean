import StockScreen.Csv.Record
import StockScreen.Dataset.Files
import StockScreen.Query.Report

namespace StockScreen

open Utf8 (Bytes)

inductive SkipReason where
  | tooFewColumns (found : Nat)
  | invalidMarketCap (value : Text)
  deriving DecidableEq, Repr

/-- Rows count from one, the header not among them. -/
structure SkippedRow where
  row : Nat
  reason : SkipReason
  deriving DecidableEq, Repr

namespace Row

def cell (cells : List Text) (field : Field) : Text := (cells.getD (field.index + 1) []).trim

def metric (cells : List Text) (field : Field) : Binary64 :=
  (Binary64.ofText? (cell cells field)).getD .zero

def read (cells : List Text) : Except SkipReason Stock :=
  if cells.length < 10 then .error (.tooFewColumns cells.length)
  else if (Binary64.ofText? (cell cells .marketCap)).isNone then
    .error (.invalidMarketCap (cell cells .marketCap))
  else .ok (Stock.ofValues (cells.headD []) (metric cells))

end Row

structure LoadReport where
  loaded : Nat
  skipped : List SkippedRow
  deriving DecidableEq, Repr

structure Dataset where
  stocks : List Stock
  report : LoadReport
  deriving DecidableEq

inductive MalformedCsv where
  | encoding (fault : Csv.Fault)
  | unreadable (fault : FileFault)
  deriving DecidableEq, Repr

inductive DatasetError where
  | cannotOpen (path : Text) (fault : FileFault)
  | malformed (cause : MalformedCsv)
  | missingHeader
  deriving DecidableEq, Repr

def MalformedCsv.message : MalformedCsv → Text
  | encoding fault => fault.message
  | unreadable fault => fault.message

def DatasetError.message : DatasetError → Text
  | cannotOpen path fault =>
    "failed to open dataset '".toList ++ path ++ "': ".toList ++ fault.message
  | malformed cause => "malformed csv: ".toList ++ cause.message
  | missingHeader => "dataset has no header row".toList

structure Loading where
  skipped : List SkippedRow
  result : Except DatasetError (List Stock)

namespace Dataset

def ofStocks (stocks : List Stock) : Dataset := ⟨stocks, ⟨stocks.length, []⟩⟩

def skipped (d : Dataset) : List SkippedRow := d.report.skipped

def skip? : Except SkipReason Stock × Nat → Option SkippedRow
  | (.error reason, row) => some ⟨row, reason⟩
  | (.ok _, _) => none

def skippedRows (outcomes : List (Except SkipReason Stock)) : List SkippedRow :=
  (outcomes.zipIdx 1).filterMap skip?

def textRows (rows : List Csv.Record) : List (Except Csv.Fault (List Text)) :=
  (rows.zipIdx 1).map fun (record, number) => record.texts number

def outcomes (rows : List Csv.Record) : List (Except SkipReason Stock) :=
  (((textRows rows).takeWhile Except.isOk).filterMap Except.toOption).map Row.read

def fault? (rows : List Csv.Record) : Option Csv.Fault :=
  (textRows rows).findSome? fun
    | .error fault => some fault
    | .ok _ => none

def loading (bytes : Bytes) : Loading :=
  match Csv.records bytes with
  | [] => ⟨[], .error .missingHeader⟩
  | header :: rows =>
    match header.texts 0 with
    | .error fault => ⟨[], .error (.malformed (.encoding fault))⟩
    | .ok _ =>
      match fault? rows with
      | some fault => ⟨skippedRows (outcomes rows), .error (.malformed (.encoding fault))⟩
      | none => ⟨skippedRows (outcomes rows), .ok ((outcomes rows).filterMap Except.toOption)⟩

def ofLoading (l : Loading) : Except DatasetError Dataset :=
  l.result.map fun stocks => ⟨stocks, ⟨stocks.length, l.skipped⟩⟩

def ofBytes (bytes : Bytes) : Except DatasetError Dataset := ofLoading (loading bytes)

def loadingPath (files : Files) (path : Text) : Loading :=
  match files path with
  | .error fault => ⟨[], .error (.cannotOpen path fault)⟩
  | .ok .directory => ⟨[], .error (.malformed (.unreadable .isDirectory))⟩
  | .ok (.file bytes) => loading bytes

def ofPath (files : Files) (path : Text) : Except DatasetError Dataset :=
  ofLoading (loadingPath files path)

def screen (d : Dataset) (text : Text) : List Stock := (Query.ofText text).screen d.stocks

end Dataset

end StockScreen
