import StockScreen.CommandLine.Usage
import StockScreen.Text.Quoted

namespace StockScreen

inductive Severity where
  | error
  | warn
  | info
  | debug
  deriving DecidableEq, Repr

inductive Event where
  | rowSkipped (row : SkippedRow)
  | datasetLoaded (path : Text) (loaded skipped : Nat)
  | segmentDropped (segment : Dropped)
  | listening (address : Address)
  | shutdownRequested
  | stopped
  deriving DecidableEq, Repr

def Severity.rank : Severity → Nat
  | error => 1
  | warn => 2
  | info => 3
  | debug => 4

def Severity.name : Severity → Text
  | error => "ERROR".toList
  | warn => "WARN".toList
  | info => "INFO".toList
  | debug => "DEBUG".toList

def SkipReason.logText : SkipReason → Text
  | .tooFewColumns found =>
    "TooFewColumns \x7b found: ".toList ++ Text.ofNat found ++ " \x7d".toList
  | .invalidMarketCap value =>
    "InvalidMarketCap \x7b value: ".toList ++ Text.quoted value ++ " \x7d".toList

namespace Event

def severity : Event → Severity
  | rowSkipped _ => .warn
  | segmentDropped _ => .debug
  | _ => .info

def text : Event → Text
  | rowSkipped s =>
    "skipping dataset row row=".toList ++ Text.ofNat s.row ++ " reason=".toList ++ s.reason.logText
  | datasetLoaded path loaded skipped =>
    "stock dataset loaded path=".toList ++ path ++ " loaded=".toList ++ Text.ofNat loaded ++
      " skipped=".toList ++ Text.ofNat skipped
  | segmentDropped d =>
    "dropping query segment segment=".toList ++ Text.quoted d.segment ++ " reason=".toList ++
      d.reason.name
  | listening address => "server listening addr=".toList ++ address.text
  | shutdownRequested => "shutdown requested".toList
  | stopped => "server stopped".toList

def line (stamp : Text) (e : Event) : Text :=
  stamp ++ ' ' :: Text.padLeft 5 e.severity.name ++ ' ' :: e.text

end Event

abbrev Verbosity := Option Severity

def Verbosity.shows (v : Verbosity) (e : Event) : Bool :=
  match v with
  | none => false
  | some least => decide (e.severity.rank ≤ least.rank)

/-- Every verbosity has a number too, and the empty name stands for errors only. -/
def Verbosity.names : List (Text × Verbosity) :=
  [("off".toList, none), ("error".toList, some .error), ("warn".toList, some .warn),
    ("info".toList, some .info), ("debug".toList, some .debug), ("trace".toList, some .debug),
    ([], some .error), (['0'], none), (['1'], some .error), (['2'], some .warn),
    (['3'], some .info), (['4'], some .debug), (['5'], some .debug)]

def Verbosity.ofText? (t : Text) : Option Verbosity := names.lookup (t.map Char.toLower)

def Verbosity.default : Action → Verbosity
  | .serve _ _ => some .info
  | _ => some .warn

end StockScreen
