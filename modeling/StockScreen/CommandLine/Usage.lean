import StockScreen.Listing.Output
import StockScreen.Service.Origin

namespace StockScreen

inductive Command where
  | serve
  | stocks
  | filter
  | parse
  | fields
  deriving DecidableEq, Repr

namespace Command

def all : List Command := [serve, stocks, filter, parse, fields]

def name : Command → Text
  | serve => "serve".toList
  | stocks => "stocks".toList
  | filter => "filter".toList
  | parse => "parse".toList
  | fields => "fields".toList

def named? (text : Text) : Option Command := all.find? fun command => command.name == text

def takesQuery : Command → Bool
  | filter | parse => true
  | _ => false

end Command

abbrev Environment := Text → Option Text

inductive Topic where
  | program
  | command (command : Command)
  | help
  deriving DecidableEq, Repr

inductive UsageError where
  | unknownArgument
  | invalidSubcommand
  | missingSubcommand
  | nothingAsked
  | missingArgument
  | invalidValue
  | refusedValue
  | argumentConflict
  | tooManyValues
  deriving DecidableEq, Repr

inductive Stop where
  | usage (error : UsageError)
  | help (topic : Topic) (long : Bool)
  | version
  deriving DecidableEq, Repr

inductive Action where
  | serve (address : Address) (origins : List Text)
  | stocks
  | filter (query : Text)
  | parse (query : Text)
  | fields
  deriving DecidableEq, Repr

structure Invocation where
  format : Format
  pretty : Bool
  dataset : Text
  action : Action
  deriving DecidableEq, Repr

inductive Setting where
  | format
  | pretty
  | dataset
  | bind
  | allowOrigin
  | help
  | version
  deriving DecidableEq, Repr

namespace Setting

def name : Setting → Text
  | format => "format".toList
  | pretty => "pretty".toList
  | dataset => "dataset".toList
  | bind => "bind".toList
  | allowOrigin => "allow-origin".toList
  | help => "help".toList
  | version => "version".toList

def environmentName? : Setting → Option Text
  | dataset => some "SCREENER_DATASET".toList
  | bind => some "SCREENER_BIND".toList
  | allowOrigin => some "SCREENER_ALLOWED_ORIGINS".toList
  | _ => none

def letter? : Setting → Option Char
  | help => some 'h'
  | version => some 'V'
  | _ => none

def placeholder? : Setting → Option Text
  | format => some "FORMAT".toList
  | dataset => some "DATASET".toList
  | bind => some "BIND".toList
  | allowOrigin => some "ALLOWED_ORIGINS".toList
  | _ => none

end Setting

def Format.names : List (Text × Format) :=
  [("table".toList, .table), ("json".toList, .json), ("ndjson".toList, .lines)]

def defaultDataset : Text := "StockDataset.csv".toList

def defaultAddress : Address := ⟨.four 0 0 0 0, 8080⟩

def settings : Option Command → List Setting
  | none => [.format, .pretty, .dataset, .help, .version]
  | some .serve => [.bind, .format, .allowOrigin, .pretty, .dataset, .help]
  | some _ => [.format, .pretty, .dataset, .help]

end StockScreen
