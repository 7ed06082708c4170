import StockScreen.CommandLine.Arguments
import StockScreen.CommandLine.Help
import StockScreen.Program.Log
import StockScreen.Service.Routes

namespace StockScreen

/-- Why a command failed. `columnTooWide` is an abort, as a wildcard among the origins is. -/
inductive Failure where
  | dataset (cause : DatasetError)
  | serialization (reason : Text)
  | server (cause : StartError)
  | output (reason : Text)
  | columnTooWide
  deriving DecidableEq

namespace Failure

def message : Failure → Text
  | dataset cause => cause.message
  | serialization reason => reason
  | server cause => cause.message
  | output reason => reason
  | columnTooWide => []

/-- The line that tells of a failure; what an abort prints is not of the program's own making. -/
def line? : Failure → Option Text
  | server .wildcardOrigin | columnTooWide => none
  | failure => some ("error: ".toList ++ failure.message)

def exitCode : Failure → Nat
  | dataset _ => 3
  | serialization _ => 4
  | server .wildcardOrigin => 101
  | server _ => 6
  | output _ => 10
  | columnTooWide => 101

def emptyDocument : Failure :=
  .serialization "EOF while parsing a value at line 1 column 0".toList

def ofStart : StartError → Failure
  | .dataset cause => .dataset cause
  | cause => .server cause

end Failure

inductive Sink where
  | ready
  | full
  | closed
  deriving DecidableEq, Repr

def Sink.refusal? : Sink → Option Text
  | .ready => none
  | .full => some "No space left on device (os error 28)".toList
  | .closed => some "Broken pipe (os error 32)".toList

/-- The surroundings of a run. `bind` tells why an address cannot be listened on, if it cannot;
a service runs until it is interrupted. -/
structure World where
  files : Files
  environment : Environment
  bind : Address → Except Text Unit
  sink : Sink

structure Execution where
  events : List Event
  result : Except Failure (Option Listing)

namespace Execution

def loadEvents (path : Text) (l : Loading) : List Event :=
  l.skipped.map Event.rowSkipped ++
    match Dataset.ofLoading l with
    | .ok d => [.datasetLoaded path d.report.loaded d.skipped.length]
    | .error _ => []

def queryEvents (text : Text) : List Event :=
  (Report.ofText text).dropped.map Event.segmentDropped

def withDataset (files : Files) (path : Text) (query : List Event) (list : Dataset → Listing) :
    Execution :=
  let l := Dataset.loadingPath files path
  match Dataset.ofLoading l with
  | .error e => ⟨loadEvents path l, .error (.dataset e)⟩
  | .ok d => ⟨loadEvents path l ++ query, .ok (some (list d))⟩

def grantedOrigins (origins : List Text) : List Text :=
  if origins.isEmpty then Origin.defaults else origins

def closing : List Event := [.shutdownRequested, .stopped]

def serve (world : World) (path : Text) (address : Address) (origins : List Text) : Execution :=
  let events := loadEvents path (Dataset.loadingPath world.files path)
  match Service.startPath world.files path (grantedOrigins origins) with
  | .error e => ⟨events, .error (.ofStart e)⟩
  | .ok _ =>
    match world.bind address with
    | .error reason => ⟨events, .error (.ofStart (.cannotBind address reason))⟩
    | .ok () => ⟨events ++ .listening address :: closing, .ok none⟩

def run (world : World) (i : Invocation) : Execution :=
  match i.action with
  | .serve address origins => serve world i.dataset address origins
  | .stocks => withDataset world.files i.dataset [] Listing.all
  | .filter query =>
    withDataset world.files i.dataset (queryEvents query) fun d => Listing.filter d query
  | .parse query => ⟨queryEvents query, .ok (some (Listing.parse query))⟩
  | .fields => ⟨[], .ok (some Listing.fields)⟩

end Execution

structure Outcome where
  exit : Nat
  output : Text
  warnings : List Text
  failure : Option Failure

namespace Outcome

def failed (failure : Failure) (warnings : List Text) : Outcome :=
  ⟨failure.exitCode, [], warnings, some failure⟩

def write (sink : Sink) (text : Text) (warnings : List Text) : Outcome :=
  match sink.refusal? with
  | none => ⟨0, text, warnings, none⟩
  | some reason => if text.isEmpty then ⟨0, [], warnings, none⟩ else failed (.output reason) warnings

def ofExecution (sink : Sink) (i : Invocation) (e : Execution) : Outcome :=
  match e.result with
  | .error failure => failed failure []
  | .ok none => ⟨0, [], [], none⟩
  | .ok (some listing) =>
    let warnings := listing.warnings.map ("warning: ".toList ++ ·)
    match listing.content.text? i.format i.pretty with
    | some text => write sink text warnings
    | none => failed .columnTooWide warnings

def run (world : World) (i : Invocation) : Outcome :=
  ofExecution world.sink i (Execution.run world i)

end Outcome

def logVariable : Text := "RUST_LOG".toList

def verbosity (world : World) (action : Action) : Verbosity :=
  ((world.environment logVariable).bind Verbosity.ofText?).getD (.default action)

def logLines (world : World) (stamp : Text) (action : Action) (events : List Event) : List Text :=
  (events.filter (verbosity world action).shows).map (Event.line stamp)

structure Transcript where
  exit : Nat
  output : Text
  errors : Text

namespace Transcript

def usageCode : Nat := 2

def versionText : Text := "screener ".toList ++ Service.version ++ ['\n']

def printed (sink : Sink) (text : Text) : Transcript :=
  ⟨0, if sink.refusal?.isSome then [] else text, []⟩

/-- A call that asks for nothing is told how to ask. The texts of the other usage errors are left
out. -/
def ofStop (world : World) : Stop → Transcript
  | .usage .nothingAsked => ⟨usageCode, [], Help.text world.environment .program false⟩
  | .usage _ => ⟨usageCode, [], []⟩
  | .help topic long => printed world.sink (Help.text world.environment topic long)
  | .version => printed world.sink versionText

def run (world : World) (stamp : Text) (arguments : List Text) : Transcript :=
  match Arguments.read world.environment arguments with
  | .error stop => ofStop world stop
  | .ok i =>
    let outcome := Outcome.run world i
    let last := (outcome.failure.bind Failure.line?).toList
    ⟨outcome.exit, outcome.output,
      Text.ofLines (logLines world stamp i.action (Execution.run world i).events ++ outcome.warnings ++ last)⟩

end Transcript

end StockScreen
