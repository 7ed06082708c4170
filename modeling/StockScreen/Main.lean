import Std.Async.Signal
import Std.Http.Server
import Std.Time
import StockScreen.Program.Run

namespace StockScreen.Shell

def environmentNames : List Text :=
  logVariable :: (settings (some .serve)).filterMap Setting.environmentName?

def readEnvironment : IO Environment := do
  let entries ← environmentNames.filterMapM fun name => do
    let value ← IO.getEnv (String.ofList name)
    return value.map fun value => (name, value.toList)
  return fun name => entries.lookup name

/-- The number of a system error, which some calls give with its sign changed. -/
def errorNumber (code : UInt32) : Nat :=
  if code.toNat < twoPow 31 then code.toNat else twoPow 32 - code.toNat

def faultOf (e : IO.Error) : FileFault :=
  let described := FileFault.other (toString e).toList
  match e with
  | .noFileOrDirectory .. => .notFound
  | .permissionDenied .. => .permissionDenied
  | .inappropriateType _ code _ =>
    if errorNumber code = 20 then .notDirectory
    else if errorNumber code = 21 then .isDirectory
    else described
  | .invalidArgument _ code _ => if errorNumber code = 36 then .nameTooLong else described
  | _ => described

def refusalOf : IO.Error → Text
  | .resourceBusy .. => "Address already in use (os error 98)".toList
  | .unsupportedOperation .. => "Cannot assign requested address (os error 99)".toList
  | e => (faultOf e).message

def openPath (path : Text) : IO (Except FileFault Opened) := do
  if path.contains '\x00' then return .error .containsNul
  try
    let bytes ← IO.FS.readBinFile (String.ofList path)
    return .ok (.file bytes.toList)
  catch e =>
    match faultOf e with
    | .isDirectory => return .ok .directory
    | fault => return .error fault

def stamp : IO Text := do
  let now ← Std.Time.Timestamp.now
  let date := Std.Time.DateTime.ofTimestampWithZone now .UTC
  return (date.format "uuuu-MM-dd'T'HH:mm:ss.SSSSSS'Z'").toList

def worldOf (environment : Environment) (opened : Except FileFault Opened) : World where
  files := fun _ => opened
  environment := environment
  bind := fun _ => .ok ()
  sink := .ready

def put (out : IO.FS.Stream) (t : Text) : IO Unit := do
  out.putStr (String.ofList t)
  out.flush

def finish (world : World) (arguments : List Text) : IO UInt32 := do
  let stamp ← stamp
  let t := Transcript.run world stamp arguments
  let t ← try
      put (← IO.getStdout) t.output
      pure t
    catch e =>
      let sink := match e with
        | .resourceExhausted .. => Sink.full
        | _ => Sink.closed
      pure (Transcript.run { world with sink := sink } stamp arguments)
  put (← IO.getStderr) t.errors
  return UInt32.ofNat t.exit

def socketAddress (address : Address) : Std.Net.SocketAddress :=
  let port := UInt16.ofNat address.port
  match address.host with
  | .four a b c d =>
    .v4 ⟨.ofParts (UInt8.ofNat a) (UInt8.ofNat b) (UInt8.ofNat c) (UInt8.ofNat d), port⟩
  | .six groups _ => .v6 ⟨⟨.ofFn fun k => UInt16.ofNat (groups.getD k 0)⟩, port⟩

def requestOf (head : Std.Http.Request.Head) (body : ByteArray) : Request where
  method := (toString head.method).toList
  target := (toString head.uri).toList
  headers := head.headers.toList.map fun (name, value) =>
    (name.value.toList, value.value.toUTF8.toList)
  body := body.toList

def responseHead (r : Response) : Std.Http.Response.Head where
  status := (Std.Http.Status.ofCode none (UInt16.ofNat r.status)).getD .internalServerError
  headers := r.headers.foldl (fun headers (name, value) =>
    (headers.insert? (String.ofList name) (String.ofList value)).getD headers) .empty

structure Responder where
  service : Service

instance : Std.Http.Server.Handler Responder where
  ResponseBody := Std.Http.Body.Full
  onRequest self request := do
    let body : ByteArray ← request.body.readAll
    let r := self.service.respond (requestOf request.line body)
    let body ← Std.Http.Body.Full.ofByteArray (ByteArray.mk (Utf8.encode r.body).toArray)
    return { line := responseHead r, body := body }

def answer (world : World) (i : Invocation) (server : Std.Http.Server) : IO UInt32 := do
  let events := (Execution.run world i).events
  let errors ← IO.getStderr
  let log (events : List Event) : IO Unit := do
    put errors (Text.ofLines (logLines world (← stamp) i.action events))
  let interrupt ← Std.Async.Signal.Waiter.mk .sigint false
  let interrupted ← interrupt.wait
  log (events.take (events.length - Execution.closing.length))
  let _ ← interrupted.block
  log [.shutdownRequested]
  server.shutdownAndWait.block
  log [.stopped]
  return 0

def serve (world : World) (arguments : List Text) (i : Invocation) (address : Address)
    (origins : List Text) : IO UInt32 := do
  match Service.startPath world.files i.dataset (Execution.grantedOrigins origins) with
  | .error _ => finish world arguments
  | .ok service =>
    match ← (Std.Http.Server.serve (socketAddress address) (Responder.mk service)).block.toBaseIO with
    | .ok server => answer world i server
    | .error e =>
      finish { world with bind := fun _ => .error (refusalOf e) } arguments

def run (arguments : List Text) : IO UInt32 := do
  let environment ← readEnvironment
  let closed := worldOf environment (.error .notFound)
  match Arguments.read environment arguments with
  | .error _ => finish closed arguments
  | .ok i =>
    match i.action with
    | .parse _ | .fields => finish closed arguments
    | .serve address origins =>
      serve (worldOf environment (← openPath i.dataset)) arguments i address origins
    | _ => finish (worldOf environment (← openPath i.dataset)) arguments

end StockScreen.Shell

def main (arguments : List String) : IO UInt32 :=
  StockScreen.Shell.run (arguments.map String.toList)
