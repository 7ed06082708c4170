import StockScreen.Dataset.Load
import StockScreen.Service.Address

namespace StockScreen

open Utf8 (Bytes)

/-- Why no service starts. `wildcardOrigin` is an abort and has no message of its own. -/
inductive StartError where
  | dataset (cause : DatasetError)
  | invalidOrigin (origin : Text)
  | wildcardOrigin
  | cannotBind (address : Address) (reason : Text)
  | cannotServe (reason : Text)
  deriving DecidableEq

def StartError.message : StartError → Text
  | dataset cause => cause.message
  | invalidOrigin origin =>
    "allowed origin '".toList ++ origin ++ "' is not a valid header value".toList
  | wildcardOrigin => []
  | cannotBind address reason => "failed to bind ".toList ++ address.text ++ ": ".toList ++ reason
  | cannotServe reason => "server error: ".toList ++ reason

namespace Origin

def isHeaderByte (b : UInt8) : Bool := b == 0x09 || (decide (0x20 ≤ b) && b != 0x7F)

def isHeaderValue (origin : Text) : Bool := (Utf8.encode origin).all isHeaderByte

def wildcard : Text := ['*']

def defaults : List Text :=
  ["http://localhost:3000".toList, "https://hidden-alpha-v0.vercel.app".toList]

/-- A wildcard that is met once all origins are known to be header values is not refused: building
the service aborts on it. -/
def check (origins : List Text) : Except StartError Unit :=
  match origins.find? fun origin => !isHeaderValue origin with
  | some origin => .error (.invalidOrigin origin)
  | none => if origins.contains wildcard then .error .wildcardOrigin else .ok ()

def granted? (origins : List Text) (value : Bytes) : Option Text :=
  origins.find? fun origin => Utf8.encode origin == value

end Origin

end StockScreen
