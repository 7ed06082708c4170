import StockScreen.Page
import StockScreen.Service.FilterRequest
import StockScreen.Service.Message
import StockScreen.Service.Origin

namespace StockScreen

open Utf8 (Bytes)

structure Service where
  dataset : Dataset
  origins : List Text
  deriving DecidableEq

namespace Service

def version : Text := "0.1.0".toList

def start (origins : List Text) (dataset : Dataset) : Except StartError Service :=
  (Origin.check origins).map fun _ => ⟨dataset, origins⟩

/-- Loads the dataset before the origins are looked at. -/
def startPath (files : Files) (path : Text) (origins : List Text) : Except StartError Service :=
  match Dataset.ofPath files path with
  | .error e => .error (.dataset e)
  | .ok dataset => start origins dataset

structure Answer where
  status : Nat
  contentType : Option Text
  body : Text
  deriving DecidableEq

inductive Rejection where
  | invalidRequest
  | internal
  deriving DecidableEq, Repr

def documentType : Text := "application/json".toList

def pageType : Text := "text/html; charset=utf-8".toList

def plainType : Text := "text/plain; charset=utf-8".toList

def Answer.ofDocument (status : Nat) (document : Json) : Answer :=
  ⟨status, some documentType, document.compact⟩

def Answer.empty (status : Nat) : Answer := ⟨status, none, []⟩

def errorDocument (message : Text) : Json := .object [("error".toList, .string message)]

def Rejection.answer : Rejection → Answer
  | invalidRequest => .ofDocument 400 (errorDocument "Invalid request".toList)
  | internal => .ofDocument 500 (errorDocument "Internal error".toList)

def isVisible (b : UInt8) : Bool := b == 0x09 || (decide (0x20 ≤ b) && decide (b < 0x7F))

def mentionsPage (value : Bytes) : Bool :=
  value.all isVisible && occursIn ("text/html".toList.map Char.toUInt8) value

def wantsPage (r : Request) : Bool := (r.headerValues "accept".toList).any mentionsPage

def answerStocks (r : Request) (stocks : List Stock) (query : Option Text) : Answer :=
  if wantsPage r then ⟨200, some pageType, Page.render stocks query⟩
  else .ofDocument 200 (stocksDocument stocks)

def bodyLimit : Nat := 2097152

def tooLarge : Answer :=
  ⟨413, some plainType, "Failed to buffer the request body: length limit exceeded".toList⟩

def answerFilter (service : Service) (r : Request) : Answer :=
  if bodyLimit < r.body.length then tooLarge
  else
    match FilterRequest.ofBody r.body with
    | .error _ => Rejection.invalidRequest.answer
    | .ok query => answerStocks r (service.dataset.screen query) (some query)

def healthDocument (stocks : Nat) : Json :=
  .object [("status".toList, .string "ok".toList), ("version".toList, .string version),
    ("stocks".toList, .count stocks)]

inductive Route where
  | stocks
  | filter
  | health
  deriving DecidableEq, Repr

def Route.ofPath? (path : Text) : Option Route :=
  if path = "/stocks".toList then some .stocks
  else if path = "/filter".toList then some .filter
  else if path = "/health".toList then some .health
  else none

def Route.allowed : Route → Text
  | .filter => "POST".toList
  | _ => "GET,HEAD".toList

def Route.accepts (route : Route) (method : Text) : Bool :=
  match route with
  | .filter => method == "POST".toList
  | _ => method == "GET".toList || method == "HEAD".toList

def Route.answer (service : Service) (r : Request) : Route → Answer
  | .stocks => answerStocks r service.dataset.stocks none
  | .filter => answerFilter service r
  | .health => .ofDocument 200 (healthDocument service.dataset.stocks.length)

def byteLength (t : Text) : Nat := (Utf8.encode t).length

def originHeaders (service : Service) (r : Request) : List (Text × Text) :=
  match (r.headerValues "origin".toList).head?.bind (Origin.granted? service.origins) with
  | some origin => [("access-control-allow-origin".toList, origin)]
  | none => []

def credentialsHeader : Text × Text := ("access-control-allow-credentials".toList, "true".toList)

def varyHeader : Text × Text :=
  ("vary".toList, "origin, access-control-request-method, access-control-request-headers".toList)

def lengthHeader (body : Text) : Text × Text :=
  ("content-length".toList, Text.ofNat (byteLength body))

def allowHeaders : Option Route → List (Text × Text)
  | some route => [("allow".toList, route.allowed)]
  | none => []

/-- A request for permission is answered by the same list whatever it asks. -/
def answerPreflight (service : Service) (r : Request) : Response :=
  ⟨200,
    credentialsHeader :: ("access-control-allow-headers".toList, "origin,content-type,accept".toList)
      :: ("access-control-allow-methods".toList, "GET,POST,OPTIONS".toList)
      :: originHeaders service r ++ allowHeaders (Route.ofPath? r.path)
      ++ [lengthHeader [], varyHeader],
    []⟩

def Answer.response (a : Answer) (service : Service) (r : Request) (allow : List (Text × Text)) :
    Response :=
  let contentType := match a.contentType with
    | some t => [("content-type".toList, t)]
    | none => []
  ⟨a.status,
    credentialsHeader :: originHeaders service r ++ allow ++ lengthHeader a.body :: contentType
      ++ [varyHeader],
    if r.method = "HEAD".toList then [] else a.body⟩

def respond (service : Service) (r : Request) : Response :=
  if r.method = "OPTIONS".toList then answerPreflight service r
  else
    match Route.ofPath? r.path with
    | none => (Answer.empty 404).response service r []
    | some route =>
      if route.accepts r.method then (route.answer service r).response service r []
      else (Answer.empty 405).response service r (allowHeaders (some route))

end Service

end StockScreen
