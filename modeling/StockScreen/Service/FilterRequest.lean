import StockScreen.Document.Read

/-!
The body of a request to filter: an object whose query is a text or null, an array of at most that
one item, or null. Other keys are passed over, and without a query the empty one is meant.
-/

namespace StockScreen.FilterRequest

open Utf8 (Bytes)
open Json

def queryKey : Text := "query".toList

def readQuery : Reader Text := fun bytes =>
  (readOptional (readText aText) bytes).map fun (q, rest) => (q.getD [], rest)

def member (query : Option Text) (key : Text) : Reader (Option Text) := fun bytes =>
  if key = queryKey then
    if query.isSome then .error (.mismatch (.duplicateKey key))
    else (memberValue readQuery bytes).map fun (q, rest) => (some q, rest)
  else do
    let rest ← expectMark ':' bytes
    let rest ← skipValue rest
    return (query, rest)

def fromItems : Reader Text := fun bytes => do
  match ← nextItem true bytes with
  | none => return ([], ← closeArray bytes)
  | some bytes =>
    let (query, rest) ← readQuery bytes
    return (query, ← closeArray rest)

def reader : Reader Text := fun bytes =>
  match skipBlanks bytes with
  | [] => .error .endsEarly
  | b :: rest =>
    if isByte '[' b then fromItems rest
    else if isByte '\x7b' b then
      (readMembers member none rest).map fun (q, rest) => (q.getD [], rest)
    else .error (mismatch "struct FilterRequest".toList b rest)

def ofBody (body : Bytes) : Except ReadError Text :=
  (readAll (readOptional reader) body).map fun query => query.getD []

end StockScreen.FilterRequest
