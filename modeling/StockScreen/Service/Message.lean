import StockScreen.Text.Basic
import StockScreen.Text.Utf8

namespace StockScreen

open Utf8 (Bytes)

structure Request where
  method : Text
  target : Text
  headers : List (Text × Bytes)
  body : Bytes
  deriving DecidableEq

structure Response where
  status : Nat
  headers : List (Text × Text)
  body : Text
  deriving DecidableEq

namespace Request

def lower (t : Text) : Text := t.map Char.toLower

def headerValues (r : Request) (name : Text) : List Bytes :=
  r.headers.filterMap fun (key, value) => if lower key = name then some value else none

def afterScheme? : Text → Option Text
  | ':' :: '/' :: '/' :: rest => some rest
  | _ :: rest => afterScheme? rest
  | [] => none

def path (r : Request) : Text :=
  let bare := r.target.takeWhile fun c => c != '?' && c != '#'
  match bare with
  | '/' :: _ => bare
  | _ =>
    match afterScheme? bare with
    | none => if bare = ['*'] then bare else []
    | some rest =>
      match rest.dropWhile (· != '/') with
      | [] => ['/']
      | path => path

end Request

namespace Response

def header? (r : Response) (name : Text) : Option Text := r.headers.lookup name

end Response

end StockScreen
