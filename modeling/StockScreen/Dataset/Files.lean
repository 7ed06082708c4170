import StockScreen.Text.Basic
import StockScreen.Text.Utf8

namespace StockScreen

open Utf8 (Bytes)

inductive FileFault where
  | notFound
  | permissionDenied
  | notDirectory
  | isDirectory
  | nameTooLong
  | containsNul
  | other (description : Text)
  deriving DecidableEq, Repr

def FileFault.message : FileFault → Text
  | notFound => "No such file or directory (os error 2)".toList
  | permissionDenied => "Permission denied (os error 13)".toList
  | notDirectory => "Not a directory (os error 20)".toList
  | isDirectory => "Is a directory (os error 21)".toList
  | nameTooLong => "File name too long (os error 36)".toList
  | containsNul => "file name contained an unexpected NUL byte".toList
  | other description => description

/-- What opening a path gives; a directory opens but cannot be read. -/
inductive Opened where
  | file (bytes : Bytes)
  | directory
  deriving DecidableEq, Repr

abbrev Files := Text → Except FileFault Opened

abbrev Folder := List (Text × Bytes)

namespace Folder

inductive Place where
  | inside
  | beyond
  | at (bytes : Bytes)

def nameLimit : Nat := 255

def pathLimit : Nat := 4095

def isTooLong (limit : Nat) (t : Text) : Bool := decide (limit < (Utf8.encode t).length)

def walk (folder : Folder) : Place → List Text → Except FileFault Opened
  | .at bytes, [] => .ok (.file bytes)
  | .at _, _ :: _ => .error .notDirectory
  | _, [] => .ok .directory
  | .inside, name :: rest =>
    if name = [] ∨ name = ['.'] then walk folder .inside rest
    else if name = ['.', '.'] then walk folder .beyond rest
    else if isTooLong nameLimit name then .error .nameTooLong
    else
      match folder.lookup name with
      | some bytes => walk folder (.at bytes) rest
      | none => .error .notFound
  | .beyond, name :: rest =>
    if name = [] ∨ name = ['.'] ∨ name = ['.', '.'] then walk folder .beyond rest
    else if isTooLong nameLimit name then .error .nameTooLong
    else .error .notFound

def files (folder : Folder) : Files := fun path =>
  if path.contains '\x00' then .error .containsNul
  else if isTooLong pathLimit path then .error .nameTooLong
  else
    match path with
    | [] => .error .notFound
    | '/' :: _ => walk folder .beyond (Text.splitAtChar '/' path)
    | _ => walk folder .inside (Text.splitAtChar '/' path)

end Folder

end StockScreen
