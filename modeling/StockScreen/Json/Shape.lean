import StockScreen.Json.Numeral

namespace StockScreen.Json

open Utf8 (Bytes)

/-- The fault of a value that begins with `b` where `expected` was to stand. What begins no value
is malformed, and so is a scalar that is not written as one. -/
def mismatch (expected : Text) (b : UInt8) (rest : Bytes) : ReadError :=
  let wrong (found : Found) : ReadError := .mismatch (.wrongKind found expected)
  let after {α : Type} (r : Except ReadError α) (found : α → Found) : ReadError :=
    match r with
    | .ok x => wrong (found x)
    | .error e => e
  if isByte 'n' b then after (expectWord "ull".toList rest) fun _ => .null
  else if isByte 't' b then after (expectWord "rue".toList rest) fun _ => .boolean true
  else if isByte 'f' b then after (expectWord "alse".toList rest) fun _ => .boolean false
  else if startsNumeral b then after (readNumeral b rest) fun (n, _) => n.found
  else if isByte '"' b then after (readString rest) fun (t, _) => .string t
  else if isByte '[' b then wrong .array
  else if isByte '\x7b' b then wrong .object
  else .malformed

def readText (expected : Text) : Reader Text := fun bytes =>
  match skipBlanks bytes with
  | [] => .error .endsEarly
  | b :: rest => if isByte '"' b then readString rest else .error (mismatch expected b rest)

def readNumber (expected : Text) : Reader Binary64 := fun bytes =>
  match skipBlanks bytes with
  | [] => .error .endsEarly
  | b :: rest =>
    if startsNumeral b then (readNumeral b rest).map fun (n, rest) => (n.value, rest)
    else .error (mismatch expected b rest)

def readNull (expected : Text) : Reader Unit := fun bytes =>
  match skipBlanks bytes with
  | [] => .error .endsEarly
  | b :: rest =>
    if isByte 'n' b then (expectWord "ull".toList rest).map ((), ·)
    else .error (mismatch expected b rest)

def readOptional {α : Type} (read : Reader α) : Reader (Option α) := fun bytes =>
  match skipBlanks bytes with
  | b :: rest =>
    if isByte 'n' b then (expectWord "ull".toList rest).map (none, ·)
    else (read (b :: rest)).map fun (x, rest) => (some x, rest)
  | [] => (read []).map fun (x, rest) => (some x, rest)

def expectMark (c : Char) (bytes : Bytes) : Except ReadError Bytes :=
  match skipBlanks bytes with
  | [] => .error .endsEarly
  | b :: rest => if isByte c b then .ok rest else .error .malformed

def nextItem (isFirst : Bool) (bytes : Bytes) : Except ReadError (Option Bytes) :=
  match skipBlanks bytes with
  | [] => .error .endsEarly
  | b :: rest =>
    if isByte ']' b then .ok none
    else if isFirst then .ok (some (b :: rest))
    else if isByte ',' b then
      match skipBlanks rest with
      | [] => .error .endsEarly
      | c :: rest => if isByte ']' c then .error .malformed else .ok (some (c :: rest))
    else .error .malformed

def closeArray (bytes : Bytes) : Except ReadError Bytes := expectMark ']' bytes

def itemsLoop {α : Type} (read : Reader α) : Nat → Bool → List α → Reader (List α)
  | 0, _, _, _ => .error .malformed
  | fuel + 1, isFirst, acc, bytes =>
    match nextItem isFirst bytes with
    | .error e => .error e
    | .ok none => (closeArray bytes).map (acc.reverse, ·)
    | .ok (some bytes) =>
      match read bytes with
      | .error e => .error e
      | .ok (x, rest) => itemsLoop read fuel false (x :: acc) rest

/-- Each item takes at least a byte, so the loop never runs out of steps. -/
def readArray {α : Type} (read : Reader α) : Reader (List α) := fun bytes =>
  match skipBlanks bytes with
  | [] => .error .endsEarly
  | b :: rest =>
    if isByte '[' b then itemsLoop read (rest.length + 1) true [] rest
    else .error (mismatch "a sequence".toList b rest)

def nextKey (isFirst : Bool) (bytes : Bytes) : Except ReadError (Option Bytes) :=
  match skipBlanks bytes with
  | [] => .error .endsEarly
  | b :: rest =>
    if isByte '\x7d' b then .ok none
    else if isFirst then if isByte '"' b then .ok (some rest) else .error .malformed
    else if isByte ',' b then
      match skipBlanks rest with
      | [] => .error .endsEarly
      | c :: rest => if isByte '"' c then .ok (some rest) else .error .malformed
    else .error .malformed

def membersLoop {σ : Type} (read : σ → Text → Reader σ) : Nat → Bool → σ → Reader σ
  | 0, _, _, _ => .error .malformed
  | fuel + 1, isFirst, s, bytes =>
    match nextKey isFirst bytes with
    | .error e => .error e
    | .ok none => (expectMark '\x7d' bytes).map (s, ·)
    | .ok (some bytes) =>
      match readString bytes with
      | .error e => .error e
      | .ok (key, rest) =>
        match read s key rest with
        | .error e => .error e
        | .ok (s, rest) => membersLoop read fuel false s rest

def readMembers {σ : Type} (read : σ → Text → Reader σ) (s : σ) : Reader σ := fun bytes =>
  membersLoop read (bytes.length + 1) true s bytes

def memberValue {α : Type} (read : Reader α) : Reader α := fun bytes =>
  match expectMark ':' bytes with
  | .error e => .error e
  | .ok rest => read rest

def readAll {α : Type} (read : Reader α) (bytes : Bytes) : Except ReadError α :=
  match read bytes with
  | .error e => .error e
  | .ok (x, rest) => if (skipBlanks rest).isEmpty then .ok x else .error .malformed

end StockScreen.Json
