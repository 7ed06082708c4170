import StockScreen.Json.Reading

namespace StockScreen.Json

open Utf8 (Bytes)

inductive Frame where
  | array
  | object
  deriving DecidableEq, Repr

inductive SkipState where
  | value
  | valueOrClose
  | keyOrClose
  | key
  | colon
  | afterValue
  | word (next : UInt8) (rest : Bytes)
  | text (isKey : Bool)
  | minus
  | zero
  | whole
  | point
  | fraction
  | exponentMark
  | exponentSign
  | exponent
  deriving DecidableEq, Repr

def beginValue (frames : List Frame) (b : UInt8) : Option (SkipState × List Frame) :=
  if isByte 'n' b then some (.word 0x75 [0x6C, 0x6C], frames)
  else if isByte 't' b then some (.word 0x72 [0x75, 0x65], frames)
  else if isByte 'f' b then some (.word 0x61 [0x6C, 0x73, 0x65], frames)
  else if isByte '-' b then some (.minus, frames)
  else if isByte '0' b then some (.zero, frames)
  else if isDigit b then some (.whole, frames)
  else if isByte '"' b then some (.text false, frames)
  else if isByte '[' b then some (.valueOrClose, .array :: frames)
  else if isByte '\x7b' b then some (.keyOrClose, .object :: frames)
  else none

def afterItem (frame : Frame) (frames : List Frame) (b : UInt8) :
    Option (SkipState × List Frame) :=
  match frame with
  | .array =>
    if isByte ',' b then some (.value, .array :: frames)
    else if isByte ']' b then some (.afterValue, frames)
    else none
  | .object =>
    if isByte ',' b then some (.key, .object :: frames)
    else if isByte '\x7d' b then some (.afterValue, frames)
    else none

def SkipState.isNumber : SkipState → Bool
  | .minus | .zero | .whole | .point | .fraction | .exponentMark | .exponentSign | .exponent => true
  | _ => false

def SkipState.isComplete : SkipState → Bool
  | .zero | .whole | .fraction | .exponent => true
  | _ => false

def numberStep (state : SkipState) (b : UInt8) : Option SkipState :=
  let point := isByte '.' b
  let mark := isByte 'e' b || isByte 'E' b
  let digit := isDigit b
  match state with
  | .minus => if isByte '0' b then some .zero else if digit then some .whole else none
  | .zero => if point then some .point else if mark then some .exponentMark else none
  | .whole =>
    if digit then some .whole else if point then some .point
    else if mark then some .exponentMark else none
  | .point => if digit then some .fraction else none
  | .fraction => if digit then some .fraction else if mark then some .exponentMark else none
  | .exponentMark =>
    if isByte '+' b || isByte '-' b then some .exponentSign
    else if digit then some .exponent else none
  | .exponentSign => if digit then some .exponent else none
  | .exponent => if digit then some .exponent else none
  | _ => none

/-- A byte that cannot belong to a complete number ends it; a digit always could. -/
def settle (state : SkipState) (b : UInt8) : SkipState :=
  if state.isComplete && !isDigit b && (numberStep state b).isNone then .afterValue else state

def skipByte (state : SkipState) (frames : List Frame) (b : UInt8) :
    Option (SkipState × List Frame) :=
  match state with
  | .value => beginValue frames b
  | .valueOrClose =>
    if isByte ']' b then some (.afterValue, frames.drop 1) else beginValue frames b
  | .keyOrClose =>
    if isByte '\x7d' b then some (.afterValue, frames.drop 1)
    else if isByte '"' b then some (.text true, frames)
    else none
  | .key => if isByte '"' b then some (.text true, frames) else none
  | .colon => if isByte ':' b then some (.value, frames) else none
  | .afterValue =>
    match frames with
    | [] => none
    | frame :: frames => afterItem frame frames b
  | _ => none

def afterWord : Bytes → SkipState
  | [] => .afterValue
  | next :: rest => .word next rest

def skipLoop (state : SkipState) (frames : List Frame) : Bytes → Except ReadError Bytes
  | [] =>
    if state.isNumber && !state.isComplete then .error .malformed
    else if (state.isComplete || decide (state = .afterValue)) && frames.isEmpty then .ok []
    else .error .endsEarly
  | b :: rest =>
    match settle state b with
    | .word next expected =>
      if b = next then skipLoop (afterWord expected) frames rest else .error .malformed
    | .text isKey =>
      if isByte '"' b then skipLoop (if isKey then .colon else .afterValue) frames rest
      else if b < 0x20 then .error .malformed
      else if !isByte '\\' b then skipLoop (.text isKey) frames rest
      else
        match rest with
        | [] => .error .endsEarly
        | e :: rest =>
          if !isByte 'u' e then
            if (shortEscape? e).isSome then skipLoop (.text isKey) frames rest
            else .error .malformed
          else
            match rest with
            | h₁ :: h₂ :: h₃ :: h₄ :: rest =>
              if (fourHex? h₁ h₂ h₃ h₄).isSome then skipLoop (.text isKey) frames rest
              else .error .malformed
            | _ => .error .endsEarly
    | state =>
      if state.isNumber then
        match numberStep state b with
        | some state => skipLoop state frames rest
        | none => .error .malformed
      else if decide (state = .afterValue) && frames.isEmpty then .ok (b :: rest)
      else if isBlank b then skipLoop state frames rest
      else
        match skipByte state frames b with
        | some (state, frames) => skipLoop state frames rest
        | none => .error .malformed

def skipValue (bytes : Bytes) : Except ReadError Bytes := skipLoop .value [] bytes

end StockScreen.Json
