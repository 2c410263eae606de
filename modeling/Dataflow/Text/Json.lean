import Dataflow.Text.Document
import Dataflow.Text.Scan

/-! # Strict JSON

    A reader for JSON texts: no byte order mark, no trailing comma, nothing
    after the value, no raw control character in a text.  Fields of an object
    are kept in order of occurrence, repetitions included.

    The grammar is read off a list of characters.  Every value takes at least
    one character, so the length of the text bounds the nesting. -/

namespace Dataflow.Json

open Scan

/-! ## Section 1: White space -/

/-- Space, tab, line feed and carriage return. -/
def isBlank (c : Char) : Bool := c = ' ' || c = '\t' || c = '\n' || c = '\r'

/-- The text without leading white space. -/
def skipBlanks (cs : List Char) : List Char := cs.dropWhile isBlank

/-! ## Section 2: Numbers -/

/-- The digits at the start of a text, and what follows them. -/
def takeDigits (cs : List Char) : List Nat × List Char :=
  ((cs.takeWhile Char.isDigit).map fun c => c.toNat - 48, cs.dropWhile Char.isDigit)

/-- Digits without a superfluous zero in front. -/
def whole? (cs : List Char) : Option (List Nat × List Char) :=
  match takeDigits cs with
  | ([], _) => none
  | (0 :: _ :: _, _) => none
  | (digits, rest) => some (digits, rest)

/-- A fraction, if there is one. -/
def fraction? (cs : List Char) : Option (List Nat × List Char) :=
  match cs with
  | '.' :: cs =>
    match takeDigits cs with
    | ([], _) => none
    | (digits, rest) => some (digits, rest)
  | _ => some ([], cs)

/-- The digits of an exponent. -/
def exponentDigits? (isNegative : Bool) (cs : List Char) :
    Option (Option (Bool × List Nat) × List Char) :=
  match takeDigits cs with
  | ([], _) => none
  | (digits, rest) => some (some (isNegative, digits), rest)

/-- An exponent, if there is one. -/
def exponent? (cs : List Char) : Option (Option (Bool × List Nat) × List Char) :=
  match cs with
  | c :: cs' =>
    if c = 'e' || c = 'E' then
      match cs' with
      | '+' :: cs'' => exponentDigits? false cs''
      | '-' :: cs'' => exponentDigits? true cs''
      | _ => exponentDigits? false cs'
    else some (none, cs)
  | [] => some (none, [])

/-- A number after its sign. -/
def number? (isNegative : Bool) (cs : List Char) : Option (Document × List Char) := do
  let (whole, afterWhole) ← whole? cs
  let (fraction, afterFraction) ← fraction? afterWhole
  let (exponent?, rest) ← exponent? afterFraction
  let numeral : Numeral := {
    isNegative, whole, fraction, exponent?
    isInteger := fraction.isEmpty && exponent?.isNone }
  return (.number numeral.value, rest)

/-! ## Section 3: Texts -/

/-- The character of an escape with a single letter. -/
def plainEscape? : Char → Option Char
  | '"' => some '"'
  | '\\' => some '\\'
  | '/' => some '/'
  | 'b' => some '\x08'
  | 'f' => some '\x0c'
  | 'n' => some '\n'
  | 'r' => some '\r'
  | 't' => some '\t'
  | _ => none

/-- First half of a surrogate pair. -/
def isHigh (unit : Nat) : Bool := 0xd800 ≤ unit && unit < 0xdc00

/-- Second half of a surrogate pair. -/
def isLow (unit : Nat) : Bool := 0xdc00 ≤ unit && unit < 0xe000

/-- The character of a surrogate pair. -/
def ofPair (high low : Nat) : Char :=
  Char.ofNat (0x10000 + (high - 0xd800) * 1024 + (low - 0xdc00))

/-- Where in a text the next character stands. -/
inductive TextMode where
  | plain
  /-- After a backslash. -/
  | escape
  /-- Inside a code, with `left` digits to come and `value` read so far. -/
  | code (left value : Nat)

/-- A text under construction. -/
structure TextState where
  /-- The characters read so far, in reverse, unless a code had no meaning. -/
  read? : Option (List Char) := some []
  /-- The first half of a surrogate pair whose second half has to follow. -/
  high? : Option Nat := none
  mode : TextMode := .plain

namespace TextState

/-- A character has been read. -/
def push (s : TextState) (c : Char) : TextState where
  read? := if s.high?.isSome then none else s.read?.map (c :: ·)

/-- A code has been read. -/
def pushUnit (s : TextState) (unit : Nat) : TextState :=
  match s.high? with
  | some high =>
    if isLow unit then { read? := s.read?.map (ofPair high unit :: ·) } else { read? := none }
  | none =>
    if isHigh unit then { read? := s.read?, high? := some unit }
    else if isLow unit then { read? := none }
    else { read? := s.read?.map (Char.ofNat unit :: ·) }

/-- The text that has been read. -/
def close (s : TextState) : DocumentText :=
  if s.high?.isSome then none else s.read?.map fun r => String.ofList r.reverse

end TextState

/-- A text after its opening quote. -/
def text? : List Char → TextState → Option (DocumentText × List Char)
  | [], _ => none
  | c :: cs, s =>
    match s.mode with
    | .plain =>
      if c = '"' then some (s.close, cs)
      else if c = '\\' then text? cs { s with mode := .escape }
      else if c.toNat < 0x20 then none
      else text? cs (s.push c)
    | .escape =>
      if c = 'u' then text? cs { s with mode := .code 4 0 }
      else
        match plainEscape? c with
        | some e => text? cs (s.push e)
        | none => none
    | .code left value =>
      match hexDigit? c with
      | some d =>
        if left > 1 then text? cs { s with mode := .code (left - 1) (value * 16 + d) }
        else text? cs (s.pushUnit (value * 16 + d))
      | none => none

/-! ## Section 4: Values -/

mutual

/-- A value, after white space. -/
def value? : (depth : Nat) → List Char → Option (Document × List Char)
  | 0, _ => none
  | depth + 1, cs =>
    match skipBlanks cs with
    | '"' :: cs => (text? cs {}).map fun (t, rest) => (.text t, rest)
    | '[' :: cs =>
      match skipBlanks cs with
      | ']' :: rest => some (.list [], rest)
      | _ => (items? depth cs).map fun (items, rest) => (.list items, rest)
    | '\x7b' :: cs =>
      match skipBlanks cs with
      | '\x7d' :: rest => some (.object [], rest)
      | _ => (fields? depth cs).map fun (fields, rest) => (.object fields, rest)
    | 'n' :: cs => (expect? ['u', 'l', 'l'] cs).map fun rest => (.null, rest)
    | 't' :: cs => (expect? ['r', 'u', 'e'] cs).map fun rest => (.bool true, rest)
    | 'f' :: cs => (expect? ['a', 'l', 's', 'e'] cs).map fun rest => (.bool false, rest)
    | '-' :: cs => number? true cs
    | cs => number? false cs

/-- The items of a list, up to its closing bracket. -/
def items? : (depth : Nat) → List Char → Option (List Document × List Char)
  | 0, _ => none
  | depth + 1, cs => do
    let (item, rest) ← value? depth cs
    match skipBlanks rest with
    | ',' :: rest =>
      let (items, rest) ← items? depth rest
      return (item :: items, rest)
    | ']' :: rest => return ([item], rest)
    | _ => none

/-- The fields of an object, up to its closing brace. -/
def fields? : (depth : Nat) → List Char → Option (List (DocumentText × Document) × List Char)
  | 0, _ => none
  | depth + 1, cs =>
    match skipBlanks cs with
    | '"' :: cs => do
      let (key, rest) ← text? cs {}
      let rest ← expect? [':'] (skipBlanks rest)
      let (value, rest) ← value? depth rest
      match skipBlanks rest with
      | ',' :: rest =>
        let (fields, rest) ← fields? depth rest
        return ((key, value) :: fields, rest)
      | '\x7d' :: rest => return ([(key, value)], rest)
      | _ => none
    | _ => none

end

/-- The value that a text describes, if the text is JSON. -/
def parse? (source : String) : Option Document := do
  let cs := source.toList
  let (doc, rest) ← value? (2 * cs.length + 2) cs
  if (skipBlanks rest).isEmpty then some doc else none

end Dataflow.Json
