import Dataflow.Measure
import Dataflow.Text.Document
import Dataflow.Text.Scan

/-! # Plain values of a TOML text

    Texts in one or three quotes of two kinds, and the words that stand for
    truth values, integers and floating point numbers.  Line ends are single
    line feeds here. -/

namespace Dataflow.Toml

open Scan

/-! ## Section 1: Characters -/

/-- Space and tab. -/
def isBlank (c : Char) : Bool := c = ' ' || c = '\t'

/-- The characters that stand for themselves: all but control characters, of
    which the tab is allowed. -/
def isVisible (c : Char) : Bool := c = '\t' || (0x20 ≤ c.toNat && c.toNat ≠ 0x7f)

/-! ## Section 2: Texts -/

/-- Where in a text the next character stands. -/
inductive TextMode where
  | plain
  /-- After a backslash. -/
  | escape
  /-- Inside a code, with `left` digits to come and `value` read so far. -/
  | code (left value : Nat)
  /-- In the gap after a backslash at the end of a line.  The end of the line
      may be still to come. -/
  | gap (needsLine : Bool)

/-- The mode in which `c` is read: a gap ends at the first character that is
    neither blank nor a line end. -/
def TextMode.at (c : Char) : TextMode → TextMode
  | .gap false => if isBlank c || c = '\n' then .gap false else .plain
  | mode => mode

/-- The character of an escape with a single letter. -/
def plainEscape? : Char → Option Char
  | '"' => some '"'
  | '\\' => some '\\'
  | 'b' => some '\x08'
  | 'f' => some '\x0c'
  | 'n' => some '\n'
  | 'r' => some '\r'
  | 't' => some '\t'
  | _ => none

/-- A text that ends in three quotes, of which the last two and `rest` are
    ahead.  Up to two more quotes belong to the text. -/
def closeLong (quote : Char) (read rest : List Char) : String × List Char :=
  let extra := (rest.take 2).takeWhile (· == quote)
  (String.ofList (extra ++ read).reverse, rest.drop extra.length)

/-- A text with escapes after its opening quotes, `read` being what has been
    read of it, in reverse. -/
def escaped? (isLong : Bool) : List Char → TextMode → (read : List Char) →
    Option (String × List Char)
  | [], _, _ => none
  | c :: cs, mode, read =>
    match mode.at c with
    | .plain =>
      if c = '"' then
        if isLong then
          match cs with
          | '"' :: '"' :: rest => some (closeLong '"' read rest)
          | _ => escaped? isLong cs .plain (c :: read)
        else some (String.ofList read.reverse, cs)
      else if c = '\\' then escaped? isLong cs .escape read
      else if isVisible c || (isLong && c = '\n') then escaped? isLong cs .plain (c :: read)
      else none
    | .escape =>
      if c = 'u' then escaped? isLong cs (.code 4 0) read
      else if c = 'U' then escaped? isLong cs (.code 8 0) read
      else if isLong && (isBlank c || c = '\n') then escaped? isLong cs (.gap (c ≠ '\n')) read
      else
        match plainEscape? c with
        | some e => escaped? isLong cs .plain (e :: read)
        | none => none
    | .code left value =>
      match hexDigit? c with
      | some d =>
        let value := value * 16 + d
        if left > 1 then escaped? isLong cs (.code (left - 1) value) read
        else if value.isValidChar then escaped? isLong cs .plain (Char.ofNat value :: read)
        else none
      | none => none
    | .gap needsLine =>
      if c = '\n' then escaped? isLong cs (.gap false) read
      else if isBlank c then escaped? isLong cs (.gap needsLine) read
      else none

/-- A text without escapes after its opening quotes. -/
def literal? (isLong : Bool) : List Char → (read : List Char) → Option (String × List Char)
  | [], _ => none
  | c :: cs, read =>
    if c = '\x27' then
      if isLong then
        match cs with
        | '\x27' :: '\x27' :: rest => some (closeLong '\x27' read rest)
        | _ => literal? isLong cs (c :: read)
      else some (String.ofList read.reverse, cs)
    else if isVisible c || (isLong && c = '\n') then literal? isLong cs (c :: read)
    else none

/-- A long text starts after the line end that directly follows its quotes. -/
def dropLine : List Char → List Char
  | '\n' :: cs => cs
  | cs => cs

/-! ## Section 3: Numbers -/

/-- Digits, with single underscores between them. -/
def digits? (value? : Char → Option Nat) : List Char → Option (List Nat)
  | [] => none
  | [c] => do return [← value? c]
  | c :: '_' :: cs => do
    let d ← value? c
    return d :: (← digits? value? cs)
  | c :: cs => do
    let d ← value? c
    return d :: (← digits? value? cs)

/-- The number that some digits spell. -/
def ofDigits (base : Nat) (digits : List Nat) : Nat := digits.foldl (fun n d => base * n + d) 0

/-- Decimal digits without a superfluous zero in front. -/
def whole? (cs : List Char) : Option (List Nat) := do
  let digits ← digits? digit? cs
  if digits.length > 1 && digits.head? = some 0 then none else some digits

/-- An integer, if it fits in 64 bits with its sign. -/
def signed? (isNegative : Bool) (magnitude : Nat) : Option Number :=
  if isNegative && magnitude ≠ 0 then
    if magnitude ≤ signedRange then some (.negative (-(magnitude : Int))) else none
  else if magnitude < signedRange then some (.nat magnitude) else none

/-- The integer that digits after a base mark spell. -/
def based? (base : Nat) (cs : List Char) : Option Number := do
  let digits ← digits? hexDigit? cs
  if digits.all (· < base) then signed? false (ofDigits base digits) else none

/-- Decimal exponents beyond this one leave the range of floating point
    numbers whatever the digits are. -/
def exponentBound : Nat := 400

/-- The floating point number nearest to `digits` times ten to the power
    `exponent`. -/
def nearest (digits : List Nat) (exponent : Int) : Float :=
  let m := ofDigits 10 digits
  if m = 0 then 0.0
  else if exponent > exponentBound then 1.0 / 0.0
  else if exponent + digits.length < -(exponentBound : Int) then 0.0
  else Float.ofScientific m (exponent < 0) exponent.natAbs

/-- An exponent after its mark. -/
def exponent? (cs : List Char) : Option Int :=
  match cs with
  | '+' :: cs => (digits? digit? cs).map fun ds => (ofDigits 10 ds : Int)
  | '-' :: cs => (digits? digit? cs).map fun ds => -(ofDigits 10 ds : Int)
  | cs => (digits? digit? cs).map fun ds => (ofDigits 10 ds : Int)

/-- A floating point number.  One that is too large to be finite is allowed
    only if it is negative. -/
def float? (isNegative : Bool) (whole fraction : List Nat) (exponent : Int) : Option Number :=
  let x := nearest (whole ++ fraction) (exponent - fraction.length)
  if isNegative then some (.float (-x))
  else if x.isInf then none
  else some (.float x)

/-- A decimal number after its sign. -/
def decimal? (isNegative : Bool) (cs : List Char) : Option Number := do
  let isPlain (c : Char) : Bool := c.isDigit || c = '_'
  let whole ← whole? (cs.takeWhile isPlain)
  match cs.dropWhile isPlain with
  | [] => signed? isNegative (ofDigits 10 whole)
  | '.' :: cs =>
    let fraction ← digits? digit? (cs.takeWhile isPlain)
    match cs.dropWhile isPlain with
    | [] => float? isNegative whole fraction 0
    | c :: cs =>
      if c = 'e' || c = 'E' then float? isNegative whole fraction (← exponent? cs) else none
  | c :: cs =>
    if c = 'e' || c = 'E' then float? isNegative whole [] (← exponent? cs) else none

/-- A number, or one of the words for infinity and for no number. -/
def signedNumber? (isNegative : Bool) (cs : List Char) : Option Number :=
  if cs = ['i', 'n', 'f'] then some (.float (if isNegative then -(1.0 / 0.0) else 1.0 / 0.0))
  else if cs = ['n', 'a', 'n'] then some (.undefined isNegative)
  else decimal? isNegative cs

/-- The value that a word stands for. -/
def word? (cs : List Char) : Option Document :=
  if cs = ['t', 'r', 'u', 'e'] then some (.bool true)
  else if cs = ['f', 'a', 'l', 's', 'e'] then some (.bool false)
  else
    let number? : Option Number :=
      match cs with
      | '0' :: 'x' :: cs => based? 16 cs
      | '0' :: 'o' :: cs => based? 8 cs
      | '0' :: 'b' :: cs => based? 2 cs
      | '+' :: cs => signedNumber? false cs
      | '-' :: cs => signedNumber? true cs
      | cs => signedNumber? false cs
    number?.map .number

end Dataflow.Toml
