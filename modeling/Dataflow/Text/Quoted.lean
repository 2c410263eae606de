/-! # Quoted names

    A name between double quotes, on one line: quotes, backslashes and
    control characters are written as escapes, everything else as it is. -/

namespace Dataflow.Quoted

/-- The escape of a character, if it needs one. -/
def escape? (c : Char) : Option String :=
  match c with
  | '"' => some "\\\""
  | '\\' => some "\\\\"
  | '\n' => some "\\n"
  | '\r' => some "\\r"
  | '\t' => some "\\t"
  | '\x00' => some "\\0"
  | _ =>
    if c.toNat < 0x20 || c.toNat = 0x7f then
      some ("\\u\x7b" ++ String.ofList (Nat.toDigits 16 c.toNat) ++ "\x7d")
    else none

/-- The characters of a name inside the quotes. -/
def body (text : String) : String :=
  String.join (text.toList.map fun c => (escape? c).getD c.toString)

/-- A name between double quotes. -/
def render (text : String) : String := "\"" ++ body text ++ "\""

end Dataflow.Quoted
