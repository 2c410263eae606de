import Dataflow.Text.Toml.Moment
import Dataflow.Text.Toml.Scalar
import Dataflow.Text.Toml.Table

/-! # TOML

    A reader for TOML texts.  A text is a sequence of headers and assignments,
    one to a line, with blank lines and comments between them.  Lists and
    tables in braces are nested up to `maxDepth` levels, and so many keys make
    up a path at most.

    Every statement, value and key takes at least one character, so the length
    of the text bounds their number. -/

namespace Dataflow.Toml

open Scan

/-! ## Section 1: Between statements -/

/-- The text without leading blanks. -/
def skipBlanks (cs : List Char) : List Char := cs.dropWhile isBlank

/-- The text without leading blanks, line ends and comments. -/
def skipGaps : (inComment : Bool) → List Char → Option (List Char)
  | _, [] => some []
  | true, c :: cs =>
    if c = '\n' then skipGaps false cs else if isVisible c then skipGaps true cs else none
  | false, c :: cs =>
    if isBlank c || c = '\n' then skipGaps false cs
    else if c = '#' then skipGaps true cs
    else some (c :: cs)

/-- What follows the current line, of which only blanks and a comment may be
    left. -/
def endLine? (cs : List Char) : Option (List Char) :=
  match skipBlanks cs with
  | [] => some []
  | '\n' :: rest => some rest
  | '#' :: rest =>
    match rest.dropWhile isVisible with
    | [] => some []
    | '\n' :: rest => some rest
    | _ => none
  | _ => none

/-- Every line end as a single line feed. -/
def unifyLines : List Char → List Char
  | '\r' :: '\n' :: cs => '\n' :: unifyLines cs
  | c :: cs => c :: unifyLines cs
  | [] => []

/-! ## Section 2: Keys -/

/-- The characters of a key that is not quoted. -/
def isBare (c : Char) : Bool := c.isAlphanum || c = '-' || c = '_'

/-- One key of a path. -/
def key? : List Char → Option (String × List Char)
  | '"' :: cs => escaped? false cs .plain []
  | '\x27' :: cs => literal? false cs []
  | cs =>
    match cs.takeWhile isBare with
    | [] => none
    | word => some (String.ofList word, cs.dropWhile isBare)

/-- The deepest nesting of values, and the most keys in a path. -/
def maxDepth : Nat := 79

/-- At most `left` keys with dots between them: the path and the last key. -/
def keys? : (left : Nat) → List Char → Option (List String × String × List Char)
  | 0, _ => none
  | left + 1, cs => do
    let (key, rest) ← key? (skipBlanks cs)
    match skipBlanks rest with
    | '.' :: rest =>
      let (path, last, rest) ← keys? left rest
      return (key :: path, last, rest)
    | rest => return ([], key, rest)

/-- Keys with dots between them: the path and the last key. -/
def path? (cs : List Char) : Option (List String × String × List Char) := keys? maxDepth cs

/-! ## Section 3: Values -/

/-- The characters of a word. -/
def isWordChar (c : Char) : Bool := isBare c || c = '+' || c = '.'

mutual

/-- A value, of which lists and tables may take `depth` more levels. -/
def value? : (bound depth : Nat) → List Char → Option (Document × List Char)
  | 0, _, _ => none
  | bound + 1, depth, cs =>
    match cs with
    | '"' :: '"' :: '"' :: cs =>
      (escaped? true (dropLine cs) .plain []).map fun (t, rest) => (.text (some t), rest)
    | '"' :: cs => (escaped? false cs .plain []).map fun (t, rest) => (.text (some t), rest)
    | '\x27' :: '\x27' :: '\x27' :: cs =>
      (literal? true (dropLine cs) []).map fun (t, rest) => (.text (some t), rest)
    | '\x27' :: cs => (literal? false cs []).map fun (t, rest) => (.text (some t), rest)
    | '[' :: cs =>
      match depth with
      | 0 => none
      | depth + 1 => (items? bound depth cs).map fun (items, rest) => (.list items, rest)
    | '\x7b' :: cs =>
      match depth with
      | 0 => none
      | depth + 1 =>
        match skipBlanks cs with
        | '\x7d' :: rest => some (.object [], rest)
        | cs => (pairs? bound depth cs { style := .stated }).map fun (t, rest) =>
            (tableDocument t, rest)
    | cs =>
      match Moment.read? cs with
      | some result => some result
      | none => (word? (cs.takeWhile isWordChar)).map fun doc => (doc, cs.dropWhile isWordChar)

/-- The items of a list, up to its closing bracket.  The last one may be
    followed by a comma. -/
def items? : (bound depth : Nat) → List Char → Option (List Document × List Char)
  | 0, _, _ => none
  | bound + 1, depth, cs => do
    match ← skipGaps false cs with
    | ']' :: rest => return ([], rest)
    | cs =>
      let (item, rest) ← value? bound depth cs
      match ← skipGaps false rest with
      | ',' :: rest =>
        let (items, rest) ← items? bound depth rest
        return (item :: items, rest)
      | ']' :: rest => return ([item], rest)
      | _ => none

/-- The assignments of a table in braces, up to its closing brace. -/
def pairs? : (bound depth : Nat) → List Char → Table Entry → Option (Table Entry × List Char)
  | 0, _, _, _ => none
  | bound + 1, depth, cs, t => do
    let (path, key, rest) ← path? cs
    let rest ← expect? ['='] rest
    let (doc, rest) ← value? bound depth (skipBlanks rest)
    let t ← t.assign path key doc
    match skipBlanks rest with
    | ',' :: rest => pairs? bound depth rest t
    | '\x7d' :: rest => return (t, rest)
    | _ => none

end

/-! ## Section 4: Texts -/

/-- The root table, and the path of the table that the last header opened. -/
structure State where
  root : Table Entry := { style := .stated }
  current : List String := []

/-- Read statements to the end of the text. -/
def statements? : (bound : Nat) → List Char → State → Option State
  | 0, _, _ => none
  | bound + 1, cs, s => do
    match ← skipGaps false cs with
    | [] => return s
    | '[' :: '[' :: cs =>
      let (path, key, rest) ← path? cs
      let rest ← endLine? (← expect? [']', ']'] rest)
      let root ← s.root.extend path key
      statements? bound rest { root, current := path ++ [key] }
    | '[' :: cs =>
      let (path, key, rest) ← path? cs
      let rest ← endLine? (← expect? [']'] rest)
      let root ← s.root.state path key
      statements? bound rest { root, current := path ++ [key] }
    | cs =>
      let (path, key, rest) ← path? cs
      let rest ← expect? ['='] rest
      let (doc, rest) ← value? bound maxDepth (skipBlanks rest)
      let rest ← endLine? rest
      let root ← s.root.within s.current fun t => t.assign path key doc
      statements? bound rest { s with root }

/-- The text without a byte order mark. -/
def dropMark : List Char → List Char
  | '\ufeff' :: cs => cs
  | cs => cs

/-- The object that a text describes, if the text is TOML. -/
def parse? (source : String) : Option Document := do
  let cs := unifyLines (dropMark source.toList)
  let s ← statements? (2 * cs.length + 2) cs {}
  return tableDocument s.root

end Dataflow.Toml
