import Dataflow.Text.Document

/-! # Tables of a TOML text

    A table grows while its text is read.  It can be mentioned before it is
    stated, as a part of a longer path, but it is stated at most once, and the
    ways of growing it do not mix:

    * a header `[a.b]` states `a.b`, and implies `a` unless it is there;
    * a header `[[a.b]]` adds a table to the list `a.b`;
    * an assignment `a.b = v` grows the table `a` by dots.  A stated table does
      not grow by dots, and a table that grew by dots is not stated. -/

namespace Dataflow.Toml

/-- How a table came to be. -/
inductive TableStyle where
  /-- As a part of the path of a header. -/
  | implied
  /-- As a part of the path of an assignment. -/
  | dotted
  /-- By a header of its own. -/
  | stated
  deriving DecidableEq, Repr, Inhabited

/-- A table with entries in order of their first mention. -/
structure Table (ε : Type) where
  style : TableStyle
  fields : List (String × ε) := []
  deriving Inhabited

/-- What stands under a key. -/
inductive Entry where
  | value (doc : Document)
  | table (content : Table Entry)
  | tables (items : List (Table Entry))
  deriving Inhabited

/-! ## Section 1: Growing a table -/

namespace Table

/-- The entry under `key`. -/
def find? (t : Table Entry) (key : String) : Option Entry := t.fields.lookup key

/-- Replace the entry under `key` in place, or add one at the end. -/
def put (t : Table Entry) (key : String) (entry : Entry) : Table Entry :=
  if t.fields.any (·.1 == key) then
    { t with fields := t.fields.map fun (k, e) => if k == key then (k, entry) else (k, e) }
  else { t with fields := t.fields ++ [(key, entry)] }

/-- Act on the table at the end of a path.  Tables that are missing are made
    in the style `fresh`, tables on the way have to be of a style that
    `mayEnter` allows, and of a list of tables the last one is entered. -/
def descend (fresh : TableStyle) (mayEnter : TableStyle → Bool)
    (act : Table Entry → Option (Table Entry)) :
    (path : List String) → Table Entry → Option (Table Entry)
  | [], t => act t
  | key :: path, t => do
    let entry ← match t.find? key with
      | none => (descend fresh mayEnter act path { style := fresh }).map Entry.table
      | some (.table s) =>
        if mayEnter s.style then (descend fresh mayEnter act path s).map Entry.table else none
      | some (.tables items) =>
        match items.getLast? with
        | some s => (descend fresh mayEnter act path s).map fun s =>
            Entry.tables (items.dropLast ++ [s])
        | none => none
      | some (.value _) => none
    return t.put key entry

/-- Act on the table that the last header has opened. -/
def within (path : List String) (act : Table Entry → Option (Table Entry)) (t : Table Entry) :
    Option (Table Entry) :=
  descend .implied (fun _ => true) act path t

/-- Assign a value to a key at the end of a path of keys. -/
def assign (path : List String) (key : String) (doc : Document) (t : Table Entry) :
    Option (Table Entry) :=
  let add (s : Table Entry) : Option (Table Entry) :=
    if (s.style == .dotted) == path.isEmpty then none
    else if (s.find? key).isSome then none
    else some (s.put key (.value doc))
  descend .dotted (· != .stated) add path t

/-- State the table under a key at the end of a path of keys. -/
def state (path : List String) (key : String) (t : Table Entry) : Option (Table Entry) :=
  let open? (s : Table Entry) : Option (Table Entry) :=
    match s.find? key with
    | none => some (s.put key (.table { style := .stated }))
    | some (.table content) =>
      if content.style = .implied then
        some (s.put key (.table { content with style := .stated }))
      else none
    | some _ => none
  t.within path open?

/-- Add a table to the list under a key at the end of a path of keys. -/
def extend (path : List String) (key : String) (t : Table Entry) : Option (Table Entry) :=
  let push? (s : Table Entry) : Option (Table Entry) :=
    match s.find? key with
    | none => some (s.put key (.tables [{ style := .stated }]))
    | some (.tables items) => some (s.put key (.tables (items ++ [{ style := .stated }])))
    | some _ => none
  t.within path push?

end Table

/-! ## Section 2: Tables as documents -/

mutual

/-- An entry as a document. -/
def Entry.toDocument : Entry → Document
  | .value doc => doc
  | .table content => tableDocument content
  | .tables items => .list (tableDocuments items)

/-- A table as an object. -/
def tableDocument : Table Entry → Document
  | ⟨_, fields⟩ => .object (fieldDocuments fields)

/-- Tables as objects. -/
def tableDocuments : List (Table Entry) → List Document
  | [] => []
  | t :: ts => tableDocument t :: tableDocuments ts

/-- Entries as fields of an object. -/
def fieldDocuments : List (String × Entry) → List (DocumentText × Document)
  | [] => []
  | (key, entry) :: fields => (some key, entry.toDocument) :: fieldDocuments fields

end

end Dataflow.Toml
