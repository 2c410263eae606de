import Dataflow.Compile

/-! # Command line

    What the arguments of the program ask for, and what it prints.  Both are
    functions: the contents of files are handed in, and the outcome is an
    exit code with a text.

    Arguments are read from left to right.  The first one that cannot be
    understood ends the reading, and so does a request for help or for the
    version; what is missing shows only at the end. -/

namespace Dataflow.CommandLine

/-- What there is help on. -/
inductive Topic where
  | program
  | compile
  | listOps
  | help
  deriving DecidableEq, Repr, Inhabited

/-- A compilation as it is asked for. -/
structure CompileRequest where
  model : String
  optionsFile? : Option String := none
  loss? : Option String := none
  noPrune : Bool := false
  showGraph : Bool := false
  deriving DecidableEq, Repr, Inhabited

/-- What the arguments ask for. -/
inductive Command where
  /-- No arguments: help on the program and an empty line. -/
  | overview
  | help (topic : Topic)
  | version
  | listOps
  | compile (request : CompileRequest)
  deriving DecidableEq, Repr, Inhabited

/-- Exit code and standard output. -/
structure Outcome where
  status : Nat
  output : String
  deriving DecidableEq, Repr, Inhabited

/-! ## Section 1: Arguments of a compilation -/

/-- A compilation while its arguments are read. -/
structure Draft where
  model? : Option String := none
  optionsFile? : Option String := none
  loss? : Option String := none
  noPrune : Bool := false
  showGraph : Bool := false

/-- How the reading of arguments goes on. -/
inductive Step (α : Type) where
  | done (command : Command)
  | next (state : α)
  | refused

/-- The option that waits for its value. -/
inductive Pending where
  | options
  | loss
  deriving DecidableEq, Repr

namespace Draft

/-- The model, given once.  A path is not empty. -/
def setModel (d : Draft) (value : String) : Option Draft :=
  if d.model?.isSome || value.isEmpty then none else some { d with model? := some value }

/-- The value of an option, given once.  A path is not empty. -/
def setValue (d : Draft) (value : String) : Pending → Option Draft
  | .options =>
    if d.optionsFile?.isSome || value.isEmpty then none
    else some { d with optionsFile? := some value }
  | .loss => if d.loss?.isSome then none else some { d with loss? := some value }

/-- The complete request. -/
def finish (d : Draft) : Option Command :=
  d.model?.map fun model =>
    .compile { model, optionsFile? := d.optionsFile?, loss? := d.loss?
               noPrune := d.noPrune, showGraph := d.showGraph }

end Draft

/-- Name and value of a long option, the value being what follows the first
    equals sign. -/
def splitLong (cs : List Char) : String × Option String :=
  let name := String.ofList (cs.takeWhile (· != '='))
  match cs.dropWhile (· != '=') with
  | _ :: value => (name, some (String.ofList value))
  | [] => (name, none)

/-- Read a flag or an option.  The result may have an option pending. -/
def readOption (d : Draft) (cs : List Char) : Step (Draft × Option Pending) :=
  let settle (d? : Option Draft) : Step (Draft × Option Pending) :=
    match d? with
    | some d => .next (d, none)
    | none => .refused
  match cs with
  | '-' :: '-' :: cs =>
    match splitLong cs with
    | ("help", none) => .done (.help .compile)
    | ("no-prune", none) => if d.noPrune then .refused else .next ({ d with noPrune := true }, none)
    | ("graph", none) => if d.showGraph then .refused else .next ({ d with showGraph := true }, none)
    | ("options", none) => .next (d, some .options)
    | ("options", some value) => settle (d.setValue value .options)
    | ("loss", none) => .next (d, some .loss)
    | ("loss", some value) => settle (d.setValue value .loss)
    | _ => .refused
  | '-' :: 'h' :: _ => .done (.help .compile)
  | ['-', 'o'] => .next (d, some .options)
  | '-' :: 'o' :: '=' :: value => settle (d.setValue (String.ofList value) .options)
  | '-' :: 'o' :: value => settle (d.setValue (String.ofList value) .options)
  | _ => .refused

/-- Whether an argument is a flag or an option rather than a value.  A single
    hyphen is a value. -/
def isOption : List Char → Bool
  | '-' :: _ :: _ => true
  | _ => false

/-- Read the arguments of a compilation. -/
def readCompile : List String → Draft → Option Pending → Option Command
  | [], d, none => d.finish
  | [], _, some _ => none
  | arg :: args, d, pending? =>
    if isOption arg.toList then
      if pending?.isSome then none
      else if arg = "--" then (args.foldlM Draft.setModel d).bind Draft.finish
      else
        match readOption d arg.toList with
        | .done command => some command
        | .next (d, pending?) => readCompile args d pending?
        | .refused => none
    else
      match pending? with
      | some pending =>
        match d.setValue arg pending with
        | some d => readCompile args d none
        | none => none
      | none =>
        match d.setModel arg with
        | some d => readCompile args d none
        | none => none

/-! ## Section 2: Arguments of the program -/

/-- Read the arguments after `list-ops`. -/
def readListOps : List String → Option Command
  | [] => some .listOps
  | "--" :: [] => some .listOps
  | arg :: _ =>
    match arg.toList with
    | '-' :: 'h' :: _ => some (.help .listOps)
    | _ => if arg = "--help" then some (.help .listOps) else none

/-- Read the arguments after `help`. -/
def readHelp : List String → Option Command
  | [] => some (.help .program)
  | ["compile"] => some (.help .compile)
  | ["list-ops"] => some (.help .listOps)
  | ["help"] => some (.help .help)
  | _ => none

/-- What the arguments of the program ask for, if they can be understood. -/
def read : List String → Option Command
  | [] => some .overview
  | "--" :: [] => some .overview
  | "compile" :: args => readCompile args {} none
  | "list-ops" :: args => readListOps args
  | "help" :: args => readHelp args
  | "--help" :: _ => some (.help .program)
  | "--version" :: _ => some .version
  | arg :: _ =>
    match arg.toList with
    | '-' :: 'h' :: _ => some (.help .program)
    | '-' :: 'V' :: _ => some .version
    | _ => none

/-! ## Section 3: Texts -/

/-- The help on a topic. -/
def helpText : Topic → String
  | .program => "Differentiate, prune and schedule MIND model graphs

Usage: mind-graph [COMMAND]

Commands:
  compile   Compile a model description
  list-ops  List the registered op types
  help      Print this message or the help of the given subcommand(s)

Options:
  -h, --help     Print help
  -V, --version  Print version
"
  | .compile => "Compile a model description

Usage: mind-graph compile [OPTIONS] <MODEL>

Arguments:
  <MODEL>  Model description (JSON)

Options:
  -o, --options <FILE>  Session options (TOML)
      --loss <LOSS>     Loss tensor, overriding the options file
      --no-prune        Disable pruning
      --graph           Print the whole graph instead of the schedule only
  -h, --help            Print help
"
  | .listOps => "List the registered op types

Usage: mind-graph list-ops

Options:
  -h, --help  Print help
"
  | .help => "Print this message or the help of the given subcommand(s)

Usage: mind-graph help [COMMAND]...

Arguments:
  [COMMAND]...  Print help for the subcommand(s)
"

/-- `text` at the left end of a column of at least `width` characters. -/
def leftAligned (width : Nat) (text : String) : String :=
  text ++ String.ofList (List.replicate (width - text.length) ' ')

/-- The line of an operator type. -/
def signatureLine (s : Signature) : String :=
  let grad := if s.differentiable then "grad" else "-"
  leftAligned 20 s.name ++ " " ++ leftAligned 20 s.arity.render ++ " " ++ leftAligned 5 grad
    ++ " " ++ s.summary ++ "\n"

/-- What is printed on a compilation. -/
def report (p : Products) (peak : Nat) (showGraph : Bool) : String :=
  let graph := if showGraph then p.graph.listing else ""
  let gradients := match p.gradients? with
    | some r => r.render ++ "\n"
    | none => ""
  let pruned := match p.pruned? with
    | some r => s!"Pruned {r.ops} ops, {r.tensors} tensors\n"
    | none => ""
  graph ++ p.graph.scheduleListing p.schedule ++ gradients ++ pruned
    ++ s!"Peak liveness: {peak} bytes\n"

/-! ## Section 4: Running -/

/-- The files that a command reads. -/
def Command.files : Command → List String
  | .compile request => request.model :: request.optionsFile?.toList
  | _ => []

/-- The options of a compilation: those of the options file, with the ones
    that arguments override. -/
def CompileRequest.options? (request : CompileRequest) (content? : String → Option String) :
    Option SessionOptions := do
  let base ← match request.optionsFile? with
    | some file => (SessionOptions.ofToml (← content? file)).toOption
    | none => some {}
  return { base with
    loss? := request.loss?.or base.loss?
    enablePruning := base.enablePruning && !request.noPrune }

/-- The output of a compilation, unless it fails. -/
def CompileRequest.run? (request : CompileRequest) (content? : String → Option String)
    (chance : ScheduleOptions → Chance := .ofOptions) : Option String := do
  let model ← Model.ofJson? (← content? request.model)
  let options ← request.options? content?
  let planner := Planner.setOptions {} options.effective
  let products ← (model.compile Catalogue.builtin options (chance planner.options)).toOption
  let (d, nodes) ← products.nodes.toOption
  return report products (DependencyGraph.peak (d.profile nodes)) request.showGraph

/-- Carry out a command.  `content?` gives the contents of files. -/
def Command.run (content? : String → Option String) : Command → Outcome
  | .overview => ⟨0, helpText .program ++ "\n"⟩
  | .help topic => ⟨0, helpText topic⟩
  | .version => ⟨0, "mind-graph 0.3.0\n"⟩
  | .listOps => ⟨0, String.join (Catalogue.builtin.signatures.map signatureLine)⟩
  | .compile request =>
    match request.run? content? with
    | some output => ⟨0, output⟩
    | none => ⟨1, ""⟩

/-- Carry out what the arguments ask for.  Arguments that cannot be
    understood have an exit code of their own. -/
def run (args : List String) (content? : String → Option String) : Outcome :=
  match read args with
  | some command => command.run content?
  | none => ⟨2, ""⟩

end Dataflow.CommandLine
