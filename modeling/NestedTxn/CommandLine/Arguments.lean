import NestedTxn.Log.Level

/-!
# Arguments of the command line

* `Invocation`: what a command line asks for.
* `Invocation.ofArguments`: reads the arguments. Options come before the job, each at most once;
  `--` ends them. The first argument that asks for the version or for help, or that is wrong,
  decides.
-/

namespace NestedTxn

/-- What the program does after its options are read. -/
inductive Job where
  /-- Check that a fresh database answers. -/
  | healthCheck
  /-- Run the script at `path` on a fresh database. -/
  | run (path : String)
deriving DecidableEq

/-- What a command line asks for. -/
structure Invocation where
  /-- The path of the settings. -/
  config : Option String := none
  /-- The level of the log. -/
  level : Option Level := none
  /-- Whether to show the counters at the end. -/
  metrics : Bool := false
  /-- What to do. -/
  job : Option Job := none
deriving DecidableEq

/-- What the arguments of a command line mean. -/
inductive Arguments where
  | invoke (i : Invocation)
  | version
  | help
  /-- They are wrong. -/
  | misuse
deriving DecidableEq

namespace Arguments

/-- Whether an argument looks like an option. -/
def isOption (arg : String) : Bool :=
  arg.toList.head? = some '-' && arg ≠ "-"

/-- The value in an argument of the form `name=value`. -/
def valueOf? (name : String) (arg : String) : Option String :=
  let start := name.toList ++ ['=']
  if arg.toList.take start.length = start then
    some (String.ofList (arg.toList.drop start.length))
  else none

/-- The meaning of a short option, which is its first letter. -/
def ofShort (arg : String) : Arguments :=
  match arg.toList with
  | '-' :: 'V' :: _ => .version
  | '-' :: 'h' :: _ => .help
  | _ => .misuse

/-- Whether an argument asks for help. -/
def asksHelp (arg : String) : Bool :=
  arg = "--help" || ofShort arg = .help

/-- The arguments after `health-check`. -/
def ofHealthCheck (i : Invocation) : List String → Arguments
  | [] | ["--"] => .invoke { i with job := some .healthCheck }
  | arg :: _ => if asksHelp arg then .help else .misuse

/-- The arguments after `run`; `plain` tells whether options are over. -/
def ofRun (i : Invocation) (script : Option String) (plain : Bool) : List String → Arguments
  | [] =>
    match script with
    | some path => .invoke { i with job := some (.run path) }
    | none => .misuse
  | arg :: rest =>
    if !plain && arg = "--" then ofRun i script true rest
    else if !plain && asksHelp arg then .help
    else if (!plain && isOption arg) || arg = "" || script.isSome then .misuse
    else ofRun i (some arg) plain rest

/-- Set the path of the settings. -/
def setConfig? (i : Invocation) (path : String) : Option Invocation :=
  if path = "" || i.config.isSome then none else some { i with config := some path }

/-- Set the level of the log. -/
def setLevel? (i : Invocation) (text : String) : Option Invocation :=
  if i.level.isSome then none
  else (Level.ofText? text).map fun l => { i with level := some l }

/-- Read arguments after those that made `i`. -/
def read (i : Invocation) : List String → Arguments
  | [] => .invoke i
  | ["--"] => .invoke i
  | "--version" :: _ => .version
  | "--help" :: _ | "help" :: _ => .help
  | "health-check" :: rest => ofHealthCheck i rest
  | "run" :: rest => ofRun i none false rest
  | "--metrics" :: rest => if i.metrics then .misuse else read { i with metrics := true } rest
  | "--config" :: value :: rest =>
    if isOption value then .misuse
    else
      match setConfig? i value with
      | some i => read i rest
      | none => .misuse
  | "--log-level" :: value :: rest =>
    if isOption value then .misuse
    else
      match setLevel? i value with
      | some i => read i rest
      | none => .misuse
  | arg :: rest =>
    match (valueOf? "--config" arg).map (setConfig? i),
        (valueOf? "--log-level" arg).map (setLevel? i) with
    | some (some i), _ | _, some (some i) => read i rest
    | some none, _ | _, some none => .misuse
    | none, none => ofShort arg

end Arguments

/-- The meaning of the arguments of a command line. -/
def Invocation.ofArguments (args : List String) : Arguments :=
  Arguments.read {} args

end NestedTxn
