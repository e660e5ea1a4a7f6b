import NestedTxn.CommandLine.Arguments
import NestedTxn.Config.Yaml
import NestedTxn.Script.Runner

/-!
# The program

* `Report`: the exit code of a run, and what it prints. `Report.ofFault`: the one of a run whose
  database cannot be opened.
* `Program.run`: does what a command line asks for. Files are read by the given function, the
  settings first, then the script.
-/

namespace NestedTxn

/-- What a run of the program leaves behind. -/
structure Report where
  /-- The exit code. -/
  code : Nat := 0
  /-- What is printed. -/
  out : String := ""
  /-- What is printed as an error. -/
  err : String := ""
deriving DecidableEq

namespace Report

/-- A failed run: its message and what caused it. -/
def failure : List String → Report
  | [] => { code := 1 }
  | [message] => { code := 1, err := "Error: " ++ message ++ "\n" }
  | message :: causes =>
    { code := 1
      err := "Error: " ++ message ++ "\n\nCaused by:\n" ++
        String.join (causes.map fun c => "    " ++ c ++ "\n") }

/-- The run of a program that crashed. -/
def crash : Report := { code := 101 }

/-- A run whose database cannot be opened. -/
def ofFault : OpenFault → Report
  | .config fault => failure [(TxnError.config fault).message]
  | .oversizedQueue => crash

end Report

namespace Program

/-- The name and the version of the program. -/
def versionText : String := "sidb 0.1.0\n"

/-- The report of a run that printed `out`; the counters that counted follow if asked for. -/
def finish (i : Invocation) (out : String) (counters : Counters) : Report where
  out := out ++ if i.metrics then counters.exposition counters.touched else ""

/-- Check the health of a fresh database. -/
def healthCheck (i : Invocation) (config : Config) : Report :=
  let check : Act Services OpenFault Bool := do
    let db ← Database.openFresh config
    let healthy ← db.healthCheck
    db.shutdown
    return healthy
  match check.exec {} with
  | (.error fault, _) => .ofFault fault
  | (.ok healthy, s) => finish i (if healthy then "OK\n" else "FAILED\n") s.counters

/-- Run a script on a fresh database. -/
def runScript (i : Invocation) (config : Config) (script : String) : Report :=
  let run : Act Services OpenFault (Except BadLine (List String)) := do
    let db ← Database.openFresh config
    let result ← Act.withLocal (Runner.start db) (Act.attempt (Runner.run db script))
    db.shutdown
    return result
  match run.exec {} with
  | (.error fault, _) => .ofFault fault
  | (.ok (.error e), _) => .failure e.chain
  | (.ok (.ok lines), s) => finish i (String.join (lines.map (· ++ "\n"))) s.counters

variable {m : Type → Type} [Monad m]

/-- Carry out the job of an invocation. -/
def perform (read : String → m FileContent) (i : Invocation) (config : Config) : m Report := do
  match i.job with
  | none => return finish i "" {}
  | some .healthCheck => return healthCheck i config
  | some (.run path) =>
    match (← read path).text with
    | .error cause => return .failure [cause.message]
    | .ok script => return runScript i config script

/-- The settings of an invocation. -/
def settings (read : String → m FileContent) (i : Invocation) :
    m (Except ConfigFault Config) := do
  match i.config with
  | none => return .ok {}
  | some path => return Config.ofFile path (← read path)

/-- Do what the arguments ask for. -/
def run (read : String → m FileContent) (args : List String) : m Report := do
  match Invocation.ofArguments args with
  | .invoke i =>
    match ← settings read i with
    | .error fault => return .failure [(TxnError.config fault).message]
    | .ok config => perform read i config
  | .version => return { out := versionText }
  | .help => return {}
  | .misuse => return { code := 2 }

end Program

end NestedTxn
