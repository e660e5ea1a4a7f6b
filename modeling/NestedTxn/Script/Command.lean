import NestedTxn.Text.Blank
import NestedTxn.Txn.Basic

/-!
# Script commands

A script has one command per line; `#` starts a comment.

* `Command`: what a line can say. `Command.ofWords?`: reads a command from its words.
* `Line`: a line of a script with its number and what it says.
* `Line.ofText`: reads a line. `Line.ofScript`: the lines of a script that are not blank.
-/

namespace NestedTxn

/-- A command of a script. -/
inductive Command where
  /-- Open a session, or switch to it. -/
  | newSession (name : String)
  | begin
  | savepoint (name : String)
  | release (name : String)
  | rollbackTo (name : String)
  | put (table : Table) (key value : String)
  | delete (table : Table) (key : String)
  | get (key : String)
  | commit
  | abort
deriving DecidableEq

/-- The command that the words of a line spell. -/
def Command.ofWords? : List String → Option Command
  | ["new-session", name] => some (.newSession name)
  | ["begin"] => some .begin
  | ["savepoint", name] => some (.savepoint name)
  | ["release", name] => some (.release name)
  | ["rollback-to", name] => some (.rollbackTo name)
  | ["put", table, key, value] => some (.put table key value)
  | ["delete", table, key] => some (.delete table key)
  | ["get", key] => some (.get key)
  | ["commit"] => some .commit
  | ["abort"] => some .abort
  | _ => none

/-- A line of a script. -/
structure Line where
  /-- Its place in the script, counted from 1. -/
  number : Nat
  /-- What stands before a comment, without the white space around it. -/
  text : String
  /-- What it says; `none` if that is no command. -/
  command : Option Command
deriving DecidableEq

/-- A line of a script, unless it is blank. -/
def Line.ofText? (number : Nat) (raw : List Char) : Option Line :=
  let text := Text.trim (raw.takeWhile (· ≠ '#'))
  if text = [] then none
  else
    some {
      number
      text := String.ofList text
      command := Command.ofWords? ((Text.words text).map String.ofList) }

/-- The lines of a script that are not blank, the first of them numbered `first` if it is not. -/
def Line.ofLines (first : Nat) : List (List Char) → List Line
  | [] => []
  | raw :: rest => (Line.ofText? first raw).toList ++ Line.ofLines (first + 1) rest

/-- The lines of a script that are not blank. -/
def Line.ofScript (script : String) : List Line :=
  Line.ofLines 1 (Text.lines script.toList)

end NestedTxn
