import NestedTxn.Log.Level

/-!
# Log files

* `LogRecord`: a line of a log file.
* `LogFile`: where the events of a process go, and the lines of its log file. A process chooses
  once where its events go; until then they are lost.
* `LogFile.openFile`, `openStdout`, `setLevel`, `write`: choose a file or the standard output,
  change the level of the file, log an event.
-/

namespace NestedTxn

/-- A line of a log file. -/
structure LogRecord where
  /-- The severity of the event. -/
  level : Level
  /-- What happened. -/
  message : String
  /-- The number that came with the event. -/
  n : Int
deriving DecidableEq

/-- Where the events of a process go. -/
inductive LogTarget where
  /-- Nowhere yet. -/
  | undecided
  /-- To the file, as far as `limit` admits. -/
  | file (limit : Level)
  /-- To the standard output, as far as `limit` admits. -/
  | stdout (limit : Level)
deriving DecidableEq

/-- The logging of a process. -/
structure LogFile where
  /-- Where events go. -/
  target : LogTarget := .undecided
  /-- The lines of the file, newest first. -/
  records : List LogRecord := []
deriving DecidableEq

namespace LogFile

/-- Choose the file, unless a choice was made. -/
def openFile (f : LogFile) (limit : Level) : Option LogFile :=
  if f.target = .undecided then some { f with target := .file limit } else none

/-- Choose the standard output, unless a choice was made. -/
def openStdout (f : LogFile) (limit : Level) : Option LogFile :=
  if f.target = .undecided then some { f with target := .stdout limit } else none

/-- Change the level of the file, if it was chosen. -/
def setLevel (f : LogFile) (limit : Level) : Option LogFile :=
  match f.target with
  | .file _ => some { f with target := .file limit }
  | _ => none

/-- Log an event. -/
def write (f : LogFile) (r : LogRecord) : LogFile :=
  match f.target with
  | .file limit => if limit.admits r.level then { f with records := r :: f.records } else f
  | _ => f

/-- The lines of the file, oldest first. -/
def lines (f : LogFile) : List LogRecord := f.records.reverse

end LogFile

end NestedTxn
