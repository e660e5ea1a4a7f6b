import NestedTxn.Text.Utf8

/-!
# Text files

* `FileFault`: why a text file cannot be read.
* `FileContent`: what a path leads to. `FileContent.text`: its text.
-/

namespace NestedTxn

/-- Why a text file cannot be read. -/
inductive FileFault where
  /-- There is no such file. -/
  | missing
  /-- It is a directory. -/
  | directory
  /-- Its path goes on behind a file. -/
  | behindFile
  /-- Its path, or a name in it, is too long. -/
  | nameTooLong
  /-- Its bytes are not UTF-8. -/
  | notText
deriving DecidableEq

/-- The text of a file fault. -/
def FileFault.message : FileFault → String
  | .missing => "No such file or directory (os error 2)"
  | .directory => "Is a directory (os error 21)"
  | .behindFile => "Not a directory (os error 20)"
  | .nameTooLong => "File name too long (os error 36)"
  | .notText => "stream did not contain valid UTF-8"

/-- What a path leads to: the bytes of a file, or why there are none. -/
abbrev FileContent := Except FileFault Bytes

/-- The text of what a path leads to. -/
def FileContent.text (content : FileContent) : Except FileFault String :=
  match content with
  | .error fault => .error fault
  | .ok bytes =>
    match Utf8.text? bytes with
    | some text => .ok text
    | none => .error .notText

end NestedTxn
