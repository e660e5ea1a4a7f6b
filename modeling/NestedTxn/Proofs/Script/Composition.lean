import Mathlib.Data.List.Basic
import NestedTxn.Proofs.Act
import NestedTxn.Script.Runner

/-!
# Scripts compose

A script may be cut at any line feed, and its parts run one after the other.

* `Text.pieces_append`: a text that is cut at a separator has the pieces of both parts.
* `Line.ofScript_eq`: the lines of a script are its pieces, whether or not the last one ends in a
  line feed, and with or without carriage returns.
* `Line.ofScript_join`: so two scripts with a line feed between them have the lines of the first and
  those of the second, further down (`Line.below`).
* `Runner.runLines_append`: lines are run one part after the other. Only a line that is no command
  ends a run (`Runner.exec_runLines_ok`, `Runner.exec_runLines_error`).
* `Runner.run_join`: what that means for two scripts.
-/

namespace NestedTxn

namespace Text

variable {p : Char → Bool} {c : Char} {cs : List Char}

/-! ## Lines of a text -/

theorem pieces_ne_nil (p : Char → Bool) (cs : List Char) : pieces p cs ≠ [] := by
  cases cs with
  | nil => exact List.cons_ne_nil _ _
  | cons c cs =>
    rw [pieces]
    split
    · exact List.cons_ne_nil _ _
    · split <;> exact List.cons_ne_nil _ _

/-- A separator comes between the pieces before it and those after it. -/
theorem pieces_append (hc : p c = true) (a b : List Char) :
    pieces p (a ++ c :: b) = pieces p a ++ pieces p b := by
  induction a with
  | nil => simp [pieces, hc]
  | cons d a ih =>
    rw [List.cons_append, pieces, pieces, ih]
    split
    · rfl
    · obtain ⟨w, ws, hw⟩ := List.exists_cons_of_ne_nil (pieces_ne_nil p a)
      simp [hw]

/-- There is one piece more than there are separators. -/
theorem length_pieces (p : Char → Bool) (cs : List Char) :
    (pieces p cs).length = cs.countP p + 1 := by
  induction cs with
  | nil => rfl
  | cons c cs ih =>
    rw [pieces]
    split
    · next hc => rw [List.length_cons, ih, List.countP_cons_of_pos hc]
    · next hc =>
      obtain ⟨w, ws, hw⟩ := List.exists_cons_of_ne_nil (pieces_ne_nil p cs)
      rw [hw] at ih ⊢
      rw [List.countP_cons_of_neg hc, ← ih]
      rfl

/-- White space after a text makes no difference once it is trimmed. -/
theorem trim_append_blank (hc : isBlank c = true) (cs : List Char) :
    trim (cs ++ [c]) = trim cs := by
  unfold trim
  rw [List.dropWhile_append]
  split
  · next he =>
    rw [List.isEmpty_iff.1 he]
    simp [hc]
  · simp [hc]

theorem eq_append_of_stripReturn_ne (h : stripReturn cs ≠ cs) : cs = stripReturn cs ++ ['\r'] := by
  unfold stripReturn at h ⊢
  split at h
  · next hlast =>
    rw [if_pos hlast]
    exact (List.dropLast_append_getLast? _ hlast).symm
  · exact absurd rfl h

end Text

namespace Line

open Text

/-! ## Lines of a script -/

/-- The carriage return that ends a line is part of a comment, or white space after the text. -/
theorem ofText?_stripReturn (number : Nat) (raw : List Char) :
    ofText? number (stripReturn raw) = ofText? number raw := by
  by_cases h : stripReturn raw = raw
  · rw [h]
  have htrim : trim ((stripReturn raw).takeWhile (· ≠ '#')) = trim (raw.takeWhile (· ≠ '#')) := by
    rw [show raw.takeWhile (· ≠ '#') = (stripReturn raw ++ ['\r']).takeWhile (· ≠ '#') by
      rw [← eq_append_of_stripReturn_ne h], List.takeWhile_append]
    split
    · next hall =>
      rw [show ['\r'].takeWhile (· ≠ '#') = ['\r'] from rfl, trim_append_blank (by decide),
        (List.takeWhile_prefix _).eq_of_length hall]
    · rfl
  unfold ofText?
  rw [htrim]

/-- A line that stands `n` lines further down. -/
def below (n : Nat) (line : Line) : Line := { line with number := n + line.number }

theorem ofText?_below (n number : Nat) (raw : List Char) :
    ofText? (n + number) raw = (ofText? number raw).map (below n) := by
  unfold ofText?
  dsimp only
  split <;> rfl

theorem ofLines_append (first : Nat) (xs ys : List (List Char)) :
    ofLines first (xs ++ ys) = ofLines first xs ++ ofLines (first + xs.length) ys := by
  induction xs generalizing first with
  | nil => rfl
  | cons raw xs ih =>
    rw [List.cons_append, ofLines, ofLines, ih, List.append_assoc, List.length_cons,
      Nat.add_assoc, Nat.add_comm 1]

theorem ofLines_stripReturn (first : Nat) (ls : List (List Char)) :
    ofLines first (ls.map stripReturn) = ofLines first ls := by
  induction ls generalizing first with
  | nil => rfl
  | cons raw ls ih => rw [List.map_cons, ofLines, ofLines, ofText?_stripReturn, ih]

theorem ofLines_below (n first : Nat) (ls : List (List Char)) :
    ofLines (n + first) ls = (ofLines first ls).map (below n) := by
  induction ls generalizing first with
  | nil => rfl
  | cons raw ls ih =>
    rw [ofLines, ofLines, ofText?_below, List.map_append, ← ih, Nat.add_assoc]
    cases ofText? first raw <;> rfl

/-- The lines of a script are the pieces between its line feeds. -/
theorem ofScript_eq (script : String) :
    ofScript script = ofLines 1 (pieces (· = '\n') script.toList) := by
  unfold ofScript lines
  generalize hps : pieces (· = '\n') script.toList = ps
  obtain ⟨init, last, rfl⟩ : ∃ init last, ps = init ++ [last] :=
    ⟨_, _, (List.dropLast_append_getLast (hps ▸ pieces_ne_nil _ _)).symm⟩
  dsimp only
  rw [List.dropLast_concat, List.getLast?_concat, ofLines_append, ofLines_append,
    ofLines_stripReturn, List.length_map]
  cases last <;> rfl

/-- The lines of two scripts with a line feed between them. -/
theorem ofScript_join (a b : String) :
    ofScript (a ++ "\n" ++ b) =
      ofScript a ++ (ofScript b).map (below (a.toList.count '\n' + 1)) := by
  have hcount : (pieces (· = '\n') a.toList).length = a.toList.count '\n' + 1 := by
    rw [length_pieces, List.count]
    rfl
  rw [ofScript_eq, ofScript_eq, ofScript_eq, String.toList_append, String.toList_append,
    List.append_assoc, show "\n".toList ++ b.toList = '\n' :: b.toList from rfl,
    pieces_append (by decide), ofLines_append, hcount, Nat.add_comm 1, ofLines_below]

end Line

namespace Runner

open Act

variable {db : Database}

/-! ## Running lines -/

theorem words_ok {α : Type} (text : α → String) (a : Act (Connection × Services) SessionError α)
    (p : Connection × Services) : ∃ x q, (words text a).exec p = (.ok x, q) := by
  rw [words, exec_bind, exec_attempt]
  rcases (a.exec p).1 with e | x <;> exact ⟨_, _, rfl⟩

/-- A command always answers: the failures of a session are part of the answer. -/
theorem execute_ok (db : Database) (command : Command) (p : Runner × Services) :
    ∃ x q, (execute db command).exec p = (.ok x, q) := by
  have hanswer : ∀ p, ∃ x q, (answer db command).exec p = (.ok x, q) := by
    intro p
    cases command with
    | newSession name => exact ⟨_, _, rfl⟩
    | _ => exact words_ok _ _ p
  have hcurrent : ∀ p, ∃ x q, (inCurrent (answer db command)).exec p = (.ok x, q) := by
    intro p
    obtain ⟨x, q, hq⟩ := hanswer (p.1.currentSession, p.2)
    exact ⟨x, _, by rw [inCurrent, exec_zoom, hq]; rfl⟩
  cases command with
  | newSession name => exact hcurrent (p.1.switchTo db name, p.2)
  | _ => exact hcurrent p

/-- Lines are run one part after the other. -/
theorem runLines_append (db : Database) (xs ys : List Line) :
    runLines db (xs ++ ys) = (do
      let before ← runLines db xs
      let after ← runLines db ys
      return before ++ after) := by
  induction xs with
  | nil => simp [runLines]
  | cons line xs ih =>
    rw [List.cons_append, runLines, runLines]
    cases line.command with
    | none => rfl
    | some command => simp [ih]

/-- Lines that are all commands are run to the end. -/
theorem exec_runLines_ok (db : Database) {lines : List Line}
    (h : ∀ line ∈ lines, line.command.isSome) (p : Runner × Services) :
    ∃ out q, (runLines db lines).exec p = (.ok out, q) := by
  induction lines generalizing p with
  | nil => exact ⟨[], p, rfl⟩
  | cons line lines ih =>
    obtain ⟨hline, hlines⟩ := List.forall_mem_cons.1 h
    obtain ⟨command, hc⟩ := Option.isSome_iff_exists.1 hline
    obtain ⟨x, q, hx⟩ := execute_ok db command p
    obtain ⟨out, r, hr⟩ := ih hlines q
    rw [runLines, hc]
    dsimp only
    rw [exec_bind_ok hx, exec_bind_ok (exec_get q), exec_bind_ok hr]
    exact ⟨_, r, rfl⟩

/-- The first line that is no command ends the run there. -/
theorem exec_runLines_error (db : Database) {lines : List Line} {line : Line}
    (h : lines.find? (·.command.isNone) = some line) (p : Runner × Services) :
    ∃ q, (runLines db lines).exec p = (.error ⟨line.number, line.text⟩, q) := by
  obtain ⟨hbad, before, after, rfl, hbefore⟩ := List.find?_eq_some_iff_append.1 h
  have hok : ∀ line ∈ before, line.command.isSome := fun l hl => by simpa using hbefore l hl
  obtain ⟨out, q, hq⟩ := exec_runLines_ok db hok p
  refine ⟨q, ?_⟩
  rw [runLines_append, exec_bind_ok hq, runLines, Option.isNone_iff_eq_none.1 hbad]
  rfl

/-- The numbers of the lines do not matter to a run that comes to the end. -/
theorem runLines_below (n : Nat) (lines : List Line) (p : Runner × Services) :
    (runLines db (lines.map (Line.below n))).exec p =
      (((runLines db lines).exec p).1.mapError fun e => ⟨n + e.number, e.text⟩,
        ((runLines db lines).exec p).2) := by
  induction lines generalizing p with
  | nil => rfl
  | cons line lines ih =>
    rw [List.map_cons, runLines, runLines]
    cases hc : line.command with
    | none =>
      rw [show (Line.below n line).command = none from hc]
      rfl
    | some command =>
      rw [show (Line.below n line).command = some command from hc]
      obtain ⟨x, q, hx⟩ := execute_ok db command p
      dsimp only
      rw [exec_bind_ok hx, exec_bind_ok hx, exec_bind_ok (exec_get q), exec_bind_ok (exec_get q),
        exec_bind, exec_bind, ih q]
      rcases (runLines db lines).exec q with ⟨e | out, r⟩ <;> rfl

/-! ## Running scripts -/

/-- Every line of a script is a command, or blank, or a comment. -/
def Recognised (script : String) : Prop := ∀ line ∈ Line.ofScript script, line.command.isSome

instance (script : String) : Decidable (Recognised script) :=
  inferInstanceAs (Decidable (∀ line ∈ Line.ofScript script, line.command.isSome))

/-- The first line of a script that is neither a command nor blank nor a comment. -/
def badLine? (script : String) : Option Line :=
  (Line.ofScript script).find? (·.command.isNone)

/-- Two scripts with a line feed between them run as the first one and then the second. If all
lines of the first are recognised, then what the second shows and leaves follows, with the lines
counted from the start of the first; if not, the run fails at the first line that is not, and leaves
what the first script leaves. -/
theorem run_join (db : Database) (a b : String) (p : Runner × Services) :
    (Recognised a → Recognised b → ∃ shown q shown' r,
      (run db a).exec p = (.ok shown, q) ∧ (run db b).exec q = (.ok shown', r) ∧
        (run db (a ++ "\n" ++ b)).exec p = (.ok (shown ++ shown'), r)) ∧
    (∀ line, badLine? a = some line → ∃ q,
      (run db a).exec p = (.error ⟨line.number, line.text⟩, q) ∧
        (run db (a ++ "\n" ++ b)).exec p = (.error ⟨line.number, line.text⟩, q)) ∧
    (∀ line, Recognised a → badLine? b = some line → ∃ shown q r,
      (run db a).exec p = (.ok shown, q) ∧
        (run db b).exec q = (.error ⟨line.number, line.text⟩, r) ∧
        (run db (a ++ "\n" ++ b)).exec p =
          (.error ⟨a.toList.count '\n' + 1 + line.number, line.text⟩, r)) := by
  unfold run
  rw [Line.ofScript_join, runLines_append]
  refine ⟨fun ha hb => ?_, fun line ha => ?_, fun line ha hb => ?_⟩
  · obtain ⟨shown, q, hq⟩ := exec_runLines_ok db ha p
    obtain ⟨shown', r, hr⟩ := exec_runLines_ok db hb q
    refine ⟨shown, q, shown', r, hq, hr, ?_⟩
    rw [exec_bind_ok hq, exec_bind, runLines_below, hr]
    rfl
  · obtain ⟨q, hq⟩ := exec_runLines_error db ha p
    exact ⟨q, hq, exec_bind_error hq⟩
  · obtain ⟨shown, q, hq⟩ := exec_runLines_ok db ha p
    obtain ⟨r, hr⟩ := exec_runLines_error db hb q
    refine ⟨shown, q, r, hq, hr, ?_⟩
    rw [exec_bind_ok hq, exec_bind, runLines_below, hr]
    rfl

/-! ## A script that is cut within a transaction -/

/-- Outcomes are not cached. -/
def plainDb : Database := { config := { readResolution := false }, queue := none }

/-- A savepoint is set and a row written; the last line has a carriage return and no line feed. -/
def writingScript : String := "savepoint s # kept\r\n\nput t k 1\r"

/-- The row is read before and after a rollback to the savepoint. -/
def readingScript : String := "get k\nrollback-to s\nget k\n"

/-- The second line has no value. -/
def brokenScript : String := "begin\nput t k\nget k"

/-- The general rule at these scripts: the reading one goes on in the transaction of the writing
one, and after the broken one it does not run. -/
theorem run_join_cut :
    (∃ shown q shown' r,
      (run plainDb writingScript).exec (start plainDb, {}) = (.ok shown, q) ∧
        (run plainDb readingScript).exec q = (.ok shown', r) ∧
        (run plainDb (writingScript ++ "\n" ++ readingScript)).exec (start plainDb, {}) =
          (.ok (shown ++ shown'), r) ∧
        shown ++ shown' = ["[main] savepoint s -> depth 2", "[main] put t k 1 -> ok",
          "[main] get k -> 1", "[main] rollback-to s -> depth 2", "[main] get k -> (none)"]) ∧
    ∃ q, (run plainDb brokenScript).exec (start plainDb, {}) = (.error ⟨2, "put t k"⟩, q) ∧
      (run plainDb (brokenScript ++ "\n" ++ readingScript)).exec (start plainDb, {}) =
        (.error ⟨2, "put t k"⟩, q) := by
  obtain ⟨hrun, -, -⟩ := run_join plainDb writingScript readingScript (start plainDb, {})
  obtain ⟨-, hbad, -⟩ := run_join plainDb brokenScript readingScript (start plainDb, {})
  obtain ⟨shown, q, shown', r, hq, hr, hjoined⟩ := hrun (by decide +kernel) (by decide +kernel)
  have hshown :
      ((run plainDb (writingScript ++ "\n" ++ readingScript)).exec (start plainDb, {})).1 =
        .ok ["[main] savepoint s -> depth 2", "[main] put t k 1 -> ok", "[main] get k -> 1",
          "[main] rollback-to s -> depth 2", "[main] get k -> (none)"] := by decide +kernel
  rw [hjoined] at hshown
  refine ⟨⟨shown, q, shown', r, hq, hr, hjoined, Except.ok.inj hshown⟩, ?_⟩
  exact hbad ⟨2, "put t k", none⟩ (by decide +kernel)

end Runner

end NestedTxn
