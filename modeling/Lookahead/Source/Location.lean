/-!
# Places in a source file

A problem is reported with its place: a line of a file, counted from one, or the file as a whole.
Two file names mean the same file if they have the same segments; repeated and
trailing slashes and a `.` that is not in front add none.
-/

namespace Lookahead

/-- A line of a file, or the whole file. -/
structure Location where
  file : String
  line : Option Nat
  deriving DecidableEq, Repr

namespace Location

/-- The place of a problem with a whole file. -/
def wholeFile (file : String) : Location := ⟨file, none⟩

/-- The place of a problem with one line. -/
def atLine (file : String) (line : Nat) : Location := ⟨file, some line⟩

/-- The place as it is shown. -/
def text (place : Location) : String :=
  match place.line with
  | none => place.file
  | some line => place.file ++ ":" ++ toString line

/-- A problem at a place, in the colours of a terminal. -/
def report (place : Location) (message : String) : String :=
  "\x1b[31;49;1m[" ++ place.text ++ "]\x1b[39;49;1m  " ++ message ++ "\x1b[0m"

/-- The segments of a file name, an empty one in front if the name is absolute. -/
def segments (file : String) : List String :=
  match file.splitOn "/" with
  | [] => []
  | [only] => if only = "" then [] else [only]
  | first :: rest => first :: rest.filter fun segment => segment ≠ "" && segment ≠ "."

/-- Whether two places are the same line of the same file. -/
def same (a b : Location) : Bool := segments a.file == segments b.file && a.line == b.line

end Location

end Lookahead
