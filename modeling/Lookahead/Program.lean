import Lookahead.CommandLine
import Lookahead.Source.Reading

/-!
# The program

What a run writes and how it ends follow from the command line and the content of the file alone.
Problems with the file go to the error output and fail the run; a report goes to the standard
output, and the run then fails only if it is strict and the grammar has conflicts.
-/

namespace Lookahead

/-- What a run of the program leaves behind. -/
structure Outcome where
  code : Nat
  stdout : String
  stderr : String
  deriving DecidableEq, Repr

/-- The run of the program on a file, given its bytes if there is such a file. -/
def CommandLine.run (c : CommandLine) (content : Option ByteArray) : Outcome :=
  match Source.readContent c.file content with
  | .error errors => ⟨1, "", String.join (errors.map fun e => e.text ++ "\n")⟩
  | .ok grammar =>
    let analysis := grammar.analyze
    match analysis.report c.sections with
    | .error e => ⟨1, "", (Location.wholeFile c.file).report e.message ++ "\n"⟩
    | .ok text => ⟨if c.strict && !analysis.isLL1 then 1 else 0, text, ""⟩

end Lookahead
