import Lookahead.Program

/-!
# The executable

Reads the file that the command line names, runs the program on its content and writes the outcome.
-/

namespace Lookahead

/-- How the program is called. -/
def usage : String :=
  "Usage: lookahead [-s SECTION | --section SECTION]... [--strict] FILE\n" ++
    "Sections: " ++ ", ".intercalate (Section.all.map Section.name) ++ "\n"

/-- What the program says when it does not run. -/
def CommandLine.Refusal.message : Refusal → String
  | missingFile => "no grammar file was named\n" ++ usage
  | invalidValue => "a value is missing or not possible\n" ++ usage
  | unknownArgument => "an argument was not expected\n" ++ usage
  | repeatedFlag => "a flag was given twice\n" ++ usage
  | unexpectedValue => "a flag was given a value\n" ++ usage
  | help => usage
  | version => "lookahead 0.1.0\n"

/-- The bytes of a file, if there is such a file. -/
def contentOf (file : String) : IO (Option ByteArray) := do
  try
    return some (← IO.FS.readBinFile file)
  catch
    | .noFileOrDirectory .. => return none
    | e => throw e

end Lookahead

open Lookahead in
/-- Runs the program on the arguments; the result is the exit code. -/
def main (args : List String) : IO UInt32 := do
  match CommandLine.ofArgs args with
  | .error refusal =>
    if refusal.exitCode = 0 then IO.print refusal.message else IO.eprint refusal.message
    return refusal.exitCode.toUInt32
  | .ok commandLine =>
    let outcome := commandLine.run (← contentOf commandLine.file)
    IO.print outcome.stdout
    IO.eprint outcome.stderr
    return outcome.code.toUInt32
