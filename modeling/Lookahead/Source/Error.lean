import Lookahead.Grammar.Error
import Lookahead.Source.Location

/-!
# What can be wrong with a grammar file

A file can be unreadable, a line can be malformed, a line of alternatives can come before every
rule, and rules that are well formed one by one can fail to make a grammar. `ReadError` says which
and where.
-/

namespace Lookahead

/-- The reasons for refusing one line. -/
inductive LineError where
  /-- The line defines something other than a nonterminal. -/
  | missingNonterminal
  /-- The nonterminal is not followed by an arrow. -/
  | missingArrow
  /-- An arrow stands among the alternatives. -/
  | unexpectedArrow
  /-- Nothing stands between two bars, or after the arrow. -/
  | emptyAlternative
  /-- The end marker stands before the last place of an alternative. -/
  | misplacedEndMarker
  /-- `lambda` shares an alternative with other symbols. -/
  | misplacedLambda
  deriving DecidableEq, Repr

/-- The wording of a line's fault. -/
def LineError.message : LineError → String
  | missingNonterminal => "Tried to define something other than a nonterminal"
  | missingArrow => "Expected `->` after nonterminal"
  | unexpectedArrow => "Unexpected `->` encountered"
  | emptyAlternative => "Empty alternative (write `lambda` for an empty production)"
  | misplacedEndMarker => "`$` may only end an alternative"
  | misplacedLambda => "`lambda` must be the only symbol in its alternative"

/-- The reasons for not getting text from a file. -/
inductive FileError where
  /-- There is no such file. -/
  | notFound
  /-- A line is not valid UTF-8. -/
  | invalidData
  deriving DecidableEq, Repr

/-- The wording of a file's fault. -/
def FileError.message : FileError → String
  | notFound => "No such file or directory (os error 2)"
  | invalidData => "stream did not contain valid UTF-8"

/-- The reasons for refusing a grammar file. -/
inductive ReadError.Cause where
  /-- A line is malformed. -/
  | line (fault : LineError)
  /-- A line of further alternatives comes before every rule. -/
  | danglingAlternative
  /-- The rules do not make a grammar. -/
  | grammar (fault : GrammarError)
  /-- The file could not be read. -/
  | file (fault : FileError)
  deriving DecidableEq, Repr

/-- The wording of a cause. -/
def ReadError.Cause.message : ReadError.Cause → String
  | line fault => fault.message
  | danglingAlternative => "`|` continues a rule, but no rule came before it"
  | grammar fault => fault.message
  | file fault => "File error: " ++ fault.message

/-- A problem with a grammar file, and its place. -/
structure ReadError where
  location : Location
  cause : ReadError.Cause
  deriving DecidableEq, Repr

namespace ReadError

/-- The problem as it is shown. -/
def text (e : ReadError) : String := e.location.report e.cause.message

/-- Whether two problems are the same one at the same place. -/
def same (a b : ReadError) : Bool := a.location.same b.location && a.cause == b.cause

end ReadError

end Lookahead
