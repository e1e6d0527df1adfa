import Lookahead.Text.Case

/-!
# Grammar symbols

A symbol's class depends on its text alone. `$` marks the end of the input and `lambda` stands for
nothing at all; of the other symbols, those written in lowercase are terminals and all the rest,
digits and punctuation included, are nonterminals. The empty text belongs to no class.
-/

namespace Lookahead

/-- A symbol of a grammar, known by its text. -/
abbrev Symbol := String

namespace Symbol

/-- The mark for the end of the input. -/
def endMarker : Symbol := "$"

/-- The symbol that stands for nothing. -/
def lambda : Symbol := "lambda"

/-- Lowercase text has at least one lowercase character and no uppercase one. -/
def isLowercaseText (s : Symbol) : Bool :=
  s.toList.any Text.isLowercase && !s.toList.any Text.isUppercase

/-- Whether a symbol is the end marker. -/
def isEndMarker (s : Symbol) : Bool := s == endMarker

/-- Whether a symbol is `lambda`. -/
def isLambda (s : Symbol) : Bool := s == lambda

/-- Whether a symbol is a terminal: any lowercase text but `lambda`. -/
def isTerminal (s : Symbol) : Bool := !isLambda s && isLowercaseText s

/-- Whether a symbol can have rules. -/
def isNonterminal (s : Symbol) : Bool :=
  s != "" && !isTerminal s && !isEndMarker s && !isLambda s

/-- Whether a symbol can be the next one of an input: a terminal or the end marker. -/
def isLookahead (s : Symbol) : Bool := isTerminal s || isEndMarker s

/-- The symbol between backticks, as messages show it. -/
def quoted (s : Symbol) : String := "`" ++ s ++ "`"

end Symbol

/-- The right-hand side of a production, symbol by symbol. -/
abbrev Alternative := List Symbol

namespace Alternative

/-- Whether the last symbol is the end marker. -/
def endsInput (alt : Alternative) : Bool := alt.getLast? == some Symbol.endMarker

/-- Whether the alternative is `lambda` alone. -/
def isEmptyString (alt : Alternative) : Bool := alt == [Symbol.lambda]

/-- Whether `lambda` shares the alternative with other symbols. -/
def mixesLambda (alt : Alternative) : Bool := alt.length > 1 && alt.any Symbol.isLambda

/-- Whether the end marker stands before the last place. -/
def endsEarly (alt : Alternative) : Bool := alt.dropLast.any Symbol.isEndMarker

/-- The symbols as they are written, a space between each two. -/
def text (alt : Alternative) : String := " ".intercalate alt

end Alternative

/-- A production: one alternative of one nonterminal. -/
structure Rule where
  lhs : Symbol
  rhs : Alternative
  deriving Repr, DecidableEq

end Lookahead
