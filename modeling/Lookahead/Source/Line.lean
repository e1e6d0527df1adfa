import Lookahead.Source.Error
import Lookahead.Source.Token

/-!
# Lines of rules

A line either starts a rule, as `A -> x | y` does, or begins with a bar and gives the rule before it
further alternatives, as `| z` does.
-/

namespace Lookahead

/-- A line of a grammar file that holds rule text. -/
inductive RuleLine where
  | head (lhs : Symbol) (alternatives : List Alternative)
  | continuation (alternatives : List Alternative)
  deriving DecidableEq, Repr

namespace RuleLine

/-- Whether the line continues a rule. -/
def isContinuation : RuleLine → Bool
  | head _ _ => false
  | continuation _ => true

/-- The pieces of a token list between its bars; one piece if there are none. -/
def splitAtBars : List Token → List (List Token)
  | [] => [[]]
  | .bar :: rest => [] :: splitAtBars rest
  | token :: rest =>
    match splitAtBars rest with
    | [] => [[token]]
    | piece :: pieces => (token :: piece) :: pieces

/-- The symbol that a token of an alternative is. -/
def symbolOf : Token → Except LineError Symbol
  | .arrow => .error .unexpectedArrow
  | .bar => .error .emptyAlternative
  | .symbol s => .ok s

/-- The first fault in the shape of an alternative. -/
def alternativeFault? (alt : Alternative) : Option LineError :=
  if alt.isEmpty then some .emptyAlternative
  else if alt.mixesLambda then some .misplacedLambda
  else if alt.endsEarly then some .misplacedEndMarker
  else none

/-- The alternative that the tokens between two bars make. -/
def readAlternative (tokens : List Token) : Except LineError Alternative := do
  let alt ← tokens.mapM symbolOf
  match alternativeFault? alt with
  | some fault => .error fault
  | none => .ok alt

/-- The alternatives that tokens separated by bars make. -/
def readAlternatives (tokens : List Token) : Except LineError (List Alternative) :=
  (splitAtBars tokens).mapM readAlternative

/-- The line that the tokens make, or the first fault among them. -/
def ofTokens : List Token → Except LineError RuleLine
  | .bar :: rest => continuation <$> readAlternatives rest
  | .symbol lhs :: rest =>
    if lhs.isNonterminal then
      match rest with
      | .arrow :: rest => head lhs <$> readAlternatives rest
      | _ => .error .missingArrow
    else .error .missingNonterminal
  | _ => .error .missingNonterminal

end RuleLine

end Lookahead
