import Lookahead.Symbol.Basic

/-!
# What can be wrong with a grammar

Each constructor is one cause. All but the last two are met when a rule is added, those two when
the finished rules are checked. `GrammarError.message` words each cause.
-/

namespace Lookahead

/-- The reasons for refusing a rule, or a finished set of rules. -/
inductive GrammarError where
  /-- Some, but not all, alternatives of a nonterminal end with the end marker. -/
  | partialEndMarker (lhs : Symbol)
  /-- A second nonterminal has alternatives that end with the end marker. -/
  | goalConflict (goal lhs : Symbol)
  /-- A rule was given to a symbol that is no nonterminal. -/
  | notANonterminal (symbol : Symbol)
  /-- A rule came without alternatives. -/
  | noAlternatives (lhs : Symbol)
  /-- An alternative has no symbols. -/
  | emptyAlternative (lhs : Symbol)
  /-- The end marker stands before the last place of an alternative. -/
  | misplacedEndMarker (lhs : Symbol)
  /-- `lambda` shares an alternative with other symbols. -/
  | misplacedLambda (lhs : Symbol)
  /-- A nonterminal is used but has no rules. -/
  | undefinedNonterminal (symbol usedBy : Symbol)
  /-- No alternative ends with the end marker. -/
  | missingGoal
  deriving DecidableEq, Repr

/-- The wording of a grammar error. -/
def GrammarError.message : GrammarError → String
  | partialEndMarker lhs => "Some but not all alternatives of " ++ lhs.quoted ++ " end with `$`"
  | goalConflict goal lhs =>
    lhs.quoted ++ " ends with `$` but " ++ goal.quoted ++ " is already the goal"
  | notANonterminal symbol => symbol.quoted ++ " is not a nonterminal and cannot have rules"
  | noAlternatives lhs => "Rule for " ++ lhs.quoted ++ " has no alternatives"
  | emptyAlternative lhs =>
    "Rule for " ++ lhs.quoted ++ " has an empty alternative (write `lambda`)"
  | misplacedEndMarker lhs =>
    "Rule for " ++ lhs.quoted ++ " has `$` before the end of an alternative"
  | misplacedLambda lhs => "Rule for " ++ lhs.quoted ++ " mixes `lambda` with other symbols"
  | undefinedNonterminal symbol usedBy =>
    "Could not find definition for " ++ symbol.quoted ++ " (used by " ++ usedBy.quoted ++ ")"
  | missingGoal => "No rule ends with `$`, so the grammar has no goal"

end Lookahead
