import Lookahead.Nullability.Optimistic
import Lookahead.Sets.Follow

/-!
# The analysis of a grammar

An analysis holds a grammar with its nullable nonterminals and its FIRST and FOLLOW sets, all
computed once, and answers questions about any symbols. A question about a symbol the grammar does
not know is refused.
-/

namespace Lookahead

/-- The reasons for refusing a question. -/
inductive QueryError where
  /-- The symbol is neither the grammar's nor one of the two reserved ones. -/
  | undefinedSymbol (symbol : Symbol)
  /-- The question is about nonterminals, and the symbol is none. -/
  | notANonterminal (symbol : Symbol)
  deriving DecidableEq, Repr

/-- The wording of a refusal. -/
def QueryError.message : QueryError → String
  | undefinedSymbol symbol => symbol.quoted ++ " is not a symbol of this grammar"
  | notANonterminal symbol => symbol.quoted ++ " is not a nonterminal"

/-- A grammar with its nullable nonterminals and its FIRST and FOLLOW sets. -/
structure Analysis where
  grammar : Grammar
  nullable : SymbolSet
  first : SetTable
  follow : SetTable

/-- The analysis of a grammar. -/
def Grammar.analyze (g : Grammar) : Analysis :=
  let nullable := g.nullable
  let first := g.firstSets nullable
  {
    grammar := g
    nullable := nullable
    first := first
    follow := g.followSets nullable first (g.within_firstSets nullable)
  }

namespace Analysis

/-- Refuses a symbol that the grammar does not know. -/
def checkSymbol (a : Analysis) (s : Symbol) : Except QueryError Unit :=
  if s.isEndMarker || s.isLambda || a.grammar.isTerminal s || a.grammar.isNonterminal s then .ok ()
  else .error (.undefinedSymbol s)

/-- Refuses the first symbol of a sequence that the grammar does not know. -/
def checkSymbols (a : Analysis) (symbols : List Symbol) : Except QueryError Unit :=
  symbols.forM a.checkSymbol

/-- Refuses a symbol that is not one of the grammar's nonterminals. -/
def checkNonterminal (a : Analysis) (s : Symbol) : Except QueryError Unit := do
  a.checkSymbol s
  if a.grammar.isNonterminal s then .ok () else .error (.notANonterminal s)

/-- Whether a nonterminal derives the empty string; symbols without rules do not. -/
def isNullable (a : Analysis) (s : Symbol) : Bool := s ∈ a.nullable

/-- The lookaheads that can begin a sequence of symbols. -/
def firstSet (a : Analysis) (symbols : List Symbol) : Except QueryError SymbolSet := do
  a.checkSymbols symbols
  return firstOf a.nullable a.first symbols

/-- The lookaheads that can come right after a nonterminal. -/
def followSet (a : Analysis) (nonterminal : Symbol) : Except QueryError SymbolSet := do
  a.checkNonterminal nonterminal
  return a.follow.setOf nonterminal

/-- The lookaheads that select a rule: FIRST of its right-hand side and, if that can vanish, FOLLOW
of its left-hand side. -/
def predictors (a : Analysis) (rule : Rule) : SymbolSet :=
  lookaheadsAt a.nullable a.first a.follow rule.lhs rule.rhs

/-- The lookaheads that select a rule, which need not be one of the grammar's. -/
def predictSet (a : Analysis) (rule : Rule) : Except QueryError SymbolSet := do
  a.checkNonterminal rule.lhs
  a.checkSymbols rule.rhs
  return a.predictors rule

/-- The nonterminals, by name, that are nullable only if cycles are assumed to vanish. -/
def cyclicNullability (a : Analysis) : List Symbol :=
  (a.grammar.cyclicallyNullable a.nullable).toList

end Analysis

end Lookahead
