import Lookahead.Analysis

/-!
# LL(1) conflicts

A parser that looks one symbol ahead must be able to choose between the alternatives of a
nonterminal. Two of them are in conflict if some lookahead selects both; a grammar without conflicts
is LL(1).
-/

namespace Lookahead

/-- Two alternatives of a nonterminal, with their positions, and the lookaheads that select both. -/
structure Conflict where
  nonterminal : Symbol
  firstPosition : Nat
  secondPosition : Nat
  first : Alternative
  second : Alternative
  lookahead : SymbolSet
  deriving DecidableEq, Repr

/-- The members of a set between braces. -/
def SymbolSet.braced (set : SymbolSet) : String := "\x7b" ++ ", ".intercalate set.toList ++ "\x7d"

/-- The conflict in words. -/
def Conflict.text (c : Conflict) : String :=
  c.nonterminal.quoted ++ ": " ++ Symbol.quoted c.first.text ++ " and "
    ++ Symbol.quoted c.second.text ++ " both predict on " ++ c.lookahead.braced

/-- Each element of a list with each later one, by the earlier and then by the later element. -/
def pairs {α : Type} : List α → List (α × α)
  | [] => []
  | a :: rest => rest.map (a, ·) ++ pairs rest

namespace Analysis

/-- An alternative at its position, with the lookaheads that select it. -/
structure Choice where
  position : Nat
  alternative : Alternative
  predictors : SymbolSet

/-- The choices a parser has at a nonterminal. -/
def choices (a : Analysis) (nonterminal : Symbol) : List Choice :=
  (a.grammar.table.alternatives nonterminal).zipIdx.map fun (alt, position) =>
    ⟨position, alt, a.predictors ⟨nonterminal, alt⟩⟩

/-- The conflict between two choices, if some lookahead selects both. -/
def conflict? (nonterminal : Symbol) (first second : Choice) : Option Conflict :=
  let lookahead := first.predictors ∩ second.predictors
  if lookahead.isEmpty then none
  else some {
    nonterminal := nonterminal
    firstPosition := first.position
    secondPosition := second.position
    first := first.alternative
    second := second.alternative
    lookahead := lookahead
  }

/-- The conflicts of the grammar, by nonterminal and then by the positions of the alternatives. -/
def conflicts (a : Analysis) : List Conflict :=
  a.grammar.nonterminals.toList.flatMap fun nonterminal =>
    (pairs (a.choices nonterminal)).filterMap fun (first, second) =>
      conflict? nonterminal first second

/-- Whether one symbol of lookahead is always enough to choose an alternative. -/
def isLL1 (a : Analysis) : Bool := a.conflicts.isEmpty

end Analysis

end Lookahead
