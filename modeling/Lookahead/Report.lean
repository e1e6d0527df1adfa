import Lookahead.Conflict

/-!
# Reports

A report is made of sections: the grammar itself, the sets of its analysis, and the verdict whether
it is LL(1). Each section is a title line and indented lines under it; a report has each of its
sections once, a blank line between each two.
-/

namespace Lookahead

/-- The parts a report can have. -/
inductive Section where
  | grammar
  | nullable
  | first
  | follow
  | predict
  | ll1
  deriving DecidableEq, Repr

namespace Section

/-- Every section, in the order of a full report. -/
def all : List Section := [grammar, nullable, first, follow, predict, ll1]

/-- The name by which a section is asked for. -/
def name : Section → String
  | grammar => "grammar"
  | nullable => "nullable"
  | first => "first"
  | follow => "follow"
  | predict => "predict"
  | ll1 => "ll1"

/-- The section of a name. -/
def ofName? (name : String) : Option Section := all.find? fun s => s.name == name

end Section

namespace Analysis

/-- The symbols, the goal and the rules of the grammar. -/
def grammarSection (a : Analysis) : String :=
  "Terminals: " ++ a.grammar.terminals.braced ++ "\n" ++
    "Nonterminals: " ++ a.grammar.nonterminals.braced ++ "\n" ++
    "Goal = " ++ a.grammar.goal ++ "\n" ++
    "Rules:\n" ++ a.grammar.text ++ "\n"

/-- The warning about a nonterminal that is nullable only if cycles are assumed to vanish. -/
def cycleWarning (nonterminal : Symbol) : String :=
  "  warning: " ++ nonterminal.quoted ++
    " is not nullable, but a traversal that assumes its cycles vanish says it is\n"

/-- Which nonterminals are nullable, and which a search through cycles would also call so. -/
def nullableSection (a : Analysis) : String :=
  let values := a.grammar.nonterminals.toList.map fun nonterminal =>
    "  " ++ nonterminal ++ " = " ++ toString (a.isNullable nonterminal) ++ "\n"
  "derives_to_lambda\n" ++ String.join (values ++ a.cyclicNullability.map cycleWarning)

/-- A titled section with a set for each nonterminal. -/
def setSection (a : Analysis) (title : String)
    (setOf : Symbol → Except QueryError SymbolSet) : Except QueryError String := do
  let lines ← a.grammar.nonterminals.toList.mapM fun nonterminal => do
    let set ← setOf nonterminal
    return "  " ++ nonterminal ++ " = " ++ set.braced ++ "\n"
  return title ++ "\n" ++ String.join lines

/-- The lookaheads that select each rule. -/
def predictSection (a : Analysis) : Except QueryError String := do
  let lines ← a.grammar.allRules.mapM fun rule => do
    let set ← a.predictSet rule
    return "  " ++ rule.lhs ++ " -> " ++ rule.rhs.text ++ " = " ++ set.braced ++ "\n"
  return "predict_set\n" ++ String.join lines

/-- Whether the grammar is LL(1), and the conflicts if it is not. -/
def ll1Section (a : Analysis) : String :=
  if a.isLL1 then "LL(1): yes\n"
  else "LL(1): no\n" ++ String.join (a.conflicts.map fun c => "  " ++ c.text ++ "\n")

/-- The text of one section. -/
def sectionText (a : Analysis) : Section → Except QueryError String
  | .grammar => .ok a.grammarSection
  | .nullable => .ok a.nullableSection
  | .first => a.setSection "first_set" fun nonterminal => a.firstSet [nonterminal]
  | .follow => a.setSection "follow_set" a.followSet
  | .predict => a.predictSection
  | .ll1 => .ok a.ll1Section

/-- The report with the given sections, each once, in the order in which they are first named. -/
def report (a : Analysis) (sections : List Section) : Except QueryError String := do
  let parts ← sections.eraseDups.mapM a.sectionText
  return "\n".intercalate parts

end Analysis

end Lookahead
