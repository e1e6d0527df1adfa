import Lookahead.Grammar.Basic
import Lookahead.Grammar.Error

/-!
# Building a grammar

A builder collects rules one at a time and keeps what a grammar needs beside them: the goal, which
is the one nonterminal whose alternatives all end with the end marker, and the symbols seen so far.
A rule goes through its checks before anything is written (`Builder.add`), so one that is refused
leaves no trace. `Builder.build` then checks that every nonterminal in use has rules and that there
is a goal, and reports everything that is missing.
-/

namespace Lookahead

/-- The rules collected so far, with their symbols and the goal, if one is known. -/
structure Builder where
  goal : Option Symbol
  terminals : SymbolSet
  nonterminals : SymbolSet
  table : RuleTable
  deriving DecidableEq, Repr

namespace Builder

/-- The builder without rules. -/
def empty : Builder := ⟨none, ∅, ∅, ∅⟩

instance : EmptyCollection Builder := ⟨empty⟩

instance : Inhabited Builder := ⟨∅⟩

end Builder

/-- What is done to a builder. It may fail on the way, and what was written before then stays. -/
abbrev BuilderM := EStateM GrammarError Builder

namespace Builder

/-- Fails with a fault if a condition is met. -/
def refuseIf (condition : Bool) (fault : GrammarError) : BuilderM Unit :=
  if condition then throw fault else return

/-- Whether further alternatives make their nonterminal the goal. Either all or none of the
alternatives of a nonterminal end with the end marker, and all of them do for one nonterminal at
most. -/
def checkGoal (b : Builder) (lhs : Symbol) (alts : List Alternative) : Except GrammarError Bool :=
  if alts.any Alternative.endsInput then
    if !alts.all Alternative.endsInput then .error (.partialEndMarker lhs)
    else
      match b.goal with
      | some goal => if goal = lhs then .ok true else .error (.goalConflict goal lhs)
      | none => if b.table.contains lhs then .error (.partialEndMarker lhs) else .ok true
  else if b.goal = some lhs then .error (.partialEndMarker lhs)
  else .ok false

/-- Adds a rule. The checks come first, those of the rule by itself and then that of the goal; the
fields of the builder are written one after the other. -/
def add (lhs : Symbol) (alts : List Alternative) : BuilderM Unit := do
  refuseIf (!lhs.isNonterminal) (.notANonterminal lhs)
  refuseIf alts.isEmpty (.noAlternatives lhs)
  refuseIf (alts.any (·.isEmpty)) (.emptyAlternative lhs)
  refuseIf (alts.any Alternative.mixesLambda) (.misplacedLambda lhs)
  refuseIf (alts.any Alternative.endsEarly) (.misplacedEndMarker lhs)
  if ← ofExcept ((← get).checkGoal lhs alts) then
    modify fun b => { b with goal := some lhs }
  let touched := alts.flatten
  modify fun b => { b with terminals := b.terminals.insertAll (touched.filter Symbol.isTerminal) }
  modify fun b =>
    { b with nonterminals := b.nonterminals.insertAll (touched.filter Symbol.isNonterminal) }
  modify fun b => { b with nonterminals := b.nonterminals.insert lhs }
  modify fun b => { b with table := b.table.alter lhs fun present => present.getD [] ++ alts }

/-- The builder with a rule added, or the fault that the rule is refused for. -/
def addRule (b : Builder) (lhs : Symbol) (alts : List Alternative) :
    Except GrammarError Builder :=
  match (add lhs alts).run b with
  | .ok _ next => .ok next
  | .error fault _ => .error fault

/-- The builder that adding a rule leaves, whether the rule is accepted or refused. -/
def offer (b : Builder) (call : Symbol × List Alternative) : Builder :=
  match (add call.1 call.2).run b with
  | .ok _ next => next
  | .error _ next => next

/-- The builder with a list of rules added in turn, or the fault of the first one refused. -/
def addRules (b : Builder) (rules : List (Symbol × List Alternative)) :
    Except GrammarError Builder :=
  rules.foldlM (fun b (lhs, alts) => b.addRule lhs alts) b

end Builder

/-- The uses of nonterminals without rules, by the using nonterminal and then as they occur; of a
run of equal uses the first one only. -/
def RuleTable.undefinedUses (table : RuleTable) : List GrammarError :=
  (table.entries.flatMap fun (lhs, alts) =>
    alts.flatten.filterMap fun symbol =>
      if symbol.isNonterminal && !table.contains symbol then
        some (.undefinedNonterminal symbol lhs)
      else none).eraseReps

namespace Builder

/-- Everything that keeps the rules from being a grammar: undefined uses, then a missing goal. -/
def faults (b : Builder) : List GrammarError :=
  b.table.undefinedUses ++ if b.goal.isNone then [.missingGoal] else []

/-- The grammar of the collected rules, or all that is wrong with them. -/
def build (b : Builder) : Except (List GrammarError) Grammar :=
  match b.goal with
  | some goal =>
    if b.faults.isEmpty then
      .ok {
        goal := goal
        terminals := b.terminals
        nonterminals := b.nonterminals
        table := b.table
        occurrences := b.table.occurrences
      }
    else .error b.faults
  | none => .error b.faults

end Builder

end Lookahead
