import Lookahead.Symbol.Map

/-!
# Grammars

A grammar is a goal, its two symbol sets and a table that gives each nonterminal its alternatives.
It also carries an index of occurrences, so that the rules using a symbol are found without
searching the table.

Listings come in a fixed order: the goal first, then the other nonterminals by name, the
alternatives of each in the order in which they were added.
-/

namespace Lookahead

/-- The alternatives of each nonterminal. -/
abbrev RuleTable := SymbolMap (List Alternative)

/-- A place of the rule table: one alternative of one nonterminal. -/
structure Occurrence where
  lhs : Symbol
  position : Nat
  deriving DecidableEq, Repr

namespace RuleTable

/-- Every symbol together with each place it occurs in, by nonterminal and position; a symbol that
occurs twice in one alternative is listed once for it. -/
def symbolPlaces (table : RuleTable) : List (Symbol × Occurrence) :=
  table.entries.flatMap fun (lhs, alts) =>
    alts.zipIdx.flatMap fun (alt, position) =>
      alt.eraseDups.map fun symbol => (symbol, ⟨lhs, position⟩)

/-- For each symbol the places it occurs in. -/
def occurrences (table : RuleTable) : SymbolMap (List Occurrence) :=
  table.symbolPlaces.foldl
    (fun index (symbol, place) => index.alter symbol fun places => places.getD [] ++ [place]) ∅

/-- The alternatives of a nonterminal, none if it has no rules. -/
def alternatives (table : RuleTable) (lhs : Symbol) : List Alternative := table.getD lhs []

/-- The rule at a place of the table. -/
def rule? (table : RuleTable) (place : Occurrence) : Option Rule :=
  (table.alternatives place.lhs)[place.position]?.map (⟨place.lhs, ·⟩)

end RuleTable

/-- A context-free grammar, indexed for analysis. -/
structure Grammar where
  goal : Symbol
  terminals : SymbolSet
  nonterminals : SymbolSet
  table : RuleTable
  occurrences : SymbolMap (List Occurrence)
  deriving DecidableEq, Repr

namespace Grammar

/-- Whether a symbol is one of the grammar's terminals. -/
def isTerminal (g : Grammar) (s : Symbol) : Bool := s ∈ g.terminals

/-- Whether a symbol is one of the grammar's nonterminals. -/
def isNonterminal (g : Grammar) (s : Symbol) : Bool := s ∈ g.nonterminals

/-- The rules of a nonterminal; other symbols have none. -/
def rulesFor (g : Grammar) (lhs : Symbol) : List Rule :=
  (g.table.alternatives lhs).map (⟨lhs, ·⟩)

/-- The rules whose right-hand side has the symbol, by left-hand side and then by position. -/
def rulesContaining (g : Grammar) (s : Symbol) : List Rule :=
  (g.occurrences.getD s []).filterMap g.table.rule?

/-- The nonterminals in the order of listings. -/
def displayOrder (g : Grammar) : List Symbol :=
  g.goal :: g.nonterminals.toList.filter (· != g.goal)

/-- Every rule, in the order of listings. -/
def allRules (g : Grammar) : List Rule := g.displayOrder.flatMap g.rulesFor

/-- Every right-hand side of the rule table. -/
def rightHandSides (g : Grammar) : List Alternative := g.table.entries.flatMap (·.2)

/-- A nonterminal and its alternatives, each on a line of its own. -/
def rulesText (g : Grammar) (lhs : Symbol) : String :=
  lhs ++ " -> " ++ "\n   | ".intercalate ((g.table.alternatives lhs).map Alternative.text)

/-- The grammar as a text that can be read back. -/
def text (g : Grammar) : String := "\n".intercalate (g.displayOrder.map g.rulesText)

/-! ## Rules and the table -/

/-- The rules of a nonterminal have it on their left. -/
theorem lhs_of_mem_rulesFor {g : Grammar} {lhs : Symbol} {r : Rule} (h : r ∈ g.rulesFor lhs) :
    r.lhs = lhs := by
  obtain ⟨alt, _, rfl⟩ := List.mem_map.mp h
  rfl

/-- An alternative read from the table is one of its right-hand sides. -/
theorem mem_rightHandSides {g : Grammar} {lhs : Symbol} {alt : Alternative}
    (h : alt ∈ g.table.alternatives lhs) : alt ∈ g.rightHandSides := by
  unfold RuleTable.alternatives SymbolMap.getD at h
  cases hget : g.table.get? lhs with
  | none => simp [hget] at h
  | some alts =>
    rw [hget] at h
    exact List.mem_flatMap.mpr ⟨(lhs, alts), SymbolMap.get?_eq_some_iff.mp hget, h⟩

/-- What a nonterminal's rules have on their right is an alternative of the grammar. -/
theorem rhs_mem_of_mem_rulesFor {g : Grammar} {lhs : Symbol} {r : Rule}
    (h : r ∈ g.rulesFor lhs) : r.rhs ∈ g.rightHandSides := by
  obtain ⟨alt, halt, rfl⟩ := List.mem_map.mp h
  exact mem_rightHandSides halt

/-- Every rule has an alternative of the grammar on its right. -/
theorem rhs_mem_of_mem_allRules {g : Grammar} {r : Rule} (h : r ∈ g.allRules) :
    r.rhs ∈ g.rightHandSides := by
  obtain ⟨lhs, _, hr⟩ := List.mem_flatMap.mp h
  exact rhs_mem_of_mem_rulesFor hr

/-- Every rule that the index gives has an alternative of the grammar on its right. -/
theorem rhs_mem_of_mem_rulesContaining {g : Grammar} {s : Symbol} {r : Rule}
    (h : r ∈ g.rulesContaining s) : r.rhs ∈ g.rightHandSides := by
  obtain ⟨place, _, hr⟩ := List.mem_filterMap.mp h
  obtain ⟨alt, halt, rfl⟩ := Option.map_eq_some_iff.mp hr
  exact mem_rightHandSides (List.mem_of_getElem? halt)

end Grammar

end Lookahead
