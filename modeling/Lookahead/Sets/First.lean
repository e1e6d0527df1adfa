import Lookahead.Nullability.Least
import Lookahead.Sets.Table

/-!
# FIRST sets

FIRST of a sequence holds the lookaheads that can begin it. It runs through the sequence for as long
as the symbols passed can vanish: a terminal or the end marker contributes itself and stops the
run, a nonterminal contributes its own FIRST set and stops it unless it is nullable.

The FIRST sets of the nonterminals are the least table in which the set of each contains FIRST of
its alternatives.
-/

namespace Lookahead

/-- FIRST of a sequence, from the nullable nonterminals and the FIRST sets of nonterminals. -/
def firstOf (nullable : SymbolSet) (first : SetTable) : List Symbol → SymbolSet
  | [] => ∅
  | s :: rest =>
    if s.isLambda then firstOf nullable first rest
    else if s.isLookahead then (∅ : SymbolSet).insert s
    else if s ∈ nullable then first.setOf s ∪ firstOf nullable first rest
    else first.setOf s

/-- FIRST of a sequence holds only lookaheads of the sequence and members of FIRST sets. -/
theorem firstOf_subset {nullable range : SymbolSet} {first : SetTable} {symbols : List Symbol}
    (hfirst : first.Within range) (hsymbols : ∀ s ∈ symbols, s.isLookahead → s ∈ range) :
    firstOf nullable first symbols ⊆ range := by
  induction symbols with
  | nil => exact SymbolSet.empty_subset range
  | cons s rest ih =>
    have hrest := ih fun a ha => hsymbols a (List.mem_cons_of_mem s ha)
    rw [firstOf]
    split
    · exact hrest
    · split
      · rename_i hs
        intro a ha
        rcases SymbolSet.mem_insert.mp ha with rfl | ha
        · exact hsymbols a (by simp) hs
        · exact absurd ha (SymbolSet.not_mem_empty a)
      · split
        · exact SymbolSet.union_subset (SetTable.setOf_subset hfirst s) hrest
        · exact SetTable.setOf_subset hfirst s

namespace Grammar

/-- The symbols a FIRST or FOLLOW set can hold: the lookaheads in use, and the end marker. -/
def lookaheads (g : Grammar) : SymbolSet :=
  (SymbolSet.ofList (g.rightHandSides.flatten.filter Symbol.isLookahead)).insert Symbol.endMarker

/-- The terminals and end markers of the alternatives are lookaheads of the grammar. -/
theorem mem_lookaheads {g : Grammar} {alt : Alternative} (halt : alt ∈ g.rightHandSides)
    {s : Symbol} (hs : s ∈ alt) (hlookahead : s.isLookahead) : s ∈ g.lookaheads :=
  SymbolSet.mem_insert.mpr <| .inr <| SymbolSet.mem_ofList.mpr <|
    List.mem_filter.mpr ⟨List.mem_flatten.mpr ⟨alt, halt, hs⟩, hlookahead⟩

/-- The table of the nonterminals in which every set is without members. -/
def emptyTable (g : Grammar) : SetTable := .ofKeys g.nonterminals fun _ => ∅

/-- The table with FIRST of a rule's right-hand side taken into the set of its left-hand side. -/
def firstStep (nullable : SymbolSet) (first : SetTable) (rule : Rule) : SetTable :=
  first.grow rule.lhs (firstOf nullable first rule.rhs)

/-- FIRST of an alternative holds lookaheads of the grammar, if the table does. -/
theorem firstOf_subset_lookaheads {g : Grammar} {nullable : SymbolSet} {first : SetTable}
    (hfirst : first.Within g.lookaheads) {alt : Alternative} (halt : alt ∈ g.rightHandSides) :
    firstOf nullable first alt ⊆ g.lookaheads :=
  firstOf_subset hfirst fun _ hs => mem_lookaheads halt hs

/-- One pass over the rules takes FIRST of each right-hand side into the set of its left-hand
side. -/
def firstDescent (g : Grammar) (nullable : SymbolSet) : Descent SetTable :=
  .pass g.allRules (firstStep nullable) (SetTable.Within g.lookaheads)
    (SetTable.missing g.lookaheads)
    (fun _ hr _ hfirst =>
      SetTable.within_grow hfirst (firstOf_subset_lookaheads hfirst (rhs_mem_of_mem_allRules hr)))
    (fun _ hr _ hfirst => SetTable.grow_eq_or_missing_lt hfirst
      (firstOf_subset_lookaheads hfirst (rhs_mem_of_mem_allRules hr)))

/-- The FIRST sets of the nonterminals. -/
def firstSets (g : Grammar) (nullable : SymbolSet) : SetTable :=
  (g.firstDescent nullable).limit g.emptyTable (SetTable.within_ofKeys_empty _ _)

/-- FIRST sets hold lookaheads only. -/
theorem within_firstSets (g : Grammar) (nullable : SymbolSet) :
    (g.firstSets nullable).Within g.lookaheads :=
  (g.firstDescent nullable).inRange_limit _ _

end Grammar

end Lookahead
