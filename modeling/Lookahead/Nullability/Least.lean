import Lookahead.FixedPoint
import Lookahead.Grammar.Basic

/-!
# Nullability

A nonterminal is nullable if one of its alternatives vanishes: if each of its symbols is `lambda` or
a nullable nonterminal. `Grammar.nullable` is the least set that agrees with this rule. It starts
without members and takes in the left-hand side of every rule that vanishes, pass after pass over
the rules, until a pass takes in nothing.
-/

namespace Lookahead

/-- Whether every symbol of a sequence is `lambda` or one of the given nonterminals. -/
def vanishes (nullable : SymbolSet) (symbols : List Symbol) : Bool :=
  symbols.all fun s => s.isLambda || decide (s ∈ nullable)

namespace Grammar

/-- The known nullable nonterminals, with the left-hand side of `rule` if its alternative
vanishes. -/
def nullableStep (known : SymbolSet) (rule : Rule) : SymbolSet :=
  if vanishes known rule.rhs then known.insert rule.lhs else known

/-- Looking at one more rule takes in nothing or makes the set larger. -/
theorem nullableStep_eq_or_size_lt (known : SymbolSet) (rule : Rule) :
    nullableStep known rule = known ∨ known.size < (nullableStep known rule).size := by
  by_cases hsame : nullableStep known rule = known
  · exact .inl hsame
  · refine .inr (SymbolSet.size_lt_of_subset_of_ne (fun a ha => ?_) (Ne.symm hsame))
    unfold nullableStep
    split
    · exact SymbolSet.mem_insert.mpr (.inr ha)
    · exact ha

/-- The names that can turn out nullable: those that head a listing. -/
def names (g : Grammar) : SymbolSet := .ofList g.displayOrder

/-- The left-hand side of every rule heads a listing. -/
theorem lhs_mem_names {g : Grammar} {r : Rule} (h : r ∈ g.allRules) : r.lhs ∈ g.names := by
  obtain ⟨lhs, hlhs, hr⟩ := List.mem_flatMap.mp h
  exact SymbolSet.mem_ofList.mpr (lhs_of_mem_rulesFor hr ▸ hlhs)

/-- A rule takes in its left-hand side at most, so the set stays among the names. -/
theorem nullableStep_subset {g : Grammar} {r : Rule} (h : r ∈ g.allRules) {known : SymbolSet}
    (hknown : known ⊆ g.names) : nullableStep known r ⊆ g.names := by
  unfold nullableStep
  split
  · intro a ha
    rcases SymbolSet.mem_insert.mp ha with rfl | ha
    · exact lhs_mem_names h
    · exact hknown a ha
  · exact hknown

/-- One pass over the rules takes in what the known nullable nonterminals make vanish. -/
def nullableDescent (g : Grammar) : Descent SymbolSet :=
  .pass g.allRules nullableStep (· ⊆ g.names) (fun known => g.names.size - known.size)
    (fun _ hr _ hknown => nullableStep_subset hr hknown)
    (fun r hr known hknown => (nullableStep_eq_or_size_lt known r).imp_right fun hlt => by
      have hle := SymbolSet.size_le_of_subset (nullableStep_subset hr hknown)
      omega)

/-- The nullable nonterminals. -/
def nullable (g : Grammar) : SymbolSet := g.nullableDescent.limit ∅ (SymbolSet.empty_subset _)

end Grammar

end Lookahead
