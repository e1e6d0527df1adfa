import Lookahead.Sets.First

/-!
# FOLLOW sets

FOLLOW of a nonterminal holds the lookaheads that can come right after it. After one of its
occurrences in a rule comes FIRST of the rest of the alternative and, if that rest can vanish,
whatever follows the left-hand side. The input ends after a complete goal.

The FOLLOW sets are the least table that agrees with both rules.
-/

namespace Lookahead

/-- What can come next where `tail` ends an alternative of `lhs`. -/
def lookaheadsAt (nullable : SymbolSet) (first follow : SetTable) (lhs : Symbol)
    (tail : List Symbol) : SymbolSet :=
  firstOf nullable first tail ∪ if vanishes nullable tail then follow.setOf lhs else ∅

/-- The rests of a sequence after each occurrence of a symbol. -/
def tailsAfter (target : Symbol) : List Symbol → List (List Symbol)
  | [] => []
  | s :: rest => if s = target then rest :: tailsAfter target rest else tailsAfter target rest

/-- What stands behind an occurrence stands in the sequence. -/
theorem mem_of_mem_tailsAfter {target : Symbol} {symbols tail : List Symbol}
    (h : tail ∈ tailsAfter target symbols) {s : Symbol} (hs : s ∈ tail) : s ∈ symbols := by
  induction symbols with
  | nil => simp [tailsAfter] at h
  | cons a rest ih => grind [tailsAfter]

namespace Grammar

/-- What can come right after `target`, given what can follow the nonterminals that use it. -/
def followersOf (g : Grammar) (nullable : SymbolSet) (first follow : SetTable) (target : Symbol) :
    SymbolSet :=
  .unionAll <| (g.rulesContaining target).flatMap fun rule =>
    (tailsAfter target rule.rhs).map (lookaheadsAt nullable first follow rule.lhs)

/-- What can come right after a symbol is a lookahead of the grammar, if the tables hold only such.
-/
theorem followersOf_subset {g : Grammar} {nullable : SymbolSet} {first follow : SetTable}
    (hfirst : first.Within g.lookaheads) (hfollow : follow.Within g.lookaheads)
    (target : Symbol) : g.followersOf nullable first follow target ⊆ g.lookaheads := by
  intro a ha
  obtain ⟨set, hset, ha⟩ := SymbolSet.mem_unionAll.mp ha
  obtain ⟨rule, hrule, hset⟩ := List.mem_flatMap.mp hset
  obtain ⟨tail, htail, rfl⟩ := List.mem_map.mp hset
  have hrhs := rhs_mem_of_mem_rulesContaining hrule
  rcases SymbolSet.mem_union.mp ha with ha | ha
  · have hlookahead : ∀ s ∈ tail, s.isLookahead → s ∈ g.lookaheads := fun s hs =>
      mem_lookaheads hrhs (mem_of_mem_tailsAfter htail hs)
    exact firstOf_subset hfirst hlookahead a ha
  · split at ha
    · exact SetTable.setOf_subset hfollow _ a ha
    · exact absurd ha (SymbolSet.not_mem_empty a)

/-- The table in which only the goal is followed by anything: by the end of the input. -/
def goalTable (g : Grammar) : SetTable :=
  g.emptyTable.grow g.goal ((∅ : SymbolSet).insert Symbol.endMarker)

/-- The table that the passes start from holds lookaheads only. -/
theorem within_goalTable (g : Grammar) : g.goalTable.Within g.lookaheads := by
  refine SetTable.within_grow (SetTable.within_ofKeys_empty _ _) fun a ha => ?_
  rcases SymbolSet.mem_insert.mp ha with rfl | ha
  · exact SymbolSet.mem_insert.mpr (.inl rfl)
  · exact absurd ha (SymbolSet.not_mem_empty a)

/-- The table with all that can come right after `target` taken into its set. -/
def followStep (g : Grammar) (nullable : SymbolSet) (first follow : SetTable) (target : Symbol) :
    SetTable :=
  follow.grow target (g.followersOf nullable first follow target)

/-- One pass over the nonterminals takes in what can come right after each. -/
def followDescent (g : Grammar) (nullable : SymbolSet) (first : SetTable)
    (hfirst : first.Within g.lookaheads) : Descent SetTable :=
  .pass g.nonterminals.toList (g.followStep nullable first) (SetTable.Within g.lookaheads)
    (SetTable.missing g.lookaheads)
    (fun target _ _ hfollow =>
      SetTable.within_grow hfollow (followersOf_subset hfirst hfollow target))
    (fun target _ _ hfollow =>
      SetTable.grow_eq_or_missing_lt hfollow (followersOf_subset hfirst hfollow target))

/-- The FOLLOW sets of the nonterminals, from the nullable ones and the FIRST sets. -/
def followSets (g : Grammar) (nullable : SymbolSet) (first : SetTable)
    (hfirst : first.Within g.lookaheads) : SetTable :=
  (g.followDescent nullable first hfirst).limit g.goalTable g.within_goalTable

end Grammar

end Lookahead
