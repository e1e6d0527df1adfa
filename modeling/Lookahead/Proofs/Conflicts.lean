import Lookahead.Conflict

/-!
# Which conflicts are listed

The conflict list has one entry for each two positions of a nonterminal that share a lookahead, and
no others (`mem_conflicts_iff`). The entries come in strictly ascending order of nonterminal and
positions (`pairwise_conflicts`), so none comes twice.
-/

namespace Lookahead

/-- A set is not empty exactly if it has a member. -/
theorem SymbolSet.isEmpty_eq_false_iff {set : SymbolSet} :
    set.isEmpty = false ↔ ∃ a, a ∈ set := by
  unfold SymbolSet.isEmpty
  rw [List.isEmpty_eq_false_iff_exists_mem]
  rfl

/-! ## Pairs of a list -/

section Pairs

variable {α : Type} {l : List α} {x y : α}

/-- A pair of a list is made of two of its places, in their order. -/
theorem mem_pairs : (x, y) ∈ pairs l ↔ ∃ i j : Nat, i < j ∧ l[i]? = some x ∧ l[j]? = some y := by
  induction l with
  | nil => simp [pairs]
  | cons a rest ih =>
    rw [pairs, List.mem_append, ih, List.mem_map]
    constructor
    · rintro (⟨z, hz, heq⟩ | ⟨i, j, hij, hi, hj⟩)
      · obtain ⟨rfl, rfl⟩ := Prod.mk.inj heq
        obtain ⟨k, hk⟩ := List.mem_iff_getElem?.mp hz
        exact ⟨0, k + 1, by omega, rfl, hk⟩
      · exact ⟨i + 1, j + 1, by omega, hi, hj⟩
    · -- the pairs with the head are those from place 0
      rintro ⟨i, j, hij, hi, hj⟩
      obtain ⟨k, rfl⟩ : ∃ k, j = k + 1 := ⟨j - 1, by omega⟩
      rw [List.getElem?_cons_succ] at hj
      cases i with
      | zero =>
        obtain rfl : a = x := Option.some.inj hi
        exact .inl ⟨y, List.mem_of_getElem? hj, rfl⟩
      | succ i => exact .inr ⟨i, k, by omega, hi, hj⟩

/-- The pairs of an ordered list are ordered by their first and then by their second parts. -/
theorem pairwise_pairs {R : α → α → Prop} (h : l.Pairwise R) :
    (pairs l).Pairwise fun p q => R p.1 q.1 ∨ p.1 = q.1 ∧ R p.2 q.2 := by
  induction l with
  | nil => exact .nil
  | cons a rest ih =>
    obtain ⟨ha, hrest⟩ := List.pairwise_cons.mp h
    rw [pairs, List.pairwise_append, List.pairwise_map]
    refine ⟨?_, ih hrest, ?_⟩
    · exact hrest.imp fun hxy => .inr ⟨rfl, hxy⟩
    · -- the pairs of `a` come first, and every other first part stands behind `a`
      rintro p hp ⟨x, y⟩ hq
      obtain ⟨z, -, rfl⟩ := List.mem_map.mp hp
      obtain ⟨i, -, -, hi, -⟩ := mem_pairs.mp hq
      exact .inl (ha x (List.mem_of_getElem? hi))

end Pairs

namespace Analysis

variable {a : Analysis} {N : Symbol}

/-! ## Entries -/

/-- The choice at a position is the alternative there, with the lookaheads that select it. -/
theorem getElem?_choices {i : Nat} {choice : Choice} :
    (a.choices N)[i]? = some choice ↔
      ∃ alt, (a.grammar.table.alternatives N)[i]? = some alt ∧
        choice = ⟨i, alt, a.predictors ⟨N, alt⟩⟩ := by
  unfold choices
  rw [List.getElem?_map, List.getElem?_zipIdx, Option.map_map, Option.map_eq_some_iff]
  simp [eq_comm]

/-- Two choices are in conflict exactly if a lookahead selects both; the entry says where they
stand. -/
theorem conflict?_eq_some_iff {first second : Choice} {c : Conflict} :
    conflict? N first second = some c ↔
      (∃ s, s ∈ first.predictors ∩ second.predictors) ∧
        c = ⟨N, first.position, second.position, first.alternative, second.alternative,
          first.predictors ∩ second.predictors⟩ := by
  unfold conflict?
  rw [← SymbolSet.isEmpty_eq_false_iff]
  cases hempty : (first.predictors ∩ second.predictors).isEmpty with
  | true => simp [hempty]
  | false => simp [hempty, eq_comm]

/-- An entry of the list holds two alternatives at their positions and all the lookaheads that
select both, at least one. -/
theorem mem_conflicts_iff {c : Conflict} :
    c ∈ a.conflicts ↔
      c.nonterminal ∈ a.grammar.nonterminals ∧ c.firstPosition < c.secondPosition ∧
        (a.grammar.table.alternatives c.nonterminal)[c.firstPosition]? = some c.first ∧
        (a.grammar.table.alternatives c.nonterminal)[c.secondPosition]? = some c.second ∧
        c.lookahead =
          a.predictors ⟨c.nonterminal, c.first⟩ ∩ a.predictors ⟨c.nonterminal, c.second⟩ ∧
        ∃ s, s ∈ c.lookahead := by
  unfold conflicts
  simp only [List.mem_flatMap, List.mem_filterMap, Prod.exists, mem_pairs, conflict?_eq_some_iff,
    getElem?_choices]
  constructor
  · rintro ⟨N, hN, -, -, ⟨i, j, hij, ⟨alt, hi, rfl⟩, ⟨alt', hj, rfl⟩⟩, hshared, rfl⟩
    exact ⟨hN, hij, hi, hj, rfl, hshared⟩
  · rintro ⟨hN, hij, hi, hj, hlookahead, hshared⟩
    refine ⟨c.nonterminal, hN, _, _, ⟨c.firstPosition, c.secondPosition, hij, ⟨c.first, hi, rfl⟩,
      ⟨c.second, hj, rfl⟩⟩, ?_, ?_⟩
    · exact hlookahead ▸ hshared
    · rw [← hlookahead]

/-- Whether two positions of a nonterminal are listed with a lookahead. -/
def ListsConflict (a : Analysis) (N : Symbol) (i j : Nat) (s : Symbol) : Prop :=
  ∃ c ∈ a.conflicts, c.nonterminal = N ∧ c.firstPosition = i ∧ c.secondPosition = j ∧
    s ∈ c.lookahead

/-- Two positions of a nonterminal are listed with a lookahead exactly if it selects both. -/
theorem listsConflict_iff {i j : Nat} {s : Symbol} :
    a.ListsConflict N i j s ↔
      N ∈ a.grammar.nonterminals ∧ i < j ∧
        ∃ alt alt', (a.grammar.table.alternatives N)[i]? = some alt ∧
          (a.grammar.table.alternatives N)[j]? = some alt' ∧
          s ∈ a.predictors ⟨N, alt⟩ ∧ s ∈ a.predictors ⟨N, alt'⟩ := by
  unfold ListsConflict
  simp only [mem_conflicts_iff]
  constructor
  · rintro ⟨c, ⟨hN, hij, hi, hj, hlookahead, -⟩, rfl, rfl, rfl, hs⟩
    rw [hlookahead, SymbolSet.mem_inter] at hs
    exact ⟨hN, hij, c.first, c.second, hi, hj, hs⟩
  · rintro ⟨hN, hij, alt, alt', hi, hj, hs⟩
    have hs := SymbolSet.mem_inter.mpr hs
    exact ⟨⟨N, i, j, alt, alt', _⟩, ⟨hN, hij, hi, hj, rfl, s, hs⟩, rfl, rfl, rfl, hs⟩

/-- A grammar is LL(1) if no lookahead is shared by two positions of a nonterminal. -/
theorem isLL1_iff : a.isLL1 = true ↔ ¬∃ N i j s, a.ListsConflict N i j s := by
  unfold isLL1 ListsConflict
  rw [List.isEmpty_iff, List.eq_nil_iff_forall_not_mem]
  constructor
  · rintro hnone ⟨-, -, -, -, c, hc, -⟩
    exact hnone c hc
  · intro hnone c hc
    obtain ⟨-, -, -, -, -, s, hs⟩ := mem_conflicts_iff.mp hc
    exact hnone ⟨_, _, _, s, c, hc, rfl, rfl, rfl, hs⟩

/-- A grammar is LL(1) if no two alternatives of a nonterminal share a lookahead. -/
theorem isLL1_iff_pairwise :
    a.isLL1 = true ↔
      ∀ N ∈ a.grammar.nonterminals, (a.grammar.table.alternatives N).Pairwise fun alt alt' =>
        ∀ s, ¬(s ∈ a.predictors ⟨N, alt⟩ ∧ s ∈ a.predictors ⟨N, alt'⟩) := by
  rw [isLL1_iff]
  simp only [listsConflict_iff, List.pairwise_iff_getElem]
  constructor
  · intro hnone N hN i j hi hj hij s hs
    exact hnone ⟨N, i, j, s, hN, hij, _, _, List.getElem?_eq_getElem hi,
      List.getElem?_eq_getElem hj, hs⟩
  · rintro hnone ⟨N, i, j, s, hN, hij, alt, alt', halt, halt', hs⟩
    obtain ⟨hi, rfl⟩ := List.getElem?_eq_some_iff.mp halt
    obtain ⟨hj, rfl⟩ := List.getElem?_eq_some_iff.mp halt'
    exact hnone N hN i j hi hj hij s hs

end Analysis

/-! ## Order -/

/-- The order of conflicts: by nonterminal, then by the first and then by the second position. -/
def Conflict.Before (c d : Conflict) : Prop :=
  c.nonterminal < d.nonterminal ∨
    c.nonterminal = d.nonterminal ∧
      (c.firstPosition < d.firstPosition ∨
        c.firstPosition = d.firstPosition ∧ c.secondPosition < d.secondPosition)

namespace Analysis

/-- The choices come in the order of their positions. -/
theorem pairwise_choices (a : Analysis) (N : Symbol) :
    (a.choices N).Pairwise fun first second => first.position < second.position := by
  rw [List.pairwise_iff_getElem]
  intro i j hi hj hij
  obtain ⟨_, -, hfirst⟩ := getElem?_choices.mp (List.getElem?_eq_getElem hi)
  obtain ⟨_, -, hsecond⟩ := getElem?_choices.mp (List.getElem?_eq_getElem hj)
  rw [hfirst, hsecond]
  exact hij

/-- The conflicts are listed in strictly ascending order. -/
theorem pairwise_conflicts (a : Analysis) : a.conflicts.Pairwise Conflict.Before := by
  unfold conflicts
  rw [List.pairwise_flatMap]
  constructor
  · -- the conflicts of one nonterminal come in the order of its pairs
    intro N _
    rw [List.pairwise_filterMap]
    refine (pairwise_pairs (a.pairwise_choices N)).imp fun {p q} hpq c hc d hd => ?_
    obtain ⟨-, rfl⟩ := conflict?_eq_some_iff.mp hc
    obtain ⟨-, rfl⟩ := conflict?_eq_some_iff.mp hd
    refine .inr ⟨rfl, hpq.imp_right fun ⟨hsame, hlt⟩ => ?_⟩
    exact ⟨congrArg Choice.position hsame, hlt⟩
  · -- all conflicts of a nonterminal come before those of the next name
    refine a.grammar.nonterminals.sorted.imp fun {M N} hlt c hc d hd => ?_
    obtain ⟨p, -, hc⟩ := List.mem_filterMap.mp hc
    obtain ⟨q, -, hd⟩ := List.mem_filterMap.mp hd
    obtain ⟨-, rfl⟩ := conflict?_eq_some_iff.mp hc
    obtain ⟨-, rfl⟩ := conflict?_eq_some_iff.mp hd
    exact .inl hlt

end Analysis

end Lookahead
