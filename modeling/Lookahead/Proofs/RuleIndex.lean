import Lookahead.Proofs.Built

/-!
# Rule listing and occurrence index

Both ways to enumerate rules agree with the rule table. In a well-formed grammar the listing holds
exactly the rules of the table (`mem_allRules`), and the index finds exactly the rules whose
right-hand side has the symbol (`mem_rulesContaining`).
-/

namespace Lookahead

namespace RuleTable

/-- The alternatives of a nonterminal are those in its entry. -/
theorem alternatives_of_mem_entries {table : RuleTable} {lhs : Symbol} {alts : List Alternative}
    (h : (lhs, alts) ∈ table.entries) : table.alternatives lhs = alts := by
  unfold alternatives SymbolMap.getD
  rw [SymbolMap.get?_eq_some_iff.mpr h]
  rfl

/-- An alternative of a nonterminal stands in the nonterminal's entry. -/
theorem mem_alternatives_iff {table : RuleTable} {lhs : Symbol} {alt : Alternative} :
    alt ∈ table.alternatives lhs ↔ ∃ alts, (lhs, alts) ∈ table.entries ∧ alt ∈ alts := by
  constructor
  · intro h
    unfold alternatives SymbolMap.getD at h
    cases hget : table.get? lhs with
    | none => simp [hget] at h
    | some alts => exact ⟨alts, SymbolMap.get?_eq_some_iff.mp hget, by simpa [hget] using h⟩
  · rintro ⟨alts, hentry, halt⟩
    rwa [alternatives_of_mem_entries hentry]

/-- A place with a rule at it is listed for each symbol of the rule. -/
theorem mem_symbolPlaces {table : RuleTable} {s lhs : Symbol} {position : Nat} :
    (s, ⟨lhs, position⟩) ∈ table.symbolPlaces ↔
      ∃ alt, (table.alternatives lhs)[position]? = some alt ∧ s ∈ alt := by
  unfold symbolPlaces
  simp only [List.mem_flatMap, List.mem_map, List.mem_eraseDups, Prod.exists]
  constructor
  · rintro ⟨key, alts, hentry, alt, i, hi, symbol, hsymbol, heq⟩
    cases heq
    refine ⟨alt, ?_, hsymbol⟩
    rw [alternatives_of_mem_entries hentry]
    exact List.mk_mem_zipIdx_iff_getElem?.mp hi
  · rintro ⟨alt, halt, hs⟩
    unfold alternatives SymbolMap.getD at halt
    cases hget : table.get? lhs with
    | none => simp [hget] at halt
    | some alts =>
      rw [hget] at halt
      exact ⟨lhs, alts, SymbolMap.get?_eq_some_iff.mp hget, alt, position,
        List.mk_mem_zipIdx_iff_getElem?.mpr halt, s, hs, rfl⟩

/-- The index gives each symbol its places, in the order in which they are met. -/
theorem getD_occurrences (table : RuleTable) (s : Symbol) :
    table.occurrences.getD s [] =
      (table.symbolPlaces.filter fun entry => entry.1 = s).map (·.2) := by
  -- the index built so far stands before the places still to come
  suffices h : ∀ (places : List (Symbol × Occurrence)) (index : SymbolMap (List Occurrence)),
      (places.foldl (fun index entry =>
          index.alter entry.1 fun present => present.getD [] ++ [entry.2]) index).getD s [] =
        index.getD s [] ++ (places.filter fun entry => entry.1 = s).map (·.2) by
    exact h table.symbolPlaces ∅
  intro places
  induction places with
  | nil => simp
  | cons entry rest ih =>
    intro index
    rw [List.foldl_cons, ih]
    by_cases hs : entry.1 = s
    · subst hs
      simp [SymbolMap.getD, SymbolMap.get?_alter]
    · have hne : s ≠ entry.1 := Ne.symm hs
      simp [SymbolMap.getD, SymbolMap.get?_alter, hs, hne]

end RuleTable

namespace Grammar

variable {g : Grammar}

/-- The rules of a nonterminal pair it with its alternatives. -/
theorem mem_rulesFor {lhs : Symbol} {r : Rule} :
    r ∈ g.rulesFor lhs ↔ r.lhs = lhs ∧ r.rhs ∈ g.table.alternatives lhs := by
  unfold rulesFor
  rw [List.mem_map]
  constructor
  · rintro ⟨alt, halt, rfl⟩
    exact ⟨rfl, halt⟩
  · rintro ⟨rfl, hrhs⟩
    exact ⟨r.rhs, hrhs, rfl⟩

/-- The goal heads the listing and the other nonterminals follow. -/
theorem WellFormed.mem_displayOrder (hg : g.WellFormed) {N : Symbol} :
    N ∈ g.displayOrder ↔ N ∈ g.nonterminals := by
  unfold displayOrder
  rw [List.mem_cons, List.mem_filter, SymbolSet.mem_toList, bne_iff_ne]
  constructor
  · rintro (rfl | ⟨hN, -⟩)
    · exact hg.goal_mem
    · exact hN
  · intro hN
    by_cases hgoal : N = g.goal
    · exact .inl hgoal
    · exact .inr ⟨hN, hgoal⟩

/-- The listing holds the rules of the table and no others. -/
theorem WellFormed.mem_allRules (hg : g.WellFormed) {r : Rule} :
    r ∈ g.allRules ↔ r.rhs ∈ g.table.alternatives r.lhs := by
  unfold allRules
  rw [List.mem_flatMap]
  constructor
  · rintro ⟨lhs, -, hr⟩
    obtain ⟨rfl, hrhs⟩ := mem_rulesFor.mp hr
    exact hrhs
  · intro hrhs
    exact ⟨r.lhs, hg.mem_displayOrder.mpr (hg.lhs_mem hrhs), mem_rulesFor.mpr ⟨rfl, hrhs⟩⟩

/-- The index finds the rules whose right-hand side has the symbol and no others. -/
theorem WellFormed.mem_rulesContaining (hg : g.WellFormed) {s : Symbol} {r : Rule} :
    r ∈ g.rulesContaining s ↔ r.rhs ∈ g.table.alternatives r.lhs ∧ s ∈ r.rhs := by
  unfold rulesContaining
  rw [hg.occurrences_eq, RuleTable.getD_occurrences, List.mem_filterMap]
  constructor
  · -- a listed place is one of a rule with the symbol, and the table still has the rule there
    rintro ⟨place, hplace, hr⟩
    obtain ⟨⟨symbol, place⟩, hentry, rfl⟩ := List.mem_map.mp hplace
    obtain ⟨hmem, hsymbol⟩ := List.mem_filter.mp hentry
    obtain rfl : symbol = s := by simpa using hsymbol
    obtain ⟨alt, halt, hs⟩ := RuleTable.mem_symbolPlaces.mp hmem
    obtain ⟨alt', halt', rfl⟩ := Option.map_eq_some_iff.mp hr
    obtain rfl : alt = alt' := Option.some.inj (halt.symm.trans halt')
    exact ⟨List.mem_of_getElem? halt, hs⟩
  · -- an alternative may occur twice; any of its positions leads to the rule
    rintro ⟨hrhs, hs⟩
    obtain ⟨position, hposition⟩ := List.mem_iff_getElem?.mp hrhs
    refine ⟨⟨r.lhs, position⟩, ?_, ?_⟩
    · refine List.mem_map.mpr ⟨(s, ⟨r.lhs, position⟩), List.mem_filter.mpr ⟨?_, by simp⟩, rfl⟩
      exact RuleTable.mem_symbolPlaces.mpr ⟨r.rhs, hposition, hs⟩
    · exact Option.map_eq_some_iff.mpr ⟨r.rhs, hposition, rfl⟩

end Grammar

end Lookahead
