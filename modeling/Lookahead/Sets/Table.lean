import Lookahead.Symbol.Map

/-!
# Tables of symbol sets

A table gives each nonterminal a set of symbols. It is only ever enlarged, and by symbols of a
finite range, so the number of symbols still missing from it falls with each change
(`grow_eq_or_missing_lt`).
-/

namespace Lookahead

/-- A set of symbols for each nonterminal. -/
abbrev SetTable := SymbolMap SymbolSet

namespace SetTable

/-- The set of a nonterminal, without members if the table has no entry for it. -/
def setOf (table : SetTable) (key : Symbol) : SymbolSet := table.getD key ∅

/-- The table with further symbols in the set of one nonterminal. -/
def grow (table : SetTable) (key : Symbol) (symbols : SymbolSet) : SetTable :=
  table.modify key (· ∪ symbols)

/-- Whether every set of the table lies in the range. -/
def Within (range : SymbolSet) (table : SetTable) : Prop := ∀ e ∈ table.entries, e.2 ⊆ range

/-- The number of symbols that the sets of some entries could still take in. -/
def room (range : SymbolSet) : List (Symbol × SymbolSet) → Nat
  | [] => 0
  | e :: rest => (range.size - e.2.size) + room range rest

/-- The number of symbols that the sets of the table could still take in. -/
def missing (range : SymbolSet) (table : SetTable) : Nat := room range table.entries

/-- Each set of a table within a range lies in it. -/
theorem setOf_subset {range : SymbolSet} {table : SetTable} (h : table.Within range)
    (key : Symbol) : table.setOf key ⊆ range := by
  unfold setOf SymbolMap.getD
  cases hget : table.get? key with
  | none => exact SymbolSet.empty_subset range
  | some set => exact h _ (SymbolMap.get?_eq_some_iff.mp hget)

/-- A table stays within its range when a set takes in symbols of the range. -/
theorem within_grow {range : SymbolSet} {table : SetTable} (h : table.Within range) {key : Symbol}
    {symbols : SymbolSet} (hsymbols : symbols ⊆ range) : (table.grow key symbols).Within range := by
  intro e he
  obtain ⟨f, hf, rfl⟩ := List.mem_map.mp he
  split
  · exact SymbolSet.union_subset (h f hf) hsymbols
  · exact h f hf

/-- A table with a set for each of `keys`, all without members, lies in every range. -/
theorem within_ofKeys_empty (range keys : SymbolSet) :
    Within range (SymbolMap.ofKeys keys fun _ => ∅) := by
  intro e he
  obtain ⟨key, _, rfl⟩ := List.mem_map.mp he
  exact SymbolSet.empty_subset range

/-- Growing a table changes nothing or lowers the number of missing symbols. -/
theorem grow_eq_or_missing_lt {range : SymbolSet} {table : SetTable} (h : table.Within range)
    {key : Symbol} {symbols : SymbolSet} (hsymbols : symbols ⊆ range) :
    table.grow key symbols = table ∨
      (table.grow key symbols).missing range < table.missing range := by
  -- entry by entry: only the set under the key can change, and then it gets larger
  suffices hlist : ∀ l : List (Symbol × SymbolSet), (∀ e ∈ l, e.2 ⊆ range) →
      let grown := l.map fun e => if e.1 = key then (e.1, e.2 ∪ symbols) else e
      grown = l ∨ room range grown < room range l by
    rcases hlist table.entries h with hsame | hlt
    · exact .inl (SymbolMap.ext_entries hsame)
    · exact .inr hlt
  intro l hl
  induction l with
  | nil => exact .inl rfl
  | cons e rest ih =>
    have hrest := ih fun f hf => hl f (List.mem_cons_of_mem e hf)
    have he : (if e.1 = key then (e.1, e.2 ∪ symbols) else e) = e ∨
        range.size - (if e.1 = key then (e.1, e.2 ∪ symbols) else e).2.size
          < range.size - e.2.size := by
      split
      · by_cases hsame : e.2 ∪ symbols = e.2
        · exact .inl (by rw [hsame])
        · have hlt := SymbolSet.size_lt_of_subset_of_ne
            (SymbolSet.subset_union_left e.2 symbols) (Ne.symm hsame)
          have hle := SymbolSet.size_le_of_subset
            (SymbolSet.union_subset (hl e (by simp)) hsymbols)
          exact .inr (by simp only; omega)
      · exact .inl rfl
    simp only [List.map_cons, room] at hrest ⊢
    rcases he with he | he <;> rcases hrest with hr | hr
    · exact .inl (by rw [he, hr])
    · exact .inr (by rw [he]; omega)
    · exact .inr (by rw [hr]; omega)
    · exact .inr (by omega)

end SetTable

end Lookahead
