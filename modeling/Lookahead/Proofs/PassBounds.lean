import Lookahead.Proofs.First
import Lookahead.Proofs.Follow
import Lookahead.Proofs.Loops

/-!
# How many passes the analysis takes

The nullable set and the FIRST and FOLLOW sets come out of loops that notice a change by what an
item does to a set: a nonterminal that was not in it, or a set that has become larger
(`SetTable.extendEntry`). A set only grows, so this notices every change, and the loops stop in the
sets of the analysis. With `n` nonterminals and `t` terminals this takes at most `n + 1` passes for
the nullable set and `n * (t + 1) + 1` for either table, since no more can be missing, and the sets
stay in range all the time (`Built.loops_stop`).
-/

namespace Lookahead

/-! ## Sizes -/

/-- One symbol more makes a set larger by one at most. -/
theorem SymbolSet.size_insert_le (s : SymbolSet) (a : Symbol) : (s.insert a).size ≤ s.size + 1 := by
  show (SymbolSet.insertAscending a s.toList).length ≤ s.toList.length + 1
  induction s.toList with
  | nil => exact Nat.le_refl 1
  | cons b rest ih =>
    rw [SymbolSet.insertAscending]
    split
    · exact Nat.le_refl _
    · split
      · exact Nat.le_succ _
      · exact Nat.succ_le_succ ih

/-- Inserting a symbol changes nothing exactly if it is there already. -/
theorem SymbolSet.insert_eq_iff {s : SymbolSet} {a : Symbol} : s.insert a = s ↔ a ∈ s := by
  constructor
  · intro h
    rw [← h]
    exact mem_insert.mpr (.inl rfl)
  · intro ha
    refine ext_mem fun x => mem_insert.trans (or_iff_right_of_imp ?_)
    rintro rfl
    exact ha

namespace SetTable

variable {table : SetTable} {key : Symbol} {symbols : SymbolSet}

/-- No more can be missing from a table than the whole range for each key. -/
theorem missing_le (range : SymbolSet) (table : SetTable) :
    table.missing range ≤ table.keys.size * range.size := by
  show room range table.entries ≤ (table.entries.map (·.1)).length * range.size
  induction table.entries with
  | nil => exact Nat.zero_le _
  | cons e rest ih =>
    rw [room, List.map_cons, List.length_cons, Nat.succ_mul, Nat.add_comm]
    exact Nat.add_le_add ih (Nat.sub_le _ _)

/-! ## Growing an entry -/

/-- The table with more symbols in the entry of a key, which is made if there is none, and whether
the entry has become larger. -/
def extendEntry (table : SetTable) (key : Symbol) (symbols : SymbolSet) : SetTable × Bool :=
  let grown := table.setOf key ∪ symbols
  (table.alter key fun _ => grown, decide (grown.size ≠ (table.setOf key).size))

/-- Where the key has an entry, the table grows, and a larger entry is the same as another table. -/
theorem extendEntry_eq (hkey : key ∈ table.keys) :
    table.extendEntry key symbols =
      (table.grow key symbols, decide (table.grow key symbols ≠ table)) := by
  obtain ⟨set, hset⟩ := SymbolMap.mem_keys.mp hkey
  have hsetOf : table.setOf key = set := by
    rw [setOf, SymbolMap.getD, hset]
    rfl
  have hgrow : ∀ k, (table.grow key symbols).get? k =
      if k = key then some (set ∪ symbols) else table.get? k := by
    intro k
    rw [grow, SymbolMap.get?_modify]
    split
    · rename_i hk
      rw [hk, hset]
      rfl
    · rfl
  have htable : table.alter key (fun _ => set ∪ symbols) = table.grow key symbols :=
    SymbolMap.ext_get? fun k => by rw [hgrow, SymbolMap.get?_alter]
  -- a union that is no larger has nothing new, so the comparison of sizes misses no change
  have hsize : (set ∪ symbols).size = set.size ↔ table.grow key symbols = table := by
    constructor
    · intro hsize
      have hunion := SymbolSet.eq_of_subset_of_size_eq
        (SymbolSet.subset_union_left set symbols) hsize.symm
      refine SymbolMap.ext_get? fun k => ?_
      rw [hgrow, ← hunion]
      split
      · rename_i hk
        rw [hk, hset]
      · rfl
    · intro hsame
      have hread := hgrow key
      rw [hsame, hset, if_pos rfl] at hread
      rw [← Option.some.inj hread]
  rw [extendEntry, hsetOf, htable]
  simp only [ne_eq, hsize]

end SetTable

namespace Grammar

variable {g : Grammar}

/-! ## The loops -/

/-- The loop that finds the nullable nonterminals. -/
def nullableLoop (g : Grammar) : Loop SymbolSet Rule where
  items := g.allRules
  treat known rule :=
    if rule.lhs ∉ known ∧ vanishes known rule.rhs = true then (known.insert rule.lhs, true)
    else (known, false)
  start := ∅

/-- A loop that takes what it finds for each item into the entry of the item's key. -/
def entryLoop {β : Type} (items : List β) (key : β → Symbol) (found : SetTable → β → SymbolSet)
    (start : SetTable) : Loop SetTable β where
  items := items
  treat table item := table.extendEntry (key item) (found table item)
  start := start

/-- The loop that finds the FIRST sets. -/
def firstLoop (g : Grammar) (nullable : SymbolSet) : Loop SetTable Rule :=
  entryLoop g.allRules (·.lhs) (fun first rule => firstOf nullable first rule.rhs) g.emptyTable

/-- The loop that finds the FOLLOW sets. The goal's entry holds the end marker before it begins. -/
def followLoop (g : Grammar) (nullable : SymbolSet) (first : SetTable) : Loop SetTable Symbol :=
  entryLoop g.nonterminals.toList id (g.followersOf nullable first)
    (g.emptyTable.extendEntry g.goal ((∅ : SymbolSet).insert Symbol.endMarker)).1

/-- Whether a table gives each nonterminal of a grammar a set, and no other symbol, with terminals
of the grammar and the end marker in it only. -/
structure IsLookaheadTable (g : Grammar) (table : SetTable) : Prop where
  keys_eq : table.keys = g.nonterminals
  mem_terminals : ∀ N, ∀ a ∈ table.setOf N, a ∈ g.terminals ∨ a = Symbol.endMarker
  ne_lambda : ∀ N, ∀ a ∈ table.setOf N, a ≠ Symbol.lambda
  not_mem_nonterminals : ∀ N, ∀ a ∈ table.setOf N, a ∉ g.nonterminals

/-! ## The range -/

/-- The names that head a listing are the nonterminals. -/
theorem WellFormed.names_eq (hg : g.WellFormed) : g.names = g.nonterminals :=
  SymbolSet.ext_mem fun _ => SymbolSet.mem_ofList.trans hg.mem_displayOrder

/-- The lookaheads of a grammar are its terminals and one end marker at most. -/
theorem WellFormed.size_lookaheads_le (hg : g.WellFormed) :
    g.lookaheads.size ≤ g.terminals.size + 1 := by
  refine Nat.le_trans (SymbolSet.size_le_of_subset fun a ha => ?_)
    (g.terminals.size_insert_le Symbol.endMarker)
  exact SymbolSet.mem_insert.mpr (hg.mem_terminals_of_mem_lookaheads ha).symm

/-- A table of sets of lookaheads, one for each nonterminal, holds terminals and end markers only.
-/
theorem WellFormed.isLookaheadTable (hg : g.WellFormed) {table : SetTable}
    (hkeys : table.keys = g.nonterminals) (hrange : table.Within g.lookaheads) :
    g.IsLookaheadTable table := by
  have hmem : ∀ N, ∀ a ∈ table.setOf N, a ∈ g.lookaheads := SetTable.setOf_subset hrange
  refine ⟨hkeys, fun N a ha => hg.mem_terminals_of_mem_lookaheads (hmem N a ha),
    fun N a ha heq => ?_, fun N a ha hN => ?_⟩
  · have hlambda := Symbol.isLambda_eq_false_of_isLookahead
      (hg.isLookahead_of_mem_lookaheads (hmem N a ha))
    rw [heq] at hlambda
    exact absurd hlambda (by decide)
  · have hlookahead := hg.isLookahead_of_mem_lookaheads (hmem N a ha)
    rw [Symbol.isLookahead_eq_false_of_isNonterminal (hg.isNonterminal_of_mem a hN)] at hlookahead
    exact Bool.false_ne_true hlookahead

/-! ## What the loops take -/

/-- A nonterminal that was not known before is the same as another set. -/
theorem nullableLoop_treat (g : Grammar) (known : SymbolSet) (r : Rule) :
    g.nullableLoop.treat known r =
      (nullableStep known r, decide (nullableStep known r ≠ known)) := by
  have htreat : g.nullableLoop.treat known r =
      if r.lhs ∉ known ∧ vanishes known r.rhs = true then (known.insert r.lhs, true)
      else (known, false) := rfl
  rw [htreat, nullableStep]
  cases vanishes known r.rhs with
  | false => simp
  | true =>
    by_cases hmem : r.lhs ∈ known
    · simp [hmem, SymbolSet.insert_eq_iff.mpr hmem]
    · simp [hmem, SymbolSet.insert_eq_iff]

/-- The loop for the nullable set takes as many passes as its descent, and stays among the
nonterminals. -/
theorem WellFormed.nullableLoop_stopsIn (hg : g.WellFormed) :
    g.nullableLoop.StopsIn g.nullable (g.nullableDescent.passes ∅ (SymbolSet.empty_subset _))
      (· ⊆ g.nonterminals) := by
  have hrank : ∀ r ∈ g.allRules, ∀ known, known ⊆ g.names → nullableStep known r = known ∨
      g.nullableDescent.rank (nullableStep known r) < g.nullableDescent.rank known := by
    intro r hr known hknown
    refine (nullableStep_eq_or_size_lt known r).imp_right fun hlt => ?_
    exact Nat.sub_lt_sub_left (Nat.lt_of_lt_of_le hlt
      (SymbolSet.size_le_of_subset (nullableStep_subset hr hknown))) hlt
  rw [← hg.names_eq]
  exact Loop.stopsIn_limit (fun _ hr _ => nullableStep_subset hr)
    (fun r _ known _ => g.nullableLoop_treat known r) hrank (fun _ => rfl)
    (SymbolSet.empty_subset _) (SymbolSet.empty_subset _)

/-- A loop that takes lookaheads into the entries of nonterminals stops in the limit of the descent
that grows their sets. -/
theorem WellFormed.entryLoop_stopsIn (hg : g.WellFormed) {β : Type} {items : List β}
    {key : β → Symbol} {found : SetTable → β → SymbolSet} {start : SetTable} {d : Descent SetTable}
    (hkey : ∀ b ∈ items, key b ∈ g.nonterminals)
    (hfound : ∀ b ∈ items, ∀ table : SetTable, table.Within g.lookaheads →
      found table b ⊆ g.lookaheads)
    (hrank : d.rank = SetTable.missing g.lookaheads)
    (hstep : ∀ table,
      d.step table = items.foldl (fun table b => table.grow (key b) (found table b)) table)
    (hstart : d.inRange start) (hkeys : start.keys = g.nonterminals)
    (hwithin : start.Within g.lookaheads) :
    (entryLoop items key found start).StopsIn (d.limit start hstart) (d.passes start hstart)
      g.IsLookaheadTable := by
  -- the items of the loop make up one step of the descent
  have hstops : (entryLoop items key found start).StopsIn (d.limit start hstart)
      (d.passes start hstart)
      fun table => table.keys = g.nonterminals ∧ table.Within g.lookaheads := by
    refine Loop.stopsIn_limit ?_ ?_ ?_ hstep hstart ⟨hkeys, hwithin⟩
    · rintro b hb table ⟨hkeys, hwithin⟩
      exact ⟨(SetTable.keys_grow ..).trans hkeys,
        SetTable.within_grow hwithin (hfound b hb table hwithin)⟩
    · rintro b hb table ⟨hkeys, -⟩
      exact SetTable.extendEntry_eq (hkeys ▸ hkey b hb)
    · rintro b hb table ⟨-, hwithin⟩
      rw [hrank]
      exact SetTable.grow_eq_or_missing_lt hwithin (hfound b hb table hwithin)
  exact hstops.mono fun _ h => hg.isLookaheadTable h.1 h.2

/-- No table over the nonterminals misses more than each lookahead once for each of them. -/
theorem WellFormed.missing_le (hg : g.WellFormed) {table : SetTable}
    (hkeys : table.keys = g.nonterminals) :
    table.missing g.lookaheads ≤ g.nonterminals.size * (g.terminals.size + 1) := by
  rw [← hkeys]
  exact (SetTable.missing_le _ _).trans (Nat.mul_le_mul_left _ hg.size_lookaheads_le)

/-- Every pass for the nullable set but the last takes in a nonterminal, so their number bounds the
passes. -/
theorem WellFormed.exists_nullableLoop_stopsIn (hg : g.WellFormed) :
    ∃ passes ≤ g.nonterminals.size + 1,
      g.nullableLoop.StopsIn g.nullable passes (· ⊆ g.nonterminals) := by
  refine ⟨_, ?_, hg.nullableLoop_stopsIn⟩
  rw [← hg.names_eq]
  exact Descent.passes_le ..

/-- Every pass for the FIRST sets but the last takes a lookahead into the set of a nonterminal, and
there is room for each lookahead in each set. -/
theorem WellFormed.exists_firstLoop_stopsIn (hg : g.WellFormed) (nullable : SymbolSet) :
    ∃ passes ≤ g.nonterminals.size * (g.terminals.size + 1) + 1,
      (g.firstLoop nullable).StopsIn (g.firstSets nullable) passes g.IsLookaheadTable := by
  have hkeys : g.emptyTable.keys = g.nonterminals := SymbolMap.keys_ofKeys ..
  have hwithin : g.emptyTable.Within g.lookaheads := SetTable.within_ofKeys_empty _ _
  refine ⟨(g.firstDescent nullable).passes g.emptyTable hwithin, ?_, ?_⟩
  · exact (Descent.passes_le ..).trans (Nat.succ_le_succ (hg.missing_le hkeys))
  · exact hg.entryLoop_stopsIn (fun _ hr => hg.lhs_mem (hg.mem_allRules.mp hr))
      (fun _ hr _ hfirst => firstOf_subset_lookaheads hfirst (rhs_mem_of_mem_allRules hr)) rfl
      (fun _ => rfl) hwithin hkeys hwithin

/-- Every pass for the FOLLOW sets but the last takes a lookahead into the set of a nonterminal, and
there is room for each lookahead in each set. -/
theorem WellFormed.exists_followLoop_stopsIn (hg : g.WellFormed) (nullable : SymbolSet)
    {first : SetTable} (hfirst : first.Within g.lookaheads) :
    ∃ passes ≤ g.nonterminals.size * (g.terminals.size + 1) + 1,
      (g.followLoop nullable first).StopsIn (g.followSets nullable first hfirst) passes
        g.IsLookaheadTable := by
  have hempty : g.emptyTable.keys = g.nonterminals := SymbolMap.keys_ofKeys ..
  have hkeys : g.goalTable.keys = g.nonterminals := (SetTable.keys_grow ..).trans hempty
  refine ⟨(g.followDescent nullable first hfirst).passes g.goalTable g.within_goalTable, ?_, ?_⟩
  · exact (Descent.passes_le ..).trans (Nat.succ_le_succ (hg.missing_le hkeys))
  · rw [followLoop, SetTable.extendEntry_eq (hempty ▸ hg.goal_mem)]
    exact hg.entryLoop_stopsIn (fun _ hN => SymbolSet.mem_toList.mp hN)
      (fun N _ _ hfollow => followersOf_subset hfirst hfollow N) rfl (fun _ => rfl)
      g.within_goalTable hkeys g.within_goalTable

/-- The loops of the analysis stop in its sets, after at most one pass for each fact that could be
missing and one more. At every moment the sets hold what they may hold, and at the end no item of a
pass changes them. -/
theorem Built.loops_stop (hg : g.Built) :
    (∃ passes ≤ g.nonterminals.size + 1,
        g.nullableLoop.StopsIn g.analyze.nullable passes (· ⊆ g.nonterminals)) ∧
      (∃ passes ≤ g.nonterminals.size * (g.terminals.size + 1) + 1,
        (g.firstLoop g.analyze.nullable).StopsIn g.analyze.first passes g.IsLookaheadTable) ∧
      ∃ passes ≤ g.nonterminals.size * (g.terminals.size + 1) + 1,
        (g.followLoop g.analyze.nullable g.analyze.first).StopsIn g.analyze.follow passes
          g.IsLookaheadTable :=
  ⟨hg.wellFormed.exists_nullableLoop_stopsIn, hg.wellFormed.exists_firstLoop_stopsIn _,
    hg.wellFormed.exists_followLoop_stopsIn _ (g.within_firstSets _)⟩

/-- A grammar with two nullable nonterminals, one of them through the other. -/
def nestedLists : Grammar :=
  (ofRules? [("S", [["List", "$"]]), ("List", [["a", "List"], ["Rest"]]),
    ("Rest", [["b"], ["lambda"]])]).get (by decide)

/-- The loops for nested lists stop within the bounds for three nonterminals and two terminals. -/
theorem nestedLists_loops_stop :
    nestedLists.Built ∧ "List" ∈ nestedLists.analyze.nullable ∧
      (∃ passes ≤ 4, nestedLists.nullableLoop.StopsIn nestedLists.analyze.nullable passes
        (· ⊆ nestedLists.nonterminals)) ∧
      (∃ passes ≤ 10, (nestedLists.firstLoop nestedLists.analyze.nullable).StopsIn
        nestedLists.analyze.first passes nestedLists.IsLookaheadTable) ∧
      ∃ passes ≤ 10, (nestedLists.followLoop nestedLists.analyze.nullable
        nestedLists.analyze.first).StopsIn nestedLists.analyze.follow passes
          nestedLists.IsLookaheadTable := by
  have hbuilt : nestedLists.Built := built_of_ofRules? (Option.some_get _).symm
  have hnonterminals : nestedLists.nonterminals.size = 3 := by decide
  have hterminals : nestedLists.terminals.size = 2 := by decide
  obtain ⟨hnullable, hfirst, hfollow⟩ := hbuilt.loops_stop
  rw [hnonterminals] at hnullable
  rw [hnonterminals, hterminals] at hfirst hfollow
  exact ⟨hbuilt, by decide +kernel, hnullable, hfirst, hfollow⟩

end Grammar

end Lookahead
