import Lookahead.Proofs.CyclicNullability
import Lookahead.Proofs.Growth

/-!
# Rules in another order

A builder accepts a list of rules if one well-formed table has them all (`Builder.accepts_iff`), so
neither their order nor how they are cut into calls matters. The order in which the rules of a
nonterminal come is the order of its alternatives, and the builder keeps nothing else of it
(`Builder.afterOffers_congr`). No answer depends on the order of alternatives
(`Grammar.IsReordering.answersAlike`): each is a set of which derivations decide the members, or the
limit of a descent from such a set, or asks something of all pairs of alternatives.
-/

namespace Lookahead

/-- Reordering a list does not make it empty. -/
theorem ne_nil_iff_of_perm {α : Type} {l l' : List α} (h : l.Perm l') : l ≠ [] ↔ l' ≠ [] := by
  rw [← List.length_pos_iff, ← List.length_pos_iff, h.length_eq]

namespace Grammar

variable {g g' : Grammar} {N : Symbol}

/-! ## Alternatives in another order -/

/-- Whether two grammars have the same goal and give each nonterminal the same alternatives, each as
often, in whatever order. -/
structure IsReordering (g g' : Grammar) : Prop where
  goal_eq : g'.goal = g.goal
  perm : ∀ lhs, (g.table.alternatives lhs).Perm (g'.table.alternatives lhs)

/-- Whether two grammars have the same symbols and give the same answers. -/
structure AnswersAlike (g g' : Grammar) : Prop where
  goal : g'.goal = g.goal
  terminals : g'.terminals = g.terminals
  nonterminals : g'.nonterminals = g.nonterminals
  isNullable : ∀ N, g'.analyze.isNullable N = g.analyze.isNullable N
  optimisticallyNullable : ∀ N, g'.optimisticallyNullable N = g.optimisticallyNullable N
  firstSet : ∀ symbols, g'.analyze.firstSet symbols = g.analyze.firstSet symbols
  followSet : ∀ N, g'.analyze.followSet N = g.analyze.followSet N
  predictSet : ∀ rule, g'.analyze.predictSet rule = g.analyze.predictSet rule
  cyclicNullability : g'.analyze.cyclicNullability = g.analyze.cyclicNullability
  isLL1 : g'.analyze.isLL1 = g.analyze.isLL1

/-- Suspects stay suspects with more alternatives if no more nonterminals are nullable. -/
theorem IsPartOf.cycleReaching_subset (h : g.IsPartOf g') (hg : g.Built) (hg' : g'.WellFormed)
    (hnullable : g'.nullable = g.nullable) :
    g.cycleReaching g.nullable ⊆ g'.cycleReaching g'.nullable := by
  intro N hN
  refine mem_cycleReaching (P := (· ∈ g.cycleReaching g.nullable)) ?_ ?_ hN
  · intro M hM
    obtain ⟨hmem, hnot⟩ := mem_nonterminals_of_mem_cycleReaching hM
    exact ⟨h.nonterminals_subset hg hg' M hmem, hnullable ▸ hnot⟩
  · intro M hM
    obtain ⟨alt, halt, hleads⟩ := leadsInto_iff.mp (leadsInto_cycleReaching hM)
    exact ⟨alt, h.mem_alternatives halt, hleads⟩

namespace IsReordering

/-- The grammar that was reordered is a reordering of the new one. -/
theorem symm (h : g.IsReordering g') : g'.IsReordering g :=
  ⟨h.goal_eq.symm, fun lhs => (h.perm lhs).symm⟩

/-- A reordering has all the alternatives, so a grammar is a part of it. -/
theorem isPartOf (h : g.IsReordering g') : g.IsPartOf g' :=
  ⟨h.goal_eq, fun halt => (h.perm _).subset halt⟩

section Built

variable (h : g.IsReordering g') (hg : g.Built) (hg' : g'.Built)
include h hg hg'

/-- A set that can only grow with the rules is the same whatever order they are in. -/
theorem set_eq {set : Grammar → SymbolSet}
    (hgrow : ∀ {g g' : Grammar}, g.IsPartOf g' → g.Built → g'.Built → set g ⊆ set g') :
    set g' = set g :=
  SymbolSet.subset_antisymm (hgrow h.symm.isPartOf hg' hg) (hgrow h.isPartOf hg hg')

/-- The terminals are the same. -/
theorem terminals_eq : g'.terminals = g.terminals :=
  h.set_eq hg hg' fun hpart hg hg' => hpart.terminals_subset hg.wellFormed hg'.wellFormed

/-- The nonterminals are the same. -/
theorem nonterminals_eq : g'.nonterminals = g.nonterminals :=
  h.set_eq hg hg' fun hpart hg hg' => hpart.nonterminals_subset hg hg'.wellFormed

/-- The nullable nonterminals are the same. -/
theorem nullable_eq : g'.nullable = g.nullable :=
  h.set_eq hg hg' fun hpart hg hg' => hpart.nullable_subset hg.wellFormed hg'.wellFormed

/-- Every sequence begins with the same lookaheads. -/
theorem firstLookaheads_eq (u : List Symbol) : g'.firstLookaheads u = g.firstLookaheads u :=
  h.set_eq hg hg' fun hpart hg hg' => hpart.firstLookaheads_subset hg.wellFormed hg'.wellFormed u

/-- Every nonterminal is followed by the same lookaheads. -/
theorem nextLookaheads_eq (hN : N ∈ g.nonterminals) :
    g'.nextLookaheads N = g.nextLookaheads N := by
  have hN' : N ∈ g'.nonterminals := h.nonterminals_eq hg hg' ▸ hN
  exact SymbolSet.subset_antisymm (h.symm.isPartOf.nextLookaheads_subset hg' hg.wellFormed hN')
    (h.isPartOf.nextLookaheads_subset hg hg'.wellFormed hN)

/-- Every alternative is selected by the same lookaheads. -/
theorem predictors_eq (hN : N ∈ g.nonterminals) (alt : Alternative) :
    g'.analyze.predictors ⟨N, alt⟩ = g.analyze.predictors ⟨N, alt⟩ := by
  have hN' : N ∈ g'.nonterminals := h.nonterminals_eq hg hg' ▸ hN
  exact SymbolSet.subset_antisymm (h.symm.isPartOf.predictors_subset hg' hg.wellFormed hN')
    (h.isPartOf.predictors_subset hg hg'.wellFormed hN)

/-! ## Questions -/

/-- The same symbols are known. -/
theorem checkSymbol_eq : g'.analyze.checkSymbol = g.analyze.checkSymbol := by
  funext s
  have hterminal : g'.isTerminal s = g.isTerminal s := by
    rw [isTerminal, isTerminal, h.terminals_eq hg hg']
  have hnonterminal : g'.isNonterminal s = g.isNonterminal s := by
    rw [isNonterminal, isNonterminal, h.nonterminals_eq hg hg']
  show (if _ || g'.isTerminal s || g'.isNonterminal s then _ else _) = _
  rw [hterminal, hnonterminal]
  rfl

/-- The same sequences have known symbols only. -/
theorem checkSymbols_eq : g'.analyze.checkSymbols = g.analyze.checkSymbols := by
  funext symbols
  rw [Analysis.checkSymbols, Analysis.checkSymbols, h.checkSymbol_eq hg hg']

/-- The same names are nonterminals. -/
theorem checkNonterminal_eq : g'.analyze.checkNonterminal = g.analyze.checkNonterminal := by
  funext s
  have hnonterminal : g'.isNonterminal s = g.isNonterminal s := by
    rw [isNonterminal, isNonterminal, h.nonterminals_eq hg hg']
  show (do g'.analyze.checkSymbol s; if g'.isNonterminal s then _ else _) = _
  rw [h.checkSymbol_eq hg hg', hnonterminal]
  rfl

/-- FIRST queries get the same answers. -/
theorem firstSet_eq (symbols : List Symbol) :
    g'.analyze.firstSet symbols = g.analyze.firstSet symbols := by
  have hsame := h.firstLookaheads_eq hg hg' symbols
  unfold Analysis.firstSet
  rw [h.checkSymbols_eq hg hg']
  exact congrArg (fun set => do g.analyze.checkSymbols symbols; return set) hsame

/-- FOLLOW queries get the same answers. -/
theorem followSet_eq (N : Symbol) : g'.analyze.followSet N = g.analyze.followSet N := by
  unfold Analysis.followSet
  rw [h.checkNonterminal_eq hg hg']
  cases hcheck : g.analyze.checkNonterminal N with
  | error => rfl
  | ok =>
    have hN := Analysis.checkNonterminal_eq_ok_iff.mp hcheck
    exact congrArg Except.ok (h.nextLookaheads_eq hg hg' hN)

/-- PREDICT queries get the same answers. -/
theorem predictSet_eq (rule : Rule) :
    g'.analyze.predictSet rule = g.analyze.predictSet rule := by
  unfold Analysis.predictSet
  rw [h.checkNonterminal_eq hg hg', h.checkSymbols_eq hg hg']
  cases hcheck : g.analyze.checkNonterminal rule.lhs with
  | error => rfl
  | ok =>
    have hsame := h.predictors_eq hg hg' (Analysis.checkNonterminal_eq_ok_iff.mp hcheck) rule.rhs
    exact congrArg (fun set => do g.analyze.checkSymbols rule.rhs; return set) hsame

/-! ## Cycles and conflicts -/

/-- The same nonterminals are under suspicion. -/
theorem cycleReaching_eq : g'.cycleReaching g'.nullable = g.cycleReaching g.nullable := by
  have hnullable := h.nullable_eq hg hg'
  exact SymbolSet.subset_antisymm
    (h.symm.isPartOf.cycleReaching_subset hg' hg.wellFormed hnullable.symm)
    (h.isPartOf.cycleReaching_subset hg hg'.wellFormed hnullable)

/-- The same nonterminals are reported as cyclically nullable. -/
theorem cyclicallyNullable_eq :
    g'.cyclicallyNullable g'.nullable = g.cyclicallyNullable g.nullable := by
  have hsettled : g'.beyondSuspicion = g.beyondSuspicion := by
    unfold beyondSuspicion
    rw [h.cycleReaching_eq hg hg', h.nullable_eq hg hg']
  apply SymbolSet.ext_mem
  intro N
  rw [mem_cyclicallyNullable, mem_cyclicallyNullable, h.cycleReaching_eq hg hg', hsettled,
    canVanish_of_perm h.perm]

/-- Whether two alternatives share a lookahead does not depend on which of them comes first. -/
theorem isLL1_of_isLL1 (hLL1 : g.analyze.isLL1 = true) : g'.analyze.isLL1 = true := by
  rw [Analysis.isLL1_iff_pairwise] at hLL1 ⊢
  intro N hN
  have hN : N ∈ g.nonterminals := h.nonterminals_eq hg hg' ▸ hN
  have hpairwise := ((h.perm N).pairwise_iff fun hnone s hs => hnone s hs.symm).mp (hLL1 N hN)
  refine hpairwise.imp fun {alt alt'} hnone => ?_
  rw [h.predictors_eq hg hg' hN, h.predictors_eq hg hg' hN]
  exact hnone

end Built

/-- The order of alternatives makes no difference to any answer. -/
theorem answersAlike (h : g.IsReordering g') (hg : g.Built) (hg' : g'.Built) :
    g.AnswersAlike g' where
  goal := h.goal_eq
  terminals := h.terminals_eq hg hg'
  nonterminals := h.nonterminals_eq hg hg'
  isNullable N := congrArg (decide <| N ∈ ·) (h.nullable_eq hg hg')
  optimisticallyNullable _ := canVanish_of_perm h.perm
  firstSet := h.firstSet_eq hg hg'
  followSet := h.followSet_eq hg hg'
  predictSet := h.predictSet_eq hg hg'
  cyclicNullability := congrArg SymbolSet.toList (h.cyclicallyNullable_eq hg hg')
  isLL1 := Bool.eq_iff_iff.mpr ⟨h.symm.isLL1_of_isLL1 hg' hg, h.isLL1_of_isLL1 hg hg'⟩

end IsReordering

end Grammar

/-! ## Rules in another order -/

namespace Builder

variable {calls calls' : List (Symbol × List Alternative)}

/-- Accepted rules that give each nonterminal the same alternatives lead to the same builder. -/
theorem afterOffers_congr (h : Accepts calls) (h' : Accepts calls')
    (hsame : ∀ N,
      (calls'.filter (·.1 = N)).flatMap (·.2) = (calls.filter (·.1 = N)).flatMap (·.2)) :
    afterOffers calls' = afterOffers calls := by
  refine (checked_afterOffers calls').ext (coherent_afterOffers calls') (checked_afterOffers calls)
    (coherent_afterOffers calls) fun N => ?_
  rw [alternatives_afterOffers h', alternatives_afterOffers h, hsame]

/-- Whether two lists give each nonterminal the same rules in the same order. -/
def KeepsOrder (calls calls' : List (Symbol × List Alternative)) : Prop :=
  ∀ N, calls'.filter (·.1 = N) = calls.filter (·.1 = N)

/-- Calls that keep the order for each nonterminal are accepted alike. -/
theorem KeepsOrder.accepts_iff (h : KeepsOrder calls calls') : Accepts calls ↔ Accepts calls' := by
  have hmem : ∀ call, call ∈ calls ↔ call ∈ calls' := by
    intro call
    have hcall : call ∈ calls.filter (·.1 = call.1) ↔ call ∈ calls'.filter (·.1 = call.1) := by
      rw [h call.1]
    simpa using hcall
  simp only [Builder.accepts_iff, hmem]

/-! ## Cutting a rule in two -/

/-- Whether one list of rules is another one in which a rule is cut in two. -/
inductive CutsInto : List (Symbol × List Alternative) → List (Symbol × List Alternative) → Prop
  | cut (before : List (Symbol × List Alternative)) (lhs : Symbol) (xs ys : List Alternative)
      (after : List (Symbol × List Alternative)) (hxs : xs ≠ []) (hys : ys ≠ []) :
      CutsInto (before ++ (lhs, xs ++ ys) :: after) (before ++ (lhs, xs) :: (lhs, ys) :: after)

/-- Cutting calls into parts keeps the alternatives of each nonterminal in order. -/
theorem CutsInto.flatMap_filter_eq (h : CutsInto calls calls') (N : Symbol) :
    (calls'.filter (·.1 = N)).flatMap (·.2) = (calls.filter (·.1 = N)).flatMap (·.2) := by
  obtain ⟨before, lhs, xs, ys, after, -, -⟩ := h
  by_cases hlhs : lhs = N <;> simp [hlhs]

/-- Calls cut into parts are accepted alike. -/
theorem CutsInto.accepts_iff (h : CutsInto calls calls') : Accepts calls ↔ Accepts calls' := by
  obtain ⟨before, lhs, xs, ys, after, hxs, hys⟩ := h
  simp only [Builder.accepts_iff, List.forall_mem_append, List.forall_mem_cons, and_assoc,
    ne_eq, List.append_eq_nil_iff, hxs, hys, false_and, not_false_eq_true, true_and]

/-! ## Moving rules and alternatives -/

/-- Whether two lists hold the same rules with the same alternatives, in whatever order. -/
def IsShuffled (calls calls' : List (Symbol × List Alternative)) : Prop :=
  ∃ moved, calls.Perm moved ∧
    moved.Forall₂ (fun call call' => call.1 = call'.1 ∧ call.2.Perm call'.2) calls'

/-- Calls in another order are shuffled. -/
theorem isShuffled_of_perm (h : calls.Perm calls') : IsShuffled calls calls' :=
  ⟨calls', h, List.forall₂_same.mpr fun _ _ => ⟨rfl, .refl _⟩⟩

/-- What does not depend on the order of a rule's alternatives is true of all rules before moving
exactly if it is after. -/
theorem IsShuffled.forall_iff (h : IsShuffled calls calls')
    {P : Symbol → List Alternative → Prop}
    (hP : ∀ lhs {alts alts'}, alts.Perm alts' → (P lhs alts ↔ P lhs alts')) :
    (∀ call ∈ calls, P call.1 call.2) ↔ ∀ call ∈ calls', P call.1 call.2 := by
  obtain ⟨moved, hmoved, halike⟩ := h
  have hsame : (∀ call ∈ calls, P call.1 call.2) ↔ ∀ call ∈ moved, P call.1 call.2 :=
    forall_congr' fun call => imp_congr_left hmoved.mem_iff
  rw [hsame]
  clear hmoved hsame
  induction halike with
  | nil => exact .rfl
  | cons hcall _ ih =>
    rw [List.forall_mem_cons, List.forall_mem_cons, hcall.1]
    exact and_congr (hP _ hcall.2) ih

/-- Shuffled calls are accepted alike. -/
theorem IsShuffled.accepts_iff (h : IsShuffled calls calls') :
    Accepts calls ↔ Accepts calls' := by
  rw [Builder.accepts_iff, Builder.accepts_iff]
  refine and_congr ?_ (exists_congr fun table => and_congr_right fun _ => ?_)
  · exact h.forall_iff (P := fun _ alts => alts ≠ []) fun _ _ _ halts => ne_nil_iff_of_perm halts
  · exact h.forall_iff (P := fun lhs alts => ∀ alt ∈ alts, alt ∈ table.alternatives lhs)
      fun _ _ _ halts => forall_congr' fun _ => imp_congr_left halts.mem_iff

/-- Shuffling reorders the alternatives of each nonterminal and loses none. -/
theorem IsShuffled.flatMap_filter_perm (h : IsShuffled calls calls') (N : Symbol) :
    ((calls.filter (·.1 = N)).flatMap (·.2)).Perm ((calls'.filter (·.1 = N)).flatMap (·.2)) := by
  obtain ⟨moved, hmoved, halike⟩ := h
  refine ((hmoved.filter _).flatMap_right _).trans ?_
  clear hmoved
  induction halike with
  | nil => exact .nil
  | @cons call call' rest rest' hcall _ ih =>
    obtain ⟨hlhs, halts⟩ := hcall
    by_cases hN : call.1 = N
    · have hN' : call'.1 = N := hlhs ▸ hN
      simp only [List.filter_cons, hN, hN', decide_true, if_true, List.flatMap_cons]
      exact halts.append ih
    · have hN' : ¬call'.1 = N := hlhs ▸ hN
      simp only [List.filter_cons, hN, hN', decide_false]
      exact ih

/-- After shuffled calls each nonterminal has the same alternatives in some order. -/
theorem IsShuffled.alternatives_perm (h : IsShuffled calls calls') (haccepts : Accepts calls)
    (N : Symbol) :
    ((afterOffers calls).table.alternatives N).Perm
      ((afterOffers calls').table.alternatives N) := by
  rw [alternatives_afterOffers haccepts, alternatives_afterOffers (h.accepts_iff.mp haccepts)]
  exact h.flatMap_filter_perm N

/-- After shuffled calls the goal is the same. -/
theorem IsShuffled.goal_eq (h : IsShuffled calls calls') (haccepts : Accepts calls) :
    (afterOffers calls').goal = (afterOffers calls).goal := by
  have hperm := h.alternatives_perm haccepts
  refine Option.ext fun goal => ?_
  rw [(consistent_afterOffers calls').goal_eq_some_iff,
    (consistent_afterOffers calls).goal_eq_some_iff]
  refine and_congr (ne_nil_iff_of_perm (hperm goal)).symm ?_
  exact forall_congr' fun _ => imp_congr_left (hperm goal).mem_iff.symm

/-- Moved rules are a grammar if the rules are, and one in which only alternatives have moved. -/
theorem IsShuffled.exists_build (h : IsShuffled calls calls') (haccepts : Accepts calls)
    {g : Grammar} (hg : (afterOffers calls).build = .ok g) :
    ∃ g', (afterOffers calls').build = .ok g' ∧ g.IsReordering g' := by
  have hperm := h.alternatives_perm haccepts
  have hgoal := h.goal_eq haccepts
  have hbuild : ∃ g', (afterOffers calls').build = .ok g' := by
    obtain ⟨⟨goal, hsome⟩, hdefined⟩ := exists_build_iff.mp ⟨g, hg⟩
    refine exists_build_iff.mpr ⟨⟨goal, hgoal.trans hsome⟩, fun halt N hN hnonterminal => ?_⟩
    have hcontains := hdefined ((hperm _).mem_iff.mpr halt) N hN hnonterminal
    obtain ⟨alt, hmem⟩ := (checked_afterOffers calls).contains_iff.mp hcontains
    exact RuleTable.contains_of_mem_alternatives ((hperm N).mem_iff.mp hmem)
  obtain ⟨g', hg'⟩ := hbuild
  obtain ⟨hbefore, -, -, htable, -⟩ := build_eq_ok hg
  obtain ⟨hafter, -, -, htable', -⟩ := build_eq_ok hg'
  refine ⟨g', hg', ?_, fun lhs => htable ▸ htable' ▸ hperm lhs⟩
  exact Option.some.inj (hafter.symm.trans (hgoal.trans hbefore))

/-- Rules are accepted in any order and cut in any way, or not at all. While the rules of each
nonterminal keep their order they finish alike, with the same grammar or the same faults; a grammar
with rules and alternatives in any other order differs in no answer. -/
theorem accepts_iff_and_answersAlike (calls : List (Symbol × List Alternative)) :
    (∀ calls', calls.Perm calls' → (Accepts calls ↔ Accepts calls')) ∧
      (∀ calls', CutsInto calls calls' → (Accepts calls ↔ Accepts calls')) ∧
      (Accepts calls →
        (∀ calls', KeepsOrder calls calls' →
          (afterOffers calls').build = (afterOffers calls).build) ∧
        (∀ calls', CutsInto calls calls' →
          (afterOffers calls').build = (afterOffers calls).build) ∧
        ∀ g, (afterOffers calls).build = .ok g → ∀ calls', IsShuffled calls calls' →
          Accepts calls' ∧ ∃ g', (afterOffers calls').build = .ok g' ∧ g.AnswersAlike g') := by
  refine ⟨fun calls' h => (isShuffled_of_perm h).accepts_iff, fun calls' h => h.accepts_iff, ?_⟩
  intro haccepts
  refine ⟨?_, ?_, ?_⟩
  · intro calls' h
    rw [afterOffers_congr haccepts (h.accepts_iff.mp haccepts) fun N => by rw [h N]]
  · intro calls' h
    rw [afterOffers_congr haccepts (h.accepts_iff.mp haccepts) h.flatMap_filter_eq]
  · intro g hg calls' h
    obtain ⟨g', hg', hreordering⟩ := h.exists_build haccepts hg
    exact ⟨h.accepts_iff.mp haccepts, g', hg', hreordering.answersAlike ⟨calls, hg⟩ ⟨calls', hg'⟩⟩

/-- The rules of a list of items, the goal first. -/
def itemRules : List (Symbol × List Alternative) :=
  [("S", [["Items", "$"]]), ("Items", [["item", "Items"], ["lambda"]]), ("Items", [["Loop"]]),
    ("Loop", [["Loop"]])]

/-- The same rules, each alternative in a rule of its own. -/
def cutItemRules : List (Symbol × List Alternative) :=
  [("S", [["Items", "$"]]), ("Items", [["item", "Items"]]), ("Items", [["lambda"]]),
    ("Items", [["Loop"]]), ("Loop", [["Loop"]])]

/-- The same rules, with those of the goal and of `Loop` elsewhere. -/
def interleavedItemRules : List (Symbol × List Alternative) :=
  [("Loop", [["Loop"]]), ("Items", [["item", "Items"], ["lambda"]]), ("S", [["Items", "$"]]),
    ("Items", [["Loop"]])]

/-- The same rules, with the alternatives of `Items` in another order. -/
def shuffledItemRules : List (Symbol × List Alternative) :=
  [("Items", [["Loop"]]), ("Loop", [["Loop"]]), ("Items", [["lambda"], ["item", "Items"]]),
    ("S", [["Items", "$"]])]

/-- Cutting and interleaving build the same grammar; shuffling builds another one with the same
answers. -/
theorem shuffledItemRules_answersAlike :
    Accepts itemRules.reverse ∧ Accepts cutItemRules ∧
      (afterOffers cutItemRules).build = (afterOffers itemRules).build ∧
      (afterOffers interleavedItemRules).build = (afterOffers itemRules).build ∧
      ∃ g g', (afterOffers itemRules).build = .ok g ∧
        (afterOffers shuffledItemRules).build = .ok g' ∧ g ≠ g' ∧ g.AnswersAlike g' := by
  have haccepts : Accepts itemRules := by decide
  have hcut : CutsInto itemRules cutItemRules :=
    .cut [("S", [["Items", "$"]])] "Items" [["item", "Items"]] [["lambda"]]
      [("Items", [["Loop"]]), ("Loop", [["Loop"]])] (by decide) (by decide)
  have hinterleaved : KeepsOrder itemRules interleavedItemRules := by
    intro N
    by_cases hS : "S" = N
    · subst hS
      rfl
    by_cases hLoop : "Loop" = N
    · subst hLoop
      rfl
    simp [itemRules, interleavedItemRules, List.filter_cons, hS, hLoop]
  have hshuffled : IsShuffled itemRules shuffledItemRules := by
    refine ⟨[("Items", [["Loop"]]), ("Loop", [["Loop"]]),
      ("Items", [["item", "Items"], ["lambda"]]), ("S", [["Items", "$"]])], by decide, ?_⟩
    exact .cons ⟨rfl, .refl _⟩ (.cons ⟨rfl, .refl _⟩ (.cons ⟨rfl, .swap _ _ _⟩
      (.cons ⟨rfl, .refl _⟩ .nil)))
  let g : Grammar := (Grammar.ofRules? itemRules).get (by decide)
  have hg : (afterOffers itemRules).build = .ok g :=
    Grammar.build_of_ofRules? (Option.some_get _).symm
  obtain ⟨hperm, hcuts, hafter⟩ := accepts_iff_and_answersAlike itemRules
  obtain ⟨hkept, hcutBuild, hmoved⟩ := hafter haccepts
  obtain ⟨-, g', hg', halike⟩ := hmoved g hg _ hshuffled
  refine ⟨(hperm _ (List.reverse_perm _).symm).mp haccepts, (hcuts _ hcut).mp haccepts,
    hcutBuild _ hcut, hkept _ hinterleaved, g, g', hg, hg', ?_, halike⟩
  rintro rfl
  have hdiffer : (afterOffers itemRules).build ≠ (afterOffers shuffledItemRules).build := by decide
  exact hdiffer (hg.trans hg'.symm)

end Builder

end Lookahead
