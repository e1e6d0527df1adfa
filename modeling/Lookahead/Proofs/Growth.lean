import Lookahead.Proofs.Conflicts
import Lookahead.Proofs.Prediction
import Lookahead.Proofs.Rebuilding

/-!
# More rules, more answers

A grammar is part of another with the same goal that has all its rules. Every derivation of the part
is one of the whole (`IsPartOf.derives`). Since nullable nonterminals and FIRST, FOLLOW and PREDICT
sets hold exactly what derivations show, each of them can only grow from the part to the whole, and
two alternatives that are in conflict stay so (`IsPartOf.exists_conflict`). Further calls never
take a rule back or move it within its entry (`Builder.grows_foldl_offer`), so whatever they lead to
has the earlier grammar as a part.
-/

namespace Lookahead

namespace Grammar

variable {g g' : Grammar} {N a : Symbol} {alt : Alternative} {u v : List Symbol}

/-- Whether a grammar has the same goal as another one and no rules but those of the other. -/
structure IsPartOf (g g' : Grammar) : Prop where
  goal_eq : g'.goal = g.goal
  mem_alternatives : ∀ {lhs alt}, alt ∈ g.table.alternatives lhs → alt ∈ g'.table.alternatives lhs

namespace IsPartOf

/-- Each step of the part is one of the whole. -/
theorem produces (h : g.IsPartOf g') (hstep : g.Produces u v) : g'.Produces u v := by
  obtain @⟨lhs, alt, before, after, halt⟩ := hstep
  exact .step before after (h.mem_alternatives halt)

/-- Each derivation of the part is one of the whole. -/
theorem derives (h : g.IsPartOf g') (hderives : g.Derives u v) : g'.Derives u v := by
  induction hderives with
  | refl => exact Derives.refl u
  | tail _ hstep ih => exact ih.tail (h.produces hstep)

/-! ## Symbols -/

/-- The whole has the terminals of the part. -/
theorem terminals_subset (h : g.IsPartOf g') (hg : g.WellFormed) (hg' : g'.WellFormed) :
    g.terminals ⊆ g'.terminals := by
  intro a ha
  obtain ⟨hterminal, lhs, alt, halt, hmem⟩ := (hg.mem_terminals a).mp ha
  exact (hg'.mem_terminals a).mpr ⟨hterminal, lhs, alt, h.mem_alternatives halt, hmem⟩

/-- The whole has the nonterminals of the part. -/
theorem nonterminals_subset (h : g.IsPartOf g') (hg : g.Built) (hg' : g'.WellFormed) :
    g.nonterminals ⊆ g'.nonterminals := by
  intro N hN
  obtain ⟨alt, halt⟩ := List.exists_mem_of_ne_nil _ (hg.alternatives_ne_nil hN)
  exact hg'.lhs_mem (h.mem_alternatives halt)

/-- The whole knows the symbols of the part. -/
theorem knows (h : g.IsPartOf g') (hg : g.Built) (hg' : g'.WellFormed) {s : Symbol}
    (hs : g.Knows s) : g'.Knows s := by
  rcases hs with hs | hs | hs
  · exact .inl (h.terminals_subset hg.wellFormed hg' s hs)
  · exact .inr (.inl (h.nonterminals_subset hg hg' s hs))
  · exact .inr (.inr hs)

/-! ## Sets -/

/-- What is nullable in the part is nullable in the whole. -/
theorem nullable_subset (h : g.IsPartOf g') (hg : g.WellFormed) (hg' : g'.WellFormed) :
    g.nullable ⊆ g'.nullable :=
  fun _ hN => hg'.mem_nullable_iff.mpr (h.derives (hg.mem_nullable_iff.mp hN))

/-- What vanishes in the part vanishes in the whole. -/
theorem vanishes (h : g.IsPartOf g') (hg : g.WellFormed) (hg' : g'.WellFormed)
    (hu : vanishes g.nullable u = true) : Lookahead.vanishes g'.nullable u = true :=
  hg'.vanishes_nullable_iff.mpr (h.derives (hg.vanishes_nullable_iff.mp hu))

/-- A sequence begins in the whole with all it begins with in the part. -/
theorem firstLookaheads_subset (h : g.IsPartOf g') (hg : g.WellFormed) (hg' : g'.WellFormed)
    (u : List Symbol) : g.firstLookaheads u ⊆ g'.firstLookaheads u := by
  intro a ha
  obtain ⟨hlookahead, rest, hrest⟩ := hg.mem_firstLookaheads_iff.mp ha
  exact hg'.mem_firstLookaheads_iff.mpr ⟨hlookahead, rest, h.derives hrest⟩

/-- What follows a nonterminal in the part follows it in the whole. -/
theorem isFollowedBy (h : g.IsPartOf g') (hg : g.Built) (hg' : g'.WellFormed)
    (hfollowed : g.IsFollowedBy N a) : g'.IsFollowedBy N a := by
  rcases hfollowed with ⟨L, hL, before, after, hderives⟩ | ⟨rfl, rfl⟩
  · exact .inl ⟨L, h.nonterminals_subset hg hg' L hL, before, after, h.derives hderives⟩
  · exact .inr ⟨h.goal_eq.symm, rfl⟩

/-- FOLLOW sets of the part are contained in those of the whole. -/
theorem nextLookaheads_subset (h : g.IsPartOf g') (hg : g.Built) (hg' : g'.WellFormed)
    (hN : N ∈ g.nonterminals) : g.nextLookaheads N ⊆ g'.nextLookaheads N := by
  intro a ha
  obtain ⟨hmember, hfollowed⟩ := (hg.wellFormed.mem_nextLookaheads_iff hN).mp ha
  refine (hg'.mem_nextLookaheads_iff (h.nonterminals_subset hg hg' N hN)).mpr ⟨?_, ?_⟩
  · exact hmember.imp_left (h.terminals_subset hg.wellFormed hg' a)
  · exact h.isFollowedBy hg hg' hfollowed

/-- What selects an alternative in the part selects it in the whole. -/
theorem predictors_subset (h : g.IsPartOf g') (hg : g.Built) (hg' : g'.WellFormed)
    (hN : N ∈ g.nonterminals) :
    g.analyze.predictors ⟨N, alt⟩ ⊆ g'.analyze.predictors ⟨N, alt⟩ := by
  intro a ha
  refine mem_predictors_iff.mpr ((mem_predictors_iff.mp ha).imp ?_ ?_)
  · exact h.firstLookaheads_subset hg.wellFormed hg' alt a
  · rintro ⟨hvanishes, ha⟩
    exact ⟨h.vanishes hg.wellFormed hg' hvanishes, h.nextLookaheads_subset hg hg' hN a ha⟩

/-! ## Answers -/

/-- A FIRST query that the part answers is answered by the whole with at least as much. -/
theorem exists_firstSet (h : g.IsPartOf g') (hg : g.Built) (hg' : g'.WellFormed)
    {set : SymbolSet} (hset : g.analyze.firstSet u = .ok set) :
    ∃ set', g'.analyze.firstSet u = .ok set' ∧ set ⊆ set' := by
  obtain ⟨hknown, rfl⟩ := Analysis.firstSet_eq_ok_iff.mp hset
  refine ⟨_, Analysis.firstSet_eq_ok_iff.mpr ⟨?_, rfl⟩, ?_⟩
  · exact fun s hs => h.knows hg hg' (hknown s hs)
  · exact h.firstLookaheads_subset hg.wellFormed hg' u

/-- A FOLLOW query that the part answers is answered by the whole with at least as much. -/
theorem exists_followSet (h : g.IsPartOf g') (hg : g.Built) (hg' : g'.WellFormed)
    {set : SymbolSet} (hset : g.analyze.followSet N = .ok set) :
    ∃ set', g'.analyze.followSet N = .ok set' ∧ set ⊆ set' := by
  obtain ⟨hN, rfl⟩ := Analysis.followSet_eq_ok_iff.mp hset
  refine ⟨_, Analysis.followSet_eq_ok_iff.mpr ⟨h.nonterminals_subset hg hg' N hN, rfl⟩, ?_⟩
  exact h.nextLookaheads_subset hg hg' hN

/-- A PREDICT query that the part answers is answered by the whole with at least as much. -/
theorem exists_predictSet (h : g.IsPartOf g') (hg : g.Built) (hg' : g'.WellFormed) {rule : Rule}
    {set : SymbolSet} (hset : g.analyze.predictSet rule = .ok set) :
    ∃ set', g'.analyze.predictSet rule = .ok set' ∧ set ⊆ set' := by
  obtain ⟨hlhs, hknown, rfl⟩ := Analysis.predictSet_eq_ok_iff.mp hset
  refine ⟨_, Analysis.predictSet_eq_ok_iff.mpr ⟨?_, ?_, rfl⟩, ?_⟩
  · exact h.nonterminals_subset hg hg' _ hlhs
  · exact fun s hs => h.knows hg hg' (hknown s hs)
  · exact h.predictors_subset hg hg' hlhs

/-- Where no alternative has moved, a conflict stays at its place, on the same lookaheads at
least. -/
theorem exists_conflict (h : g.IsPartOf g') (hg : g.Built) (hg' : g'.WellFormed)
    (hfront : ∀ N, g.table.alternatives N <+: g'.table.alternatives N) {c : Conflict}
    (hc : c ∈ g.analyze.conflicts) :
    ∃ lookahead, c.lookahead ⊆ lookahead ∧
      { c with lookahead := lookahead } ∈ g'.analyze.conflicts := by
  obtain ⟨hN, hij, hi, hj, hlookahead, s, hs⟩ := Analysis.mem_conflicts_iff.mp hc
  have hkept : ∀ {i : Nat} {alt : Alternative},
      (g.table.alternatives c.nonterminal)[i]? = some alt →
        (g'.table.alternatives c.nonterminal)[i]? = some alt := by
    intro i alt halt
    obtain ⟨more, hmore⟩ := hfront c.nonterminal
    rw [← hmore, List.getElem?_append_left (List.getElem?_eq_some_iff.mp halt).1, halt]
  have hgrown : c.lookahead ⊆ g'.analyze.predictors ⟨c.nonterminal, c.first⟩ ∩
      g'.analyze.predictors ⟨c.nonterminal, c.second⟩ := by
    intro s hs
    rw [hlookahead, SymbolSet.mem_inter] at hs
    exact SymbolSet.mem_inter.mpr
      ⟨h.predictors_subset hg hg' hN s hs.1, h.predictors_subset hg hg' hN s hs.2⟩
  refine ⟨_, hgrown, Analysis.mem_conflicts_iff.mpr ?_⟩
  exact ⟨h.nonterminals_subset hg hg' _ hN, hij, hkept hi, hkept hj, rfl, s, hgrown s hs⟩

end IsPartOf

end Grammar

/-! ## Further calls -/

namespace Builder

/-- Whether a builder has the goal of another one, if that has one, and its rules in front. -/
structure Grows (b b' : Builder) : Prop where
  goal_eq : ∀ {goal}, b.goal = some goal → b'.goal = some goal
  isPrefix : ∀ lhs, b.table.alternatives lhs <+: b'.table.alternatives lhs

theorem Grows.refl (b : Builder) : b.Grows b := ⟨id, fun _ => List.prefix_rfl⟩

/-- Growing on is growing. -/
theorem Grows.trans {a b c : Builder} (h : a.Grows b) (h' : b.Grows c) : a.Grows c :=
  ⟨fun hgoal => h'.goal_eq (h.goal_eq hgoal), fun lhs => (h.isPrefix lhs).trans (h'.isPrefix lhs)⟩

/-- Writing a rule that passes the check of the goal lets a builder grow. -/
theorem grows_extend {b : Builder} {lhs : Symbol} {alts : List Alternative} {goal : Option Symbol}
    (h : b.goalWith lhs alts = .ok goal) : b.Grows (b.extend lhs alts goal) where
  goal_eq hgoal := by
    show goal = _
    rcases goalWith_cases h with ⟨-, rfl, hsame | ⟨hnone, -⟩⟩ | ⟨-, rfl, -⟩
    · exact hsame.symm.trans hgoal
    · exact absurd (hgoal.symm.trans hnone) (Option.some_ne_none _)
    · exact hgoal
  isPrefix key := by
    show _ <+: RuleTable.alternatives (b.table.alter lhs _) key
    rw [RuleTable.alternatives_alter]
    split
    · rename_i hkey
      exact hkey ▸ List.prefix_append _ alts
    · exact List.prefix_rfl

/-- A call takes nothing away, whether its rule is accepted or refused. -/
theorem grows_offer (b : Builder) (call : Symbol × List Alternative) : b.Grows (b.offer call) := by
  cases hadd : b.addRule call.1 call.2 with
  | ok next =>
    rw [offer_of_addRule call hadd]
    obtain ⟨-, goal, hgoal, rfl⟩ := addRule_eq_ok_iff.mp hadd
    exact grows_extend hgoal
  | error fault =>
    rw [offer_of_addRule_eq_error call hadd]
    exact .refl b

/-- Whatever is offered, a builder only grows. -/
theorem grows_foldl_offer (b : Builder) (calls : List (Symbol × List Alternative)) :
    b.Grows (calls.foldl offer b) :=
  List.foldlRecOn calls offer (.refl b) fun next hnext call _ => hnext.trans (next.grows_offer call)

/-- What is built after further calls has what was built before as a part. -/
theorem Grows.isPartOf {b b' : Builder} (h : b.Grows b') {g g' : Grammar} (hg : b.build = .ok g)
    (hg' : b'.build = .ok g') :
    g.IsPartOf g' ∧ ∀ N, g.table.alternatives N <+: g'.table.alternatives N := by
  obtain ⟨hgoal, -, -, htable, -⟩ := build_eq_ok hg
  obtain ⟨hgoal', -, -, htable', -⟩ := build_eq_ok hg'
  have hfront : ∀ N, g.table.alternatives N <+: g'.table.alternatives N := by
    rw [htable, htable']
    exact h.isPrefix
  refine ⟨⟨?_, fun halt => (hfront _).subset halt⟩, hfront⟩
  exact Option.some.inj (hgoal'.symm.trans (h.goal_eq hgoal))

/-- Whatever is called after a grammar could be built, the goal and the rules stay, and more rules
come behind them. A nullable nonterminal stays nullable, an answered question is answered with at
least the same lookaheads, and a conflict stays between the same two alternatives. So no grammar
becomes LL(1) by more rules. -/
theorem analysis_mono_of_more_calls {calls more : List (Symbol × List Alternative)} {g g' : Grammar}
    (hg : (afterOffers calls).build = .ok g) (hg' : (afterOffers (calls ++ more)).build = .ok g') :
    g'.goal = g.goal ∧ (∀ N, g.table.alternatives N <+: g'.table.alternatives N) ∧
      (∀ N, g.analyze.isNullable N = true → g'.analyze.isNullable N = true) ∧
      (∀ symbols set, g.analyze.firstSet symbols = .ok set →
        ∃ set', g'.analyze.firstSet symbols = .ok set' ∧ set ⊆ set') ∧
      (∀ N set, g.analyze.followSet N = .ok set →
        ∃ set', g'.analyze.followSet N = .ok set' ∧ set ⊆ set') ∧
      (∀ rule set, g.analyze.predictSet rule = .ok set →
        ∃ set', g'.analyze.predictSet rule = .ok set' ∧ set ⊆ set') ∧
      (∀ c ∈ g.analyze.conflicts, ∃ lookahead, c.lookahead ⊆ lookahead ∧
        { c with lookahead := lookahead } ∈ g'.analyze.conflicts) ∧
      (g'.analyze.isLL1 = true → g.analyze.isLL1 = true) := by
  have hbuilt : g.Built := ⟨calls, hg⟩
  have hwellFormed : g'.WellFormed := Grammar.Built.wellFormed ⟨_, hg'⟩
  have hgrows : (afterOffers calls).Grows (afterOffers (calls ++ more)) := by
    unfold afterOffers
    rw [List.foldl_append]
    exact grows_foldl_offer _ more
  obtain ⟨hpart, hfront⟩ := hgrows.isPartOf hg hg'
  have hconflicts := fun c hc => hpart.exists_conflict hbuilt hwellFormed hfront (c := c) hc
  refine ⟨hpart.goal_eq, hfront, ?_, fun _ _ => hpart.exists_firstSet hbuilt hwellFormed,
    fun _ _ => hpart.exists_followSet hbuilt hwellFormed,
    fun _ _ => hpart.exists_predictSet hbuilt hwellFormed, hconflicts, ?_⟩
  · intro N hN
    have hnullable := hpart.nullable_subset hbuilt.wellFormed hwellFormed
    exact decide_eq_true (hnullable N (of_decide_eq_true hN))
  · intro hLL1
    -- a conflict of the part would be left in the whole
    unfold Analysis.isLL1 at hLL1 ⊢
    rw [List.isEmpty_iff, List.eq_nil_iff_forall_not_mem] at hLL1 ⊢
    intro c hc
    obtain ⟨lookahead, -, hmem⟩ := hconflicts c hc
    exact hLL1 _ hmem

/-- The second of these rules is refused, and two alternatives of `List` are in conflict, because
`Sign` vanishes. -/
def firstRules : List (Symbol × List Alternative) :=
  [("S", [["List", "$"]]), ("List", [["item", "$"]]),
    ("List", [["item"], ["Sign", "item", "List"]]), ("Sign", [["lambda"]])]

/-- The first of these rules is refused, the second lets `List` vanish, and the others bring
terminals of their own. -/
def furtherRules : List (Symbol × List Alternative) :=
  [("Item", [["lambda", "item"]]), ("List", [["lambda"]]), ("Sign", [["minus"]]),
    ("S", [["List", "end", "$"]])]

/-- With the further rules all that was answered before is there, and the conflict as well. -/
theorem furtherRules_keep_conflict :
    ∃ g g', (afterOffers firstRules).build = .ok g ∧
      (afterOffers (firstRules ++ furtherRules)).build = .ok g' ∧ g'.goal = g.goal ∧
      g'.analyze.isNullable "Sign" = true ∧
      (∃ set, g'.analyze.firstSet ["Sign", "List"] = .ok set ∧ "item" ∈ set) ∧
      (∃ set, g'.analyze.followSet "List" = .ok set ∧ "$" ∈ set) ∧
      (∃ set, g'.analyze.predictSet ⟨"List", ["Sign", "item", "List"]⟩ = .ok set ∧
        "item" ∈ set) ∧
      (∃ c ∈ g'.analyze.conflicts, c.nonterminal = "List" ∧ c.firstPosition = 0 ∧
        c.secondPosition = 1 ∧ "item" ∈ c.lookahead) ∧
      g'.analyze.isLL1 = false := by
  let g : Grammar := (Grammar.ofRules? firstRules).get (by decide)
  let g' : Grammar := (Grammar.ofRules? (firstRules ++ furtherRules)).get (by decide)
  have hg : (afterOffers firstRules).build = .ok g :=
    Grammar.build_of_ofRules? (Option.some_get _).symm
  have hg' : (afterOffers (firstRules ++ furtherRules)).build = .ok g' :=
    Grammar.build_of_ofRules? (Option.some_get _).symm
  obtain ⟨hgoal, -, hnullable, hfirst, hfollow, hpredict, hconflicts, hLL1⟩ :=
    analysis_mono_of_more_calls hg hg'
  -- what the first rules give, all of it to be found again
  have hSign : g.analyze.isNullable "Sign" = true := by decide +kernel
  have hfirst₀ : g.analyze.firstSet ["Sign", "List"] = .ok (.ofList ["item"]) := by decide +kernel
  have hfollow₀ : g.analyze.followSet "List" = .ok (.ofList ["$"]) := by decide +kernel
  have hpredict₀ : g.analyze.predictSet ⟨"List", ["Sign", "item", "List"]⟩ =
      .ok (.ofList ["item"]) := by decide +kernel
  have hconflict : ∃ c ∈ g.analyze.conflicts, c.nonterminal = "List" ∧ c.firstPosition = 0 ∧
      c.secondPosition = 1 ∧ "item" ∈ c.lookahead := by decide +kernel
  have hnot : g.analyze.isLL1 ≠ true := by decide +kernel
  refine ⟨g, g', hg, hg', hgoal, hnullable "Sign" hSign, ?_, ?_, ?_, ?_,
    Bool.eq_false_iff.mpr fun h => hnot (hLL1 h)⟩
  · obtain ⟨set, hset, hsubset⟩ := hfirst _ _ hfirst₀
    exact ⟨set, hset, hsubset "item" (by decide)⟩
  · obtain ⟨set, hset, hsubset⟩ := hfollow _ _ hfollow₀
    exact ⟨set, hset, hsubset "$" (by decide)⟩
  · obtain ⟨set, hset, hsubset⟩ := hpredict _ _ hpredict₀
    exact ⟨set, hset, hsubset "item" (by decide)⟩
  · obtain ⟨c, hc, hN, hi, hj, hitem⟩ := hconflict
    obtain ⟨lookahead, hsubset, hc'⟩ := hconflicts c hc
    exact ⟨_, hc', hN, hi, hj, hsubset _ hitem⟩

end Builder

end Lookahead
