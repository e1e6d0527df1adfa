import Lookahead.Proofs.Reports
import Lookahead.Proofs.StrongLL1

/-!
# PREDICT sets hold exactly what can come next

The lookaheads of a rule are answered unless the rule has an empty symbol in it. Whatever comes next
where an alternative replaces its nonterminal is among them, and where every nonterminal is
reachable and productive nothing else is (`Built.predictSet_exact`). What follows the nonterminal
selects only an alternative that vanishes; the others are selected by their own beginnings
(`WellFormed.predictSet_eq_firstSet`). So the end marker that always follows the goal selects none
of the goal's alternatives.
-/

namespace Lookahead.Grammar

variable {g : Grammar} {N a : Symbol} {alt : Alternative}

/-- An alternative that does not vanish is selected by what it begins with. -/
theorem predictors_eq_firstLookaheads (h : vanishes g.nullable alt = false) :
    g.analyze.predictors ⟨N, alt⟩ = g.firstLookaheads alt := by
  apply SymbolSet.ext_mem
  intro a
  rw [mem_predictors_iff, h]
  simp

/-- PREDICT of a rule that does not vanish is FIRST of its right-hand side, refusals included. -/
theorem WellFormed.predictSet_eq_firstSet (hg : g.WellFormed)
    (halt : alt ∈ g.table.alternatives N) (h : vanishes g.nullable alt = false) :
    g.analyze.predictSet ⟨N, alt⟩ = g.analyze.firstSet alt := by
  have hN : g.analyze.checkNonterminal N = .ok () :=
    Analysis.checkNonterminal_eq_ok_iff.mpr (hg.lhs_mem halt)
  unfold Analysis.predictSet Analysis.firstSet
  rw [hN, predictors_eq_firstLookaheads h]
  rfl

/-- No alternative of a nonterminal that is not nullable vanishes. -/
theorem WellFormed.vanishes_eq_false_of_not_nullable (hg : g.WellFormed)
    (halt : alt ∈ g.table.alternatives N) (hN : g.analyze.isNullable N = false) :
    vanishes g.nullable alt = false :=
  Bool.eq_false_iff.mpr fun hvanishes =>
    of_decide_eq_false hN (hg.mem_nullable_of_vanishes halt hvanishes)

/-- PREDICT of a rule without empty symbols is answered. -/
theorem Built.predictSet_eq_ok (h : g.Built) (halt : alt ∈ g.table.alternatives N)
    (hempty : "" ∉ alt) :
    g.analyze.predictSet ⟨N, alt⟩ = .ok (g.analyze.predictors ⟨N, alt⟩) := by
  have hg := h.wellFormed
  refine Analysis.predictSet_eq_ok_iff.mpr ⟨hg.lhs_mem halt, fun s hs => ?_, rfl⟩
  exact (hg.knows_iff halt hs).mpr fun heq => hempty (heq ▸ hs)

/-- PREDICT of a rule without empty symbols holds every lookahead that comes next where the rule is
used. Where every nonterminal is reachable and productive it holds no other: each comes next between
texts, which are strings of terminals and end markers if the grammar has no empty symbols. A rule
with an empty symbol is refused for it. PREDICT is FIRST of the right-hand side for each rule of a
nonterminal that is not nullable, and the alternatives of the goal never vanish. -/
theorem Built.predictSet_exact (h : g.Built) :
    (∀ N, ∀ alt ∈ g.table.alternatives N, "" ∉ alt →
        ∃ set, g.analyze.predictSet ⟨N, alt⟩ = .ok set ∧
          (∀ a, a.isLookahead = true → g.ComesNext (fun _ => True) N alt a → a ∈ set) ∧
          ((∀ M ∈ g.nonterminals, g.IsReachable M) →
            (∀ M ∈ g.nonterminals, g.IsProductive Symbol.IsFinal M) →
            ∀ a ∈ set, a.isLookahead = true ∧ g.ComesNext Symbol.IsFinal N alt a) ∧
          ((∀ M ∈ g.nonterminals, g.IsReachable M) → g.HasNoEmptySymbol →
            (∀ M ∈ g.nonterminals, g.IsProductive (fun s => s.isLookahead = true) M) →
            ∀ a ∈ set, a.isLookahead = true ∧
              g.ComesNext (fun s => s.isLookahead = true) N alt a)) ∧
      (∀ N, ∀ alt ∈ g.table.alternatives N, "" ∈ alt →
        g.analyze.predictSet ⟨N, alt⟩ = .error (.undefinedSymbol "")) ∧
      (∀ N, ∀ alt ∈ g.table.alternatives N, g.analyze.isNullable N = false →
        g.analyze.predictSet ⟨N, alt⟩ = g.analyze.firstSet alt) ∧
      ∀ alt ∈ g.table.alternatives g.goal, ¬g.Derives (eraseLambda alt) [] ∧
        g.analyze.predictSet ⟨g.goal, alt⟩ = g.analyze.firstSet alt := by
  have hg := h.wellFormed
  refine ⟨fun N alt halt hempty => ?_, fun N alt halt hempty => ?_, fun N alt halt hN => ?_,
    fun alt halt => ?_⟩
  · refine ⟨_, h.predictSet_eq_ok halt hempty, fun a ha hnext => ?_,
      fun hreach hproductive a ha => ?_, fun hreach hnone hproductive a ha => ?_⟩
    · exact hg.mem_predictors_of_comesNext halt ha hnext
    · exact ⟨hg.isLookahead_of_mem_predictors (hg.lhs_mem halt) ha,
        hg.comesNext_of_mem_predictors g.isTextClass_isFinal hreach hproductive halt ha⟩
    · exact ⟨hg.isLookahead_of_mem_predictors (hg.lhs_mem halt) ha,
        hg.comesNext_of_mem_predictors hnone.isTextClass hreach hproductive halt ha⟩
  · exact h.predictSet_eq_error (r := ⟨N, alt⟩) (hg.mem_allRules.mpr halt) hempty
  · exact hg.predictSet_eq_firstSet halt (hg.vanishes_eq_false_of_not_nullable halt hN)
  · have hvanishes := hg.vanishes_goal_eq_false halt
    refine ⟨fun hnil => ?_, hg.predictSet_eq_firstSet halt hvanishes⟩
    rw [hg.vanishes_nullable_iff.mpr hnil] at hvanishes
    exact Bool.false_ne_true hvanishes.symm

/-- Two optional parts, one behind the other. -/
def optionalParts : Grammar :=
  (ofRules? [("S", [["A", "B", "$"]]), ("A", [["a", "A"], ["lambda"]]),
    ("B", [["b"], ["lambda"]])]).get (by decide)

/-- Leaving the first part out is predicted by the beginning of the second. -/
theorem optionalParts_predictSet :
    optionalParts.Built ∧ (∀ M ∈ optionalParts.nonterminals, optionalParts.IsReachable M) ∧
      optionalParts.HasNoEmptySymbol ∧
      (∀ M ∈ optionalParts.nonterminals,
        optionalParts.IsProductive (fun s => s.isLookahead = true) M) ∧
      (∃ set, optionalParts.analyze.predictSet ⟨"A", ["lambda"]⟩ = .ok set ∧ "b" ∈ set ∧
        ∀ a ∈ set, a.isLookahead = true ∧
          optionalParts.ComesNext (fun s => s.isLookahead = true) "A" ["lambda"] a) ∧
      optionalParts.analyze.predictSet ⟨"S", ["A", "B", "$"]⟩ =
        optionalParts.analyze.firstSet ["A", "B", "$"] := by
  have hbuilt : optionalParts.Built := built_of_ofRules? (Option.some_get _).symm
  have hnames : ∀ M ∈ optionalParts.nonterminals, M = "A" ∨ M = "B" ∨ M = "S" := by decide
  have hempty : optionalParts.HasNoEmptySymbol :=
    hbuilt.wellFormed.hasNoEmptySymbol_iff.mpr (by decide)
  have halt : ["lambda"] ∈ optionalParts.table.alternatives "A" := by decide
  have hgoal : ["A", "B", "$"] ∈ optionalParts.table.alternatives "S" := by decide
  have hS : optionalParts.Derives ["S"] ["A", "B", "$"] := Derives.singleton_of_alternative hgoal
  have hA : optionalParts.Derives ["A"] [] := Derives.singleton_of_alternative halt
  have hB : optionalParts.Derives ["B"] ["b"] :=
    Derives.singleton_of_alternative (by decide : ["b"] ∈ optionalParts.table.alternatives "B")
  have hBS : optionalParts.Derives ["B", "$"] ["b", "$"] := hB.append_right ["$"]
  have hreach : ∀ M ∈ optionalParts.nonterminals, optionalParts.IsReachable M := by
    intro M hM
    rcases hnames M hM with rfl | rfl | rfl
    · exact ⟨[], ["B", "$"], hS⟩
    · exact ⟨["A"], ["$"], hS⟩
    · exact ⟨[], [], Derives.refl ["S"]⟩
  have hproductive : ∀ M ∈ optionalParts.nonterminals,
      optionalParts.IsProductive (fun s => s.isLookahead = true) M := by
    intro M hM
    rcases hnames M hM with rfl | rfl | rfl
    · exact ⟨[], by decide, hA⟩
    · exact ⟨["b"], by decide, hB⟩
    · exact ⟨["b", "$"], by decide, hS.trans (hA.append hBS)⟩
  obtain ⟨hpredict, -, -, hgoals⟩ := hbuilt.predictSet_exact
  obtain ⟨set, hset, hcomplete, -, hsound⟩ := hpredict "A" ["lambda"] halt (by decide)
  have hnext : optionalParts.ComesNext (fun _ => True) "A" ["lambda"] "b" :=
    ⟨[], ["B", "$"], ["$"], by simp, by simp, hS, hBS⟩
  exact ⟨hbuilt, hreach, hempty, hproductive,
    ⟨set, hset, hcomplete "b" (by decide) hnext, hsound hreach hempty hproductive⟩,
    (hgoals _ hgoal).2⟩

end Lookahead.Grammar
