import Lookahead.Proofs.CyclicNullability
import Lookahead.Proofs.Queries
import Lookahead.Report

/-!
# When a report can be made

Every symbol of a built grammar's rules is of one kind, the empty symbol apart: no check of a
builder looks for it, and it is of none. So the grammar knows the symbols of its rules but for that
one (`WellFormed.knows_iff`), a question about a rule is refused for the empty symbol alone
(`Built.predictSet_eq_error_iff`), and a report fails only if it is to list the lookaheads of a rule
with the empty symbol in it (`Built.report_eq_error_iff`).
-/

namespace Lookahead

/-! ## Kinds of symbols -/

/-- A symbol is of one of four kinds, unless it is empty. -/
theorem Symbol.count_kinds (s : Symbol) :
    [s.isEndMarker, s.isLambda, s.isTerminal, s.isNonterminal].count true =
      if s = "" then 0 else 1 := by
  by_cases hempty : s = ""
  · subst hempty
    decide
  by_cases hend : s = endMarker
  · subst hend
    decide
  by_cases hlambda : s = lambda
  · subst hlambda
    decide
  have hend' : s.isEndMarker = false := by simpa [isEndMarker] using hend
  have hlambda' : s.isLambda = false := by simpa [isLambda] using hlambda
  cases hterminal : s.isTerminal <;>
    simp [isNonterminal, hempty, hend', hlambda', hterminal]

namespace Grammar

variable {g : Grammar} {lhs s : Symbol} {alt : Alternative} {r : Rule} {e : QueryError}
  {sections : List Section}

section Kinds

variable (hg : g.WellFormed) (halt : alt ∈ g.table.alternatives lhs) (hs : s ∈ alt)
include hg halt hs

/-- Of the symbols in use, the grammar counts as terminals those that are terminals by name. -/
theorem WellFormed.isTerminal_eq : g.isTerminal s = s.isTerminal := by
  rw [isTerminal, Bool.eq_iff_iff, decide_eq_true_eq, hg.mem_terminals]
  exact and_iff_left ⟨lhs, alt, halt, hs⟩

/-- Of the symbols in use, the grammar counts as nonterminals those that are nonterminals by name.
-/
theorem WellFormed.isNonterminal_eq : g.isNonterminal s = s.isNonterminal := by
  rw [isNonterminal, Bool.eq_iff_iff, decide_eq_true_eq]
  exact ⟨hg.isNonterminal_of_mem s, hg.mem_nonterminals_of_mem halt s hs⟩

/-- Of the symbols in use the grammar knows all but the empty one. -/
theorem WellFormed.knows_iff : g.Knows s ↔ s ≠ "" := by
  have hknows : g.Knows s ↔
      true ∈ [s.isEndMarker, s.isLambda, s.isTerminal, s.isNonterminal] := by
    rw [← hg.isTerminal_eq halt hs, ← hg.isNonterminal_eq halt hs]
    simp only [Knows, isTerminal, isNonterminal, Symbol.isEndMarker, Symbol.isLambda]
    grind
  rw [hknows, ← List.count_pos_iff, s.count_kinds]
  split <;> simp_all

end Kinds

/-! ## Rules -/

section Rules

variable (hg : g.Built) (hr : r ∈ g.allRules)
include hg hr

/-- Of the symbols of a rule, the empty one alone is unknown. -/
theorem Built.knows_iff_of_mem_allRules : ∀ s ∈ r.rhs, g.Knows s ↔ s ≠ "" :=
  fun _ hs => hg.wellFormed.knows_iff (hg.wellFormed.mem_allRules.mp hr) hs

/-- All symbols of a rule without empty ones are known. -/
theorem Built.knows_of_mem_allRules (hempty : "" ∉ r.rhs) : ∀ s ∈ r.rhs, g.Knows s :=
  fun s hs => (hg.knows_iff_of_mem_allRules hr s hs).mpr fun h => hempty (h ▸ hs)

/-- FIRST of a right-hand side with an empty symbol is refused for it. -/
theorem Built.firstSet_eq_error (hempty : "" ∈ r.rhs) :
    g.analyze.firstSet r.rhs = .error (.undefinedSymbol "") := by
  unfold Analysis.firstSet
  rw [Analysis.checkSymbols_eq_error hempty (hg.knows_iff_of_mem_allRules hr)]
  rfl

/-- The left-hand side of a rule is a nonterminal of the grammar. -/
theorem Built.lhs_mem_of_mem_allRules : r.lhs ∈ g.nonterminals :=
  hg.wellFormed.lhs_mem (hg.wellFormed.mem_allRules.mp hr)

/-- PREDICT of a rule with an empty symbol is refused for it. -/
theorem Built.predictSet_eq_error (hempty : "" ∈ r.rhs) :
    g.analyze.predictSet r = .error (.undefinedSymbol "") := by
  have hlhs : g.analyze.checkNonterminal r.lhs = .ok () :=
    Analysis.checkNonterminal_eq_ok_iff.mpr (hg.lhs_mem_of_mem_allRules hr)
  unfold Analysis.predictSet
  rw [hlhs, Analysis.checkSymbols_eq_error hempty (hg.knows_iff_of_mem_allRules hr)]
  rfl

/-- The lookaheads of a rule are refused for the empty symbol and nothing else. -/
theorem Built.predictSet_eq_error_iff :
    g.analyze.predictSet r = .error e ↔ "" ∈ r.rhs ∧ e = .undefinedSymbol "" := by
  by_cases hempty : "" ∈ r.rhs
  · rw [hg.predictSet_eq_error hr hempty]
    simp [hempty, eq_comm]
  · rw [Analysis.predictSet_eq_ok_iff.mpr ⟨hg.lhs_mem_of_mem_allRules hr,
      hg.knows_of_mem_allRules hr hempty, rfl⟩]
    simp [hempty]

end Rules

/-- A grammar has empty symbols exactly if one of its rules has. -/
theorem Built.exists_empty_mem_iff (hg : g.Built) :
    (∃ r ∈ g.allRules, "" ∈ r.rhs) ↔ ¬g.HasNoEmptySymbol := by
  unfold HasNoEmptySymbol
  push Not
  constructor
  · rintro ⟨r, hr, hempty⟩
    exact ⟨r.lhs, r.rhs, hg.wellFormed.mem_allRules.mp hr, hempty⟩
  · rintro ⟨lhs, alt, halt, hempty⟩
    exact ⟨⟨lhs, alt⟩, hg.wellFormed.mem_allRules.mpr halt, hempty⟩

/-! ## Sections -/

/-- A section of sets is made if all its queries are answered. -/
theorem setSection_ne_error {title : String} {setOf : Symbol → Except QueryError SymbolSet}
    (h : ∀ N ∈ g.nonterminals, ∃ set, setOf N = .ok set) :
    g.analyze.setSection title setOf ≠ .error e := by
  intro herror
  obtain ⟨N, hN, hline⟩ := exists_of_mapM_eq_error (map_eq_error_iff.mp herror)
  obtain ⟨set, hset⟩ := h N hN
  rw [map_eq_error_iff.mp hline] at hset
  exact absurd hset (by simp)

/-- The section of PREDICT sets fails for empty symbols alone. -/
theorem Built.predictSection_eq_error_iff (hg : g.Built) :
    g.analyze.predictSection = .error e ↔
      e = .undefinedSymbol "" ∧ ¬g.HasNoEmptySymbol := by
  rw [← hg.exists_empty_mem_iff]
  refine map_eq_error_iff.trans
    ((mapM_eq_error_iff (.undefinedSymbol "") fun r hr e' herror => ?_).trans ?_)
  · exact ((hg.predictSet_eq_error_iff hr).mp (map_eq_error_iff.mp herror)).2
  · refine and_congr_right fun _ => exists_congr fun r => and_congr_right fun hr => ?_
    rw [map_eq_error_iff, hg.predictSet_eq_error_iff hr]
    exact and_iff_left rfl

/-- No section but that of the PREDICT sets ever fails. -/
theorem Built.sectionText_eq_error_iff (hg : g.Built) {s : Section} :
    g.analyze.sectionText s = .error e ↔
      s = .predict ∧ e = .undefinedSymbol "" ∧ ¬g.HasNoEmptySymbol := by
  cases s with
  | predict => simpa [Analysis.sectionText] using hg.predictSection_eq_error_iff
  | first =>
    refine iff_of_false (setSection_ne_error fun N hN => ?_) (by simp)
    exact ⟨_, Analysis.firstSet_eq_ok (List.forall_mem_singleton.mpr (.inr (.inl hN)))⟩
  | follow =>
    refine iff_of_false (setSection_ne_error fun N hN => ?_) (by simp)
    exact ⟨_, Analysis.followSet_eq_ok hN⟩
  | grammar => simp [Analysis.sectionText]
  | nullable => simp [Analysis.sectionText]
  | ll1 => simp [Analysis.sectionText]

/-- A report fails if it is to list the lookaheads of rules and one of them has the empty symbol. -/
theorem Built.report_eq_error_iff (hg : g.Built) :
    g.analyze.report sections = .error e ↔
      e = .undefinedSymbol "" ∧ .predict ∈ sections ∧ ¬g.HasNoEmptySymbol := by
  refine map_eq_error_iff.trans
    ((mapM_eq_error_iff (.undefinedSymbol "") fun s hs e' herror => ?_).trans ?_)
  · exact (hg.sectionText_eq_error_iff.mp herror).2.1
  · refine and_congr_right fun _ => ?_
    simp only [hg.sectionText_eq_error_iff, List.mem_eraseDups, true_and]
    exact ⟨fun ⟨_, hmem, hs, hempty⟩ => ⟨hs ▸ hmem, hempty⟩,
      fun ⟨hmem, hempty⟩ => ⟨_, hmem, rfl, hempty⟩⟩

/-- A report is made unless it is to list the lookaheads of rules with the empty symbol. -/
theorem Built.exists_report_iff (hg : g.Built) :
    (∃ text, g.analyze.report sections = .ok text) ↔
      (.predict ∈ sections → g.HasNoEmptySymbol) := by
  cases hreport : g.analyze.report sections with
  | error e =>
    obtain ⟨-, hpredict, hempty⟩ := hg.report_eq_error_iff.mp hreport
    exact iff_of_false (by simp) fun hall => hempty (hall hpredict)
  | ok text =>
    refine iff_of_true ⟨text, rfl⟩ fun hpredict => ?_
    by_contra hempty
    rw [hg.report_eq_error_iff.mpr ⟨rfl, hpredict, hempty⟩] at hreport
    exact absurd hreport (by simp)

/-- Every symbol of a built grammar's rules is of one kind, the empty symbol apart, which is of
none. Its rules are analysed and its reports made, except that a rule with the empty symbol is
refused for it, and with it every report that lists the lookaheads of rules. -/
theorem Built.rules_analyzed (hg : g.Built) :
    (∀ lhs, ∀ alt ∈ g.table.alternatives lhs, ∀ s ∈ alt,
      [s.isEndMarker, s.isLambda, g.isTerminal s, g.isNonterminal s].count true =
        if s = "" then 0 else 1) ∧
      (∀ r ∈ g.allRules, "" ∉ r.rhs →
        (∃ set, g.analyze.firstSet r.rhs = .ok set) ∧ ∃ set, g.analyze.predictSet r = .ok set) ∧
      (∀ r ∈ g.allRules, "" ∈ r.rhs →
        g.analyze.firstSet r.rhs = .error (.undefinedSymbol "") ∧
          g.analyze.predictSet r = .error (.undefinedSymbol "")) ∧
      ∀ sections, ((∃ text, g.analyze.report sections = .ok text) ↔
          (.predict ∈ sections → g.HasNoEmptySymbol)) ∧
        ∀ e, g.analyze.report sections = .error e → e = .undefinedSymbol "" := by
  refine ⟨fun lhs alt halt s hs => ?_, fun r hr hempty => ?_, fun r hr hempty => ?_,
    fun sections => ⟨hg.exists_report_iff, fun e he => (hg.report_eq_error_iff.mp he).1⟩⟩
  · rw [hg.wellFormed.isTerminal_eq halt hs, hg.wellFormed.isNonterminal_eq halt hs, s.count_kinds]
  · have hknows := hg.knows_of_mem_allRules hr hempty
    exact ⟨⟨_, Analysis.firstSet_eq_ok hknows⟩,
      _, Analysis.predictSet_eq_ok_iff.mpr ⟨hg.lhs_mem_of_mem_allRules hr, hknows, rfl⟩⟩
  · exact ⟨hg.firstSet_eq_error hr hempty, hg.predictSet_eq_error hr hempty⟩

/-- The second symbol of the only rule is empty. -/
def emptyBetween : Grammar := (ofRules? [("S", [["b", "", "$"]])]).get (by decide)

/-- An empty symbol fails the reports with PREDICT sets and no others. -/
theorem emptyBetween_rules_analyzed :
    emptyBetween.Built ∧
      (∃ text, emptyBetween.analyze.report [.first, .ll1] = .ok text) ∧
      emptyBetween.analyze.firstSet ["b", "", "$"] = .error (.undefinedSymbol "") ∧
      ¬∃ text, emptyBetween.analyze.report [.first, .predict] = .ok text := by
  have hbuilt : emptyBetween.Built := built_of_ofRules? (Option.some_get _).symm
  obtain ⟨-, -, hrefused, hreport⟩ := hbuilt.rules_analyzed
  have hmem : ⟨"S", ["b", "", "$"]⟩ ∈ emptyBetween.allRules := by decide +kernel
  have hempty : ¬emptyBetween.HasNoEmptySymbol :=
    hbuilt.exists_empty_mem_iff.mp ⟨_, hmem, by decide⟩
  refine ⟨hbuilt, (hreport _).1.mpr fun h => absurd h (by decide),
    (hrefused _ hmem (by decide)).1, fun h => ?_⟩
  exact hempty ((hreport _).1.mp h (by decide))

end Grammar

end Lookahead
