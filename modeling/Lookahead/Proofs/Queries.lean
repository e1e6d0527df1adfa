import Lookahead.Analysis
import Lookahead.Proofs.Results

/-!
# Which questions are answered

A question is refused for the first symbol the grammar does not know, and a question about a
nonterminal for any other symbol. All other questions are answered.
-/

namespace Lookahead

/-- The symbols that questions about a grammar can mention. -/
def Grammar.Knows (g : Grammar) (s : Symbol) : Prop :=
  s ∈ g.terminals ∨ s ∈ g.nonterminals ∨ s = Symbol.endMarker ∨ s = Symbol.lambda

instance (g : Grammar) (s : Symbol) : Decidable (g.Knows s) :=
  inferInstanceAs (Decidable (_ ∨ _))

namespace Analysis

variable {a : Analysis} {symbols : List Symbol} {e : QueryError}

/-- The check of a symbol lets those of the grammar pass. -/
theorem checkSymbol_eq_ok_iff {s : Symbol} : a.checkSymbol s = .ok () ↔ a.grammar.Knows s := by
  unfold checkSymbol Grammar.Knows
  simp only [Symbol.isEndMarker, Symbol.isLambda, Grammar.isTerminal, Grammar.isNonterminal]
  grind

/-- The check of a sequence lets those pass whose symbols the grammar knows. -/
theorem checkSymbols_eq_ok_iff :
    a.checkSymbols symbols = .ok () ↔ ∀ s ∈ symbols, a.grammar.Knows s := by
  unfold checkSymbols
  induction symbols with
  | nil => simp [pure, Except.pure]
  | cons s rest ih =>
    show (do a.checkSymbol s; rest.forM a.checkSymbol) = .ok () ↔ _
    rw [check_then_eq_ok_iff, ih, checkSymbol_eq_ok_iff, List.forall_mem_cons]

/-- The check of a symbol names it in its error. -/
theorem checkSymbol_eq_error_iff {s : Symbol} :
    a.checkSymbol s = .error e ↔ ¬a.grammar.Knows s ∧ e = .undefinedSymbol s := by
  rw [← checkSymbol_eq_ok_iff]
  unfold checkSymbol
  split <;> simp [eq_comm]

/-- A sequence is refused for a symbol in it that the grammar does not know. -/
theorem exists_of_checkSymbols_eq_error (h : a.checkSymbols symbols = .error e) :
    ∃ s ∈ symbols, ¬a.grammar.Knows s ∧ e = .undefinedSymbol s := by
  unfold checkSymbols at h
  induction symbols with
  | nil => simp [pure, Except.pure] at h
  | cons s rest ih =>
    rcases bind_eq_error_iff.mp h with h | ⟨-, -, h⟩
    · exact ⟨s, List.mem_cons_self, checkSymbol_eq_error_iff.mp h⟩
    · obtain ⟨s', hs', h⟩ := ih h
      exact ⟨s', List.mem_cons_of_mem _ hs', h⟩

/-- A sequence in which one symbol alone is unknown is refused for it. -/
theorem checkSymbols_eq_error {s : Symbol} (hs : s ∈ symbols)
    (hknows : ∀ t ∈ symbols, a.grammar.Knows t ↔ t ≠ s) :
    a.checkSymbols symbols = .error (.undefinedSymbol s) := by
  cases h : a.checkSymbols symbols with
  | ok => exact absurd (checkSymbols_eq_ok_iff.mp h s hs) (by simp [hknows s hs])
  | error e =>
    obtain ⟨t, ht, hunknown, rfl⟩ := exists_of_checkSymbols_eq_error h
    rw [hknows t ht, not_not] at hunknown
    rw [hunknown]

/-- The check of a nonterminal lets those of the grammar pass. -/
theorem checkNonterminal_eq_ok_iff {N : Symbol} :
    a.checkNonterminal N = .ok () ↔ N ∈ a.grammar.nonterminals := by
  unfold checkNonterminal
  rw [check_then_eq_ok_iff, checkSymbol_eq_ok_iff]
  constructor
  · rintro ⟨-, h⟩
    simpa [Grammar.isNonterminal] using h
  · intro hN
    refine ⟨.inr (.inl hN), ?_⟩
    rw [if_pos (by simpa [Grammar.isNonterminal] using hN)]

/-- FIRST is answered for sequences of known symbols. -/
theorem firstSet_eq_ok_iff {set : SymbolSet} :
    a.firstSet symbols = .ok set ↔
      (∀ s ∈ symbols, a.grammar.Knows s) ∧ firstOf a.nullable a.first symbols = set := by
  unfold firstSet
  rw [check_then_eq_ok_iff, checkSymbols_eq_ok_iff]
  simp only [pure, Except.pure, Except.ok.injEq]

/-- FIRST of known symbols is answered. -/
theorem firstSet_eq_ok (h : ∀ s ∈ symbols, a.grammar.Knows s) :
    a.firstSet symbols = .ok (firstOf a.nullable a.first symbols) :=
  firstSet_eq_ok_iff.mpr ⟨h, rfl⟩

/-- FOLLOW is answered for the grammar's nonterminals. -/
theorem followSet_eq_ok_iff {N : Symbol} {set : SymbolSet} :
    a.followSet N = .ok set ↔ N ∈ a.grammar.nonterminals ∧ a.follow.setOf N = set := by
  unfold followSet
  rw [check_then_eq_ok_iff, checkNonterminal_eq_ok_iff]
  simp only [pure, Except.pure, Except.ok.injEq]

/-- FOLLOW of a nonterminal is answered. -/
theorem followSet_eq_ok {N : Symbol} (h : N ∈ a.grammar.nonterminals) :
    a.followSet N = .ok (a.follow.setOf N) :=
  followSet_eq_ok_iff.mpr ⟨h, rfl⟩

/-- PREDICT is answered for rules that give known symbols to one of the grammar's nonterminals. -/
theorem predictSet_eq_ok_iff {rule : Rule} {set : SymbolSet} :
    a.predictSet rule = .ok set ↔
      rule.lhs ∈ a.grammar.nonterminals ∧ (∀ s ∈ rule.rhs, a.grammar.Knows s) ∧
        a.predictors rule = set := by
  unfold predictSet
  rw [check_then_eq_ok_iff, check_then_eq_ok_iff, checkNonterminal_eq_ok_iff,
    checkSymbols_eq_ok_iff]
  simp only [pure, Except.pure, Except.ok.injEq]

end Analysis

end Lookahead
