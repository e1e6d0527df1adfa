import Lookahead.Proofs.Conflicts
import Lookahead.Proofs.Prediction

/-!
# Conflicts are the strong LL(1) violations

Two alternatives of a nonterminal clash on a lookahead if each of them can replace the nonterminal
in a derivation from the goal, after a text already read, so that the lookahead and a text come
next. The texts of the two derivations need not agree. Where every nonterminal is reachable and
derives some text, the listed conflicts are exactly the clashes
(`WellFormed.listsConflict_iff_clashes`).

A text may hold empty symbols besides terminals and end markers. An empty symbol belongs to no class
and cannot be replaced, so that a grammar with one in an alternative derives it for good. Where no
alternative has one, texts are strings of terminals and end markers.
-/

namespace Lookahead.Grammar

variable {g : Grammar} {N a : Symbol} {alt : Alternative} {u v : List Symbol}

/-- A nonterminal is productive if it derives a text, by what counts as final in a text. -/
def IsProductive (g : Grammar) (final : Symbol → Prop) (N : Symbol) : Prop :=
  ∃ text, (∀ s ∈ text, final s) ∧ g.Derives [N] text

/-- A symbol chooses an alternative if, after a text that is read already, the alternative can
replace its nonterminal and go on to that symbol and another text. -/
def Chooses (g : Grammar) (final : Symbol → Prop) (N : Symbol) (alt : Alternative) (a : Symbol) :
    Prop :=
  ∃ read after rest, (∀ s ∈ read, final s) ∧ (∀ s ∈ rest, final s) ∧
    g.Derives [g.goal] (read ++ N :: after) ∧
    g.Derives (read ++ eraseLambda alt ++ after) (read ++ a :: rest)

/-- Two positions of a nonterminal clash on a symbol that chooses the alternatives at both. -/
def Clashes (g : Grammar) (final : Symbol → Prop) (N : Symbol) (i j : Nat) (a : Symbol) : Prop :=
  i < j ∧ ∃ alt alt', (g.table.alternatives N)[i]? = some alt ∧
    (g.table.alternatives N)[j]? = some alt' ∧ g.Chooses final N alt a ∧ g.Chooses final N alt' a

/-! ## Derivations of texts -/

/-- Whether texts of a grammar can be made of these symbols: they are final, and all final symbols
in the alternatives are among them. -/
structure IsTextClass (g : Grammar) (final : Symbol → Prop) : Prop where
  isFinal : ∀ s, final s → s.IsFinal
  final : ∀ lhs, ∀ alt ∈ g.table.alternatives lhs, ∀ s ∈ alt, s.IsFinal → final s

/-- Texts can be made of all final symbols. -/
theorem isTextClass_isFinal (g : Grammar) : g.IsTextClass Symbol.IsFinal :=
  ⟨fun _ => id, fun _ _ _ _ _ => id⟩

/-- Without empty symbols, texts are strings of terminals and end markers. -/
theorem HasNoEmptySymbol.isTextClass (hempty : g.HasNoEmptySymbol) :
    g.IsTextClass fun s => s.isLookahead = true := by
  refine ⟨fun s hs => .inl hs, fun lhs alt halt s hs hfinal => ?_⟩
  exact hfinal.resolve_right fun heq => hempty lhs alt halt (heq ▸ hs)

/-- Without empty symbols, what a nonterminal derives has none. -/
theorem HasNoEmptySymbol.isProductive (hempty : g.HasNoEmptySymbol) (hN : N ≠ "")
    (h : g.IsProductive Symbol.IsFinal N) : g.IsProductive (fun s => s.isLookahead = true) N := by
  obtain ⟨text, htext, hderives⟩ := h
  have hnone : ∀ s ∈ text, s ≠ "" := by
    refine Derives.forall_mem (fun _ halt s hs heq => ?_) hderives fun s hs => ?_
    · exact hempty _ _ halt (heq ▸ (mem_eraseLambda.mp hs).1)
    · exact List.mem_singleton.mp hs ▸ hN
  exact ⟨text, fun s hs => (htext s hs).resolve_right (hnone s hs), hderives⟩

/-- What the goal derives consists of nonterminals of the grammar and symbols of texts. -/
theorem WellFormed.final_or_mem_of_derives_goal (hg : g.WellFormed) {final : Symbol → Prop}
    (hfinal : g.IsTextClass final) (h : g.Derives [g.goal] u) :
    ∀ s ∈ u, final s ∨ s ∈ g.nonterminals := by
  refine Derives.forall_mem (fun _ halt s hs => ?_) h fun s hs => ?_
  · obtain ⟨hmem, hlambda⟩ := mem_eraseLambda.mp hs
    refine (Symbol.isFinal_or_isNonterminal hlambda).imp (hfinal.final _ _ halt s hmem) ?_
    exact hg.mem_nonterminals_of_mem halt s hmem
  · rw [List.mem_singleton.mp hs]
    exact .inr hg.goal_mem

/-- Where every nonterminal is productive, so is every sequence of nonterminals and final
symbols. -/
theorem exists_derives_final {final : Symbol → Prop}
    (hproductive : ∀ M ∈ g.nonterminals, g.IsProductive final M)
    (hu : ∀ s ∈ u, final s ∨ s ∈ g.nonterminals) :
    ∃ text, (∀ s ∈ text, final s) ∧ g.Derives u text := by
  apply Derives.exists_of_forall_mem (P := fun text => ∀ s ∈ text, final s)
  · intro s hs
    exact absurd hs List.not_mem_nil
  · intro v w hv hw s hs
    exact (List.mem_append.mp hs).elim (hv s) (hw s)
  · intro s hs
    rcases hu s hs with hfinal | hmem
    · exact ⟨[s], fun t ht => List.mem_singleton.mp ht ▸ hfinal, Derives.refl [s]⟩
    · exact hproductive s hmem

/-! ## Selecting lookaheads and choosing symbols -/

/-- A symbol comes next where an alternative replaces its nonterminal in a derivation from the goal,
if the alternative with what stands behind it goes on to that symbol. What is read before and what
is left after it are texts. -/
def ComesNext (g : Grammar) (final : Symbol → Prop) (N : Symbol) (alt : Alternative)
    (a : Symbol) : Prop :=
  ∃ read after rest, (∀ s ∈ read, final s) ∧ (∀ s ∈ rest, final s) ∧
    g.Derives [g.goal] (read ++ N :: after) ∧ g.Derives (eraseLambda alt ++ after) (a :: rest)

/-- What comes next where the alternative is used is chosen by it, behind the text that is read. -/
theorem ComesNext.chooses {final : Symbol → Prop} (h : g.ComesNext final N alt a) :
    g.Chooses final N alt a := by
  obtain ⟨read, after, rest, hread, hrest, hform, hnext⟩ := h
  refine ⟨read, after, rest, hread, hrest, hform, ?_⟩
  rw [List.append_assoc]
  exact hnext.append_left read

/-- A text in front of the nonterminal stays as it is. -/
theorem Chooses.comesNext (hg : g.WellFormed) {final : Symbol → Prop}
    (hfinal : g.IsTextClass final) (h : g.Chooses final N alt a) : g.ComesNext final N alt a := by
  obtain ⟨read, after, rest, hread, hrest, hform, hnext⟩ := h
  have hfixed : ∀ s ∈ read, s ∉ g.nonterminals := by
    intro s hs
    exact hg.not_mem_nonterminals_of_isFinal (hfinal.isFinal s (hread s hs))
  rw [List.append_assoc] at hnext
  obtain ⟨tail, hsame, htail⟩ := hnext.exists_of_append hg hfixed
  obtain rfl := List.append_cancel_left hsame
  exact ⟨read, after, rest, hread, hrest, hform, htail⟩

/-- A lookahead that comes next selects the alternative. -/
theorem WellFormed.mem_predictors_of_comesNext (hg : g.WellFormed) {final : Symbol → Prop}
    (halt : alt ∈ g.table.alternatives N) (ha : a.isLookahead = true)
    (h : g.ComesNext final N alt a) : a ∈ g.analyze.predictors ⟨N, alt⟩ := by
  obtain ⟨read, after, rest, -, -, hform, hnext⟩ := h
  exact hg.mem_predictors_of_derives halt hform ha hnext

/-- A lookahead that chooses an alternative selects it. -/
theorem WellFormed.mem_predictors_of_chooses (hg : g.WellFormed) {final : Symbol → Prop}
    (hfinal : g.IsTextClass final) (halt : alt ∈ g.table.alternatives N)
    (ha : a.isLookahead = true) (h : g.Chooses final N alt a) :
    a ∈ g.analyze.predictors ⟨N, alt⟩ :=
  hg.mem_predictors_of_comesNext halt ha (h.comesNext hg hfinal)

/-- Where every nonterminal is reachable and productive, a lookahead that selects an alternative
comes next somewhere, between texts. -/
theorem WellFormed.comesNext_of_mem_predictors (hg : g.WellFormed) {final : Symbol → Prop}
    (hfinal : g.IsTextClass final)
    (hreach : ∀ M ∈ g.nonterminals, g.IsReachable M)
    (hproductive : ∀ M ∈ g.nonterminals, g.IsProductive final M)
    (halt : alt ∈ g.table.alternatives N) (ha : a ∈ g.analyze.predictors ⟨N, alt⟩) :
    g.ComesNext final N alt a := by
  obtain ⟨before, after, rest, hform, hnext⟩ :=
    hg.exists_derives_of_mem_predictors hreach halt ha
  have hreplaced := hform.trans (Derives.of_alternative halt before after)
  rw [List.append_assoc] at hreplaced
  -- what stands before and behind the lookahead is derived from the goal, so both derive texts
  have hsymbols :=
    hg.final_or_mem_of_derives_goal hfinal (hreplaced.trans (hnext.append_left before))
  obtain ⟨read, hread, hbefore⟩ := exists_derives_final hproductive fun s hs =>
    hsymbols s (List.mem_append_left (a :: rest) hs)
  obtain ⟨text, htext, hrest⟩ := exists_derives_final hproductive fun s hs =>
    hsymbols s (List.mem_append_right before (List.mem_cons_of_mem a hs))
  exact ⟨read, after, text, hread, htext, hform.trans (hbefore.append_right (N :: after)),
    hnext.trans (hrest.append_left [a])⟩

/-- Where every nonterminal is reachable and productive, the lookaheads that select an alternative
are those that choose it. -/
theorem WellFormed.mem_predictors_iff_chooses (hg : g.WellFormed) {final : Symbol → Prop}
    (hfinal : g.IsTextClass final) (hreach : ∀ M ∈ g.nonterminals, g.IsReachable M)
    (hproductive : ∀ M ∈ g.nonterminals, g.IsProductive final M)
    (halt : alt ∈ g.table.alternatives N) :
    a ∈ g.analyze.predictors ⟨N, alt⟩ ↔ a.isLookahead = true ∧ g.Chooses final N alt a := by
  constructor
  · intro ha
    have hnext := hg.comesNext_of_mem_predictors hfinal hreach hproductive halt ha
    exact ⟨hg.isLookahead_of_mem_predictors (hg.lhs_mem halt) ha, hnext.chooses⟩
  · rintro ⟨hlookahead, hchooses⟩
    exact hg.mem_predictors_of_chooses hfinal halt hlookahead hchooses

/-! ## The conflict list -/

/-- Where every nonterminal is reachable and productive, two positions are listed on the lookaheads
that they clash on. -/
theorem WellFormed.listsConflict_iff_clashes (hg : g.WellFormed) {final : Symbol → Prop}
    (hfinal : g.IsTextClass final) (hreach : ∀ M ∈ g.nonterminals, g.IsReachable M)
    (hproductive : ∀ M ∈ g.nonterminals, g.IsProductive final M) {i j : Nat} :
    g.analyze.ListsConflict N i j a ↔ a.isLookahead = true ∧ g.Clashes final N i j a := by
  have hchooses : ∀ {k : Nat} {alt}, (g.table.alternatives N)[k]? = some alt →
      (a ∈ g.analyze.predictors ⟨N, alt⟩ ↔ a.isLookahead = true ∧ g.Chooses final N alt a) := by
    intro k alt hk
    exact hg.mem_predictors_iff_chooses hfinal hreach hproductive (List.mem_of_getElem? hk)
  rw [Analysis.listsConflict_iff]
  constructor
  · rintro ⟨-, hij, alt, alt', hi, hj, ha, ha'⟩
    obtain ⟨hlookahead, hfirst⟩ := (hchooses hi).mp ha
    obtain ⟨-, hsecond⟩ := (hchooses hj).mp ha'
    exact ⟨hlookahead, hij, alt, alt', hi, hj, hfirst, hsecond⟩
  · rintro ⟨hlookahead, hij, alt, alt', hi, hj, hfirst, hsecond⟩
    exact ⟨hg.lhs_mem (List.mem_of_getElem? hi), hij, alt, alt', hi, hj,
      (hchooses hi).mpr ⟨hlookahead, hfirst⟩, (hchooses hj).mpr ⟨hlookahead, hsecond⟩⟩

/-- Where every nonterminal is reachable and productive, a grammar is LL(1) exactly if no two
positions clash. -/
theorem WellFormed.isLL1_iff_not_clashes (hg : g.WellFormed) {final : Symbol → Prop}
    (hfinal : g.IsTextClass final) (hreach : ∀ M ∈ g.nonterminals, g.IsReachable M)
    (hproductive : ∀ M ∈ g.nonterminals, g.IsProductive final M) :
    g.analyze.isLL1 = true ↔ ¬∃ N i j a, a.isLookahead = true ∧ g.Clashes final N i j a := by
  rw [Analysis.isLL1_iff]
  simp only [hg.listsConflict_iff_clashes hfinal hreach hproductive]

/-- In a grammar whose nonterminals are all reachable and productive, the listed conflicts are
exactly the clashes on lookaheads, in strictly ascending order, so each two positions come once at
most, with the alternatives that stand there. The grammar is LL(1) exactly if no two positions
clash. If no alternative has an empty symbol in it, the texts are strings of terminals and end
markers. -/
theorem Built.conflicts_iff_clashes (h : g.Built) (hreach : ∀ M ∈ g.nonterminals, g.IsReachable M)
    (hproductive : ∀ M ∈ g.nonterminals, g.IsProductive Symbol.IsFinal M) :
    (∀ N i j a, g.analyze.ListsConflict N i j a ↔
        a.isLookahead = true ∧ g.Clashes Symbol.IsFinal N i j a) ∧
      g.analyze.conflicts.Pairwise Conflict.Before ∧
      (g.analyze.isLL1 = true ↔
        ¬∃ N i j a, a.isLookahead = true ∧ g.Clashes Symbol.IsFinal N i j a) ∧
      (∀ c ∈ g.analyze.conflicts,
        (g.table.alternatives c.nonterminal)[c.firstPosition]? = some c.first ∧
          (g.table.alternatives c.nonterminal)[c.secondPosition]? = some c.second) ∧
      (g.HasNoEmptySymbol →
        (∀ M ∈ g.nonterminals, g.IsProductive (fun s => s.isLookahead = true) M) ∧
        (∀ N i j a, g.analyze.ListsConflict N i j a ↔
          a.isLookahead = true ∧ g.Clashes (fun s => s.isLookahead = true) N i j a) ∧
        (g.analyze.isLL1 = true ↔ ¬∃ N i j a, a.isLookahead = true ∧
          g.Clashes (fun s => s.isLookahead = true) N i j a)) := by
  have hg := h.wellFormed
  have hfinal := g.isTextClass_isFinal
  refine ⟨fun N i j a => ?_, g.analyze.pairwise_conflicts, ?_, fun c hc => ?_, fun hempty => ?_⟩
  · exact hg.listsConflict_iff_clashes hfinal hreach hproductive
  · exact hg.isLL1_iff_not_clashes hfinal hreach hproductive
  · obtain ⟨-, -, hfirst, hsecond, -⟩ := Analysis.mem_conflicts_iff.mp hc
    exact ⟨hfirst, hsecond⟩
  · -- no nonterminal is empty, so each derives a text without empty symbols
    have hterminal : ∀ M ∈ g.nonterminals, g.IsProductive (fun s => s.isLookahead = true) M := by
      intro M hM
      have hne : M ≠ "" := fun heq =>
        hg.not_mem_nonterminals_of_isFinal (.inr rfl) (heq ▸ hM)
      exact hempty.isProductive hne (hproductive M hM)
    have hfinal := hempty.isTextClass
    refine ⟨hterminal, fun N i j a => ?_, ?_⟩
    · exact hg.listsConflict_iff_clashes hfinal hreach hterminal
    · exact hg.isLL1_iff_not_clashes hfinal hreach hterminal

/-- Two alternatives that vanish before the same text, which ends in an empty symbol. -/
def vanishingPair : Grammar :=
  (ofRules? [("S", [["A", "b", "", "$"]]), ("A", [["B"], ["lambda"]]), ("B", [["lambda"]])]).get
    (by decide)

/-- All nonterminals stand in what the goal derives, and all derive texts. -/
theorem vanishingPair_isReachable_and_isProductive :
    ∀ M ∈ vanishingPair.nonterminals,
      vanishingPair.IsReachable M ∧ vanishingPair.IsProductive Symbol.IsFinal M := by
  have hnames : ∀ M ∈ vanishingPair.nonterminals, M = "A" ∨ M = "B" ∨ M = "S" := by decide
  have hS : vanishingPair.Derives ["S"] ["A", "b", "", "$"] :=
    Derives.singleton_of_alternative
      (by decide : ["A", "b", "", "$"] ∈ vanishingPair.table.alternatives "S")
  have hA : vanishingPair.Derives ["A"] ["B"] :=
    Derives.singleton_of_alternative (by decide : ["B"] ∈ vanishingPair.table.alternatives "A")
  have hB : vanishingPair.Derives ["B"] [] :=
    Derives.singleton_of_alternative (by decide : ["lambda"] ∈ vanishingPair.table.alternatives "B")
  have htail : ∀ s ∈ ["b", "", "$"], Symbol.IsFinal s := by
    unfold Symbol.IsFinal
    decide
  intro M hM
  rcases hnames M hM with rfl | rfl | rfl
  · exact ⟨⟨[], ["b", "", "$"], hS⟩, [], by simp, hA.trans hB⟩
  · exact ⟨⟨[], ["b", "", "$"], hS.trans (hA.append_right ["b", "", "$"])⟩, [], by simp, hB⟩
  · exact ⟨⟨[], [], Derives.refl ["S"]⟩, ["b", "", "$"], htail,
      hS.trans ((hA.trans hB).append_right ["b", "", "$"])⟩

/-- Two equal alternatives. -/
def equalPair : Grammar :=
  (ofRules? [("S", [["A", "$"]]), ("A", [["b"], ["b"]])]).get (by decide)

/-- Both nonterminals stand in what the goal derives, and both derive texts. -/
theorem equalPair_isReachable_and_isProductive :
    ∀ M ∈ equalPair.nonterminals,
      equalPair.IsReachable M ∧ equalPair.IsProductive Symbol.IsFinal M := by
  have hnames : ∀ M ∈ equalPair.nonterminals, M = "A" ∨ M = "S" := by decide
  have hS : equalPair.Derives ["S"] ["A", "$"] :=
    Derives.singleton_of_alternative (by decide : ["A", "$"] ∈ equalPair.table.alternatives "S")
  have hA : equalPair.Derives ["A"] ["b"] :=
    Derives.singleton_of_alternative (by decide : ["b"] ∈ equalPair.table.alternatives "A")
  have htext : ∀ s ∈ ["b", "$"], Symbol.IsFinal s := by
    unfold Symbol.IsFinal
    decide
  intro M hM
  rcases hnames M hM with rfl | rfl
  · exact ⟨⟨[], ["$"], hS⟩, ["b"], fun s hs => htext s (List.mem_append_left ["$"] hs), hA⟩
  · exact ⟨⟨[], [], Derives.refl ["S"]⟩, ["b", "$"], htext, hS.trans (hA.append_right ["$"])⟩

/-- The two alternatives clash on what stands behind them, and so do two equal ones. -/
theorem vanishingPair_conflicts :
    (vanishingPair.Built ∧ (∀ M ∈ vanishingPair.nonterminals, vanishingPair.IsReachable M) ∧
      (∀ M ∈ vanishingPair.nonterminals, vanishingPair.IsProductive Symbol.IsFinal M) ∧
      (∀ N i j a, vanishingPair.analyze.ListsConflict N i j a ↔
        a.isLookahead = true ∧ vanishingPair.Clashes Symbol.IsFinal N i j a) ∧
      vanishingPair.Clashes Symbol.IsFinal "A" 0 1 "b" ∧
      vanishingPair.analyze.conflicts.Pairwise Conflict.Before ∧
      (vanishingPair.analyze.isLL1 = true ↔
        ¬∃ N i j a, a.isLookahead = true ∧ vanishingPair.Clashes Symbol.IsFinal N i j a)) ∧
    equalPair.Built ∧ equalPair.HasNoEmptySymbol ∧
      (∀ M ∈ equalPair.nonterminals, equalPair.IsReachable M) ∧
      (∀ M ∈ equalPair.nonterminals, equalPair.IsProductive (fun s => s.isLookahead = true) M) ∧
      (∀ N i j a, equalPair.analyze.ListsConflict N i j a ↔
        a.isLookahead = true ∧ equalPair.Clashes (fun s => s.isLookahead = true) N i j a) ∧
      equalPair.Clashes (fun s => s.isLookahead = true) "A" 0 1 "b" ∧
      equalPair.analyze.conflicts = [⟨"A", 0, 1, ["b"], ["b"], .ofList ["b"]⟩] := by
  constructor
  · have hbuilt : vanishingPair.Built := built_of_ofRules? (Option.some_get _).symm
    have hreach : ∀ M ∈ vanishingPair.nonterminals, vanishingPair.IsReachable M :=
      fun M hM => (vanishingPair_isReachable_and_isProductive M hM).1
    have hproductive :
        ∀ M ∈ vanishingPair.nonterminals, vanishingPair.IsProductive Symbol.IsFinal M :=
      fun M hM => (vanishingPair_isReachable_and_isProductive M hM).2
    obtain ⟨hlisted, hordered, hll1, -⟩ := hbuilt.conflicts_iff_clashes hreach hproductive
    have hclash : vanishingPair.analyze.ListsConflict "A" 0 1 "b" := by
      unfold Analysis.ListsConflict
      decide +kernel
    exact ⟨hbuilt, hreach, hproductive, hlisted, ((hlisted "A" 0 1 "b").mp hclash).2, hordered,
      hll1⟩
  · have hbuilt : equalPair.Built := built_of_ofRules? (Option.some_get _).symm
    have hempty : equalPair.HasNoEmptySymbol :=
      hbuilt.wellFormed.hasNoEmptySymbol_iff.mpr (by decide)
    have hreach : ∀ M ∈ equalPair.nonterminals, equalPair.IsReachable M :=
      fun M hM => (equalPair_isReachable_and_isProductive M hM).1
    obtain ⟨-, -, -, -, hplain⟩ := hbuilt.conflicts_iff_clashes hreach fun M hM =>
      (equalPair_isReachable_and_isProductive M hM).2
    obtain ⟨hterminal, hlisted, -⟩ := hplain hempty
    have hconflicts :
        equalPair.analyze.conflicts = [⟨"A", 0, 1, ["b"], ["b"], .ofList ["b"]⟩] := by
      decide +kernel
    have hclash : equalPair.analyze.ListsConflict "A" 0 1 "b" := by
      unfold Analysis.ListsConflict
      decide +kernel
    exact ⟨hbuilt, hempty, hreach, hterminal, hlisted, ((hlisted "A" 0 1 "b").mp hclash).2,
      hconflicts⟩

/-! ## Texts without empty symbols are not enough -/

/-- Two equal alternatives that only a text with an empty symbol in it can reach. -/
def hiddenPair : Grammar :=
  (ofRules? [("S", [["A", "", "$"], ["b", "$"]]), ("A", [["c"], ["c"]])]).get (by decide)

/-- An empty symbol stands in all that the goal derives with the pair in it. -/
theorem hiddenPair_empty_mem (hg : hiddenPair.WellFormed)
    (hu : hiddenPair.Derives [hiddenPair.goal] u) (hA : "A" ∈ u) : "" ∈ u := by
  have halternatives : ∀ alt ∈ hiddenPair.table.alternatives hiddenPair.goal,
      alt = ["A", "", "$"] ∨ alt = ["b", "$"] := by decide
  rcases Derives.eq_or_exists_alternative hu with rfl | ⟨alt, halt, hrest⟩
  · exact absurd hA (by decide)
  · -- the other alternative of the goal never brings `A`
    rcases halternatives alt halt with rfl | rfl
    · exact Derives.mem_of_not_mem_nonterminals hg (by decide) hrest (by decide)
    · rw [Derives.eq_of_forall_not_mem hg (by decide) hrest] at hA
      exact absurd hA (by decide)

/-- Where the first alternative of a nonterminal is used, an empty symbol stands in it or around. -/
theorem hiddenPair_empty_mem_of_first (hg : hiddenPair.WellFormed) {before after : List Symbol}
    (hform : hiddenPair.Derives [hiddenPair.goal] (before ++ N :: after))
    (hfirst : (hiddenPair.table.alternatives N)[0]? = some alt) :
    "" ∈ before ++ eraseLambda alt ++ after := by
  have hnames : ∀ M ∈ hiddenPair.nonterminals, M = "A" ∨ M = "S" := by decide
  rcases hnames N (hg.lhs_mem (List.mem_of_getElem? hfirst)) with rfl | rfl
  · have hmem := hiddenPair_empty_mem hg hform (by simp)
    have hne : "" ≠ "A" := by decide
    simp only [List.mem_append, List.mem_cons, hne, false_or] at hmem ⊢
    exact hmem.imp_left .inl
  · have halternatives : hiddenPair.table.alternatives "S" = [["A", "", "$"], ["b", "$"]] := by
      decide
    rw [halternatives] at hfirst
    obtain rfl : ["A", "", "$"] = alt := Option.some.inj hfirst
    have hmem : "" ∈ eraseLambda ["A", "", "$"] := by decide
    exact List.mem_append_left after (List.mem_append_right before hmem)

/-- If texts hold terminals and end markers only, a conflict can be listed where nothing clashes,
although every nonterminal is reachable and derives such a text. -/
theorem hiddenPair_listed_without_clash :
    hiddenPair.Built ∧ (∀ M ∈ hiddenPair.nonterminals, hiddenPair.IsReachable M) ∧
      (∀ M ∈ hiddenPair.nonterminals, hiddenPair.IsProductive (fun s => s.isLookahead = true) M) ∧
      hiddenPair.analyze.ListsConflict "A" 0 1 "c" ∧ hiddenPair.analyze.isLL1 = false ∧
      ¬∃ N i j a, a.isLookahead = true ∧
        hiddenPair.Clashes (fun s => s.isLookahead = true) N i j a := by
  have hbuilt : hiddenPair.Built := built_of_ofRules? (Option.some_get _).symm
  have hnames : ∀ M ∈ hiddenPair.nonterminals, M = "A" ∨ M = "S" := by decide
  have hA : hiddenPair.Derives ["A"] ["c"] :=
    Derives.singleton_of_alternative (by decide : ["c"] ∈ hiddenPair.table.alternatives "A")
  have hS : hiddenPair.Derives ["S"] ["A", "", "$"] :=
    Derives.singleton_of_alternative
      (by decide : ["A", "", "$"] ∈ hiddenPair.table.alternatives "S")
  have hS' : hiddenPair.Derives ["S"] ["b", "$"] :=
    Derives.singleton_of_alternative (by decide : ["b", "$"] ∈ hiddenPair.table.alternatives "S")
  have hreach : ∀ M ∈ hiddenPair.nonterminals, hiddenPair.IsReachable M := by
    intro M hM
    rcases hnames M hM with rfl | rfl
    · exact ⟨[], ["", "$"], hS⟩
    · exact ⟨[], [], Derives.refl ["S"]⟩
  have hproductive : ∀ M ∈ hiddenPair.nonterminals,
      hiddenPair.IsProductive (fun s => s.isLookahead = true) M := by
    intro M hM
    rcases hnames M hM with rfl | rfl
    · exact ⟨["c"], by decide, hA⟩
    · exact ⟨["b", "$"], by decide, hS'⟩
  have hlisted : hiddenPair.analyze.ListsConflict "A" 0 1 "c" := by
    unfold Analysis.ListsConflict
    decide +kernel
  refine ⟨hbuilt, hreach, hproductive, hlisted, by decide +kernel, ?_⟩
  rintro ⟨N, i, j, a, ha, hij, alt, alt', hi, hj,
    ⟨read, after, rest, hread, hrest, hform, hnext⟩, -⟩
  have hg := hbuilt.wellFormed
  -- no nonterminal has three alternatives, so the earlier one is the first
  have hcount : ∀ M ∈ hiddenPair.nonterminals, (hiddenPair.table.alternatives M).length = 2 := by
    decide
  have hlength := hcount N (hg.lhs_mem (List.mem_of_getElem? hj))
  obtain ⟨hj, -⟩ := List.getElem?_eq_some_iff.mp hj
  obtain rfl : i = 0 := by omega
  -- the empty symbol never goes away, and no symbol of the text that is left is empty
  have hmem := Derives.mem_of_not_mem_nonterminals hg (by decide) hnext
    (hiddenPair_empty_mem_of_first hg hform hi)
  have hnot : Symbol.isLookahead "" ≠ true := by decide
  rw [List.mem_append, List.mem_cons] at hmem
  rcases hmem with hmem | rfl | hmem
  · exact hnot (hread "" hmem)
  · exact hnot ha
  · exact hnot (hrest "" hmem)

end Lookahead.Grammar
