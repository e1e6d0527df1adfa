import Lookahead.Proofs.OptimisticSearch
import Lookahead.Proofs.RoundTrip

/-!
# The cyclically nullable nonterminals

The search from suspects alone, with the nullable set as the answer for all others, finds the same
nonterminals as the plain search (`WellFormed.cyclicNullability_eq`). Where no alternative has an
empty symbol, a nonterminal for which the plain search is wrong leads to another such nonterminal.
So no round of peeling drops it (`WellFormed.mem_cycleReaching_of_isAssumed`), and for all that are
dropped the nullable set gives the answer of the plain search.
-/

namespace Lookahead.Grammar

variable {g : Grammar} {N : Symbol}

/-! ## Peeling -/

/-- A nonterminal leads into a set if an alternative without lookaheads has a member of the set in
it. -/
theorem leadsInto_iff {targets : SymbolSet} :
    g.leadsInto targets N = true ↔
      ∃ alt ∈ g.table.alternatives N, (∀ s ∈ alt, s.isLookahead = false) ∧
        ∃ s ∈ alt, s ∈ targets := by
  unfold leadsInto rulesFor
  simp

/-- Peeling keeps every set whose members lead to other members. -/
theorem mem_cycleReaching {P : Symbol → Prop}
    (hstart : ∀ M, P M → M ∈ g.nonterminals ∧ M ∉ g.nullable)
    (hleads : ∀ M, P M → ∃ alt ∈ g.table.alternatives M, (∀ s ∈ alt, s.isLookahead = false) ∧
      ∃ s ∈ alt, P s)
    (hN : P N) : N ∈ g.cycleReaching g.nullable := by
  suffices hkept : ∀ M, P M → M ∈ g.cycleReaching g.nullable from hkept N hN
  apply g.peeling.limit_induction (P := fun remaining => ∀ M, P M → M ∈ remaining)
  · intro remaining _ hremaining M hM
    obtain ⟨alt, halt, hlookahead, s, hs, htarget⟩ := hleads M hM
    exact SymbolSet.mem_filter.mpr ⟨hremaining M hM,
      leadsInto_iff.mpr ⟨alt, halt, hlookahead, s, hs, hremaining s htarget⟩⟩
  · intro M hM
    obtain ⟨hmem, hnullable⟩ := hstart M hM
    exact SymbolSet.mem_filter.mpr ⟨hmem, decide_eq_true hnullable⟩

/-- The suspects are nonterminals that are not nullable. -/
theorem mem_nonterminals_of_mem_cycleReaching (hN : N ∈ g.cycleReaching g.nullable) :
    N ∈ g.nonterminals ∧ N ∉ g.nullable := by
  have hwithin : ∀ M ∈ g.cycleReaching g.nullable, M ∈ g.nonterminals ∧ M ∉ g.nullable := by
    apply g.peeling.limit_induction
      (P := fun remaining => ∀ M ∈ remaining, M ∈ g.nonterminals ∧ M ∉ g.nullable)
    · intro remaining _ hremaining M hM
      exact hremaining M (SymbolSet.mem_filter.mp hM).1
    · intro M hM
      exact (SymbolSet.mem_filter.mp hM).imp_right of_decide_eq_true
  exact hwithin N hN

/-- Each suspect leads to a suspect. -/
theorem leadsInto_cycleReaching (hN : N ∈ g.cycleReaching g.nullable) :
    g.leadsInto (g.cycleReaching g.nullable) N = true := by
  have hstep : g.peeling.step (g.cycleReaching g.nullable) = g.cycleReaching g.nullable :=
    g.peeling.step_limit _ trivial
  rw [← hstep] at hN
  exact (SymbolSet.mem_filter.mp hN).2

/-! ## Where the plain search is wrong -/

/-- Whether the search that assumes cycles to vanish says yes for a nonterminal that is not
nullable. -/
def IsAssumed (g : Grammar) (N : Symbol) : Prop :=
  g.optimisticallyNullable N = true ∧ N ∉ g.nullable

/-- A yes is wrong only because of another one that is. -/
theorem WellFormed.exists_isAssumed (hg : g.WellFormed) (hempty : g.HasNoEmptySymbol)
    (hN : g.IsAssumed N) :
    ∃ alt ∈ g.table.alternatives N, (∀ s ∈ alt, s.isLookahead = false) ∧
      ∃ s ∈ alt, g.IsAssumed s := by
  obtain ⟨hyes, hnullable⟩ := hN
  obtain ⟨alt, halt, hvanishes⟩ := g.isSelfVanishing_canVanish (fun _ => none) N hyes
  rw [orElse_none] at hvanishes
  have hnot : vanishes g.nullable alt ≠ true := fun h =>
    hnullable (hg.mem_nullable_of_vanishes halt h)
  rcases hvanishes with rfl | ⟨hlookahead, hmem⟩
  · exact absurd (vanishes_cons.mpr ⟨.inl (by decide), rfl⟩) hnot
  · -- some symbol of the alternative does not vanish, and only a nonterminal is left for it to be
    refine ⟨alt, halt, hlookahead, ?_⟩
    obtain ⟨s, hs, hkept⟩ := List.all_eq_false.mp (Bool.eq_false_iff.mpr hnot)
    rw [Bool.or_eq_true, decide_eq_true_eq, not_or, Bool.not_eq_true] at hkept
    obtain ⟨hlambda, hs'⟩ := hkept
    refine ⟨s, hs, hmem s hs ?_, hs'⟩
    refine (Symbol.isFinal_or_isNonterminal hlambda).resolve_left ?_
    rintro (hfinal | rfl)
    · rw [hlookahead s hs] at hfinal
      exact Bool.false_ne_true hfinal
    · exact hempty N alt halt hs

/-- The plain search is wrong about suspects only. -/
theorem WellFormed.mem_cycleReaching_of_isAssumed (hg : g.WellFormed)
    (hempty : g.HasNoEmptySymbol) (hN : g.IsAssumed N) : N ∈ g.cycleReaching g.nullable := by
  refine mem_cycleReaching (P := g.IsAssumed) (fun M hM => ⟨?_, hM.2⟩)
    (fun M hM => hg.exists_isAssumed hempty hM) hN
  obtain ⟨alt, halt, -⟩ := hg.exists_isAssumed hempty hM
  exact hg.lhs_mem halt

/-! ## The search from suspects -/

/-- The answers that are not searched for: those for nonterminals beyond suspicion. -/
def beyondSuspicion (g : Grammar) (s : Symbol) : Option Bool :=
  if s ∈ g.cycleReaching g.nullable then none else some (decide (s ∈ g.nullable))

/-- Beyond the suspects the nullable set gives the answer. -/
theorem mem_orElse_beyondSuspicion {X : Set Symbol} {s : Symbol} :
    s ∈ orElse g.beyondSuspicion X ↔
      if s ∈ g.cycleReaching g.nullable then s ∈ X else s ∈ g.nullable := by
  unfold orElse beyondSuspicion
  rw [Set.mem_ofPred_eq]
  split <;> simp

/-- Taking the answer for others from the nullable set changes no answer. -/
theorem WellFormed.canVanish_beyondSuspicion (hg : g.WellFormed) (hempty : g.HasNoEmptySymbol) :
    g.canVanish g.beyondSuspicion [] N = g.optimisticallyNullable N := by
  rw [Bool.eq_iff_iff]
  constructor
  · -- together with the nullable nonterminals, those found vanish by themselves
    intro hN
    let X : Set Symbol := {M | g.canVanish g.beyondSuspicion [] M = true ∨ M ∈ g.nullable}
    refine canVanish_of_isSelfVanishing (X := X) ?_ (.inl hN)
    rintro M (hM | hM)
    · obtain ⟨alt, halt, hvanishes⟩ := g.isSelfVanishing_canVanish g.beyondSuspicion M hM
      rw [orElse_none]
      refine ⟨alt, halt, hvanishes.mono fun s _ hs => ?_⟩
      rw [mem_orElse_beyondSuspicion] at hs
      split at hs
      · exact .inl hs
      · exact .inr hs
    · obtain ⟨alt, halt, hvanishes⟩ := hg.isSelfVanishing_nullable M hM
      rw [orElse_none] at hvanishes ⊢
      exact ⟨alt, halt, hvanishes.mono fun s _ hs => .inr hs⟩
  · -- a yes of the plain search for a nonterminal beyond suspicion is not wrong
    intro hN
    refine canVanish_of_isSelfVanishing (X := {M | g.optimisticallyNullable M = true}) ?_ hN
    intro M hM
    obtain ⟨alt, halt, hvanishes⟩ := g.isSelfVanishing_canVanish (fun _ => none) M hM
    rw [orElse_none] at hvanishes
    refine ⟨alt, halt, hvanishes.mono fun s _ hs => mem_orElse_beyondSuspicion.mpr ?_⟩
    split
    · exact hs
    · rename_i hsuspect
      by_contra hnullable
      exact hsuspect (hg.mem_cycleReaching_of_isAssumed hempty ⟨hs, hnullable⟩)

/-- The cyclically nullable nonterminals are the suspects for which the search from them says
yes. -/
theorem mem_cyclicallyNullable :
    N ∈ g.cyclicallyNullable g.nullable ↔
      N ∈ g.cycleReaching g.nullable ∧ g.canVanish g.beyondSuspicion [] N = true :=
  SymbolSet.mem_filter

/-- The cyclically nullable nonterminals are those about which the plain search is wrong. -/
theorem WellFormed.mem_cyclicallyNullable_iff_isAssumed (hg : g.WellFormed)
    (hempty : g.HasNoEmptySymbol) :
    N ∈ g.cyclicallyNullable g.nullable ↔ g.IsAssumed N := by
  rw [mem_cyclicallyNullable, hg.canVanish_beyondSuspicion hempty]
  constructor
  · rintro ⟨hsuspect, hN⟩
    exact ⟨hN, (mem_nonterminals_of_mem_cycleReaching hsuspect).2⟩
  · intro hN
    exact ⟨hg.mem_cycleReaching_of_isAssumed hempty hN, hN.1⟩

/-- The report is the list of the nonterminals about which the plain search is wrong. -/
theorem WellFormed.cyclicNullability_eq (hg : g.WellFormed) (hempty : g.HasNoEmptySymbol) :
    g.analyze.cyclicNullability =
      g.nonterminals.toList.filter fun N =>
        g.optimisticallyNullable N && !g.analyze.isNullable N := by
  have hsame : g.cyclicallyNullable g.nullable =
      g.nonterminals.filter fun N => g.optimisticallyNullable N && !g.analyze.isNullable N := by
    apply SymbolSet.ext_mem
    intro N
    rw [hg.mem_cyclicallyNullable_iff_isAssumed hempty, SymbolSet.mem_filter, Bool.and_eq_true,
      Bool.not_eq_true']
    constructor
    · intro hN
      exact ⟨(mem_nonterminals_of_mem_cycleReaching
        (hg.mem_cycleReaching_of_isAssumed hempty hN)).1, hN.1, decide_eq_false hN.2⟩
    · rintro ⟨-, hyes, hnullable⟩
      exact ⟨hyes, of_decide_eq_false hnullable⟩
  exact congrArg SymbolSet.toList hsame

/-! ## Grammars that are read -/

/-- What can be written down is not empty. -/
theorem IsExpressible.hasNoEmptySymbol (h : g.IsExpressible) : g.HasNoEmptySymbol :=
  fun _ _ halt hmem => ((h.isWord halt).2 "" hmem).ne_empty rfl

/-- Where no alternative has an empty symbol in it, the report lists, by name, the nonterminals for
which the plain search says yes although they are not nullable; and grammars that are read have no
empty symbols. -/
theorem cyclicNullability_eq_filter :
    (∀ g : Grammar, g.Built → g.HasNoEmptySymbol →
      (g.analyze.cyclicNullability = g.nonterminals.toList.filter fun N =>
        g.optimisticallyNullable N && !g.analyze.isNullable N) ∧
      g.analyze.cyclicNullability.Pairwise (· < ·)) ∧
    ∀ file lines g, Source.read file lines = .ok g → g.Built ∧ g.HasNoEmptySymbol := by
  refine ⟨fun g hg hempty => ⟨hg.wellFormed.cyclicNullability_eq hempty, ?_⟩, ?_⟩
  · exact (g.cyclicallyNullable g.nullable).sorted
  · intro file lines g h
    obtain ⟨hg, hexpressible⟩ := Source.isExpressible_of_read h
    exact ⟨hg, hexpressible.hasNoEmptySymbol⟩

/-- `Loop` is met again behind a nullable nonterminal, and `Via` leads to it. -/
def loopBehindNullable : Grammar :=
  (ofRules? [("S", [["Via", "Opt", "$"]]), ("Via", [["x"], ["Loop"]]),
    ("Loop", [["Opt", "Loop"]]), ("Opt", [["y"], ["lambda"]])]).get (by decide)

/-- The report lists both the loop and what leads to it. -/
theorem loopBehindNullable_cyclicNullability :
    loopBehindNullable.Built ∧ loopBehindNullable.HasNoEmptySymbol ∧
      loopBehindNullable.analyze.cyclicNullability = ["Loop", "Via"] ∧
      ["Loop", "Via"] = loopBehindNullable.nonterminals.toList.filter fun N =>
        loopBehindNullable.optimisticallyNullable N &&
          !loopBehindNullable.analyze.isNullable N := by
  have hbuilt : loopBehindNullable.Built := built_of_ofRules? (Option.some_get _).symm
  have hexpressible : loopBehindNullable.IsExpressible := by decide
  have hread := hexpressible.readText_text hbuilt "loops.cfg"
  obtain ⟨-, hempty⟩ := cyclicNullability_eq_filter.2 "loops.cfg" _ loopBehindNullable hread
  have hreport : loopBehindNullable.analyze.cyclicNullability = ["Loop", "Via"] := by
    decide +kernel
  exact ⟨hbuilt, hempty, hreport,
    hreport ▸ (cyclicNullability_eq_filter.1 loopBehindNullable hbuilt hempty).1⟩

end Lookahead.Grammar
