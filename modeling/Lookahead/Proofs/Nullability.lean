import Lookahead.Analysis
import Lookahead.Proofs.Passes
import Lookahead.Proofs.Derivation

/-!
# The nullable nonterminals are those that derive nothing

A sequence vanishes under the nullable set exactly if it derives the empty sequence
(`vanishes_nullable_iff`). Every nonterminal is taken in with a derivation at hand, and since a
further pass takes in nothing, a step of a derivation cannot lead from a sequence that does not
vanish to one that does.

The other nonterminals are those in a trap, a set of nonterminals whose alternatives lead back into
the set wherever nothing in them stays for good (`Built.isNullable_iff`).
-/

namespace Lookahead

section Vanishes

variable {nullable : SymbolSet} {u v : List Symbol}

/-- A sequence in two parts vanishes exactly if both parts do. -/
theorem vanishes_append :
    vanishes nullable (u ++ v) = (vanishes nullable u && vanishes nullable v) :=
  List.all_append

/-- A sequence vanishes if its first symbol is `lambda` or nullable and the rest vanishes. -/
theorem vanishes_cons {s : Symbol} :
    vanishes nullable (s :: u) = true ↔
      (s.isLambda = true ∨ s ∈ nullable) ∧ vanishes nullable u = true := by
  simp [vanishes]

/-- `lambda` vanishes wherever it stands. -/
theorem vanishes_eraseLambda : vanishes nullable (eraseLambda u) = vanishes nullable u := by
  rw [Bool.eq_iff_iff]
  induction u using lambda_induction with
  | nil => rfl
  | deleted s rest hs ih =>
    rw [eraseLambda_cons_of_isLambda hs, vanishes_cons, ih, hs]
    simp
  | kept s rest hs ih =>
    rw [eraseLambda_cons_of_not_isLambda hs, vanishes_cons, vanishes_cons, ih]

end Vanishes

namespace Grammar

variable {g : Grammar} {u v : List Symbol}

/-- What vanishes by nonterminals that derive nothing derives nothing. -/
theorem derives_nil_of_vanishes {nullable : SymbolSet}
    (hnullable : ∀ N ∈ nullable, g.Derives [N] []) (h : vanishes nullable u = true) :
    g.Derives (eraseLambda u) [] := by
  induction u using lambda_induction with
  | nil => exact Derives.refl []
  | deleted s rest hlambda ih =>
    rw [eraseLambda_cons_of_isLambda hlambda]
    exact ih (vanishes_cons.mp h).2
  | kept s rest hlambda ih =>
    obtain ⟨hs, hrest⟩ := vanishes_cons.mp h
    have hmem : s ∈ nullable := hs.resolve_left (Bool.eq_false_iff.mp hlambda)
    rw [eraseLambda_cons_of_not_isLambda hlambda]
    exact (hnullable s hmem).append (ih hrest)

/-- Every nullable nonterminal derives nothing. -/
theorem WellFormed.derives_nil_of_mem_nullable (hg : g.WellFormed) :
    ∀ N ∈ g.nullable, g.Derives [N] [] := by
  apply Descent.limit_pass_induction (P := fun known => ∀ N ∈ known, g.Derives [N] [])
  · intro r hr known hknown
    unfold nullableStep
    split
    · rename_i hvanishes
      intro N hN
      rcases SymbolSet.mem_insert.mp hN with rfl | hN
      · have hrule := Derives.singleton_of_alternative (hg.mem_allRules.mp hr)
        exact hrule.trans (derives_nil_of_vanishes hknown hvanishes)
      · exact hknown N hN
    · exact hknown
  · intro N hN
    exact absurd hN (SymbolSet.not_mem_empty N)

/-- The nullable set is closed under the rules. -/
theorem WellFormed.mem_nullable_of_vanishes (hg : g.WellFormed) {lhs : Symbol} {alt : Alternative}
    (halt : alt ∈ g.table.alternatives lhs) (h : vanishes g.nullable alt = true) :
    lhs ∈ g.nullable := by
  have hr : (⟨lhs, alt⟩ : Rule) ∈ g.allRules := hg.mem_allRules.mpr halt
  -- the step for the rule would take in `lhs`, and at the limit it takes in nothing new
  have hfixed : nullableStep g.nullable ⟨lhs, alt⟩ = g.nullable :=
    Descent.apply_limit_pass _ _ _ hr
  rw [← hfixed]
  unfold nullableStep
  rw [if_pos h]
  exact SymbolSet.mem_insert.mpr (.inl rfl)

/-- Only nonterminals of the grammar are nullable. -/
theorem WellFormed.mem_nonterminals_of_mem_nullable (hg : g.WellFormed) {N : Symbol}
    (hN : N ∈ g.nullable) : N ∈ g.nonterminals := by
  have hnames : g.nullable ⊆ g.names := g.nullableDescent.inRange_limit _ _
  exact hg.mem_displayOrder.mp (SymbolSet.mem_ofList.mp (hnames N hN))

/-- No step leads from a sequence that does not vanish to one that does. -/
theorem WellFormed.vanishes_of_produces (hg : g.WellFormed) (h : g.Produces u v)
    (hv : vanishes g.nullable v = true) : vanishes g.nullable u = true := by
  obtain @⟨lhs, alt, before, after, halt⟩ := h
  rw [vanishes_append, vanishes_append, vanishes_eraseLambda] at hv
  simp only [Bool.and_eq_true] at hv
  obtain ⟨⟨hbefore, hvanishes⟩, hafter⟩ := hv
  rw [vanishes_append, hbefore, Bool.true_and, vanishes_cons]
  exact ⟨.inr (hg.mem_nullable_of_vanishes halt hvanishes), hafter⟩

/-- What derives something that vanishes vanishes itself. -/
theorem WellFormed.vanishes_of_derives (hg : g.WellFormed) (h : g.Derives u v)
    (hv : vanishes g.nullable v = true) : vanishes g.nullable u = true := by
  induction h using Relation.ReflTransGen.head_induction_on with
  | refl => exact hv
  | head hstep _ ih => exact hg.vanishes_of_produces hstep ih

/-- A sequence vanishes exactly if it derives the empty sequence. -/
theorem WellFormed.vanishes_nullable_iff (hg : g.WellFormed) :
    vanishes g.nullable u = true ↔ g.Derives (eraseLambda u) [] := by
  constructor
  · exact derives_nil_of_vanishes hg.derives_nil_of_mem_nullable
  · intro h
    rw [← vanishes_eraseLambda]
    exact hg.vanishes_of_derives h rfl

/-- The nullable nonterminals are the symbols that derive the empty sequence. -/
theorem WellFormed.mem_nullable_iff (hg : g.WellFormed) {N : Symbol} :
    N ∈ g.nullable ↔ g.Derives [N] [] := by
  constructor
  · exact hg.derives_nil_of_mem_nullable N
  · intro h
    obtain ⟨alt, halt, hnil⟩ := h.eq_or_exists_alternative.resolve_left (List.cons_ne_nil N []).symm
    exact hg.mem_nullable_of_vanishes halt (hg.vanishes_nullable_iff.mpr hnil)

/-! ## Traps -/

/-- A trap is a set of nonterminals in which every alternative of a member uses a member again,
unless some symbol of the alternative stays for good. -/
structure IsTrap (g : Grammar) (trap : SymbolSet) : Prop where
  subset : trap ⊆ g.nonterminals
  leadsBack : ∀ N ∈ trap, ∀ alt ∈ g.table.alternatives N,
    (∀ s ∈ alt, ¬s.IsFinal) → ∃ M ∈ alt, M ∈ trap

section Traps

variable {trap : SymbolSet} {N : Symbol} {alt : Alternative}

/-- Deleting `lambda` from an alternative of a member leaves a member or a symbol that stays. -/
theorem IsTrap.exists_mem_eraseLambda (htrap : g.IsTrap trap) (hg : g.WellFormed) (hN : N ∈ trap)
    (halt : alt ∈ g.table.alternatives N) : ∃ s ∈ eraseLambda alt, s.IsFinal ∨ s ∈ trap := by
  by_cases hfinal : ∃ s ∈ alt, s.IsFinal
  · obtain ⟨s, hs, hfinal⟩ := hfinal
    exact ⟨s, mem_eraseLambda.mpr ⟨hs, hfinal.isLambda_eq_false⟩, .inl hfinal⟩
  · obtain ⟨M, hM, hmem⟩ := htrap.leadsBack N hN alt halt fun s hs h => hfinal ⟨s, hs, h⟩
    have hnonterminal := hg.isNonterminal_of_mem M (htrap.subset M hmem)
    have hlambda := Symbol.isLambda_eq_false_of_isNonterminal hnonterminal
    exact ⟨M, mem_eraseLambda.mpr ⟨hM, hlambda⟩, .inr hmem⟩

/-- No step leads out of a trap. -/
theorem IsTrap.exists_mem_of_produces (htrap : g.IsTrap trap) (hg : g.WellFormed)
    (h : g.Produces u v) (hu : ∃ s ∈ u, s.IsFinal ∨ s ∈ trap) :
    ∃ s ∈ v, s.IsFinal ∨ s ∈ trap := by
  obtain @⟨lhs, alt, before, after, halt⟩ := h
  obtain ⟨s, hs, hstays⟩ := hu
  by_cases hlhs : s = lhs
  · -- the symbol itself is replaced, so it is no final one
    subst hlhs
    have hmem : s ∈ trap := hstays.resolve_left fun hfinal =>
      hg.not_mem_nonterminals_of_isFinal hfinal (hg.lhs_mem halt)
    obtain ⟨t, ht, hstays⟩ := htrap.exists_mem_eraseLambda hg hmem halt
    exact ⟨t, by simp [ht], hstays⟩
  · refine ⟨s, ?_, hstays⟩
    simp only [List.mem_append, List.mem_cons, hlhs, false_or] at hs ⊢
    exact hs.imp_left .inl

/-- No derivation gets rid of the final symbols and the members of a trap altogether. -/
theorem IsTrap.exists_mem_of_derives (htrap : g.IsTrap trap) (hg : g.WellFormed)
    (h : g.Derives u v) (hu : ∃ s ∈ u, s.IsFinal ∨ s ∈ trap) :
    ∃ s ∈ v, s.IsFinal ∨ s ∈ trap := by
  induction h with
  | refl => exact hu
  | tail _ hstep ih => exact htrap.exists_mem_of_produces hg hstep ih

/-- A member of a trap is not nullable. -/
theorem IsTrap.not_mem_nullable (htrap : g.IsTrap trap) (hg : g.WellFormed) (hN : N ∈ trap) :
    N ∉ g.nullable := by
  intro hnullable
  have hnil := hg.mem_nullable_iff.mp hnullable
  obtain ⟨s, hs, -⟩ := htrap.exists_mem_of_derives hg hnil ⟨N, List.mem_singleton_self N, .inr hN⟩
  exact absurd hs List.not_mem_nil

/-- The nonterminals that are not nullable are a trap themselves. -/
theorem WellFormed.isTrap_not_nullable (hg : g.WellFormed) :
    g.IsTrap (g.nonterminals.filter fun N => decide (N ∉ g.nullable)) where
  subset N hN := (SymbolSet.mem_filter.mp hN).1
  leadsBack N hN alt halt hfinal := by
    obtain ⟨-, hnot⟩ := SymbolSet.mem_filter.mp hN
    have hvanishes : vanishes g.nullable alt = false := Bool.eq_false_iff.mpr fun h =>
      of_decide_eq_true hnot (hg.mem_nullable_of_vanishes halt h)
    -- some symbol of the alternative does not vanish, and it is no final one
    obtain ⟨s, hs, hkept⟩ := List.all_eq_false.mp hvanishes
    simp only [Bool.or_eq_true, decide_eq_true_eq, not_or, Bool.not_eq_true] at hkept
    have hnonterminal := (Symbol.isFinal_or_isNonterminal hkept.1).resolve_left (hfinal s hs)
    refine ⟨s, hs, SymbolSet.mem_filter.mpr ⟨?_, decide_eq_true hkept.2⟩⟩
    exact hg.mem_nonterminals_of_mem halt s hs hnonterminal

end Traps

/-- The nullable symbols of a built grammar are its nonterminals that derive the empty sequence. The
other nonterminals are those in traps. -/
theorem Built.isNullable_iff (h : g.Built) :
    (∀ s, g.analyze.isNullable s = true ↔ s ∈ g.nonterminals ∧ g.Derives [s] []) ∧
      ∀ N ∈ g.nonterminals, g.analyze.isNullable N = false ↔
        ∃ trap, g.IsTrap trap ∧ N ∈ trap := by
  have hg := h.wellFormed
  have hmem : ∀ s, g.analyze.isNullable s = true ↔ s ∈ g.nullable := fun s =>
    decide_eq_true_iff
  refine ⟨fun s => ?_, fun N hN => ?_⟩
  · rw [hmem, ← hg.mem_nullable_iff]
    exact ⟨fun hs => ⟨hg.mem_nonterminals_of_mem_nullable hs, hs⟩, And.right⟩
  · rw [← Bool.not_eq_true, hmem]
    constructor
    · intro hnot
      exact ⟨_, hg.isTrap_not_nullable, SymbolSet.mem_filter.mpr ⟨hN, decide_eq_true hnot⟩⟩
    · rintro ⟨trap, htrap, hN⟩
      exact htrap.not_mem_nullable hg hN

/-- Two nonterminals that lead into each other unless they read something, beside a left recursion
that vanishes. -/
def trappedPair : Grammar :=
  (ofRules? [("S", [["A", "C", "$"]]), ("A", [["B"], ["a"]]), ("B", [["A", "A"], ["C", "B"]]),
    ("C", [["C", "D"], ["D"]]), ("D", [["lambda"]])]).get (by decide)

/-- A pair of nonterminals that need each other is not nullable. -/
theorem trappedPair_isNullable :
    trappedPair.Built ∧ trappedPair.analyze.isNullable "C" = true ∧
      trappedPair.analyze.isNullable "A" = false := by
  have hbuilt : trappedPair.Built := built_of_ofRules? (Option.some_get _).symm
  have hC : trappedPair.Derives ["C"] ["D"] :=
    Derives.singleton_of_alternative (by decide : ["D"] ∈ trappedPair.table.alternatives "C")
  have hD : trappedPair.Derives ["D"] [] :=
    Derives.singleton_of_alternative (by decide : ["lambda"] ∈ trappedPair.table.alternatives "D")
  have hsubset : ∀ N ∈ SymbolSet.ofList ["A", "B"], N ∈ trappedPair.nonterminals := by decide
  have htrap : trappedPair.IsTrap (.ofList ["A", "B"]) := by
    refine ⟨hsubset, ?_⟩
    unfold Symbol.IsFinal
    decide
  exact ⟨hbuilt, (hbuilt.isNullable_iff.1 "C").mpr ⟨by decide, hC.trans hD⟩,
    (hbuilt.isNullable_iff.2 "A" (by decide)).mpr ⟨_, htrap, by decide⟩⟩

end Grammar

end Lookahead
