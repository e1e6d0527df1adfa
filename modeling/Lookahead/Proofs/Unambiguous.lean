import Lookahead.Proofs.Conflicts
import Lookahead.Proofs.Prediction

/-!
# LL(1) grammars are unambiguous

A leftmost derivation is known by its choices, one place of the rule table after the other. In a
grammar without conflicts no two choice lists lead from the goal to the same text
(`places_eq_of_isLL1`). Where two of them part, both alternatives are selected by the next
symbol of the text, and there is a next symbol since the end marker is still to come.
-/

namespace Lookahead.Grammar

variable {g : Grammar} {u v text : List Symbol} {places places' : List Occurrence}

/-- Leftmost derivations, by the places of the alternatives that replace the leftmost nonterminal
each time. -/
inductive Leftmost (g : Grammar) : List Occurrence → List Symbol → List Symbol → Prop
  | nil (form : List Symbol) : Leftmost g [] form form
  | cons {place : Occurrence} {alt : Alternative} {before after form : List Symbol}
      {places : List Occurrence} (hbefore : ∀ s ∈ before, s ∉ g.nonterminals)
      (halt : (g.table.alternatives place.lhs)[place.position]? = some alt)
      (hrest : Leftmost g places (before ++ eraseLambda alt ++ after) form) :
      Leftmost g (place :: places) (before ++ place.lhs :: after) form

/-- A grammar is unambiguous if every string of terminals and end markers has at most one leftmost
derivation from the goal. -/
def IsUnambiguous (g : Grammar) : Prop :=
  ∀ text, (∀ s ∈ text, s.isLookahead = true) → ∀ places places',
    g.Leftmost places [g.goal] text → g.Leftmost places' [g.goal] text → places = places'

/-- What is derived by leftmost choices is derived. -/
theorem Leftmost.derives (h : g.Leftmost places u v) : g.Derives u v := by
  induction h with
  | nil form => exact Derives.refl form
  | cons _ halt _ ih => exact (Derives.of_alternative (List.mem_of_getElem? halt) _ _).trans ih

/-- A sequence has one leftmost nonterminal at most. -/
theorem leftmost_nonterminal_unique {before after before' after' : List Symbol} {M N : Symbol}
    (h : before ++ M :: after = before' ++ N :: after') (hM : M ∈ g.nonterminals)
    (hN : N ∈ g.nonterminals) (hbefore : ∀ s ∈ before, s ∉ g.nonterminals)
    (hbefore' : ∀ s ∈ before', s ∉ g.nonterminals) :
    before = before' ∧ M = N ∧ after = after' := by
  rcases cases_of_append_eq h with ⟨middle, rfl, -⟩ | ⟨middle, rfl, hrest⟩
  · exact absurd hN (hbefore N (by simp))
  · cases middle with
    | nil =>
      obtain ⟨rfl, rfl⟩ := List.cons.inj hrest
      exact ⟨(List.append_nil before).symm, rfl, rfl⟩
    | cons s middle =>
      obtain ⟨rfl, -⟩ := List.cons.inj hrest
      exact absurd hM (hbefore' M (by simp))

/-- The next symbol of the text selects both alternatives that lead on to the text. -/
theorem WellFormed.exists_mem_predictors (hg : g.WellFormed) {N : Symbol} {alt alt' : Alternative}
    {before after : List Symbol} (hform : g.Derives [g.goal] (before ++ N :: after))
    (hbefore : ∀ s ∈ before, s ∉ g.nonterminals) (htext : ∀ s ∈ text, s.isLookahead = true)
    (halt : alt ∈ g.table.alternatives N) (halt' : alt' ∈ g.table.alternatives N)
    (h : g.Derives (before ++ eraseLambda alt ++ after) text)
    (h' : g.Derives (before ++ eraseLambda alt' ++ after) text) :
    ∃ s, s ∈ g.analyze.predictors ⟨N, alt⟩ ∧ s ∈ g.analyze.predictors ⟨N, alt'⟩ := by
  rw [List.append_assoc] at h h'
  obtain ⟨rest, rfl, hrest⟩ := h.exists_of_append hg hbefore
  obtain ⟨rest', hsame, hrest'⟩ := h'.exists_of_append hg hbefore
  obtain rfl := List.append_cancel_left hsame
  cases rest with
  | nil =>
    -- nothing left to read, although the end marker is still to come
    have hvanishes := hg.vanishes_of_derives hrest rfl
    rw [hg.vanishes_rest_eq_false halt hform] at hvanishes
    exact absurd hvanishes Bool.false_ne_true
  | cons s rest =>
    have hs : s.isLookahead = true := htext s (by simp)
    exact ⟨s, hg.mem_predictors_of_derives halt hform hs hrest,
      hg.mem_predictors_of_derives halt' hform hs hrest'⟩

/-- Without conflicts, two positions of a nonterminal share no lookahead. -/
theorem position_eq_of_isLL1 (hll1 : g.analyze.isLL1 = true) {N s : Symbol}
    (hN : N ∈ g.nonterminals) {i j : Nat} {alt alt' : Alternative}
    (hi : (g.table.alternatives N)[i]? = some alt)
    (hj : (g.table.alternatives N)[j]? = some alt') (hs : s ∈ g.analyze.predictors ⟨N, alt⟩)
    (hs' : s ∈ g.analyze.predictors ⟨N, alt'⟩) : i = j := by
  have hnone := Analysis.isLL1_iff.mp hll1
  rcases Nat.lt_trichotomy i j with hlt | heq | hgt
  · exact absurd ⟨N, i, j, s, Analysis.listsConflict_iff.mpr
      ⟨hN, hlt, alt, alt', hi, hj, hs, hs'⟩⟩ hnone
  · exact heq
  · exact absurd ⟨N, j, i, s, Analysis.listsConflict_iff.mpr
      ⟨hN, hgt, alt', alt, hj, hi, hs', hs⟩⟩ hnone

/-- Two leftmost derivations of a text that go on from what the goal derives make the same
choices. -/
theorem WellFormed.places_eq_of_isLL1 (hg : g.WellFormed) (hll1 : g.analyze.isLL1 = true)
    (htext : ∀ s ∈ text, s.isLookahead = true) (hform : g.Derives [g.goal] u)
    (h : g.Leftmost places u text) (h' : g.Leftmost places' u text) : places = places' := by
  -- a derivation cannot go on from the text, so both end at the same time
  have hdone : ∀ {before after N}, N ∈ g.nonterminals → text ≠ before ++ N :: after := by
    rintro before after N hN rfl
    exact hg.not_mem_nonterminals_of_isFinal (.inl (htext N (by simp))) hN
  induction h generalizing places' with
  | nil form =>
    generalize hend : form = last at h'
    cases h' with
    | nil => rfl
    | cons _ halt _ => exact absurd hend (hdone (hg.lhs_mem (List.mem_of_getElem? halt)))
  | @cons place alt before after form places hbefore halt hrest ih =>
    have halternative := List.mem_of_getElem? halt
    generalize hstart : before ++ place.lhs :: after = start at h'
    cases h' with
    | nil => exact absurd hstart.symm (hdone (hg.lhs_mem halternative))
    | @cons place' alt' before' after' _ places' hbefore' halt' hrest' =>
      have halternative' := List.mem_of_getElem? halt'
      -- both derivations replace the same nonterminal
      obtain ⟨rfl, hlhs, rfl⟩ := leftmost_nonterminal_unique hstart (hg.lhs_mem halternative)
        (hg.lhs_mem halternative') hbefore hbefore'
      rw [← hlhs] at halt' halternative'
      obtain ⟨s, hs, hs'⟩ := hg.exists_mem_predictors hform hbefore htext halternative
        halternative' hrest.derives hrest'.derives
      -- a shared lookahead would be a conflict if the positions differed
      have hposition :=
        position_eq_of_isLL1 hll1 (hg.lhs_mem halternative) halt halt' hs hs'
      have hplace : Occurrence.mk place.lhs place.position = ⟨place'.lhs, place'.position⟩ := by
        rw [hlhs, hposition]
      obtain rfl : place = place' := hplace
      obtain rfl : alt = alt' := Option.some.inj (halt.symm.trans halt')
      have hform' := hform.trans (Derives.of_alternative halternative before after)
      rw [ih htext hform' hrest' hdone]

/-- A grammar without conflicts is unambiguous, whether or not all its nonterminals are of use. -/
theorem Built.isUnambiguous_of_isLL1 (h : g.Built) (hll1 : g.analyze.isLL1 = true) :
    g.IsUnambiguous := by
  intro text htext places places' hplaces hplaces'
  exact h.wellFormed.places_eq_of_isLL1 hll1 htext (Derives.refl [g.goal]) hplaces hplaces'

/-- A list of terminals before the end of the input. -/
def lambdaList : Grammar :=
  (ofRules? [("S", [["A", "$"]]), ("A", [["a", "A"], ["lambda"]])]).get (by decide)

/-- A list that ends in `lambda` is derived in one way only. -/
theorem lambdaList_isUnambiguous :
    lambdaList.Built ∧ lambdaList.analyze.isLL1 = true ∧
      lambdaList.Leftmost [⟨"S", 0⟩, ⟨"A", 0⟩, ⟨"A", 1⟩] ["S"] ["a", "$"] ∧
      lambdaList.IsUnambiguous := by
  have hbuilt : lambdaList.Built := built_of_ofRules? (Option.some_get _).symm
  have hll1 : lambdaList.analyze.isLL1 = true := by decide +kernel
  have hend : lambdaList.Leftmost [⟨"A", 1⟩] ["a", "A", "$"] ["a", "$"] :=
    @Leftmost.cons _ ⟨"A", 1⟩ ["lambda"] ["a"] ["$"] _ _ (by decide) (by decide) (.nil _)
  have hitem : lambdaList.Leftmost [⟨"A", 0⟩, ⟨"A", 1⟩] ["A", "$"] ["a", "$"] :=
    @Leftmost.cons _ ⟨"A", 0⟩ ["a", "A"] [] ["$"] _ _ (by decide) (by decide) hend
  have hstart : lambdaList.Leftmost [⟨"S", 0⟩, ⟨"A", 0⟩, ⟨"A", 1⟩] ["S"] ["a", "$"] :=
    @Leftmost.cons _ ⟨"S", 0⟩ ["A", "$"] [] [] _ _ (by decide) (by decide) hitem
  exact ⟨hbuilt, hll1, hstart, hbuilt.isUnambiguous_of_isLL1 hll1⟩

end Lookahead.Grammar
