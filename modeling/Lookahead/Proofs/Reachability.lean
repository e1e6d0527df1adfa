import Lookahead.Proofs.Growth

/-!
# Rules that the goal does not lead to

The FOLLOW sets take in all rules of a grammar, also those of nonterminals that no derivation from
the goal leads to. What such rules put behind a nonterminal is in its FOLLOW set
(`mem_nextLookaheads_iff_isReachable`), and it can bring alternatives into conflict that are in none
without them (`strayRule_followSet`). Trimmed to its reachable nonterminals, a grammar has the same
derivations from the goal (`IsTrimmedTo.derives_goal_iff`), so its FOLLOW sets hold exactly what
follows in these. The two grammars therefore differ by what follows elsewhere alone
(`Built.followSet_iff_isReachable`).
-/

namespace Lookahead.Grammar

variable {g g' : Grammar} {N a : Symbol} {alt : Alternative} {u v : List Symbol}

/-! ## What is reachable -/

/-- The goal is reachable. -/
theorem isReachable_goal (g : Grammar) : g.IsReachable g.goal := ⟨[], [], Derives.refl _⟩

/-- Whatever stands in a sequence that the goal derives is reachable. -/
theorem isReachable_of_mem {s : Symbol} (h : g.Derives [g.goal] u) (hs : s ∈ u) :
    g.IsReachable s := by
  obtain ⟨before, after, rfl⟩ := List.append_of_mem hs
  exact ⟨before, after, h⟩

/-- The symbols of an alternative are reachable with its nonterminal. -/
theorem IsReachable.of_alternative {lhs : Symbol} (h : g.IsReachable lhs)
    (halt : alt ∈ g.table.alternatives lhs) : ∀ s ∈ eraseLambda alt, g.IsReachable s := by
  obtain ⟨before, after, hform⟩ := h
  intro s hs
  exact isReachable_of_mem (hform.trans (.of_alternative halt before after)) (by simp [hs])

/-- Reachable symbols derive reachable symbols only. -/
theorem IsReachable.of_derives (hu : ∀ s ∈ u, g.IsReachable s) (h : g.Derives u v) :
    ∀ s ∈ v, g.IsReachable s :=
  h.forall_mem (fun hlhs halt => hlhs.of_alternative halt) hu

/-- Whether a lookahead stands right after a nonterminal in something that an unreachable
nonterminal derives. -/
def IsFollowedElsewhere (g : Grammar) (N a : Symbol) : Prop :=
  (a ∈ g.terminals ∨ a = Symbol.endMarker) ∧ ∃ L ∈ g.nonterminals, ¬g.IsReachable L ∧
    ∃ before after, g.Derives [L] (before ++ N :: a :: after)

/-- FOLLOW holds what follows in derivations from the goal and what follows elsewhere. -/
theorem WellFormed.mem_nextLookaheads_iff_isReachable (hg : g.WellFormed) (hN : N ∈ g.nonterminals)
    (hother : ¬(N = g.goal ∧ a = Symbol.endMarker)) :
    a ∈ g.nextLookaheads N ↔
      ((a ∈ g.terminals ∨ a = Symbol.endMarker) ∧
          ∃ before after, g.Derives [g.goal] (before ++ N :: a :: after)) ∨
        g.IsFollowedElsewhere N a := by
  rw [hg.mem_nextLookaheads_iff hN]
  constructor
  · rintro ⟨hmember, hfollowed⟩
    obtain ⟨L, hL, hderives⟩ := hfollowed.resolve_right hother
    by_cases hreach : g.IsReachable L
    · exact .inl ⟨hmember, hreach.exists_derives_goal hderives⟩
    · exact .inr ⟨hmember, L, hL, hreach, hderives⟩
  · rintro (⟨hmember, hderives⟩ | ⟨hmember, L, hL, -, hderives⟩)
    · exact ⟨hmember, .inl ⟨g.goal, hg.goal_mem, hderives⟩⟩
    · exact ⟨hmember, .inl ⟨L, hL, hderives⟩⟩

/-! ## Grammars without unreachable rules -/

section Selection

variable {p : Symbol → Prop} [DecidablePred p]

/-- The alternatives of a nonterminal, if it is one of those selected. -/
def selectedAlternatives (g : Grammar) (p : Symbol → Prop) [DecidablePred p] (N : Symbol) :
    List Alternative :=
  if p N then g.table.alternatives N else []

/-- The selected alternatives are those of the selected nonterminals. -/
theorem mem_selectedAlternatives :
    alt ∈ g.selectedAlternatives p N ↔ p N ∧ alt ∈ g.table.alternatives N := by
  unfold selectedAlternatives
  split <;> simp_all

/-- The rules of the selected nonterminals, as they are given to a builder. -/
def selectedRules (g : Grammar) (p : Symbol → Prop) [DecidablePred p] :
    List (Symbol × List Alternative) :=
  (g.displayOrder.filter fun N => p N).map fun N => (N, g.selectedAlternatives p N)

/-- The rules of some of the nonterminals of a grammar are all accepted. -/
theorem Built.accepts_selectedRules (hg : g.Built) : Builder.Accepts (g.selectedRules p) := by
  obtain ⟨b, hcoherent, hchecked, hbuild⟩ := hg.exists_builder
  obtain ⟨-, -, -, htable, -⟩ := Builder.build_eq_ok hbuild
  refine Builder.accepts_iff.mpr ⟨?_, g.table, htable ▸ hchecked.isWellFormed hcoherent, ?_⟩
  · intro call hcall
    obtain ⟨N, hN, rfl⟩ := List.mem_map.mp hcall
    obtain ⟨hdisplayed, hselected⟩ := List.mem_filter.mp hN
    have hrules := hg.alternatives_ne_nil (hg.wellFormed.mem_displayOrder.mp hdisplayed)
    simpa [selectedAlternatives, of_decide_eq_true hselected] using hrules
  · intro call hcall alt halt
    obtain ⟨N, -, rfl⟩ := List.mem_map.mp hcall
    exact (mem_selectedAlternatives.mp halt).2

/-- After the selected rules, the selected nonterminals have the alternatives that they had. -/
theorem Built.alternatives_selectedRules (hg : g.Built) (N : Symbol) :
    (Builder.afterOffers (g.selectedRules p)).table.alternatives N =
      g.selectedAlternatives p N := by
  rw [Builder.alternatives_afterOffers hg.accepts_selectedRules]
  refine Builder.flatMap_filter_listing (g.nodup_displayOrder.filter _) fun hN => ?_
  -- what is not in the list has no rules or is not selected
  refine List.eq_nil_iff_forall_not_mem.mpr fun alt halt => hN ?_
  obtain ⟨hselected, halt⟩ := mem_selectedAlternatives.mp halt
  have hdisplayed := hg.wellFormed.mem_displayOrder.mpr (hg.wellFormed.lhs_mem halt)
  exact List.mem_filter.mpr ⟨hdisplayed, decide_eq_true hselected⟩

/-- After the selected rules the goal is the same, if it is selected. -/
theorem Built.goal_selectedRules (hg : g.Built) (hgoal : p g.goal) :
    (Builder.afterOffers (g.selectedRules p)).goal = some g.goal := by
  refine ((Builder.checked_afterOffers _).goal_eq_some_iff
    (Builder.coherent_afterOffers _)).mpr ?_
  rw [hg.alternatives_selectedRules, selectedAlternatives, if_pos hgoal]
  exact ⟨hg.alternatives_ne_nil hg.wellFormed.goal_mem, hg.wellFormed.goal_endsInput⟩

/-- The rules of the selected nonterminals make a grammar if the goal is one of these and their
rules mention no others. -/
theorem Built.exists_build_selectedRules (hg : g.Built) (hgoal : p g.goal)
    (hclosed : ∀ {lhs alt}, p lhs → alt ∈ g.table.alternatives lhs → ∀ s ∈ eraseLambda alt, p s) :
    ∃ g' : Grammar, g'.Built ∧ g'.goal = g.goal ∧
      ∀ N, g'.table.alternatives N = g.selectedAlternatives p N := by
  -- a selected rule uses selected nonterminals only, and these have their rules
  have hrules : ∀ {lhs : Symbol} {alt : Alternative},
      alt ∈ (Builder.afterOffers (g.selectedRules p)).table.alternatives lhs → ∀ N ∈ alt,
        N.isNonterminal = true →
          (Builder.afterOffers (g.selectedRules p)).table.contains N = true := by
    intro lhs alt halt N hN hnonterminal
    rw [hg.alternatives_selectedRules] at halt
    obtain ⟨hlhs, halt⟩ := mem_selectedAlternatives.mp halt
    have hselected := hclosed hlhs halt N
      (mem_eraseLambda.mpr ⟨hN, Symbol.isLambda_eq_false_of_isNonterminal hnonterminal⟩)
    have hmem := hg.wellFormed.mem_nonterminals_of_mem halt N hN hnonterminal
    obtain ⟨alt', halt'⟩ := List.exists_mem_of_ne_nil _ (hg.alternatives_ne_nil hmem)
    refine (Builder.checked_afterOffers _).contains_iff.mpr ⟨alt', ?_⟩
    rw [hg.alternatives_selectedRules]
    exact mem_selectedAlternatives.mpr ⟨hselected, halt'⟩
  obtain ⟨g', hg'⟩ := Builder.exists_build_iff.mpr ⟨⟨_, hg.goal_selectedRules hgoal⟩, hrules⟩
  obtain ⟨hgoal', -, -, htable, -⟩ := Builder.build_eq_ok hg'
  refine ⟨g', ⟨_, hg'⟩, ?_, htable ▸ hg.alternatives_selectedRules⟩
  exact Option.some.inj (hgoal'.symm.trans (hg.goal_selectedRules hgoal))

end Selection

/-- Whether a grammar has the goal of another one and of its rules those of reachable
nonterminals. -/
structure IsTrimmedTo (g g' : Grammar) : Prop where
  goal_eq : g'.goal = g.goal
  alternatives_eq : ∀ N, g.IsReachable N → g'.table.alternatives N = g.table.alternatives N
  alternatives_eq_nil : ∀ N, ¬g.IsReachable N → g'.table.alternatives N = []

/-- Every built grammar can be trimmed. -/
theorem Built.exists_isTrimmedTo (hg : g.Built) : ∃ g', g'.Built ∧ g.IsTrimmedTo g' := by
  classical
  obtain ⟨g', hg', hgoal, halternatives⟩ := hg.exists_build_selectedRules
    (p := g.IsReachable) g.isReachable_goal fun hlhs halt => hlhs.of_alternative halt
  refine ⟨g', hg', hgoal, fun N hN => ?_, fun N hN => ?_⟩
  · rw [halternatives, selectedAlternatives, if_pos hN]
  · rw [halternatives, selectedAlternatives, if_neg hN]

namespace IsTrimmedTo

/-- A trimmed grammar is a part of the grammar it comes from. -/
theorem isPartOf (h : g.IsTrimmedTo g') : g'.IsPartOf g where
  goal_eq := h.goal_eq.symm
  mem_alternatives {lhs alt} halt := by
    by_cases hlhs : g.IsReachable lhs
    · exact h.alternatives_eq lhs hlhs ▸ halt
    · simp [h.alternatives_eq_nil lhs hlhs] at halt

/-- Derivations from reachable symbols use the rules of reachable nonterminals only. -/
theorem derives (h : g.IsTrimmedTo g') (hu : ∀ s ∈ u, g.IsReachable s) (hderives : g.Derives u v) :
    g'.Derives u v := by
  induction hderives with
  | refl => exact Derives.refl u
  | tail hbefore hstep ih =>
    obtain @⟨lhs, alt, before, after, halt⟩ := hstep
    have hlhs := IsReachable.of_derives hu hbefore lhs (by simp)
    exact ih.tail (.step before after (h.alternatives_eq lhs hlhs ▸ halt))

/-- The goal derives the same in the trimmed grammar. -/
theorem derives_goal_iff (h : g.IsTrimmedTo g') :
    g'.Derives [g'.goal] u ↔ g.Derives [g.goal] u := by
  rw [h.goal_eq]
  refine ⟨h.isPartOf.derives, h.derives ?_⟩
  exact List.forall_mem_singleton.mpr g.isReachable_goal

/-- Everything is reachable in a trimmed grammar. -/
theorem isReachable (h : g.IsTrimmedTo g') (hg' : g'.Built) : ∀ M ∈ g'.nonterminals,
    g'.IsReachable M := by
  intro M hM
  by_cases hreach : g.IsReachable M
  · obtain ⟨before, after, hform⟩ := hreach
    exact ⟨before, after, h.derives_goal_iff.mpr hform⟩
  · exact absurd (h.alternatives_eq_nil M hreach) (hg'.alternatives_ne_nil hM)

/-- Trimming keeps the reachable nonterminals. -/
theorem mem_nonterminals (h : g.IsTrimmedTo g') (hg : g.Built) (hg' : g'.WellFormed)
    (hN : N ∈ g.nonterminals) (hreach : g.IsReachable N) : N ∈ g'.nonterminals := by
  obtain ⟨alt, halt⟩ := List.exists_mem_of_ne_nil _ (hg.alternatives_ne_nil hN)
  exact hg'.lhs_mem (h.alternatives_eq N hreach ▸ halt)

/-- The terminals in what the goal derives stay. -/
theorem mem_terminals (h : g.IsTrimmedTo g') (hg : g.WellFormed) (hg' : g'.WellFormed)
    (hform : g.Derives [g.goal] u) (hu : a ∈ u) (ha : a ∈ g.terminals) : a ∈ g'.terminals := by
  have hknows : ∀ s ∈ [g'.goal], g'.Knows s :=
    List.forall_mem_singleton.mpr (.inr (.inl hg'.goal_mem))
  have hlambda := Symbol.isLambda_eq_false_of_isNonterminal
    (hg'.isNonterminal_of_mem _ hg'.goal_mem)
  refine hg'.mem_terminals_of_derives hknows ?_ a hu ((hg.mem_terminals a).mp ha).1
  rw [eraseLambda_cons_of_not_isLambda hlambda]
  exact h.derives_goal_iff.mpr hform

/-- FOLLOW in a trimmed grammar holds what follows in derivations from the goal. -/
theorem mem_nextLookaheads_iff (h : g.IsTrimmedTo g') (hg : g.Built) (hg' : g'.Built)
    (hN : N ∈ g.nonterminals) (hreach : g.IsReachable N)
    (hother : ¬(N = g.goal ∧ a = Symbol.endMarker)) :
    a ∈ g'.nextLookaheads N ↔
      (a ∈ g.terminals ∨ a = Symbol.endMarker) ∧
        ∃ before after, g.Derives [g.goal] (before ++ N :: a :: after) := by
  have hN' := h.mem_nonterminals hg hg'.wellFormed hN hreach
  have hnowhere : ¬g'.IsFollowedElsewhere N a :=
    fun ⟨_, L, hL, hunreachable, _⟩ => hunreachable (h.isReachable hg' L hL)
  rw [hg'.wellFormed.mem_nextLookaheads_iff_isReachable hN' (by rwa [h.goal_eq]),
    or_iff_left hnowhere]
  simp only [h.derives_goal_iff]
  refine and_congr_left fun ⟨before, after, hform⟩ => or_congr_left' fun _ => ⟨?_, ?_⟩
  · exact h.isPartOf.terminals_subset hg'.wellFormed hg.wellFormed a
  · exact h.mem_terminals hg.wellFormed hg'.wellFormed hform (by simp)

/-- Trimming takes from FOLLOW of a reachable nonterminal what follows elsewhere only. -/
theorem mem_nextLookaheads_or (h : g.IsTrimmedTo g') (hg : g.Built) (hg' : g'.Built)
    (hN : N ∈ g.nonterminals) (hreach : g.IsReachable N) :
    a ∈ g.nextLookaheads N ↔ a ∈ g'.nextLookaheads N ∨ g.IsFollowedElsewhere N a := by
  by_cases hgoal : N = g.goal ∧ a = Symbol.endMarker
  · obtain ⟨rfl, rfl⟩ := hgoal
    refine iff_of_true hg.wellFormed.endMarker_mem_nextLookaheads (.inl ?_)
    exact h.goal_eq ▸ hg'.wellFormed.endMarker_mem_nextLookaheads
  · rw [hg.wellFormed.mem_nextLookaheads_iff_isReachable hN hgoal,
      h.mem_nextLookaheads_iff hg hg' hN hreach hgoal]

/-- Trimming takes from PREDICT of a reachable rule what follows its nonterminal elsewhere only. -/
theorem mem_predictors_or (h : g.IsTrimmedTo g') (hg : g.Built) (hg' : g'.Built)
    (hreach : g.IsReachable N) (halt : alt ∈ g.table.alternatives N)
    (ha : a ∈ g.analyze.predictors ⟨N, alt⟩) :
    a ∈ g'.analyze.predictors ⟨N, alt⟩ ∨ g.IsFollowedElsewhere N a := by
  have hsymbols := hreach.of_alternative halt
  rcases mem_predictors_iff.mp ha with ha | ⟨hvanishes, ha⟩
  · obtain ⟨hlookahead, rest, hrest⟩ := hg.wellFormed.mem_firstLookaheads_iff.mp ha
    refine .inl (mem_predictors_iff.mpr (.inl ?_))
    exact hg'.wellFormed.mem_firstLookaheads_iff.mpr ⟨hlookahead, rest, h.derives hsymbols hrest⟩
  · have hnil := h.derives hsymbols (hg.wellFormed.vanishes_nullable_iff.mp hvanishes)
    have hvanishes' := hg'.wellFormed.vanishes_nullable_iff.mpr hnil
    refine ((h.mem_nextLookaheads_or hg hg' (hg.wellFormed.lhs_mem halt) hreach).mp ha).imp_left ?_
    exact fun ha => mem_predictors_iff.mpr (.inr ⟨hvanishes', ha⟩)

/-- A nonterminal of the trimmed grammar has the alternatives that it had, one that is dropped has
none. -/
theorem alternatives_isPrefix (h : g.IsTrimmedTo g') (N : Symbol) :
    g'.table.alternatives N <+: g.table.alternatives N := by
  by_cases hreach : g.IsReachable N
  · exact h.alternatives_eq N hreach ▸ List.prefix_rfl
  · exact h.alternatives_eq_nil N hreach ▸ List.nil_prefix

/-- A conflict of a trimmed grammar is one of the whole. -/
theorem listsConflict (h : g.IsTrimmedTo g') (hg : g.Built) (hg' : g'.Built) {i j : Nat}
    (hlisted : g'.analyze.ListsConflict N i j a) : g.analyze.ListsConflict N i j a := by
  obtain ⟨c, hc, rfl, rfl, rfl, ha⟩ := hlisted
  obtain ⟨lookahead, hsubset, hc'⟩ :=
    h.isPartOf.exists_conflict hg' hg.wellFormed h.alternatives_isPrefix hc
  exact ⟨_, hc', rfl, rfl, rfl, hsubset a ha⟩

/-- A conflict between reachable rules is left by trimming, or its lookahead follows elsewhere. -/
theorem listsConflict_or (h : g.IsTrimmedTo g') (hg : g.Built) (hg' : g'.Built)
    (hreach : g.IsReachable N) {i j : Nat} (hlisted : g.analyze.ListsConflict N i j a) :
    g'.analyze.ListsConflict N i j a ∨ g.IsFollowedElsewhere N a := by
  obtain ⟨hN, hij, alt, alt', hi, hj, ha, ha'⟩ := Analysis.listsConflict_iff.mp hlisted
  have hN' := h.mem_nonterminals hg hg'.wellFormed hN hreach
  rcases h.mem_predictors_or hg hg' hreach (List.mem_of_getElem? hi) ha with ha | helsewhere
  · rcases h.mem_predictors_or hg hg' hreach (List.mem_of_getElem? hj) ha' with ha' | helsewhere
    · have hsame : g'.table.alternatives N = g.table.alternatives N := h.alternatives_eq N hreach
      change (g.table.alternatives N)[i]? = some alt at hi
      change (g.table.alternatives N)[j]? = some alt' at hj
      rw [← hsame] at hi hj
      exact .inl (Analysis.listsConflict_iff.mpr ⟨hN', hij, alt, alt', hi, hj, ha, ha'⟩)
    · exact .inr helsewhere
  · exact .inr helsewhere

end IsTrimmedTo

/-- FOLLOW of a nonterminal holds, the end of the input behind the goal apart, what stands right
after it in derivations from the goal and what does so only in derivations from unreachable
nonterminals. Without the rules of these a grammar can still be built. There a reachable nonterminal
loses the lookaheads of the second kind only, and of its conflicts those on such lookaheads only. -/
theorem Built.followSet_iff_isReachable (hg : g.Built) :
    (∃ trimmed, trimmed.Built ∧ g.IsTrimmedTo trimmed) ∧
      ∀ N ∈ g.nonterminals, ∃ set, g.analyze.followSet N = .ok set ∧
        (∀ a, ¬(N = g.goal ∧ a = Symbol.endMarker) →
          (a ∈ set ↔
            ((a ∈ g.terminals ∨ a = Symbol.endMarker) ∧
                ∃ before after, g.Derives [g.goal] (before ++ N :: a :: after)) ∨
              g.IsFollowedElsewhere N a)) ∧
        ∀ trimmed, trimmed.Built → g.IsTrimmedTo trimmed → g.IsReachable N →
          (∃ set', trimmed.analyze.followSet N = .ok set' ∧
            ∀ a, a ∈ set ↔ a ∈ set' ∨ g.IsFollowedElsewhere N a) ∧
          ∀ i j a,
            (trimmed.analyze.ListsConflict N i j a → g.analyze.ListsConflict N i j a) ∧
            (g.analyze.ListsConflict N i j a →
              trimmed.analyze.ListsConflict N i j a ∨ g.IsFollowedElsewhere N a) := by
  refine ⟨hg.exists_isTrimmedTo, fun N hN => ⟨g.nextLookaheads N, Analysis.followSet_eq_ok hN,
    fun a hother => hg.wellFormed.mem_nextLookaheads_iff_isReachable hN hother, ?_⟩⟩
  intro trimmed htrimmed h hreach
  have hN' := h.mem_nonterminals hg htrimmed.wellFormed hN hreach
  refine ⟨⟨trimmed.nextLookaheads N, Analysis.followSet_eq_ok hN', fun a => ?_⟩, fun i j a => ?_⟩
  · exact h.mem_nextLookaheads_or hg htrimmed hN hreach
  · exact ⟨h.listsConflict hg htrimmed, h.listsConflict_or hg htrimmed hreach⟩

/-- A nonterminal that can vanish, and a rule that nothing leads to which puts a terminal behind
it. -/
def strayRule : Grammar :=
  (ofRules? [("S", [["A", "$"]]), ("A", [["b"], ["lambda"]]), ("U", [["A", "b"]])]).get (by decide)

/-- The same without the stray rule. -/
def withoutStrayRule : Grammar :=
  (ofRules? [("S", [["A", "$"]]), ("A", [["b"], ["lambda"]])]).get (by decide)

theorem strayRule_built : strayRule.Built := built_of_ofRules? (Option.some_get _).symm

theorem withoutStrayRule_built : withoutStrayRule.Built :=
  built_of_ofRules? (Option.some_get _).symm

/-- All nonterminals but that of the stray rule are reachable. -/
theorem strayRule_isReachable : ∀ N ∈ withoutStrayRule.nonterminals, strayRule.IsReachable N := by
  have hform : strayRule.Derives ["S"] ["A", "$"] :=
    Derives.singleton_of_alternative (by decide : ["A", "$"] ∈ strayRule.table.alternatives "S")
  have hnames : ∀ N ∈ withoutStrayRule.nonterminals, N = "A" ∨ N = "S" := by decide
  intro N hN
  rcases hnames N hN with rfl | rfl
  · exact ⟨[], ["$"], hform⟩
  · exact strayRule.isReachable_goal

/-- Without its stray rule the grammar is trimmed. -/
theorem strayRule_isTrimmedTo : strayRule.IsTrimmedTo withoutStrayRule where
  goal_eq := by decide
  alternatives_eq N hN := by
    -- no rule leads from these symbols to others
    have hclosed : ∀ lhs ∈ ["S", "A", "$", "b"], ∀ alt ∈ strayRule.table.alternatives lhs,
        ∀ s ∈ eraseLambda alt, s ∈ ["S", "A", "$", "b"] := by decide
    have hsame : ∀ M ∈ ["S", "A", "$", "b"],
        withoutStrayRule.table.alternatives M = strayRule.table.alternatives M := by decide
    obtain ⟨before, after, hform⟩ := hN
    refine hsame N (hform.forall_mem (fun hlhs halt => hclosed _ hlhs _ halt) ?_ N (by simp))
    exact List.forall_mem_singleton.mpr (by decide)
  alternatives_eq_nil N hN := by
    refine List.eq_nil_iff_forall_not_mem.mpr fun alt halt => hN ?_
    exact strayRule_isReachable N (withoutStrayRule_built.wellFormed.lhs_mem halt)

/-- The stray rule brings the alternatives of a reachable nonterminal into conflict, on a terminal
that never follows it in a derivation from the goal. -/
theorem strayRule_followSet :
    strayRule.Built ∧ strayRule.IsReachable "A" ∧
      (∃ set, strayRule.analyze.followSet "A" = .ok set ∧ "b" ∈ set) ∧
      (¬∃ before after, strayRule.Derives ["S"] (before ++ "A" :: "b" :: after)) ∧
      strayRule.IsFollowedElsewhere "A" "b" ∧
      strayRule.analyze.ListsConflict "A" 0 1 "b" ∧ withoutStrayRule.analyze.isLL1 = true := by
  have hN : "A" ∈ strayRule.nonterminals := by decide
  have hreach : strayRule.IsReachable "A" := strayRule_isReachable "A" (by decide)
  have hother : ¬("A" = strayRule.goal ∧ "b" = Symbol.endMarker) := by decide
  have hlisted : strayRule.analyze.ListsConflict "A" 0 1 "b" := by
    unfold Analysis.ListsConflict
    decide +kernel
  have hset : strayRule.analyze.followSet "A" = .ok (SymbolSet.ofList ["$", "b"]) := by
    decide +kernel
  have hset' : withoutStrayRule.analyze.followSet "A" = .ok (SymbolSet.ofList ["$"]) := by
    decide +kernel
  obtain ⟨-, hfollow⟩ := strayRule_built.followSet_iff_isReachable
  obtain ⟨set, hanswer, -, htrimmed⟩ := hfollow "A" hN
  obtain ⟨⟨set', hanswer', hdiffer⟩, -⟩ :=
    htrimmed withoutStrayRule withoutStrayRule_built strayRule_isTrimmedTo hreach
  obtain rfl := Except.ok.inj (hset.symm.trans hanswer)
  obtain rfl := Except.ok.inj (hset'.symm.trans hanswer')
  have helsewhere := ((hdiffer "b").mp (by decide)).resolve_left (by decide)
  refine ⟨strayRule_built, hreach, ⟨_, hset, by decide⟩, fun hform => ?_, helsewhere, hlisted,
    by decide +kernel⟩
  have hmem : "b" ∈ withoutStrayRule.analyze.follow.setOf "A" :=
    (strayRule_isTrimmedTo.mem_nextLookaheads_iff strayRule_built withoutStrayRule_built
      hN hreach hother).mpr ⟨helsewhere.1, hform⟩
  rw [(Analysis.followSet_eq_ok_iff.mp hset').2] at hmem
  exact absurd hmem (by decide)

end Lookahead.Grammar
