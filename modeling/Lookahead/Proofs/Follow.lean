import Lookahead.Proofs.First

/-!
# FOLLOW sets hold exactly what can stand right after a nonterminal

`Grammar.nextLookaheads` is the finished FOLLOW set of a nonterminal. A lookahead is in it exactly
if some nonterminal derives a sequence in which it stands right after, or if it is the end marker
behind a complete goal (`mem_nextLookaheads_iff`). The occurrence may come from any depth of the
derivation, and what stood between may have vanished. Completeness therefore rests on an invariant
of whole sequences, `Grammar.FollowsCovered`, which every step of a derivation keeps.
-/

namespace Lookahead

/-- What follows an occurrence begins the tail behind it or, if that vanishes, follows the left-hand
side. -/
theorem mem_lookaheadsAt {nullable : SymbolSet} {first follow : SetTable} {lhs a : Symbol}
    {tail : List Symbol} :
    a ∈ lookaheadsAt nullable first follow lhs tail ↔
      a ∈ firstOf nullable first tail ∨
        vanishes nullable tail = true ∧ a ∈ follow.setOf lhs := by
  unfold lookaheadsAt
  rw [SymbolSet.mem_union]
  split <;> simp_all

/-- The tails are what stands behind each occurrence. -/
theorem mem_tailsAfter {target : Symbol} {symbols tail : List Symbol} :
    tail ∈ tailsAfter target symbols ↔ ∃ before, symbols = before ++ target :: tail := by
  induction symbols with
  | nil => simp [tailsAfter]
  | cons s rest ih =>
    have hbehind : (∃ before, s :: rest = before ++ target :: tail) ↔
        s = target ∧ rest = tail ∨ ∃ before, rest = before ++ target :: tail := by
      constructor
      · rintro ⟨_ | ⟨t, before⟩, h⟩
        · exact .inl (List.cons.inj h)
        · exact .inr ⟨before, (List.cons.inj h).2⟩
      · rintro (⟨rfl, rfl⟩ | ⟨before, rfl⟩)
        · exact ⟨[], rfl⟩
        · exact ⟨s :: before, rfl⟩
    rw [hbehind, ← ih, tailsAfter]
    split <;> simp_all [eq_comm]

namespace Grammar

variable {g : Grammar} {N a : Symbol} {u v : List Symbol}

/-- FOLLOW of a nonterminal, from the finished tables. -/
def nextLookaheads (g : Grammar) (N : Symbol) : SymbolSet :=
  (g.followSets g.nullable (g.firstSets g.nullable) (g.within_firstSets g.nullable)).setOf N

/-- Followers come from the rest of an alternative behind the nonterminal or, where that vanishes,
from the followers of the rule's left-hand side. -/
theorem WellFormed.mem_followersOf (hg : g.WellFormed) {nullable : SymbolSet}
    {first follow : SetTable} :
    a ∈ g.followersOf nullable first follow N ↔
      ∃ lhs, ∃ alt ∈ g.table.alternatives lhs, ∃ before tail, alt = before ++ N :: tail ∧
        a ∈ lookaheadsAt nullable first follow lhs tail := by
  unfold followersOf
  simp only [SymbolSet.mem_unionAll, List.mem_flatMap, List.mem_map, hg.mem_rulesContaining,
    mem_tailsAfter]
  constructor
  · rintro ⟨-, ⟨rule, ⟨halt, -⟩, tail, ⟨before, hsplit⟩, rfl⟩, ha⟩
    exact ⟨rule.lhs, rule.rhs, halt, before, tail, hsplit, ha⟩
  · rintro ⟨lhs, alt, halt, before, tail, hsplit, ha⟩
    exact ⟨_, ⟨⟨lhs, alt⟩, ⟨halt, by simp [hsplit]⟩, tail, ⟨before, hsplit⟩, rfl⟩, ha⟩

/-! ## Each follower stands somewhere -/

/-- A symbol stands right after a nonterminal in something that a nonterminal derives, or it is the
end of the input behind the goal. -/
def IsFollowedBy (g : Grammar) (N a : Symbol) : Prop :=
  (∃ L ∈ g.nonterminals, ∃ before after, g.Derives [L] (before ++ N :: a :: after)) ∨
    N = g.goal ∧ a = Symbol.endMarker

/-- The end marker does not vanish. -/
theorem WellFormed.vanishes_eq_false_of_endMarker_mem (hg : g.WellFormed)
    (h : Symbol.endMarker ∈ u) : vanishes g.nullable u = false := by
  unfold vanishes
  rw [List.all_eq_false]
  refine ⟨Symbol.endMarker, h, ?_⟩
  have hnullable : Symbol.endMarker ∉ g.nullable := fun hmem =>
    absurd (hg.isLookahead_of_mem_nullable _ hmem) (by decide)
  have hlambda : Symbol.endMarker.isLambda = false := by decide
  simp [hlambda, hnullable]

/-- Behind a nonterminal of a sequence that ends the input, the end marker is still to come. -/
theorem WellFormed.getLast?_tail (hg : g.WellFormed) {before after : List Symbol}
    (hN : N ∈ g.nonterminals) (h : (before ++ N :: after).getLast? = some Symbol.endMarker) :
    after.getLast? = some Symbol.endMarker := by
  cases after with
  | nil =>
    rw [List.getLast?_append] at h
    have hmarker : N = Symbol.endMarker := by simpa using h
    have hnonterminal := hg.isNonterminal_of_mem N hN
    rw [hmarker] at hnonterminal
    exact absurd hnonterminal (by decide)
  | cons s rest =>
    rw [List.getLast?_append, List.getLast?_cons_cons] at h
    simpa using h

/-- What stands behind an occurrence in an alternative follows in a derivation of that
alternative. -/
theorem WellFormed.isFollowedBy_of_mem_lookaheadsAt (hg : g.WellFormed) {follow : SetTable}
    (hfollow : ∀ M, ∀ b ∈ follow.setOf M, g.IsFollowedBy M b) {lhs : Symbol}
    {before tail : List Symbol} (hN : N ∈ g.nonterminals)
    (halt : before ++ N :: tail ∈ g.table.alternatives lhs)
    (ha : a ∈ lookaheadsAt g.nullable (g.firstSets g.nullable) follow lhs tail) :
    g.IsFollowedBy N a := by
  have hlambda := Symbol.isLambda_eq_false_of_isNonterminal (hg.isNonterminal_of_mem N hN)
  have hsplit : eraseLambda (before ++ N :: tail) =
      eraseLambda before ++ N :: eraseLambda tail := by
    rw [eraseLambda_append, eraseLambda_cons_of_not_isLambda hlambda]
  rcases mem_lookaheadsAt.mp ha with ha | ⟨hvanishes, ha⟩
  · -- the tail derives something that begins with `a`
    obtain ⟨-, rest, hrest⟩ := hg.mem_firstLookaheads_iff.mp ha
    refine .inl ⟨lhs, hg.lhs_mem halt, eraseLambda before, rest, ?_⟩
    have hrule := Derives.singleton_of_alternative halt
    rw [hsplit] at hrule
    exact hrule.trans ((hrest.append_left [N]).append_left (eraseLambda before))
  · have hnil := hg.vanishes_nullable_iff.mp hvanishes
    rcases hfollow lhs a ha with ⟨L, hL, x, y, hxy⟩ | ⟨rfl, -⟩
    · -- the tail vanishes before the follower of the left-hand side
      refine .inl ⟨L, hL, x ++ eraseLambda before, y, hxy.trans ?_⟩
      have hrule := Derives.of_alternative halt x (a :: y)
      rw [hsplit] at hrule
      refine hrule.trans ?_
      have htail := ((hnil.append_right (a :: y)).append_left [N]).append_left
        (x ++ eraseLambda before)
      simpa only [List.append_assoc, List.cons_append, List.nil_append] using htail
    · -- a tail in the goal does not vanish
      have hmarker := hg.getLast?_tail hN (eq_of_beq (hg.goal_endsInput _ halt))
      rw [hg.vanishes_eq_false_of_endMarker_mem (List.mem_of_getLast? hmarker)] at hvanishes
      exact absurd hvanishes Bool.false_ne_true

/-- In the beginning the end marker follows the goal, and nothing else follows anything. -/
theorem WellFormed.mem_setOf_goalTable (hg : g.WellFormed) :
    a ∈ g.goalTable.setOf N ↔ N = g.goal ∧ a = Symbol.endMarker := by
  unfold goalTable emptyTable
  rw [SetTable.mem_setOf_grow, SetTable.setOf_ofKeys_empty, SymbolMap.keys_ofKeys]
  simp [hg.goal_mem]

/-- Every member of a FOLLOW set stands right after its nonterminal somewhere. -/
theorem WellFormed.isFollowedBy_of_mem_nextLookaheads (hg : g.WellFormed) :
    ∀ N, ∀ b ∈ g.nextLookaheads N, g.IsFollowedBy N b := by
  apply Descent.limit_pass_induction (P := fun follow : SetTable =>
    ∀ N, ∀ b ∈ follow.setOf N, g.IsFollowedBy N b)
  · -- a step adds followers to one nonterminal, each from a place in some alternative
    intro target htarget follow hfollow N b hb
    rcases SetTable.mem_setOf_grow.mp hb with hb | ⟨rfl, -, hb⟩
    · exact hfollow N b hb
    · obtain ⟨lhs, alt, halt, before, tail, rfl, hb⟩ := hg.mem_followersOf.mp hb
      exact hg.isFollowedBy_of_mem_lookaheadsAt hfollow htarget halt hb
  · intro N b hb
    exact .inr (hg.mem_setOf_goalTable.mp hb)

/-! ## Each occurrence shows its followers -/

/-- Every nonterminal has a FOLLOW set. -/
theorem keys_followSets (g : Grammar) (nullable : SymbolSet) (first : SetTable)
    (hfirst : first.Within g.lookaheads) :
    (g.followSets nullable first hfirst).keys = g.nonterminals := by
  apply Descent.limit_pass_induction (P := fun follow : SetTable => follow.keys = g.nonterminals)
  · intro target _ follow hfollow
    exact (SetTable.keys_grow follow target _).trans hfollow
  · exact (SetTable.keys_grow _ _ _).trans (SymbolMap.keys_ofKeys g.nonterminals _)

/-- The FOLLOW sets are closed under the rules. -/
theorem WellFormed.lookaheadsAt_subset (hg : g.WellFormed) {lhs : Symbol}
    {before tail : List Symbol} (hN : N ∈ g.nonterminals)
    (halt : before ++ N :: tail ∈ g.table.alternatives lhs)
    (ha : a ∈ g.firstLookaheads tail ∨
      vanishes g.nullable tail = true ∧ a ∈ g.nextLookaheads lhs) :
    a ∈ g.nextLookaheads N := by
  let follow := g.followSets g.nullable (g.firstSets g.nullable) (g.within_firstSets g.nullable)
  have hkey : N ∈ follow.keys := by
    rw [keys_followSets]
    exact hN
  have hfixed : g.followStep g.nullable (g.firstSets g.nullable) follow N = follow :=
    Descent.apply_limit_pass _ _ _ (SymbolSet.mem_toList.mpr hN)
  apply SetTable.subset_setOf_of_grow_eq hkey hfixed
  exact hg.mem_followersOf.mpr ⟨lhs, _, halt, before, tail, rfl, mem_lookaheadsAt.mpr ha⟩

/-- The end of the input follows the goal. -/
theorem WellFormed.endMarker_mem_nextLookaheads (hg : g.WellFormed) :
    Symbol.endMarker ∈ g.nextLookaheads g.goal := by
  apply Descent.limit_pass_induction (P := fun follow : SetTable =>
    Symbol.endMarker ∈ follow.setOf g.goal)
  · -- it is there from the start, and a step only adds
    intro target _ follow hfollow
    exact SetTable.mem_setOf_grow.mpr (.inl hfollow)
  · exact hg.mem_setOf_goalTable.mpr ⟨rfl, rfl⟩

/-- Whether FOLLOW of each nonterminal in a sequence covers what can begin the rest behind it. -/
def FollowsCovered (g : Grammar) (form : List Symbol) : Prop :=
  ∀ before N after, form = before ++ N :: after → N ∈ g.nonterminals →
    g.firstLookaheads after ⊆ g.nextLookaheads N

/-- Nothing stands behind a single symbol. -/
theorem followsCovered_singleton (g : Grammar) (L : Symbol) : g.FollowsCovered [L] := by
  intro before N after hsplit _
  obtain ⟨-, -, rfl⟩ := append_cons_eq_singleton_iff.mp hsplit.symm
  exact SymbolSet.empty_subset _

/-- A step of a derivation keeps the followers covered. -/
theorem WellFormed.followsCovered_of_produces (hg : g.WellFormed) (h : g.Produces u v)
    (hu : g.FollowsCovered u) : g.FollowsCovered v := by
  obtain @⟨lhs, alt, x, y, halt⟩ := h
  intro before N after hsplit hN
  rw [List.append_assoc] at hsplit
  rcases cases_of_append_eq hsplit with ⟨middle, rfl, rfl⟩ | ⟨middle, rfl, hrest⟩
  · -- before the replaced occurrence: the rest is one step further
    have hcovered := hu before N (middle ++ lhs :: y) (by simp) hN
    have hstep := hg.firstLookaheads_subset_of_produces (Produces.step middle y halt)
    rw [List.append_assoc] at hstep
    exact SymbolSet.subset_trans hstep hcovered
  rcases cases_of_append_eq hrest with ⟨tail, hinside, rfl⟩ | ⟨middle', rfl, rfl⟩
  · -- inside the alternative: the rest is its tail and what stands behind the occurrence
    obtain ⟨front, back, rfl, -, rfl⟩ := exists_of_eraseLambda_eq hinside
    have hcovered := hu x lhs y rfl (hg.lhs_mem halt)
    intro a ha
    rw [hg.mem_firstLookaheads_append, firstLookaheads_eraseLambda, vanishes_eraseLambda] at ha
    exact hg.lookaheadsAt_subset hN halt
      (ha.imp_right fun ⟨hvanishes, ha⟩ => ⟨hvanishes, hcovered a ha⟩)
  · -- behind the replaced occurrence nothing changes
    exact hu (x ++ lhs :: middle') N after (by simp) hN

/-- Along a derivation, FOLLOW goes on covering what stands behind each nonterminal. -/
theorem WellFormed.followsCovered_of_derives (hg : g.WellFormed) (h : g.Derives u v)
    (hu : g.FollowsCovered u) : g.FollowsCovered v := by
  induction h with
  | refl => exact hu
  | tail _ hstep ih => exact hg.followsCovered_of_produces hstep ih

/-- What follows a nonterminal is a lookahead of the grammar. -/
theorem mem_lookaheads_of_mem_nextLookaheads (ha : a ∈ g.nextLookaheads N) :
    a ∈ g.lookaheads := by
  have hrange := (g.followDescent g.nullable (g.firstSets g.nullable)
    (g.within_firstSets g.nullable)).inRange_limit g.goalTable g.within_goalTable
  exact SetTable.setOf_subset hrange N a ha

/-- FOLLOW of a nonterminal holds the lookaheads that stand right after it somewhere. -/
theorem WellFormed.mem_nextLookaheads_iff (hg : g.WellFormed) (hN : N ∈ g.nonterminals) :
    a ∈ g.nextLookaheads N ↔
      (a ∈ g.terminals ∨ a = Symbol.endMarker) ∧ g.IsFollowedBy N a := by
  constructor
  · intro ha
    exact ⟨hg.mem_terminals_of_mem_lookaheads (mem_lookaheads_of_mem_nextLookaheads ha),
      hg.isFollowedBy_of_mem_nextLookaheads N a ha⟩
  · rintro ⟨hmember, ⟨L, -, before, after, hderives⟩ | ⟨rfl, rfl⟩⟩
    · have hlookahead : a.isLookahead = true :=
        Symbol.isLookahead_iff.mpr (hmember.imp_left fun ha => ((hg.mem_terminals a).mp ha).1)
      have hcovered := hg.followsCovered_of_derives hderives (g.followsCovered_singleton L)
      apply hcovered before N (a :: after) rfl hN
      exact (mem_firstOf_cons_of_isLookahead hlookahead).mpr rfl
    · exact hg.endMarker_mem_nextLookaheads

/-! ## The answers to questions -/

/-- A nonterminal is reachable if it occurs in something that the goal derives. -/
def IsReachable (g : Grammar) (N : Symbol) : Prop :=
  ∃ before after, g.Derives [g.goal] (before ++ N :: after)

/-- What a reachable nonterminal derives stands inside something that the goal derives. -/
theorem IsReachable.exists_derives_goal {L : Symbol} (hL : g.IsReachable L)
    (h : ∃ before after, g.Derives [L] (before ++ N :: a :: after)) :
    ∃ before after, g.Derives [g.goal] (before ++ N :: a :: after) := by
  obtain ⟨x, y, hxy⟩ := hL
  obtain ⟨before, after, hderives⟩ := h
  refine ⟨x ++ before, after ++ y, hxy.trans ?_⟩
  have hinside := (hderives.append_right y).append_left x
  simpa only [List.append_assoc, List.cons_append, List.nil_append] using hinside

/-- Where everything is reachable, what follows a nonterminal follows it in a derivation from the
goal, apart from the end of the input behind the goal itself. -/
theorem exists_derives_goal_of_isFollowedBy (hreach : ∀ M ∈ g.nonterminals, g.IsReachable M)
    (hother : ¬(N = g.goal ∧ a = Symbol.endMarker)) (h : g.IsFollowedBy N a) :
    ∃ before after, g.Derives [g.goal] (before ++ N :: a :: after) := by
  obtain ⟨L, hL, hderives⟩ := h.resolve_right hother
  exact (hreach L hL).exists_derives_goal hderives

/-- FOLLOW of any nonterminal of the grammar is answered, by the terminals and the end marker that
stand right after it in something that a nonterminal derives, and by the end marker for the goal.
Where every nonterminal is reachable, derivations from the goal are enough. -/
theorem Built.followSet_iff_derives (h : g.Built) (hN : N ∈ g.nonterminals) :
    ∃ set, g.analyze.followSet N = .ok set ∧
      (∀ a, a ∈ set ↔ (a ∈ g.terminals ∨ a = Symbol.endMarker) ∧
        ((∃ L ∈ g.nonterminals, ∃ before after, g.Derives [L] (before ++ N :: a :: after)) ∨
          N = g.goal ∧ a = Symbol.endMarker)) ∧
      ((∀ M ∈ g.nonterminals, g.IsReachable M) →
        ∀ a, ¬(N = g.goal ∧ a = Symbol.endMarker) →
          (a ∈ set ↔ (a ∈ g.terminals ∨ a = Symbol.endMarker) ∧
            ∃ before after, g.Derives [g.goal] (before ++ N :: a :: after))) := by
  have hg := h.wellFormed
  refine ⟨g.nextLookaheads N, Analysis.followSet_eq_ok hN, ?_, ?_⟩
  · intro a
    exact hg.mem_nextLookaheads_iff hN
  · intro hreach a hother
    rw [hg.mem_nextLookaheads_iff hN]
    apply and_congr_right
    intro _
    constructor
    · exact exists_derives_goal_of_isFollowedBy hreach hother
    · intro hderives
      exact .inl ⟨g.goal, hg.goal_mem, hderives⟩

/-- A goal that uses itself, so that the end marker also stands in the middle. -/
def recursiveGoal : Grammar :=
  (ofRules? [("Program", [["Statement", "Program", "$"], ["semi", "$"]]),
    ("Statement", [["id", "Tail"]]), ("Tail", [["lambda"], ["Tail", "id"]])]).get (by decide)

/-- `Tail` is followed by itself and by what begins the rest of the program. -/
theorem recursiveGoal_followSet :
    recursiveGoal.Built ∧ "Tail" ∈ recursiveGoal.nonterminals ∧
      (∀ M ∈ recursiveGoal.nonterminals, recursiveGoal.IsReachable M) ∧
      ∃ set, recursiveGoal.analyze.followSet "Tail" = .ok set ∧ set.toList = ["id", "semi"] ∧
        (∀ a, a ∈ set ↔ (a ∈ recursiveGoal.terminals ∨ a = Symbol.endMarker) ∧
          ((∃ L ∈ recursiveGoal.nonterminals, ∃ before after,
              recursiveGoal.Derives [L] (before ++ "Tail" :: a :: after)) ∨
            "Tail" = recursiveGoal.goal ∧ a = Symbol.endMarker)) ∧
        (∀ a, ¬("Tail" = recursiveGoal.goal ∧ a = Symbol.endMarker) →
          (a ∈ set ↔ (a ∈ recursiveGoal.terminals ∨ a = Symbol.endMarker) ∧
            ∃ before after, recursiveGoal.Derives [recursiveGoal.goal]
              (before ++ "Tail" :: a :: after))) ∧
        ∃ before after,
          recursiveGoal.Derives ["Program"] (before ++ "Tail" :: "semi" :: after) := by
  have hbuilt : recursiveGoal.Built := built_of_ofRules? (Option.some_get _).symm
  have hN : "Tail" ∈ recursiveGoal.nonterminals := by decide
  have hnames : ∀ M ∈ recursiveGoal.nonterminals,
      M = "Program" ∨ M = "Statement" ∨ M = "Tail" := by decide
  have hProgram : recursiveGoal.Derives ["Program"] ["Statement", "Program", "$"] :=
    Derives.singleton_of_alternative
      (by decide : ["Statement", "Program", "$"] ∈ recursiveGoal.table.alternatives "Program")
  have hStatement : recursiveGoal.Derives ["Statement"] ["id", "Tail"] :=
    Derives.singleton_of_alternative
      (by decide : ["id", "Tail"] ∈ recursiveGoal.table.alternatives "Statement")
  have hreach : ∀ M ∈ recursiveGoal.nonterminals, recursiveGoal.IsReachable M := by
    intro M hM
    rcases hnames M hM with rfl | rfl | rfl
    · exact ⟨[], [], Derives.refl ["Program"]⟩
    · exact ⟨[], ["Program", "$"], hProgram⟩
    · exact ⟨["id"], ["Program", "$"],
        hProgram.trans (hStatement.append_right ["Program", "$"])⟩
  obtain ⟨set, hset, hfollow, hgoal⟩ := hbuilt.followSet_iff_derives hN
  have hcomputed : recursiveGoal.analyze.followSet "Tail" = .ok (.ofList ["id", "semi"]) := by
    decide +kernel
  obtain rfl := Except.ok.inj (hcomputed.symm.trans hset)
  obtain ⟨-, hforms⟩ := (hgoal hreach "semi" (by decide)).mp (by decide)
  exact ⟨hbuilt, hN, hreach, _, hset, by decide, hfollow, hgoal hreach, hforms⟩

end Grammar

end Lookahead
