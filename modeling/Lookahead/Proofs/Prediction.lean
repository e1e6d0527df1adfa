import Lookahead.Proofs.Follow

/-!
# PREDICT sets and derivations

When a derivation from the goal replaces a nonterminal, the first symbol of what the chosen
alternative and the rest of the sequence go on to derive selects that alternative
(`mem_predictors_of_derives`). There always is such a symbol: every alternative of the goal ends the
input, and the end marker stays behind every nonterminal that the goal derives
(`vanishes_rest_eq_false`). Conversely, where every nonterminal is reachable, a lookahead selects an
alternative only if some derivation from the goal goes on that way
(`exists_derives_of_mem_predictors`).
-/

namespace Lookahead.Grammar

variable {g : Grammar} {N a : Symbol} {alt : Alternative} {u v before after rest : List Symbol}

/-- An alternative is selected by what it begins with and, if it vanishes, by what follows its
nonterminal. -/
theorem mem_predictors_iff :
    a ∈ g.analyze.predictors ⟨N, alt⟩ ↔
      a ∈ g.firstLookaheads alt ∨ vanishes g.nullable alt = true ∧ a ∈ g.nextLookaheads N :=
  mem_lookaheadsAt

/-- Whatever comes next where an alternative replaces its nonterminal selects the alternative. -/
theorem WellFormed.mem_predictors_of_derives (hg : g.WellFormed)
    (halt : alt ∈ g.table.alternatives N) (hform : g.Derives [g.goal] (before ++ N :: after))
    (ha : a.isLookahead = true) (hnext : g.Derives (eraseLambda alt ++ after) (a :: rest)) :
    a ∈ g.analyze.predictors ⟨N, alt⟩ := by
  have hbegins : a ∈ g.firstLookaheads (eraseLambda alt ++ after) := by
    apply hg.firstLookaheads_subset_of_derives hnext
    exact (mem_firstOf_cons_of_isLookahead ha).mpr rfl
  rw [hg.mem_firstLookaheads_append, firstLookaheads_eraseLambda, vanishes_eraseLambda] at hbegins
  rw [mem_predictors_iff]
  refine hbegins.imp_right fun ⟨hvanishes, hafter⟩ => ⟨hvanishes, ?_⟩
  have hcovered := hg.followsCovered_of_derives hform (g.followsCovered_singleton g.goal)
  exact hcovered before N after rfl (hg.lhs_mem halt) a hafter

/-! ## The end of the input -/

/-- Deleting `lambda` leaves an end marker at the end. -/
theorem getLast?_eraseLambda (h : u.getLast? = some Symbol.endMarker) :
    (eraseLambda u).getLast? = some Symbol.endMarker := by
  obtain ⟨front, rfl⟩ := List.getLast?_eq_some_iff.mp h
  have hmarker : eraseLambda [Symbol.endMarker] = [Symbol.endMarker] := by decide
  rw [eraseLambda_append, hmarker, List.getLast?_append]
  rfl

/-- A sequence that the goal derives is the goal itself or ends the input. -/
theorem WellFormed.getLast?_of_derives_goal (hg : g.WellFormed) (h : g.Derives [g.goal] u) :
    u = [g.goal] ∨ u.getLast? = some Symbol.endMarker := by
  induction h with
  | refl => exact .inl rfl
  | tail _ hstep ih =>
    obtain @⟨lhs, alt, before, after, halt⟩ := hstep
    right
    rcases ih with hgoal | hlast
    · -- the first step of all leaves an alternative of the goal
      obtain ⟨rfl, hlhs, rfl⟩ := append_cons_eq_singleton_iff.mp hgoal
      rw [hlhs] at halt
      rw [List.nil_append, List.append_nil]
      exact getLast?_eraseLambda (eq_of_beq (hg.goal_endsInput alt halt))
    · have hafter := hg.getLast?_tail (hg.lhs_mem halt) hlast
      rw [List.getLast?_append, hafter]
      rfl

/-- No alternative of the goal vanishes. -/
theorem WellFormed.vanishes_goal_eq_false (hg : g.WellFormed)
    (halt : alt ∈ g.table.alternatives g.goal) : vanishes g.nullable alt = false :=
  hg.vanishes_eq_false_of_endMarker_mem
    (List.mem_of_getLast? (eq_of_beq (hg.goal_endsInput alt halt)))

/-- Where an alternative replaces its nonterminal in what the goal derives, something is left to
read. -/
theorem WellFormed.vanishes_rest_eq_false (hg : g.WellFormed)
    (halt : alt ∈ g.table.alternatives N) (hform : g.Derives [g.goal] (before ++ N :: after)) :
    vanishes g.nullable (eraseLambda alt ++ after) = false := by
  apply hg.vanishes_eq_false_of_endMarker_mem
  rw [List.mem_append]
  rcases hg.getLast?_of_derives_goal hform with hgoal | hlast
  · left
    obtain ⟨rfl, hN, rfl⟩ := append_cons_eq_singleton_iff.mp hgoal
    rw [hN] at halt
    exact List.mem_of_getLast? (getLast?_eraseLambda (eq_of_beq (hg.goal_endsInput alt halt)))
  · right
    exact List.mem_of_getLast? (hg.getLast?_tail (hg.lhs_mem halt) hlast)

/-! ## Each selecting lookahead comes next somewhere -/

/-- What selects an alternative is a lookahead. -/
theorem WellFormed.isLookahead_of_mem_predictors (hg : g.WellFormed) (hN : N ∈ g.nonterminals)
    (ha : a ∈ g.analyze.predictors ⟨N, alt⟩) : a.isLookahead = true := by
  rcases mem_predictors_iff.mp ha with ha | ⟨-, ha⟩
  · exact hg.isLookahead_of_mem_firstLookaheads ha
  · obtain ⟨hmember, -⟩ := (hg.mem_nextLookaheads_iff hN).mp ha
    apply Symbol.isLookahead_iff.mpr
    exact hmember.imp_left fun ha => ((hg.mem_terminals a).mp ha).1

/-- Where everything is reachable, a lookahead that selects an alternative comes next in some
derivation from the goal that replaces the nonterminal by it. -/
theorem WellFormed.exists_derives_of_mem_predictors (hg : g.WellFormed)
    (hreach : ∀ M ∈ g.nonterminals, g.IsReachable M) (halt : alt ∈ g.table.alternatives N)
    (ha : a ∈ g.analyze.predictors ⟨N, alt⟩) :
    ∃ before after rest, g.Derives [g.goal] (before ++ N :: after) ∧
      g.Derives (eraseLambda alt ++ after) (a :: rest) := by
  have hN := hg.lhs_mem halt
  rcases mem_predictors_iff.mp ha with ha | ⟨hvanishes, ha⟩
  · -- the alternative itself begins with the lookahead, wherever the nonterminal is reached
    obtain ⟨-, rest, hrest⟩ := hg.mem_firstLookaheads_iff.mp ha
    obtain ⟨before, after, hform⟩ := hreach N hN
    exact ⟨before, after, rest ++ after, hform, hrest.append_right after⟩
  · -- the alternative vanishes before something that follows the nonterminal
    have hnil := hg.vanishes_nullable_iff.mp hvanishes
    have hother : ¬(N = g.goal ∧ a = Symbol.endMarker) := by
      rintro ⟨rfl, -⟩
      rw [hg.vanishes_goal_eq_false halt] at hvanishes
      exact Bool.false_ne_true hvanishes
    obtain ⟨-, hfollowed⟩ := (hg.mem_nextLookaheads_iff hN).mp ha
    obtain ⟨before, after, hform⟩ := exists_derives_goal_of_isFollowedBy hreach hother hfollowed
    exact ⟨before, a :: after, after, hform, hnil.append_right (a :: after)⟩

end Lookahead.Grammar
