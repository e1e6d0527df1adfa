import Lookahead.Proofs.StrongLL1
import Lookahead.Proofs.Unambiguous

/-!
# Left recursion is never LL(1)

A nonterminal is left-recursive if it derives a sequence that begins with itself. Where a text can
be derived through such a loop, the alternative that enters the loop and the one that leaves it are
selected by the same lookahead: the loop may be run once more before it is left, and what comes next
is the same. So in a grammar without conflicts every derivation of a text would have to stay in the
loop (`alternative_eq_of_isLL1`), and none ends (`not_isLoop_of_derivesText`).
-/

namespace Lookahead.Grammar

variable {g : Grammar} {A : Symbol} {alt alt' : Alternative}
  {u v before after rest text : List Symbol}

/-! ## Sequences that derive texts -/

/-- Whether a sequence derives a string of terminals and end markers. -/
def DerivesText (g : Grammar) (u : List Symbol) : Prop :=
  ∃ text, (∀ s ∈ text, s.isLookahead = true) ∧ g.Derives u text

/-- A sequence in two parts derives a text exactly if both parts do. -/
theorem derivesText_append : g.DerivesText (u ++ v) ↔ g.DerivesText u ∧ g.DerivesText v := by
  constructor
  · rintro ⟨text, htext, hderives⟩
    obtain ⟨x, y, rfl, hx, hy⟩ := hderives.exists_append
    exact ⟨⟨x, fun s hs => htext s (List.mem_append_left y hs), hx⟩,
      ⟨y, fun s hs => htext s (List.mem_append_right x hs), hy⟩⟩
  · rintro ⟨⟨x, hx, hu⟩, ⟨y, hy, hv⟩⟩
    exact ⟨x ++ y, fun s hs => (List.mem_append.mp hs).elim (hx s) (hy s), hu.append hv⟩

/-- What stands first in a sequence comes from one of the symbols that the sequence is derived from;
those before it vanish. -/
theorem Derives.exists_first (h : g.Derives u (A :: rest)) :
    ∃ front B back inner outer, u = front ++ B :: back ∧ g.Derives front [] ∧
      g.Derives [B] (A :: inner) ∧ g.Derives back outer ∧ rest = inner ++ outer := by
  induction u with
  | nil => exact absurd h.eq_nil (List.cons_ne_nil A rest)
  | cons s u ih =>
    obtain ⟨x, y, hsplit, hx, hy⟩ := Derives.exists_append (u := [s]) h
    cases x with
    | nil =>
      obtain ⟨front, B, back, inner, outer, rfl, hfront, hB, hback, hrest⟩ := ih (hsplit ▸ hy)
      exact ⟨s :: front, B, back, inner, outer, rfl, hx.append hfront, hB, hback, hrest⟩
    | cons a inner =>
      obtain ⟨rfl, rfl⟩ := List.cons.inj hsplit
      exact ⟨[], s, u, inner, y, rfl, Derives.refl [], hx, hy, rfl⟩

/-! ## Loops -/

/-- Whether a nonterminal, in one step or more, derives a sequence that begins with itself and goes
on with `rest`. -/
def LeadsBack (g : Grammar) (A : Symbol) (rest : List Symbol) : Prop :=
  Relation.TransGen g.Produces [A] (A :: rest)

/-- Whether a text can be derived from the goal with a left recursion of the nonterminal on the
way, but for what the nonterminal itself derives and for what stands before it. -/
def IsLoop (g : Grammar) (A : Symbol) : Prop :=
  ∃ before after rest, g.Derives [g.goal] (before ++ A :: after) ∧ g.LeadsBack A rest ∧
    g.DerivesText rest ∧ g.DerivesText after

/-- A left recursion begins with one of the alternatives. -/
theorem LeadsBack.exists_alternative (h : g.LeadsBack A rest) :
    ∃ alt ∈ g.table.alternatives A, g.Derives (eraseLambda alt) (A :: rest) := by
  obtain ⟨form, hstep, hrest⟩ := Relation.TransGen.head'_iff.mp h
  obtain ⟨alt, halt, rfl⟩ := hstep.exists_alternative
  exact ⟨alt, halt, hrest⟩

/-- Without conflicts, a loop is left by the alternative that enters it: the lookahead of what
follows selects both. -/
theorem WellFormed.alternative_eq_of_isLL1 (hg : g.WellFormed) (hll1 : g.analyze.isLL1 = true)
    (hform : g.Derives [g.goal] (before ++ A :: after)) (halt : alt ∈ g.table.alternatives A)
    (hloop : g.Derives (eraseLambda alt) (A :: rest)) (halt' : alt' ∈ g.table.alternatives A)
    (hnext : g.DerivesText (eraseLambda alt' ++ (rest ++ after))) : alt = alt' := by
  -- one more round of the loop, and then either alternative
  have hround : g.Derives (eraseLambda alt ++ after) (A :: (rest ++ after)) :=
    hloop.append_right after
  have hform' : g.Derives [g.goal] (before ++ A :: (rest ++ after)) := by
    have hentered := hform.trans (Derives.of_alternative halt before after)
    rw [List.append_assoc] at hentered
    exact hentered.trans (hround.append_left before)
  obtain ⟨text, htext, hderives⟩ := hnext
  cases text with
  | nil =>
    have hvanishes := hg.vanishes_of_derives hderives rfl
    rw [hg.vanishes_rest_eq_false halt' hform'] at hvanishes
    exact absurd hvanishes Bool.false_ne_true
  | cons a text =>
    have ha : a.isLookahead = true := htext a List.mem_cons_self
    have hleaving := hg.mem_predictors_of_derives halt' hform' ha hderives
    have hleft : g.Derives (A :: (rest ++ after)) (eraseLambda alt' ++ (rest ++ after)) :=
      Derives.of_alternative halt' [] (rest ++ after)
    have hentering := hg.mem_predictors_of_derives halt hform ha
      ((hround.trans hleft).trans hderives)
    obtain ⟨i, hi⟩ := List.mem_iff_getElem?.mp halt
    obtain ⟨j, hj⟩ := List.mem_iff_getElem?.mp halt'
    obtain rfl := position_eq_of_isLL1 hll1 (hg.lhs_mem halt) hi hj hentering hleaving
    exact Option.some.inj (hi.symm.trans hj)

/-- The alternative that enters a loop has a symbol with a loop of its own, if it derives a text. -/
theorem exists_isLoop_mem (hform : g.Derives [g.goal] (before ++ A :: after))
    (halt : alt ∈ g.table.alternatives A) (hloop : g.Derives (eraseLambda alt) (A :: rest))
    (hrest : g.DerivesText rest) (hafter : g.DerivesText after)
    (htext : g.DerivesText (eraseLambda alt)) : ∃ B ∈ eraseLambda alt, g.IsLoop B := by
  obtain ⟨front, B, back, inner, outer, hsplit, hfront, hB, -, rfl⟩ := hloop.exists_first
  have hinner : g.DerivesText inner := (derivesText_append.mp hrest).1
  have hback : g.DerivesText back := by
    rw [hsplit] at htext
    exact ((derivesText_append (u := [B])).mp (derivesText_append.mp htext).2).2
  refine ⟨B, by simp [hsplit], before ++ front, back ++ after, back ++ inner, ?_, ?_,
    derivesText_append.mpr ⟨hback, hinner⟩, derivesText_append.mpr ⟨hback, hafter⟩⟩
  · have hentered := hform.trans (Derives.of_alternative halt before after)
    rw [hsplit] at hentered
    simpa only [List.append_assoc, List.cons_append] using hentered
  · -- from `B` to `A`, then the step into the alternative, then to `B` again
    have hstep : g.Produces (A :: inner) (eraseLambda alt ++ inner) := .step [] inner halt
    rw [hsplit, List.append_assoc] at hstep
    have hagain := hfront.append_right (B :: (back ++ inner))
    exact (Relation.TransGen.tail' hB hstep).trans_left hagain

/-- Without conflicts, no symbol of a sequence that derives a text has a loop. -/
theorem WellFormed.not_isLoop_of_derivesText (hg : g.WellFormed)
    (hll1 : g.analyze.isLL1 = true) (h : g.DerivesText u) : ∀ A ∈ u, ¬g.IsLoop A := by
  obtain ⟨text, htext, hderives⟩ := h
  induction hderives using Relation.ReflTransGen.head_induction_on with
  | refl =>
    -- a symbol of a text has no alternative to begin with
    rintro A hA ⟨before, after, rest, -, hloop, -⟩
    obtain ⟨alt, halt, -⟩ := hloop.exists_alternative
    exact hg.not_mem_nonterminals_of_isFinal (.inl (htext A hA)) (hg.lhs_mem halt)
  | head hstep hrest ih =>
    obtain @⟨lhs, alt', x, y, halt'⟩ := hstep
    intro A hA
    rcases List.mem_append.mp hA with hA | hA
    · exact ih A (by simp [hA])
    rcases List.mem_cons.mp hA with rfl | hA
    · -- the alternative chosen here enters the loop, so it has a symbol with a loop in it
      rintro ⟨before, after, rest, hform, hloop, hback, hafter⟩
      obtain ⟨alt, halt, hentered⟩ := hloop.exists_alternative
      have hchosen : g.DerivesText (eraseLambda alt') :=
        (derivesText_append.mp (derivesText_append.mp ⟨text, htext, hrest⟩).1).2
      have hnext : g.DerivesText (eraseLambda alt' ++ (rest ++ after)) :=
        derivesText_append.mpr ⟨hchosen, derivesText_append.mpr ⟨hback, hafter⟩⟩
      obtain rfl := hg.alternative_eq_of_isLL1 hll1 hform halt hentered halt' hnext
      obtain ⟨B, hB, hinside⟩ := exists_isLoop_mem hform halt hentered hback hafter hchosen
      exact ih B (by simp [hB]) hinside
    · exact ih A (by simp [hA])

/-- A left recursion that a text can be derived through keeps a grammar from being LL(1). -/
theorem WellFormed.isLL1_eq_false_of_leadsBack (hg : g.WellFormed)
    (hform : g.Derives [g.goal] (before ++ A :: after)) (hloop : g.LeadsBack A rest)
    (htext : g.DerivesText (A :: rest ++ after)) : g.analyze.isLL1 = false := by
  rw [← Bool.not_eq_true]
  intro hll1
  obtain ⟨hleft, hafter⟩ := derivesText_append.mp htext
  obtain ⟨hA, hrest⟩ := (derivesText_append (u := [A])).mp hleft
  exact hg.not_isLoop_of_derivesText hll1 hA A (by simp)
    ⟨before, after, rest, hform, hloop, hrest, hafter⟩

/-! ## Grammars without empty symbols -/

/-- Without empty symbols, where every nonterminal is productive, so is everything that the goal
derives. -/
theorem WellFormed.derivesText_of_derives_goal (hg : g.WellFormed)
    (hempty : g.HasNoEmptySymbol)
    (hproductive : ∀ M ∈ g.nonterminals, g.IsProductive (fun s => s.isLookahead = true) M)
    (h : g.Derives [g.goal] u) : g.DerivesText u :=
  exists_derives_final hproductive (hg.final_or_mem_of_derives_goal hempty.isTextClass h)

/-- Left recursion of any nonterminal `A`, direct, indirect or behind symbols that vanish, keeps a
grammar from being LL(1), if what `A` leads back to goes on to a text in some derivation from the
goal. It always does if every nonterminal is reachable and productive and no alternative has an
empty symbol in it. -/
theorem Built.isLL1_eq_false_of_leftRecursion (h : g.Built) :
    (∀ A before after rest, g.Derives [g.goal] (before ++ A :: after) →
        Relation.TransGen g.Produces [A] (A :: rest) →
        (∃ text, (∀ s ∈ text, s.isLookahead = true) ∧ g.Derives (A :: rest ++ after) text) →
        g.analyze.isLL1 = false) ∧
      ((∀ lhs, ∀ alt ∈ g.table.alternatives lhs, "" ∉ alt) →
        (∀ M ∈ g.nonterminals, g.IsReachable M) →
        (∀ M ∈ g.nonterminals, g.IsProductive (fun s => s.isLookahead = true) M) →
        ∀ A rest, Relation.TransGen g.Produces [A] (A :: rest) → g.analyze.isLL1 = false) := by
  have hg := h.wellFormed
  constructor
  · intro A before after rest hform hloop htext
    exact hg.isLL1_eq_false_of_leadsBack hform hloop htext
  · intro hempty hreach hproductive A rest hloop
    obtain ⟨alt, halt, -⟩ := LeadsBack.exists_alternative hloop
    obtain ⟨before, after, hform⟩ := hreach A (hg.lhs_mem halt)
    -- once round the loop, in what the goal derives
    have hround : g.Derives (before ++ A :: after) (before ++ (A :: rest ++ after)) :=
      Derives.append_left (Derives.append_right hloop.to_reflTransGen after) before
    have htext := hg.derivesText_of_derives_goal hempty hproductive (hform.trans hround)
    exact hg.isLL1_eq_false_of_leadsBack hform hloop (derivesText_append.mp htext).2

/-- A nonterminal that leads back to itself behind another one that vanishes. -/
def hiddenLoop : Grammar :=
  (ofRules? [("S", [["E", "$"]]), ("E", [["Sign", "E", "plus"], ["id"]]),
    ("Sign", [["minus"], ["lambda"]])]).get (by decide)

/-- The loop is seen behind the optional sign. -/
theorem hiddenLoop_not_isLL1 :
    hiddenLoop.Built ∧ (∀ lhs, ∀ alt ∈ hiddenLoop.table.alternatives lhs, "" ∉ alt) ∧
      (∀ M ∈ hiddenLoop.nonterminals, hiddenLoop.IsReachable M) ∧
      (∀ M ∈ hiddenLoop.nonterminals,
        hiddenLoop.IsProductive (fun s => s.isLookahead = true) M) ∧
      Relation.TransGen hiddenLoop.Produces ["E"] ["E", "plus"] ∧
      hiddenLoop.analyze.isLL1 = false := by
  have hbuilt : hiddenLoop.Built := built_of_ofRules? (Option.some_get _).symm
  have hnames : ∀ M ∈ hiddenLoop.nonterminals, M = "E" ∨ M = "S" ∨ M = "Sign" := by decide
  have hempty : ∀ lhs, ∀ alt ∈ hiddenLoop.table.alternatives lhs, "" ∉ alt :=
    hbuilt.wellFormed.hasNoEmptySymbol_iff.mpr (by decide)
  have hS : hiddenLoop.Derives ["S"] ["E", "$"] :=
    Derives.singleton_of_alternative (by decide : ["E", "$"] ∈ hiddenLoop.table.alternatives "S")
  have hstep : hiddenLoop.Produces ["E"] ["Sign", "E", "plus"] :=
    .step [] [] (by decide : ["Sign", "E", "plus"] ∈ hiddenLoop.table.alternatives "E")
  have hE : hiddenLoop.Derives ["E"] ["id"] :=
    Derives.singleton_of_alternative (by decide : ["id"] ∈ hiddenLoop.table.alternatives "E")
  have hSign : hiddenLoop.Derives ["Sign"] [] :=
    Derives.singleton_of_alternative (by decide : ["lambda"] ∈ hiddenLoop.table.alternatives "Sign")
  have hreach : ∀ M ∈ hiddenLoop.nonterminals, hiddenLoop.IsReachable M := by
    intro M hM
    rcases hnames M hM with rfl | rfl | rfl
    · exact ⟨[], ["$"], hS⟩
    · exact ⟨[], [], Derives.refl ["S"]⟩
    · exact ⟨[], ["E", "plus", "$"], hS.trans
        (Derives.append_right (Relation.ReflTransGen.single hstep) ["$"])⟩
  have hproductive : ∀ M ∈ hiddenLoop.nonterminals,
      hiddenLoop.IsProductive (fun s => s.isLookahead = true) M := by
    intro M hM
    rcases hnames M hM with rfl | rfl | rfl
    · exact ⟨["id"], by decide, hE⟩
    · exact ⟨["id", "$"], by decide, hS.trans (hE.append_right ["$"])⟩
    · exact ⟨[], by decide, hSign⟩
  have hloop : Relation.TransGen hiddenLoop.Produces ["E"] ["E", "plus"] :=
    (Relation.TransGen.single hstep).trans_left (hSign.append_right ["E", "plus"])
  exact ⟨hbuilt, hempty, hreach, hproductive, hloop,
    hbuilt.isLL1_eq_false_of_leftRecursion.2 hempty hreach hproductive "E" ["plus"] hloop⟩

/-- A left recursion that an empty symbol keeps from every text. -/
def blockedLoop : Grammar :=
  (ofRules? [("S", [["A", "$"]]), ("A", [["A", ""], ["lambda"]])]).get (by decide)

/-- Where an empty symbol follows a left-recursive nonterminal, a grammar can be LL(1), although
every nonterminal is reachable and derives a text. -/
theorem blockedLoop_isLL1 :
    blockedLoop.Built ∧ (∀ M ∈ blockedLoop.nonterminals, blockedLoop.IsReachable M) ∧
      (∀ M ∈ blockedLoop.nonterminals,
        blockedLoop.IsProductive (fun s => s.isLookahead = true) M) ∧
      Relation.TransGen blockedLoop.Produces ["A"] ["A", ""] ∧
      blockedLoop.analyze.isLL1 = true := by
  have hbuilt : blockedLoop.Built := built_of_ofRules? (Option.some_get _).symm
  have hnames : ∀ M ∈ blockedLoop.nonterminals, M = "A" ∨ M = "S" := by decide
  have hS : blockedLoop.Derives ["S"] ["A", "$"] :=
    Derives.singleton_of_alternative (by decide : ["A", "$"] ∈ blockedLoop.table.alternatives "S")
  have hA : blockedLoop.Derives ["A"] [] :=
    Derives.singleton_of_alternative (by decide : ["lambda"] ∈ blockedLoop.table.alternatives "A")
  have hloop : blockedLoop.Produces ["A"] ["A", ""] :=
    .step [] [] (by decide : ["A", ""] ∈ blockedLoop.table.alternatives "A")
  refine ⟨hbuilt, ?_, ?_, Relation.TransGen.single hloop, by decide +kernel⟩
  · intro M hM
    rcases hnames M hM with rfl | rfl
    · exact ⟨[], ["$"], hS⟩
    · exact ⟨[], [], Derives.refl ["S"]⟩
  · intro M hM
    rcases hnames M hM with rfl | rfl
    · exact ⟨[], by decide, hA⟩
    · exact ⟨["$"], by decide, hS.trans (hA.append_right ["$"])⟩

end Lookahead.Grammar
