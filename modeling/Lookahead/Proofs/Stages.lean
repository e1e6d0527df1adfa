import Lookahead.Proofs.Listings
import Lookahead.Proofs.Reading

/-!
# What each stage of reading reports

Every stage goes through its lines or rules once. A malformed line, a line that continues no rule
and a rule that is refused are each reported once and in order
(`listsInOrder_of_readLines_eq_error`, `gatherRules_eq_error_iff`, `mem_snd_addWritten`); what
passes is handed on with its line number.
`MakesUp` is the relation between lines and the rules that they make up. A rule made up from lines
has no fault by itself (`MakesUp.shapeFault?_eq_none`): what a line is checked for is what a builder
checks an alternative for.
-/

namespace Lookahead

/-! ## Alternatives are checked alike -/

namespace RuleLine

/-- The reader finds no fault with an alternative exactly if it is well-formed. -/
theorem alternativeFault?_eq_none_iff_isWellFormed {alt : Alternative} :
    alternativeFault? alt = none ↔ alt.IsWellFormed := by
  rw [alternativeFault?_eq_none_iff, Alternative.isWellFormed_iff]

/-- What is read between bars is one alternative or more, all of them well formed. -/
theorem isWellFormed_of_readAlternatives {tokens : List Token} {alts : List Alternative}
    (h : readAlternatives tokens = .ok alts) : alts ≠ [] ∧ ∀ alt ∈ alts, alt.IsWellFormed := by
  obtain ⟨hpieces, hfaults⟩ := readAlternatives_eq_ok_iff.mp h
  refine ⟨?_, fun alt halt => alternativeFault?_eq_none_iff_isWellFormed.mp (hfaults alt halt)⟩
  rintro rfl
  exact splitAtBars_ne_nil tokens hpieces

end RuleLine

namespace Source

variable {file text : String} {lhs : Symbol} {alts : List Alternative}

/-- A line that is read has alternatives, all of them well formed. -/
theorem Says.isWellFormed {content : RuleLine} (h : Says text content) :
    content.alternatives ≠ [] ∧ ∀ alt ∈ content.alternatives, alt.IsWellFormed := by
  obtain ⟨tokens, -, hread⟩ := h.exists_readAlternatives
  exact RuleLine.isWellFormed_of_readAlternatives hread

/-- A head line has a nonterminal on its left. -/
theorem Says.isNonterminal (h : Says text (.head lhs alts)) : lhs.isNonterminal = true := by
  obtain ⟨rest, -, hlhs, -⟩ := RuleLine.ofTokens_eq_head_iff.mp h.ofTokens
  exact hlhs

/-! ## Single lines -/

section Lines

variable {lines : List (Except FileError String)} {written : List NumberedLine}
  {errors : List ReadError}

/-- The error of a result is what it failed with. -/
theorem error?_eq_some_iff {ε α : Type} {result : Except ε α} {e : ε} :
    error? result = some e ↔ result = .error e := by
  cases result <;> simp [error?]

/-- Reading the lines fails with the errors of all lines, if there are any. -/
theorem readLines_eq_error_iff :
    readLines file lines = .error errors ↔
      errors ≠ [] ∧ errors = (results file lines 1).filterMap error? := by
  rw [readLines_eq_results]
  simp only [List.isEmpty_iff]
  split
  · rename_i hnone
    simp [hnone]
  · rename_i hsome
    rw [Except.error.injEq]
    exact ⟨fun h => ⟨h ▸ hsome, h.symm⟩, fun h => h.2.symm⟩

/-- The errors of single lines come in the order of the lines, one for each line that has one. -/
theorem listsInOrder_of_readLines_eq_error (h : readLines file lines = .error errors) :
    ListsInOrder (· < ·) (fun number e => ∃ line, (line, number) ∈ lines.zipIdx 1 ∧
      readLine? file line number = some (.error e)) errors := by
  rw [(readLines_eq_error_iff.mp h).2, results, List.filterMap_filterMap]
  refine (listsInOrder_filterMap (pairwise_zipIdx lines 1)).congr fun number e => ?_
  simp only [Option.bind_eq_some_iff, error?_eq_some_iff, exists_eq_right, Prod.exists]
  constructor
  · rintro ⟨line, _, hline, rfl, herror⟩
    exact ⟨line, hline, herror⟩
  · rintro ⟨line, hline, herror⟩
    exact ⟨line, number, hline, rfl, herror⟩

/-- If all lines are read, none of them has an error. -/
theorem readLine?_ne_error_of_readLines (h : readLines file lines = .ok written)
    {line : Except FileError String} {number : Nat} (hline : (line, number) ∈ lines.zipIdx 1)
    (e : ReadError) : readLine? file line number ≠ some (.error e) := by
  intro herror
  have hmem : .error e ∈ written.map (Except.ok (ε := ReadError)) := by
    rw [← readLines_eq_ok_iff.mp h]
    exact mem_results_iff.mpr ⟨_, _, hline, herror⟩
  simp at hmem

/-- Lines that are read come in the order of their numbers. -/
theorem pairwise_of_readLines_eq_ok (h : readLines file lines = .ok written) :
    written.Pairwise (·.number < ·.number) := by
  have hresults : (written.map (Except.ok (ε := ReadError))).Pairwise fun r r' =>
      ∀ line line', r = .ok line → r' = .ok line' → line.number < line'.number := by
    rw [← readLines_eq_ok_iff.mp h, results, List.pairwise_filterMap]
    refine (pairwise_zipIdx lines 1).imp fun {a b} hlt r hr r' hr' line line' heq heq' => ?_
    obtain ⟨-, -, -, hnumber⟩ := readLine?_eq_some_ok_iff.mp (heq ▸ hr)
    obtain ⟨-, -, -, hnumber'⟩ := readLine?_eq_some_ok_iff.mp (heq' ▸ hr')
    exact hnumber ▸ hnumber' ▸ hlt
  exact (List.pairwise_map.mp hresults).imp fun hlt => hlt _ _ rfl rfl

end Lines

/-! ## Lines make up rules -/

/-- Whether lines make up rules: each head line starts one, and the continuation lines up to the
next head line give it further alternatives. -/
inductive MakesUp : List NumberedLine → List WrittenRule → Prop
  | nil : MakesUp [] []
  | rule {number : Nat} {lhs : Symbol} {alts : List Alternative}
      {continuations lines : List NumberedLine} {rules : List WrittenRule}
      (hcontinuations : ∀ line ∈ continuations, line.content.isContinuation = true)
      (hrest : MakesUp lines rules) :
      MakesUp (⟨number, .head lhs alts⟩ :: (continuations ++ lines))
        (⟨lhs, alts ++ continuations.flatMap (·.content.alternatives), number⟩ :: rules)

/-- Lines that continue a rule are gathered in front of what comes behind them. -/
theorem gather_append_of_isContinuation {front : List NumberedLine}
    (h : ∀ line ∈ front, line.content.isContinuation = true) (rest : List NumberedLine) :
    gather (front ++ rest) =
      (front.flatMap (·.content.alternatives) ++ (gather rest).1, (gather rest).2) := by
  induction front with
  | nil => rfl
  | cons line more ih =>
    obtain ⟨hline, hmore⟩ := List.forall_mem_cons.mp h
    obtain ⟨number, content⟩ := line
    cases content with
    | head lhs alts => exact absurd hline Bool.false_ne_true
    | continuation alts =>
      rw [List.cons_append, gather, ih hmore, List.flatMap_cons, List.append_assoc]
      rfl

/-- Lines that make up rules are gathered into these. -/
theorem MakesUp.gather_eq {lines : List NumberedLine} {rules : List WrittenRule}
    (h : MakesUp lines rules) : gather lines = ([], rules) := by
  induction h with
  | nil => rfl
  | rule hcontinuations hrest ih =>
    rw [gather, gather_append_of_isContinuation hcontinuations, ih, List.append_nil]

/-- Behind the lines that continue no rule, the others make up what is gathered. -/
theorem exists_makesUp_gather (lines : List NumberedLine) :
    ∃ front rest, lines = front ++ rest ∧
      (∀ line ∈ front, line.content.isContinuation = true) ∧ MakesUp rest (gather lines).2 := by
  induction lines using gather.induct with
  | case1 => exact ⟨[], [], rfl, List.forall_mem_nil _, .nil⟩
  | case2 number alts lines ih =>
    obtain ⟨front, rest, rfl, hfront, hrest⟩ := ih
    exact ⟨⟨number, .continuation alts⟩ :: front, rest, rfl,
      List.forall_mem_cons.mpr ⟨rfl, hfront⟩, hrest⟩
  | case3 number lhs alts lines ih =>
    obtain ⟨front, rest, rfl, hfront, hrest⟩ := ih
    refine ⟨[], _, rfl, List.forall_mem_nil _, ?_⟩
    have hnone : (gather rest).1 = [] := congrArg Prod.fst hrest.gather_eq
    rw [gather, gather_append_of_isContinuation hfront, hnone, List.append_nil]
    rw [gather_append_of_isContinuation hfront] at hrest
    exact .rule hfront hrest

/-- Lines are gathered exactly if they make up rules. -/
theorem gatherRules_eq_ok_iff_makesUp {lines : List NumberedLine} {rules : List WrittenRule} :
    gatherRules file lines = .ok rules ↔ MakesUp lines rules := by
  rw [gatherRules_eq_ok_iff]
  constructor
  · rintro ⟨hstart, rfl⟩
    obtain ⟨front, rest, rfl, hfront, hrest⟩ := exists_makesUp_gather lines
    cases front with
    | nil => exact hrest
    | cons line more =>
      have hhead := hfront line List.mem_cons_self
      rw [hstart line rfl] at hhead
      exact absurd hhead Bool.false_ne_true
  · intro h
    refine ⟨?_, congrArg Prod.snd h.gather_eq⟩
    cases h with
    | nil => exact fun _ hline => nomatch hline
    | rule => exact fun line hline => Option.some.inj hline ▸ rfl

namespace MakesUp

variable {lines : List NumberedLine} {rules : List WrittenRule} {number : Nat}

/-- Each head line starts a rule, and each rule is started by a head line. -/
theorem exists_rule_iff (h : MakesUp lines rules) :
    (∃ rule ∈ rules, rule.lhs = lhs ∧ rule.line = number) ↔
      ∃ alts, ⟨number, .head lhs alts⟩ ∈ lines := by
  induction h with
  | nil => simp
  | @rule number' lhs' alts' continuations lines rules hcontinuations hrest ih =>
    rw [List.exists_mem_cons_iff, ih]
    simp only [List.mem_cons, List.mem_append, NumberedLine.mk.injEq, RuleLine.head.injEq]
    constructor
    · rintro (⟨rfl, rfl⟩ | ⟨alts, hmem⟩)
      · exact ⟨alts', .inl ⟨rfl, rfl, rfl⟩⟩
      · exact ⟨alts, .inr (.inr hmem)⟩
    · rintro ⟨alts, ⟨rfl, rfl, -⟩ | hmem | hmem⟩
      · exact .inl ⟨rfl, rfl⟩
      · exact absurd (hcontinuations _ hmem) Bool.false_ne_true
      · exact .inr ⟨alts, hmem⟩

/-- The rules come in the order of their first lines. -/
theorem pairwise_line (h : MakesUp lines rules) (hlines : lines.Pairwise (·.number < ·.number)) :
    rules.Pairwise (·.line < ·.line) := by
  induction h with
  | nil => exact .nil
  | @rule number lhs alts continuations lines rules hcontinuations hrest ih =>
    obtain ⟨hfirst, hmore⟩ := List.pairwise_cons.mp hlines
    obtain ⟨-, hbehind, -⟩ := List.pairwise_append.mp hmore
    refine List.pairwise_cons.mpr ⟨fun rule hrule => ?_, ih hbehind⟩
    obtain ⟨alts', hhead⟩ := hrest.exists_rule_iff.mp ⟨rule, hrule, rfl, rfl⟩
    exact hfirst _ (List.mem_append_right _ hhead)

/-- What is made up from lines that were read has no fault by itself. -/
theorem shapeFault?_eq_none (h : MakesUp lines rules)
    (hlines : ∀ line ∈ lines, ∃ text, Says text line.content) :
    ∀ rule ∈ rules, Builder.shapeFault? rule.lhs rule.alternatives = none := by
  induction h with
  | nil => exact fun _ hrule => nomatch hrule
  | @rule number lhs alts continuations lines rules hcontinuations hrest ih =>
    obtain ⟨⟨text, hsaid⟩, hmore⟩ := List.forall_mem_cons.mp hlines
    obtain ⟨hfollowing, hbehind⟩ := List.forall_mem_append.mp hmore
    refine List.forall_mem_cons.mpr ⟨?_, ih hbehind⟩
    obtain ⟨hne, halts⟩ := hsaid.isWellFormed
    refine Builder.shapeFault?_eq_none_iff_isWellFormed.mpr
      ⟨hsaid.isNonterminal, List.append_ne_nil_of_left_ne_nil hne _, ?_⟩
    refine List.forall_mem_append.mpr ⟨halts, List.forall_mem_flatMap.mpr fun line hline => ?_⟩
    obtain ⟨text', hsaid'⟩ := hfollowing line hline
    exact hsaid'.isWellFormed.2

end MakesUp

/-! ## Lines that continue no rule -/

/-- Gathering fails with one error for each continuation before the first head line, if there are
any. -/
theorem gatherRules_eq_error_iff {lines : List NumberedLine} {errors : List ReadError} :
    gatherRules file lines = .error errors ↔
      errors ≠ [] ∧ errors = (lines.takeWhile (·.content.isContinuation)).map
        fun line => ⟨.atLine file line.number, .danglingAlternative⟩ := by
  unfold gatherRules
  simp only [List.isEmpty_iff]
  split
  · rename_i hnone
    simp [hnone]
  · rename_i hsome
    rw [Except.error.injEq]
    exact ⟨fun h => ⟨h ▸ mt List.map_eq_nil_iff.mp hsome, h.symm⟩, fun h => h.2.symm⟩

/-- Of lines in order, those before the first one without a property are those up to which all have
it. -/
theorem mem_takeWhile_iff {lines : List NumberedLine} (h : lines.Pairwise (·.number < ·.number))
    {p : NumberedLine → Bool} {line : NumberedLine} :
    line ∈ lines.takeWhile p ↔
      line ∈ lines ∧ ∀ other ∈ lines, other.number ≤ line.number → p other = true := by
  induction lines with
  | nil => simp
  | cons first rest ih =>
    obtain ⟨hfirst, hrest⟩ := List.pairwise_cons.mp h
    rw [List.takeWhile_cons]
    cases hp : p first with
    | true =>
      rw [if_pos rfl, List.mem_cons, List.mem_cons, ih hrest, List.forall_mem_cons]
      constructor
      · rintro (rfl | ⟨hmem, hbefore⟩)
        · refine ⟨.inl rfl, fun _ => hp, fun other hother hle => ?_⟩
          exact absurd hle (Nat.not_le_of_lt (hfirst other hother))
        · exact ⟨.inr hmem, fun _ => hp, hbefore⟩
      · rintro ⟨rfl | hmem, -, hbefore⟩
        · exact .inl rfl
        · exact .inr ⟨hmem, hbefore⟩
    -- the first line stops the taking, and it comes before any other line
    | false =>
      simp only [Bool.false_eq_true, if_false, List.not_mem_nil, false_iff, not_and]
      intro hmem hall
      have hle : first.number ≤ line.number := by
        rcases List.mem_cons.mp hmem with rfl | hmem
        · exact Nat.le_refl _
        · exact Nat.le_of_lt (hfirst line hmem)
      rw [hall first List.mem_cons_self hle] at hp
      exact Bool.noConfusion hp

/-! ## Rules in turn -/

/-- Whether a rule among others is refused, with this fault, once all that come before it have been
offered to a builder. -/
def Refuses (b : Builder) (rules : List WrittenRule) (rule : WrittenRule) (fault : GrammarError) :
    Prop :=
  ∃ before after, rules = before ++ rule :: after ∧
    ((before.map WrittenRule.call).foldl Builder.offer b).addRule rule.lhs rule.alternatives =
      .error fault

section Rules

variable {b : Builder} {rule : WrittenRule} {rules : List WrittenRule} {fault : GrammarError}

/-- What is refused is one of the rules. -/
theorem Refuses.mem (h : Refuses b rules rule fault) : rule ∈ rules := by
  obtain ⟨before, after, rfl, -⟩ := h
  simp

/-- A refused rule is the first one, or it is refused after the first was offered. -/
theorem refuses_cons_iff {first : WrittenRule} :
    Refuses b (first :: rules) rule fault ↔
      first = rule ∧ b.addRule first.lhs first.alternatives = .error fault ∨
        Refuses (b.offer first.call) rules rule fault := by
  constructor
  · rintro ⟨before, after, hsplit, hfault⟩
    cases before with
    | nil =>
      obtain ⟨rfl, rfl⟩ := List.cons.inj hsplit
      exact .inl ⟨rfl, hfault⟩
    | cons r before =>
      obtain ⟨rfl, rfl⟩ := List.cons.inj hsplit
      exact .inr ⟨before, after, rfl, hfault⟩
  · rintro (⟨rfl, hfault⟩ | ⟨before, after, rfl, hfault⟩)
    · exact ⟨[], rules, rfl, hfault⟩
    · exact ⟨first :: before, after, rfl, hfault⟩

/-- Adding rules leaves the builder that offering them leaves. -/
theorem fst_addWritten : (addWritten file b rules).1 =
    (rules.map WrittenRule.call).foldl Builder.offer b := by
  induction rules generalizing b with
  | nil => rfl
  | cons rule rest ih =>
    rw [addWritten_cons, List.map_cons, List.foldl_cons, ← ih]
    cases b.addRule rule.lhs rule.alternatives <;> rfl

/-- Each refusal is reported at the line of the refused rule, and nothing else is. -/
theorem mem_snd_addWritten {e : ReadError} :
    e ∈ (addWritten file b rules).2 ↔
      ∃ rule fault, Refuses b rules rule fault ∧ e = ⟨.atLine file rule.line, .grammar fault⟩ := by
  induction rules generalizing b with
  | nil => simp [addWritten, Refuses]
  | cons first rest ih =>
    simp only [refuses_cons_iff]
    rw [addWritten_cons]
    cases b.addRule first.lhs first.alternatives with
    | ok next => simp [ih]
    | error fault => simp [ih, or_and_right, exists_or]

/-- The refusals of rules in order come in order. -/
theorem pairwise_snd_addWritten (h : rules.Pairwise (·.line < ·.line)) :
    (addWritten file b rules).2.Pairwise (·.location.line < ·.location.line) := by
  induction rules generalizing b with
  | nil => exact .nil
  | cons first rest ih =>
    obtain ⟨hfirst, hrest⟩ := List.pairwise_cons.mp h
    rw [addWritten_cons]
    cases b.addRule first.lhs first.alternatives with
    | ok next => exact ih hrest
    | error fault =>
      refine List.pairwise_cons.mpr ⟨fun e he => ?_, ih hrest⟩
      obtain ⟨rule, fault', hrefuses, rfl⟩ := mem_snd_addWritten.mp he
      exact hfirst rule hrefuses.mem

/-- A rule without a fault by itself is refused over the end marker. -/
theorem Refuses.fault_eq (h : Refuses b rules rule fault)
    (hshape : Builder.shapeFault? rule.lhs rule.alternatives = none) :
    fault = .partialEndMarker rule.lhs ∨ ∃ goal, fault = .goalConflict goal rule.lhs := by
  obtain ⟨before, after, -, hfault⟩ := h
  have hgoal := (Builder.addRule_eq_error_iff.mp hfault).resolve_left (by simp [hshape])
  exact Builder.fault_of_checkGoal hgoal.2

/-- Assembling fails with the refusals if there are any, and else with what keeps the rules from
being a grammar. -/
theorem assemble_eq_error_iff {errors : List ReadError} :
    assemble file rules = .error errors ↔
      (addWritten file ∅ rules).2 ≠ [] ∧ errors = (addWritten file ∅ rules).2 ∨
        (addWritten file ∅ rules).2 = [] ∧
          ∃ faults, (Builder.afterOffers (rules.map WrittenRule.call)).build = .error faults ∧
            errors = faults.map fun fault => ⟨faultLocation file rules fault, .grammar fault⟩ := by
  have hbuilder : Builder.afterOffers (rules.map WrittenRule.call) = (addWritten file ∅ rules).1 :=
    fst_addWritten.symm
  rw [hbuilder]
  unfold assemble
  cases addWritten file ∅ rules with
  | mk builder refusals =>
    cases refusals with
    | nil => cases hbuild : builder.build <;> simp [Except.mapError, hbuild, eq_comm]
    | cons e more => simp [eq_comm]

/-- Rules are accepted if none of them is refused. -/
theorem accepts_of_snd_addWritten (h : (addWritten file ∅ rules).2 = []) :
    Builder.Accepts (rules.map WrittenRule.call) :=
  ⟨_, (addWritten_eq_iff file).mp (Prod.ext rfl h)⟩

/-! ## Accepted rules together -/

/-- The alternatives that rules give to a nonterminal, one rule after the other. -/
def alternativesOf (rules : List WrittenRule) (lhs : Symbol) : List Alternative :=
  (rules.filter (·.lhs = lhs)).flatMap (·.alternatives)

/-- The alternatives of a nonterminal are those in the calls for it. -/
theorem alternativesOf_eq (rules : List WrittenRule) (lhs : Symbol) :
    ((rules.map WrittenRule.call).filter (·.1 = lhs)).flatMap (·.2) = alternativesOf rules lhs := by
  rw [List.filter_map, List.flatMap_map]
  rfl

/-- What a builder holds of accepted rules is what is written. -/
theorem alternatives_afterOffers (h : Builder.Accepts (rules.map WrittenRule.call))
    (lhs : Symbol) :
    (Builder.afterOffers (rules.map WrittenRule.call)).table.alternatives lhs =
      alternativesOf rules lhs := by
  rw [Builder.alternatives_afterOffers h, alternativesOf_eq]

/-- After rules that are all accepted, a nonterminal has the alternatives that its rules give it. -/
theorem mem_alternatives_afterOffers (h : Builder.Accepts (rules.map WrittenRule.call))
    {alt : Alternative} :
    alt ∈ (Builder.afterOffers (rules.map WrittenRule.call)).table.alternatives lhs ↔
      ∃ rule ∈ rules, rule.lhs = lhs ∧ alt ∈ rule.alternatives := by
  rw [alternatives_afterOffers h, alternativesOf, List.mem_flatMap]
  simp only [List.mem_filter, decide_eq_true_eq, and_assoc]

/-- After rules that are all accepted, the table has the nonterminals on their left. -/
theorem contains_afterOffers_iff (h : Builder.Accepts (rules.map WrittenRule.call)) :
    (Builder.afterOffers (rules.map WrittenRule.call)).table.contains lhs = true ↔
      ∃ rule ∈ rules, rule.lhs = lhs := by
  constructor
  · intro hcontains
    obtain ⟨alt, halt⟩ := (Builder.checked_afterOffers _).contains_iff.mp hcontains
    obtain ⟨rule, hrule, hlhs, -⟩ := (mem_alternatives_afterOffers h).mp halt
    exact ⟨rule, hrule, hlhs⟩
  · rintro ⟨rule, hrule, hlhs⟩
    have hne := (Builder.accepts_iff.mp h).1 rule.call (List.mem_map_of_mem hrule)
    obtain ⟨alt, halt⟩ := List.exists_mem_of_ne_nil _ hne
    exact RuleTable.contains_of_mem_alternatives
      ((mem_alternatives_afterOffers h).mpr ⟨rule, hrule, hlhs, halt⟩)

/-- Where a nonterminal is first defined is the first line of a rule for it. -/
theorem definedAt?_eq_some_iff {number : Nat} (h : rules.Pairwise (·.line < ·.line)) :
    definedAt? rules lhs = some number ↔
      (∃ rule ∈ rules, rule.lhs = lhs ∧ rule.line = number) ∧
        ∀ rule ∈ rules, rule.lhs = lhs → number ≤ rule.line := by
  induction rules with
  | nil => simp [definedAt?]
  | cons first rest ih =>
    obtain ⟨hfirst, hrest⟩ := List.pairwise_cons.mp h
    rw [List.exists_mem_cons_iff, List.forall_mem_cons]
    by_cases hlhs : first.lhs = lhs
    · -- the first rule of the nonterminal stands before all others
      have hfound : definedAt? (first :: rest) lhs = some first.line := by simp [definedAt?, hlhs]
      rw [hfound, Option.some.injEq]
      constructor
      · rintro rfl
        exact ⟨.inl ⟨hlhs, rfl⟩, fun _ => Nat.le_refl _,
          fun rule hrule _ => Nat.le_of_lt (hfirst rule hrule)⟩
      · rintro ⟨⟨-, hline⟩ | ⟨rule, hrule, -, rfl⟩, hle, -⟩
        · exact hline
        · exact absurd (hle hlhs) (Nat.not_le_of_lt (hfirst rule hrule))
    · have hskipped : definedAt? (first :: rest) lhs = definedAt? rest lhs := by
        simp [definedAt?, hlhs]
      rw [hskipped, ih hrest]
      simp [hlhs]

end Rules

/-! ## The stages in turn -/

/-- The errors of a file are those of the first stage that has any. -/
theorem read_eq_error_iff {lines : List (Except FileError String)} {errors : List ReadError} :
    read file lines = .error errors ↔
      readLines file lines = .error errors ∨
        ∃ written, readLines file lines = .ok written ∧
          (gatherRules file written = .error errors ∨
            ∃ rules, gatherRules file written = .ok rules ∧
              assemble file rules = .error errors) := by
  unfold read
  simp only [bind_eq_error_iff]

end Source

end Lookahead
