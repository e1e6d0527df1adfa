import Lookahead.Grammar.Builder
import Lookahead.Proofs.Results

/-!
# What every built grammar satisfies

A grammar is built by offering rules to a new builder, some of which it may refuse, and finishing
with `Builder.build`. A call is one step (`Builder.run_add`): a rule that is refused leaves the
builder as it was, since no check comes after a write. `Builder.Coherent` is what each accepted rule
preserves: goal and symbol sets say of the rule table what they should. `Grammar.WellFormed` is what
this leaves of a finished grammar (`Built.wellFormed`), and all that the theory of derivations needs
to know of it.
-/

namespace Lookahead

/-! ## The table after a rule is added -/

/-- Writing a rule puts its alternatives behind those that the nonterminal has. -/
theorem RuleTable.alternatives_alter (table : RuleTable) (lhs key : Symbol)
    (alts : List Alternative) :
    RuleTable.alternatives (table.alter lhs fun present => present.getD [] ++ alts) key =
      if key = lhs then table.alternatives lhs ++ alts else table.alternatives key := by
  unfold RuleTable.alternatives SymbolMap.getD
  rw [SymbolMap.get?_alter]
  split <;> rfl

/-- A nonterminal that is not in the table has no alternatives. -/
theorem RuleTable.alternatives_eq_nil {table : RuleTable} {lhs : Symbol}
    (h : table.contains lhs = false) : table.alternatives lhs = [] := by
  unfold SymbolMap.contains at h
  unfold RuleTable.alternatives SymbolMap.getD
  rw [Option.isSome_eq_false_iff, Option.isNone_iff_eq_none] at h
  rw [h]
  rfl

namespace Builder

/-! ## Adding a rule in one step -/

/-- The first fault that a rule has by itself, whatever was added before it. -/
def shapeFault? (lhs : Symbol) (alts : List Alternative) : Option GrammarError :=
  if !lhs.isNonterminal then some (.notANonterminal lhs)
  else if alts.isEmpty then some (.noAlternatives lhs)
  else if alts.any (·.isEmpty) then some (.emptyAlternative lhs)
  else if alts.any Alternative.mixesLambda then some (.misplacedLambda lhs)
  else if alts.any Alternative.endsEarly then some (.misplacedEndMarker lhs)
  else none

/-- The goal once `lhs` has been given further alternatives. -/
def goalWith (b : Builder) (lhs : Symbol) (alts : List Alternative) :
    Except GrammarError (Option Symbol) :=
  (b.checkGoal lhs alts).map fun isGoal => if isGoal then some lhs else b.goal

/-- The builder with further alternatives for `lhs` and the given goal. -/
def extend (b : Builder) (lhs : Symbol) (alts : List Alternative) (goal : Option Symbol) :
    Builder where
  goal := goal
  terminals := b.terminals.insertAll (alts.flatten.filter Symbol.isTerminal)
  nonterminals := (b.nonterminals.insertAll (alts.flatten.filter Symbol.isNonterminal)).insert lhs
  table := b.table.alter lhs fun present => present.getD [] ++ alts

section Run

variable {b next : Builder} {lhs : Symbol} {alts : List Alternative} {fault : GrammarError}

/-- A check that fails ends the run with the builder as it is. -/
theorem run_refuseIf_bind {condition : Bool} {rest : Unit → BuilderM Unit} :
    (refuseIf condition fault >>= rest).run b =
      if condition then .error fault b else (rest ()).run b := by
  cases condition <;> rfl

/-- So does a question that is answered with a fault. -/
theorem run_ofExcept_bind {α : Type} {answer : Except GrammarError α} {rest : α → BuilderM Unit} :
    (ofExcept answer >>= rest).run b =
      match answer with
      | .error fault => .error fault b
      | .ok a => (rest a).run b := by
  cases answer <;> rfl

/-- A rule with a fault is refused before anything is written; any other rule extends the
builder. -/
theorem run_add (b : Builder) (lhs : Symbol) (alts : List Alternative) :
    (add lhs alts).run b =
      match shapeFault? lhs alts with
      | some fault => .error fault b
      | none =>
        match b.goalWith lhs alts with
        | .error fault => .error fault b
        | .ok goal => .ok () (b.extend lhs alts goal) := by
  unfold add shapeFault?
  simp only [run_refuseIf_bind]
  -- the rule by itself, one check after the other
  iterate 5
    split
    · rfl
  show EStateM.run (ofExcept (b.checkGoal lhs alts) >>= _) b = _
  rw [run_ofExcept_bind, goalWith]
  cases b.checkGoal lhs alts with
  | error fault => rfl
  | ok isGoal => cases isGoal <;> rfl

/-- A refused rule leaves the builder as it was. -/
theorem run_add_eq_error_iff :
    (add lhs alts).run b = .error fault next ↔ b.addRule lhs alts = .error fault ∧ next = b := by
  unfold addRule
  rw [run_add]
  split
  · simp [eq_comm]
  · split <;> simp [eq_comm]

/-- A rule is accepted exactly if its call succeeds, and both leave the same builder. -/
theorem run_add_eq_ok_iff :
    (add lhs alts).run b = .ok () next ↔ b.addRule lhs alts = .ok next := by
  unfold addRule
  cases (add lhs alts).run b <;> simp

/-- An accepted rule is in the builder that the call leaves. -/
theorem offer_of_addRule (call : Symbol × List Alternative)
    (h : b.addRule call.1 call.2 = .ok next) : b.offer call = next := by
  rw [offer, run_add_eq_ok_iff.mpr h]

/-- A refused call may as well not have been made. -/
theorem offer_of_addRule_eq_error (call : Symbol × List Alternative)
    (h : b.addRule call.1 call.2 = .error fault) : b.offer call = b := by
  rw [offer, run_add_eq_error_iff.mpr ⟨h, rfl⟩]

end Run

/-! ## Alternatives of an extended builder -/

/-- An alternative after the extension was there before or is one of those added. -/
theorem mem_alternatives_extend {b : Builder} {lhs key : Symbol} {alts : List Alternative}
    {goal : Option Symbol} {alt : Alternative} :
    alt ∈ (b.extend lhs alts goal).table.alternatives key ↔
      alt ∈ b.table.alternatives key ∨ key = lhs ∧ alt ∈ alts := by
  show alt ∈ RuleTable.alternatives (b.table.alter lhs _) key ↔ _
  rw [RuleTable.alternatives_alter]
  split
  · rename_i hkey
    rw [hkey, List.mem_append]
    simp
  · simp_all

/-! ## When a rule is accepted -/

/-- What a rule has to satisfy by itself. -/
theorem shapeFault?_eq_none_iff {lhs : Symbol} {alts : List Alternative} :
    shapeFault? lhs alts = none ↔
      lhs.isNonterminal = true ∧ alts ≠ [] ∧ (∀ alt ∈ alts, alt ≠ []) ∧
        (∀ alt ∈ alts, alt.mixesLambda = false) ∧ ∀ alt ∈ alts, alt.endsEarly = false := by
  unfold shapeFault?
  simp only [ne_eq, List.isEmpty_iff]
  grind

/-- Alternatives agree with the goal in two ways: either all of them end the input and their
nonterminal is the goal or can become it, or none of them does and the goal is another one. -/
theorem checkGoal_cases {b : Builder} {lhs : Symbol} {alts : List Alternative} {isGoal : Bool}
    (h : b.checkGoal lhs alts = .ok isGoal) :
    ((∀ alt ∈ alts, alt.endsInput = true) ∧ isGoal = true ∧
        (b.goal = some lhs ∨ b.goal = none ∧ b.table.contains lhs = false)) ∨
      ((∀ alt ∈ alts, alt.endsInput = false) ∧ isGoal = false ∧ b.goal ≠ some lhs) := by
  unfold checkGoal at h
  split at h
  · -- some alternative ends the input, so all of them have to
    left
    split at h
    · simp at h
    · rename_i hall
      have hall : ∀ alt ∈ alts, alt.endsInput = true := by simpa using hall
      split at h
      · rename_i goal' hgoal
        split at h
        · rename_i heq
          obtain rfl := Except.ok.inj h
          exact ⟨hall, rfl, .inl (heq ▸ hgoal)⟩
        · simp at h
      · -- a goal is new only if the nonterminal had no other rules before
        rename_i hgoal
        split at h
        · simp at h
        · rename_i hcontains
          obtain rfl := Except.ok.inj h
          exact ⟨hall, rfl, .inr ⟨hgoal, by simpa using hcontains⟩⟩
  · rename_i hany
    right
    split at h
    · simp at h
    · rename_i hgoal
      obtain rfl := Except.ok.inj h
      exact ⟨by simpa using hany, rfl, hgoal⟩

/-- The goal after a rule: either all alternatives added end the input and their nonterminal is the
goal, or none of them does and the goal stays what it was. -/
theorem goalWith_cases {b : Builder} {lhs : Symbol} {alts : List Alternative}
    {goal : Option Symbol} (h : b.goalWith lhs alts = .ok goal) :
    ((∀ alt ∈ alts, alt.endsInput = true) ∧ goal = some lhs ∧
        (b.goal = some lhs ∨ b.goal = none ∧ b.table.contains lhs = false)) ∨
      ((∀ alt ∈ alts, alt.endsInput = false) ∧ goal = b.goal ∧ b.goal ≠ some lhs) := by
  obtain ⟨isGoal, hisGoal, rfl⟩ := map_eq_ok_iff.mp h
  rcases checkGoal_cases hisGoal with ⟨hall, rfl, hgoal⟩ | ⟨hnone, rfl, hgoal⟩
  · exact .inl ⟨hall, rfl, hgoal⟩
  · exact .inr ⟨hnone, rfl, hgoal⟩

/-- Rules that disagree with the goal do so over the end marker. -/
theorem fault_of_checkGoal {b : Builder} {lhs : Symbol} {alts : List Alternative}
    {fault : GrammarError} (h : b.checkGoal lhs alts = .error fault) :
    fault = .partialEndMarker lhs ∨ ∃ goal, fault = .goalConflict goal lhs := by
  unfold checkGoal at h
  grind

/-- A rule is accepted if it has no fault by itself and agrees with the goal, and then the builder
is extended by it. -/
theorem addRule_eq_ok_iff {b b' : Builder} {lhs : Symbol} {alts : List Alternative} :
    b.addRule lhs alts = .ok b' ↔
      shapeFault? lhs alts = none ∧
        ∃ goal, b.goalWith lhs alts = .ok goal ∧ b' = b.extend lhs alts goal := by
  rw [← run_add_eq_ok_iff, run_add]
  split
  · simp_all
  · rename_i hshape
    cases hgoal : b.goalWith lhs alts with
    | error fault => simp
    | ok goal => simp [hshape, eq_comm]

/-- A rule is refused for a fault that it has by itself, and otherwise for disagreeing with the
goal. -/
theorem addRule_eq_error_iff {b : Builder} {lhs : Symbol} {alts : List Alternative}
    {fault : GrammarError} :
    b.addRule lhs alts = .error fault ↔
      shapeFault? lhs alts = some fault ∨
        shapeFault? lhs alts = none ∧ b.checkGoal lhs alts = .error fault := by
  unfold addRule
  rw [run_add]
  cases shapeFault? lhs alts with
  | some found => simp
  | none =>
    rw [goalWith]
    cases b.checkGoal lhs alts <;> simp [Except.map]

/-- A builder with its goal and its symbol sets in step with its rule table. -/
structure Coherent (b : Builder) : Prop where
  /-- Only nonterminals have rules. -/
  lhs_isNonterminal : ∀ {lhs alt}, alt ∈ b.table.alternatives lhs → lhs.isNonterminal = true
  /-- The terminals are those in use. -/
  mem_terminals : ∀ a, a ∈ b.terminals ↔
    a.isTerminal = true ∧ ∃ lhs, ∃ alt ∈ b.table.alternatives lhs, a ∈ alt
  /-- The nonterminals are those that have rules or are in use. -/
  mem_nonterminals : ∀ N, N ∈ b.nonterminals ↔
    N.isNonterminal = true ∧
      ((∃ alt, alt ∈ b.table.alternatives N) ∨ ∃ lhs, ∃ alt ∈ b.table.alternatives lhs, N ∈ alt)
  /-- The goal has rules. -/
  goal_hasRule : ∀ {goal}, b.goal = some goal → ∃ alt, alt ∈ b.table.alternatives goal
  /-- Every alternative of the goal ends the input. -/
  goal_endsInput : ∀ {goal}, b.goal = some goal →
    ∀ alt ∈ b.table.alternatives goal, alt.endsInput = true

theorem alternatives_empty (lhs : Symbol) : (∅ : Builder).table.alternatives lhs = [] := rfl

/-- The builder without rules is coherent. -/
theorem coherent_empty : (∅ : Builder).Coherent where
  lhs_isNonterminal h := by simp [alternatives_empty] at h
  mem_terminals a := by
    show a ∈ (∅ : SymbolSet) ↔ _
    simp [alternatives_empty]
  mem_nonterminals N := by
    show N ∈ (∅ : SymbolSet) ↔ _
    simp [alternatives_empty]
  goal_hasRule h := nomatch (show none = _ from h)
  goal_endsInput h := nomatch (show none = _ from h)

/-- An accepted rule keeps the builder coherent. -/
theorem Coherent.addRule {b b' : Builder} (hb : b.Coherent) {lhs : Symbol}
    {alts : List Alternative} (h : b.addRule lhs alts = .ok b') : b'.Coherent := by
  obtain ⟨hshape, goal, hgoal, rfl⟩ := addRule_eq_ok_iff.mp h
  obtain ⟨hlhs, hne, -⟩ := shapeFault?_eq_none_iff.mp hshape
  obtain ⟨first, hfirst⟩ := List.exists_mem_of_ne_nil alts hne
  refine ⟨?_, ?_, ?_, ?_, ?_⟩
  · -- the only new left-hand side was checked
    intro key alt halt
    rcases mem_alternatives_extend.mp halt with halt | ⟨rfl, -⟩
    · exact hb.lhs_isNonterminal halt
    · exact hlhs
  · intro a
    show a ∈ b.terminals.insertAll _ ↔ _
    simp only [SymbolSet.mem_insertAll, List.mem_filter, List.mem_flatten, hb.mem_terminals,
      mem_alternatives_extend]
    constructor
    · rintro (⟨⟨alt, halt, ha⟩, hterminal⟩ | ⟨hterminal, key, alt, halt, ha⟩)
      · exact ⟨hterminal, lhs, alt, .inr ⟨rfl, halt⟩, ha⟩
      · exact ⟨hterminal, key, alt, .inl halt, ha⟩
    · rintro ⟨hterminal, key, alt, halt | ⟨rfl, halt⟩, ha⟩
      · exact .inr ⟨hterminal, key, alt, halt, ha⟩
      · exact .inl ⟨⟨alt, halt, ha⟩, hterminal⟩
  · -- `lhs` is a nonterminal of the new table since it has a rule there
    intro N
    show N ∈ (b.nonterminals.insertAll _).insert lhs ↔ _
    simp only [SymbolSet.mem_insert, SymbolSet.mem_insertAll, List.mem_filter, List.mem_flatten,
      hb.mem_nonterminals, mem_alternatives_extend]
    constructor
    · rintro (rfl | ⟨⟨alt, halt, hN⟩, hnonterminal⟩ |
        ⟨hnonterminal, ⟨alt, halt⟩ | ⟨key, alt, halt, hN⟩⟩)
      · exact ⟨hlhs, .inl ⟨first, .inr ⟨rfl, hfirst⟩⟩⟩
      · exact ⟨hnonterminal, .inr ⟨lhs, alt, .inr ⟨rfl, halt⟩, hN⟩⟩
      · exact ⟨hnonterminal, .inl ⟨alt, .inl halt⟩⟩
      · exact ⟨hnonterminal, .inr ⟨key, alt, .inl halt, hN⟩⟩
    · rintro ⟨hnonterminal, ⟨alt, halt | ⟨rfl, -⟩⟩ | ⟨key, alt, halt | ⟨rfl, halt⟩, hN⟩⟩
      · exact .inr (.inr ⟨hnonterminal, .inl ⟨alt, halt⟩⟩)
      · exact .inl rfl
      · exact .inr (.inr ⟨hnonterminal, .inr ⟨key, alt, halt, hN⟩⟩)
      · exact .inr (.inl ⟨⟨alt, halt, hN⟩, hnonterminal⟩)
  · intro N hN
    rcases goalWith_cases hgoal with ⟨-, rfl, -⟩ | ⟨-, rfl, -⟩
    · obtain rfl := Option.some.inj hN
      exact ⟨first, mem_alternatives_extend.mpr (.inr ⟨rfl, hfirst⟩)⟩
    · obtain ⟨alt, halt⟩ := hb.goal_hasRule hN
      exact ⟨alt, mem_alternatives_extend.mpr (.inl halt)⟩
  · intro N hN alt halt
    rcases goalWith_cases hgoal with ⟨hends, rfl, hbefore⟩ | ⟨-, rfl, hother⟩
    · -- what `lhs` had before ends the input as well: it was the goal or had nothing
      obtain rfl := Option.some.inj hN
      rcases mem_alternatives_extend.mp halt with halt | ⟨-, halt⟩
      · rcases hbefore with hbefore | ⟨-, habsent⟩
        · exact hb.goal_endsInput hbefore alt halt
        · rw [RuleTable.alternatives_eq_nil habsent] at halt
          exact absurd halt List.not_mem_nil
      · exact hends alt halt
    · rcases mem_alternatives_extend.mp halt with halt | ⟨rfl, -⟩
      · exact hb.goal_endsInput hN alt halt
      · exact absurd hN hother

/-! ## Runs of calls -/

/-- The builder after any sequence of offered rules, beginning without rules. -/
def afterOffers (calls : List (Symbol × List Alternative)) : Builder := calls.foldl offer ∅

/-- Offering a rule keeps a builder coherent. -/
theorem Coherent.offer {b : Builder} (hb : b.Coherent) (call : Symbol × List Alternative) :
    (b.offer call).Coherent := by
  cases hadd : b.addRule call.1 call.2 with
  | ok next => exact offer_of_addRule call hadd ▸ hb.addRule hadd
  | error fault => exact (offer_of_addRule_eq_error call hadd).symm ▸ hb

/-- Every run of calls leaves a coherent builder. -/
theorem coherent_afterOffers (calls : List (Symbol × List Alternative)) :
    (afterOffers calls).Coherent :=
  List.foldlRecOn calls Builder.offer coherent_empty fun _ hb call _ => hb.offer call

end Builder

/-! ## Finished grammars -/

/-- What the analysis relies on in a grammar. -/
structure Grammar.WellFormed (g : Grammar) : Prop where
  /-- The goal is one of the nonterminals. -/
  goal_mem : g.goal ∈ g.nonterminals
  /-- Every alternative of the goal ends the input. -/
  goal_endsInput : ∀ alt ∈ g.table.alternatives g.goal, alt.endsInput = true
  /-- Only nonterminals of the grammar have rules. -/
  lhs_mem : ∀ {lhs alt}, alt ∈ g.table.alternatives lhs → lhs ∈ g.nonterminals
  /-- The nonterminals in use are nonterminals of the grammar. -/
  mem_nonterminals_of_mem : ∀ {lhs alt}, alt ∈ g.table.alternatives lhs → ∀ N ∈ alt,
    N.isNonterminal = true → N ∈ g.nonterminals
  /-- Its nonterminals are nonterminals by their text. -/
  isNonterminal_of_mem : ∀ N ∈ g.nonterminals, N.isNonterminal = true
  /-- The terminals are those in use. -/
  mem_terminals : ∀ a, a ∈ g.terminals ↔
    a.isTerminal = true ∧ ∃ lhs, ∃ alt ∈ g.table.alternatives lhs, a ∈ alt
  /-- The index is that of the rule table. -/
  occurrences_eq : g.occurrences = g.table.occurrences

/-- A grammar that some run of calls builds. -/
def Grammar.Built (g : Grammar) : Prop := ∃ calls, (Builder.afterOffers calls).build = .ok g

/-- The grammar that rules offered in turn build, if they build one. -/
def Grammar.ofRules? (rules : List (Symbol × List Alternative)) : Option Grammar :=
  (Builder.afterOffers rules).build.toOption

/-- A grammar of rules is what building gives after the calls for them. -/
theorem Grammar.build_of_ofRules? {rules : List (Symbol × List Alternative)} {g : Grammar}
    (h : Grammar.ofRules? rules = some g) : (Builder.afterOffers rules).build = .ok g := by
  unfold Grammar.ofRules? at h
  cases hbuild : (Builder.afterOffers rules).build with
  | error faults =>
    rw [hbuild] at h
    simp [Except.toOption] at h
  | ok built =>
    rw [hbuild] at h
    exact congrArg Except.ok (Option.some.inj h)

/-- A grammar of rules is built. -/
theorem Grammar.built_of_ofRules? {rules : List (Symbol × List Alternative)} {g : Grammar}
    (h : Grammar.ofRules? rules = some g) : g.Built :=
  ⟨rules, Grammar.build_of_ofRules? h⟩

/-- A built grammar is the builder's content, with the index of its rules. -/
theorem Builder.build_eq_ok {b : Builder} {g : Grammar} (h : b.build = .ok g) :
    b.goal = some g.goal ∧ g.terminals = b.terminals ∧ g.nonterminals = b.nonterminals ∧
      g.table = b.table ∧ g.occurrences = b.table.occurrences := by
  unfold Builder.build at h
  split at h
  · rename_i goal hgoal
    split at h
    · obtain rfl := Except.ok.inj h
      exact ⟨hgoal, rfl, rfl, rfl, rfl⟩
    · simp at h
  · simp at h

/-- Built grammars are well-formed. -/
theorem Grammar.Built.wellFormed {g : Grammar} (h : g.Built) : g.WellFormed := by
  obtain ⟨calls, hbuild⟩ := h
  have hb := Builder.coherent_afterOffers calls
  obtain ⟨hgoal, hterminals, hnonterminals, htable, hoccurrences⟩ := Builder.build_eq_ok hbuild
  -- the builder notes the nonterminals of every rule that it takes
  have hlhs : ∀ {lhs alt}, alt ∈ g.table.alternatives lhs → lhs ∈ g.nonterminals := by
    intro lhs alt halt
    rw [htable] at halt
    rw [hnonterminals, hb.mem_nonterminals]
    exact ⟨hb.lhs_isNonterminal halt, .inl ⟨alt, halt⟩⟩
  refine ⟨?_, ?_, hlhs, ?_, ?_, ?_, ?_⟩
  · obtain ⟨alt, halt⟩ := hb.goal_hasRule hgoal
    exact hlhs (htable ▸ halt)
  · rw [htable]
    exact hb.goal_endsInput hgoal
  · intro lhs alt halt N hN hnonterminal
    rw [htable] at halt
    rw [hnonterminals, hb.mem_nonterminals]
    exact ⟨hnonterminal, .inr ⟨lhs, alt, halt, hN⟩⟩
  · intro N hN
    rw [hnonterminals, hb.mem_nonterminals] at hN
    exact hN.1
  · rw [hterminals, htable]
    exact hb.mem_terminals
  · rw [hoccurrences, htable]

end Lookahead
