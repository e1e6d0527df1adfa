import Lookahead.Proofs.Faults

/-!
# Which rules a builder accepts

A builder looks at its goal and at the rule it is offered, never at the alternatives that it holds.
Still it accepts exactly the rules that keep its table well formed (`Checked.exists_addRule_iff`):
its goal is the one nonterminal whose alternatives end the input (`Checked.goal_eq_some_iff`), so it
stands for all that was accepted before. Hence a new builder accepts a list of rules exactly if one
well-formed table has them all (`Builder.accepts_iff`). `Builder.Consistent` is what every run of
calls leaves, refused calls included.
-/

namespace Lookahead

/-- A nonterminal with an alternative is in the table. -/
theorem RuleTable.contains_of_mem_alternatives {table : RuleTable} {lhs : Symbol}
    {alt : Alternative} (h : alt ∈ table.alternatives lhs) : table.contains lhs = true := by
  cases hcontains : table.contains lhs with
  | true => rfl
  | false => simp [RuleTable.alternatives_eq_nil hcontains] at h

/-! ## Well-formed tables -/

/-- Whether an alternative can stand in a table: it is not empty, has `lambda` alone and the end
marker last. -/
structure Alternative.IsWellFormed (alt : Alternative) : Prop where
  ne_nil : alt ≠ []
  lambda_alone : Symbol.lambda ∈ alt → alt = [Symbol.lambda]
  endMarker_last : ∀ before after, alt = before ++ Symbol.endMarker :: after → after = []

/-- An alternative does not mix `lambda` with other symbols exactly if it has none or is nothing
else. -/
theorem Alternative.mixesLambda_eq_false_iff {alt : Alternative} :
    alt.mixesLambda = false ↔ (Symbol.lambda ∈ alt → alt = [Symbol.lambda]) := by
  have hany : alt.any Symbol.isLambda = true ↔ Symbol.lambda ∈ alt := by
    simp [Symbol.isLambda]
  unfold mixesLambda
  rw [Bool.and_eq_false_imp, decide_eq_true_eq, ← hany]
  match alt with
  | [] => simp
  | [s] => simp [Symbol.isLambda]
  | s :: t :: rest => simp

/-- An alternative does not end early exactly if nothing stands behind an end marker. -/
theorem Alternative.endsEarly_eq_false_iff {alt : Alternative} :
    alt.endsEarly = false ↔
      ∀ before after, alt = before ++ Symbol.endMarker :: after → after = [] := by
  have hany : alt.endsEarly = true ↔ Symbol.endMarker ∈ alt.dropLast := by
    simp [endsEarly, Symbol.isEndMarker]
  rw [← Bool.not_eq_true, hany]
  constructor
  · rintro hnot before after rfl
    by_contra hafter
    rw [List.dropLast_append_of_ne_nil (List.cons_ne_nil _ _),
      List.dropLast_cons_of_ne_nil hafter] at hnot
    simp at hnot
  · intro hlast hmem
    obtain ⟨before, after, hsplit⟩ := List.append_of_mem hmem
    have hne : alt ≠ [] := by
      rintro rfl
      exact absurd hmem List.not_mem_nil
    -- the last symbol of all stands behind the occurrence
    have halt := List.dropLast_append_getLast hne
    rw [hsplit, List.append_assoc, List.cons_append] at halt
    exact absurd (hlast _ _ halt.symm) (List.append_ne_nil_of_right_ne_nil after (by simp))

/-- The checks of an alternative by itself are what well-formedness asks of it. -/
theorem Alternative.isWellFormed_iff {alt : Alternative} :
    alt.IsWellFormed ↔ alt ≠ [] ∧ alt.mixesLambda = false ∧ alt.endsEarly = false := by
  rw [mixesLambda_eq_false_iff, endsEarly_eq_false_iff]
  exact ⟨fun h => ⟨h.ne_nil, h.lambda_alone, h.endMarker_last⟩, fun ⟨h, h', h''⟩ => ⟨h, h', h''⟩⟩

namespace RuleTable

/-- The table with further alternatives for a nonterminal, behind those it has. -/
def append (table : RuleTable) (lhs : Symbol) (alts : List Alternative) : RuleTable :=
  table.alter lhs fun present => present.getD [] ++ alts

/-- Whether a table can be that of a grammar with at most one goal. -/
structure IsWellFormed (table : RuleTable) : Prop where
  /-- Only nonterminals have entries. -/
  isNonterminal : ∀ {lhs}, table.contains lhs = true → lhs.isNonterminal = true
  /-- No entry is without alternatives. -/
  alternatives_ne_nil : ∀ {lhs}, table.contains lhs = true → table.alternatives lhs ≠ []
  /-- Every alternative is well formed. -/
  alternative : ∀ {lhs}, ∀ alt ∈ table.alternatives lhs, alt.IsWellFormed
  /-- Either all or none of the alternatives of a nonterminal end the input. -/
  all_or_none : ∀ lhs, (∀ alt ∈ table.alternatives lhs, alt.endsInput = true) ∨
    ∀ alt ∈ table.alternatives lhs, alt.endsInput = false
  /-- At most one nonterminal has alternatives that end the input. -/
  goal_unique : ∀ {lhs lhs'}, ∀ alt ∈ table.alternatives lhs, ∀ alt' ∈ table.alternatives lhs',
    alt.endsInput = true → alt'.endsInput = true → lhs = lhs'

variable {table : RuleTable} {lhs key : Symbol} {alts : List Alternative} {alt : Alternative}

/-- Appending alternatives to an entry adds them to those of its nonterminal. -/
theorem mem_alternatives_append :
    alt ∈ (table.append lhs alts).alternatives key ↔
      alt ∈ table.alternatives key ∨ key = lhs ∧ alt ∈ alts := by
  rw [append, alternatives_alter]
  split
  · rename_i hkey
    rw [hkey, List.mem_append]
    simp
  · simp_all

/-- Appending alternatives adds their nonterminal to the table. -/
theorem contains_append :
    (table.append lhs alts).contains key = true ↔ key = lhs ∨ table.contains key = true := by
  unfold append SymbolMap.contains
  rw [SymbolMap.get?_alter]
  split <;> simp_all

/-- Appending alternatives leaves no entry empty. -/
theorem alternatives_append_ne_nil (halts : alts ≠ [])
    (hne : ∀ {lhs}, table.contains lhs = true → table.alternatives lhs ≠ [])
    (h : (table.append lhs alts).contains key = true) :
    (table.append lhs alts).alternatives key ≠ [] := by
  rw [append, alternatives_alter]
  split
  · exact List.append_ne_nil_of_right_ne_nil _ halts
  · exact hne ((contains_append.mp h).resolve_left ‹_›)

/-- A table without empty entries is well formed if a well-formed table has all its rules. -/
theorem IsWellFormed.of_subset {larger : RuleTable} (h : larger.IsWellFormed)
    (hne : ∀ {lhs}, table.contains lhs = true → table.alternatives lhs ≠ [])
    (hsubset : ∀ {lhs alt}, alt ∈ table.alternatives lhs → alt ∈ larger.alternatives lhs) :
    table.IsWellFormed where
  isNonterminal hlhs := by
    obtain ⟨alt, halt⟩ := List.exists_mem_of_ne_nil _ (hne hlhs)
    exact h.isNonterminal (contains_of_mem_alternatives (hsubset halt))
  alternatives_ne_nil := hne
  alternative alt halt := h.alternative alt (hsubset halt)
  all_or_none lhs := (h.all_or_none lhs).imp (fun hall alt halt => hall alt (hsubset halt))
    fun hnone alt halt => hnone alt (hsubset halt)
  goal_unique alt halt alt' halt' :=
    h.goal_unique alt (hsubset halt) alt' (hsubset halt')

end RuleTable

namespace Builder

variable {b next : Builder} {lhs : Symbol} {alts : List Alternative}

/-- A rule passes the checks of the rule by itself exactly if a nonterminal stands on its left and
it has alternatives, all well-formed. -/
theorem shapeFault?_eq_none_iff_isWellFormed :
    shapeFault? lhs alts = none ↔
      lhs.isNonterminal = true ∧ alts ≠ [] ∧ ∀ alt ∈ alts, alt.IsWellFormed := by
  simp only [shapeFault?_eq_none_iff, Alternative.isWellFormed_iff, imp_and, forall_and]

/-! ## What is known of accepted rules -/

/-- A builder whose rules are in shape and agree with its goal. -/
structure Checked (b : Builder) : Prop where
  /-- The rules of a nonterminal would be accepted as one rule. -/
  shape : ∀ {lhs}, b.table.contains lhs = true →
    shapeFault? lhs (b.table.alternatives lhs) = none
  /-- Only alternatives of the goal end the input. -/
  goal_of_endsInput : ∀ {lhs alt}, alt ∈ b.table.alternatives lhs → alt.endsInput = true →
    b.goal = some lhs

/-- No entry of a checked builder is empty. -/
theorem Checked.alternatives_ne_nil (hb : b.Checked) (lhs : Symbol)
    (h : b.table.contains lhs = true) : b.table.alternatives lhs ≠ [] :=
  (shapeFault?_eq_none_iff.mp (hb.shape h)).2.1

/-- The nonterminals with an entry are those with alternatives. -/
theorem Checked.contains_iff (hb : b.Checked) {N : Symbol} :
    b.table.contains N = true ↔ ∃ alt, alt ∈ b.table.alternatives N :=
  ⟨fun h => List.exists_mem_of_ne_nil _ (hb.alternatives_ne_nil N h),
    fun ⟨_, halt⟩ => RuleTable.contains_of_mem_alternatives halt⟩

/-- The builder without rules is checked. -/
theorem checked_empty : (∅ : Builder).Checked where
  shape h := nomatch (show false = true from h)
  goal_of_endsInput h := by simp [alternatives_empty] at h

@[simp] theorem table_extend (b : Builder) (lhs : Symbol) (alts : List Alternative)
    (goal : Option Symbol) : (b.extend lhs alts goal).table = b.table.append lhs alts := rfl

/-- An accepted rule leaves all rules in shape and in agreement with the goal. -/
theorem Checked.addRule (hb : b.Checked) {lhs : Symbol} {alts : List Alternative}
    (h : b.addRule lhs alts = .ok b') : b'.Checked := by
  obtain ⟨hshape, goal, hgoal, rfl⟩ := addRule_eq_ok_iff.mp h
  refine ⟨?_, ?_⟩
  · intro key hkey
    have hextend : (b.extend lhs alts goal).table.alternatives key = _ :=
      RuleTable.alternatives_alter b.table lhs key alts
    rw [hextend]
    split
    · -- what `lhs` had before was in shape, and so is what is added
      rename_i heq
      subst heq
      obtain ⟨hlhs, hne, hadded⟩ := shapeFault?_eq_none_iff.mp hshape
      cases hbefore : b.table.contains key with
      | false => rwa [RuleTable.alternatives_eq_nil hbefore]
      | true =>
        obtain ⟨-, -, hpresent⟩ := shapeFault?_eq_none_iff.mp (hb.shape hbefore)
        refine shapeFault?_eq_none_iff.mpr ⟨hlhs, by simp [hne], ?_⟩
        simp only [List.forall_mem_append]
        exact ⟨⟨hpresent.1, hadded.1⟩, ⟨hpresent.2.1, hadded.2.1⟩, hpresent.2.2, hadded.2.2⟩
    · rw [table_extend, RuleTable.contains_append] at hkey
      exact hb.shape (hkey.resolve_left ‹_›)
  · intro key alt halt hends
    show goal = some key
    rcases goalWith_cases hgoal with ⟨-, rfl, hbefore⟩ | ⟨hnone, rfl, -⟩
    · rcases mem_alternatives_extend.mp halt with halt | ⟨rfl, -⟩
      · -- an earlier alternative that ends the input was one of the goal
        have hkey := hb.goal_of_endsInput halt hends
        rcases hbefore with hbefore | ⟨hbefore, -⟩
        · exact hbefore ▸ hkey
        · simp [hbefore] at hkey
      · rfl
    · rcases mem_alternatives_extend.mp halt with halt | ⟨-, halt⟩
      · exact hb.goal_of_endsInput halt hends
      · simp [hnone alt halt] at hends

/-- Offering a rule keeps a builder checked. -/
theorem Checked.offer (hb : b.Checked) (call : Symbol × List Alternative) :
    (b.offer call).Checked := by
  cases hadd : b.addRule call.1 call.2 with
  | ok next => exact offer_of_addRule call hadd ▸ hb.addRule hadd
  | error fault => exact (offer_of_addRule_eq_error call hadd).symm ▸ hb

/-- Whatever is offered, the builder is checked. -/
theorem checked_afterOffers (calls : List (Symbol × List Alternative)) :
    (afterOffers calls).Checked :=
  List.foldlRecOn calls Builder.offer checked_empty fun _ hb call _ => hb.offer call

/-! ## What the goal stands for -/

/-- The goal is the nonterminal with rules all of whose alternatives end the input. -/
theorem Checked.goal_eq_some_iff (hb : b.Checked) (hcoherent : b.Coherent) {goal : Symbol} :
    b.goal = some goal ↔
      b.table.alternatives goal ≠ [] ∧
        ∀ alt ∈ b.table.alternatives goal, alt.endsInput = true := by
  constructor
  · intro hgoal
    obtain ⟨alt, halt⟩ := hcoherent.goal_hasRule hgoal
    exact ⟨List.ne_nil_of_mem halt, hcoherent.goal_endsInput hgoal⟩
  · rintro ⟨hne, hends⟩
    obtain ⟨alt, halt⟩ := List.exists_mem_of_ne_nil _ hne
    exact hb.goal_of_endsInput halt (hends alt halt)

/-- The rules of a builder that is checked and coherent are well-formed. -/
theorem Checked.isWellFormed (hb : b.Checked) (hcoherent : b.Coherent) :
    b.table.IsWellFormed where
  isNonterminal hlhs := (shapeFault?_eq_none_iff.mp (hb.shape hlhs)).1
  alternatives_ne_nil hlhs := hb.alternatives_ne_nil _ hlhs
  alternative alt halt := by
    have hshape := hb.shape (RuleTable.contains_of_mem_alternatives halt)
    exact (shapeFault?_eq_none_iff_isWellFormed.mp hshape).2.2 alt halt
  all_or_none lhs := by
    by_cases hgoal : b.goal = some lhs
    · exact .inl (hcoherent.goal_endsInput hgoal)
    · refine .inr fun alt halt => Bool.eq_false_iff.mpr fun hends => ?_
      exact hgoal (hb.goal_of_endsInput halt hends)
  goal_unique alt halt alt' halt' hends hends' := by
    have hgoal := hb.goal_of_endsInput halt hends
    exact Option.some.inj (hgoal.symm.trans (hb.goal_of_endsInput halt' hends'))

/-! ## Acceptance -/

/-- Alternatives of a nonterminal that is not the goal leave the goal as it is, if none of them ends
the input. -/
theorem goalWith_of_not_endsInput {lhs : Symbol} {alts : List Alternative}
    (halts : ∀ alt ∈ alts, alt.endsInput = false) (hgoal : b.goal ≠ some lhs) :
    b.goalWith lhs alts = .ok b.goal := by
  have hany : alts.any Alternative.endsInput = false := by simpa using halts
  simp [goalWith, checkGoal, Except.map, hany, hgoal]

/-- Alternatives that all end the input agree with the goal if their nonterminal is the goal
already, or is new while there is no goal yet. -/
theorem goalWith_of_endsInput (hne : alts ≠ []) (halts : ∀ alt ∈ alts, alt.endsInput = true)
    (hgoal : b.goal = some lhs ∨ b.goal = none ∧ b.table.contains lhs = false) :
    b.goalWith lhs alts = .ok (some lhs) := by
  obtain ⟨first, hfirst⟩ := List.exists_mem_of_ne_nil alts hne
  have hany : alts.any Alternative.endsInput = true :=
    List.any_eq_true.mpr ⟨first, hfirst, halts first hfirst⟩
  have hall : alts.all Alternative.endsInput = true := List.all_eq_true.mpr halts
  rcases hgoal with hgoal | ⟨hgoal, hnew⟩
  · simp [goalWith, checkGoal, Except.map, hany, hall, hgoal]
  · simp [goalWith, checkGoal, Except.map, hany, hall, hgoal, hnew]

/-- A rule agrees with the goal if its alternatives leave the table with one goal at most. -/
theorem Checked.exists_goalWith (hb : b.Checked) (hcoherent : b.Coherent) (hne : alts ≠ [])
    (h : (b.table.append lhs alts).IsWellFormed) : ∃ goal, b.goalWith lhs alts = .ok goal := by
  have hold : ∀ {key}, ∀ alt ∈ b.table.alternatives key,
      alt ∈ (b.table.append lhs alts).alternatives key :=
    fun alt halt => RuleTable.mem_alternatives_append.mpr (.inl halt)
  have hadded : ∀ alt ∈ alts, alt ∈ (b.table.append lhs alts).alternatives lhs :=
    fun alt halt => RuleTable.mem_alternatives_append.mpr (.inr ⟨rfl, halt⟩)
  obtain ⟨first, hfirst⟩ := List.exists_mem_of_ne_nil alts hne
  rcases h.all_or_none lhs with hall | hnone
  · -- any other goal would be a second one, and without a goal nothing ends the input yet
    refine ⟨some lhs, goalWith_of_endsInput hne (fun alt halt => hall alt (hadded alt halt)) ?_⟩
    cases hgoal : b.goal with
    | some goal =>
      obtain ⟨alt, halt⟩ := hcoherent.goal_hasRule hgoal
      have hsame : goal = lhs := h.goal_unique alt (hold alt halt) first (hadded first hfirst)
        (hcoherent.goal_endsInput hgoal alt halt) (hall first (hadded first hfirst))
      exact .inl (congrArg some hsame)
    | none =>
      refine .inr ⟨rfl, Bool.eq_false_iff.mpr fun hcontains => ?_⟩
      obtain ⟨alt, halt⟩ := hb.contains_iff.mp hcontains
      have hgoal' := hb.goal_of_endsInput halt (hall alt (hold alt halt))
      simp [hgoal] at hgoal'
  · refine ⟨b.goal, goalWith_of_not_endsInput (fun alt halt => hnone alt (hadded alt halt)) ?_⟩
    intro hgoal
    obtain ⟨alt, halt⟩ := hcoherent.goal_hasRule hgoal
    have hends := hcoherent.goal_endsInput hgoal alt halt
    rw [hnone alt (hold alt halt)] at hends
    exact Bool.false_ne_true hends

/-- A rule that is accepted is appended to the table. -/
theorem table_of_addRule (h : b.addRule lhs alts = .ok next) :
    next.table = b.table.append lhs alts := by
  obtain ⟨-, goal, -, rfl⟩ := addRule_eq_ok_iff.mp h
  rfl

/-- A rule is accepted exactly if it gives alternatives to a nonterminal and the table stays well
formed. -/
theorem Checked.exists_addRule_iff (hb : b.Checked) (hcoherent : b.Coherent) :
    (∃ next, b.addRule lhs alts = .ok next) ↔
      lhs.isNonterminal = true ∧ alts ≠ [] ∧ (b.table.append lhs alts).IsWellFormed := by
  constructor
  · rintro ⟨next, hnext⟩
    obtain ⟨hshape, -⟩ := addRule_eq_ok_iff.mp hnext
    obtain ⟨hlhs, hne, -⟩ := shapeFault?_eq_none_iff.mp hshape
    have hnextWellFormed := (hb.addRule hnext).isWellFormed (hcoherent.addRule hnext)
    exact ⟨hlhs, hne, table_of_addRule hnext ▸ hnextWellFormed⟩
  · rintro ⟨hlhs, hne, h⟩
    obtain ⟨goal, hgoal⟩ := hb.exists_goalWith hcoherent hne h
    have halts : ∀ alt ∈ alts, alt.IsWellFormed := fun alt halt =>
      h.alternative alt (RuleTable.mem_alternatives_append.mpr (.inr ⟨rfl, halt⟩))
    have hshape := shapeFault?_eq_none_iff_isWellFormed.mpr ⟨hlhs, hne, halts⟩
    exact ⟨_, addRule_eq_ok_iff.mpr ⟨hshape, goal, hgoal, rfl⟩⟩

/-! ## Adding rules in turn -/

@[simp] theorem addRules_nil : b.addRules [] = .ok b := rfl

/-- Rules are added to what the first of them leaves. -/
theorem addRules_cons {lhs : Symbol} {alts : List Alternative}
    {rules : List (Symbol × List Alternative)} :
    b.addRules ((lhs, alts) :: rules) = .ok b' ↔
      ∃ next, b.addRule lhs alts = .ok next ∧ next.addRules rules = .ok b' := by
  unfold addRules
  rw [List.foldlM_cons]
  cases hadd : b.addRule lhs alts <;> simp [bind, Except.bind, hadd]

/-- Rules that are all accepted may as well be offered. -/
theorem foldl_offer_of_addRules {rules : List (Symbol × List Alternative)}
    (h : b.addRules rules = .ok b') : rules.foldl offer b = b' := by
  induction rules generalizing b with
  | nil => exact Except.ok.inj h
  | cons rule rest ih =>
    obtain ⟨next, hnext, hrest⟩ := addRules_cons.mp h
    rw [List.foldl_cons, offer_of_addRule rule hnext]
    exact ih hrest

/-- A nonterminal's alternatives are those of its rules, one rule after the other. -/
theorem alternatives_addRules {rules : List (Symbol × List Alternative)}
    (h : b.addRules rules = .ok b') (key : Symbol) :
    b'.table.alternatives key =
      b.table.alternatives key ++ (rules.filter (·.1 = key)).flatMap (·.2) := by
  induction rules generalizing b with
  | nil =>
    obtain rfl := Except.ok.inj h
    simp
  | cons rule rest ih =>
    obtain ⟨next, hnext, hrest⟩ := addRules_cons.mp h
    obtain ⟨-, goal, -, rfl⟩ := addRule_eq_ok_iff.mp hnext
    rw [ih hrest]
    show RuleTable.alternatives (b.table.alter rule.1 _) key ++ _ = _
    rw [RuleTable.alternatives_alter]
    by_cases hkey : key = rule.1
    · subst hkey
      simp
    · have hne : rule.1 ≠ key := Ne.symm hkey
      simp [hkey, hne]

/-- Rules are accepted if a well-formed table has them and all that was accepted before. -/
theorem Checked.exists_addRules (hb : b.Checked) (hcoherent : b.Coherent) {table : RuleTable}
    (htable : table.IsWellFormed)
    (hbefore : ∀ {lhs alt}, alt ∈ b.table.alternatives lhs → alt ∈ table.alternatives lhs)
    {rules : List (Symbol × List Alternative)}
    (hrules : ∀ rule ∈ rules, rule.2 ≠ [] ∧ ∀ alt ∈ rule.2, alt ∈ table.alternatives rule.1) :
    ∃ last, b.addRules rules = .ok last := by
  induction rules generalizing b with
  | nil => exact ⟨b, rfl⟩
  | cons rule rest ih =>
    obtain ⟨lhs, alts⟩ := rule
    obtain ⟨⟨hne, halts⟩, hrest⟩ := List.forall_mem_cons.mp hrules
    -- every part of a well-formed table is well-formed, so each rule in turn is accepted
    have hafter : ∀ {key alt}, alt ∈ (b.table.append lhs alts).alternatives key →
        alt ∈ table.alternatives key := by
      intro key alt hmem
      rcases RuleTable.mem_alternatives_append.mp hmem with halt | ⟨rfl, halt⟩
      · exact hbefore halt
      · exact halts alt halt
    have hlhs : lhs.isNonterminal = true := by
      obtain ⟨alt, halt⟩ := List.exists_mem_of_ne_nil _ hne
      exact htable.isNonterminal (RuleTable.contains_of_mem_alternatives (halts alt halt))
    have hwellFormed : (b.table.append lhs alts).IsWellFormed :=
      htable.of_subset (RuleTable.alternatives_append_ne_nil hne (hb.alternatives_ne_nil _)) hafter
    obtain ⟨next, hnext⟩ := (hb.exists_addRule_iff hcoherent).mpr ⟨hlhs, hne, hwellFormed⟩
    have htable' : next.table = b.table.append lhs alts := table_of_addRule hnext
    obtain ⟨last, hlast⟩ := ih (hb.addRule hnext) (hcoherent.addRule hnext)
      (fun halt => hafter (htable' ▸ halt)) hrest
    exact ⟨last, addRules_cons.mpr ⟨next, hnext, hlast⟩⟩

/-! ## Lists of rules that are accepted -/

section Lists

variable {calls : List (Symbol × List Alternative)}

/-- Whether a new builder accepts all rules of a list, one after the other. -/
def Accepts (calls : List (Symbol × List Alternative)) : Prop :=
  ∃ b, (∅ : Builder).addRules calls = .ok b

/-- Rules that are all accepted can be added in turn. -/
theorem Accepts.addRules_eq (h : Accepts calls) :
    (∅ : Builder).addRules calls = .ok (afterOffers calls) := by
  obtain ⟨b, hb⟩ := h
  obtain rfl : afterOffers calls = b := foldl_offer_of_addRules hb
  exact hb

/-- Rules can be added in turn exactly if each of them is accepted. -/
theorem isSome_addRules_iff :
    ((∅ : Builder).addRules calls).toOption.isSome = true ↔ Accepts calls := by
  unfold Accepts
  cases (∅ : Builder).addRules calls <;> simp [Except.toOption]

instance (calls : List (Symbol × List Alternative)) : Decidable (Accepts calls) :=
  decidable_of_iff _ isSome_addRules_iff

/-- The alternatives of a nonterminal are those of its calls, one after the other. -/
theorem alternatives_afterOffers (h : Accepts calls) (N : Symbol) :
    (afterOffers calls).table.alternatives N = (calls.filter (·.1 = N)).flatMap (·.2) :=
  alternatives_addRules h.addRules_eq N

/-- Rules that can be added in turn pass the checks of each rule by itself. -/
theorem shapeFault?_of_addRules {b b' : Builder} (h : b.addRules calls = .ok b') :
    ∀ call ∈ calls, shapeFault? call.1 call.2 = none := by
  induction calls generalizing b with
  | nil => exact fun _ hcall => nomatch hcall
  | cons call rest ih =>
    obtain ⟨next, hnext, hrest⟩ := addRules_cons.mp h
    exact List.forall_mem_cons.mpr ⟨(addRule_eq_ok_iff.mp hnext).1, ih hrest⟩

/-- A list of rules is accepted exactly if each of them has alternatives and some well-formed table
has them all. -/
theorem accepts_iff :
    Accepts calls ↔
      (∀ call ∈ calls, call.2 ≠ []) ∧
        ∃ table : RuleTable, table.IsWellFormed ∧
          ∀ call ∈ calls, ∀ alt ∈ call.2, alt ∈ table.alternatives call.1 := by
  constructor
  · intro h
    refine ⟨fun call hcall => ?_, (afterOffers calls).table, ?_, fun call hcall alt halt => ?_⟩
    · exact (shapeFault?_eq_none_iff.mp (shapeFault?_of_addRules h.addRules_eq call hcall)).2.1
    · exact (checked_afterOffers calls).isWellFormed (coherent_afterOffers calls)
    · rw [alternatives_afterOffers h, List.mem_flatMap]
      exact ⟨call, List.mem_filter.mpr ⟨hcall, decide_eq_true rfl⟩, halt⟩
  · rintro ⟨hne, table, htable, hmem⟩
    exact checked_empty.exists_addRules coherent_empty htable
      (fun halt => absurd halt List.not_mem_nil) fun call hcall => ⟨hne call hcall, hmem call hcall⟩

end Lists

/-! ## Runs of calls -/

/-- A builder with a well-formed table and with everything beside it as the table says. -/
structure Consistent (b : Builder) : Prop where
  table_isWellFormed : b.table.IsWellFormed
  goal_eq_some_iff : ∀ goal, b.goal = some goal ↔
    b.table.alternatives goal ≠ [] ∧ ∀ alt ∈ b.table.alternatives goal, alt.endsInput = true
  mem_terminals_iff : ∀ a, a ∈ b.terminals ↔
    a.isTerminal = true ∧ ∃ lhs, ∃ alt ∈ b.table.alternatives lhs, a ∈ alt
  mem_nonterminals_iff : ∀ N, N ∈ b.nonterminals ↔
    (N.isNonterminal = true ∧ ∃ lhs, ∃ alt ∈ b.table.alternatives lhs, N ∈ alt) ∨
      b.table.contains N = true

/-- A builder that is checked and coherent is consistent. -/
theorem Checked.consistent (hb : b.Checked) (hcoherent : b.Coherent) : b.Consistent where
  table_isWellFormed := hb.isWellFormed hcoherent
  goal_eq_some_iff _ := hb.goal_eq_some_iff hcoherent
  mem_terminals_iff := hcoherent.mem_terminals
  mem_nonterminals_iff N := by
    rw [hcoherent.mem_nonterminals, ← hb.contains_iff]
    constructor
    · rintro ⟨hN, hcontains | hused⟩
      · exact .inr hcontains
      · exact .inl ⟨hN, hused⟩
    · rintro (⟨hN, hused⟩ | hcontains)
      · exact ⟨hN, .inr hused⟩
      · exact ⟨(hb.isWellFormed hcoherent).isNonterminal hcontains, .inl hcontains⟩

/-- Whatever is offered, the builder is consistent. -/
theorem consistent_afterOffers (calls : List (Symbol × List Alternative)) :
    (afterOffers calls).Consistent :=
  (checked_afterOffers calls).consistent (coherent_afterOffers calls)

/-- More calls go on from the builder that the first ones left. -/
theorem afterOffers_append (calls more : List (Symbol × List Alternative)) :
    afterOffers (calls ++ more) = more.foldl offer (afterOffers calls) :=
  List.foldl_append

/-- Every run of calls leaves a builder with a well-formed table and with its goal and symbol sets
in step. There it accepts a rule exactly if it gives alternatives to a nonterminal and keeps the
table well formed. An accepted rule goes to the end of its nonterminal's entry; a refused one leaves
the builder as it was, and may as well be left out whatever is called after it. -/
theorem afterOffers_consistent_and_accepts_iff (calls : List (Symbol × List Alternative)) :
    (afterOffers calls).Consistent ∧
      ∀ lhs alts,
        ((∃ next, (add lhs alts).run (afterOffers calls) = .ok () next) ↔
          lhs.isNonterminal = true ∧ alts ≠ [] ∧
            ((afterOffers calls).table.append lhs alts).IsWellFormed) ∧
        (∀ next, (add lhs alts).run (afterOffers calls) = .ok () next →
          afterOffers (calls ++ [(lhs, alts)]) = next ∧
            next.table = (afterOffers calls).table.append lhs alts) ∧
        ∀ fault next, (add lhs alts).run (afterOffers calls) = .error fault next →
          next = afterOffers calls ∧ afterOffers (calls ++ [(lhs, alts)]) = next ∧
            ∀ more, afterOffers (calls ++ (lhs, alts) :: more) = afterOffers (calls ++ more) := by
  refine ⟨consistent_afterOffers calls, fun lhs alts => ⟨?_, ?_, ?_⟩⟩
  · simp only [run_add_eq_ok_iff]
    exact (checked_afterOffers calls).exists_addRule_iff (coherent_afterOffers calls)
  · intro next hrun
    have hnext := run_add_eq_ok_iff.mp hrun
    rw [afterOffers_append, List.foldl_cons, List.foldl_nil,
      offer_of_addRule (lhs, alts) hnext]
    exact ⟨rfl, table_of_addRule hnext⟩
  · intro fault next hrun
    -- the failing call leaves the builder it was made on
    obtain ⟨hfault, rfl⟩ := run_add_eq_error_iff.mp hrun
    have hmore : ∀ more, afterOffers (calls ++ (lhs, alts) :: more) =
        afterOffers (calls ++ more) := by
      intro more
      rw [afterOffers_append, afterOffers_append, List.foldl_cons,
        offer_of_addRule_eq_error (lhs, alts) hfault]
    exact ⟨rfl, by simpa using hmore [], hmore⟩

/-- The second, third and fourth of these rules are refused. -/
def interruptedRun : List (Symbol × List Alternative) :=
  [("S", [["A", "$"]]), ("T", [["t", "$"]]), ("S", [["b"]]), ("A", [["a", "lambda"]]),
    ("A", [["a", "A"], ["lambda"]])]

/-- A refused call in the middle of the others leaves no trace. -/
theorem interruptedRun_accepts :
    (afterOffers interruptedRun).Consistent ∧ (afterOffers interruptedRun).goal = some "S" ∧
      ((afterOffers interruptedRun).table.append "S" [["$"]]).IsWellFormed ∧
      ¬((afterOffers interruptedRun).table.append "A" [["$"]]).IsWellFormed ∧
      (add "A" [["$"]]).run (afterOffers interruptedRun) =
        .error (.goalConflict "S" "A") (afterOffers interruptedRun) ∧
      afterOffers (interruptedRun ++ [("A", [["$"]]), ("S", [["$"]])]) =
        afterOffers (interruptedRun ++ [("S", [["$"]])]) := by
  obtain ⟨hconsistent, haccepts⟩ := afterOffers_consistent_and_accepts_iff interruptedRun
  obtain ⟨hgoal, -, -⟩ := haccepts "S" [["$"]]
  obtain ⟨hother, -, hrefused⟩ := haccepts "A" [["$"]]
  obtain ⟨next, haccepted⟩ : ∃ next,
      (add "S" [["$"]]).run (afterOffers interruptedRun) = .ok () next := ⟨_, rfl⟩
  obtain ⟨next', herror⟩ : ∃ next', (add "A" [["$"]]).run (afterOffers interruptedRun) =
      .error (.goalConflict "S" "A") next' := ⟨_, rfl⟩
  obtain ⟨hunchanged, -, hmore⟩ := hrefused _ _ herror
  refine ⟨hconsistent, by decide, (hgoal.mp ⟨next, haccepted⟩).2.2, ?_, hunchanged ▸ herror,
    hmore _⟩
  intro hwellFormed
  obtain ⟨other, hother⟩ := hother.mpr ⟨by decide, by decide, hwellFormed⟩
  simp [herror] at hother

end Builder

end Lookahead
