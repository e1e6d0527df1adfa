import Lookahead.Proofs.Listings

/-!
# What finishing the rules verifies

Finishing makes a grammar exactly if there is a goal and every nonterminal in use has rules
(`exists_build_iff`), and then it keeps all that was collected (`Grammar.IsMadeFrom`). Otherwise it
reports the undefined uses in the order of their places, of a run of equal ones the first
(`RuleTable.listsInOrder_undefinedUses`), and after them a missing goal (`Builder.IsRefusedFor`).
The main statement is `Builder.build_afterOffers`.
-/

namespace Lookahead

/-! ## First elements of runs -/

section FirstOfRun

variable {κ α β : Type} {before : κ → κ → Prop} {p q : κ → α → Prop}

/-- Whether a value begins a run of equal values at its place: wherever the value is at an earlier
place, another value comes in between. -/
def FirstOfRun (before : κ → κ → Prop) (p : κ → α → Prop) (place : κ) (a : α) : Prop :=
  p place a ∧ ∀ earlier, before earlier place → p earlier a →
    ∃ between b, before earlier between ∧ before between place ∧ p between b ∧ b ≠ a

/-- What begins a run can be described in another way. -/
theorem firstOfRun_congr (hpq : ∀ place a, p place a ↔ q place a) (place : κ) (a : α) :
    FirstOfRun before p place a ↔ FirstOfRun before q place a := by
  simp only [FirstOfRun, hpq]

/-- Values that are told apart by what is made of them begin the same runs. -/
theorem firstOfRun_map {f : α → β} (hf : Function.Injective f) (place : κ) (b : β) :
    (∃ a, FirstOfRun before p place a ∧ f a = b) ↔
      FirstOfRun before (fun place b => ∃ a, p place a ∧ f a = b) place b := by
  unfold FirstOfRun
  constructor
  · rintro ⟨a, ⟨ha, hruns⟩, rfl⟩
    refine ⟨⟨a, ha, rfl⟩, fun earlier hbefore ⟨a', ha', heq⟩ => ?_⟩
    obtain rfl := hf heq
    obtain ⟨between, c, h₁, h₂, hc, hne⟩ := hruns earlier hbefore ha'
    exact ⟨between, f c, h₁, h₂, ⟨c, hc, rfl⟩, hf.ne hne⟩
  · rintro ⟨⟨a, ha, rfl⟩, hruns⟩
    refine ⟨a, ⟨ha, fun earlier hbefore hearlier => ?_⟩, rfl⟩
    obtain ⟨between, _, h₁, h₂, ⟨c, hc, rfl⟩, hne⟩ := hruns earlier hbefore ⟨a, hearlier, rfl⟩
    exact ⟨between, c, h₁, h₂, hc, ne_of_apply_ne f hne⟩

section Placed

variable {placed : List (κ × α)} {x y : κ × α}

/-- A value that goes on the run of the one before it begins no run and separates none. -/
theorem firstOfRun_skip (hasymm : ∀ {a b}, before a b → ¬before b a) (heq : x.2 = y.2)
    (hplaced : (x :: y :: placed).Pairwise fun x y => before x.1 y.1) (place : κ) (a : α) :
    FirstOfRun before (fun place a => (place, a) ∈ x :: placed) place a ↔
      FirstOfRun before (fun place a => (place, a) ∈ x :: y :: placed) place a := by
  obtain ⟨hx, hrest⟩ := List.pairwise_cons.mp hplaced
  obtain ⟨hy, -⟩ := List.pairwise_cons.mp hrest
  have hxy := hx y List.mem_cons_self
  simp only [FirstOfRun, List.mem_cons]
  constructor
  · rintro ⟨hmem, hruns⟩
    refine ⟨hmem.imp_right .inr, fun earlier hbefore hearlier => ?_⟩
    rcases hearlier with rfl | rfl | hearlier
    · obtain ⟨between, b, h₁, h₂, hb, hne⟩ := hruns _ hbefore (.inl rfl)
      exact ⟨between, b, h₁, h₂, hb.imp_right .inr, hne⟩
    · -- what separates from `x` separates from `y`
      have hplace : before x.1 place := by
        rcases hmem with rfl | hmem
        · exact absurd hbefore (hasymm hxy)
        · exact hx _ (List.mem_cons_of_mem _ hmem)
      obtain ⟨between, b, -, h₂, hb, hne⟩ := hruns x.1 hplace (.inl (Prod.ext rfl heq.symm))
      rcases hb with rfl | hb
      · exact absurd heq hne
      · exact ⟨between, b, hy _ hb, h₂, .inr (.inr hb), hne⟩
    · obtain ⟨between, b, h₁, h₂, hb, hne⟩ := hruns _ hbefore (.inr hearlier)
      exact ⟨between, b, h₁, h₂, hb.imp_right .inr, hne⟩
  · rintro ⟨hmem, hruns⟩
    have hmem : (place, a) = x ∨ (place, a) ∈ placed := by
      rcases hmem with hmem | rfl | hmem
      · exact .inl hmem
      · obtain ⟨between, b, h₁, h₂, hb, -⟩ := hruns x.1 hxy (.inl (Prod.ext rfl heq.symm))
        rcases hb with rfl | hb | hb
        · exact absurd h₁ (hasymm h₁)
        · cases hb
          exact absurd h₂ (hasymm h₂)
        · exact absurd h₂ (hasymm (hy _ hb))
      · exact .inr hmem
    refine ⟨hmem, fun earlier hbefore hearlier => ?_⟩
    obtain ⟨between, b, h₁, h₂, hb, hne⟩ := hruns earlier hbefore (hearlier.imp_right .inr)
    rcases hb with hb | rfl | hb
    · exact ⟨between, b, h₁, h₂, .inl hb, hne⟩
    · rcases hearlier with rfl | hearlier
      · exact absurd heq.symm hne
      · exact absurd h₁ (hasymm (hy _ hearlier))
    · exact ⟨between, b, h₁, h₂, .inr hb, hne⟩

/-- A value other than the one after it leaves the runs after it as they are. -/
theorem firstOfRun_cons (hasymm : ∀ {a b}, before a b → ¬before b a) (hne : x.2 ≠ y.2)
    (hplaced : (x :: y :: placed).Pairwise fun x y => before x.1 y.1) (place : κ) (a : α) :
    (place, a) = x ∨ FirstOfRun before (fun place a => (place, a) ∈ y :: placed) place a ↔
      FirstOfRun before (fun place a => (place, a) ∈ x :: y :: placed) place a := by
  obtain ⟨hx, hrest⟩ := List.pairwise_cons.mp hplaced
  obtain ⟨hy, -⟩ := List.pairwise_cons.mp hrest
  have hxy := hx y List.mem_cons_self
  simp only [FirstOfRun, List.mem_cons (b := x)]
  constructor
  · rintro (rfl | ⟨hmem, hruns⟩)
    · refine ⟨.inl rfl, fun earlier hbefore hearlier => ?_⟩
      rcases hearlier with heq | hearlier
      · cases heq
        exact absurd hbefore (hasymm hbefore)
      · exact absurd hbefore (hasymm (hx _ hearlier))
    · refine ⟨.inr hmem, fun earlier hbefore hearlier => ?_⟩
      -- `y` has another value and stands between `x` and whatever comes behind `y`
      rcases hearlier with rfl | hearlier
      · rcases List.mem_cons.mp hmem with rfl | hmem
        · exact absurd rfl hne
        · exact ⟨y.1, y.2, hxy, hy _ hmem, .inr List.mem_cons_self, hne.symm⟩
      · obtain ⟨between, b, h₁, h₂, hb, hb'⟩ := hruns earlier hbefore hearlier
        exact ⟨between, b, h₁, h₂, .inr hb, hb'⟩
  · rintro ⟨hmem, hruns⟩
    refine hmem.imp_right fun hmem => ⟨hmem, fun earlier hbefore hearlier => ?_⟩
    obtain ⟨between, b, h₁, h₂, rfl | hb, hb'⟩ := hruns earlier hbefore (.inr hearlier)
    · exact absurd h₁ (hasymm (hx _ hearlier))
    · exact ⟨between, b, h₁, h₂, hb, hb'⟩

/-- Erasing repetitions leaves the first of each run of equal values. -/
theorem listsInOrder_eraseReps [BEq α] [LawfulBEq α] (hasymm : ∀ {a b}, before a b → ¬before b a)
    (hplaced : placed.Pairwise fun x y => before x.1 y.1) :
    ListsInOrder before (FirstOfRun before fun place a => (place, a) ∈ placed)
      (placed.map (·.2)).eraseReps := by
  induction placed using List.twoStepInduction with
  | nil => exact ⟨[], rfl, .nil, by simp [FirstOfRun]⟩
  | singleton x =>
    refine ⟨[x], rfl, List.pairwise_singleton .., fun place a => ?_⟩
    refine (and_iff_left_of_imp fun hmem earlier hbefore hearlier => ?_).symm
    cases List.mem_singleton.mp hmem
    cases List.mem_singleton.mp hearlier
    exact absurd hbefore (hasymm hbefore)
  | cons_cons x y rest _ ih =>
    obtain ⟨hx, hrest⟩ := List.pairwise_cons.mp hplaced
    rw [List.map_cons, List.map_cons, eraseReps_cons_cons]
    split
    · -- the second of two equal uses is dropped, and the first one stays at its place
      rename_i heq
      have hskipped := hplaced.sublist ((List.sublist_cons_self y rest).cons_cons x)
      exact (ih x hskipped).congr (firstOfRun_skip hasymm (eq_of_beq heq) hplaced)
    · rename_i hne
      have hne : x.2 ≠ y.2 := fun heq => hne (beq_iff_eq.mpr heq)
      refine ((ih y hrest).cons fun place a ha => ?_).congr (firstOfRun_cons hasymm hne hplaced)
      exact hx _ ha.1

end Placed

end FirstOfRun

/-! ## Places of undefined uses -/

/-- A place of a symbol in a rule table: that of a rule, and a position on its right-hand side. -/
structure SymbolPlace where
  rule : Occurrence
  position : Nat
deriving DecidableEq, Repr

/-- The order of places by nonterminal, then by alternative, then by position. -/
def SymbolPlace.Before (a b : SymbolPlace) : Prop :=
  a.rule.Before b.rule ∨ a.rule = b.rule ∧ a.position < b.position

/-- Of two places in the rules only one comes before the other. -/
theorem Occurrence.Before.asymm {a b : Occurrence} (h : a.Before b) : ¬b.Before a := by
  rintro (h' | ⟨heq', h'⟩)
  · rcases h with h | ⟨heq, -⟩
    · exact String.lt_asymm h h'
    · rw [heq] at h'
      exact String.lt_irrefl _ h'
  · rcases h with h | ⟨-, h⟩
    · rw [heq'] at h
      exact String.lt_irrefl _ h
    · exact Nat.lt_asymm h h'

/-- Of two symbols in the rules only one comes before the other. -/
theorem SymbolPlace.Before.asymm {a b : SymbolPlace} (h : a.Before b) : ¬b.Before a := by
  rintro (h' | ⟨heq', h'⟩)
  · rcases h with h | ⟨heq, -⟩
    · exact h.asymm h'
    · rw [heq] at h'
      exact h'.asymm h'
  · rcases h with h | ⟨-, h⟩
    · rw [heq'] at h
      exact h.asymm h
    · exact Nat.lt_asymm h h'

namespace RuleTable

variable {table : RuleTable}

/-- What is reported of a nonterminal without rules that stands at a place of the table. -/
inductive UndefinedUse (table : RuleTable) (place : SymbolPlace) : GrammarError → Prop
  | intro {rule : Rule} {symbol : Symbol} (hrule : table.rule? place.rule = some rule)
      (hsymbol : rule.rhs[place.position]? = some symbol)
      (hnonterminal : symbol.isNonterminal = true) (hundefined : table.contains symbol = false) :
      UndefinedUse table place (.undefinedNonterminal symbol rule.lhs)

/-- The undefined uses in the alternative at a place of the table, with their own places. -/
def usesIn (table : RuleTable) (place : Occurrence) (alt : Alternative) :
    List (SymbolPlace × GrammarError) :=
  alt.zipIdx.filterMap fun (symbol, position) =>
    if symbol.isNonterminal && !table.contains symbol then
      some (⟨place, position⟩, .undefinedNonterminal symbol place.lhs)
    else none

/-- The undefined uses of a table with their places, as they are met. -/
def placedUses (table : RuleTable) : List (SymbolPlace × GrammarError) :=
  table.entries.flatMap fun (lhs, alts) =>
    alts.zipIdx.flatMap fun (alt, position) => table.usesIn ⟨lhs, position⟩ alt

/-- The undefined uses in an alternative are found symbol by symbol. -/
theorem map_usesIn (table : RuleTable) (place : Occurrence) (alt : Alternative) :
    (table.usesIn place alt).map (·.2) = alt.filterMap fun symbol =>
      if symbol.isNonterminal && !table.contains symbol then
        some (.undefinedNonterminal symbol place.lhs)
      else none := by
  unfold usesIn
  rw [List.map_filterMap]
  conv_rhs => rw [← List.zipIdx_map_fst 0 alt, List.filterMap_map]
  refine List.filterMap_congr fun (symbol, position) _ => ?_
  exact apply_ite (Option.map Prod.snd) ..

/-- An undefined use is a nonterminal in the alternative that is not in the table. -/
theorem mem_usesIn {place : Occurrence} {alt : Alternative} {a : SymbolPlace}
    {fault : GrammarError} :
    (a, fault) ∈ table.usesIn place alt ↔
      a.rule = place ∧ ∃ symbol, alt[a.position]? = some symbol ∧ symbol.isNonterminal = true ∧
        table.contains symbol = false ∧ fault = .undefinedNonterminal symbol place.lhs := by
  unfold usesIn
  simp only [List.mem_filterMap, Prod.exists, List.mk_mem_zipIdx_iff_getElem?]
  constructor
  · rintro ⟨symbol, position, hsymbol, heq⟩
    obtain ⟨hundefined, heq⟩ := Option.ite_none_right_eq_some.mp heq
    rw [Bool.and_eq_true, Bool.not_eq_true'] at hundefined
    cases heq
    exact ⟨rfl, symbol, hsymbol, hundefined.1, hundefined.2, rfl⟩
  · rintro ⟨rfl, symbol, hsymbol, hnonterminal, hundefined, rfl⟩
    refine ⟨symbol, a.position, hsymbol, ?_⟩
    rw [hnonterminal, hundefined]
    rfl

/-- The undefined uses in an alternative come in the order of its symbols. -/
theorem pairwise_usesIn (table : RuleTable) (place : Occurrence) (alt : Alternative) :
    (table.usesIn place alt).Pairwise fun a b => a.1.Before b.1 := by
  refine List.pairwise_filterMap.mpr ((pairwise_zipIdx alt 0).imp fun hlt a ha b hb => ?_)
  obtain ⟨-, ha⟩ := Option.ite_none_right_eq_some.mp ha
  obtain ⟨-, hb⟩ := Option.ite_none_right_eq_some.mp hb
  cases ha
  cases hb
  exact .inr ⟨rfl, hlt⟩

/-- The reported uses are those found at the places, without repeated neighbours. -/
theorem undefinedUses_eq (table : RuleTable) :
    table.undefinedUses = (table.placedUses.map (·.2)).eraseReps := by
  unfold undefinedUses placedUses
  rw [List.map_flatMap]
  refine congrArg List.eraseReps (List.flatMap_congr fun (lhs, alts) _ => ?_)
  simp only [List.map_flatMap, map_usesIn, List.filterMap_flatten]
  conv_lhs => rw [← List.zipIdx_map_fst 0 alts, List.map_map]
  rfl

/-- The undefined uses come in the order of their places. -/
theorem pairwise_placedUses (table : RuleTable) :
    table.placedUses.Pairwise fun a b => a.1.Before b.1 := by
  unfold placedUses
  refine List.pairwise_flatMap.mpr ⟨fun (lhs, alts) _ => ?_, table.sorted.imp ?_⟩
  · refine List.pairwise_flatMap.mpr ⟨fun (alt, position) _ => table.pairwise_usesIn _ alt,
      (pairwise_zipIdx alts 0).imp fun hlt a ha b hb => ?_⟩
    rw [SymbolPlace.Before, (mem_usesIn.mp ha).1, (mem_usesIn.mp hb).1]
    exact .inl (.inr ⟨rfl, hlt⟩)
  · intro entry entry' hlt a ha b hb
    obtain ⟨_, -, ha⟩ := List.mem_flatMap.mp ha
    obtain ⟨_, -, hb⟩ := List.mem_flatMap.mp hb
    rw [SymbolPlace.Before, (mem_usesIn.mp ha).1, (mem_usesIn.mp hb).1]
    exact .inl (.inl hlt)

/-- The undefined uses are found at their places. -/
theorem mem_placedUses_iff {place : SymbolPlace} {fault : GrammarError} :
    (place, fault) ∈ table.placedUses ↔ table.UndefinedUse place fault := by
  unfold placedUses
  simp only [List.mem_flatMap, Prod.exists, List.mk_mem_zipIdx_iff_getElem?, mem_usesIn]
  constructor
  · rintro ⟨lhs, alts, hentry, alt, position, halt, hplace, symbol, hsymbol, hnonterminal,
      hundefined, rfl⟩
    have hrule : table.rule? place.rule = some ⟨lhs, alt⟩ := by
      rw [rule?_eq_some_iff, hplace, alternatives_of_mem_entries hentry]
      exact ⟨rfl, halt⟩
    exact .intro hrule hsymbol hnonterminal hundefined
  · rintro ⟨hrule, hsymbol, hnonterminal, hundefined⟩
    rename_i rule symbol
    obtain ⟨hlhs, halt⟩ := rule?_eq_some_iff.mp hrule
    obtain ⟨alts, hentry, -⟩ := mem_alternatives_iff.mp (List.mem_of_getElem? halt)
    rw [alternatives_of_mem_entries hentry] at halt
    exact ⟨_, alts, hentry, _, _, halt, rfl, symbol, hsymbol, hnonterminal, hundefined,
      congrArg _ hlhs⟩

/-- The undefined uses are reported at their places, a run of equal ones at its first place. -/
theorem listsInOrder_undefinedUses (table : RuleTable) :
    ListsInOrder SymbolPlace.Before (FirstOfRun SymbolPlace.Before table.UndefinedUse)
      table.undefinedUses := by
  rw [undefinedUses_eq]
  exact (listsInOrder_eraseReps SymbolPlace.Before.asymm table.pairwise_placedUses).congr
    (firstOfRun_congr fun _ _ => mem_placedUses_iff)

end RuleTable

/-! ## Finishing -/

/-- What a grammar has from the builder that it was made from: everything that was collected, with
rules to each of its nonterminals, the goal among them, and to no other symbol. -/
structure Grammar.IsMadeFrom (g : Grammar) (b : Builder) : Prop where
  goal_eq : b.goal = some g.goal
  table_eq : g.table = b.table
  terminals_eq : g.terminals = b.terminals
  nonterminals_eq : g.nonterminals = b.nonterminals
  goal_mem : g.goal ∈ g.nonterminals
  mem_nonterminals_iff_contains : ∀ N, N ∈ g.nonterminals ↔ g.table.contains N = true
  mem_nonterminals_iff_alternatives : ∀ N, N ∈ g.nonterminals ↔ g.table.alternatives N ≠ []

namespace Builder

variable {b : Builder} {g : Grammar} {errors : List GrammarError}

/-- What a builder is refused for: the undefined uses, of a run of equal ones the first, and after
them a missing goal. -/
structure IsRefusedFor (b : Builder) (errors : List GrammarError) : Prop where
  ne_nil : errors ≠ []
  /-- No error repeats the one before it. -/
  isChain : errors.IsChain (· ≠ ·)
  mem_undefined_iff : ∀ symbol usedBy, .undefinedNonterminal symbol usedBy ∈ errors ↔
    symbol.isNonterminal = true ∧ b.table.contains symbol = false ∧
      ∃ alt ∈ b.table.alternatives usedBy, symbol ∈ alt
  /-- The uses come in the order of their places, and a missing goal once, at the end. -/
  exists_uses : ∃ uses, errors = uses ++ (if b.goal = none then [.missingGoal] else []) ∧
    .missingGoal ∉ uses ∧
    ListsInOrder SymbolPlace.Before (FirstOfRun SymbolPlace.Before b.table.UndefinedUse) uses

/-- If building succeeds, the grammar is made from what the builder holds. -/
theorem isMadeFrom_of_build (hb : b.Coherent) (hchecked : b.Checked) (h : b.build = .ok g) :
    g.IsMadeFrom b := by
  obtain ⟨hgoal, hterminals, hnonterminals, htable, -⟩ := build_eq_ok h
  have hcontains : ∀ N, N ∈ g.nonterminals ↔ g.table.contains N = true := fun N => by
    rw [hnonterminals, htable]
    exact hb.mem_nonterminals_iff_contains hchecked h
  have halternatives : ∀ N, N ∈ g.nonterminals ↔ g.table.alternatives N ≠ [] := fun N => by
    rw [hcontains, htable, hchecked.contains_iff]
    exact ⟨fun ⟨_, halt⟩ => List.ne_nil_of_mem halt, List.exists_mem_of_ne_nil _⟩
  obtain ⟨alt, halt⟩ := hb.goal_hasRule hgoal
  exact {
    goal_eq := hgoal
    table_eq := htable
    terminals_eq := hterminals
    nonterminals_eq := hnonterminals
    goal_mem := (halternatives _).mpr (List.ne_nil_of_mem (htable ▸ halt))
    mem_nonterminals_iff_contains := hcontains
    mem_nonterminals_iff_alternatives := halternatives
  }

/-- If building fails, the errors are what keeps the rules from being a grammar, in their order. -/
theorem isRefusedFor_of_build (h : b.build = .error errors) : b.IsRefusedFor errors := by
  obtain ⟨rfl, hne⟩ := build_eq_error_iff.mp h
  have hfaults : b.faults =
      b.table.undefinedUses ++ if b.goal = none then [.missingGoal] else [] := by
    rw [faults]
    cases b.goal <;> rfl
  have hending : ∀ fault ∈ if b.goal = none then [GrammarError.missingGoal] else [],
      fault = .missingGoal := by
    split <;> simp
  -- a missing goal is no use, so it ends the list and repeats nothing
  have hmissing : .missingGoal ∉ b.table.undefinedUses := by
    rw [RuleTable.mem_undefinedUses_iff]
    exact fun ⟨_, _, heq, _⟩ => nomatch heq
  refine ⟨hne, ?_, fun symbol usedBy => ?_, _, hfaults, hmissing,
    b.table.listsInOrder_undefinedUses⟩
  · rw [hfaults]
    refine b.table.isChain_undefinedUses.append ?_ fun use huse fault hfault => ?_
    · split
      · exact .singleton _
      · exact .nil
    · rw [hending fault (List.mem_of_mem_head? hfault)]
      rintro rfl
      exact hmissing (List.mem_of_mem_getLast? huse)
  · have hno : .undefinedNonterminal symbol usedBy ∉
        if b.goal = none then [GrammarError.missingGoal] else [] :=
      fun hmem => nomatch hending _ hmem
    rw [hfaults, List.mem_append, or_iff_left hno, RuleTable.mem_undefinedUses_iff]
    constructor
    · rintro ⟨_, _, ⟨rfl, rfl⟩, huse⟩
      exact huse
    · exact fun huse => ⟨symbol, usedBy, rfl, huse⟩

/-- After any run of calls, finishing makes a grammar of all that was collected, exactly if there
is a goal and every nonterminal in use has rules, and otherwise reports what is missing. -/
theorem build_afterOffers (calls : List (Symbol × List Alternative)) :
    ((∃ g, (afterOffers calls).build = .ok g) ↔
        (∃ goal, (afterOffers calls).goal = some goal) ∧
          ∀ lhs, ∀ alt ∈ (afterOffers calls).table.alternatives lhs, ∀ N ∈ alt,
            N.isNonterminal = true → (afterOffers calls).table.contains N = true) ∧
      (∀ g, (afterOffers calls).build = .ok g → g.IsMadeFrom (afterOffers calls)) ∧
      ∀ errors, (afterOffers calls).build = .error errors →
        (afterOffers calls).IsRefusedFor errors :=
  ⟨exists_build_iff,
    fun _ => isMadeFrom_of_build (coherent_afterOffers calls) (checked_afterOffers calls),
    fun _ => isRefusedFor_of_build⟩

/-- Rules without a goal and with uses of two undefined nonterminals; the second call is refused. -/
def unfinishedCalls : List (Symbol × List Alternative) :=
  [("A", [["a", "B"], ["B", "B"], ["C"], ["B"]]), ("a", [["D"]]), ("T", [["B"]])]

/-- The rules that were missing. -/
def finishingCalls : List (Symbol × List Alternative) :=
  [("S", [["A", "T", "$"]]), ("B", [["lambda"]]), ("C", [["c"]])]

/-- Undefined uses and the missing goal are reported until rules for them are added. -/
theorem unfinishedCalls_build :
    (afterOffers unfinishedCalls).IsRefusedFor
        [.undefinedNonterminal "B" "A", .undefinedNonterminal "C" "A",
          .undefinedNonterminal "B" "A", .undefinedNonterminal "B" "T", .missingGoal] ∧
      ∃ g, (afterOffers (unfinishedCalls ++ finishingCalls)).build = .ok g ∧
        g.IsMadeFrom (afterOffers (unfinishedCalls ++ finishingCalls)) := by
  have herrors : (afterOffers unfinishedCalls).build = .error
      [.undefinedNonterminal "B" "A", .undefinedNonterminal "C" "A",
        .undefinedNonterminal "B" "A", .undefinedNonterminal "B" "T", .missingGoal] := by
    rfl
  have hfinished : (Grammar.ofRules? (unfinishedCalls ++ finishingCalls)).isSome = true := by
    decide
  obtain ⟨g, hg⟩ := Option.isSome_iff_exists.mp hfinished
  obtain ⟨-, -, hrefused⟩ := build_afterOffers unfinishedCalls
  obtain ⟨-, hmade, -⟩ := build_afterOffers (unfinishedCalls ++ finishingCalls)
  have hbuild := Grammar.build_of_ofRules? hg
  exact ⟨hrefused _ herrors, g, hbuild, hmade g hbuild⟩

end Builder

end Lookahead
