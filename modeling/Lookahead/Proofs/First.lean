import Lookahead.Proofs.Nullability
import Lookahead.Proofs.Queries

/-!
# FIRST sets hold exactly what derivations begin with

`Grammar.firstLookaheads` is FIRST of a sequence under the finished tables. A lookahead is in it
exactly if the sequence derives something that begins with it (`mem_firstLookaheads_iff`). Every
lookahead enters a FIRST set with a derivation at hand. Conversely the finished sets are closed
under the rules, so a step of a derivation can only lose beginnings, and the last sequence shows its
first symbol.
-/

namespace Lookahead

/-! ## Growing a table -/

/-- Growing a set adds the symbols to it if its key is in the table, and changes no other set. -/
theorem SetTable.mem_setOf_grow {table : SetTable} {key k a : Symbol} {symbols : SymbolSet} :
    a ∈ (table.grow key symbols).setOf k ↔
      a ∈ table.setOf k ∨ k = key ∧ key ∈ table.keys ∧ a ∈ symbols := by
  unfold SetTable.setOf SetTable.grow SymbolMap.getD
  rw [SymbolMap.get?_modify, SymbolMap.mem_keys]
  by_cases hk : k = key
  · subst hk
    rw [if_pos rfl]
    cases table.get? k <;> simp
  · simp [hk]

/-- Growing a set keeps the keys. -/
@[simp] theorem SetTable.keys_grow (table : SetTable) (key : Symbol) (symbols : SymbolSet) :
    (table.grow key symbols).keys = table.keys :=
  SymbolMap.keys_modify table key _

/-- In the table of empty sets, no key has members. -/
@[simp] theorem SetTable.setOf_ofKeys_empty (keys : SymbolSet) (k : Symbol) :
    SetTable.setOf (SymbolMap.ofKeys keys fun _ => ∅) k = ∅ := by
  unfold SetTable.setOf SymbolMap.getD
  rw [SymbolMap.get?_ofKeys]
  split <;> rfl

/-- A table that does not grow by symbols for a key holds them already. -/
theorem SetTable.subset_setOf_of_grow_eq {table : SetTable} {key : Symbol} {symbols : SymbolSet}
    (hkey : key ∈ table.keys) (h : table.grow key symbols = table) :
    symbols ⊆ table.setOf key := by
  intro a ha
  rw [← h]
  exact SetTable.mem_setOf_grow.mpr (.inr ⟨rfl, hkey, ha⟩)

/-! ## FIRST of a sequence, symbol by symbol -/

/-- Induction along a sequence, by what a symbol means for what can come first. -/
@[elab_as_elim]
theorem class_induction {motive : List Symbol → Prop} (nil : motive [])
    (lambda : ∀ s rest, s.isLambda = true → motive rest → motive (s :: rest))
    (lookahead : ∀ s rest, s.isLookahead = true → motive rest → motive (s :: rest))
    (other : ∀ s rest, s.isLambda = false → s.isLookahead = false → motive rest →
      motive (s :: rest))
    (symbols : List Symbol) : motive symbols := by
  induction symbols using lambda_induction with
  | nil => exact nil
  | deleted s rest hs ih => exact lambda s rest hs ih
  | kept s rest hs ih =>
    by_cases hlookahead : s.isLookahead = true
    · exact lookahead s rest hlookahead ih
    · exact other s rest hs (Bool.eq_false_iff.mpr hlookahead) ih

section FirstOf

variable {nullable : SymbolSet} {first : SetTable} {a s : Symbol} {u v rest : List Symbol}

/-- `lambda` in front counts as nothing. -/
theorem firstOf_cons_of_isLambda (hs : s.isLambda = true) :
    firstOf nullable first (s :: rest) = firstOf nullable first rest := by
  rw [firstOf, if_pos hs]

/-- A sequence with a lookahead in front begins with it. -/
theorem mem_firstOf_cons_of_isLookahead (hs : s.isLookahead = true) :
    a ∈ firstOf nullable first (s :: rest) ↔ a = s := by
  rw [firstOf, if_neg (by simp [Symbol.isLambda_eq_false_of_isLookahead hs]), if_pos hs]
  simp

/-- A sequence with a nonterminal in front begins as the nonterminal does, or as the rest if that is
nullable. -/
theorem mem_firstOf_cons (hlambda : s.isLambda = false) (hlookahead : s.isLookahead = false) :
    a ∈ firstOf nullable first (s :: rest) ↔
      a ∈ first.setOf s ∨ s ∈ nullable ∧ a ∈ firstOf nullable first rest := by
  rw [firstOf, if_neg (by simp [hlambda]), if_neg (by simp [hlookahead])]
  split <;> simp_all

/-- `lambda` counts as nothing wherever it stands. -/
theorem firstOf_eraseLambda :
    firstOf nullable first (eraseLambda u) = firstOf nullable first u := by
  induction u using lambda_induction with
  | nil => rfl
  | deleted s rest hs ih => rw [eraseLambda_cons_of_isLambda hs, firstOf_cons_of_isLambda hs, ih]
  | kept s rest hs ih => rw [eraseLambda_cons_of_not_isLambda hs, firstOf, firstOf, ih]

/-- What begins two sequences in a row begins the first or, where that vanishes, the second. -/
theorem mem_firstOf_append (hnullable : ∀ s ∈ nullable, s.isLookahead = false) :
    a ∈ firstOf nullable first (u ++ v) ↔
      a ∈ firstOf nullable first u ∨
        vanishes nullable u = true ∧ a ∈ firstOf nullable first v := by
  induction u using class_induction with
  | nil => simp [firstOf, vanishes]
  | lambda s rest hs ih =>
    rw [List.cons_append, firstOf_cons_of_isLambda hs, firstOf_cons_of_isLambda hs, ih,
      vanishes_cons, hs]
    simp
  | lookahead s rest hs ih =>
    -- nothing behind a lookahead can come first, and no lookahead vanishes
    have hmem : s ∉ nullable := fun hmem => by simp [hnullable s hmem] at hs
    have hlambda := Symbol.isLambda_eq_false_of_isLookahead hs
    rw [List.cons_append, mem_firstOf_cons_of_isLookahead hs, mem_firstOf_cons_of_isLookahead hs,
      vanishes_cons]
    simp [hmem, hlambda]
  | other s rest hlambda hlookahead ih =>
    rw [List.cons_append, mem_firstOf_cons hlambda hlookahead, mem_firstOf_cons hlambda hlookahead,
      ih, vanishes_cons, hlambda]
    by_cases hs : s ∈ nullable <;> simp [hs, or_assoc]

end FirstOf

namespace Grammar

variable {g : Grammar} {a : Symbol} {u v : List Symbol}

/-- FIRST of a sequence, from the finished tables. -/
def firstLookaheads (g : Grammar) (symbols : List Symbol) : SymbolSet :=
  firstOf g.nullable (g.firstSets g.nullable) symbols

/-- The lookaheads in use are terminals of the grammar, apart from the end marker. -/
theorem WellFormed.mem_terminals_of_mem_lookaheads (hg : g.WellFormed) (ha : a ∈ g.lookaheads) :
    a ∈ g.terminals ∨ a = Symbol.endMarker := by
  rcases SymbolSet.mem_insert.mp ha with rfl | ha
  · exact .inr rfl
  · obtain ⟨hmem, hlookahead⟩ := List.mem_filter.mp (SymbolSet.mem_ofList.mp ha)
    obtain ⟨alt, halt, ha⟩ := List.mem_flatten.mp hmem
    obtain ⟨⟨lhs, alts⟩, hentry, halt⟩ := List.mem_flatMap.mp halt
    rw [← RuleTable.alternatives_of_mem_entries hentry] at halt
    refine (Symbol.isLookahead_iff.mp hlookahead).imp_left fun hterminal => ?_
    exact (hg.mem_terminals a).mpr ⟨hterminal, lhs, alt, halt, ha⟩

/-- The lookaheads of a grammar are lookaheads. -/
theorem WellFormed.isLookahead_of_mem_lookaheads (hg : g.WellFormed) (ha : a ∈ g.lookaheads) :
    a.isLookahead = true := by
  refine Symbol.isLookahead_iff.mpr ((hg.mem_terminals_of_mem_lookaheads ha).imp_left fun ha => ?_)
  exact ((hg.mem_terminals a).mp ha).1

/-- No lookahead is nullable. -/
theorem WellFormed.isLookahead_of_mem_nullable (hg : g.WellFormed) :
    ∀ s ∈ g.nullable, s.isLookahead = false := by
  intro s hs
  have hnonterminal := hg.isNonterminal_of_mem s (hg.mem_nonterminals_of_mem_nullable hs)
  exact Symbol.isLookahead_eq_false_of_isNonterminal hnonterminal

/-- Two parts begin as the first part does, or as the second if the first vanishes. -/
theorem WellFormed.mem_firstLookaheads_append (hg : g.WellFormed) :
    a ∈ g.firstLookaheads (u ++ v) ↔
      a ∈ g.firstLookaheads u ∨ vanishes g.nullable u = true ∧ a ∈ g.firstLookaheads v :=
  mem_firstOf_append hg.isLookahead_of_mem_nullable

/-- Deleting `lambda` loses no beginning. -/
theorem firstLookaheads_eraseLambda : g.firstLookaheads (eraseLambda u) = g.firstLookaheads u :=
  firstOf_eraseLambda

/-! ## Each beginning has a derivation -/

/-- FIRST of a sequence is sound if the sets it is read from are. -/
theorem exists_derives_of_mem_firstOf {nullable : SymbolSet} {first : SetTable}
    (hnullable : ∀ N ∈ nullable, g.Derives [N] [])
    (hfirst : ∀ N, ∀ b ∈ first.setOf N, ∃ rest, g.Derives [N] (b :: rest))
    (ha : a ∈ firstOf nullable first u) : ∃ rest, g.Derives (eraseLambda u) (a :: rest) := by
  induction u using class_induction with
  | nil => exact absurd ha (SymbolSet.not_mem_empty a)
  | lambda s rest hs ih =>
    rw [firstOf_cons_of_isLambda hs] at ha
    rw [eraseLambda_cons_of_isLambda hs]
    exact ih ha
  | lookahead s rest hs ih =>
    obtain rfl := (mem_firstOf_cons_of_isLookahead hs).mp ha
    have hlambda := Symbol.isLambda_eq_false_of_isLookahead hs
    rw [eraseLambda_cons_of_not_isLambda hlambda]
    exact ⟨eraseLambda rest, Derives.refl _⟩
  | other s rest hlambda hlookahead ih =>
    rw [eraseLambda_cons_of_not_isLambda hlambda]
    rcases (mem_firstOf_cons hlambda hlookahead).mp ha with ha | ⟨hs, ha⟩
    · obtain ⟨tail, htail⟩ := hfirst s a ha
      exact ⟨tail ++ eraseLambda rest, htail.append_right (eraseLambda rest)⟩
    · -- the first symbol vanishes before what the rest begins with
      obtain ⟨tail, htail⟩ := ih ha
      exact ⟨tail, (hnullable s hs).append htail⟩

/-- Every member of a FIRST set begins something its nonterminal derives. -/
theorem WellFormed.exists_derives_of_mem_firstSets (hg : g.WellFormed) :
    ∀ N, ∀ b ∈ (g.firstSets g.nullable).setOf N, ∃ rest, g.Derives [N] (b :: rest) := by
  apply Descent.limit_pass_induction (P := fun first : SetTable =>
    ∀ N, ∀ b ∈ first.setOf N, ∃ rest, g.Derives [N] (b :: rest))
  · -- what a rule adds to its left-hand side begins its right-hand side
    intro r hr first hfirst N b hb
    rcases SetTable.mem_setOf_grow.mp hb with hb | ⟨rfl, -, hb⟩
    · exact hfirst N b hb
    · obtain ⟨rest, hrest⟩ :=
        exists_derives_of_mem_firstOf hg.derives_nil_of_mem_nullable hfirst hb
      have hrule := Derives.singleton_of_alternative (hg.mem_allRules.mp hr)
      exact ⟨rest, hrule.trans hrest⟩
  · intro N b hb
    unfold emptyTable at hb
    rw [SetTable.setOf_ofKeys_empty] at hb
    exact absurd hb (SymbolSet.not_mem_empty b)

/-! ## Each derivation shows a beginning -/

/-- Every nonterminal has a FIRST set. -/
theorem keys_firstSets (g : Grammar) (nullable : SymbolSet) :
    (g.firstSets nullable).keys = g.nonterminals := by
  apply Descent.limit_pass_induction (P := fun first : SetTable => first.keys = g.nonterminals)
  · intro r _ first hfirst
    exact (SetTable.keys_grow first r.lhs _).trans hfirst
  · exact SymbolMap.keys_ofKeys g.nonterminals _

/-- The FIRST sets are closed under the rules. -/
theorem WellFormed.firstLookaheads_subset (hg : g.WellFormed) {lhs : Symbol} {alt : Alternative}
    (halt : alt ∈ g.table.alternatives lhs) :
    g.firstLookaheads alt ⊆ (g.firstSets g.nullable).setOf lhs := by
  have hr : (⟨lhs, alt⟩ : Rule) ∈ g.allRules := hg.mem_allRules.mpr halt
  have hkey : lhs ∈ (g.firstSets g.nullable).keys := by
    rw [keys_firstSets]
    exact hg.lhs_mem halt
  have hfixed : firstStep g.nullable (g.firstSets g.nullable) ⟨lhs, alt⟩ =
      g.firstSets g.nullable := Descent.apply_limit_pass _ _ _ hr
  exact SetTable.subset_setOf_of_grow_eq hkey hfixed

/-- FIRST of a nonterminal with more behind it. -/
theorem WellFormed.mem_firstLookaheads_cons (hg : g.WellFormed) {N : Symbol}
    (hN : N ∈ g.nonterminals) :
    a ∈ g.firstLookaheads (N :: v) ↔
      a ∈ (g.firstSets g.nullable).setOf N ∨ N ∈ g.nullable ∧ a ∈ g.firstLookaheads v := by
  have hnonterminal := hg.isNonterminal_of_mem N hN
  exact mem_firstOf_cons (Symbol.isLambda_eq_false_of_isNonterminal hnonterminal)
    (Symbol.isLookahead_eq_false_of_isNonterminal hnonterminal)

/-- Expanding the first nonterminal of a sequence loses beginnings at most. -/
theorem WellFormed.firstLookaheads_subset_cons (hg : g.WellFormed) {lhs : Symbol}
    {alt : Alternative} (halt : alt ∈ g.table.alternatives lhs) :
    g.firstLookaheads (eraseLambda alt ++ v) ⊆ g.firstLookaheads (lhs :: v) := by
  intro a ha
  rw [hg.mem_firstLookaheads_append, firstLookaheads_eraseLambda, vanishes_eraseLambda] at ha
  rw [hg.mem_firstLookaheads_cons (hg.lhs_mem halt)]
  rcases ha with ha | ⟨hvanishes, ha⟩
  · exact .inl (hg.firstLookaheads_subset halt a ha)
  · exact .inr ⟨hg.mem_nullable_of_vanishes halt hvanishes, ha⟩

/-- A step of a derivation loses beginnings at most. -/
theorem WellFormed.firstLookaheads_subset_of_produces (hg : g.WellFormed) (h : g.Produces u v) :
    g.firstLookaheads v ⊆ g.firstLookaheads u := by
  obtain @⟨lhs, alt, before, after, halt⟩ := h
  intro a ha
  rw [List.append_assoc, hg.mem_firstLookaheads_append] at ha
  rw [hg.mem_firstLookaheads_append]
  exact ha.imp_right fun ⟨hbefore, ha⟩ =>
    ⟨hbefore, hg.firstLookaheads_subset_cons halt a ha⟩

/-- A derivation loses beginnings at most. -/
theorem WellFormed.firstLookaheads_subset_of_derives (hg : g.WellFormed) (h : g.Derives u v) :
    g.firstLookaheads v ⊆ g.firstLookaheads u := by
  induction h with
  | refl => exact SymbolSet.subset_refl _
  | tail _ hstep ih =>
    exact SymbolSet.subset_trans (hg.firstLookaheads_subset_of_produces hstep) ih

/-- The beginnings of a sequence are lookaheads. -/
theorem WellFormed.isLookahead_of_mem_firstLookaheads (hg : g.WellFormed)
    (ha : a ∈ g.firstLookaheads u) : a.isLookahead = true := by
  have hrange := g.within_firstSets g.nullable
  unfold firstLookaheads at ha
  induction u using class_induction with
  | nil => exact absurd ha (SymbolSet.not_mem_empty a)
  | lambda s rest hs ih =>
    rw [firstOf_cons_of_isLambda hs] at ha
    exact ih ha
  | lookahead s rest hs ih =>
    obtain rfl := (mem_firstOf_cons_of_isLookahead hs).mp ha
    exact hs
  | other s rest hlambda hlookahead ih =>
    rcases (mem_firstOf_cons hlambda hlookahead).mp ha with ha | ⟨-, ha⟩
    · exact hg.isLookahead_of_mem_lookaheads (SetTable.setOf_subset hrange s a ha)
    · exact ih ha

/-- FIRST of a sequence holds the lookaheads that begin what the sequence derives. -/
theorem WellFormed.mem_firstLookaheads_iff (hg : g.WellFormed) :
    a ∈ g.firstLookaheads u ↔
      a.isLookahead = true ∧ ∃ rest, g.Derives (eraseLambda u) (a :: rest) := by
  constructor
  · intro ha
    refine ⟨hg.isLookahead_of_mem_firstLookaheads ha, ?_⟩
    exact exists_derives_of_mem_firstOf hg.derives_nil_of_mem_nullable
      hg.exists_derives_of_mem_firstSets ha
  · rintro ⟨hlookahead, rest, hrest⟩
    have ha : a ∈ g.firstLookaheads (a :: rest) :=
      (mem_firstOf_cons_of_isLookahead hlookahead).mpr rfl
    have hsubset := hg.firstLookaheads_subset_of_derives hrest
    rw [firstLookaheads_eraseLambda] at hsubset
    exact hsubset a ha

/-! ## The answers to questions -/

/-- The terminals of what known symbols derive are terminals of the grammar. -/
theorem WellFormed.mem_terminals_of_derives (hg : g.WellFormed) (hu : ∀ s ∈ u, g.Knows s)
    (h : g.Derives (eraseLambda u) v) : ∀ s ∈ v, s.isTerminal = true → s ∈ g.terminals := by
  refine Derives.forall_mem (fun _ halt s hs hterminal => ?_) h fun s hs hterminal => ?_
  · exact (hg.mem_terminals s).mpr ⟨hterminal, _, _, halt, (mem_eraseLambda.mp hs).1⟩
  · rcases hu s (mem_eraseLambda.mp hs).1 with hs | hs | rfl | rfl
    · exact hs
    · have hnonterminal := hg.isNonterminal_of_mem s hs
      simp [Symbol.isNonterminal, hterminal] at hnonterminal
    · exact absurd hterminal (by decide)
    · exact absurd hterminal (by decide)

/-- FIRST of any sequence of known symbols is answered, by the terminals and the end marker that
begin what the sequence derives. -/
theorem Built.firstSet_iff_derives (h : g.Built) {symbols : List Symbol}
    (hknown : ∀ s ∈ symbols, g.Knows s) :
    ∃ set, g.analyze.firstSet symbols = .ok set ∧
      ∀ a, a ∈ set ↔ (a ∈ g.terminals ∨ a = Symbol.endMarker) ∧
        ∃ rest, g.Derives (eraseLambda symbols) (a :: rest) := by
  have hg := h.wellFormed
  refine ⟨g.firstLookaheads symbols, Analysis.firstSet_eq_ok hknown, fun a => ?_⟩
  rw [hg.mem_firstLookaheads_iff, Symbol.isLookahead_iff]
  constructor
  · rintro ⟨hlookahead, rest, hrest⟩
    have hterminals := hg.mem_terminals_of_derives hknown hrest
    exact ⟨hlookahead.imp_left (hterminals a (by simp)), rest, hrest⟩
  · rintro ⟨hmember, hrest⟩
    exact ⟨hmember.imp_left fun ha => ((hg.mem_terminals a).mp ha).1, hrest⟩

/-- Left recursion in `E` and `A`, and in `T` behind the nullable `A`. -/
def leftRecursive : Grammar :=
  (ofRules? [("S", [["E", "$"]]), ("E", [["E", "plus", "T"], ["T"]]),
    ("T", [["id"], ["A", "T", "num"]]), ("A", [["A", "bang"], ["lambda"]])]).get (by decide)

/-- In front of the end marker, left recursion leaves two beginnings. -/
theorem leftRecursive_firstSet :
    leftRecursive.Built ∧ (∀ s ∈ ["A", "lambda", "E", "$"], leftRecursive.Knows s) ∧
      ∃ set, leftRecursive.analyze.firstSet ["A", "lambda", "E", "$"] = .ok set ∧
        set.toList = ["bang", "id"] ∧
        (∀ a, a ∈ set ↔ (a ∈ leftRecursive.terminals ∨ a = Symbol.endMarker) ∧
          ∃ rest, leftRecursive.Derives (eraseLambda ["A", "lambda", "E", "$"]) (a :: rest)) ∧
        (∃ rest, leftRecursive.Derives ["A", "E", "$"] ("bang" :: rest)) ∧
        ¬∃ rest, leftRecursive.Derives ["A", "E", "$"] ("$" :: rest) := by
  have hbuilt : leftRecursive.Built := built_of_ofRules? (Option.some_get _).symm
  have hknown : ∀ s ∈ ["A", "lambda", "E", "$"], leftRecursive.Knows s := by decide
  have herased : eraseLambda ["A", "lambda", "E", "$"] = ["A", "E", "$"] := by decide
  obtain ⟨set, hset, hfirst⟩ := hbuilt.firstSet_iff_derives hknown
  have hcomputed : leftRecursive.analyze.firstSet ["A", "lambda", "E", "$"] =
      .ok (.ofList ["bang", "id"]) := by decide +kernel
  obtain rfl := Except.ok.inj (hcomputed.symm.trans hset)
  obtain ⟨-, hbang⟩ := (hfirst "bang").mp (by decide)
  have hend : ¬∃ rest, leftRecursive.Derives ["A", "E", "$"] ("$" :: rest) := fun hrest =>
    absurd ((hfirst "$").mpr ⟨.inr rfl, herased ▸ hrest⟩) (by decide)
  exact ⟨hbuilt, hknown, _, hset, by decide, hfirst, herased ▸ hbang, hend⟩

end Grammar

end Lookahead
