import Lookahead.Nullability.Least

/-!
# Nullability with cycles assumed to vanish

A depth-first search for a way to vanish meets a cycle when it comes back to a question it is still
answering. Here it then assumes the answer it hopes for. Such a search ends, since the questions
along one path are all different, but it calls a nonterminal such as `A` in `A -> A` nullable, which
`Grammar.nullable` does not.

`Grammar.cyclicallyNullable` names the nonterminals on which the two disagree. It searches only from
nonterminals that reach a cycle of others which are not nullable, and takes the answer for all
others from the nullable set.
-/

namespace Lookahead

/-- A question the search is answering: whether `candidate` vanishes, as `rule` needs it to. -/
structure Obligation where
  rule : Rule
  candidate : Symbol
  deriving DecidableEq, Repr

namespace Grammar

/-- Every question that a search can meet. -/
def obligations (g : Grammar) : List Obligation :=
  g.table.entries.flatMap fun (lhs, alts) =>
    alts.flatMap fun alt => alt.map fun candidate => ⟨⟨lhs, alt⟩, candidate⟩

/-- Each symbol of each rule is a question that a search can meet. -/
theorem mem_obligations {g : Grammar} {lhs : Symbol} {rule : Rule} (hrule : rule ∈ g.rulesFor lhs)
    {candidate : Symbol} (hcandidate : candidate ∈ rule.rhs) :
    ⟨rule, candidate⟩ ∈ g.obligations := by
  obtain ⟨alt, halt, rfl⟩ := List.mem_map.mp hrule
  unfold RuleTable.alternatives SymbolMap.getD at halt
  cases hget : g.table.get? lhs with
  | none => simp [hget] at halt
  | some alts =>
    rw [hget] at halt
    exact List.mem_flatMap.mpr ⟨(lhs, alts), SymbolMap.get?_eq_some_iff.mp hget,
      List.mem_flatMap.mpr ⟨alt, halt, List.mem_map.mpr ⟨candidate, hcandidate, rfl⟩⟩⟩

/-- The questions not yet asked along a path. -/
def unasked (g : Grammar) (path : List Obligation) : List Obligation :=
  g.obligations.filter (· ∉ path)

/-- Of the questions in a list, asking a new one leaves fewer. -/
theorem length_filter_not_mem_cons_lt {questions path : List Obligation} {o : Obligation}
    (ho : o ∈ questions) (hnew : o ∉ path) :
    (questions.filter (· ∉ o :: path)).length < (questions.filter (· ∉ path)).length := by
  have hfilter :
      questions.filter (· ∉ o :: path) = (questions.filter (· ∉ path)).filter (· ≠ o) := by
    rw [List.filter_filter]
    congr 1
    funext x
    simp [List.mem_cons, not_or]
  rw [hfilter]
  refine List.length_filter_lt_length_iff_exists.mpr ⟨o, ?_, by simp⟩
  exact List.mem_filter.mpr ⟨ho, by simpa using hnew⟩

/-- Asking a new question leaves fewer to ask. -/
theorem unasked_cons_lt {g : Grammar} {path : List Obligation} {o : Obligation}
    (ho : o ∈ g.obligations) (hnew : o ∉ path) :
    (g.unasked (o :: path)).length < (g.unasked path).length :=
  length_filter_not_mem_cons_lt ho hnew

/-- Whether the search finds a way for a nonterminal to vanish, below the questions of `path`.
Where `settled` knows the answer for a nonterminal, that answer is taken. -/
def canVanish (g : Grammar) (settled : Symbol → Option Bool) (path : List Obligation)
    (nonterminal : Symbol) : Bool :=
  (g.rulesFor nonterminal).attach.any fun ⟨rule, _⟩ =>
    Alternative.isEmptyString rule.rhs ||
      (!rule.rhs.any Symbol.isLookahead &&
        rule.rhs.attach.all fun ⟨candidate, _⟩ =>
          !candidate.isNonterminal ||
            match settled candidate with
            | some known => known
            | none =>
              if _h : ⟨rule, candidate⟩ ∈ path then true
              else canVanish g settled (⟨rule, candidate⟩ :: path) candidate)
termination_by (g.unasked path).length
decreasing_by exact unasked_cons_lt (mem_obligations ‹_› ‹_›) ‹_›

/-- Testing the elements of a list together with their membership makes no difference. -/
theorem any_attach_val {α : Type} (l : List α) (p : α → Bool) :
    (l.attach.any fun x => p x.1) = l.any p := by
  rw [show (fun x : {a // a ∈ l} => p x.1) = p ∘ Subtype.val from rfl, ← List.any_map,
    List.attach_map_subtype_val]

/-- Testing the elements of a list together with their membership makes no difference. -/
theorem all_attach_val {α : Type} (l : List α) (p : α → Bool) :
    (l.attach.all fun x => p x.1) = l.all p := by
  rw [show (fun x : {a // a ∈ l} => p x.1) = p ∘ Subtype.val from rfl, ← List.all_map,
    List.attach_map_subtype_val]

/-- The search, one level down. -/
theorem canVanish_eq (g : Grammar) (settled : Symbol → Option Bool) (path : List Obligation)
    (nonterminal : Symbol) :
    g.canVanish settled path nonterminal = (g.rulesFor nonterminal).any fun rule =>
      Alternative.isEmptyString rule.rhs ||
        (!rule.rhs.any Symbol.isLookahead &&
          rule.rhs.all fun candidate =>
            !candidate.isNonterminal ||
              (settled candidate).getD (decide (⟨rule, candidate⟩ ∈ path) ||
                g.canVanish settled (⟨rule, candidate⟩ :: path) candidate)) := by
  rw [canVanish]
  refine Eq.trans (congrArg (List.any _) (funext fun ⟨rule, _⟩ => ?_)) (any_attach_val _ _)
  refine congrArg (Alternative.isEmptyString rule.rhs || ·) ?_
  refine congrArg ((!rule.rhs.any Symbol.isLookahead) && ·) ?_
  refine Eq.trans (congrArg (List.all _) (funext fun ⟨candidate, _⟩ => ?_)) (all_attach_val _ _)
  refine congrArg ((!candidate.isNonterminal) || ·) ?_
  cases settled candidate with
  | some known => rfl
  | none => by_cases hpath : (⟨rule, candidate⟩ : Obligation) ∈ path <;> simp [hpath]

/-- Nullability as the search alone sees it. -/
def optimisticallyNullable (g : Grammar) (nonterminal : Symbol) : Bool :=
  g.canVanish (fun _ => none) [] nonterminal

/-- Whether an alternative without lookaheads leads from a nonterminal to one of `targets`. -/
def leadsInto (g : Grammar) (targets : SymbolSet) (nonterminal : Symbol) : Bool :=
  (g.rulesFor nonterminal).any fun rule =>
    !rule.rhs.any Symbol.isLookahead && rule.rhs.any fun s => decide (s ∈ targets)

/-- One round drops the nonterminals from which nothing leads back into the set. -/
def peeling (g : Grammar) : Descent SymbolSet where
  step remaining := remaining.filter (g.leadsInto remaining)
  inRange _ := True
  rank := SymbolSet.size
  inRange_step _ _ := trivial
  rank_step_lt _ _ hne :=
    SymbolSet.size_lt_of_subset_of_ne (fun _ ha => (SymbolSet.mem_filter.mp ha).1) hne

/-- The nonterminals that are not nullable and reach a cycle of such nonterminals through
alternatives without lookaheads. -/
def cycleReaching (g : Grammar) (nullable : SymbolSet) : SymbolSet :=
  g.peeling.limit (g.nonterminals.filter (· ∉ nullable)) trivial

/-- The nonterminals that are nullable only if cycles are assumed to vanish. -/
def cyclicallyNullable (g : Grammar) (nullable : SymbolSet) : SymbolSet :=
  let suspects := g.cycleReaching nullable
  let settled := fun s => if s ∈ suspects then none else some (decide (s ∈ nullable))
  suspects.filter (g.canVanish settled [])

end Grammar

end Lookahead
