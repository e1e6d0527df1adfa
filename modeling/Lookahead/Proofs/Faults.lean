import Lookahead.Proofs.RuleIndex
import Mathlib.Data.List.Chain
import Mathlib.Data.List.Induction

/-!
# What finishing the rules reports

Finishing fails exactly if it has a fault to report (`build_eq_error_iff`): a use of a nonterminal
that has no rules, or a goal that is missing. Every undefined use is reported
(`mem_undefinedUses_iff`), in the order of the table, and no report repeats the one right before it
(`isChain_undefinedUses`). Without faults the rules are a grammar (`exists_build_iff`).
-/

namespace Lookahead

/-! ## Runs of equal elements -/

section Reps

variable {α : Type} [BEq α]

/-- Of two equal neighbours the first one stays. -/
theorem eraseReps_cons_cons (a b : α) (rest : List α) :
    (a :: b :: rest).eraseReps =
      if a == b then (a :: rest).eraseReps else a :: (b :: rest).eraseReps := by
  -- what the loop has collected so far comes in front of what it goes on to collect
  have hloop : ∀ (rest : List α) (a : α) (acc : List α),
      List.eraseRepsBy.loop (· == ·) a rest acc =
        acc.reverse ++ List.eraseRepsBy.loop (· == ·) a rest [] := by
    intro rest
    induction rest with
    | nil => simp [List.eraseRepsBy.loop]
    | cons b rest ih =>
      intro a acc
      rw [List.eraseRepsBy.loop, List.eraseRepsBy.loop]
      split
      · exact ih a acc
      · rw [ih b (a :: acc), ih b [a]]
        simp
  have hstart : ∀ (a : α) (rest : List α),
      (a :: rest).eraseReps = List.eraseRepsBy.loop (· == ·) a rest [] := fun _ _ => rfl
  rw [hstart, hstart, hstart, List.eraseRepsBy.loop]
  cases a == b with
  | true => rfl
  | false => exact hloop rest b [a]

/-- The first element of a list stays the first. -/
theorem head?_eraseReps (l : List α) : l.eraseReps.head? = l.head? := by
  induction l using List.twoStepInduction with
  | nil => rfl
  | singleton a => rfl
  | cons_cons a b rest _ ih =>
    rw [eraseReps_cons_cons]
    split
    · exact ih a
    · rfl

variable [LawfulBEq α]

/-- Only repetitions are dropped. -/
@[simp] theorem mem_eraseReps {x : α} {l : List α} : x ∈ l.eraseReps ↔ x ∈ l := by
  induction l using List.twoStepInduction with
  | nil => rfl
  | singleton a => rfl
  | cons_cons a b rest _ ih =>
    rw [eraseReps_cons_cons]
    split
    · rename_i heq
      rw [ih, eq_of_beq heq]
      simp
    · rw [List.mem_cons, ih, List.mem_cons (a := x) (b := a)]

/-- Of a run of equal elements one is left. -/
theorem isChain_eraseReps (l : List α) : l.eraseReps.IsChain (· ≠ ·) := by
  induction l using List.twoStepInduction with
  | nil => exact .nil
  | singleton a => exact .singleton a
  | cons_cons a b rest _ ih =>
    rw [eraseReps_cons_cons]
    split
    · exact ih a
    · rename_i hne
      refine List.isChain_cons.mpr ⟨?_, ih b⟩
      rw [head?_eraseReps]
      rintro _ ⟨⟩ rfl
      exact hne BEq.rfl

end Reps

/-! ## Undefined uses -/

namespace RuleTable

variable {table : RuleTable}

/-- The uses of nonterminals without rules are reported, and nothing else. -/
theorem mem_undefinedUses_iff {fault : GrammarError} :
    fault ∈ table.undefinedUses ↔
      ∃ symbol lhs, fault = .undefinedNonterminal symbol lhs ∧ symbol.isNonterminal = true ∧
        table.contains symbol = false ∧ ∃ alt ∈ table.alternatives lhs, symbol ∈ alt := by
  unfold undefinedUses
  simp only [mem_eraseReps, List.mem_flatMap, List.mem_filterMap, List.mem_flatten]
  constructor
  · rintro ⟨⟨lhs, alts⟩, hentry, symbol, ⟨alt, halt, hsymbol⟩, hfault⟩
    obtain ⟨hundefined, hfault⟩ := Option.ite_none_right_eq_some.mp hfault
    obtain rfl := Option.some.inj hfault
    rw [Bool.and_eq_true, Bool.not_eq_true'] at hundefined
    exact ⟨symbol, lhs, rfl, hundefined.1, hundefined.2, alt,
      mem_alternatives_iff.mpr ⟨alts, hentry, halt⟩, hsymbol⟩
  · rintro ⟨symbol, lhs, rfl, hnonterminal, hcontains, alt, halt, hsymbol⟩
    obtain ⟨alts, hentry, halt⟩ := mem_alternatives_iff.mp halt
    exact ⟨(lhs, alts), hentry, symbol, ⟨alt, halt, hsymbol⟩, by simp [hnonterminal, hcontains]⟩

/-- No undefined use comes twice in a row. -/
theorem isChain_undefinedUses (table : RuleTable) : table.undefinedUses.IsChain (· ≠ ·) :=
  isChain_eraseReps _

/-- No use is undefined exactly if every nonterminal in use has rules. -/
theorem undefinedUses_eq_nil_iff :
    table.undefinedUses = [] ↔
      ∀ {lhs : Symbol} {alt : Alternative}, alt ∈ table.alternatives lhs → ∀ N ∈ alt,
        N.isNonterminal = true → table.contains N = true := by
  rw [List.eq_nil_iff_forall_not_mem]
  simp only [mem_undefinedUses_iff]
  constructor
  · intro hnone lhs alt halt N hN hnonterminal
    by_contra hcontains
    exact hnone _ ⟨N, lhs, rfl, hnonterminal, Bool.eq_false_iff.mpr hcontains, alt, halt, hN⟩
  · rintro hdefined _ ⟨N, lhs, rfl, hnonterminal, hcontains, alt, halt, hN⟩
    rw [hdefined halt N hN hnonterminal] at hcontains
    exact absurd hcontains.symm Bool.false_ne_true

end RuleTable

/-! ## Finishing -/

namespace Builder

variable {b : Builder}

/-- Nothing is at fault exactly if no use is undefined and there is a goal. -/
theorem faults_eq_nil_iff : b.faults = [] ↔ b.table.undefinedUses = [] ∧ b.goal ≠ none := by
  unfold faults
  rw [List.append_eq_nil_iff]
  cases b.goal <;> simp

/-- Finishing fails exactly if there is something to report. -/
theorem build_eq_error_iff {faults : List GrammarError} :
    b.build = .error faults ↔ faults = b.faults ∧ b.faults ≠ [] := by
  unfold build
  cases hgoal : b.goal with
  | none =>
    have hne : b.faults ≠ [] := fun h => (faults_eq_nil_iff.mp h).2 hgoal
    simp [hne, eq_comm]
  | some goal => cases hfaults : b.faults <;> simp [eq_comm]

/-- Rules make a grammar exactly if there is a goal and every nonterminal in use has rules. -/
theorem exists_build_iff :
    (∃ g, b.build = .ok g) ↔
      (∃ goal, b.goal = some goal) ∧
        ∀ {lhs : Symbol} {alt : Alternative}, alt ∈ b.table.alternatives lhs → ∀ N ∈ alt,
          N.isNonterminal = true → b.table.contains N = true := by
  rw [← RuleTable.undefinedUses_eq_nil_iff, ← Option.ne_none_iff_exists', and_comm,
    ← faults_eq_nil_iff]
  constructor
  · rintro ⟨g, hg⟩
    by_contra hne
    rw [build_eq_error_iff.mpr ⟨rfl, hne⟩] at hg
    exact nomatch hg
  · intro hnone
    cases hbuild : b.build with
    | ok g => exact ⟨g, rfl⟩
    | error faults => exact absurd hnone (build_eq_error_iff.mp hbuild).2

end Builder

end Lookahead
