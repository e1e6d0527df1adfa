import Lookahead.Proofs.Diagnosis

/-!
# The alternatives written for a nonterminal

A line belongs to the last head line at or before it (`IsUnder`). The alternatives on the lines that
belong to head lines for a nonterminal are, in order, those that the rules made up from all lines
give it (`MakesUp.exists_lines`), and so those of the grammar (`exists_written_of_readText`).
-/

namespace Lookahead.Source

variable {text file : String} {lines : List NumberedLine} {rules : List WrittenRule} {N : Symbol}

/-- Whether a place is at or behind a head line for a nonterminal, and in front of all later head
lines. -/
def IsUnder (lines : List NumberedLine) (N : Symbol) (number : Nat) : Prop :=
  ∃ start alts, ⟨start, .head N alts⟩ ∈ lines ∧ start ≤ number ∧
    ∀ other lhs alts', ⟨other, .head lhs alts'⟩ ∈ lines → start < other → number < other

section Rule

variable {number : Nat} {lhs : Symbol} {alts : List Alternative}
  {continuations more : List NumberedLine}

/-- Among a head line, lines that continue it and more lines, the head lines are the first and those
among the others. -/
theorem head_mem_iff (hcontinuations : ∀ line ∈ continuations, line.content.isContinuation = true)
    {start : Nat} {M : Symbol} {alts' : List Alternative} :
    (⟨start, .head M alts'⟩ : NumberedLine) ∈
        (⟨number, .head lhs alts⟩ :: (continuations ++ more) : List NumberedLine) ↔
      (start = number ∧ M = lhs ∧ alts' = alts) ∨ ⟨start, .head M alts'⟩ ∈ more := by
  have hnot : (⟨start, .head M alts'⟩ : NumberedLine) ∉ continuations :=
    fun hmem => Bool.false_ne_true (hcontinuations _ hmem)
  simp only [List.mem_cons, List.mem_append, NumberedLine.mk.injEq, RuleLine.head.injEq, hnot,
    false_or]

variable (hcontinuations : ∀ line ∈ continuations, line.content.isContinuation = true)
  (hascending : (⟨number, .head lhs alts⟩ :: (continuations ++ more) : List NumberedLine).Pairwise
    (·.number < ·.number))
include hcontinuations hascending

/-- Up to the next head line all lines are under the first one. -/
theorem isUnder_cons_iff {line : NumberedLine}
    (hline : line ∈ (⟨number, .head lhs alts⟩ :: continuations : List NumberedLine)) :
    IsUnder (⟨number, .head lhs alts⟩ :: (continuations ++ more)) N line.number ↔ N = lhs := by
  rw [← List.cons_append] at hascending
  obtain ⟨hrule, -, hbefore⟩ := List.pairwise_append.mp hascending
  have hle : number ≤ line.number := by
    rcases List.mem_cons.mp hline with rfl | hline
    · exact Nat.le_refl _
    · exact Nat.le_of_lt ((List.pairwise_cons.mp hrule).1 _ hline)
  simp only [IsUnder, head_mem_iff hcontinuations]
  constructor
  · rintro ⟨start, alts', ⟨-, hN, -⟩ | hstart, hstartle, -⟩
    · exact hN
    · exact absurd hstartle (Nat.not_le_of_lt (hbefore _ hline _ hstart))
  · rintro rfl
    refine ⟨number, alts, .inl ⟨rfl, rfl, rfl⟩, hle, ?_⟩
    rintro other M alts' (⟨rfl, -, -⟩ | hother) hlt
    · exact absurd hlt (Nat.lt_irrefl _)
    · exact hbefore _ hline _ hother

/-- Behind the next head line the first one does not matter. -/
theorem isUnder_iff_of_mem (hmore : MakesUp more rules) {line : NumberedLine}
    (hline : line ∈ more) :
    IsUnder (⟨number, .head lhs alts⟩ :: (continuations ++ more)) N line.number ↔
      IsUnder more N line.number := by
  rw [← List.cons_append] at hascending
  obtain ⟨-, hbehind, hbefore⟩ := List.pairwise_append.mp hascending
  simp only [IsUnder, head_mem_iff hcontinuations]
  constructor
  · rintro ⟨start, alts', ⟨rfl, rfl, rfl⟩ | hstart, hle, hnone⟩
    · -- the next head line stands between
      cases hmore with
      | nil => exact absurd hline List.not_mem_nil
      | @rule next M alts'' _ _ _ _ _ =>
        have hnext := hnone next M alts'' (.inr List.mem_cons_self)
          (hbefore _ List.mem_cons_self _ List.mem_cons_self)
        rcases List.mem_cons.mp hline with rfl | hline
        · exact absurd hnext (Nat.lt_irrefl _)
        · exact absurd hnext (Nat.lt_asymm ((List.pairwise_cons.mp hbehind).1 _ hline))
    · exact ⟨start, alts', hstart, hle, fun other M alts'' hother => hnone _ _ _ (.inr hother)⟩
  · rintro ⟨start, alts', hstart, hle, hnone⟩
    refine ⟨start, alts', .inr hstart, hle, ?_⟩
    rintro other M alts'' (⟨rfl, -, -⟩ | hother) hlt
    · exact absurd hlt (Nat.lt_asymm (hbefore _ List.mem_cons_self _ hstart))
    · exact hnone _ _ _ hother hlt

end Rule

/-- The alternatives of a nonterminal are those on the lines under its head lines, in order. -/
theorem MakesUp.exists_lines (h : MakesUp lines rules)
    (hascending : lines.Pairwise (·.number < ·.number)) (N : Symbol) :
    ∃ under : List NumberedLine, under.Sublist lines ∧
      (∀ line, line ∈ under ↔ line ∈ lines ∧ IsUnder lines N line.number) ∧
      under.flatMap (·.content.alternatives) = alternativesOf rules N := by
  unfold alternativesOf
  induction h with
  | nil => exact ⟨[], .slnil, by simp, rfl⟩
  | @rule number lhs alts continuations lines rules hcontinuations hrest ih =>
    obtain ⟨-, hmore⟩ := List.pairwise_cons.mp hascending
    obtain ⟨under, hsublist, hmem, halts⟩ := ih (List.pairwise_append.mp hmore).2.1
    -- ascending numbers tell the lines of the first rule from those of the others
    have hbehind : ∀ line, line ∈ under ↔
        line ∈ lines ∧ IsUnder (⟨number, .head lhs alts⟩ :: (continuations ++ lines)) N
          line.number := by
      intro line
      rw [hmem]
      exact and_congr_right fun hline =>
        (isUnder_iff_of_mem hcontinuations hascending hrest hline).symm
    have hrule : ∀ line ∈ (⟨number, .head lhs alts⟩ :: continuations : List NumberedLine),
        IsUnder (⟨number, .head lhs alts⟩ :: (continuations ++ lines)) N line.number ↔ N = lhs :=
      fun _ hline => isUnder_cons_iff hcontinuations hascending hline
    rw [← List.cons_append]
    rw [← List.cons_append] at hbehind hrule
    by_cases hlhs : N = lhs
    · subst hlhs
      refine ⟨(⟨number, .head N alts⟩ :: continuations) ++ under, hsublist.append_left _, ?_, ?_⟩
      · intro line
        rw [List.mem_append, List.mem_append, hbehind, or_and_right]
        exact or_congr_left (iff_self_and.mpr fun hline => (hrule line hline).mpr rfl)
      · rw [List.filter_cons_of_pos (by simp), List.flatMap_append, List.flatMap_cons,
          List.flatMap_cons, halts]
        rfl
    · refine ⟨under, hsublist.trans (List.sublist_append_right _ _), ?_, ?_⟩
      · intro line
        rw [List.mem_append, hbehind, or_and_right]
        exact (or_iff_right fun h => hlhs ((hrule line h.1).mp h.2)).symm
      · rw [List.filter_cons_of_neg (by simpa using Ne.symm hlhs), halts]

/-- Whether a line of a text gives alternatives to a nonterminal: as a head line for it, or as a
line that continues one. -/
def IsWrittenFor (text : String) (N : Symbol) (line : NumberedLine) : Prop :=
  SaysAt text line.number line.content ∧
    ∃ start alts, SaysAt text start (.head N alts) ∧ start ≤ line.number ∧
      ∀ other lhs alts', SaysAt text other (.head lhs alts') → start < other → line.number < other

/-- The rules of a nonterminal are the alternatives written for it, in the order of the text. -/
theorem exists_written_of_readText {g : Grammar} (h : readText file text = .ok g) (N : Symbol) :
    ∃ written : List NumberedLine, written.Pairwise (·.number < ·.number) ∧
      (∀ line, line ∈ written ↔ IsWrittenFor text N line) ∧
      g.rulesFor N = (written.flatMap (·.content.alternatives)).map (⟨N, ·⟩) := by
  obtain ⟨lines, hread, hrest⟩ := bind_eq_ok_iff.mp h
  obtain ⟨rules, hgather, hassemble⟩ := bind_eq_ok_iff.mp hrest
  obtain ⟨b, hadded, hbuild⟩ := assemble_eq_ok_iff.mp hassemble
  have hreading := isReading_of_readLines_eq_ok hread
  obtain ⟨written, hsublist, hmem, halts⟩ :=
    (gatherRules_eq_ok_iff_makesUp.mp hgather).exists_lines hreading.ascending N
  refine ⟨written, hreading.ascending.sublist hsublist, fun line => ?_, ?_⟩
  · rw [hmem]
    simp only [IsUnder, hreading.mem_iff]
    rfl
  · rw [Grammar.rulesFor, (Builder.build_eq_ok hbuild).2.2.2.1,
      Builder.alternatives_addRules hadded, Builder.alternatives_empty, List.nil_append,
      alternativesOf_eq, halts]

end Lookahead.Source
