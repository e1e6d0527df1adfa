import Lookahead.Analysis
import Lookahead.Proofs.Nullability
import Mathlib.Order.Bounds.Basic

/-!
# What the search that assumes cycles decides

A set of nonterminals vanishes by itself if each member has an alternative that vanishes once all
members do. The search answers yes for exactly the greatest such set (`isGreatest_canVanish`). The
assumptions along a path never spoil an answer: a question that the search answers while assuming
the answer is answered without that assumption as well (`canVanish_of_answered`).

The search is never deeper than the questions along a path allow, which are all different
(`canVanishWithin_eq_some`).
-/

namespace Lookahead.Grammar

variable {g : Grammar} {settled : Symbol → Option Bool} {path path' : List Obligation}
  {N : Symbol} {alt : Alternative}

/-! ## Sets that vanish by themselves -/

/-- Whether an alternative vanishes once the nonterminals in `X` do: it is `lambda` alone, or it has
no lookaheads and all its nonterminals are in `X`. -/
def VanishesWith (X : Set Symbol) (alt : Alternative) : Prop :=
  alt = [Symbol.lambda] ∨
    (∀ s ∈ alt, s.isLookahead = false) ∧ ∀ s ∈ alt, s.isNonterminal = true → s ∈ X

/-- What vanishes with some symbols vanishes with more. -/
theorem VanishesWith.mono {X Y : Set Symbol} (h : VanishesWith X alt)
    (hXY : ∀ s ∈ alt, s ∈ X → s ∈ Y) : VanishesWith Y alt := by
  refine h.imp_right fun ⟨hlookahead, hmem⟩ => ⟨hlookahead, fun s hs hnonterminal => ?_⟩
  exact hXY s hs (hmem s hs hnonterminal)

/-- The symbols known to vanish, and those of `X` among the symbols nothing is known of. -/
def orElse (settled : Symbol → Option Bool) (X : Set Symbol) : Set Symbol :=
  {s | settled s = some true ∨ settled s = none ∧ s ∈ X}

/-- Whether each member of a set has an alternative that vanishes once the members do whose answers
are not settled. -/
def IsSelfVanishing (g : Grammar) (settled : Symbol → Option Bool) (X : Set Symbol) : Prop :=
  ∀ N ∈ X, ∃ alt ∈ g.table.alternatives N, VanishesWith (orElse settled X) alt

/-- The search says yes if an alternative vanishes with the candidates that are asked about already
or for which it says yes one level down. -/
theorem canVanish_iff :
    g.canVanish settled path N = true ↔
      ∃ alt ∈ g.table.alternatives N,
        VanishesWith (orElse settled {c | ⟨⟨N, alt⟩, c⟩ ∈ path ∨
          g.canVanish settled (⟨⟨N, alt⟩, c⟩ :: path) c = true}) alt := by
  -- what is settled is taken as it is, and the rest is searched
  have hanswer : ∀ (c : Symbol) (b : Bool),
      (settled c).getD b = true ↔ settled c = some true ∨ settled c = none ∧ b = true := by
    intro c b
    cases settled c <;> simp
  rw [canVanish_eq]
  unfold rulesFor VanishesWith orElse
  simp only [List.any_map, List.any_eq_true, Function.comp_apply, Bool.or_eq_true,
    Bool.and_eq_true, Bool.not_eq_true', List.any_eq_false, List.all_eq_true, hanswer,
    decide_eq_true_eq, Set.mem_ofPred_eq, Alternative.isEmptyString, beq_iff_eq,
    Bool.not_eq_true]
  refine exists_congr fun alt =>
    and_congr_right fun _ => or_congr_right (and_congr_right fun _ => ?_)
  refine forall₂_congr fun s _ => ?_
  cases s.isNonterminal <;> simp

/-- A candidate of an alternative is one of the questions that can be asked. -/
theorem obligation_mem (halt : alt ∈ g.table.alternatives N) {c : Symbol} (hc : c ∈ alt) :
    ⟨⟨N, alt⟩, c⟩ ∈ g.obligations :=
  mem_obligations (List.mem_map.mpr ⟨alt, halt, rfl⟩) hc

/-! ## Assumptions -/

/-- Along a longer path no more questions are left. -/
theorem unasked_cons_le (g : Grammar) (path : List Obligation) (o : Obligation) :
    (g.unasked (o :: path)).length ≤ (g.unasked path).length := by
  unfold unasked
  rw [← List.countP_eq_length_filter, ← List.countP_eq_length_filter]
  refine List.countP_mono_left fun x _ hx => ?_
  rw [decide_eq_true_eq] at hx ⊢
  exact fun hmem => hx (List.mem_cons_of_mem o hmem)

/-- What the search finds under the assumptions of one path it finds under those of another, if
each assumption that the other path lacks is a question to which the search says yes below it. -/
theorem canVanish_of_answered
    (hanswered : ∀ o ∈ path, o ∈ path' ∨ g.canVanish settled (o :: path') o.candidate = true)
    (h : g.canVanish settled path N = true) : g.canVanish settled path' N = true := by
  -- by the number of questions that the other path leaves to ask
  induction hleft : (g.unasked path').length using Nat.strong_induction_on
    generalizing path path' N with
  | _ left ih =>
    subst hleft
    obtain ⟨alt, halt, hvanishes⟩ := canVanish_iff.mp h
    refine canVanish_iff.mpr ⟨alt, halt, hvanishes.mono fun c hc => Or.imp_right ?_⟩
    refine And.imp_right fun hfound => ?_
    by_cases hasked : (⟨⟨N, alt⟩, c⟩ : Obligation) ∈ path'
    · exact .inl hasked
    right
    rcases hfound with hfound | hfound
    · exact (hanswered _ hfound).resolve_left hasked
    have hfewer := unasked_cons_lt (obligation_mem halt hc) hasked
    -- one level down both paths have the new question in front
    refine ih _ hfewer (fun o ho => ?_) hfound rfl
    rcases List.mem_cons.mp ho with rfl | ho
    · exact .inl List.mem_cons_self
    refine (hanswered o ho).imp (List.mem_cons_of_mem _) fun hyes => ?_
    -- with the new question assumed as well, the answer to an old one stays
    refine ih _ (Nat.lt_of_le_of_lt (unasked_cons_le g _ o) hfewer) (fun p hp => .inl ?_) hyes rfl
    rcases List.mem_cons.mp hp with rfl | hp
    · exact List.mem_cons_self
    · exact List.mem_cons_of_mem o (List.mem_cons_of_mem _ hp)

/-! ## The greatest set -/

/-- The nonterminals for which the search says yes vanish by themselves. -/
theorem isSelfVanishing_canVanish (g : Grammar) (settled : Symbol → Option Bool) :
    g.IsSelfVanishing settled {N | g.canVanish settled [] N = true} := by
  intro N hN
  obtain ⟨alt, halt, hvanishes⟩ := canVanish_iff.mp hN
  refine ⟨alt, halt, hvanishes.mono fun c _ => Or.imp_right (And.imp_right fun hfound => ?_)⟩
  have hyes := hfound.resolve_left List.not_mem_nil
  -- the only assumption is the question itself
  refine canVanish_of_answered (fun o ho => .inr ?_) hyes
  rw [List.mem_singleton.mp ho]
  exact hyes

/-- The search says yes for each member of a set that vanishes by itself, whatever it assumes. -/
theorem canVanish_of_isSelfVanishing {X : Set Symbol} (hX : g.IsSelfVanishing settled X)
    (hN : N ∈ X) : g.canVanish settled path N = true := by
  induction hleft : (g.unasked path).length using Nat.strong_induction_on
    generalizing path N with
  | _ left ih =>
    subst hleft
    obtain ⟨alt, halt, hvanishes⟩ := hX N hN
    refine canVanish_iff.mpr ⟨alt, halt, hvanishes.mono fun c hc => Or.imp_right ?_⟩
    refine And.imp_right fun hmem => ?_
    by_cases hasked : (⟨⟨N, alt⟩, c⟩ : Obligation) ∈ path
    · exact .inl hasked
    · exact .inr (ih _ (unasked_cons_lt (obligation_mem halt hc) hasked) hmem rfl)

/-- The search says yes for exactly the greatest set that vanishes by itself. -/
theorem isGreatest_canVanish (g : Grammar) (settled : Symbol → Option Bool) :
    IsGreatest {X | g.IsSelfVanishing settled X} {N | g.canVanish settled [] N = true} :=
  ⟨g.isSelfVanishing_canVanish settled, fun _ hX _ hN => canVanish_of_isSelfVanishing hX hN⟩

/-- Further alternatives take no yes away. -/
theorem canVanish_of_subset {g' : Grammar}
    (hsubset : ∀ lhs, ∀ alt ∈ g.table.alternatives lhs, alt ∈ g'.table.alternatives lhs)
    (h : g.canVanish settled [] N = true) : g'.canVanish settled [] N = true := by
  have hself : g'.IsSelfVanishing settled {N | g.canVanish settled [] N = true} := by
    intro M hM
    obtain ⟨alt, halt, hvanishes⟩ := g.isSelfVanishing_canVanish settled M hM
    exact ⟨alt, hsubset M alt halt, hvanishes⟩
  exact canVanish_of_isSelfVanishing hself h

/-- The search goes through alternatives in the order in which they stand, but finds the same in
any. -/
theorem canVanish_of_perm {g' : Grammar}
    (hperm : ∀ lhs, (g.table.alternatives lhs).Perm (g'.table.alternatives lhs)) :
    g'.canVanish settled [] N = g.canVanish settled [] N := by
  rw [Bool.eq_iff_iff]
  constructor
  · exact canVanish_of_subset fun lhs alt halt => (hperm lhs).mem_iff.mpr halt
  · exact canVanish_of_subset fun lhs alt halt => (hperm lhs).mem_iff.mp halt

/-! ## Depth -/

/-- The different questions that a search can meet: each nonterminal of each alternative. -/
def questions (g : Grammar) : List Obligation :=
  (g.obligations.filter fun o => o.candidate.isNonterminal).eraseDups

/-- The search, at most so many levels deep; without an answer if it would have to go deeper. -/
def canVanishWithin (g : Grammar) (settled : Symbol → Option Bool) :
    Nat → List Obligation → Symbol → Option Bool
  | 0, _, _ => none
  | levels + 1, path, nonterminal =>
    (g.rulesFor nonterminal).anyM fun rule =>
      if Alternative.isEmptyString rule.rhs then some true
      else if rule.rhs.any Symbol.isLookahead then some false
      else
        rule.rhs.allM fun candidate =>
          if candidate.isNonterminal then
            match settled candidate with
            | some known => some known
            | none =>
              if ⟨rule, candidate⟩ ∈ path then some true
              else canVanishWithin g settled levels (⟨rule, candidate⟩ :: path) candidate
          else some true

/-- If every test ends, so does the search for an element that passes. -/
theorem anyM_eq_some {α : Type} {l : List α} {p : α → Option Bool} {q : α → Bool}
    (h : ∀ a ∈ l, p a = some (q a)) : l.anyM p = some (l.any q) := by
  induction l with
  | nil => rfl
  | cons a l ih =>
    rw [List.anyM, h a (by simp), List.any_cons]
    cases q a with
    | true => rfl
    | false => exact ih fun b hb => h b (List.mem_cons_of_mem a hb)

/-- If every test ends, so does the check that all elements pass. -/
theorem allM_eq_some {α : Type} {l : List α} {p : α → Option Bool} {q : α → Bool}
    (h : ∀ a ∈ l, p a = some (q a)) : l.allM p = some (l.all q) := by
  induction l with
  | nil => rfl
  | cons a l ih =>
    rw [List.allM, h a (by simp), List.all_cons]
    cases q a with
    | true => exact ih fun b hb => h b (List.mem_cons_of_mem a hb)
    | false => rfl

/-- As many levels as there are questions left along the path, and one more, are enough. -/
theorem canVanishWithin_eq_some {levels : Nat}
    (h : (g.questions.filter (· ∉ path)).length < levels) :
    g.canVanishWithin settled levels path N = some (g.canVanish settled path N) := by
  induction levels generalizing path N with
  | zero => omega
  | succ levels ih =>
    rw [canVanishWithin, canVanish_eq]
    refine anyM_eq_some fun rule hrule => ?_
    cases Alternative.isEmptyString rule.rhs with
    | true => rfl
    | false =>
      cases rule.rhs.any Symbol.isLookahead with
      | true => rfl
      | false =>
        refine allM_eq_some fun candidate hcandidate => ?_
        cases hnonterminal : candidate.isNonterminal with
        | false => rfl
        | true =>
          cases settled candidate with
          | some known => rfl
          | none =>
            -- a question asked before ends the branch; a new one leaves fewer for the levels below
            by_cases hasked : (⟨rule, candidate⟩ : Obligation) ∈ path
            · simp [hasked]
            · have hquestion : (⟨rule, candidate⟩ : Obligation) ∈ g.questions :=
                List.mem_eraseDups.mpr
                  (List.mem_filter.mpr ⟨mem_obligations hrule hcandidate, hnonterminal⟩)
              have hfewer := length_filter_not_mem_cons_lt hquestion hasked
              have hbelow :
                  g.canVanishWithin settled levels (⟨rule, candidate⟩ :: path) candidate =
                    some (g.canVanish settled (⟨rule, candidate⟩ :: path) candidate) :=
                ih (by omega)
              simp [hasked, hbelow]

/-! ## Nullability with cycles assumed to vanish -/

/-- Where nothing is settled, only membership counts. -/
theorem orElse_none (X : Set Symbol) : orElse (fun _ => none) X = X := by
  unfold orElse
  simp

/-- A nullable nonterminal has an alternative that vanishes. -/
theorem WellFormed.exists_vanishes_of_mem_nullable (hg : g.WellFormed) (hN : N ∈ g.nullable) :
    ∃ alt ∈ g.table.alternatives N, vanishes g.nullable alt = true := by
  rcases Derives.eq_or_exists_alternative (hg.derives_nil_of_mem_nullable N hN) with
    hsame | ⟨alt, halt, hnil⟩
  · exact absurd hsame (List.cons_ne_nil N []).symm
  · exact ⟨alt, halt, hg.vanishes_nullable_iff.mpr hnil⟩

/-- An alternative that vanishes by nullable nonterminals vanishes with every set that has them. -/
theorem WellFormed.vanishesWith_of_vanishes (hg : g.WellFormed) {X : Set Symbol}
    (hX : ∀ s ∈ g.nullable, s ∈ X) (h : vanishes g.nullable alt = true) : VanishesWith X alt := by
  have hsymbols : ∀ s ∈ alt, s.isLambda = true ∨ s ∈ g.nullable := by simpa [vanishes] using h
  right
  constructor
  · intro s hs
    rcases hsymbols s hs with hlambda | hmem
    · rw [eq_of_beq hlambda]
      decide
    · exact Symbol.isLookahead_eq_false_of_isNonterminal
        (hg.isNonterminal_of_mem s (hg.mem_nonterminals_of_mem_nullable hmem))
  · intro s hs hnonterminal
    have hlambda := Symbol.isLambda_eq_false_of_isNonterminal hnonterminal
    exact hX s ((hsymbols s hs).resolve_left (Bool.eq_false_iff.mp hlambda))

/-- The nullable nonterminals vanish by themselves. -/
theorem WellFormed.isSelfVanishing_nullable (hg : g.WellFormed) :
    g.IsSelfVanishing (fun _ => none) {N | N ∈ g.nullable} := by
  intro N hN
  obtain ⟨alt, halt, hvanishes⟩ := hg.exists_vanishes_of_mem_nullable hN
  refine ⟨alt, halt, ?_⟩
  rw [orElse_none]
  exact hg.vanishesWith_of_vanishes (fun _ hs => hs) hvanishes

/-- Whatever is nullable is so with cycles assumed to vanish. -/
theorem WellFormed.optimisticallyNullable_of_mem_nullable (hg : g.WellFormed)
    (hN : N ∈ g.nullable) : g.optimisticallyNullable N = true :=
  canVanish_of_isSelfVanishing hg.isSelfVanishing_nullable hN

/-- The search that assumes cycles to vanish ends, no deeper than one level for each question of the
grammar and one more. It says yes for exactly the greatest set of nonterminals each of which has an
alternative that vanishes with the set, so for all that are nullable, and in whatever order the
alternatives stand. -/
theorem Built.isGreatest_optimisticallyNullable (h : g.Built) :
    (∀ N, g.canVanishWithin (fun _ => none) (g.questions.length + 1) [] N =
        some (g.optimisticallyNullable N)) ∧
      IsGreatest {X : Set Symbol | (∀ N ∈ X, N ∈ g.nonterminals) ∧
          ∀ N ∈ X, ∃ alt ∈ g.table.alternatives N, VanishesWith X alt}
        {N | g.optimisticallyNullable N = true} ∧
      (∀ N, g.analyze.isNullable N = true → g.optimisticallyNullable N = true) ∧
      ∀ g' : Grammar, (∀ lhs, (g.table.alternatives lhs).Perm (g'.table.alternatives lhs)) →
        ∀ N, g'.optimisticallyNullable N = g.optimisticallyNullable N := by
  have hg := h.wellFormed
  obtain ⟨hself, hgreatest⟩ := g.isGreatest_canVanish fun _ => none
  refine ⟨fun N => canVanishWithin_eq_some ?_, ⟨⟨?_, ?_⟩, ?_⟩, ?_,
    fun _ hperm _ => canVanish_of_perm hperm⟩
  · exact Nat.lt_succ_of_le (List.length_filter_le _ _)
  · intro N hN
    obtain ⟨alt, halt, -⟩ := hself N hN
    exact hg.lhs_mem halt
  · intro N hN
    obtain ⟨alt, halt, hvanishes⟩ := hself N hN
    rw [orElse_none] at hvanishes
    exact ⟨alt, halt, hvanishes⟩
  · -- with nothing settled in advance, the greatest set is that of the plain search
    rintro X ⟨-, hX⟩
    apply hgreatest
    intro N hN
    rw [orElse_none]
    exact hX N hN
  · intro N hN
    exact hg.optimisticallyNullable_of_mem_nullable (of_decide_eq_true hN)

/-- `Loop` vanishes only if its cycle does, and `Blank` has nothing but an empty symbol. -/
def assumedLoop : Grammar :=
  (ofRules? [("S", [["Loop", "Blank", "$"]]), ("Loop", [["x"], ["Blank", "Loop"]]),
    ("Blank", [[""]])]).get (by decide)

/-- The search says yes for the loop, which is not nullable. -/
theorem assumedLoop_isGreatest :
    assumedLoop.Built ∧ assumedLoop.optimisticallyNullable "Loop" = true ∧
      assumedLoop.analyze.isNullable "Loop" = false ∧
      (∀ N, assumedLoop.canVanishWithin (fun _ => none) (assumedLoop.questions.length + 1) [] N =
        some (assumedLoop.optimisticallyNullable N)) ∧
      IsGreatest {X : Set Symbol | (∀ N ∈ X, N ∈ assumedLoop.nonterminals) ∧
          ∀ N ∈ X, ∃ alt ∈ assumedLoop.table.alternatives N, VanishesWith X alt}
        {N | assumedLoop.optimisticallyNullable N = true} := by
  have hbuilt : assumedLoop.Built := built_of_ofRules? (Option.some_get _).symm
  obtain ⟨hdepth, hgreatest, -, -⟩ := hbuilt.isGreatest_optimisticallyNullable
  exact ⟨hbuilt, by decide +kernel, by decide +kernel, hdepth, hgreatest⟩

end Lookahead.Grammar
