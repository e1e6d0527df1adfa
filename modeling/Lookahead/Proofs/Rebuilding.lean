import Lookahead.Proofs.Acceptance
import Mathlib.Data.List.Nodup

/-!
# Rebuilding a grammar from its listing

What a builder holds depends on the alternatives in its table alone (`Checked.ext`), and these on
the rules that were accepted, each nonterminal's in the order in which they came
(`alternatives_addRules`). So giving a new builder the rules of a built grammar, by nonterminal,
leads to the builder that the grammar came from (`addRules_displayOrder`); no rule is refused on the
way, since all of them stand in one well-formed table.
-/

namespace Lookahead

/-- Tables that give every nonterminal the same alternatives, and at least one to each of their
keys, are equal. -/
theorem RuleTable.ext_alternatives {s t : RuleTable}
    (hs : ∀ lhs, s.contains lhs = true → s.alternatives lhs ≠ [])
    (ht : ∀ lhs, t.contains lhs = true → t.alternatives lhs ≠ [])
    (h : ∀ lhs, s.alternatives lhs = t.alternatives lhs) : s = t := by
  apply SymbolMap.ext_get?
  intro lhs
  have hs := hs lhs
  have ht := ht lhs
  have h := h lhs
  unfold RuleTable.alternatives SymbolMap.getD SymbolMap.contains at *
  cases hsget : s.get? lhs <;> cases htget : t.get? lhs <;> simp_all

namespace Builder

variable {b b' : Builder}

/-- Builders that hold the same alternatives are equal. -/
theorem Checked.ext (hb : b.Checked) (hcoherent : b.Coherent) (hb' : b'.Checked)
    (hcoherent' : b'.Coherent) (h : ∀ lhs, b.table.alternatives lhs = b'.table.alternatives lhs) :
    b = b' := by
  have htable : b.table = b'.table :=
    RuleTable.ext_alternatives hb.alternatives_ne_nil hb'.alternatives_ne_nil h
  have hgoal : b.goal = b'.goal := Option.ext fun goal => by
    rw [hb.goal_eq_some_iff hcoherent, hb'.goal_eq_some_iff hcoherent', htable]
  have hterminals : b.terminals = b'.terminals :=
    SymbolSet.ext_mem fun a => by
      rw [hcoherent.mem_terminals, hcoherent'.mem_terminals, htable]
  have hnonterminals : b.nonterminals = b'.nonterminals :=
    SymbolSet.ext_mem fun N => by
      rw [hcoherent.mem_nonterminals, hcoherent'.mem_nonterminals, htable]
  cases b
  cases b'
  simp_all

end Builder

/-! ## Finished rules -/

namespace Builder

variable {b : Builder} {g : Grammar}

/-- The nonterminals of a built grammar are those with rules. -/
theorem Coherent.mem_nonterminals_iff_contains (hb : b.Coherent) (hchecked : b.Checked)
    (h : b.build = .ok g) {N : Symbol} : N ∈ b.nonterminals ↔ b.table.contains N = true := by
  rw [(hchecked.consistent hb).mem_nonterminals_iff]
  refine or_iff_right_of_imp ?_
  rintro ⟨hnonterminal, lhs, alt, halt, hN⟩
  exact (exists_build_iff.mp ⟨g, h⟩).2 halt N hN hnonterminal

/-! ## The listing is accepted -/

/-- The rules of a nonterminal in a listing are its alternatives. -/
theorem flatMap_filter_listing {names : List Symbol} (hnames : names.Nodup)
    {alternatives : Symbol → List Alternative} {key : Symbol}
    (hkey : key ∉ names → alternatives key = []) :
    ((names.map fun N => (N, alternatives N)).filter (·.1 = key)).flatMap (·.2) =
      alternatives key := by
  induction names with
  | nil => simpa using (hkey List.not_mem_nil).symm
  | cons N rest ih =>
    obtain ⟨hN, hrest⟩ := List.nodup_cons.mp hnames
    by_cases hNkey : N = key
    · subst hNkey
      -- each name is listed once, so nothing more comes for it
      have hothers : (rest.map fun M => (M, alternatives M)).filter (·.1 = N) = [] := by
        rw [List.filter_eq_nil_iff]
        rintro _ hmem
        obtain ⟨M, hM, rfl⟩ := List.mem_map.mp hmem
        have hne : M ≠ N := fun heq => hN (heq ▸ hM)
        simpa using hne
      simp [hothers]
    · have hkeyN : key ≠ N := Ne.symm hNkey
      rw [List.map_cons, List.filter_cons_of_neg (by simpa using hNkey)]
      exact ih hrest fun hnot => hkey (by simp [hkeyN, hnot])

/-- A new builder accepts all rules of another one, by nonterminal, and then equals it. -/
theorem Checked.addRules_listing (hb : b.Checked) (hcoherent : b.Coherent) {names : List Symbol}
    (hnodup : names.Nodup) (hnames : ∀ N, N ∈ names ↔ b.table.contains N = true) :
    (∅ : Builder).addRules (names.map fun N => (N, b.table.alternatives N)) = .ok b := by
  have hrules : ∀ rule ∈ names.map fun N => (N, b.table.alternatives N),
      rule.2 ≠ [] ∧ ∀ alt ∈ rule.2, alt ∈ b.table.alternatives rule.1 := by
    intro rule hrule
    obtain ⟨N, hN, rfl⟩ := List.mem_map.mp hrule
    exact ⟨hb.alternatives_ne_nil N ((hnames N).mp hN), fun _ halt => halt⟩
  obtain ⟨last, hlast⟩ := checked_empty.exists_addRules coherent_empty (hb.isWellFormed hcoherent)
    (fun halt => absurd halt List.not_mem_nil) hrules
  have hoffers := foldl_offer_of_addRules hlast
  have hcoherent' : last.Coherent := hoffers ▸ coherent_afterOffers _
  have hchecked' : last.Checked := hoffers ▸ checked_afterOffers _
  -- two checked builders with the same alternatives are equal
  obtain rfl : last = b := hchecked'.ext hcoherent' hb hcoherent fun key => by
    rw [alternatives_addRules hlast, alternatives_empty, List.nil_append,
      flatMap_filter_listing hnodup]
    intro hkey
    exact RuleTable.alternatives_eq_nil (by simpa [hnames] using hkey)
  exact hlast

end Builder

namespace Grammar

variable {g : Grammar}

/-- A full listing names each nonterminal once. -/
theorem nodup_displayOrder (g : Grammar) : g.displayOrder.Nodup := by
  refine List.nodup_cons.mpr ⟨by simp, ?_⟩
  refine List.Nodup.filter _ (List.nodup_iff_pairwise_ne.mpr (g.nonterminals.sorted.imp ?_))
  rintro a _ hlt rfl
  exact String.lt_irrefl a hlt

/-- The builder that a grammar came from, and what is known of it. -/
theorem Built.exists_builder (hg : g.Built) :
    ∃ b : Builder, b.Coherent ∧ b.Checked ∧ b.build = .ok g := by
  obtain ⟨calls, hbuild⟩ := hg
  exact ⟨_, Builder.coherent_afterOffers calls, Builder.checked_afterOffers calls, hbuild⟩

/-- The rules of each nonterminal of a built grammar would be accepted as one rule. -/
theorem Built.shapeFault?_eq_none (hg : g.Built) {N : Symbol} (hN : N ∈ g.nonterminals) :
    Builder.shapeFault? N (g.table.alternatives N) = none := by
  obtain ⟨b, hcoherent, hchecked, hbuild⟩ := hg.exists_builder
  obtain ⟨-, -, hnonterminals, htable, -⟩ := Builder.build_eq_ok hbuild
  rw [hnonterminals, hcoherent.mem_nonterminals_iff_contains hchecked hbuild] at hN
  exact htable ▸ hchecked.shape hN

/-- Every nonterminal of a built grammar has rules. -/
theorem Built.alternatives_ne_nil (hg : g.Built) {N : Symbol} (hN : N ∈ g.nonterminals) :
    g.table.alternatives N ≠ [] :=
  (Builder.shapeFault?_eq_none_iff.mp (hg.shapeFault?_eq_none hN)).2.1

/-- A built grammar's rules, by nonterminal and with the goal first, are accepted one by one, and
they lead to the builder that the grammar came from. -/
theorem Built.addRules_displayOrder (hg : g.Built) :
    ∃ b, (∅ : Builder).addRules
        (g.displayOrder.map fun N => (N, g.table.alternatives N)) = .ok b ∧
      b.build = .ok g := by
  obtain ⟨b, hcoherent, hchecked, hbuild⟩ := hg.exists_builder
  obtain ⟨-, -, hnonterminals, htable, -⟩ := Builder.build_eq_ok hbuild
  have hnames : ∀ N, N ∈ g.displayOrder ↔ b.table.contains N = true := by
    intro N
    rw [hg.wellFormed.mem_displayOrder, hnonterminals,
      hcoherent.mem_nonterminals_iff_contains hchecked hbuild]
  exact ⟨b, htable ▸ hchecked.addRules_listing hcoherent g.nodup_displayOrder hnames, hbuild⟩

end Grammar

end Lookahead
