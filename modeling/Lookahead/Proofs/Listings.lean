import Lookahead.Proofs.Rebuilding
import Mathlib.Data.List.Sort

/-!
# Lists in order

`ListsInOrder` says that a list is complete and without repetition: it has one entry for each place
where there is something to list, in the order of the places. The rule listing is such a list of all
places of the rule table, with the goal's in front, and what the index finds for a symbol is such a
list of the places whose rule has the symbol on its right-hand side (`Built.rules_listed`). Which
alternatives a nonterminal has, and in which order, is the order in which they were accepted
(`Builder.alternatives_afterOffers_accepted`), and the listing determines the grammar.
-/

namespace Lookahead

/-! ## Lists of what is at places -/

section ListsInOrder

variable {κ α β γ : Type} {before : κ → κ → Prop} {p q : κ → α → Prop} {l l' : List α}

/-- Whether a list has one entry for each place and value that `p` relates, in the order of the
places. -/
def ListsInOrder (before : κ → κ → Prop) (p : κ → α → Prop) (l : List α) : Prop :=
  ∃ placed : List (κ × α), l = placed.map (·.2) ∧
    placed.Pairwise (fun a b => before a.1 b.1) ∧ ∀ place a, (place, a) ∈ placed ↔ p place a

/-- What is listed can be described in another way. -/
theorem ListsInOrder.congr (h : ListsInOrder before p l) (hpq : ∀ place a, p place a ↔ q place a) :
    ListsInOrder before q l := by
  obtain ⟨placed, hl, hordered, hmem⟩ := h
  exact ⟨placed, hl, hordered, fun place a => (hmem place a).trans (hpq place a)⟩

/-- The members of a listing are what stands at some place. -/
theorem ListsInOrder.mem_iff (h : ListsInOrder before p l) {a : α} :
    a ∈ l ↔ ∃ place, p place a := by
  obtain ⟨placed, rfl, -, hmem⟩ := h
  simp [hmem]

/-- There is one list at most of what is at places, if their order is strict. -/
theorem ListsInOrder.eq (hasymm : ∀ {a b}, before a b → ¬before b a) (h : ListsInOrder before p l)
    (h' : ListsInOrder before p l') : l = l' := by
  obtain ⟨placed, rfl, hordered, hmem⟩ := h
  obtain ⟨placed', rfl, hordered', hmem'⟩ := h'
  have : Std.Irrefl fun x y : κ × α => before x.1 y.1 := ⟨fun _ h => hasymm h h⟩
  have : Std.Antisymm fun x y : κ × α => before x.1 y.1 := ⟨fun _ _ h h' => absurd h' (hasymm h)⟩
  have hsame : placed = placed' :=
    hordered.eq_of_mem_iff hordered' fun (place, a) => (hmem place a).trans (hmem' place a).symm
  rw [hsame]

/-- What is made of the values is listed at their places. -/
theorem ListsInOrder.map (h : ListsInOrder before p l) (f : α → β) :
    ListsInOrder before (fun place b => ∃ a, p place a ∧ f a = b) (l.map f) := by
  obtain ⟨placed, rfl, hordered, hmem⟩ := h
  refine ⟨placed.map fun x => (x.1, f x.2), by simp, List.pairwise_map.mpr hordered, ?_⟩
  intro place b
  simp [hmem]

/-- Values at places in order are related if the order of their places relates them. -/
theorem ListsInOrder.pairwise {R : α → α → Prop} (h : ListsInOrder before p l)
    (hR : ∀ {place place' a b}, before place place' → p place a → p place' b → R a b) :
    l.Pairwise R := by
  obtain ⟨placed, rfl, hordered, hmem⟩ := h
  refine List.pairwise_map.mpr (hordered.imp_of_mem fun {x y} hx hy hbefore => ?_)
  exact hR hbefore ((hmem _ _).mp hx) ((hmem _ _).mp hy)

/-- One more value in front of a list, at a place before the others. -/
theorem ListsInOrder.cons {x : κ × α} (h : ListsInOrder before p l)
    (hx : ∀ place a, p place a → before x.1 place) :
    ListsInOrder before (fun place a => (place, a) = x ∨ p place a) (x.2 :: l) := by
  obtain ⟨placed, rfl, hordered, hmem⟩ := h
  refine ⟨x :: placed, rfl, List.pairwise_cons.mpr ⟨fun y hy => ?_, hordered⟩, fun place a => ?_⟩
  · exact hx y.1 y.2 ((hmem _ _).mp hy)
  · rw [List.mem_cons, hmem]

/-- What is found going through items in the order of their places is listed in order. -/
theorem listsInOrder_filterMap {items : List γ} {place : γ → κ} {value? : γ → Option α}
    (hitems : items.Pairwise fun x y => before (place x) (place y)) :
    ListsInOrder before (fun k a => ∃ x ∈ items, place x = k ∧ value? x = some a)
      (items.filterMap value?) := by
  refine ⟨items.filterMap fun x => (value? x).map (place x, ·), ?_, ?_, fun k a => ?_⟩
  · rw [List.map_filterMap]
    refine List.filterMap_congr fun x _ => ?_
    rw [Option.map_map]
    exact Option.map_id_apply.symm
  · rw [List.pairwise_filterMap]
    refine hitems.imp fun {x y} hbefore b hb c hc => ?_
    obtain ⟨_, -, rfl⟩ := Option.map_eq_some_iff.mp hb
    obtain ⟨_, -, rfl⟩ := Option.map_eq_some_iff.mp hc
    exact hbefore
  · simp only [List.mem_filterMap, Option.map_eq_some_iff, Prod.mk.injEq]
    constructor
    · rintro ⟨x, hx, _, hvalue, hplace, rfl⟩
      exact ⟨x, hx, hplace, hvalue⟩
    · rintro ⟨x, hx, hplace, hvalue⟩
      exact ⟨x, hx, a, hvalue, hplace, rfl⟩

end ListsInOrder

/-! ## Numbered lists and first mentions -/

/-- Numbers are given in ascending order. -/
theorem pairwise_zipIdx {α : Type} (l : List α) (start : Nat) :
    (l.zipIdx start).Pairwise fun a b => a.2 < b.2 := by
  induction l generalizing start with
  | nil => exact .nil
  | cons a rest ih =>
    exact List.pairwise_cons.mpr ⟨fun b hb => List.le_snd_of_mem_zipIdx hb, ih (start + 1)⟩

section FirstMentions

variable {α : Type} [DecidableEq α]

/-- What is left of a list comes in the order it had. -/
theorem idxOf_lt_of_filter {l : List α} {p : α → Bool} {a b : α} (ha : p a = true) (hb : p b = true)
    (h : (l.filter p).idxOf a < (l.filter p).idxOf b) : l.idxOf a < l.idxOf b := by
  induction l with
  | nil => exact absurd h (by simp)
  | cons c rest ih =>
    by_cases hca : c = a
    · subst hca
      by_cases hcb : c = b
      · subst hcb
        exact absurd h (Nat.lt_irrefl _)
      · simp [hcb]
    · -- otherwise `b` would come first
      have hcb : c ≠ b := by
        rintro rfl
        simp [List.filter_cons_of_pos hb] at h
      have hrest : (rest.filter p).idxOf a < (rest.filter p).idxOf b := by
        cases hc : p c with
        | true => simpa [List.filter_cons, hc, List.idxOf_cons, hca, hcb] using h
        | false => simpa [List.filter_cons, hc] using h
      simpa [List.idxOf_cons, hca, hcb] using ih hrest

/-- Of equal elements the first is kept, and all that are kept stay in order. -/
theorem pairwise_eraseDups (l : List α) :
    l.eraseDups.Pairwise fun a b => l.idxOf a < l.idxOf b := by
  induction hn : l.length using Nat.strong_induction_on generalizing l with
  | _ n ih =>
    cases l with
    | nil => exact .nil
    | cons a rest =>
      have hkept : ∀ b ∈ (rest.filter fun b => !b == a).eraseDups, (!b == a) = true :=
        fun b hb => (List.mem_filter.mp (List.mem_eraseDups.mp hb)).2
      -- what is kept stands one place further back behind the head
      have hshift : ∀ b, (!b == a) = true → (a :: rest).idxOf b = rest.idxOf b + 1 := by
        intro b hb
        have hne : a ≠ b := by
          rintro rfl
          simp at hb
        exact List.idxOf_cons_ne rest hne
      have hlength : (rest.filter fun b => !b == a).length < n := by
        rw [← hn, List.length_cons]
        exact Nat.lt_succ_of_le (List.length_filter_le _ _)
      rw [List.eraseDups_cons]
      refine List.pairwise_cons.mpr ⟨fun b hb => ?_, ?_⟩
      · rw [List.idxOf_cons_self, hshift b (hkept b hb)]
        exact Nat.succ_pos _
      · refine (ih _ hlength _ rfl).imp_of_mem fun {b c} hb hc hlt => ?_
        rw [hshift b (hkept b hb), hshift c (hkept c hc)]
        exact Nat.succ_lt_succ (idxOf_lt_of_filter (hkept b hb) (hkept c hc) hlt)

/-- Without its duplicates a list holds each element once. -/
theorem nodup_eraseDups (l : List α) : l.eraseDups.Nodup := by
  refine List.nodup_iff_pairwise_ne.mpr ((pairwise_eraseDups l).imp ?_)
  rintro a _ hlt rfl
  exact Nat.lt_irrefl _ hlt

end FirstMentions

/-! ## Places of a rule table -/

/-- The order of places by nonterminal and then by position. -/
def Occurrence.Before (a b : Occurrence) : Prop :=
  a.lhs < b.lhs ∨ a.lhs = b.lhs ∧ a.position < b.position

namespace RuleTable

variable {table : RuleTable}

/-- The rule at a place is the alternative that its nonterminal has at that position. -/
theorem rule?_eq_some_iff {place : Occurrence} {rule : Rule} :
    table.rule? place = some rule ↔
      rule.lhs = place.lhs ∧ (table.alternatives place.lhs)[place.position]? = some rule.rhs := by
  unfold rule?
  rw [Option.map_eq_some_iff]
  constructor
  · rintro ⟨alt, halt, rfl⟩
    exact ⟨rfl, halt⟩
  · rintro ⟨hlhs, halt⟩
    exact ⟨rule.rhs, halt, hlhs ▸ rfl⟩

/-- The places of each symbol are met in order, none of them twice. -/
theorem pairwise_symbolPlaces (table : RuleTable) :
    table.symbolPlaces.Pairwise fun a b => a.1 = b.1 → a.2.Before b.2 := by
  unfold symbolPlaces
  refine List.pairwise_flatMap.mpr ⟨fun (lhs, alts) _ => ?_, table.sorted.imp ?_⟩
  · refine List.pairwise_flatMap.mpr ⟨fun (alt, position) _ => ?_, (pairwise_zipIdx alts 0).imp ?_⟩
    · -- within one alternative no symbol comes twice
      refine List.pairwise_map.mpr ((List.nodup_iff_pairwise_ne.mp (nodup_eraseDups alt)).imp ?_)
      exact fun hne heq => absurd heq hne
    · rintro ⟨alt, i⟩ ⟨alt', j⟩ hlt _ ha _ hb -
      obtain ⟨_, -, rfl⟩ := List.mem_map.mp ha
      obtain ⟨_, -, rfl⟩ := List.mem_map.mp hb
      exact .inr ⟨rfl, hlt⟩
  · rintro ⟨lhs, alts⟩ ⟨lhs', alts'⟩ hlt _ ha _ hb -
    obtain ⟨_, -, ha⟩ := List.mem_flatMap.mp ha
    obtain ⟨_, -, hb⟩ := List.mem_flatMap.mp hb
    obtain ⟨_, -, rfl⟩ := List.mem_map.mp ha
    obtain ⟨_, -, rfl⟩ := List.mem_map.mp hb
    exact .inl hlt

end RuleTable

/-! ## The order in which alternatives were added -/

namespace Builder

/-- The rules of a run of calls that are accepted, beginning with some builder. -/
def accepted (b : Builder) :
    List (Symbol × List Alternative) → List (Symbol × List Alternative)
  | [] => []
  | call :: rest =>
    match b.addRule call.1 call.2 with
    | .ok _ => call :: (b.offer call).accepted rest
    | .error _ => (b.offer call).accepted rest

/-- Adding the accepted rules alone leaves what adding all of them does. -/
theorem addRules_accepted (b : Builder) (calls : List (Symbol × List Alternative)) :
    b.addRules (b.accepted calls) = .ok (calls.foldl offer b) := by
  induction calls generalizing b with
  | nil => rfl
  | cons call rest ih =>
    rw [accepted, List.foldl_cons]
    cases hadd : b.addRule call.1 call.2 with
    | ok next =>
      rw [offer_of_addRule call hadd]
      exact addRules_cons.mpr ⟨next, hadd, ih next⟩
    | error fault =>
      rw [offer_of_addRule_eq_error call hadd]
      exact ih b

/-- A nonterminal has the alternatives of its accepted rules, one rule after the other. -/
theorem alternatives_afterOffers_accepted (calls : List (Symbol × List Alternative)) (N : Symbol) :
    (afterOffers calls).table.alternatives N =
      (((∅ : Builder).accepted calls).filter (·.1 = N)).flatMap (·.2) :=
  alternatives_addRules (addRules_accepted ∅ calls) N

end Builder

namespace Grammar

variable {g h : Grammar}

/-! ## The listing -/

/-- The order of listings: the places of the goal first, then by nonterminal, and for each
nonterminal by position. -/
def ListedBefore (g : Grammar) (a b : Occurrence) : Prop :=
  a.lhs = g.goal ∧ b.lhs ≠ g.goal ∨ (a.lhs = g.goal ↔ b.lhs = g.goal) ∧ a.Before b

/-- In a full listing the goal comes first and the others follow by name. -/
theorem pairwise_displayOrder (g : Grammar) :
    g.displayOrder.Pairwise fun N M => M ≠ g.goal ∧ (N = g.goal ∨ N < M) := by
  refine List.pairwise_cons.mpr ⟨fun M hM => ?_, ?_⟩
  · exact ⟨by simpa using (List.mem_filter.mp hM).2, .inl rfl⟩
  · refine (g.nonterminals.sorted.filter _).imp_of_mem fun {N M} _ hM hlt => ?_
    exact ⟨by simpa using (List.mem_filter.mp hM).2, .inr hlt⟩

/-- The listing has the rules at all places of the table. -/
theorem WellFormed.listsInOrder_allRules (hg : g.WellFormed) :
    ListsInOrder g.ListedBefore (fun place rule => g.table.rule? place = some rule)
      g.allRules := by
  refine ⟨g.displayOrder.flatMap fun N => (g.table.alternatives N).zipIdx.map fun entry =>
    (⟨N, entry.2⟩, ⟨N, entry.1⟩), ?_, ?_, fun place rule => ?_⟩
  · rw [List.map_flatMap]
    refine List.flatMap_congr fun N _ => ?_
    rw [rulesFor, List.map_map]
    conv_lhs => rw [← List.zipIdx_map_fst 0 (g.table.alternatives N), List.map_map]
    rfl
  · refine List.pairwise_flatMap.mpr ⟨fun N _ => ?_, g.pairwise_displayOrder.imp ?_⟩
    · exact List.pairwise_map.mpr ((pairwise_zipIdx _ 0).imp fun hlt =>
        .inr ⟨Iff.rfl, .inr ⟨rfl, hlt⟩⟩)
    · rintro N M ⟨hM, hNM⟩ _ ha _ hb
      -- the rules of two nonterminals come as the display order has their names
      obtain ⟨_, -, rfl⟩ := List.mem_map.mp ha
      obtain ⟨_, -, rfl⟩ := List.mem_map.mp hb
      by_cases hN : N = g.goal
      · exact .inl ⟨hN, hM⟩
      · exact .inr ⟨iff_of_false hN hM, .inl (hNM.resolve_left hN)⟩
  · simp only [RuleTable.rule?_eq_some_iff, List.mem_flatMap]
    constructor
    · rintro ⟨N, -, hmem⟩
      obtain ⟨⟨alt, i⟩, hi, heq⟩ := List.mem_map.mp hmem
      cases heq
      exact ⟨rfl, List.mk_mem_zipIdx_iff_getElem?.mp hi⟩
    · obtain ⟨lhs, rhs⟩ := rule
      rintro ⟨rfl, halt⟩
      refine ⟨_, hg.mem_displayOrder.mpr (hg.lhs_mem (List.mem_of_getElem? halt)), ?_⟩
      exact List.mem_map.mpr ⟨_, List.mk_mem_zipIdx_iff_getElem?.mpr halt, rfl⟩

/-- The alternatives of a nonterminal are those of its rules in the listing. -/
theorem WellFormed.filter_allRules (hg : g.WellFormed) (N : Symbol) :
    (g.allRules.filter (·.lhs = N)).map (·.rhs) = g.table.alternatives N := by
  have hentries : ∀ names : List Symbol,
      ((names.flatMap g.rulesFor).filter (·.lhs = N)).map (·.rhs) =
        ((names.map fun M => (M, g.table.alternatives M)).filter (·.1 = N)).flatMap (·.2) := by
    intro names
    induction names with
    | nil => rfl
    | cons M rest ih =>
      rw [List.flatMap_cons, List.filter_append, List.map_append, ih, List.map_cons]
      by_cases hM : M = N
      · simp [rulesFor, List.filter_map, Function.comp_def, hM]
      · simp [rulesFor, List.filter_map, Function.comp_def, hM]
  rw [allRules, hentries]
  refine Builder.flatMap_filter_listing g.nodup_displayOrder fun hN => ?_
  rw [List.eq_nil_iff_forall_not_mem]
  exact fun alt halt => hN (hg.mem_displayOrder.mpr (hg.lhs_mem halt))

/-! ## The index -/

/-- The index has the places whose rule has the symbol. -/
theorem WellFormed.listsInOrder_rulesContaining (hg : g.WellFormed) (s : Symbol) :
    ListsInOrder Occurrence.Before
      (fun place rule => g.table.rule? place = some rule ∧ s ∈ rule.rhs)
      (g.rulesContaining s) := by
  unfold rulesContaining
  rw [hg.occurrences_eq, RuleTable.getD_occurrences]
  -- the places of all symbols are ordered; those of one symbol are picked out of them
  have hordered : ((g.table.symbolPlaces.filter fun entry => entry.1 = s).map (·.2)).Pairwise
      Occurrence.Before := by
    refine List.pairwise_map.mpr ((g.table.pairwise_symbolPlaces.filter _).imp_of_mem ?_)
    intro a b ha hb hbefore
    have ha : a.1 = s := by simpa using (List.mem_filter.mp ha).2
    have hb : b.1 = s := by simpa using (List.mem_filter.mp hb).2
    exact hbefore (ha.trans hb.symm)
  refine (listsInOrder_filterMap hordered).congr fun place rule => ?_
  simp only [List.mem_map, List.mem_filter, decide_eq_true_eq, RuleTable.rule?_eq_some_iff]
  constructor
  · rintro ⟨_, ⟨⟨symbol, _⟩, ⟨hmem, rfl⟩, rfl⟩, rfl, hlhs, halt⟩
    obtain ⟨alt, halt', hs⟩ := RuleTable.mem_symbolPlaces.mp hmem
    obtain rfl := Option.some.inj (halt'.symm.trans halt)
    exact ⟨⟨hlhs, halt⟩, hs⟩
  · rintro ⟨⟨hlhs, halt⟩, hs⟩
    exact ⟨place, ⟨(s, place), ⟨RuleTable.mem_symbolPlaces.mpr ⟨_, halt, hs⟩, rfl⟩, rfl⟩, rfl,
      hlhs, halt⟩

/-! ## What the listing determines -/

/-- Built grammars whose nonterminals have the same alternatives are equal. -/
theorem Built.ext_alternatives (hg : g.Built) (hh : h.Built)
    (halternatives : ∀ N, g.table.alternatives N = h.table.alternatives N) : g = h := by
  obtain ⟨b, hcoherent, hchecked, hbuild⟩ := hg.exists_builder
  obtain ⟨b', hcoherent', hchecked', hbuild'⟩ := hh.exists_builder
  obtain ⟨-, -, -, htable, -⟩ := Builder.build_eq_ok hbuild
  obtain ⟨-, -, -, htable', -⟩ := Builder.build_eq_ok hbuild'
  obtain rfl : b = b' := hchecked.ext hcoherent hchecked' hcoherent' fun N => by
    rw [← htable, ← htable', halternatives]
  exact Except.ok.inj (hbuild.symm.trans hbuild')

/-- Every place of the rule table is listed once, the goal's places first, and the index finds for
each symbol the places whose rule has it. Positions are in the order in which alternatives were
added. Built grammars with the same listing are equal. -/
theorem Built.rules_listed (hg : g.Built) :
    ListsInOrder g.ListedBefore (fun place rule => g.table.rule? place = some rule) g.allRules ∧
      (∀ calls, (Builder.afterOffers calls).build = .ok g → ∀ N, g.table.alternatives N =
        (((∅ : Builder).accepted calls).filter (·.1 = N)).flatMap (·.2)) ∧
      (∀ s, ListsInOrder Occurrence.Before
        (fun place rule => g.table.rule? place = some rule ∧ s ∈ rule.rhs)
        (g.rulesContaining s)) ∧
      ∀ h : Grammar, h.Built → (g = h ↔ g.allRules = h.allRules) := by
  refine ⟨hg.wellFormed.listsInOrder_allRules, fun calls hbuild N => ?_,
    hg.wellFormed.listsInOrder_rulesContaining, fun h hh => ⟨congrArg _, fun hrules => ?_⟩⟩
  · obtain ⟨-, -, -, htable, -⟩ := Builder.build_eq_ok hbuild
    rw [htable, Builder.alternatives_afterOffers_accepted]
  · refine hg.ext_alternatives hh fun N => ?_
    rw [← hg.wellFormed.filter_allRules, ← hh.wellFormed.filter_allRules, hrules]

/-- Rules with an alternative of the goal twice, its symbols repeated, and a nonterminal whose rules
are in two calls around a refused one. -/
def repetitiveCalls : List (Symbol × List Alternative) :=
  [("A", [["a", "A"]]), ("S", [["A", "b", "A", "$"], ["A", "b", "A", "$"]]), ("b", [["A"]]),
    ("A", [["lambda"], ["a", "A"]])]

def repetitive : Grammar := (ofRules? repetitiveCalls).get (by decide)

/-- Equal alternatives are listed each at its place. -/
theorem repetitive_rules_listed :
    repetitive.Built ∧ (Builder.afterOffers repetitiveCalls).build = .ok repetitive ∧
      repetitive.table.alternatives "A" = [["a", "A"], ["lambda"], ["a", "A"]] ∧
      repetitive.rulesContaining "A" =
        [⟨"A", ["a", "A"]⟩, ⟨"A", ["a", "A"]⟩, ⟨"S", ["A", "b", "A", "$"]⟩,
          ⟨"S", ["A", "b", "A", "$"]⟩] ∧
      ListsInOrder repetitive.ListedBefore
        (fun place rule => repetitive.table.rule? place = some rule) repetitive.allRules ∧
      ListsInOrder Occurrence.Before
        (fun place rule => repetitive.table.rule? place = some rule ∧ "A" ∈ rule.rhs)
        (repetitive.rulesContaining "A") := by
  have hsome : ofRules? repetitiveCalls = some repetitive := (Option.some_get _).symm
  have hbuild := build_of_ofRules? hsome
  have hbuilt := built_of_ofRules? hsome
  obtain ⟨hlists, halternatives, hcontaining, -⟩ := hbuilt.rules_listed
  refine ⟨hbuilt, hbuild, ?_, by decide +kernel, hlists, hcontaining "A"⟩
  rw [halternatives repetitiveCalls hbuild "A"]
  decide +kernel

end Grammar

end Lookahead
