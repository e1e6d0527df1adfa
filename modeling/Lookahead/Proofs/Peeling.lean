import Lookahead.Proofs.CyclicNullability
import Lookahead.Proofs.Loops
import Mathlib.Data.Nat.SuccPred
import Mathlib.Order.Preorder.Finite
import Mathlib.Order.SuccPred.Relation

/-!
# Peeling leaves what reaches a cycle

The nonterminals that are not nullable are the nodes of a graph, with an edge to each of them that
stands in an alternative without lookaheads (`LeadsTo`). Peeling drops dead ends until there are
none. A nonterminal that reaches a cycle has an edge to another one that does, and is never a dead
end. What is left has edges to what is left, so a walk that stays inside comes to some nonterminal
for a second time (`exists_cycle`). Hence the suspects are exactly the nonterminals that reach a
cycle (`mem_cycleReaching_iff_reachesCycle`).

The loop that peels goes through a set in any order it likes, another one in every round, and takes
the dead ends out one by one. Each round leaves what a step of `peeling` leaves (`nextRound?_eq`),
so in every order the loop stops with the suspects (`mem_eval_nextRound?`).
-/

namespace Lookahead

open Relation StateTransition

/-! ## Walks in finite sets -/

section Walks

variable {α : Type} {r : α → α → Prop} {S : Set α} {a : α}

/-- Where each member leads to a member, a walk can go on forever. -/
theorem exists_walk (hleads : ∀ x ∈ S, ∃ y ∈ S, r x y) (ha : a ∈ S) :
    ∃ walk : ℕ → α, walk 0 = a ∧ ∀ n, walk n ∈ S ∧ r (walk n) (walk (n + 1)) := by
  have : Nonempty α := ⟨a⟩
  choose! next hmem hstep using hleads
  have hwalk : ∀ n, next^[n] a ∈ S := by
    intro n
    induction n with
    | zero => exact ha
    | succ n ih =>
      rw [Function.iterate_succ_apply']
      exact hmem _ ih
  refine ⟨fun n => next^[n] a, rfl, fun n => ⟨hwalk n, ?_⟩⟩
  show r (next^[n] a) (next^[n + 1] a)
  rw [Function.iterate_succ_apply']
  exact hstep _ (hwalk n)

/-- In a finite set where each member leads to a member, every member reaches a cycle. -/
theorem exists_cycle (hfinite : S.Finite) (hleads : ∀ x ∈ S, ∃ y ∈ S, r x y) (ha : a ∈ S) :
    ∃ b, ReflTransGen r a b ∧ TransGen r b b := by
  obtain ⟨walk, hstart, hwalk⟩ := exists_walk hleads ha
  -- two places of the walk are the same member, and the walk leads from one to the other
  obtain ⟨i, j, hlt, hsame⟩ :=
    Set.Finite.exists_lt_map_eq_of_forall_mem (fun n => (hwalk n).1) hfinite
  have hstep : ∀ n, r (walk n) (walk (Order.succ n)) := fun n => (hwalk n).2
  have hto : ReflTransGen r (walk 0) (walk i) :=
    (reflTransGen_of_succ_of_le (fun m n => r (walk m) (walk n)) (fun n _ => hstep n)
      (Nat.zero_le i)).lift walk fun _ _ h => h
  have haround : TransGen r (walk i) (walk j) :=
    (transGen_of_succ_of_lt (fun m n => r (walk m) (walk n)) (fun n _ => hstep n) hlt).lift walk
      fun _ _ h => h
  rw [hstart] at hto
  rw [← hsame] at haround
  exact ⟨walk i, hto, haround⟩

end Walks

/-! ## Taking members out -/

namespace SymbolSet

/-- The set without one symbol. -/
def erase (set : SymbolSet) (a : Symbol) : SymbolSet := set.filter (· != a)

/-- Erasing takes one symbol out. -/
theorem mem_erase {a x : Symbol} {s : SymbolSet} : x ∈ s.erase a ↔ x ∈ s ∧ x ≠ a := by
  unfold erase
  rw [mem_filter, bne_iff_ne]

/-- Erasing symbols in turn takes them all out. -/
theorem mem_foldl_erase {x : Symbol} {s : SymbolSet} {symbols : List Symbol} :
    x ∈ symbols.foldl erase s ↔ x ∈ s ∧ x ∉ symbols := by
  induction symbols generalizing s with
  | nil => simp
  | cons a rest ih => rw [List.foldl_cons, ih, mem_erase, List.mem_cons, not_or, and_assoc]

end SymbolSet

namespace Grammar

variable {g : Grammar} {N : Symbol}

/-! ## The graph of the nonterminals that are not nullable -/

/-- The nonterminals that are not nullable. -/
def nonNullable (g : Grammar) : SymbolSet := g.nonterminals.filter (· ∉ g.nullable)

/-- The peeling starts from the nonterminals that are not nullable. -/
theorem mem_nonNullable : N ∈ g.nonNullable ↔ N ∈ g.nonterminals ∧ N ∉ g.nullable := by
  unfold nonNullable
  rw [SymbolSet.mem_filter, decide_eq_true_eq]

/-- The edges of the graph: one nonterminal stands in an alternative of another, and the alternative
has no lookaheads. -/
structure LeadsTo (g : Grammar) (N M : Symbol) : Prop where
  source_mem : N ∈ g.nonNullable
  target_mem : M ∈ g.nonNullable
  exists_alternative : ∃ alt ∈ g.table.alternatives N,
    (∀ s ∈ alt, s.isLookahead = false) ∧ M ∈ alt

/-- Whether a cycle can be reached, in any number of edges. -/
def ReachesCycle (g : Grammar) (N : Symbol) : Prop :=
  ∃ M, ReflTransGen g.LeadsTo N M ∧ TransGen g.LeadsTo M M

/-- What reaches a cycle has an edge to something that does. -/
theorem ReachesCycle.exists_leadsTo (h : g.ReachesCycle N) :
    ∃ M, g.LeadsTo N M ∧ g.ReachesCycle M := by
  obtain ⟨C, hpath, hcycle⟩ := h
  cases hpath using ReflTransGen.head_induction_on with
  | refl =>
    obtain ⟨M, hedge, hback⟩ := TransGen.head'_iff.mp hcycle
    exact ⟨M, hedge, N, hback, hcycle⟩
  | head hedge hpath => exact ⟨_, hedge, C, hpath, hcycle⟩

/-- A suspect has an edge to a suspect. -/
theorem exists_leadsTo_cycleReaching (hN : N ∈ g.cycleReaching g.nullable) :
    ∃ M ∈ g.cycleReaching g.nullable, g.LeadsTo N M := by
  obtain ⟨alt, halt, hlookahead, M, hM, htarget⟩ := leadsInto_iff.mp (leadsInto_cycleReaching hN)
  exact ⟨M, htarget, mem_nonNullable.mpr (mem_nonterminals_of_mem_cycleReaching hN),
    mem_nonNullable.mpr (mem_nonterminals_of_mem_cycleReaching htarget), alt, halt, hlookahead, hM⟩

/-- The suspects are the nonterminals that reach a cycle. -/
theorem mem_cycleReaching_iff_reachesCycle :
    N ∈ g.cycleReaching g.nullable ↔ g.ReachesCycle N := by
  constructor
  · intro hN
    have hfinite : {M | M ∈ g.cycleReaching g.nullable}.Finite := List.finite_toSet _
    exact exists_cycle hfinite (fun _ hM => exists_leadsTo_cycleReaching hM) hN
  · refine mem_cycleReaching (P := g.ReachesCycle) (fun M hM => ?_) (fun M hM => ?_)
    · obtain ⟨_, hedge, -⟩ := hM.exists_leadsTo
      exact mem_nonNullable.mp hedge.source_mem
    · obtain ⟨target, hedge, htarget⟩ := hM.exists_leadsTo
      obtain ⟨alt, halt, hlookahead, hmem⟩ := hedge.exists_alternative
      exact ⟨alt, halt, hlookahead, target, hmem, htarget⟩

/-! ## Rounds in any order -/

/-- The orders in which a loop goes through sets, in each round one order for each set. An order has
every member once. -/
structure RoundOrders where
  members : Nat → SymbolSet → List Symbol
  perm : ∀ round set, (members round set).Perm set.toList

/-- A moment between two rounds of peeling: what is left, after how many rounds. -/
structure Peeled where
  remaining : SymbolSet
  rounds : Nat

/-- The dead ends of a set, in the order in which its members come: nothing leads from them back
into the set. -/
def deadEnds (g : Grammar) (remaining : SymbolSet) (order : List Symbol) : List Symbol :=
  order.filter fun N => !g.leadsInto remaining N

/-- The next round finds all dead ends first and then takes out one after another. The loop stops
when a round finds none. -/
def nextRound? (g : Grammar) (orders : RoundOrders) (m : Peeled) : Option Peeled :=
  match g.deadEnds m.remaining (orders.members m.rounds m.remaining) with
  | [] => none
  | N :: rest => some ⟨(N :: rest).foldl SymbolSet.erase m.remaining, m.rounds + 1⟩

variable {orders : RoundOrders} {remaining : SymbolSet} {rounds : Nat}

/-- In whatever order the members come, the dead ends are those that do not lead back into the set.
-/
theorem mem_deadEnds :
    N ∈ g.deadEnds remaining (orders.members rounds remaining) ↔
      N ∈ remaining ∧ g.leadsInto remaining N = false := by
  unfold deadEnds
  rw [List.mem_filter, (orders.perm rounds remaining).mem_iff, SymbolSet.mem_toList,
    Bool.not_eq_true']

/-- Without its dead ends, a set is what a step of peeling leaves of it. -/
theorem foldl_erase_deadEnds :
    (g.deadEnds remaining (orders.members rounds remaining)).foldl SymbolSet.erase remaining =
      g.peeling.step remaining := by
  apply SymbolSet.ext_mem
  intro N
  show _ ↔ N ∈ remaining.filter (g.leadsInto remaining)
  rw [SymbolSet.mem_foldl_erase, mem_deadEnds, SymbolSet.mem_filter, not_and, Bool.not_eq_false]
  exact ⟨fun ⟨hN, hleads⟩ => ⟨hN, hleads hN⟩, fun ⟨hN, hleads⟩ => ⟨hN, fun _ => hleads⟩⟩

/-- A set has no dead ends exactly if a step of peeling leaves it as it is. -/
theorem deadEnds_eq_nil_iff :
    g.deadEnds remaining (orders.members rounds remaining) = [] ↔
      g.peeling.step remaining = remaining := by
  constructor
  · intro hnil
    calc g.peeling.step remaining
        = (g.deadEnds remaining (orders.members rounds remaining)).foldl SymbolSet.erase
            remaining := foldl_erase_deadEnds.symm
      _ = remaining := by rw [hnil, List.foldl_nil]
  · intro hfixed
    refine List.eq_nil_iff_forall_not_mem.mpr fun N hN => ?_
    obtain ⟨hmem, hleads⟩ := mem_deadEnds.mp hN
    rw [← hfixed] at hmem
    exact Bool.eq_false_iff.mp hleads (SymbolSet.mem_filter.mp hmem).2

/-- In every order, a round is a step of peeling. -/
theorem nextRound?_eq :
    g.nextRound? orders ⟨remaining, rounds⟩ =
      if g.peeling.step remaining = remaining then none
      else some ⟨g.peeling.step remaining, rounds + 1⟩ := by
  unfold nextRound?
  split
  · rename_i hnil
    rw [if_pos (deadEnds_eq_nil_iff.mp hnil)]
  · rename_i N rest hdead
    have hne : g.peeling.step remaining ≠ remaining := fun hfixed =>
      List.cons_ne_nil N rest (hdead ▸ deadEnds_eq_nil_iff.mpr hfixed)
    rw [if_neg hne, ← hdead, foldl_erase_deadEnds]

/-- In every order, the loop stops with the limit of peeling. It takes a round for each step but the
last one, which changes nothing. -/
theorem mem_eval_nextRound? (g : Grammar) (orders : RoundOrders) (remaining : SymbolSet)
    (rounds : Nat) :
    ⟨g.peeling.limit remaining trivial, rounds + g.peeling.passes remaining trivial - 1⟩ ∈
      eval (g.nextRound? orders) ⟨remaining, rounds⟩ := by
  have hrange : g.peeling.inRange remaining := trivial
  refine Descent.mem_eval_limit_of_reaches Peeled.mk (fun s n => ⟨s, n - 1⟩)
    g.peeling.inRange_step ?_ ?_ hrange hrange rounds
  · intro s n _ hchanges
    have hnext : g.nextRound? orders ⟨s, n⟩ = some ⟨g.peeling.step s, n + 1⟩ := by
      rw [nextRound?_eq, if_neg hchanges]
    exact .single hnext
  · intro s n _ hfixed
    refine mem_eval.mpr ⟨.refl, ?_⟩
    rw [nextRound?_eq]
    exact if_pos hfixed

/-- The suspects are the nonterminals from which a cycle can be reached among those that are not
nullable. In whatever order the loop goes through the sets, it stops with the suspects after at most
one round for each nonterminal that is not nullable, and no nullable nonterminal is among them. -/
theorem cycleReaching_exact (g : Grammar) :
    (∀ N, N ∈ g.cycleReaching g.analyze.nullable ↔ g.ReachesCycle N) ∧
      (∀ orders : RoundOrders, ∃ last ∈ eval (g.nextRound? orders) ⟨g.nonNullable, 0⟩,
        last.remaining = g.cycleReaching g.analyze.nullable ∧
          last.rounds ≤ g.nonNullable.size) ∧
      ∀ N, g.analyze.isNullable N = true → N ∉ g.cycleReaching g.analyze.nullable := by
  refine ⟨fun N => mem_cycleReaching_iff_reachesCycle, fun orders => ?_, fun N hnullable hN => ?_⟩
  · have hpasses : g.peeling.passes g.nonNullable trivial ≤ g.nonNullable.size + 1 :=
      Descent.passes_le ..
    refine ⟨_, g.mem_eval_nextRound? orders g.nonNullable 0, rfl, ?_⟩
    show 0 + g.peeling.passes g.nonNullable trivial - 1 ≤ g.nonNullable.size
    omega
  · exact (mem_nonterminals_of_mem_cycleReaching hN).2 (of_decide_eq_true hnullable)

/-- `Way` leads through `Ring` and `Back` into a cycle. `Out` and `In` are peeled one after the
other, `Blocked` comes back to itself only behind a terminal, and the loop of `Opt` is nullable. -/
def detours : Grammar :=
  (ofRules? [("S", [["Way", "Blocked", "$"]]), ("Way", [["x"], ["Opt", "Ring"]]),
    ("Ring", [["Back"]]), ("Back", [["Ring", "Out"]]), ("Out", [["y"], ["In"]]), ("In", [["z"]]),
    ("Blocked", [["a", "Blocked"], ["b"]]), ("Opt", [["Opt"], ["lambda"]])]).get (by decide)

/-- Every set from its last member to its first, in every round. -/
def RoundOrders.backwards : RoundOrders where
  members _ set := set.toList.reverse
  perm _ set := set.toList.reverse_perm

/-- What reaches the ring is left, whatever else is peeled off. -/
theorem detours_cycleReaching_exact :
    detours.Built ∧ detours.ReachesCycle "Way" ∧ ¬detours.ReachesCycle "Out" ∧
      ¬detours.ReachesCycle "Blocked" ∧
      (∃ last ∈ eval (detours.nextRound? .backwards) ⟨detours.nonNullable, 0⟩,
        last.remaining = .ofList ["Way", "Ring", "Back"] ∧ last.rounds ≤ 7) ∧
      detours.analyze.isNullable "Opt" = true ∧
      "Opt" ∉ detours.cycleReaching detours.analyze.nullable := by
  have hbuilt : detours.Built := built_of_ofRules? (Option.some_get _).symm
  have hsuspects : detours.cycleReaching detours.analyze.nullable =
      .ofList ["Way", "Ring", "Back"] := by decide +kernel
  have hsize : detours.nonNullable.size = 7 := by decide +kernel
  have hnullable : detours.analyze.isNullable "Opt" = true := by decide +kernel
  obtain ⟨hreaches, horders, hnone⟩ := detours.cycleReaching_exact
  have hopt := hnone "Opt" hnullable
  obtain ⟨last, hlast, hremaining, hrounds⟩ := horders .backwards
  rw [hsuspects] at hremaining
  rw [hsize] at hrounds
  refine ⟨hbuilt, (hreaches "Way").mp ?_, mt (hreaches "Out").mpr ?_,
    mt (hreaches "Blocked").mpr ?_, ⟨last, hlast, hremaining, hrounds⟩, hnullable, hopt⟩
  all_goals
    rw [hsuspects]
    decide

end Grammar

end Lookahead
