import Lookahead.Proofs.Passes
import Mathlib.Computability.StateTransition

/-!
# Loops over passes, item by item

A `Loop` goes over a list again and again and treats one item at a time. Each treatment says
whether it changed the state, and the loop stops after a pass that said so of no item. The moments
of such a loop are those between two treatments.

If every treatment is a small step of a descent, and says that it changed the state exactly if it
did, the loop stops in the descent's limit after as many passes as the descent takes
(`mem_eval_limit`), and what the small steps preserve holds at every moment (`holds_of_reaches`).
`Loop.StopsIn` collects what this says of a loop (`stopsIn_limit`). What a loop of any other make
has to satisfy for the same end is in `Descent.mem_eval_limit_of_reaches`.
-/

namespace Lookahead

open StateTransition

/-- A run that comes from each state to the state after a step, and that stops where a step changes
nothing, stops in the limit, after the steps that the descent takes. The moments of the run are
given by a state and the number of steps before it. -/
theorem Descent.mem_eval_limit_of_reaches {α σ : Type} [DecidableEq α] {d : Descent α}
    {next? : σ → Option σ} {P : α → Prop} (moment last : α → Nat → σ)
    (hholds : ∀ x, P x → P (d.step x))
    (hstep : ∀ x n, P x → d.step x ≠ x →
      Reaches next? (moment x n) (moment (d.step x) (n + 1)))
    (hlast : ∀ x n, P x → d.step x = x → last x (n + 1) ∈ eval next? (moment x n))
    {x : α} (hx : d.inRange x) (hP : P x) (n : Nat) :
    last (d.limit x hx) (n + d.passes x hx) ∈ eval next? (moment x n) := by
  fun_induction Descent.limit d x hx generalizing n with
  | case1 x hx hfixed =>
    rw [Descent.passes, dif_pos hfixed]
    exact hlast x n hP hfixed
  | case2 x hx hchanges ih =>
    have hpasses : n + d.passes x hx = n + 1 + d.passes (d.step x) (d.inRange_step x hx) := by
      rw [Descent.passes, dif_neg hchanges]
      omega
    rw [hpasses, reaches_eval (hstep x n hP hchanges)]
    exact ih (hholds x hP) (n + 1)

/-- A loop over passes: the items of a pass, the treatment of one item in a state, with whether it
changed the state, and the state to begin with. -/
structure Loop (α β : Type) where
  items : List β
  treat : α → β → α × Bool
  start : α

/-- A moment of a loop: its state, the items that the pass has still to come to, whether the pass
has changed the state so far, and the number of the pass. -/
structure Moment (α β : Type) where
  state : α
  rest : List β
  changed : Bool
  pass : Nat

namespace Loop

variable {α β : Type}

/-- The moment before the first pass. -/
def first (loop : Loop α β) : Moment α β := ⟨loop.start, loop.items, false, 1⟩

/-- The next moment. After a pass that changed something another one begins; after any other the
loop stops. -/
def next? (loop : Loop α β) : Moment α β → Option (Moment α β)
  | ⟨state, item :: rest, changed, pass⟩ =>
    some ⟨(loop.treat state item).1, rest, changed || (loop.treat state item).2, pass⟩
  | ⟨state, [], true, pass⟩ => some ⟨state, loop.items, false, pass + 1⟩
  | ⟨_, [], false, _⟩ => none

/-- A next moment comes after an item, or between two passes. -/
theorem mem_next?_cases {loop : Loop α β} {m m' : Moment α β} (h : m' ∈ loop.next? m) :
    (∃ item rest, m.rest = item :: rest ∧ m' = ⟨(loop.treat m.state item).1, rest,
        m.changed || (loop.treat m.state item).2, m.pass⟩) ∨
      m.rest = [] ∧ m.changed = true ∧ m' = ⟨m.state, loop.items, false, m.pass + 1⟩ := by
  obtain ⟨state, rest, changed, pass⟩ := m
  cases rest with
  | cons item rest => exact .inl ⟨item, rest, rfl, (Option.some.inj h).symm⟩
  | nil =>
    cases changed with
    | true => exact .inr ⟨rfl, rfl, (Option.some.inj h).symm⟩
    | false => exact nomatch h

/-- Whether a loop stops in a state that no item changes, after some number of passes and with all
states on the way in a range. -/
structure StopsIn (loop : Loop α β) (limit : α) (passes : Nat) (inRange : α → Prop) : Prop where
  exists_last : ∃ last ∈ eval loop.next? loop.first, last.state = limit ∧ last.pass = passes
  pass_le : ∀ m, Reaches loop.next? loop.first m → m.pass ≤ passes
  inRange : ∀ m, Reaches loop.next? loop.first m → inRange m.state
  settled : ∀ item ∈ loop.items, loop.treat limit item = (limit, false)

/-- A loop that stays within a range stays within every wider one. -/
theorem StopsIn.mono {loop : Loop α β} {limit : α} {passes : Nat} {inRange inRange' : α → Prop}
    (h : loop.StopsIn limit passes inRange) (hrange : ∀ x, inRange x → inRange' x) :
    loop.StopsIn limit passes inRange' where
  exists_last := h.exists_last
  pass_le := h.pass_le
  inRange m hm := hrange _ (h.inRange m hm)
  settled := h.settled

/-- Passes are counted upwards. -/
theorem pass_le_of_reaches {loop : Loop α β} {m m' : Moment α β} (h : Reaches loop.next? m m') :
    m.pass ≤ m'.pass := by
  induction h with
  | refl => exact Nat.le_refl _
  | tail _ hnext ih =>
    refine Nat.le_trans ih ?_
    obtain ⟨_, _, -, rfl⟩ | ⟨-, -, rfl⟩ := mem_next?_cases hnext
    · exact Nat.le_refl _
    · exact Nat.le_succ _

/-! ## Loops of descents -/

section Descent

variable [DecidableEq α] {loop : Loop α β} {d : Descent α} {f : α → β → α} {P : α → Prop}
  (hholds : ∀ b ∈ loop.items, ∀ x, P x → P (f x b))
  (htreat : ∀ b ∈ loop.items, ∀ x, P x → loop.treat x b = (f x b, decide (f x b ≠ x)))
include hholds htreat

/-- What the small steps preserve holds at every moment. -/
theorem holds_of_reaches (hstart : P loop.start) {m : Moment α β}
    (hm : Reaches loop.next? loop.first m) : P m.state := by
  -- what the pass has still to come to are items of the loop all the time
  suffices h : P m.state ∧ ∀ item ∈ m.rest, item ∈ loop.items from h.1
  induction hm with
  | refl => exact ⟨hstart, fun _ h => h⟩
  | tail _ hnext ih =>
    obtain ⟨hP, hrest⟩ := ih
    obtain ⟨b, rest, heq, rfl⟩ | ⟨-, -, rfl⟩ := mem_next?_cases hnext
    · rw [heq] at hrest
      obtain ⟨hb, hrest⟩ := List.forall_mem_cons.mp hrest
      refine ⟨?_, hrest⟩
      rw [htreat b hb _ hP]
      exact hholds b hb _ hP
    · exact ⟨hP, fun _ h => h⟩

variable (hrank : ∀ b ∈ loop.items, ∀ x, P x → f x b = x ∨ d.rank (f x b) < d.rank x)
include hrank

/-- The loop comes to the end of the pass, and there the pass has changed something exactly if its
state is another. -/
theorem reaches_endOfPass {rest : List β} (hitems : ∀ b ∈ rest, b ∈ loop.items) {x : α} (hx : P x)
    (changed : Bool) (pass : Nat) :
    Reaches loop.next? ⟨x, rest, changed, pass⟩
      ⟨rest.foldl f x, [], changed || decide (rest.foldl f x ≠ x), pass⟩ := by
  induction rest generalizing x changed with
  | nil =>
    simp only [List.foldl_nil, ne_eq, not_true, decide_false, Bool.or_false]
    exact .refl
  | cons b rest ih =>
    obtain ⟨hb, hrest⟩ := List.forall_mem_cons.mp hitems
    have hnext : loop.next? ⟨x, b :: rest, changed, pass⟩ =
        some ⟨f x b, rest, changed || decide (f x b ≠ x), pass⟩ := by
      rw [next?, htreat b hb x hx]
    have hchanged : ((changed || decide (f x b ≠ x)) || decide (rest.foldl f (f x b) ≠ f x b)) =
        (changed || decide (rest.foldl f (f x b) ≠ x)) := by
      by_cases hsame : f x b = x
      · simp [hsame]
      · -- a pass that changes the state does not come back to it
        have hne : rest.foldl f (f x b) ≠ x := fun h => hsame <|
          Descent.apply_eq_of_foldl_eq (fun b hb => hholds b (hitems b hb))
            (fun b hb => hrank b (hitems b hb)) hx h b List.mem_cons_self
        simp [hsame, hne]
    have hend := ih hrest (hholds b hb x hx) (changed || decide (f x b ≠ x))
    rw [hchanged] at hend
    exact hend.head hnext

variable (hstep : ∀ x, d.step x = loop.items.foldl f x)
include hstep

/-- The loop stops in the limit, after the passes that the descent takes. -/
theorem mem_eval_limit {x : α} (hx : d.inRange x) (hP : P x) (pass : Nat) :
    ⟨d.limit x hx, [], false, pass + d.passes x hx⟩ ∈
      eval loop.next? ⟨x, loop.items, false, pass + 1⟩ := by
  -- a pass, item by item, is one step of the descent
  have hend : ∀ x n, P x → Reaches loop.next? ⟨x, loop.items, false, n + 1⟩
      ⟨d.step x, [], decide (d.step x ≠ x), n + 1⟩ := fun x n hP => by
    rw [hstep]
    exact reaches_endOfPass hholds htreat hrank (fun _ h => h) hP false (n + 1)
  refine Descent.mem_eval_limit_of_reaches
    (fun x n => (⟨x, loop.items, false, n + 1⟩ : Moment α β)) (fun x n => ⟨x, [], false, n⟩)
    ?_ ?_ ?_ hx hP pass
  · intro x hP
    rw [hstep]
    exact Descent.inRange_foldl hholds hP
  · intro x n hP hchanges
    have hpass := hend x n hP
    rw [decide_eq_true hchanges] at hpass
    exact hpass.tail rfl
  · intro x n hP hfixed
    exact mem_eval.mpr ⟨by simpa [hfixed] using hend x n hP, rfl⟩

/-- A loop of a descent stops in the limit, after the passes that the descent takes. -/
theorem stopsIn_limit (hx : d.inRange loop.start) (hP : P loop.start) :
    loop.StopsIn (d.limit loop.start hx) (d.passes loop.start hx) P := by
  have hholds' : ∀ m, Reaches loop.next? loop.first m → P m.state := fun m hm =>
    holds_of_reaches hholds htreat hP hm
  have hlast := mem_eval_limit hholds htreat hrank hstep hx hP 0
  have hlimit : P (d.limit loop.start hx) := hholds' _ (mem_eval.mp hlast).1
  refine ⟨⟨_, hlast, rfl, Nat.zero_add _⟩, fun m hm => ?_, hholds', fun b hb => ?_⟩
  · -- the loop comes from every moment to the last one
    have hlater := (mem_eval.mp (reaches_eval hm ▸ hlast)).1
    exact Nat.le_trans (pass_le_of_reaches hlater) (Nat.le_of_eq (Nat.zero_add _))
  · have hfixed : loop.items.foldl f (d.limit loop.start hx) = d.limit loop.start hx := by
      rw [← hstep, d.step_limit]
    rw [htreat b hb _ hlimit, Descent.apply_eq_of_foldl_eq hholds hrank hlimit hfixed b hb]
    simp

end Descent

end Loop

end Lookahead
