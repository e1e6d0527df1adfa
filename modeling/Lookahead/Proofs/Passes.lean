import Lookahead.FixedPoint

/-!
# The limit of passes over a list

A pass changes the state one item at a time, so each item already sees what the items before it
changed. At the limit this makes no difference. No single item changes the limit
(`apply_limit_pass`), and the limit inherits what each item alone preserves
(`limit_pass_induction`).
-/

namespace Lookahead.Descent

variable {α β : Type} {items : List β} {f : α → β → α} {inRange : α → Prop} {rank : α → Nat}

/-- A pass that returns to its start changed nothing on the way: a change lowers the rank, and no
later item raises it again. -/
theorem apply_eq_of_foldl_eq (hrange : ∀ b ∈ items, ∀ x, inRange x → inRange (f x b))
    (hrank : ∀ b ∈ items, ∀ x, inRange x → f x b = x ∨ rank (f x b) < rank x) {x : α}
    (hx : inRange x) (h : items.foldl f x = x) : ∀ b ∈ items, f x b = x := by
  induction items with
  | nil => simp
  | cons c rest ih =>
    have hrange' : ∀ b ∈ rest, ∀ y, inRange y → inRange (f y b) := fun b hb =>
      hrange b (List.mem_cons_of_mem c hb)
    have hrank' : ∀ b ∈ rest, ∀ y, inRange y → f y b = y ∨ rank (f y b) < rank y := fun b hb =>
      hrank b (List.mem_cons_of_mem c hb)
    rw [List.foldl_cons] at h
    rcases hrank c (by simp) x hx with hsame | hlt
    · rw [hsame] at h
      intro b hb
      rcases List.mem_cons.mp hb with rfl | hb
      · exact hsame
      · exact ih hrange' hrank' h b hb
    · -- the rest of the pass would have to undo the change of `c`
      have hrest := foldl_eq_or_rank_lt hrange' hrank' (hrange c (by simp) x hx)
      rw [h] at hrest
      rcases hrest with hsame | hlt'
      · rw [← hsame] at hlt
        omega
      · omega

variable [DecidableEq α]

/-- No single item of a pass changes the limit. -/
theorem apply_limit_pass (hrange : ∀ b ∈ items, ∀ x, inRange x → inRange (f x b))
    (hrank : ∀ b ∈ items, ∀ x, inRange x → f x b = x ∨ rank (f x b) < rank x) {x : α}
    (hx : inRange x) {b : β} (hb : b ∈ items) :
    f ((pass items f inRange rank hrange hrank).limit x hx) b =
      (pass items f inRange rank hrange hrank).limit x hx := by
  let d := pass items f inRange rank hrange hrank
  have hfixed : items.foldl f (d.limit x hx) = d.limit x hx := d.step_limit x hx
  exact apply_eq_of_foldl_eq hrange hrank (d.inRange_limit x hx) hfixed b hb

/-- What holds at the start and survives every item of a pass holds at the limit. -/
theorem limit_pass_induction {P : α → Prop}
    (hrange : ∀ b ∈ items, ∀ x, inRange x → inRange (f x b))
    (hrank : ∀ b ∈ items, ∀ x, inRange x → f x b = x ∨ rank (f x b) < rank x)
    (hitem : ∀ b ∈ items, ∀ x, P x → P (f x b)) {x : α} (hx : inRange x) (hP : P x) :
    P ((pass items f inRange rank hrange hrank).limit x hx) := by
  apply limit_induction
  · intro y _ hy
    exact List.foldlRecOn items f hy fun z hz b hb => hitem b hb z hz
  · exact hP

end Lookahead.Descent
