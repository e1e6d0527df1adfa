/-!
# Running a step until it changes nothing

The sets of this library are least or greatest solutions of equations, found by passing over the
rules again and again until a whole pass changes nothing. Such a loop ends because every pass that
changes something lowers a rank, the number of facts that are still missing or of names that are
still in.

`Descent` is such a step with its rank and with the range of states on which the rank falls;
`Descent.pass` makes one out of small steps, one for each item of a list. `Descent.limit` runs a
descent: the result is left alone by one more step (`step_limit`), inherits whatever a step
preserves (`limit_induction`), and comes after at most `rank + 1` steps (`passes_le`).
-/

namespace Lookahead

/-- A step that lowers a rank whenever it changes a state in its range. -/
structure Descent (α : Type) where
  step : α → α
  inRange : α → Prop
  rank : α → Nat
  inRange_step : ∀ x, inRange x → inRange (step x)
  rank_step_lt : ∀ x, inRange x → step x ≠ x → rank (step x) < rank x

namespace Descent

/-! ## Passes over a list -/

/-- If no small step leaves the range, nor does a whole pass of them. -/
theorem inRange_foldl {α β : Type} {f : α → β → α} {inRange : α → Prop} {items : List β}
    (hrange : ∀ b ∈ items, ∀ x, inRange x → inRange (f x b)) {x : α} (hx : inRange x) :
    inRange (items.foldl f x) := by
  induction items generalizing x with
  | nil => exact hx
  | cons b rest ih =>
    exact ih (fun c hc => hrange c (List.mem_cons_of_mem b hc)) (hrange b (by simp) x hx)

/-- If every small step changes nothing or lowers the rank, so does a whole pass of them. -/
theorem foldl_eq_or_rank_lt {α β : Type} {f : α → β → α} {inRange : α → Prop} {rank : α → Nat}
    {items : List β} (hrange : ∀ b ∈ items, ∀ x, inRange x → inRange (f x b))
    (hrank : ∀ b ∈ items, ∀ x, inRange x → f x b = x ∨ rank (f x b) < rank x) {x : α}
    (hx : inRange x) : items.foldl f x = x ∨ rank (items.foldl f x) < rank x := by
  induction items generalizing x with
  | nil => exact .inl rfl
  | cons b rest ih =>
    have htail := ih (fun c hc => hrange c (List.mem_cons_of_mem b hc))
      (fun c hc => hrank c (List.mem_cons_of_mem b hc)) (hrange b (by simp) x hx)
    rw [List.foldl_cons]
    rcases hrank b (by simp) x hx with hsame | hlt
    · rwa [hsame] at htail ⊢
    · rcases htail with htail | htail
      · exact .inr (htail.symm ▸ hlt)
      · exact .inr (Nat.lt_trans htail hlt)

/-- The descent whose step is a pass of small steps `f`, one for each of `items` in turn. -/
def pass {α β : Type} (items : List β) (f : α → β → α) (inRange : α → Prop) (rank : α → Nat)
    (hrange : ∀ b ∈ items, ∀ x, inRange x → inRange (f x b))
    (hrank : ∀ b ∈ items, ∀ x, inRange x → f x b = x ∨ rank (f x b) < rank x) : Descent α where
  step := items.foldl f
  inRange := inRange
  rank := rank
  inRange_step _ hx := inRange_foldl hrange hx
  rank_step_lt _ hx hne := (foldl_eq_or_rank_lt hrange hrank hx).resolve_left hne

/-! ## The limit -/

variable {α : Type} [DecidableEq α] (d : Descent α)

/-- The state reached by stepping from `x` until a step changes nothing. -/
def limit (x : α) (hx : d.inRange x) : α :=
  if _h : d.step x = x then x
  else limit (d.step x) (d.inRange_step x hx)
termination_by d.rank x
decreasing_by exact d.rank_step_lt x hx ‹_›

/-- The number of steps taken to reach the limit, the last one, which changes nothing, included. -/
def passes (x : α) (hx : d.inRange x) : Nat :=
  if _h : d.step x = x then 1
  else passes (d.step x) (d.inRange_step x hx) + 1
termination_by d.rank x
decreasing_by exact d.rank_step_lt x hx ‹_›

/-- What holds at the start and survives every step holds at the limit. -/
theorem limit_induction {P : α → Prop} (hstep : ∀ y, d.inRange y → P y → P (d.step y)) (x : α)
    (hx : d.inRange x) (hP : P x) : P (d.limit x hx) := by
  fun_induction limit d x hx with
  | case1 => exact hP
  | case2 x hx _ ih => exact ih (hstep x hx hP)

/-- The limit is in range. -/
theorem inRange_limit (x : α) (hx : d.inRange x) : d.inRange (d.limit x hx) :=
  d.limit_induction (fun y _ hy => d.inRange_step y hy) x hx hx

/-- One more step leaves the limit as it is. -/
theorem step_limit (x : α) (hx : d.inRange x) : d.step (d.limit x hx) = d.limit x hx := by
  fun_induction limit d x hx with
  | case1 _ _ h => exact h
  | case2 _ _ _ ih => exact ih

/-- The limit comes after at most as many steps as the rank of the start, and one more. -/
theorem passes_le (x : α) (hx : d.inRange x) : d.passes x hx ≤ d.rank x + 1 := by
  fun_induction passes d x hx with
  | case1 => omega
  | case2 x hx h ih =>
    have hlt := d.rank_step_lt x hx h
    omega

end Descent

end Lookahead
