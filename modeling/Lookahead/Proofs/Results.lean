import Mathlib.Data.List.Forall2

/-!
# Results that may be errors

What a computation that can fail returns, by what its parts return: the ↔ lemmas by which the checks
of the reader and of the analysis are taken apart.
-/

namespace Lookahead

variable {ε α β : Type} {x : Except ε α} {f : α → Except ε β} {l : List α} {e e' : ε}

/-- Two computations in turn succeed if the first does and then the second. -/
theorem bind_eq_ok_iff {r : β} :
    x >>= f = .ok r ↔ ∃ a, x = .ok a ∧ f a = .ok r := by
  cases x <;> simp [bind, Except.bind]

/-- Two computations in turn fail if the first does, or if it succeeds and the second fails. -/
theorem bind_eq_error_iff :
    x >>= f = .error e ↔ x = .error e ∨ ∃ a, x = .ok a ∧ f a = .error e := by
  cases x <;> simp [bind, Except.bind]

/-- A changed result is a success if the result is. -/
theorem map_eq_ok_iff {f : α → β} {r : β} :
    f <$> x = .ok r ↔ ∃ a, x = .ok a ∧ f a = r := by
  cases x <;> simp [Functor.map, Except.map]

/-- A list is mapped without an error if each of its elements is. -/
theorem mapM_eq_ok_iff {r : List β} :
    l.mapM f = .ok r ↔ List.Forall₂ (fun a b => f a = .ok b) l r := by
  induction l generalizing r with
  | nil =>
    rw [List.mapM_nil, List.forall₂_nil_left_iff]
    simp only [pure, Except.pure, Except.ok.injEq]
    exact eq_comm
  | cons a rest ih =>
    rw [List.mapM_cons, List.forall₂_cons_left_iff]
    simp only [bind_eq_ok_iff, ih, pure, Except.pure, Except.ok.injEq]
    grind

/-- Two checks in a row pass if both do. -/
theorem check_then_eq_ok_iff {check : Except ε Unit} {next : Except ε α} {result : α} :
    (do check; next) = .ok result ↔ check = .ok () ∧ next = .ok result := by
  cases check <;> simp [bind, Except.bind]

/-- Changing a result keeps its error. -/
theorem map_eq_error_iff {f : α → β} :
    (do let a ← x; return f a) = .error e ↔ x = .error e := by
  cases x <;> simp [bind, Except.bind, pure, Except.pure]

/-- An error of a list comes from one of its elements. -/
theorem exists_of_mapM_eq_error (h : l.mapM f = .error e) : ∃ a ∈ l, f a = .error e := by
  induction l with
  | nil => simp [pure, Except.pure] at h
  | cons a rest ih =>
    rw [List.mapM_cons] at h
    rcases bind_eq_error_iff.mp h with h | ⟨b, -, h⟩
    · exact ⟨a, List.mem_cons_self, h⟩
    · rcases bind_eq_error_iff.mp h with h | ⟨bs, -, h⟩
      · obtain ⟨a', ha', h⟩ := ih h
        exact ⟨a', List.mem_cons_of_mem _ ha', h⟩
      · simp [pure, Except.pure] at h

/-- If a computation succeeds for a whole list, it does for each element. -/
theorem exists_of_mapM_eq_ok {r : List β} (h : l.mapM f = .ok r) :
    ∀ a ∈ l, ∃ b, f a = .ok b := by
  induction mapM_eq_ok_iff.mp h with
  | nil => exact List.forall_mem_nil _
  | cons ha hrest ih => exact List.forall_mem_cons.mpr ⟨⟨_, ha⟩, ih (mapM_eq_ok_iff.mpr hrest)⟩

/-- Where the elements of a list can have one error only, the list has it exactly if one of them
has. -/
theorem mapM_eq_error_iff (e : ε) (honly : ∀ a ∈ l, ∀ e', f a = .error e' → e' = e) :
    l.mapM f = .error e' ↔ e' = e ∧ ∃ a ∈ l, f a = .error e := by
  constructor
  · intro h
    obtain ⟨a, ha, herror⟩ := exists_of_mapM_eq_error h
    obtain rfl := honly a ha e' herror
    exact ⟨rfl, a, ha, herror⟩
  · rintro ⟨rfl, a, ha, herror⟩
    cases h : l.mapM f with
    | error e =>
      obtain ⟨a', ha', herror'⟩ := exists_of_mapM_eq_error h
      rw [honly a' ha' e herror']
    | ok results =>
      obtain ⟨b, hok⟩ := exists_of_mapM_eq_ok h a ha
      rw [herror] at hok
      exact absurd hok (by simp)

/-! ## Errors under another name -/

/-- Changing a result and renaming its error can be done in either order. -/
theorem map_mapError {ε' : Type} (rename : ε → ε') (f : α → β) (x : Except ε α) :
    f <$> x.mapError rename = (f <$> x).mapError rename := by
  cases x <;> rfl

/-- Errors can be renamed for each element or for the whole list. -/
theorem mapM_mapError {ε' : Type} (rename : ε → ε') (f : α → Except ε β) (l : List α) :
    (l.mapM fun a => (f a).mapError rename) = (l.mapM f).mapError rename := by
  induction l with
  | nil => rfl
  | cons a rest ih =>
    rw [List.mapM_cons, List.mapM_cons, ih]
    cases f a with
    | error e => rfl
    | ok b => cases rest.mapM f <;> rfl

end Lookahead
