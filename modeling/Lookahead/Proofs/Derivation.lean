import Lookahead.Proofs.RuleIndex
import Mathlib.Logic.Relation

/-!
# Derivations

A derivation replaces one occurrence of a nonterminal after the other by an alternative of it, in
which `lambda` stands for nothing. `Grammar.Derives` says that some derivation leads from one
sequence of symbols to another. Derivations of parts combine to derivations of the whole
(`Derives.append`), what no rule can replace stays where it is (`Derives.exists_of_append`), and a
property of symbols that the rules respect passes from a sequence to all it derives
(`Derives.forall_mem`).
-/

namespace Lookahead

/-- A sequence of symbols with `lambda` deleted. -/
def eraseLambda (symbols : List Symbol) : List Symbol := symbols.filter fun s => !s.isLambda

/-- Deleting `lambda` goes through the parts of a sequence. -/
theorem eraseLambda_append (u v : List Symbol) :
    eraseLambda (u ++ v) = eraseLambda u ++ eraseLambda v :=
  List.filter_append u v

/-- `lambda` in front is deleted. -/
theorem eraseLambda_cons_of_isLambda {s : Symbol} (h : s.isLambda = true) (rest : List Symbol) :
    eraseLambda (s :: rest) = eraseLambda rest := by
  simp [eraseLambda, h]

/-- Any other symbol in front stays. -/
theorem eraseLambda_cons_of_not_isLambda {s : Symbol} (h : s.isLambda = false)
    (rest : List Symbol) : eraseLambda (s :: rest) = s :: eraseLambda rest := by
  simp [eraseLambda, h]

/-- Induction along a sequence, by whether `lambda` is deleted next. -/
@[elab_as_elim]
theorem lambda_induction {motive : List Symbol → Prop} (nil : motive [])
    (deleted : ∀ s rest, s.isLambda = true → motive rest → motive (s :: rest))
    (kept : ∀ s rest, s.isLambda = false → motive rest → motive (s :: rest))
    (symbols : List Symbol) : motive symbols := by
  induction symbols with
  | nil => exact nil
  | cons s rest ih =>
    by_cases hs : s.isLambda = true
    · exact deleted s rest hs ih
    · exact kept s rest (Bool.eq_false_iff.mpr hs) ih

/-- What is left is all but `lambda`. -/
theorem mem_eraseLambda {s : Symbol} {symbols : List Symbol} :
    s ∈ eraseLambda symbols ↔ s ∈ symbols ∧ s.isLambda = false := by
  simp [eraseLambda]

/-- A nonterminal kept by deleting `lambda` was there before, with what is kept around it. -/
theorem exists_of_eraseLambda_eq {alt before after : List Symbol} {s : Symbol}
    (h : eraseLambda alt = before ++ s :: after) :
    ∃ before' after', alt = before' ++ s :: after' ∧ eraseLambda before' = before ∧
      eraseLambda after' = after := by
  obtain ⟨front, back, rfl, hfront, hback⟩ := List.filter_eq_append_iff.mp h
  -- some `lambda` may stand right before the symbol; it counts to what is before
  obtain ⟨skipped, after', rfl, hskipped, -, hafter⟩ := List.filter_eq_cons_iff.mp hback
  refine ⟨front ++ skipped, after', by rw [List.append_assoc], ?_, hafter⟩
  have hnone : eraseLambda skipped = [] := List.filter_eq_nil_iff.mpr hskipped
  rw [eraseLambda_append, hnone, List.append_nil]
  exact hfront

/-- A symbol of two sequences in a row stands in the first or in the second of them. -/
theorem cases_of_append_eq {u v before after : List Symbol} {s : Symbol}
    (h : u ++ v = before ++ s :: after) :
    (∃ middle, u = before ++ s :: middle ∧ after = middle ++ v) ∨
      ∃ middle, before = u ++ middle ∧ v = middle ++ s :: after := by
  rcases List.append_eq_append_iff.mp h with ⟨middle, hbefore, hv⟩ | ⟨middle, hu, hcons⟩
  · exact .inr ⟨middle, hbefore, hv⟩
  · cases middle with
    | nil => exact .inr ⟨[], by simpa using hu.symm, hcons.symm⟩
    | cons t middle =>
      obtain ⟨rfl, rfl⟩ := List.cons.inj hcons
      exact .inl ⟨middle, hu, rfl⟩

/-- The single symbol of a sequence leaves no room around it. -/
theorem append_cons_eq_singleton_iff {before after : List Symbol} {s t : Symbol} :
    before ++ s :: after = [t] ↔ before = [] ∧ s = t ∧ after = [] := by
  rw [List.append_eq_singleton_iff]
  simp

/-! ## Classes of symbols -/

/-- No lookahead is `lambda`. -/
theorem Symbol.isLambda_eq_false_of_isLookahead {s : Symbol} (h : s.isLookahead = true) :
    s.isLambda = false := by
  unfold Symbol.isLookahead Symbol.isTerminal at h
  rcases Bool.or_eq_true_iff.mp h with h | h
  · simp_all
  · unfold Symbol.isEndMarker at h
    rw [eq_of_beq h]
    decide

/-- No nonterminal is `lambda`. -/
theorem Symbol.isLambda_eq_false_of_isNonterminal {s : Symbol} (h : s.isNonterminal = true) :
    s.isLambda = false := by
  simp_all [Symbol.isNonterminal]

/-- No nonterminal is a lookahead. -/
theorem Symbol.isLookahead_eq_false_of_isNonterminal {s : Symbol} (h : s.isNonterminal = true) :
    s.isLookahead = false := by
  simp_all [Symbol.isNonterminal, Symbol.isLookahead]

/-- The lookaheads are the terminals and the end marker. -/
theorem Symbol.isLookahead_iff {s : Symbol} :
    s.isLookahead = true ↔ s.isTerminal = true ∨ s = Symbol.endMarker := by
  simp [Symbol.isLookahead, Symbol.isEndMarker]

/-- Whether a symbol stays in a derivation for good: a terminal, the end marker or the empty
symbol. -/
def Symbol.IsFinal (s : Symbol) : Prop := s.isLookahead = true ∨ s = ""

/-- What stays for good is not `lambda`. -/
theorem Symbol.IsFinal.isLambda_eq_false {s : Symbol} (h : s.IsFinal) : s.isLambda = false := by
  rcases h with h | rfl
  · exact Symbol.isLambda_eq_false_of_isLookahead h
  · decide

/-- Every symbol but `lambda` stays for good or is a nonterminal. -/
theorem Symbol.isFinal_or_isNonterminal {s : Symbol} (h : s.isLambda = false) :
    s.IsFinal ∨ s.isNonterminal = true := by
  unfold Symbol.IsFinal Symbol.isLookahead Symbol.isNonterminal
  by_cases hempty : s = ""
  · exact .inl (.inr hempty)
  · cases s.isTerminal <;> cases s.isEndMarker <;> simp [h, hempty]

/-- What stays for good is no nonterminal of a grammar. -/
theorem Grammar.WellFormed.not_mem_nonterminals_of_isFinal {g : Grammar} (hg : g.WellFormed)
    {s : Symbol} (hs : s.IsFinal) : s ∉ g.nonterminals := by
  intro hmem
  have hnonterminal := hg.isNonterminal_of_mem s hmem
  rcases hs with hlookahead | rfl
  · rw [Symbol.isLookahead_eq_false_of_isNonterminal hnonterminal] at hlookahead
    exact Bool.false_ne_true hlookahead
  · exact absurd hnonterminal (by decide)

namespace Grammar

variable {g : Grammar} {u v w x : List Symbol}

/-- Whether no alternative has an empty symbol in it. -/
def HasNoEmptySymbol (g : Grammar) : Prop := ∀ lhs, ∀ alt ∈ g.table.alternatives lhs, "" ∉ alt

/-- Only the nonterminals of a grammar have alternatives to check. -/
theorem WellFormed.hasNoEmptySymbol_iff (hg : g.WellFormed) :
    g.HasNoEmptySymbol ↔
      ∀ lhs ∈ g.nonterminals, ∀ alt ∈ g.table.alternatives lhs, "" ∉ alt :=
  ⟨fun h lhs _ => h lhs, fun h lhs alt halt => h lhs (hg.lhs_mem halt) alt halt⟩

/-- One step of a derivation: an occurrence of a nonterminal becomes one of its alternatives, less
`lambda`. -/
inductive Produces (g : Grammar) : List Symbol → List Symbol → Prop
  | step {lhs : Symbol} {alt : Alternative} (before after : List Symbol)
      (halt : alt ∈ g.table.alternatives lhs) :
      Produces g (before ++ lhs :: after) (before ++ eraseLambda alt ++ after)

/-- A step can be made behind any sequence. -/
theorem Produces.append_left (h : g.Produces u v) (x : List Symbol) :
    g.Produces (x ++ u) (x ++ v) := by
  obtain @⟨lhs, alt, before, after, halt⟩ := h
  have hstep := Produces.step (x ++ before) after halt
  simpa only [List.append_assoc] using hstep

/-- A step can be made in front of any sequence. -/
theorem Produces.append_right (h : g.Produces u v) (x : List Symbol) :
    g.Produces (u ++ x) (v ++ x) := by
  obtain @⟨lhs, alt, before, after, halt⟩ := h
  have hstep := Produces.step before (after ++ x) halt
  simpa only [List.append_assoc, List.cons_append] using hstep

/-- No step begins at the empty sequence. -/
theorem not_produces_nil : ¬g.Produces [] v := by
  intro h
  generalize hempty : ([] : List Symbol) = start at h
  obtain ⟨before, after, -⟩ := h
  simp at hempty

/-- A step from a single symbol leaves one of its alternatives. -/
theorem Produces.exists_alternative {N : Symbol} (h : g.Produces [N] v) :
    ∃ alt ∈ g.table.alternatives N, v = eraseLambda alt := by
  generalize hstart : [N] = start at h
  obtain @⟨lhs, alt, before, after, halt⟩ := h
  obtain ⟨rfl, rfl, rfl⟩ := append_cons_eq_singleton_iff.mp hstart.symm
  exact ⟨alt, halt, by rw [List.nil_append, List.append_nil]⟩

/-- The sequences that can be derived from a sequence in any number of steps, none included. -/
def Derives (g : Grammar) : List Symbol → List Symbol → Prop := Relation.ReflTransGen g.Produces

namespace Derives

theorem refl (u : List Symbol) : g.Derives u u := Relation.ReflTransGen.refl

/-- Derivations can be made one after the other. -/
theorem trans (h : g.Derives u v) (h' : g.Derives v w) : g.Derives u w :=
  Relation.ReflTransGen.trans h h'

/-- A nonterminal derives each of its alternatives, in any surroundings. -/
theorem of_alternative {lhs : Symbol} {alt : Alternative} (halt : alt ∈ g.table.alternatives lhs)
    (before after : List Symbol) :
    g.Derives (before ++ lhs :: after) (before ++ eraseLambda alt ++ after) :=
  Relation.ReflTransGen.single (.step before after halt)

/-- A nonterminal derives each of its alternatives. -/
theorem singleton_of_alternative {lhs : Symbol} {alt : Alternative}
    (halt : alt ∈ g.table.alternatives lhs) : g.Derives [lhs] (eraseLambda alt) := by
  have hrule := of_alternative halt [] []
  rw [List.nil_append, List.nil_append, List.append_nil] at hrule
  exact hrule

/-- A derivation can be made behind any sequence. -/
theorem append_left (h : g.Derives u v) (x : List Symbol) : g.Derives (x ++ u) (x ++ v) := by
  induction h with
  | refl => exact refl _
  | tail _ hstep ih => exact ih.tail (hstep.append_left x)

/-- A derivation can be made in front of any sequence. -/
theorem append_right (h : g.Derives u v) (x : List Symbol) : g.Derives (u ++ x) (v ++ x) := by
  induction h with
  | refl => exact refl _
  | tail _ hstep ih => exact ih.tail (hstep.append_right x)

/-- Derivations of two parts, one after the other. -/
theorem append (h : g.Derives u v) (h' : g.Derives w x) : g.Derives (u ++ w) (v ++ x) :=
  (h.append_right w).trans (h'.append_left v)

/-- If each symbol of a sequence can derive something good, and good things stay good side by side,
the sequence derives something good. -/
theorem exists_of_forall_mem {P : List Symbol → Prop} (hnil : P [])
    (happend : ∀ v w, P v → P w → P (v ++ w)) (h : ∀ s ∈ u, ∃ v, P v ∧ g.Derives [s] v) :
    ∃ v, P v ∧ g.Derives u v := by
  induction u with
  | nil => exact ⟨[], hnil, refl []⟩
  | cons s rest ih =>
    obtain ⟨v, hv, hs⟩ := h s (by simp)
    obtain ⟨w, hw, hrest⟩ := ih fun t ht => h t (List.mem_cons_of_mem s ht)
    exact ⟨v ++ w, happend v w hv hw, hs.append hrest⟩

/-- If alternatives pass a property from their nonterminal to their symbols, so do derivations. -/
theorem forall_mem {P : Symbol → Prop}
    (hrules : ∀ {lhs alt}, P lhs → alt ∈ g.table.alternatives lhs → ∀ s ∈ eraseLambda alt, P s)
    (h : g.Derives u v) (hu : ∀ s ∈ u, P s) : ∀ s ∈ v, P s := by
  induction h with
  | refl => exact hu
  | tail _ hstep ih =>
    obtain ⟨before, after, halt⟩ := hstep
    intro s hs
    simp only [List.mem_append] at hs
    rcases hs with (hs | hs) | hs
    · exact ih s (by simp [hs])
    · exact hrules (ih _ (by simp)) halt s hs
    · exact ih s (by simp [hs])

/-- A derivation leaves a beginning without nonterminals as it is. -/
theorem exists_of_append (hg : g.WellFormed) (hu : ∀ s ∈ u, s ∉ g.nonterminals)
    (h : g.Derives (u ++ v) w) : ∃ x, w = u ++ x ∧ g.Derives v x := by
  induction h with
  | refl => exact ⟨v, rfl, refl v⟩
  | tail _ hstep ih =>
    obtain ⟨x, hx, hvx⟩ := ih
    obtain @⟨lhs, alt, before, after, halt⟩ := hstep
    have hlhs := hg.lhs_mem halt
    -- the replaced occurrence lies behind `u`
    rcases cases_of_append_eq hx.symm with ⟨middle, rfl, -⟩ | ⟨middle, rfl, rfl⟩
    · exact absurd hlhs (hu lhs (by simp))
    · refine ⟨middle ++ eraseLambda alt ++ after, ?_, hvx.trans (of_alternative halt middle after)⟩
      simp only [List.append_assoc]

/-- The empty sequence derives itself only. -/
theorem eq_nil (h : g.Derives [] v) : v = [] := by
  rcases Relation.ReflTransGen.cases_head h with heq | ⟨form, hstep, -⟩
  · exact heq.symm
  · exact absurd hstep not_produces_nil

/-- What two sequences in a row derive is made of what each of them derives. -/
theorem exists_append (h : g.Derives (u ++ v) w) :
    ∃ x y, w = x ++ y ∧ g.Derives u x ∧ g.Derives v y := by
  induction h with
  | refl => exact ⟨u, v, rfl, refl u, refl v⟩
  | tail _ hstep ih =>
    obtain ⟨x, y, hsplit, hx, hy⟩ := ih
    obtain @⟨lhs, alt, before, after, halt⟩ := hstep
    rcases cases_of_append_eq hsplit.symm with ⟨middle, rfl, rfl⟩ | ⟨middle, rfl, rfl⟩
    · refine ⟨before ++ eraseLambda alt ++ middle, y, ?_, ?_, hy⟩
      · simp only [List.append_assoc]
      · exact hx.trans (of_alternative halt before middle)
    · refine ⟨x, middle ++ eraseLambda alt ++ after, ?_, hx, ?_⟩
      · simp only [List.append_assoc]
      · exact hy.trans (of_alternative halt middle after)

/-- What a single symbol derives is that symbol, or one of its alternatives derives it. -/
theorem eq_or_exists_alternative {N : Symbol} (h : g.Derives [N] v) :
    v = [N] ∨ ∃ alt ∈ g.table.alternatives N, g.Derives (eraseLambda alt) v := by
  rcases Relation.ReflTransGen.cases_head h with heq | ⟨form, hstep, hrest⟩
  · exact .inl heq.symm
  · obtain ⟨alt, halt, rfl⟩ := hstep.exists_alternative
    exact .inr ⟨alt, halt, hrest⟩

/-- A symbol that no rule can replace stays. -/
theorem mem_of_not_mem_nonterminals (hg : g.WellFormed) {s : Symbol} (hs : s ∉ g.nonterminals)
    (h : g.Derives u v) (hu : s ∈ u) : s ∈ v := by
  induction h with
  | refl => exact hu
  | tail _ hstep ih =>
    obtain @⟨lhs, alt, before, after, halt⟩ := hstep
    have hne : s ≠ lhs := fun heq => hs (heq ▸ hg.lhs_mem halt)
    simp only [List.mem_append, List.mem_cons, hne, false_or] at ih ⊢
    exact ih.imp_left .inl

/-- Without nonterminals there is nothing to replace. -/
theorem eq_of_forall_not_mem (hg : g.WellFormed) (hu : ∀ s ∈ u, s ∉ g.nonterminals)
    (h : g.Derives u v) : v = u := by
  rw [← List.append_nil u] at h
  obtain ⟨x, rfl, hx⟩ := exists_of_append hg hu h
  rw [hx.eq_nil, List.append_nil]

end Derives

end Grammar

end Lookahead
