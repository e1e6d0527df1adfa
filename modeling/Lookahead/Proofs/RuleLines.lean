import Lookahead.Proofs.Results
import Lookahead.Source.Line

/-!
# Which tokens make a line of rules

A line's alternatives are the pieces between its bars: each is a list of symbols without a fault,
and they are kept as written (`readAlternatives_eq_ok_iff`). A head line is a nonterminal and an
arrow before such alternatives (`ofTokens_eq_head_iff`), a continuation a bar before them
(`ofTokens_eq_continuation_iff`). So a line can be cut at any of its bars
(`ofTokens_append_bar_eq_head_iff`).
-/

namespace Lookahead

namespace RuleLine

variable {tokens : List Token} {lhs : Symbol} {alt : Alternative} {alts : List Alternative}

/-! ## Alternatives -/

/-- An alternative has no fault if it is not empty, has nothing but `lambda` beside a `lambda`, and
the end marker at its end only. -/
theorem alternativeFault?_eq_none_iff :
    alternativeFault? alt = none ↔
      alt ≠ [] ∧ alt.mixesLambda = false ∧ alt.endsEarly = false := by
  unfold alternativeFault?
  simp only [ne_eq, List.isEmpty_iff]
  grind

/-- Tokens are symbols throughout if none of them is an arrow or a bar. -/
theorem mapM_symbolOf_eq_ok_iff :
    tokens.mapM symbolOf = .ok alt ↔ tokens = alt.map .symbol := by
  have hsymbolOf : ∀ token s, symbolOf token = .ok s ↔ token = .symbol s := by
    intro token s
    cases token <;> simp [symbolOf]
  simp only [mapM_eq_ok_iff, hsymbolOf]
  rw [← List.forall₂_map_right_iff, List.forall₂_eq_eq_eq]

/-- An alternative is read from symbols that pass its checks. -/
theorem readAlternative_eq_ok_iff :
    readAlternative tokens = .ok alt ↔
      tokens = alt.map .symbol ∧ alternativeFault? alt = none := by
  unfold readAlternative
  rw [bind_eq_ok_iff]
  constructor
  · rintro ⟨read, hread, h⟩
    split at h
    · simp at h
    · obtain rfl := Except.ok.inj h
      exact ⟨mapM_symbolOf_eq_ok_iff.mp hread, ‹_›⟩
  · rintro ⟨rfl, hfault⟩
    refine ⟨alt, mapM_symbolOf_eq_ok_iff.mpr rfl, ?_⟩
    simp only [hfault]

/-- The alternatives of a line are the lists of symbols between its bars, if none has a fault. -/
theorem readAlternatives_eq_ok_iff :
    readAlternatives tokens = .ok alts ↔
      splitAtBars tokens = alts.map (·.map .symbol) ∧
        ∀ alt ∈ alts, alternativeFault? alt = none := by
  unfold readAlternatives
  simp only [mapM_eq_ok_iff, readAlternative_eq_ok_iff]
  generalize splitAtBars tokens = pieces
  induction alts generalizing pieces with
  | nil => simp
  | cons alt rest ih =>
    simp only [List.forall₂_cons_right_iff, ih]
    grind

/-- Symbols without bars are one piece. -/
theorem splitAtBars_map_symbol (alt : Alternative) :
    splitAtBars (alt.map .symbol) = [alt.map .symbol] := by
  induction alt with
  | nil => rfl
  | cons s rest ih => simp [splitAtBars, ih]

/-- There is always a piece. -/
theorem splitAtBars_ne_nil (tokens : List Token) : splitAtBars tokens ≠ [] := by
  induction tokens using splitAtBars.induct with
  | case1 => simp [splitAtBars]
  | case2 rest ih => simp [splitAtBars]
  | case3 token rest htoken hnone ih => exact absurd hnone ih
  | case4 token rest htoken piece pieces hsome ih =>
    rw [splitAtBars.eq_3 _ _ htoken, hsome]
    exact List.cons_ne_nil _ _

/-- Cutting at the bars takes away the bars and nothing else. -/
theorem flatten_splitAtBars (tokens : List Token) :
    (splitAtBars tokens).flatten = tokens.filter (· != .bar) := by
  induction tokens using splitAtBars.induct with
  | case1 => rfl
  | case2 rest ih => simp [splitAtBars, ih]
  | case3 token rest htoken hnone ih =>
    rw [List.filter_cons_of_pos (by simpa using htoken), ← ih, splitAtBars.eq_3 _ _ htoken, hnone]
    rfl
  | case4 token rest htoken piece pieces hsome ih =>
    rw [List.filter_cons_of_pos (by simpa using htoken), ← ih, splitAtBars.eq_3 _ _ htoken, hsome]
    rfl

/-- The symbols of the alternatives are those of the line. -/
theorem symbol_mem_of_readAlternatives (h : readAlternatives tokens = .ok alts) {s : Symbol}
    (halt : alt ∈ alts) (hs : s ∈ alt) : .symbol s ∈ tokens := by
  have hpieces := (readAlternatives_eq_ok_iff.mp h).1
  have hmem : Token.symbol s ∈ (splitAtBars tokens).flatten := by
    rw [hpieces, List.mem_flatten]
    exact ⟨alt.map .symbol, List.mem_map_of_mem halt, List.mem_map_of_mem hs⟩
  rw [flatten_splitAtBars] at hmem
  exact List.mem_of_mem_filter hmem

/-- An alternative without a fault is read from its symbols. -/
theorem readAlternatives_map_symbol (h : alternativeFault? alt = none) :
    readAlternatives (alt.map .symbol) = .ok [alt] :=
  readAlternatives_eq_ok_iff.mpr ⟨splitAtBars_map_symbol alt, by simpa using h⟩

/-! ## Alternatives around a bar -/

/-- A token in front that is no bar belongs to the first piece. -/
theorem splitAtBars_cons_of_ne_bar {token : Token} (h : token ≠ .bar) (rest : List Token) :
    ∃ piece pieces, splitAtBars rest = piece :: pieces ∧
      splitAtBars (token :: rest) = (token :: piece) :: pieces := by
  rw [splitAtBars.eq_3 _ _ h]
  cases hsplit : splitAtBars rest with
  | nil => exact absurd hsplit (splitAtBars_ne_nil rest)
  | cons piece pieces => exact ⟨piece, pieces, rfl, rfl⟩

/-- A bar ends the pieces in front of it. -/
theorem splitAtBars_append_bar (front back : List Token) :
    splitAtBars (front ++ .bar :: back) = splitAtBars front ++ splitAtBars back := by
  induction front with
  | nil => rfl
  | cons token rest ih =>
    by_cases htoken : token = .bar
    · subst htoken
      rw [List.cons_append, splitAtBars, splitAtBars, ih, List.cons_append]
    · obtain ⟨piece, pieces, hrest, hfront⟩ := splitAtBars_cons_of_ne_bar htoken rest
      rw [List.cons_append, splitAtBars.eq_3 _ _ htoken, ih, hrest, hfront]
      rfl

/-- The alternatives around a bar are read from the tokens around it. -/
theorem readAlternatives_append_bar_eq_ok_iff {front back : List Token} :
    readAlternatives (front ++ .bar :: back) = .ok alts ↔
      ∃ xs ys, readAlternatives front = .ok xs ∧ readAlternatives back = .ok ys ∧
        alts = xs ++ ys := by
  simp only [readAlternatives_eq_ok_iff, splitAtBars_append_bar]
  constructor
  · rintro ⟨hsplit, halts⟩
    obtain ⟨xs, ys, rfl, hxs, hys⟩ := List.map_eq_append_iff.mp hsplit.symm
    obtain ⟨hfront, hback⟩ := List.forall_mem_append.mp halts
    exact ⟨xs, ys, ⟨hxs.symm, hfront⟩, ⟨hys.symm, hback⟩, rfl⟩
  · rintro ⟨xs, ys, ⟨hfront, hxs⟩, ⟨hback, hys⟩, rfl⟩
    rw [hfront, hback, List.map_append]
    exact ⟨rfl, List.forall_mem_append.mpr ⟨hxs, hys⟩⟩

/-! ## Lines -/

/-- A head line is a nonterminal, an arrow and alternatives. -/
theorem ofTokens_eq_head_iff :
    ofTokens tokens = .ok (head lhs alts) ↔
      ∃ rest, tokens = .symbol lhs :: .arrow :: rest ∧ lhs.isNonterminal = true ∧
        readAlternatives rest = .ok alts := by
  constructor
  · intro h
    unfold ofTokens at h
    split at h
    · simp [map_eq_ok_iff] at h
    · split at h
      · rename_i hlhs
        split at h
        · obtain ⟨_, hread, heq⟩ := map_eq_ok_iff.mp h
          obtain ⟨rfl, rfl⟩ := RuleLine.head.inj heq
          exact ⟨_, rfl, hlhs, hread⟩
        · simp at h
      · simp at h
    · simp at h
  · rintro ⟨rest, rfl, hlhs, hread⟩
    simp only [ofTokens, hlhs, if_true]
    exact map_eq_ok_iff.mpr ⟨alts, hread, rfl⟩

/-- A continuation line is a bar and alternatives. -/
theorem ofTokens_eq_continuation_iff :
    ofTokens tokens = .ok (continuation alts) ↔
      ∃ rest, tokens = .bar :: rest ∧ readAlternatives rest = .ok alts := by
  constructor
  · intro h
    unfold ofTokens at h
    split at h
    · obtain ⟨_, hread, heq⟩ := map_eq_ok_iff.mp h
      obtain rfl := RuleLine.continuation.inj heq
      exact ⟨_, rfl, hread⟩
    · split at h
      · split at h
        · simp [map_eq_ok_iff] at h
        · simp at h
      · simp at h
    · simp at h
  · rintro ⟨rest, rfl, hread⟩
    exact map_eq_ok_iff.mpr ⟨alts, hread, rfl⟩

/-- A head line with a bar is a head line in front of the bar and further alternatives behind it. -/
theorem ofTokens_append_bar_eq_head_iff {front back : List Token} :
    ofTokens (front ++ .bar :: back) = .ok (head lhs alts) ↔
      ∃ xs ys, ofTokens front = .ok (head lhs xs) ∧ readAlternatives back = .ok ys ∧
        alts = xs ++ ys := by
  simp only [ofTokens_eq_head_iff]
  constructor
  · rintro ⟨rest, htokens, hlhs, hread⟩
    -- the bar stands behind the nonterminal and the arrow
    match front, htokens with
    | _ :: _ :: front, htokens =>
      obtain ⟨rfl, rfl, rfl⟩ := by simpa using htokens
      obtain ⟨xs, ys, hxs, hys, rfl⟩ := readAlternatives_append_bar_eq_ok_iff.mp hread
      exact ⟨xs, ys, ⟨front, rfl, hlhs, hxs⟩, hys, rfl⟩
  · rintro ⟨xs, ys, ⟨rest, rfl, hlhs, hxs⟩, hys, rfl⟩
    exact ⟨_, rfl, hlhs, readAlternatives_append_bar_eq_ok_iff.mpr ⟨xs, ys, hxs, hys, rfl⟩⟩

end RuleLine

end Lookahead
