import Lookahead.Proofs.Acceptance
import Lookahead.Proofs.Reading

/-!
# Lines as lists of tokens

Every well-formed line is written as one list of tokens, `RuleLine.toTokens`, and a line is read
from exactly these lists (`RuleLine.ofTokens_eq_ok_iff`). Reading looks at the first two tokens and
cuts the list behind them; `RuleLine.ofTokensAt` does so by position, and finds every position in
range (`RuleLine.ofTokensAt_eq`).
-/

namespace Lookahead.RuleLine

variable {tokens : List Token} {alts : List Alternative} {line : RuleLine}

/-- The tokens of alternatives, with a bar between each two. -/
def joinBars (alts : List Alternative) : List Token :=
  [Token.bar].intercalate (alts.map fun alt => alt.map .symbol)

/-- A line as it is written. -/
def toTokens : RuleLine → List Token
  | head lhs alts => .symbol lhs :: .arrow :: joinBars alts
  | continuation alts => .bar :: joinBars alts

/-- Whether a line can stand in a grammar file: it has alternatives, each of them can stand in a
rule table, and what is in front of an arrow is a nonterminal. -/
structure IsWellFormed (line : RuleLine) : Prop where
  alternatives_ne_nil : line.alternatives ≠ []
  alternative : ∀ alt ∈ line.alternatives, alt.IsWellFormed
  isNonterminal : ∀ lhs alts, line = head lhs alts → lhs.isNonterminal = true

/-! ## Alternatives between bars -/

/-- A bar stands between an alternative and the next. -/
theorem joinBars_cons_cons (alt next : Alternative) (rest : List Alternative) :
    joinBars (alt :: next :: rest) = alt.map .symbol ++ .bar :: joinBars (next :: rest) := by
  simp [joinBars]

/-- Bars between the pieces give the tokens back. -/
theorem intercalate_splitAtBars (tokens : List Token) :
    [Token.bar].intercalate (splitAtBars tokens) = tokens := by
  induction tokens with
  | nil => rfl
  | cons token rest ih =>
    by_cases htoken : token = .bar
    · obtain ⟨piece, pieces, hrest⟩ := List.exists_cons_of_ne_nil (splitAtBars_ne_nil rest)
      rw [htoken, splitAtBars, hrest]
      rw [hrest] at ih
      simp [ih]
    · obtain ⟨piece, pieces, hrest, hsplit⟩ := splitAtBars_cons_of_ne_bar htoken rest
      rw [hsplit]
      rw [hrest] at ih
      cases pieces <;> simp_all

/-- The pieces of a list are lists of symbols exactly if the list is written that way. -/
theorem splitAtBars_eq_map_iff :
    splitAtBars tokens = (alts.map fun alt => alt.map .symbol) ↔
      alts ≠ [] ∧ tokens = joinBars alts := by
  constructor
  · intro h
    refine ⟨?_, ?_⟩
    · rintro rfl
      exact splitAtBars_ne_nil tokens h
    · rw [joinBars, ← h, intercalate_splitAtBars]
  · rintro ⟨hne, rfl⟩
    induction alts with
    | nil => exact absurd rfl hne
    | cons alt rest ih =>
      cases rest with
      | nil => simp [joinBars, splitAtBars_map_symbol]
      | cons next more =>
        rw [joinBars_cons_cons, splitAtBars_append_bar, splitAtBars_map_symbol,
          ih (List.cons_ne_nil next more)]
        rfl

/-- Alternatives are read from what they are written as, if there are any and all are well
formed. -/
theorem readAlternatives_eq_ok_iff_joinBars :
    readAlternatives tokens = .ok alts ↔
      alts ≠ [] ∧ (∀ alt ∈ alts, alt.IsWellFormed) ∧ tokens = joinBars alts := by
  simp only [readAlternatives_eq_ok_iff, splitAtBars_eq_map_iff, alternativeFault?_eq_none_iff,
    Alternative.isWellFormed_iff]
  exact ⟨fun ⟨⟨hne, htokens⟩, halts⟩ => ⟨hne, halts, htokens⟩,
    fun ⟨hne, halts, htokens⟩ => ⟨⟨hne, htokens⟩, halts⟩⟩

/-! ## Lines -/

/-- A line is read from exactly what it is written as, if it is well formed. -/
theorem ofTokens_eq_ok_iff :
    ofTokens tokens = .ok line ↔ line.IsWellFormed ∧ tokens = line.toTokens := by
  cases line with
  | head lhs alts =>
    rw [ofTokens_eq_head_iff]
    constructor
    · rintro ⟨rest, rfl, hlhs, hread⟩
      obtain ⟨hne, halts, rfl⟩ := readAlternatives_eq_ok_iff_joinBars.mp hread
      refine ⟨⟨hne, halts, fun lhs' alts' heq => ?_⟩, rfl⟩
      rw [← (RuleLine.head.inj heq).1]
      exact hlhs
    · rintro ⟨hline, rfl⟩
      exact ⟨_, rfl, hline.isNonterminal lhs alts rfl, readAlternatives_eq_ok_iff_joinBars.mpr
        ⟨hline.alternatives_ne_nil, hline.alternative, rfl⟩⟩
  | continuation alts =>
    rw [ofTokens_eq_continuation_iff]
    constructor
    · rintro ⟨rest, rfl, hread⟩
      obtain ⟨hne, halts, rfl⟩ := readAlternatives_eq_ok_iff_joinBars.mp hread
      exact ⟨⟨hne, halts, fun lhs' alts' heq => by simp at heq⟩, rfl⟩
    · rintro ⟨hline, rfl⟩
      exact ⟨_, rfl, readAlternatives_eq_ok_iff_joinBars.mpr
        ⟨hline.alternatives_ne_nil, hline.alternative, rfl⟩⟩

/-! ## Reading by position -/

/-- The failures of a reading that goes by position. -/
inductive PositionError where
  /-- A position is none of the list. -/
  | outOfRange
  /-- The tokens make no line. -/
  | line (fault : LineError)
  deriving DecidableEq, Repr

/-- The elements of a list between two positions. -/
def slice {α : Type} (l : List α) (start stop : Nat) : Except PositionError (List α) :=
  if start ≤ stop ∧ stop ≤ l.length then .ok ((l.take stop).drop start) else .error .outOfRange

/-- The position that many places before another. -/
def stepBack (position places : Nat) : Except PositionError Nat :=
  if places ≤ position then .ok (position - places) else .error .outOfRange

/-- The elements in front of the last position. -/
def inFront {α : Type} (l : List α) : Except PositionError (List α) := do
  let last ← stepBack l.length 1
  slice l 0 last

/-- The alternative that the tokens make, which has its end marker at the last position if any. -/
def readAlternativeAt (tokens : List Token) : Except PositionError Alternative := do
  let alt : Alternative ← (tokens.mapM symbolOf).mapError .line
  if alt.isEmpty then .error (.line .emptyAlternative)
  else if alt.mixesLambda then .error (.line .misplacedLambda)
  else do
    let front ← inFront alt
    if front.any Symbol.isEndMarker then .error (.line .misplacedEndMarker) else .ok alt

/-- The alternatives that tokens from a position on make. -/
def readAlternativesFrom (tokens : List Token) (start : Nat) :
    Except PositionError (List Alternative) := do
  let rest ← slice tokens start tokens.length
  (splitAtBars rest).mapM readAlternativeAt

/-- The line that the tokens make, from the tokens at the first two positions and those behind. -/
def ofTokensAt (tokens : List Token) : Except PositionError RuleLine :=
  match tokens[0]? with
  | some Token.bar => continuation <$> readAlternativesFrom tokens 1
  | some (Token.symbol lhs) =>
    if lhs.isNonterminal then
      if tokens[1]? = some Token.arrow then head lhs <$> readAlternativesFrom tokens 2
      else .error (.line .missingArrow)
    else .error (.line .missingNonterminal)
  | _ => .error (.line .missingNonterminal)

/-- A slice up to the end drops what is before its start. -/
theorem slice_length {α : Type} {l : List α} {start : Nat} (h : start ≤ l.length) :
    slice l start l.length = .ok (l.drop start) := by
  rw [slice, if_pos ⟨h, le_rfl⟩, List.take_length]

/-- A list with elements has a last position, and those in front of it are in range. -/
theorem inFront_eq {α : Type} {l : List α} (h : l ≠ []) : inFront l = .ok l.dropLast := by
  have hlength : 1 ≤ l.length := List.length_pos_iff.mpr h
  have hlast : stepBack l.length 1 = .ok (l.length - 1) := if_pos hlength
  have hfront : slice l 0 (l.length - 1) = .ok l.dropLast := by
    rw [slice, if_pos ⟨Nat.zero_le _, Nat.sub_le _ _⟩, List.drop_zero, List.dropLast_eq_take]
  rw [inFront, hlast]
  exact hfront

/-- Reading an alternative by position gives what reading it by pattern gives, and no access fails.
-/
theorem readAlternativeAt_eq (tokens : List Token) :
    readAlternativeAt tokens = (readAlternative tokens).mapError .line := by
  unfold readAlternativeAt readAlternative
  cases tokens.mapM symbolOf with
  | error fault => rfl
  | ok alt =>
    by_cases hempty : alt = []
    · rw [hempty]
      rfl
    · simp only [bind, Except.bind, Except.mapError, inFront_eq hempty, alternativeFault?,
        Alternative.endsEarly]
      grind

/-- Reading the alternatives by position gives what reading them by pattern gives, and no access
fails. -/
theorem readAlternativesFrom_eq {start : Nat} (h : start ≤ tokens.length) :
    readAlternativesFrom tokens start =
      (readAlternatives (tokens.drop start)).mapError .line := by
  unfold readAlternativesFrom readAlternatives
  rw [slice_length h, funext readAlternativeAt_eq]
  exact mapM_mapError PositionError.line readAlternative _

/-- Reading by position never leaves the range of the tokens, and comes to the same line or
fault. -/
theorem ofTokensAt_eq (tokens : List Token) :
    ofTokensAt tokens = (ofTokens tokens).mapError .line := by
  match tokens with
  | [] => rfl
  | .arrow :: rest => rfl
  -- behind a bar the alternatives begin at 1, behind a name and an arrow at 2
  | .bar :: rest =>
    show continuation <$> readAlternativesFrom (.bar :: rest) 1 = _
    rw [readAlternativesFrom_eq (by simp)]
    exact map_mapError PositionError.line continuation (readAlternatives rest)
  | .symbol lhs :: rest =>
    cases hlhs : lhs.isNonterminal with
    | false => simp [ofTokensAt, ofTokens, hlhs, Except.mapError]
    | true =>
      cases rest with
      | nil => simp [ofTokensAt, ofTokens, hlhs, Except.mapError]
      | cons token more =>
        cases token with
        | bar | symbol => simp [ofTokensAt, ofTokens, hlhs, Except.mapError]
        | arrow =>
          have hrest : readAlternativesFrom (.symbol lhs :: .arrow :: more) 2 =
              (readAlternatives more).mapError .line := readAlternativesFrom_eq (by simp)
          simp only [ofTokensAt, ofTokens, hlhs, if_true, List.getElem?_cons_zero,
            List.getElem?_cons_succ, hrest]
          exact map_mapError PositionError.line (head lhs) (readAlternatives more)

/-- Lines are read from the tokens of well-formed lines and from no others; all other lists are
faulty. Reading by position gives the same results, so no position is ever out of range. -/
theorem ofTokens_reads_toTokens :
    (∀ tokens line, ofTokens tokens = .ok line ↔ line.IsWellFormed ∧ tokens = line.toTokens) ∧
      (∀ tokens, (∀ line : RuleLine, line.IsWellFormed → tokens ≠ line.toTokens) →
        ∃ fault, ofTokens tokens = .error fault) ∧
      ∀ tokens, ofTokensAt tokens = (ofTokens tokens).mapError .line := by
  refine ⟨fun tokens line => ofTokens_eq_ok_iff, fun tokens hnone => ?_, ofTokensAt_eq⟩
  cases hread : ofTokens tokens with
  | error fault => exact ⟨fault, rfl⟩
  | ok line =>
    obtain ⟨hline, htokens⟩ := ofTokens_eq_ok_iff.mp hread
    exact absurd htokens (hnone line hline)

/-- A bar at the end of a line leaves an empty alternative behind it. -/
theorem lastBar_ofTokens :
    ofTokens (head "A" [["x", "$"], ["lambda"]]).toTokens =
        .ok (head "A" [["x", "$"], ["lambda"]]) ∧
      (∀ line : RuleLine, line.IsWellFormed →
        [.symbol "A", .arrow, .symbol "x", .bar] ≠ line.toTokens) ∧
      (∃ fault, ofTokens [.symbol "A", .arrow, .symbol "x", .bar] = .error fault) ∧
      ofTokensAt [.symbol "A", .arrow, .symbol "x", .bar] = .error (.line .emptyAlternative) := by
  obtain ⟨hread, hfaulty, hpositions⟩ := ofTokens_reads_toTokens
  have hfault : ofTokens [.symbol "A", .arrow, .symbol "x", .bar] =
      .error .emptyAlternative := by decide
  have hnone : ∀ line : RuleLine, line.IsWellFormed →
      [.symbol "A", .arrow, .symbol "x", .bar] ≠ line.toTokens := by
    intro line hline htokens
    rw [(hread _ line).mpr ⟨hline, htokens⟩] at hfault
    simp at hfault
  have hline : (head "A" [["x", "$"], ["lambda"]]).IsWellFormed := by
    refine ⟨by decide, fun alt halt => ?_, ?_⟩
    · apply Alternative.isWellFormed_iff.mpr
      revert alt halt
      decide
    · rintro lhs alts heq
      rw [← (RuleLine.head.inj heq).1]
      decide
  refine ⟨(hread _ _).mpr ⟨hline, rfl⟩, hnone, hfaulty _ hnone, ?_⟩
  rw [hpositions, hfault]
  rfl

end Lookahead.RuleLine
