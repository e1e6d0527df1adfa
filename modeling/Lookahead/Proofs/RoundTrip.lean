import Lookahead.Proofs.Lines
import Lookahead.Proofs.Reading

/-!
# Writing a grammar down and reading it back

The text of a grammar has a line for each alternative, the first of each nonterminal on a head line
and the others on continuations. If the symbols are words and no nonterminal begins with `#`, each
line is cut off where it should be (`Text.lines_intercalate`), holds rule text and says what was
written (`Source.says_ruleLines`), the lines of a nonterminal are gathered into one rule
(`Source.gather_ruleContents`), and these rules are accepted and make the same grammar
(`Built.addRules_displayOrder`).
-/

namespace Lookahead

/-! ## The lines of a grammar -/

/-- The lines that show the rules of a nonterminal. -/
def ruleLines (lhs : Symbol) : List Alternative → List String
  | [] => []
  | alt :: rest => (lhs ++ " -> " ++ alt.text) :: rest.map fun alt => "   | " ++ alt.text

/-- What these lines say. -/
def ruleContents (lhs : Symbol) : List Alternative → List RuleLine
  | [] => []
  | alt :: rest => .head lhs [alt] :: rest.map fun alt => .continuation [alt]

/-- An indented text before each line but the first may as well be part of the line. -/
theorem intercalate_append (separator indent first text : String) (texts : List String) :
    first ++ (separator ++ indent).intercalate (text :: texts) =
      separator.intercalate ((first ++ text) :: texts.map (indent ++ ·)) := by
  induction texts generalizing first text with
  | nil => simp
  | cons next rest ih =>
    rw [String.intercalate_cons_cons, List.map_cons, String.intercalate_cons_cons, ← ih]
    simp only [String.append_assoc]

/-- Separators between groups and in them are separators between all elements. -/
theorem intercalate_flatMap {α : Type} (separator : String) {l : List α} {f : α → List String}
    (h : ∀ a ∈ l, f a ≠ []) :
    separator.intercalate (l.map fun a => separator.intercalate (f a)) =
      separator.intercalate (l.flatMap f) := by
  induction l with
  | nil => rfl
  | cons a rest ih =>
    obtain ⟨ha, hrest⟩ := List.forall_mem_cons.mp h
    cases rest with
    | nil => simp
    | cons b rest =>
      have hne : (b :: rest).flatMap f ≠ [] := by simp [hrest b (by simp)]
      rw [List.flatMap_cons, String.intercalate_append_of_ne_nil ha hne, ← ih hrest]
      simp only [List.map_cons, String.intercalate_cons_cons]

namespace Grammar

variable {g : Grammar}

/-- The rules of a nonterminal are shown line by line. -/
theorem rulesText_eq {lhs : Symbol} (h : g.table.alternatives lhs ≠ []) :
    g.rulesText lhs = "\n".intercalate (ruleLines lhs (g.table.alternatives lhs)) := by
  unfold rulesText
  cases halternatives : g.table.alternatives lhs with
  | nil => exact absurd halternatives h
  | cons alt rest =>
    have hsplit :=
      intercalate_append "\n" "   | " (lhs ++ " -> ") alt.text (rest.map Alternative.text)
    simpa [ruleLines, Function.comp_def] using hsplit

/-- The text of a built grammar is made of the lines of its nonterminals. -/
theorem Built.text_eq (hg : g.Built) :
    g.text = "\n".intercalate
      (g.displayOrder.flatMap fun N => ruleLines N (g.table.alternatives N)) := by
  have hne : ∀ N ∈ g.displayOrder, g.table.alternatives N ≠ [] :=
    fun N hN => hg.alternatives_ne_nil (hg.wellFormed.mem_displayOrder.mp hN)
  have hlines : ∀ N ∈ g.displayOrder, ruleLines N (g.table.alternatives N) ≠ [] := by
    intro N hN
    cases halternatives : g.table.alternatives N with
    | nil => exact absurd halternatives (hne N hN)
    | cons alt rest => simp [ruleLines]
  rw [← intercalate_flatMap "\n" hlines]
  unfold text
  rw [List.map_congr_left fun N hN => rulesText_eq (hne N hN)]

end Grammar

/-! ## What the lines say -/

namespace Source

variable {lhs : Symbol} {alt : Alternative} {alts : List Alternative}

/-- Text between blanks is read token by token. -/
theorem ofLine_head (hlhs : lhs.IsWord) (halt : ∀ s ∈ alt, s.IsWord) :
    Token.ofLine (lhs ++ " -> " ++ alt.text) = .symbol lhs :: .arrow :: alt.map .symbol := by
  have hchars : (lhs ++ " -> " ++ alt.text).toList =
      lhs.toList ++ ' ' :: '-' :: '>' :: ' ' :: alt.text.toList := by simp
  rw [Token.ofLine, hchars, Token.ofChars_append _ rfl, Token.ofChars_word hlhs,
    Token.ofChars_cons_of_isBlank rfl, Token.ofChars_arrow, Token.ofChars_cons_of_isBlank rfl,
    Token.ofChars_text halt]
  rfl

/-- A continuation line begins with three blanks, a bar and a blank. -/
theorem toList_continuation (alt : Alternative) :
    ("   | " ++ alt.text).toList = ' ' :: ' ' :: ' ' :: '|' :: ' ' :: alt.text.toList := by
  simp

/-- The tokens of a continuation line are a bar and the symbols. -/
theorem ofLine_continuation (halt : ∀ s ∈ alt, s.IsWord) :
    Token.ofLine ("   | " ++ alt.text) = .bar :: alt.map .symbol := by
  rw [Token.ofLine, toList_continuation]
  simp only [Token.ofChars_cons_of_isBlank (c := ' ') rfl, Token.ofChars_bar,
    Token.ofChars_text halt]

/-- The first line of a nonterminal says that it has the alternative. -/
theorem says_head (hlhs : lhs.IsWord) (hnonterminal : lhs.isNonterminal = true)
    (hcomment : lhs.toList.head? ≠ some '#') (halt : ∀ s ∈ alt, s.IsWord)
    (hfault : RuleLine.alternativeFault? alt = none) :
    Says (lhs ++ " -> " ++ alt.text) (.head lhs [alt]) where
  holdsRule := by
    obtain ⟨c, rest, hchars⟩ := List.exists_cons_of_ne_nil (Token.isWord_iff_isUnbroken.mp hlhs).1
    have hblank : Text.isBlank c = false := hlhs.isBlank_eq_false c (by simp [hchars])
    simp_all [Source.holdsRule, Text.dropBlanks]
  ofTokens := RuleLine.ofTokens_eq_head_iff.mpr
    ⟨_, ofLine_head hlhs halt, hnonterminal, RuleLine.readAlternatives_map_symbol hfault⟩

/-- Each further line of a nonterminal says that it has the alternative. -/
theorem says_continuation (halt : ∀ s ∈ alt, s.IsWord)
    (hfault : RuleLine.alternativeFault? alt = none) :
    Says ("   | " ++ alt.text) (.continuation [alt]) where
  holdsRule := by
    rw [Source.holdsRule, toList_continuation]
    rfl
  ofTokens := RuleLine.ofTokens_eq_continuation_iff.mpr
    ⟨_, ofLine_continuation halt, RuleLine.readAlternatives_map_symbol hfault⟩

/-- The lines of a nonterminal say that these are its alternatives. -/
theorem says_ruleLines (hlhs : lhs.IsWord) (hnonterminal : lhs.isNonterminal = true)
    (hcomment : lhs.toList.head? ≠ some '#') (hwords : ∀ alt ∈ alts, ∀ s ∈ alt, s.IsWord)
    (hfaults : ∀ alt ∈ alts, RuleLine.alternativeFault? alt = none) :
    List.Forall₂ Says (ruleLines lhs alts) (ruleContents lhs alts) := by
  cases alts with
  | nil => exact .nil
  | cons alt rest =>
    obtain ⟨halt, hrest⟩ := List.forall_mem_cons.mp hwords
    obtain ⟨hfault, hfaults⟩ := List.forall_mem_cons.mp hfaults
    refine .cons (says_head hlhs hnonterminal hcomment halt hfault) ?_
    rw [List.forall₂_map_left_iff, List.forall₂_map_right_iff, List.forall₂_same]
    exact fun alt hmem => says_continuation (hrest alt hmem) (hfaults alt hmem)

/-- Words leave no blank but the space in what is written with them. -/
theorem not_mem_text {c : Char} (hc : Text.isBlank c = true) (hspace : c ≠ ' ')
    (halt : ∀ s ∈ alt, s.IsWord) : c ∉ alt.text.toList := by
  unfold Alternative.text
  induction alt with
  | nil => simp
  | cons s rest ih =>
    obtain ⟨hs, hrest⟩ := List.forall_mem_cons.mp halt
    cases rest with
    | nil => simpa using hs.not_mem hc
    | cons s' more =>
      rw [String.intercalate_cons_cons]
      simpa [hs.not_mem hc, hspace] using ih hrest

/-- The lines of rules made of words have no blanks in them but spaces. -/
theorem not_mem_of_mem_ruleLines {c : Char} (hc : Text.isBlank c = true) (hspace : c ≠ ' ')
    (hlhs : lhs.IsWord) (hwords : ∀ alt ∈ alts, ∀ s ∈ alt, s.IsWord) {line : String}
    (hline : line ∈ ruleLines lhs alts) : c ∉ line.toList := by
  have harrow : c ≠ '-' ∧ c ≠ '>' ∧ c ≠ '|' := by
    refine ⟨?_, ?_, ?_⟩ <;> rintro rfl <;> exact absurd hc (by decide)
  cases alts with
  | nil => simp [ruleLines] at hline
  | cons alt rest =>
    obtain ⟨halt, hrest⟩ := List.forall_mem_cons.mp hwords
    rcases List.mem_cons.mp hline with rfl | hline
    · simp [hlhs.not_mem hc, hspace, harrow, not_mem_text hc hspace halt]
    · obtain ⟨alt, halt, rfl⟩ := List.mem_map.mp hline
      simp [hspace, harrow, not_mem_text hc hspace (hrest alt halt)]

/-- No line of a rule is empty. -/
theorem ne_empty_of_mem_ruleLines {line : String} (hline : line ∈ ruleLines lhs alts) :
    line ≠ "" := by
  rw [ne_eq, ← String.toList_eq_nil_iff]
  cases alts with
  | nil => simp [ruleLines] at hline
  | cons alt rest =>
    rcases List.mem_cons.mp hline with rfl | hline
    · simp
    · obtain ⟨alt, -, rfl⟩ := List.mem_map.mp hline
      simp

/-! ## Gathering the lines again -/

/-- Continuations in front are gathered with their alternatives before those of the rest. -/
theorem gather_append {lines : List NumberedLine} {alts : List Alternative}
    (h : lines.map (·.content) = alts.map fun alt => .continuation [alt])
    (rest : List NumberedLine) :
    gather (lines ++ rest) = (alts ++ (gather rest).1, (gather rest).2) := by
  induction alts generalizing lines with
  | nil =>
    obtain rfl := List.map_eq_nil_iff.mp h
    rfl
  | cons alt alts ih =>
    obtain ⟨⟨number, content⟩, more, rfl, rfl, hmore⟩ := List.map_eq_cons_iff.mp h
    rw [List.cons_append, gather, ih hmore]
    rfl

/-- The lines of several nonterminals are gathered into one rule for each of them. -/
theorem gather_ruleContents {calls : List (Symbol × List Alternative)}
    (hne : ∀ call ∈ calls, call.2 ≠ []) {written : List NumberedLine}
    (h : written.map (·.content) = calls.flatMap fun call => ruleContents call.1 call.2) :
    (∀ line ∈ written.head?, line.content.isContinuation = false) ∧
      (gather written).1 = [] ∧ (gather written).2.map WrittenRule.call = calls := by
  induction calls generalizing written with
  | nil =>
    obtain rfl := List.map_eq_nil_iff.mp h
    simp [gather]
  | cons call rest ih =>
    obtain ⟨lhs, alts⟩ := call
    obtain ⟨hcall, hrest⟩ := List.forall_mem_cons.mp hne
    obtain ⟨alt, more, rfl⟩ := List.exists_cons_of_ne_nil hcall
    rw [List.flatMap_cons, ruleContents, List.cons_append] at h
    -- a nonterminal's lines are a head line and continuations, up to the next head line
    obtain ⟨⟨number, content⟩, lines, rfl, rfl, hlines⟩ := List.map_eq_cons_iff.mp h
    obtain ⟨continuations, others, rfl, hcontinuations, hothers⟩ := List.map_eq_append_iff.mp hlines
    obtain ⟨-, hnone, hrules⟩ := ih hrest hothers
    refine ⟨by simp [RuleLine.isContinuation], rfl, ?_⟩
    rw [gather, gather_append hcontinuations, List.map_cons, hrules, hnone]
    simp [WrittenRule.call]

end Source

/-! ## Reading the text -/

/-- Relating the lists for each element relates the whole lists. -/
theorem forall₂_flatMap {α β γ : Type} {R : β → γ → Prop} {l : List α} {f : α → List β}
    {f' : α → List γ} (h : ∀ a ∈ l, List.Forall₂ R (f a) (f' a)) :
    List.Forall₂ R (l.flatMap f) (l.flatMap f') := by
  induction l with
  | nil => exact .nil
  | cons a rest ih =>
    obtain ⟨ha, hrest⟩ := List.forall_mem_cons.mp h
    exact List.rel_append ha (ih hrest)

namespace Grammar

variable {g : Grammar}

/-- The nonterminals of an expressible grammar are words. -/
theorem IsExpressible.isWord_of_mem_nonterminals (h : g.IsExpressible) (hg : g.Built) {N : Symbol}
    (hN : N ∈ g.nonterminals) : N.IsWord := by
  obtain ⟨alt, halt⟩ := List.exists_mem_of_ne_nil _ (hg.alternatives_ne_nil hN)
  exact (h.isWord halt).1

/-- The text of a grammar that can be written down is cut into the lines of its nonterminals. -/
theorem IsExpressible.lines_text (h : g.IsExpressible) (hg : g.Built) :
    Text.lines g.text =
      g.displayOrder.flatMap fun N => ruleLines N (g.table.alternatives N) := by
  rw [hg.text_eq, Text.lines_intercalate]
  intro line hline
  obtain ⟨N, hN, hline⟩ := List.mem_flatMap.mp hline
  have hword := h.isWord_of_mem_nonterminals hg (hg.wellFormed.mem_displayOrder.mp hN)
  have hnot : ∀ c, Text.isBlank c = true → c ≠ ' ' → c ∉ line.toList := fun c hc hspace =>
    Source.not_mem_of_mem_ruleLines hc hspace hword (fun alt halt => (h.isWord halt).2) hline
  exact ⟨Source.ne_empty_of_mem_ruleLines hline, hnot '\n' rfl (by decide),
    hnot '\r' rfl (by decide)⟩

/-- A grammar that can be written down is read back from its text. -/
theorem IsExpressible.readText_text (h : g.IsExpressible) (hg : g.Built) (file : String) :
    Source.readText file g.text = .ok g := by
  have hwellFormed := hg.wellFormed
  have hlhs : ∀ N ∈ g.displayOrder, N ∈ g.nonterminals := fun N => hwellFormed.mem_displayOrder.mp
  -- each line that is shown says the alternative it was made from
  have hsays : List.Forall₂ Source.Says
      (g.displayOrder.flatMap fun N => ruleLines N (g.table.alternatives N))
      (g.displayOrder.flatMap fun N => ruleContents N (g.table.alternatives N)) := by
    refine forall₂_flatMap fun N hN => Source.says_ruleLines
      (h.isWord_of_mem_nonterminals hg (hlhs N hN)) (hwellFormed.isNonterminal_of_mem N (hlhs N hN))
      (h.head?_ne N (hlhs N hN)) (fun alt halt => (h.isWord halt).2) fun alt halt => ?_
    obtain ⟨-, -, hne, hlambda, hend⟩ :=
      Builder.shapeFault?_eq_none_iff.mp (hg.shapeFault?_eq_none (hlhs N hN))
    exact RuleLine.alternativeFault?_eq_none_iff.mpr ⟨hne alt halt, hlambda alt halt, hend alt halt⟩
  obtain ⟨written, hread, hcontents⟩ := Source.exists_readLines_of_says hsays file
  have hcalls : ∀ call ∈ g.displayOrder.map fun N => (N, g.table.alternatives N), call.2 ≠ [] :=
    List.forall_mem_map.mpr fun N hN => hg.alternatives_ne_nil (hlhs N hN)
  obtain ⟨hstart, -, hrules⟩ := Source.gather_ruleContents hcalls
    (by rw [hcontents, List.flatMap_map])
  obtain ⟨b, hadded, hbuild⟩ := hg.addRules_displayOrder
  rw [Source.readText, h.lines_text hg]
  exact Source.read_eq_ok_iff.mpr ⟨written, hread, hstart, b, hrules ▸ hadded, hbuild⟩

end Grammar

namespace Source

/-- Writing down and reading back: the built grammars that are read back from their text are those
whose symbols are words and whose nonterminals do not begin with `#`, and all grammars that are read
are of this kind. -/
theorem readText_text_iff (file : String) :
    (∀ g : Grammar, g.Built → (readText file g.text = .ok g ↔ g.IsExpressible)) ∧
      ∀ path text g, readText path text = .ok g →
        g.Built ∧ g.IsExpressible ∧ readText file g.text = .ok g := by
  refine ⟨fun g hg => ⟨fun h => (isExpressible_of_read h).2, fun h => h.readText_text hg file⟩, ?_⟩
  intro path text g h
  obtain ⟨hg, hexpressible⟩ := isExpressible_of_read h
  exact ⟨hg, hexpressible, hexpressible.readText_text hg file⟩

/-- The symbols of this grammar begin and end with parts of an arrow, or as a comment does. -/
def brokenArrows : Grammar :=
  (Grammar.ofRules? [("S", [["-", "a-", "$"]]), ("-", [[">b", "Opt"], ["#x"]]),
    ("Opt", [["lambda"]])]).get (by decide)

/-- Symbols that look like parts of arrows and comments are read back. -/
theorem brokenArrows_readText :
    brokenArrows.Built ∧ brokenArrows.IsExpressible ∧
      brokenArrows.text = "S -> - a- $\n- -> >b Opt\n   | #x\nOpt -> lambda" ∧
      readText "arrows.cfg" brokenArrows.text = .ok brokenArrows ∧
      readText "copy.cfg" brokenArrows.text = .ok brokenArrows := by
  have hbuilt : brokenArrows.Built := Grammar.built_of_ofRules? (Option.some_get _).symm
  have hexpressible : brokenArrows.IsExpressible := by decide
  have hread : readText "arrows.cfg" brokenArrows.text = .ok brokenArrows :=
    ((readText_text_iff "arrows.cfg").1 brokenArrows hbuilt).mpr hexpressible
  obtain ⟨-, -, hcopy⟩ :=
    (readText_text_iff "copy.cfg").2 "arrows.cfg" brokenArrows.text brokenArrows hread
  exact ⟨hbuilt, hexpressible, by decide, hread, hcopy⟩

end Source

end Lookahead
