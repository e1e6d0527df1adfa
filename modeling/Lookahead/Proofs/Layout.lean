import Lookahead.Proofs.LineEdits
import Lookahead.Proofs.Lines
import Lookahead.Proofs.WrittenRules

/-!
# Layout does not matter

How a text is laid out makes no difference to what is read (`readText_rulesFor_and_layout`): each
nonterminal gets the alternatives written for it, in the order of the text; a blank line or a
comment more (`InsertsLine`) only shifts the numbers of errors; and a head line may be cut at any of
its bars (`CutsHead`). What these edits do to the text is followed to its lines, up to a carriage
return that stands at the end of a line and is a blank to a reader (`exists_lines_line`).
-/

namespace Lookahead.Source

variable {file line line' text text' : String} {number : Nat} {lhs : Symbol}
  {xs ys : List Alternative}

/-! ## Line ends -/

/-- Whether a text is the end of a line. -/
def IsLineEnd (ending : String) : Prop := ending = "\n" ∨ ending = "\r\n"

/-- Whether a text can end a line in front of the rest of a text: the last line needs no end. -/
def EndsBefore (ending back : String) : Prop := IsLineEnd ending ∨ ending = "" ∧ back = ""

/-- A line in front of a line feed is cut off as what it is to a reader. -/
theorem exists_lines_append_feed (hline : '\n' ∉ line.toList) :
    ∃ cut, Text.lines (line ++ "\n") = [cut] ∧ ReadsLike cut line := by
  obtain ⟨cut, hcut, rfl | rfl⟩ := Text.lines_append_feed hline
  · exact ⟨cut, hcut, rfl, rfl⟩
  · have hlike := readsLike_append_blanks cut "\r" (List.forall_mem_singleton.mpr rfl)
    exact ⟨cut, hcut, hlike.holdsRule_eq.symm, hlike.ofLine_eq.symm⟩

/-- A line with its end is cut off as what it is to a reader. -/
theorem exists_lines_line {ending : String} (back : String) (hline : '\n' ∉ line.toList)
    (hending : EndsBefore ending back) (hne : line ++ ending ≠ "") :
    ∃ cut, Text.lines (line ++ ending ++ back) = cut :: Text.lines back ∧ ReadsLike cut line := by
  rcases hending with (rfl | rfl) | ⟨rfl, rfl⟩
  · obtain ⟨cut, hcut, hlike⟩ := exists_lines_append_feed hline
    exact ⟨cut, by rw [Text.lines_append (.inr ⟨line, rfl⟩), hcut]; rfl, hlike⟩
  · have hblank : ∀ c ∈ "\r".toList, Text.isBlank c = true := List.forall_mem_singleton.mpr rfl
    have hreturn : '\n' ∉ (line ++ "\r").toList := by simpa using hline
    obtain ⟨cut, hcut, hlike⟩ := exists_lines_append_feed hreturn
    refine ⟨cut, ?_, hlike.trans (readsLike_append_blanks line "\r" hblank)⟩
    have hend : "\r\n" = "\r" ++ "\n" := rfl
    rw [hend, ← String.append_assoc, Text.lines_append (.inr ⟨_, rfl⟩), hcut]
    rfl
  · rw [String.append_empty] at hne ⊢
    rw [String.append_empty, Text.lines_of_not_mem hne hline]
    exact ⟨line, rfl, rfl, rfl⟩

/-! ## Inserting a line -/

/-- Whether a text is one line without rule text: a blank one or a comment. -/
structure IsSkipped (line : String) : Prop where
  single : '\n' ∉ line.toList
  blank_or_comment : (∀ c ∈ line.toList, Text.isBlank c = true) ∨
    ∃ blanks rest, line.toList = blanks ++ '#' :: rest ∧ ∀ c ∈ blanks, Text.isBlank c = true

/-- A line of blanks or a comment holds no rule. -/
theorem IsSkipped.holdsRule_eq_false (h : IsSkipped line) : holdsRule line = false := by
  unfold holdsRule Text.dropBlanks
  rcases h.blank_or_comment with hblank | ⟨blanks, rest, hline, hblanks⟩
  · rw [List.dropWhile_eq_nil_iff.mpr hblank]
  · rw [hline, List.dropWhile_append_of_pos hblanks]
    rfl

/-- Whether a text is another one with a line inserted, which then has this number. -/
inductive InsertsLine (line : String) : Nat → String → String → Prop
  | inFront {front ending back : String} (hfront : Text.EndsLine front)
      (hending : EndsBefore ending back) (hne : line ++ ending ≠ "") :
      InsertsLine line ((Text.lines front).length + 1) (front ++ back)
        (front ++ (line ++ ending ++ back))
  | behindLast {front between ending : String} (hfront : ¬Text.EndsLine front)
      (hbetween : IsLineEnd between) (hending : EndsBefore ending "") (hne : line ++ ending ≠ "") :
      InsertsLine line ((Text.lines front).length + 1) front (front ++ between ++ (line ++ ending))

/-- The lines of a text with a line inserted read like those of the text with the line put between
them. -/
theorem InsertsLine.exists_lines (h : InsertsLine line number text text')
    (hline : '\n' ∉ line.toList) :
    ∃ front back, number = front.length + 1 ∧ Text.lines text = front ++ back ∧
      List.Forall₂ ReadsLike (Text.lines text') (front ++ line :: back) := by
  cases h with
  | @inFront front ending back hfront hending hne =>
    obtain ⟨cut, hcut, hlike⟩ := exists_lines_line _ hline hending hne
    refine ⟨_, _, rfl, Text.lines_append hfront back, ?_⟩
    rw [Text.lines_append hfront, hcut]
    exact List.rel_append (readsLike_rfl _) (.cons hlike (readsLike_rfl _))
  | @behindLast _ between ending hfront hbetween hending hne =>
    -- the last line of the text is given an end, and then the line stands behind all others
    obtain ⟨front, last, rfl, hends, hlast, hsingle⟩ := Text.exists_lastLine hfront
    obtain ⟨cut, hcut, hlike⟩ := exists_lines_line _ hline hending hne
    obtain ⟨cut', hcut', hlike'⟩ := exists_lines_line (line ++ ending) hsingle (.inl hbetween)
      (by simp [hlast])
    have htext : front ++ last ++ between ++ (line ++ ending) =
        front ++ (last ++ between ++ (line ++ ending)) := by simp only [String.append_assoc]
    rw [String.append_empty] at hcut
    refine ⟨_, [], rfl, (List.append_nil _).symm, ?_⟩
    rw [htext, Text.lines_append hends, Text.lines_append hends, hcut', hcut,
      Text.lines_of_not_mem hlast hsingle, List.append_assoc]
    exact List.rel_append (readsLike_rfl _) (.cons hlike' (.cons hlike .nil))

/-- A blank line or a comment changes nothing but the numbers of the errors behind it. -/
theorem readText_insert (h : InsertsLine line number text text') (hline : IsSkipped line)
    (file : String) :
    readText file text' =
      (readText file text).mapError (List.map (ReadError.renumber (raise number))) := by
  obtain ⟨front, back, rfl, htext, hlike⟩ := h.exists_lines hline.single
  rw [readText, readText, read_congr hlike, read_insert hline.holdsRule_eq_false, htext]

/-! ## Cutting a head line -/

/-- Whether a text is made of blanks that do not end a line. -/
def IsIndent (text : String) : Prop := ∀ c ∈ text.toList, Text.isBlank c = true ∧ c ≠ '\n'

instance (text : String) : Decidable (IsIndent text) :=
  List.decidableBAll _ text.toList

/-- Whether a line gives `lhs` the alternatives in a text, as a continuation or as a head line. -/
inductive CarriesOn (lhs : Symbol) (alts : String) : String → Prop
  | continuation {indent gap : String} (hindent : IsIndent indent) (hgap : IsIndent gap) :
      CarriesOn lhs alts (indent ++ "|" ++ gap ++ alts)
  | head {indent gap gap' : String} (hindent : IsIndent indent) (hgap : IsIndent gap)
      (hgap' : IsIndent gap') : CarriesOn lhs alts (indent ++ lhs ++ gap ++ "->" ++ gap' ++ alts)

/-- Whether a text is another one in which a head line is cut in two at one of its bars. -/
inductive CutsHead : String → String → Prop
  | cut {front x y ending back between second : String} {lhs : Symbol} {alts : List Alternative}
      (hfront : Text.EndsLine front) (hsingle : '\n' ∉ (x ++ "|" ++ y).toList)
      (hline : Says (x ++ "|" ++ y) (.head lhs alts)) (hending : EndsBefore ending back)
      (hbetween : IsLineEnd between) (hsecond : CarriesOn lhs y second) :
      CutsHead (front ++ (x ++ "|" ++ y ++ ending ++ back))
        (front ++ (x ++ between ++ (second ++ ending ++ back)))

/-- What stands in front of a bar of a head line is a head line, and what stands behind it are
further alternatives. -/
theorem Says.exists_cut {x y : String} {alts : List Alternative}
    (h : Says (x ++ "|" ++ y) (.head lhs alts)) :
    ∃ xs ys, alts = xs ++ ys ∧ Says x (.head lhs xs) ∧
      RuleLine.readAlternatives (Token.ofLine y) = .ok ys := by
  have htokens : Token.ofLine (x ++ "|" ++ y) = Token.ofLine x ++ .bar :: Token.ofLine y := by
    have hchars : (x ++ "|" ++ y).toList = x.toList ++ '|' :: y.toList := by simp
    rw [Token.ofLine, hchars, Token.ofChars_append _ rfl, Token.ofChars_bar]
    rfl
  obtain ⟨xs, ys, hxs, hys, rfl⟩ :=
    RuleLine.ofTokens_append_bar_eq_head_iff.mp (htokens ▸ h.ofTokens)
  refine ⟨xs, ys, rfl, ⟨?_, hxs⟩, hys⟩
  -- the first character of the line stands in front of the bar, since the nonterminal does
  obtain ⟨rest, hstart, -, -⟩ := RuleLine.ofTokens_eq_head_iff.mp hxs
  have hholds := h.holdsRule
  unfold Source.holdsRule Text.dropBlanks at hholds ⊢
  rw [String.toList_append, String.toList_append, List.append_assoc,
    List.dropWhile_append] at hholds
  cases hdrop : x.toList.dropWhile Text.isBlank with
  | nil =>
    rw [Token.ofLine, ← Token.ofChars_dropBlanks, Text.dropBlanks, hdrop] at hstart
    simp at hstart
  | cons c more => simpa [hdrop] using hholds

/-- An indentation is blank. -/
theorem IsIndent.isBlank {indent : String} (h : IsIndent indent) :
    ∀ c ∈ indent.toList, Text.isBlank c = true := fun c hc => (h c hc).1

/-- A line that carries a rule on says so. -/
theorem CarriesOn.isSaid {alts second : String} (h : CarriesOn lhs alts second) {x : String}
    (hx : Says x (.head lhs xs)) (halts : RuleLine.readAlternatives (Token.ofLine alts) = .ok ys) :
    Says second (.continuation ys) ∨ Says second (.head lhs ys) := by
  cases h with
  | @continuation indent gap hindent hgap =>
    have hchars : (indent ++ "|" ++ gap ++ alts).toList =
        indent.toList ++ '|' :: (gap.toList ++ alts.toList) := by simp
    have htokens : Token.ofLine (indent ++ "|" ++ gap ++ alts) = .bar :: Token.ofLine alts := by
      rw [Token.ofLine, hchars, Token.ofChars_blanks_append hindent.isBlank, Token.ofChars_bar,
        Token.ofChars_blanks_append hgap.isBlank]
      rfl
    refine .inl ⟨holdsRule_iff.mpr ⟨_, _, _, hchars, hindent.isBlank, rfl, by decide⟩, ?_⟩
    exact htokens ▸ RuleLine.ofTokens_eq_continuation_iff.mpr ⟨_, rfl, halts⟩
  | @head indent gap gap' hindent hgap hgap' =>
    obtain ⟨hword, hcomment⟩ := hx.isWord_lhs
    have hchars : (indent ++ lhs ++ gap ++ "->" ++ gap' ++ alts).toList =
        indent.toList ++ (lhs.toList ++ (gap.toList ++
          '-' :: '>' :: (gap'.toList ++ alts.toList))) := by simp
    have htokens : Token.ofLine (indent ++ lhs ++ gap ++ "->" ++ gap' ++ alts) =
        .symbol lhs :: .arrow :: Token.ofLine alts := by
      -- the name of the nonterminal ends where the arrow or a blank before it begins
      have hgapped : Token.startsSeparator
          (gap.toList ++ '-' :: '>' :: (gap'.toList ++ alts.toList)) = true :=
        Token.startsSeparator_blanks_append hgap.isBlank rfl
      rw [Token.ofLine, hchars, Token.ofChars_blanks_append hindent.isBlank,
        Token.ofChars_append _ hgapped, Token.ofChars_word hword,
        Token.ofChars_blanks_append hgap.isBlank, Token.ofChars_arrow,
        Token.ofChars_blanks_append hgap'.isBlank]
      rfl
    obtain ⟨c, rest, hstart⟩ :=
      List.exists_cons_of_ne_nil (Token.isWord_iff_isUnbroken.mp hword).1
    have hblank : Text.isBlank c = false := hword.isBlank_eq_false c (by simp [hstart])
    refine .inr ⟨holdsRule_iff.mpr ⟨_, c, _, hstart ▸ hchars, hindent.isBlank, hblank, ?_⟩, ?_⟩
    · simpa [hstart] using hcomment
    · exact htokens ▸ RuleLine.ofTokens_eq_head_iff.mpr ⟨_, rfl, hx.isNonterminal, halts⟩

/-- An indentation ends no line. -/
theorem IsIndent.not_mem {indent : String} (h : IsIndent indent) : '\n' ∉ indent.toList :=
  fun hmem => (h _ hmem).2 rfl

/-- The line that carries a rule on is one line. -/
theorem CarriesOn.not_mem {alts second x : String} (h : CarriesOn lhs alts second)
    (hx : Says x (.head lhs xs)) (halts : '\n' ∉ alts.toList) : '\n' ∉ second.toList := by
  have hlhs : '\n' ∉ lhs.toList := hx.isWord_lhs.1.not_mem rfl
  cases h with
  | continuation hindent hgap => simp [hindent.not_mem, hgap.not_mem, halts]
  | head hindent hgap hgap' => simp [hindent.not_mem, hgap.not_mem, hgap'.not_mem, hlhs, halts]

/-- The line that carries a rule on is not empty. -/
theorem CarriesOn.ne_empty {alts second : String} (h : CarriesOn lhs alts second) :
    second ≠ "" := by
  cases h <;> simp

/-- A head line cut in two at a bar leaves a grammar what it is, and other texts no grammar. -/
theorem readText_cut (h : CutsHead text text') (file : String) (g : Grammar) :
    readText file text' = .ok g ↔ readText file text = .ok g := by
  obtain ⟨hfront, hsingle, hline, hending, hbetween, hcarries⟩ := h
  rename_i front x y ending back between second lhs alts
  obtain ⟨xs, ys, rfl, hfirst, hread⟩ := hline.exists_cut
  obtain ⟨hx, hy⟩ : '\n' ∉ x.toList ∧ '\n' ∉ y.toList := by simp_all
  have hsecond := hcarries.not_mem hfirst hy
  have hne := hcarries.ne_empty
  have hbetweenNe : x ++ between ≠ "" := by rcases hbetween with rfl | rfl <;> simp
  -- the lines of both texts, up to carriage returns at their ends
  obtain ⟨cut, hcut, hlike⟩ := exists_lines_line back hsingle hending (by simp)
  obtain ⟨cut₁, hcut₁, hlike₁⟩ :=
    exists_lines_line (second ++ ending ++ back) hx (.inl hbetween) hbetweenNe
  obtain ⟨cut₂, hcut₂, hlike₂⟩ := exists_lines_line back hsecond hending (by simp [hne])
  have htext : List.Forall₂ ReadsLike (Text.lines (front ++ (x ++ "|" ++ y ++ ending ++ back)))
      (Text.lines front ++ ([x ++ "|" ++ y] ++ Text.lines back)) := by
    rw [Text.lines_append hfront, hcut]
    exact List.rel_append (readsLike_rfl _) (.cons hlike (readsLike_rfl _))
  have htext' : List.Forall₂ ReadsLike
      (Text.lines (front ++ (x ++ between ++ (second ++ ending ++ back))))
      (Text.lines front ++ ([x, second] ++ Text.lines back)) := by
    rw [Text.lines_append hfront, hcut₁, hcut₂]
    exact List.rel_append (readsLike_rfl _) (.cons hlike₁ (.cons hlike₂ (readsLike_rfl _)))
  rw [readText, readText, read_congr htext, read_congr htext']
  exact read_cut hline hfirst (hcarries.isSaid hfirst hread)

/-! ## Layout -/

/-- Reading a text gives each nonterminal the alternatives that are written for it, in the order of
the text. A blank line or a comment inserted where a line starts, or behind the last line, raises
the numbers of the errors from there on and changes nothing else. A head line cut in two at a bar
leaves a grammar what it is, and a text that is no grammar still is none. -/
theorem readText_rulesFor_and_layout (file text : String) :
    (∀ g, readText file text = .ok g → ∀ N, ∃ written : List NumberedLine,
      written.Pairwise (·.number < ·.number) ∧
        (∀ line, line ∈ written ↔ IsWrittenFor text N line) ∧
        g.rulesFor N = (written.flatMap (·.content.alternatives)).map (⟨N, ·⟩)) ∧
      (∀ line number text', IsSkipped line → InsertsLine line number text text' →
        readText file text' =
          (readText file text).mapError (List.map (ReadError.renumber (raise number)))) ∧
      ∀ text', CutsHead text text' →
        ∀ g, readText file text' = .ok g ↔ readText file text = .ok g :=
  ⟨fun _ hg N => exists_written_of_readText hg N,
    fun _ _ _ hline hinserts => readText_insert hinserts hline file,
    fun _ hcuts g => readText_cut hcuts file g⟩

/-- A goal and a choice of two letters. -/
def letters : String := "S -> A $\nA -> a | b\n"

/-- A comment between the lines of this text and either way to cut its last line leave the grammar
what it is. A line without an arrow is reported where it stands behind an inserted blank line. -/
theorem letters_layout :
    (∃ g, readText "rules.cfg" letters = .ok g ∧
      (∃ written : List NumberedLine, (∀ line, line ∈ written ↔ IsWrittenFor letters "A" line) ∧
        (written.flatMap (·.content.alternatives)).map (Rule.mk "A") =
          [⟨"A", ["a"]⟩, ⟨"A", ["b"]⟩]) ∧
      readText "rules.cfg" "S -> A $\n  # letters\r\nA -> a | b\n" = .ok g ∧
      readText "rules.cfg" "S -> A $\nA -> a \n  | b\n" = .ok g ∧
      readText "rules.cfg" "S -> A $\nA -> a \r\nA -> b\n" = .ok g) ∧
      readText "rules.cfg" "\nA a" = .error [⟨.atLine "rules.cfg" 2, .line .missingArrow⟩] := by
  have hrules : (readText "rules.cfg" letters).toOption.map (·.rulesFor "A") =
      some [⟨"A", ["a"]⟩, ⟨"A", ["b"]⟩] := by decide +kernel
  have hfront : Text.EndsLine "S -> A $\n" := .inr ⟨"S -> A $", rfl⟩
  have hindent : IsIndent "  " := by decide
  have hgap : IsIndent " " := by decide
  have hnone : IsIndent "" := by decide
  have hsays : Says ("A -> a " ++ "|" ++ " b") (.head "A" [["a"], ["b"]]) :=
    ⟨by decide +kernel, by decide +kernel⟩
  have hcut : ∀ {second between}, CarriesOn "A" " b" second → IsLineEnd between →
      CutsHead letters ("S -> A $\n" ++ ("A -> a " ++ between ++ (second ++ "\n" ++ ""))) :=
    fun hsecond hbetween =>
      @CutsHead.cut _ _ _ "\n" "" _ _ _ _ hfront (by decide) hsays (.inl (.inl rfl)) hbetween
        hsecond
  refine ⟨?_, ?_⟩
  · obtain ⟨hwritten, hinserts, hcuts⟩ := readText_rulesFor_and_layout "rules.cfg" letters
    cases hg : readText "rules.cfg" letters with
    | error errors => simp [hg, Except.toOption] at hrules
    | ok g =>
      obtain ⟨written, -, hmem, hsame⟩ := hwritten g hg "A"
      have hcomment : IsSkipped "  # letters" := ⟨by decide, .inr ⟨_, _, rfl, hindent.isBlank⟩⟩
      refine ⟨g, rfl, ⟨written, hmem, ?_⟩, ?_, ?_, ?_⟩
      · rw [hg] at hrules
        exact hsame ▸ Option.some.inj hrules
      · have hbetween : InsertsLine "  # letters" 2 letters _ :=
          @InsertsLine.inFront _ "S -> A $\n" "\r\n" "A -> a | b\n" hfront (.inl (.inr rfl))
            (by decide)
        have hread := hinserts _ _ _ hcomment hbetween
        rw [hg] at hread
        exact hread
      · exact (hcuts _ (hcut (.continuation hindent hnone) (.inl rfl)) g).mpr hg
      · exact (hcuts _ (hcut (.head hnone hgap hnone) (.inr rfl)) g).mpr hg
  · obtain ⟨-, hinserts, -⟩ := readText_rulesFor_and_layout "rules.cfg" "A a"
    have hread : readText "rules.cfg" "A a" =
        .error [⟨.atLine "rules.cfg" 1, .line .missingArrow⟩] := by decide +kernel
    have hblank : IsSkipped "" := ⟨by decide, .inl hnone.isBlank⟩
    have hstart : InsertsLine "" 1 "A a" _ :=
      @InsertsLine.inFront _ "" "\n" "A a" (.inl rfl) (.inl (.inl rfl)) (by decide)
    rw [hread] at hinserts
    exact hinserts _ _ _ hblank hstart

end Lookahead.Source
