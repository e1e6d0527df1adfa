import Lookahead.Proofs.Stages
import Lookahead.Proofs.Verification

/-!
# What is reported of a text

`Diagnosis` says what is wrong with a text without saying how it is read: lines that are malformed;
lines that continue no rule; rules that are refused after those before them; nonterminals that are
used and not defined, and a goal that is missing. The first of these that a text has, and all of it,
is what reading reports, each problem at the line where it stands. A text has one diagnosis at most
(`Diagnosis.eq`), so a report is right exactly if it is the one that reading gives
(`readText_diagnosis`).

Only of a run of equal undefined uses is the first one alone reported. A use that comes again behind
another one is reported again, though it is the same problem at the same line
(`splitUse_reported_twice`).
-/

namespace Lookahead.Source

variable {file text : String} {errors : List ReadError} {written : List NumberedLine}
  {rules : List WrittenRule} {lhs : Symbol} {number : Nat}

/-! ## Lines of a text -/

/-- Whether a line is the one of a text with this number, counting from one. -/
def IsLine (text : String) (number : Nat) (line : String) : Prop :=
  1 ≤ number ∧ (Text.lines text)[number - 1]? = some line

/-- Whether a line is not blank and has something else than `#` as its first character that is
not. -/
def HasRuleText (line : String) : Prop :=
  ∃ blanks c rest, line.toList = blanks ++ c :: rest ∧ (∀ b ∈ blanks, Text.isBlank b = true) ∧
    Text.isBlank c = false ∧ c ≠ '#'

/-- Whether a line of a text says something of rules, and this. -/
def SaysAt (text : String) (number : Nat) (content : RuleLine) : Prop :=
  ∃ line, IsLine text number line ∧ HasRuleText line ∧
    RuleLine.ofTokens (Token.ofLine line) = .ok content

/-- The test of a line for a rule looks for a first character that is neither blank nor a comment's.
-/
theorem holdsRule_iff {line : String} : holdsRule line = true ↔ HasRuleText line := by
  unfold holdsRule HasRuleText
  constructor
  · intro h
    split at h
    · simp at h
    · rename_i c rest hdrop
      refine ⟨line.toList.takeWhile Text.isBlank, c, rest, ?_,
        List.all_eq_true.mp List.all_takeWhile, Token.isBlank_eq_false_of_dropBlanks hdrop,
        by simpa using h⟩
      rw [← hdrop]
      exact List.takeWhile_append_dropWhile.symm
  · rintro ⟨blanks, c, rest, hline, hblanks, hc, hcomment⟩
    have hdrop : Text.dropBlanks line.toList = c :: rest := by
      rw [hline, Text.dropBlanks, List.dropWhile_append_of_pos hblanks,
        List.dropWhile_cons_of_neg (by simp [hc])]
    rw [hdrop]
    simpa using hcomment

/-- A line of the text says what its tokens say. -/
theorem saysAt_iff {content : RuleLine} :
    SaysAt text number content ↔ ∃ line, IsLine text number line ∧ Says line content := by
  refine exists_congr fun line => and_congr_right fun _ => ?_
  rw [← holdsRule_iff]
  exact ⟨fun ⟨hholds, hline⟩ => ⟨hholds, hline⟩, fun h => ⟨h.holdsRule, h.ofTokens⟩⟩

/-! ## Problems -/

/-- Whether a line of a text holds rule text and is malformed for this cause. -/
def IsMalformed (text : String) (number : Nat) (cause : ReadError.Cause) : Prop :=
  ∃ line fault, IsLine text number line ∧ HasRuleText line ∧
    RuleLine.ofTokens (Token.ofLine line) = .error fault ∧ cause = .line fault

/-- Whether a line of a text gives alternatives to a rule and no head line comes before it. -/
def IsDangling (text : String) (number : Nat) (cause : ReadError.Cause) : Prop :=
  cause = .danglingAlternative ∧ (∃ alts, SaysAt text number (.continuation alts)) ∧
    ∀ other lhs alts, SaysAt text other (.head lhs alts) → number < other

/-- Whether lines are all that a text says, in order. -/
structure IsReading (text : String) (written : List NumberedLine) : Prop where
  ascending : written.Pairwise (·.number < ·.number)
  mem_iff : ∀ line, line ∈ written ↔ SaysAt text line.number line.content

/-- Whether rules are those of a text, each a head line with the lines that continue it. -/
def HasRules (text : String) (rules : List WrittenRule) : Prop :=
  ∃ written, IsReading text written ∧ MakesUp written rules

/-- Whether the rule that starts at a line cannot be added to the rules accepted before it. -/
def IsRefused (rules : List WrittenRule) (number : Nat) (cause : ReadError.Cause) : Prop :=
  ∃ rule fault, Refuses ∅ rules rule fault ∧ rule.line = number ∧ cause = .grammar fault

/-- Whether a line is the first one of a text that starts a rule for a nonterminal. -/
def IsFirstHead (text : String) (lhs : Symbol) (number : Nat) : Prop :=
  (∃ alts, SaysAt text number (.head lhs alts)) ∧
    ∀ other alts, SaysAt text other (.head lhs alts) → number ≤ other

/-- Whether a rule for `usedBy` uses a nonterminal that has no rules. -/
def IsUndefined (rules : List WrittenRule) (symbol usedBy : Symbol) : Prop :=
  symbol.isNonterminal = true ∧ (∀ rule ∈ rules, rule.lhs ≠ symbol) ∧
    ∃ rule ∈ rules, rule.lhs = usedBy ∧ ∃ alt ∈ rule.alternatives, symbol ∈ alt

/-- What is reported of a place of the rules where a nonterminal without rules stands: its use, at
the line where the nonterminal that uses it is first defined. -/
inductive UndefinedAt (file text : String) (rules : List WrittenRule) (place : SymbolPlace) :
    ReadError → Prop
  | intro {alt : Alternative} {symbol : Symbol} {number : Nat}
      (halt : (alternativesOf rules place.rule.lhs)[place.rule.position]? = some alt)
      (hsymbol : alt[place.position]? = some symbol)
      (hnonterminal : symbol.isNonterminal = true)
      (hundefined : ∀ rule ∈ rules, rule.lhs ≠ symbol)
      (hfirst : IsFirstHead text place.rule.lhs number) :
      UndefinedAt file text rules place
        ⟨.atLine file number, .grammar (.undefinedNonterminal symbol place.rule.lhs)⟩

/-- Whether some rule has an alternative that ends the input. -/
def HasGoal (rules : List WrittenRule) : Prop :=
  ∃ rule ∈ rules, ∃ alt ∈ rule.alternatives, alt.endsInput = true

/-! ## Reports -/

/-- Whether no line has a problem. -/
def Nowhere (problem : Nat → ReadError.Cause → Prop) : Prop :=
  ∀ number cause, ¬problem number cause

/-- Whether errors are all problems of a kind, and there are any: one for each line that has the
problem, in the order of lines. -/
structure Lists (file : String) (problem : Nat → ReadError.Cause → Prop)
    (errors : List ReadError) : Prop where
  ne_nil : errors ≠ []
  ascending : errors.Pairwise (·.location.line < ·.location.line)
  mem_iff : ∀ e, e ∈ errors ↔
    ∃ number cause, problem number cause ∧ e = ⟨.atLine file number, cause⟩

/-- Whether errors are all that is wrong with accepted rules together, and there is anything: the
uses of undefined nonterminals, each where the nonterminal that uses it is first defined, and then a
missing goal. The uses are in the order of their places, and of a run of equal ones only the first
is among them. -/
structure ListsFaults (file text : String) (rules : List WrittenRule)
    (uses errors : List ReadError) : Prop where
  ne_nil : errors ≠ []
  mem_uses_iff : ∀ e, e ∈ uses ↔
    ∃ symbol usedBy number, IsUndefined rules symbol usedBy ∧ IsFirstHead text usedBy number ∧
      e = ⟨.atLine file number, .grammar (.undefinedNonterminal symbol usedBy)⟩
  isChain_uses : uses.IsChain (· ≠ ·)
  listsInOrder_uses : ListsInOrder SymbolPlace.Before
    (FirstOfRun SymbolPlace.Before (UndefinedAt file text rules)) uses
  eq_of_hasGoal : HasGoal rules → errors = uses
  eq_of_not_hasGoal : ¬HasGoal rules →
    errors = uses ++ [⟨.wholeFile file, .grammar .missingGoal⟩]

/-- Whether errors are the problems of a text: all those of the first stage that has any. -/
inductive Diagnosis (file text : String) (errors : List ReadError) : Prop
  | lines (h : Lists file (IsMalformed text) errors)
  | dangling (hlines : Nowhere (IsMalformed text)) (h : Lists file (IsDangling text) errors)
  | refused (hlines : Nowhere (IsMalformed text)) (hdangling : Nowhere (IsDangling text))
      (rules : List WrittenRule) (hrules : HasRules text rules)
      (h : Lists file (IsRefused rules) errors)
      (hcause : ∀ e ∈ errors, ∃ rule ∈ rules, e.location = .atLine file rule.line ∧
        (e.cause = .grammar (.partialEndMarker rule.lhs) ∨
          ∃ goal, e.cause = .grammar (.goalConflict goal rule.lhs)))
  | faults (hlines : Nowhere (IsMalformed text)) (hdangling : Nowhere (IsDangling text))
      (rules : List WrittenRule) (hrules : HasRules text rules)
      (hrefused : Nowhere (IsRefused rules)) (uses : List ReadError)
      (h : ListsFaults file text rules uses errors)

/-! ## Lines by themselves -/

/-- The lines of a text, numbered from one, are all readable. -/
theorem mem_zipIdx_lines {result : Except FileError String} :
    (result, number) ∈ ((Text.lines text).map Except.ok).zipIdx 1 ↔
      ∃ line, IsLine text number line ∧ result = .ok line := by
  rw [List.mk_mem_zipIdx_iff_le_and_getElem?_sub, List.getElem?_map, Option.map_eq_some_iff]
  unfold IsLine
  simp only [and_assoc, exists_and_left, eq_comm]

/-- A line of a text is reported exactly if it is malformed. -/
theorem readLine?_eq_error_iff (file : String) (number : Nat) (e : ReadError) :
    (∃ result, (result, number) ∈ ((Text.lines text).map Except.ok).zipIdx 1 ∧
        readLine? file result number = some (.error e)) ↔
      ∃ cause, IsMalformed text number cause ∧ e = ⟨.atLine file number, cause⟩ := by
  simp only [mem_zipIdx_lines, IsMalformed]
  constructor
  · rintro ⟨-, ⟨line, hline, rfl⟩, herror⟩
    obtain ⟨hholds, fault, hfault, rfl⟩ := readLine?_eq_some_error_iff.mp herror
    exact ⟨_, ⟨line, fault, hline, holdsRule_iff.mp hholds, hfault, rfl⟩, rfl⟩
  · rintro ⟨-, ⟨line, fault, hline, hholds, hfault, rfl⟩, rfl⟩
    exact ⟨.ok line, ⟨line, hline, rfl⟩,
      readLine?_eq_some_error_iff.mpr ⟨holdsRule_iff.mpr hholds, fault, hfault, rfl⟩⟩

/-- If reading the lines fails, the malformed lines are listed. -/
theorem lists_of_readLines_eq_error
    (h : readLines file ((Text.lines text).map .ok) = .error errors) :
    Lists file (IsMalformed text) errors := by
  have hlists := (listsInOrder_of_readLines_eq_error h).congr (readLine?_eq_error_iff file)
  refine ⟨(readLines_eq_error_iff.mp h).1, hlists.pairwise ?_, fun e => hlists.mem_iff⟩
  rintro _ _ _ _ hlt ⟨cause, -, rfl⟩ ⟨cause', -, rfl⟩
  exact hlt

/-- If reading the lines succeeds, no line is malformed. -/
theorem nowhere_isMalformed_of_readLines_eq_ok
    (h : readLines file ((Text.lines text).map .ok) = .ok written) :
    Nowhere (IsMalformed text) := by
  intro number cause hmalformed
  obtain ⟨result, hmem, herror⟩ :=
    (readLine?_eq_error_iff file number _).mpr ⟨cause, hmalformed, rfl⟩
  exact readLine?_ne_error_of_readLines h hmem _ herror

/-- If reading the lines succeeds, what is read is what the lines say, in their order. -/
theorem isReading_of_readLines_eq_ok
    (h : readLines file ((Text.lines text).map .ok) = .ok written) : IsReading text written where
  ascending := pairwise_of_readLines_eq_ok h
  mem_iff line := by
    rw [mem_of_readLines_eq_ok h, saysAt_iff]
    refine exists_congr fun content => and_congr_left fun _ => mem_zipIdx_lines.trans ?_
    simp

/-! ## Lines that continue no rule -/

/-- The lines in front of all head lines are those that continue no rule. -/
theorem IsReading.exists_mem_takeWhile_iff (h : IsReading text written) :
    (∃ line ∈ written.takeWhile (·.content.isContinuation), line.number = number) ↔
      IsDangling text number .danglingAlternative := by
  simp only [mem_takeWhile_iff h.ascending, h.mem_iff]
  constructor
  · rintro ⟨⟨_, content⟩, ⟨hsaid, hbefore⟩, rfl⟩
    refine ⟨rfl, ?_, fun other lhs alts hhead => Nat.lt_of_not_le fun hle => ?_⟩
    · cases content with
      | head lhs alts => exact absurd (hbefore _ hsaid (Nat.le_refl _)) Bool.false_ne_true
      | continuation alts => exact ⟨alts, hsaid⟩
    · exact absurd (hbefore ⟨other, .head lhs alts⟩ hhead hle) Bool.false_ne_true
  · rintro ⟨-, ⟨alts, hsaid⟩, hbefore⟩
    refine ⟨⟨number, .continuation alts⟩, ⟨hsaid, ?_⟩, rfl⟩
    rintro ⟨other, content⟩ hother hle
    cases content with
    | head lhs alts => exact absurd (hbefore other lhs alts hother) (Nat.not_lt_of_le hle)
    | continuation alts => rfl

/-- If gathering the rules fails, the continuations without a rule are listed. -/
theorem lists_of_gatherRules_eq_error (hreading : IsReading text written)
    (h : gatherRules file written = .error errors) : Lists file (IsDangling text) errors := by
  obtain ⟨hne, rfl⟩ := gatherRules_eq_error_iff.mp h
  refine ⟨hne, ?_, fun e => ?_⟩
  · exact List.pairwise_map.mpr (hreading.ascending.sublist (List.takeWhile_sublist _))
  · rw [List.mem_map]
    constructor
    · rintro ⟨line, hline, rfl⟩
      exact ⟨_, _, hreading.exists_mem_takeWhile_iff.mp ⟨line, hline, rfl⟩, rfl⟩
    · rintro ⟨number, cause, hdangling, rfl⟩
      obtain rfl := hdangling.1
      obtain ⟨line, hline, rfl⟩ := hreading.exists_mem_takeWhile_iff.mpr hdangling
      exact ⟨line, hline, rfl⟩

/-- If gathering the rules succeeds, every continuation has a rule before it. -/
theorem nowhere_isDangling_of_gatherRules_eq_ok (hreading : IsReading text written)
    (h : gatherRules file written = .ok rules) : Nowhere (IsDangling text) := by
  intro number cause hdangling
  obtain rfl := hdangling.1
  obtain ⟨line, hline, -⟩ := hreading.exists_mem_takeWhile_iff.mpr hdangling
  have herror : gatherRules file written = .error _ :=
    gatherRules_eq_error_iff.mpr ⟨mt List.map_eq_nil_iff.mp (List.ne_nil_of_mem hline), rfl⟩
  exact nomatch h.symm.trans herror

/-- If gathering the rules succeeds, the text has the gathered rules. -/
theorem hasRules_of_gatherRules_eq_ok (hreading : IsReading text written)
    (h : gatherRules file written = .ok rules) : HasRules text rules :=
  ⟨written, hreading, gatherRules_eq_ok_iff_makesUp.mp h⟩

/-! ## Rules in turn -/

/-- Later rules stand on later lines. -/
theorem HasRules.pairwise_line (h : HasRules text rules) : rules.Pairwise (·.line < ·.line) := by
  obtain ⟨written, hreading, hrules⟩ := h
  exact hrules.pairwise_line hreading.ascending

/-- What is read from a text passes the checks of each rule by itself. -/
theorem HasRules.shapeFault?_eq_none (h : HasRules text rules) :
    ∀ rule ∈ rules, Builder.shapeFault? rule.lhs rule.alternatives = none := by
  obtain ⟨written, hreading, hrules⟩ := h
  refine hrules.shapeFault?_eq_none fun line hline => ?_
  obtain ⟨found, -, hsaid⟩ := saysAt_iff.mp ((hreading.mem_iff line).mp hline)
  exact ⟨found, hsaid⟩

/-- The reports of the builder's refusals are those of the refused rules, with their causes. -/
theorem mem_snd_addWritten_iff_isRefused {e : ReadError} :
    e ∈ (addWritten file ∅ rules).2 ↔
      ∃ number cause, IsRefused rules number cause ∧ e = ⟨.atLine file number, cause⟩ := by
  rw [mem_snd_addWritten]
  constructor
  · rintro ⟨rule, fault, hrefuses, rfl⟩
    exact ⟨_, _, ⟨rule, fault, hrefuses, rfl, rfl⟩, rfl⟩
  · rintro ⟨-, -, ⟨rule, fault, hrefuses, rfl, rfl⟩, rfl⟩
    exact ⟨rule, fault, hrefuses, rfl⟩

/-- If a rule is refused, the refused rules are listed. -/
theorem HasRules.lists_of_addWritten (h : HasRules text rules)
    (hne : (addWritten file ∅ rules).2 ≠ []) :
    Lists file (IsRefused rules) (addWritten file ∅ rules).2 :=
  ⟨hne, pairwise_snd_addWritten h.pairwise_line, fun _ => mem_snd_addWritten_iff_isRefused⟩

/-- If nothing is reported, no rule is refused. -/
theorem nowhere_isRefused_of_addWritten (h : (addWritten file ∅ rules).2 = []) :
    Nowhere (IsRefused rules) := by
  intro number cause hrefused
  have hmem : ⟨.atLine file number, cause⟩ ∈ (addWritten file ∅ rules).2 :=
    mem_snd_addWritten_iff_isRefused.mpr ⟨number, cause, hrefused, rfl⟩
  rw [h] at hmem
  exact absurd hmem List.not_mem_nil

/-- A line's rule can only be refused over the end marker. -/
theorem HasRules.cause_eq_of_mem_addWritten (h : HasRules text rules) {e : ReadError}
    (he : e ∈ (addWritten file ∅ rules).2) :
    ∃ rule ∈ rules, e.location = .atLine file rule.line ∧
      (e.cause = .grammar (.partialEndMarker rule.lhs) ∨
        ∃ goal, e.cause = .grammar (.goalConflict goal rule.lhs)) := by
  obtain ⟨rule, fault, hrefuses, rfl⟩ := mem_snd_addWritten.mp he
  refine ⟨rule, hrefuses.mem, rfl, ?_⟩
  rcases hrefuses.fault_eq (h.shapeFault?_eq_none rule hrefuses.mem) with rfl | ⟨goal, rfl⟩
  · exact .inl rfl
  · exact .inr ⟨goal, rfl⟩

/-! ## Rules together -/

/-- A nonterminal is defined at the first line that heads a rule of it. -/
theorem HasRules.isFirstHead_iff (h : HasRules text rules) :
    IsFirstHead text lhs number ↔ definedAt? rules lhs = some number := by
  rw [definedAt?_eq_some_iff h.pairwise_line]
  obtain ⟨written, hreading, hrules⟩ := h
  have hhead : ∀ {number}, (∃ rule ∈ rules, rule.lhs = lhs ∧ rule.line = number) ↔
      ∃ alts, SaysAt text number (.head lhs alts) := by
    intro number
    rw [hrules.exists_rule_iff]
    exact exists_congr fun alts => hreading.mem_iff _
  refine and_congr hhead.symm ⟨?_, ?_⟩
  · rintro hfirst rule hrule hlhs
    obtain ⟨alts, hsaid⟩ := hhead.mp ⟨rule, hrule, hlhs, rfl⟩
    exact hfirst _ alts hsaid
  · intro hfirst other alts hsaid
    obtain ⟨rule, hrule, hlhs, rfl⟩ := hhead.mpr ⟨alts, hsaid⟩
    exact hfirst rule hrule hlhs

/-- The nonterminal of each rule is defined somewhere. -/
theorem exists_definedAt? {rule : WrittenRule} (h : rule ∈ rules) :
    ∃ number, definedAt? rules rule.lhs = some number := by
  have hfound : (rules.find? fun other => other.lhs == rule.lhs).isSome = true :=
    List.find?_isSome.mpr ⟨rule, h, beq_self_eq_true _⟩
  obtain ⟨first, hfirst⟩ := Option.isSome_iff_exists.mp hfound
  exact ⟨first.line, by simp [definedAt?, hfirst]⟩

section Accepted

variable (haccepts : Builder.Accepts (rules.map WrittenRule.call))
include haccepts

/-- A use is undefined in the rules exactly if the builder's table has it among the undefined uses.
-/
theorem isUndefined_iff {symbol usedBy : Symbol} :
    IsUndefined rules symbol usedBy ↔ .undefinedNonterminal symbol usedBy ∈
      (Builder.afterOffers (rules.map WrittenRule.call)).table.undefinedUses := by
  simp only [RuleTable.mem_undefinedUses_iff, GrammarError.undefinedNonterminal.injEq,
    mem_alternatives_afterOffers haccepts, ← Bool.not_eq_true, contains_afterOffers_iff haccepts]
  unfold IsUndefined
  grind

/-- The rules have a goal exactly if the builder knows one after them. -/
theorem hasGoal_iff :
    HasGoal rules ↔ (Builder.afterOffers (rules.map WrittenRule.call)).goal ≠ none := by
  rw [Option.ne_none_iff_exists']
  constructor
  · rintro ⟨rule, hrule, alt, halt, hends⟩
    exact ⟨rule.lhs, (Builder.checked_afterOffers _).goal_of_endsInput
      ((mem_alternatives_afterOffers haccepts).mpr ⟨rule, hrule, rfl, halt⟩) hends⟩
  · rintro ⟨goal, hgoal⟩
    have hcoherent := Builder.coherent_afterOffers (rules.map WrittenRule.call)
    obtain ⟨alt, halt⟩ := hcoherent.goal_hasRule hgoal
    obtain ⟨rule, hrule, -, hmem⟩ := (mem_alternatives_afterOffers haccepts).mp halt
    exact ⟨rule, hrule, alt, hmem, hcoherent.goal_endsInput hgoal alt halt⟩

/-- The undefined uses of accepted rules are placed where the nonterminals that have them are first
defined. -/
theorem HasRules.mem_undefinedUses_iff (h : HasRules text rules) {e : ReadError} :
    e ∈ (Builder.afterOffers (rules.map WrittenRule.call)).table.undefinedUses.map
        (fun fault => ReadError.mk (faultLocation file rules fault) (.grammar fault)) ↔
      ∃ symbol usedBy number, IsUndefined rules symbol usedBy ∧ IsFirstHead text usedBy number ∧
        e = ⟨.atLine file number, .grammar (.undefinedNonterminal symbol usedBy)⟩ := by
  rw [List.mem_map]
  constructor
  · rintro ⟨fault, hfault, rfl⟩
    obtain ⟨symbol, usedBy, rfl, -⟩ := RuleTable.mem_undefinedUses_iff.mp hfault
    have hundefined := (isUndefined_iff haccepts).mpr hfault
    obtain ⟨-, -, rule, hrule, rfl, -⟩ := id hundefined
    obtain ⟨number, hnumber⟩ := exists_definedAt? hrule
    refine ⟨symbol, _, number, hundefined, h.isFirstHead_iff.mpr hnumber, ?_⟩
    simp only [faultLocation, hnumber, Location.atLine]
  · rintro ⟨symbol, usedBy, number, hundefined, hfirst, rfl⟩
    refine ⟨_, (isUndefined_iff haccepts).mp hundefined, ?_⟩
    simp only [faultLocation, h.isFirstHead_iff.mp hfirst, Location.atLine]

/-- So is each of them by itself, at its place in the rules. -/
theorem HasRules.undefinedAt_iff (h : HasRules text rules) {place : SymbolPlace} {e : ReadError} :
    UndefinedAt file text rules place e ↔
      ∃ fault, (Builder.afterOffers (rules.map WrittenRule.call)).table.UndefinedUse place fault ∧
        ReadError.mk (faultLocation file rules fault) (.grammar fault) = e := by
  -- what the builder has in its table is what heads a rule
  have hcontains : ∀ symbol : Symbol,
      (Builder.afterOffers (rules.map WrittenRule.call)).table.contains symbol = false ↔
        ∀ rule ∈ rules, rule.lhs ≠ symbol := by
    intro symbol
    rw [← Bool.not_eq_true, contains_afterOffers_iff haccepts]
    push Not
    rfl
  constructor
  · rintro @⟨alt, symbol, number, halt, hsymbol, hnonterminal, hundefined, hfirst⟩
    rw [← alternatives_afterOffers haccepts] at halt
    have hrule : (Builder.afterOffers (rules.map WrittenRule.call)).table.rule? place.rule =
        some ⟨place.rule.lhs, alt⟩ := RuleTable.rule?_eq_some_iff.mpr ⟨rfl, halt⟩
    refine ⟨_, .intro hrule hsymbol hnonterminal ((hcontains symbol).mpr hundefined), ?_⟩
    simp only [faultLocation, h.isFirstHead_iff.mp hfirst, Location.atLine]
  · rintro ⟨_, @⟨rule, symbol, hrule, hsymbol, hnonterminal, hundefined⟩, rfl⟩
    obtain ⟨hlhs, halt⟩ := RuleTable.rule?_eq_some_iff.mp hrule
    rw [alternatives_afterOffers haccepts] at halt
    obtain ⟨written, hwritten, -⟩ := List.mem_flatMap.mp (List.mem_of_getElem? halt)
    obtain ⟨hmem, hwrittenLhs⟩ := List.mem_filter.mp hwritten
    obtain ⟨number, hnumber⟩ := exists_definedAt? hmem
    rw [of_decide_eq_true hwrittenLhs] at hnumber
    rw [hlhs]
    simp only [faultLocation, hnumber]
    exact .intro halt hsymbol hnonterminal ((hcontains _).mp hundefined)
      (h.isFirstHead_iff.mpr hnumber)

/-- What finishing accepted rules reports is all that is wrong with them together. -/
theorem HasRules.listsFaults_of_build (h : HasRules text rules) {faults : List GrammarError}
    (hbuild : (Builder.afterOffers (rules.map WrittenRule.call)).build = .error faults) :
    ∃ uses, ListsFaults file text rules uses
      (faults.map fun fault => ⟨faultLocation file rules fault, .grammar fault⟩) := by
  obtain ⟨rfl, hne⟩ := Builder.build_eq_error_iff.mp hbuild
  -- different faults have different reports, so a run of equal ones stays a run
  have hinjective : Function.Injective fun fault =>
      ReadError.mk (faultLocation file rules fault) (.grammar fault) :=
    fun _ _ heq => ReadError.Cause.grammar.inj (ReadError.mk.inj heq).2
  refine ⟨_, mt List.map_eq_nil_iff.mp hne, fun e => h.mem_undefinedUses_iff haccepts, ?_, ?_,
    fun hgoal => ?_, fun hgoal => ?_⟩
  · refine (List.isChain_map _).mpr ((RuleTable.isChain_undefinedUses _).imp ?_)
    exact fun _ _ hne => hinjective.ne hne
  · refine ((RuleTable.listsInOrder_undefinedUses _).map _).congr fun place e => ?_
    rw [firstOfRun_map hinjective]
    exact firstOfRun_congr (fun _ _ => (h.undefinedAt_iff haccepts).symm) place e
  · have hsome := (hasGoal_iff haccepts).mp hgoal
    simp [Builder.faults, hsome]
  · have hnone := not_not.mp (mt (hasGoal_iff haccepts).mpr hgoal)
    simp [Builder.faults, hnone, faultLocation]

end Accepted

/-! ## One diagnosis -/

/-- What is listed is somewhere. -/
theorem Lists.not_nowhere {problem : Nat → ReadError.Cause → Prop}
    (h : Lists file problem errors) : ¬Nowhere problem := by
  intro hnowhere
  obtain ⟨e, he⟩ := List.exists_mem_of_ne_nil errors h.ne_nil
  obtain ⟨number, cause, hproblem, -⟩ := (h.mem_iff e).mp he
  exact hnowhere number cause hproblem

/-- A diagnosis has something to report. -/
theorem Diagnosis.ne_nil (h : Diagnosis file text errors) : errors ≠ [] := by
  cases h with
  | lines h | dangling _ h | refused _ _ _ _ h => exact h.ne_nil
  | faults _ _ _ _ _ _ h => exact h.ne_nil

/-- The problems of a kind are listed in one way only. -/
theorem Lists.eq {problem : Nat → ReadError.Cause → Prop} {errors' : List ReadError}
    (h : Lists file problem errors) (h' : Lists file problem errors') : errors = errors' := by
  have hasymm : ∀ {line line' : Option Nat}, line < line' → ¬line' < line
    | none, some _, _ => Option.not_lt_none
    | some _, some _, hlt => mt Option.some_lt_some.mp (Option.some_lt_some.mp hlt).not_gt
  have : Std.Irrefl fun e e' : ReadError => e.location.line < e'.location.line :=
    ⟨fun _ hlt => hasymm hlt hlt⟩
  have : Std.Antisymm fun e e' : ReadError => e.location.line < e'.location.line :=
    ⟨fun _ _ hlt hlt' => absurd hlt' (hasymm hlt)⟩
  exact h.ascending.eq_of_mem_iff h'.ascending fun e => (h.mem_iff e).trans (h'.mem_iff e).symm

/-- Only one list of reports has the undefined uses at their lines, in order and each once for a run
of equal ones, and a missing goal behind them. -/
theorem ListsFaults.eq {uses uses' errors' : List ReadError}
    (h : ListsFaults file text rules uses errors)
    (h' : ListsFaults file text rules uses' errors') : errors = errors' := by
  obtain rfl : uses = uses' := h.listsInOrder_uses.eq SymbolPlace.Before.asymm h'.listsInOrder_uses
  by_cases hgoal : HasGoal rules
  · rw [h.eq_of_hasGoal hgoal, h'.eq_of_hasGoal hgoal]
  · rw [h.eq_of_not_hasGoal hgoal, h'.eq_of_not_hasGoal hgoal]

/-- Something is wrong with rules whose faults are listed. -/
theorem ListsFaults.exists_isUndefined {uses : List ReadError}
    (h : ListsFaults file text rules uses errors) (hgoal : HasGoal rules) :
    ∃ symbol usedBy, IsUndefined rules symbol usedBy := by
  obtain ⟨e, he⟩ := List.exists_mem_of_ne_nil errors h.ne_nil
  rw [h.eq_of_hasGoal hgoal] at he
  obtain ⟨symbol, usedBy, -, hundefined, -, -⟩ := (h.mem_uses_iff e).mp he
  exact ⟨symbol, usedBy, hundefined⟩

/-- A text has one list of rules at most. -/
theorem HasRules.eq {rules' : List WrittenRule} (h : HasRules text rules)
    (h' : HasRules text rules') : rules = rules' := by
  obtain ⟨written, hreading, hrules⟩ := h
  obtain ⟨written', hreading', hrules'⟩ := h'
  have : Std.Irrefl fun line line' : NumberedLine => line.number < line'.number :=
    ⟨fun _ => lt_irrefl _⟩
  have : Std.Antisymm fun line line' : NumberedLine => line.number < line'.number :=
    ⟨fun _ _ hlt hlt' => absurd hlt' hlt.not_gt⟩
  have hsame : written = written' := hreading.ascending.eq_of_mem_iff hreading'.ascending
    fun line => (hreading.mem_iff line).trans (hreading'.mem_iff line).symm
  subst hsame
  have hgather := hrules.gather_eq.symm.trans hrules'.gather_eq
  exact congrArg Prod.snd hgather

/-- A text has one diagnosis at most: two of them are of the same stage, as a stage is only reached
if those before it have no problem. -/
theorem Diagnosis.eq {errors' : List ReadError} (h : Diagnosis file text errors)
    (h' : Diagnosis file text errors') : errors = errors' := by
  -- a stage that has something to report leaves none of the later ones to be reached
  cases h with
  | lines h =>
    cases h' with
    | lines h' => exact h.eq h'
    | dangling hlines | refused hlines | faults hlines => exact absurd hlines h.not_nowhere
  | dangling hlines h =>
    cases h' with
    | lines h' => exact absurd hlines h'.not_nowhere
    | dangling _ h' => exact h.eq h'
    | refused _ hdangling | faults _ hdangling => exact absurd hdangling h.not_nowhere
  | refused hlines hdangling rules hrules h =>
    cases h' with
    | lines h' => exact absurd hlines h'.not_nowhere
    | dangling _ h' => exact absurd hdangling h'.not_nowhere
    | refused _ _ rules' hrules' h' =>
      obtain rfl := hrules.eq hrules'
      exact h.eq h'
    | faults _ _ rules' hrules' hrefused =>
      obtain rfl := hrules.eq hrules'
      exact absurd hrefused h.not_nowhere
  | faults hlines hdangling rules hrules hrefused uses h =>
    cases h' with
    | lines h' => exact absurd hlines h'.not_nowhere
    | dangling _ h' => exact absurd hdangling h'.not_nowhere
    | refused _ _ rules' hrules' h' =>
      obtain rfl := hrules.eq hrules'
      exact absurd hrefused h'.not_nowhere
    | faults _ _ rules' hrules' _ uses' h' =>
      obtain rfl := hrules.eq hrules'
      exact h.eq h'

/-- A text with a diagnosis is not free of problems. -/
theorem Diagnosis.not_faultless (h : Diagnosis file text errors)
    (hlines : Nowhere (IsMalformed text)) (hdangling : Nowhere (IsDangling text))
    (hrules : HasRules text rules) (hrefused : Nowhere (IsRefused rules))
    (hundefined : ∀ symbol usedBy, ¬IsUndefined rules symbol usedBy) : ¬HasGoal rules := by
  intro hgoal
  cases h with
  | lines h => exact h.not_nowhere hlines
  | dangling _ h => exact h.not_nowhere hdangling
  | refused _ _ rules' hrules' h =>
    obtain rfl := hrules.eq hrules'
    exact h.not_nowhere hrefused
  | faults _ _ rules' hrules' _ uses h =>
    obtain rfl := hrules.eq hrules'
    obtain ⟨symbol, usedBy, hundefined'⟩ := h.exists_isUndefined hgoal
    exact hundefined symbol usedBy hundefined'

/-! ## The first stage with a problem -/

/-- The last two stages report refused rules or, if there are none, what is wrong with all rules
together. -/
theorem HasRules.diagnosis_of_assemble (h : HasRules text rules)
    (hlines : Nowhere (IsMalformed text)) (hdangling : Nowhere (IsDangling text))
    (hassemble : assemble file rules = .error errors) : Diagnosis file text errors := by
  rcases assemble_eq_error_iff.mp hassemble with ⟨hne, rfl⟩ | ⟨hnone, faults, hbuild, rfl⟩
  · exact .refused hlines hdangling rules h (h.lists_of_addWritten hne)
      fun _ => h.cause_eq_of_mem_addWritten
  · obtain ⟨uses, hfaults⟩ := h.listsFaults_of_build (accepts_of_snd_addWritten hnone) hbuild
    exact .faults hlines hdangling rules h (nowhere_isRefused_of_addWritten hnone) uses hfaults

/-- What reading reports is a diagnosis. -/
theorem diagnosis_of_readText_eq_error (h : readText file text = .error errors) :
    Diagnosis file text errors := by
  rcases read_eq_error_iff.mp h with hread | ⟨written, hread, hgather | ⟨rules, hgather, h⟩⟩
  · exact .lines (lists_of_readLines_eq_error hread)
  · exact .dangling (nowhere_isMalformed_of_readLines_eq_ok hread)
      (lists_of_gatherRules_eq_error (isReading_of_readLines_eq_ok hread) hgather)
  · have hreading := isReading_of_readLines_eq_ok hread
    exact (hasRules_of_gatherRules_eq_ok hreading hgather).diagnosis_of_assemble
      (nowhere_isMalformed_of_readLines_eq_ok hread)
      (nowhere_isDangling_of_gatherRules_eq_ok hreading hgather) h

/-- Rules that make a grammar are accepted, define what they use and have a goal. -/
theorem faultless_of_assemble {g : Grammar} (h : assemble file rules = .ok g) :
    Nowhere (IsRefused rules) ∧
      (∀ symbol usedBy, ¬IsUndefined rules symbol usedBy) ∧ HasGoal rules := by
  obtain ⟨b, hadded, hbuild⟩ := assemble_eq_ok_iff.mp h
  have hnone : (addWritten file ∅ rules).2 = [] :=
    congrArg Prod.snd ((addWritten_eq_iff file).mpr hadded)
  have haccepts : Builder.Accepts (rules.map WrittenRule.call) := ⟨b, hadded⟩
  obtain rfl : Builder.afterOffers (rules.map WrittenRule.call) = b :=
    Builder.foldl_offer_of_addRules hadded
  obtain ⟨⟨goal, hgoal⟩, hdefined⟩ := Builder.exists_build_iff.mp ⟨g, hbuild⟩
  refine ⟨nowhere_isRefused_of_addWritten hnone, fun symbol usedBy hundefined => ?_, ?_⟩
  · have hmem := (isUndefined_iff haccepts).mp hundefined
    rw [RuleTable.undefinedUses_eq_nil_iff.mpr hdefined] at hmem
    exact absurd hmem List.not_mem_nil
  · exact (hasGoal_iff haccepts).mpr (hgoal ▸ Option.some_ne_none goal)

/-- A text that is read has no problem at any stage. -/
theorem faultless_of_readText_eq_ok {g : Grammar} (h : readText file text = .ok g) :
    Nowhere (IsMalformed text) ∧ Nowhere (IsDangling text) ∧
      ∃ rules, HasRules text rules ∧ Nowhere (IsRefused rules) ∧
        (∀ symbol usedBy, ¬IsUndefined rules symbol usedBy) ∧ HasGoal rules := by
  obtain ⟨written, hread, hrest⟩ := bind_eq_ok_iff.mp h
  obtain ⟨rules, hgather, hassemble⟩ := bind_eq_ok_iff.mp hrest
  have hreading := isReading_of_readLines_eq_ok hread
  exact ⟨nowhere_isMalformed_of_readLines_eq_ok hread,
    nowhere_isDangling_of_gatherRules_eq_ok hreading hgather, rules,
    hasRules_of_gatherRules_eq_ok hreading hgather, faultless_of_assemble hassemble⟩

/-- What reading a text reports is its diagnosis, with at least one problem. A text that is read has
no problem at any stage. -/
theorem readText_diagnosis (file text : String) :
    (∀ errors, readText file text = .error errors ↔ Diagnosis file text errors) ∧
      (∀ errors, readText file text = .error errors → errors ≠ []) ∧
      ∀ g, readText file text = .ok g →
        Nowhere (IsMalformed text) ∧ Nowhere (IsDangling text) ∧
          ∃ rules, HasRules text rules ∧ Nowhere (IsRefused rules) ∧
            (∀ symbol usedBy, ¬IsUndefined rules symbol usedBy) ∧ HasGoal rules := by
  refine ⟨fun errors => ⟨diagnosis_of_readText_eq_error, fun hdiagnosis => ?_⟩,
    fun errors herror => (diagnosis_of_readText_eq_error herror).ne_nil,
    fun g => faultless_of_readText_eq_ok⟩
  cases hread : readText file text with
  | error reported => rw [(diagnosis_of_readText_eq_error hread).eq hdiagnosis]
  | ok g =>
    -- nothing is wrong with a text that is read, so it has no diagnosis
    obtain ⟨hlines, hdangling, rules, hrules, hrefused, hundefined, hgoal⟩ :=
      faultless_of_readText_eq_ok hread
    exact absurd hgoal (hdiagnosis.not_faultless hlines hdangling hrules hrefused hundefined)

/-- The rule that lines 3 and 4 make up ends the input in one of its alternatives only, and the one
on line 6 would end it a second time. The rule between them is accepted. -/
def twoRefused : String := "# rules\n\nS -> A $\n  | b\nT -> t $\nS -> s $\n"

/-- Neither nonterminal on the right-hand side is defined, and one of them is used on both sides of
the other. -/
def splitUse : String := "S -> B C B $"

/-- The report of an undefined nonterminal in the only rule of `splitUse`. -/
def splitUseReport (symbol : Symbol) : ReadError :=
  ⟨.atLine "rules.cfg" 1, .grammar (.undefinedNonterminal symbol "S")⟩

/-- Two rules are refused in the first text; in the second the undefined uses are reported in turn,
and one that is met again is reported again. -/
theorem twoRefused_diagnosis :
    Diagnosis "rules.cfg" twoRefused
        [⟨.atLine "rules.cfg" 3, .grammar (.partialEndMarker "S")⟩,
          ⟨.atLine "rules.cfg" 6, .grammar (.goalConflict "T" "S")⟩] ∧
      Diagnosis "rules.cfg" splitUse
        [splitUseReport "B", splitUseReport "C", splitUseReport "B"] ∧
      ¬Diagnosis "rules.cfg" splitUse [splitUseReport "B", splitUseReport "C"] := by
  have hrefused : readText "rules.cfg" twoRefused =
      .error [⟨.atLine "rules.cfg" 3, .grammar (.partialEndMarker "S")⟩,
        ⟨.atLine "rules.cfg" 6, .grammar (.goalConflict "T" "S")⟩] := by decide +kernel
  have huses : readText "rules.cfg" splitUse =
      .error [splitUseReport "B", splitUseReport "C", splitUseReport "B"] := by decide +kernel
  have hdiagnosis := (readText_diagnosis "rules.cfg" splitUse).1
  refine ⟨((readText_diagnosis "rules.cfg" twoRefused).1 _).mp hrefused,
    (hdiagnosis _).mp huses, fun honce => ?_⟩
  simpa using huses.symm.trans ((hdiagnosis _).mpr honce)

/-- A problem can be reported twice: that a nonterminal is not defined, for a use of it and for
another one behind the use of another nonterminal that is not defined either. -/
theorem splitUse_reported_twice :
    readText "rules.cfg" splitUse =
        .error [splitUseReport "B", splitUseReport "C", splitUseReport "B"] ∧
      ¬[splitUseReport "B", splitUseReport "C", splitUseReport "B"].Nodup := by
  decide +kernel

end Lookahead.Source
