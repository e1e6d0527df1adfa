import Lookahead.Proofs.Rebuilding
import Lookahead.Proofs.RuleLines
import Lookahead.Proofs.Tokens
import Lookahead.Source.Reading

/-!
# What a file that is read says

Reading succeeds exactly if every line that holds rule text makes a line of rules, the first of them
starts a rule, and the rules gathered from them are accepted in turn and make a grammar
(`read_eq_ok_iff`). Everything in such a grammar was a token of some line. So its symbols are words,
and no nonterminal begins as a comment does (`isExpressible_of_read`).
-/

namespace Lookahead

/-- A grammar whose rules can be written down: its symbols are words, and no nonterminal, with which
a line would begin, makes a comment of it. -/
structure Grammar.IsExpressible (g : Grammar) : Prop where
  isWord : ∀ {lhs alt}, alt ∈ g.table.alternatives lhs → lhs.IsWord ∧ ∀ s ∈ alt, s.IsWord
  head?_ne : ∀ N ∈ g.nonterminals, N.toList.head? ≠ some '#'

instance (g : Grammar) : Decidable g.IsExpressible :=
  decidable_of_iff
    ((∀ entry ∈ g.table.entries, ∀ alt ∈ entry.2, entry.1.IsWord ∧ ∀ s ∈ alt, s.IsWord) ∧
      ∀ N ∈ g.nonterminals.toList, N.toList.head? ≠ some '#')
    ⟨fun ⟨hwords, hcomment⟩ => ⟨fun halt => by
        obtain ⟨alts, hentry, halt⟩ := RuleTable.mem_alternatives_iff.mp halt
        exact hwords _ hentry _ halt, hcomment⟩,
      fun h => ⟨fun entry hentry alt halt =>
        h.isWord (RuleTable.mem_alternatives_iff.mpr ⟨entry.2, hentry, halt⟩), h.head?_ne⟩⟩

/-- The alternatives on a line. -/
def RuleLine.alternatives : RuleLine → List Alternative
  | head _ alts => alts
  | continuation alts => alts

namespace Source

variable {file text : String} {content : RuleLine} {lhs : Symbol} {alts : List Alternative}

/-! ## One line -/

/-- A line of text holds rule text, and this is what it says. -/
structure Says (text : String) (content : RuleLine) : Prop where
  holdsRule : holdsRule text = true
  ofTokens : RuleLine.ofTokens (Token.ofLine text) = .ok content

/-- The alternatives on a line are read from tokens of the line. -/
theorem Says.exists_readAlternatives (h : Says text content) :
    ∃ tokens, tokens ⊆ Token.ofLine text ∧
      RuleLine.readAlternatives tokens = .ok content.alternatives := by
  cases content with
  | head lhs alts =>
    obtain ⟨rest, htokens, -, hread⟩ := RuleLine.ofTokens_eq_head_iff.mp h.ofTokens
    exact ⟨rest, fun _ hmem => by simp [htokens, hmem], hread⟩
  | continuation alts =>
    obtain ⟨rest, htokens, hread⟩ := RuleLine.ofTokens_eq_continuation_iff.mp h.ofTokens
    exact ⟨rest, fun _ hmem => by simp [htokens, hmem], hread⟩

/-- A symbol that a line gives to an alternative is a word. -/
theorem Says.isWord_of_mem (h : Says text content) {alt : Alternative}
    (halt : alt ∈ content.alternatives) {s : Symbol} (hs : s ∈ alt) : s.IsWord := by
  obtain ⟨tokens, htokens, hread⟩ := h.exists_readAlternatives
  exact Token.isWord_of_mem_ofChars
    (htokens (RuleLine.symbol_mem_of_readAlternatives hread halt hs))

/-- The nonterminal that a line starts with is a word, and the line is no comment. -/
theorem Says.isWord_lhs (h : Says text (.head lhs alts)) :
    lhs.IsWord ∧ lhs.toList.head? ≠ some '#' := by
  obtain ⟨rest, htokens, -, -⟩ := RuleLine.ofTokens_eq_head_iff.mp h.ofTokens
  unfold Token.ofLine at htokens
  refine ⟨Token.isWord_of_mem_ofChars (t := text.toList) (by simp [htokens]), ?_⟩
  have hholds := h.holdsRule
  unfold Source.holdsRule at hholds
  split at hholds
  · simp at hholds
  · rename_i c more hdrop
    rw [← Token.ofChars_dropBlanks, hdrop] at htokens
    rw [Token.head?_of_ofChars_eq_cons (Token.isBlank_eq_false_of_dropBlanks hdrop) htokens]
    simpa using hholds

/-! ## All lines -/

/-- A line is read without an error exactly if it says something. -/
theorem readLine?_eq_some_ok_iff {line : Except FileError String} {number : Nat}
    {written : NumberedLine} :
    readLine? file line number = some (.ok written) ↔
      ∃ text, line = .ok text ∧ Says text written.content ∧ written.number = number := by
  obtain ⟨number', content⟩ := written
  cases line with
  | error fault => simp [readLine?]
  | ok text =>
    simp only [readLine?, Except.ok.injEq, exists_eq_left']
    constructor
    · intro h
      split at h
      · rename_i hholds
        split at h
        · simp at h
        · rename_i hline
          obtain ⟨rfl, rfl⟩ := by simpa using h
          exact ⟨⟨hholds, hline⟩, rfl⟩
      · simp at h
    · rintro ⟨⟨hholds, hline⟩, rfl⟩
      simp only [hholds, hline, if_true]

/-- A line of text is reported exactly if it holds rule text that is no line of rules. -/
theorem readLine?_eq_some_error_iff {number : Nat} {e : ReadError} :
    readLine? file (.ok text) number = some (.error e) ↔
      holdsRule text = true ∧ ∃ fault, RuleLine.ofTokens (Token.ofLine text) = .error fault ∧
        e = ⟨.atLine file number, .line fault⟩ := by
  simp only [readLine?]
  split
  · rename_i hholds
    split
    · rename_i fault hfault
      simp only [hholds, hfault, Option.some.injEq, Except.error.injEq, true_and, exists_eq_left']
      exact eq_comm
    · rename_i content hcontent
      simp [hcontent]
  · rename_i hholds
    simp [hholds]

/-- A list of results is all values exactly if it has no errors, and then these are its values. -/
theorem eq_map_ok_iff {ε α : Type} {results : List (Except ε α)} {values : List α} :
    results = values.map .ok ↔
      results.filterMap error? = [] ∧ results.filterMap value? = values := by
  constructor
  · rintro rfl
    simp [List.filterMap_map, Function.comp_def, error?, value?]
  · rintro ⟨herrors, rfl⟩
    induction results with
    | nil => rfl
    | cons result rest ih =>
      cases result with
      | error e => simp [error?] at herrors
      | ok a =>
        have hvalue : value? (.ok a : Except ε α) = some a := rfl
        rw [List.filterMap_cons_none rfl] at herrors
        rw [List.filterMap_cons_some hvalue, List.map_cons, ← ih herrors]

/-- What the lines of a file say and what is wrong with them, line by line. -/
def results (file : String) (lines : List (Except FileError String)) (start : Nat) :
    List (Except ReadError NumberedLine) :=
  (lines.zipIdx start).filterMap fun (line, number) => readLine? file line number

/-- The results are those of the lines that hold a rule or cannot be read, with their numbers. -/
theorem mem_results_iff {lines : List (Except FileError String)} {start : Nat}
    {result : Except ReadError NumberedLine} :
    result ∈ results file lines start ↔
      ∃ line number, (line, number) ∈ lines.zipIdx start ∧
        readLine? file line number = some result := by
  simp only [results, List.mem_filterMap, Prod.exists]

/-- The results of the first line come before those of the others. -/
theorem results_cons (file : String) (line : Except FileError String)
    (rest : List (Except FileError String)) (start : Nat) :
    results file (line :: rest) start =
      (readLine? file line start).toList ++ results file rest (start + 1) := by
  simp only [results, List.zipIdx_cons, List.filterMap_cons]
  cases readLine? file line start <;> rfl

/-- Reading the lines gives all that they say, or all errors if there is any. -/
theorem readLines_eq_results (file : String) (lines : List (Except FileError String)) :
    readLines file lines =
      if ((results file lines 1).filterMap error?).isEmpty then
        .ok ((results file lines 1).filterMap value?)
      else .error ((results file lines 1).filterMap error?) := rfl

/-- Lines are read without an error exactly if each of them that holds rule text is. -/
theorem readLines_eq_ok_iff {lines : List (Except FileError String)}
    {written : List NumberedLine} :
    readLines file lines = .ok written ↔ results file lines 1 = written.map .ok := by
  rw [eq_map_ok_iff, readLines_eq_results]
  simp only [List.isEmpty_iff]
  split
  · rename_i hnone
    simp only [hnone, true_and, Except.ok.injEq]
  · rename_i hsome
    simp only [hsome, false_and, reduceCtorEq]

/-- Where no line is wrong, the lines read are those that say something. -/
theorem mem_of_readLines_eq_ok {lines : List (Except FileError String)}
    {written : List NumberedLine} (h : readLines file lines = .ok written) {line : NumberedLine} :
    line ∈ written ↔
      ∃ text, (.ok text, line.number) ∈ lines.zipIdx 1 ∧ Says text line.content := by
  have hmem : line ∈ written ↔ .ok line ∈ written.map (Except.ok (ε := ReadError)) := by simp
  rw [hmem, ← readLines_eq_ok_iff.mp h]
  simp only [mem_results_iff, readLine?_eq_some_ok_iff]
  constructor
  · rintro ⟨-, number, hnumber, text, rfl, hsaid, rfl⟩
    exact ⟨text, hnumber, hsaid⟩
  · rintro ⟨text, hnumber, hsaid⟩
    exact ⟨_, _, hnumber, text, rfl, hsaid, rfl⟩

/-! ## What lines say -/

/-- What lines say, those that hold no rule text left out. -/
def said (lines : List String) : List (Except LineError RuleLine) :=
  (lines.filter holdsRule).map fun line => RuleLine.ofTokens (Token.ofLine line)

/-- The lines of two parts say what the parts say. -/
theorem said_append (front back : List String) :
    said (front ++ back) = said front ++ said back := by
  unfold said
  rw [List.filter_append, List.map_append]

/-- A line with a rule comes first in what is said. -/
theorem said_cons_of_holdsRule {line : String} (h : holdsRule line = true) (rest : List String) :
    said (line :: rest) = RuleLine.ofTokens (Token.ofLine line) :: said rest := by
  simp [said, h]

/-- A line that says something comes first in what is said. -/
theorem Says.said_cons {line : String} {content : RuleLine} (h : Says line content)
    (rest : List String) : said (line :: rest) = .ok content :: said rest := by
  rw [said_cons_of_holdsRule h.holdsRule, h.ofTokens]

/-- Lines are read without an error exactly if those that hold rule text say something. -/
theorem exists_results_iff (file : String) {lines : List String} {contents : List RuleLine}
    (start : Nat) :
    (∃ written : List NumberedLine, results file (lines.map .ok) start = written.map .ok ∧
        written.map (·.content) = contents) ↔ said lines = contents.map .ok := by
  induction lines generalizing start contents with
  | nil =>
    have hnone : results file (([] : List String).map .ok) start = [] := rfl
    have hnone' : said [] = [] := rfl
    rw [hnone, hnone']
    simp only [List.map_eq_nil_iff, exists_eq_left, List.map_nil, eq_comm]
  | cons line rest ih =>
    rw [List.map_cons, results_cons]
    cases hholds : holdsRule line with
    -- a line without a rule adds to neither side
    | false =>
      have hnone : readLine? file (.ok line) start = none := by simp [readLine?, hholds]
      have hnone' : said (line :: rest) = said rest := by simp [said, hholds]
      rw [hnone, hnone', ← ih (start + 1)]
      rfl
    | true =>
      rw [said_cons_of_holdsRule hholds]
      cases hline : RuleLine.ofTokens (Token.ofLine line) with
      | error fault =>
        have herror : readLine? file (.ok line) start = some (.error _) :=
          readLine?_eq_some_error_iff.mpr ⟨hholds, fault, hline, rfl⟩
        rw [herror]
        constructor
        · rintro ⟨written, h, -⟩
          cases written <;> simp at h
        · intro h
          cases contents <;> simp at h
      | ok content =>
        have hsaid : readLine? file (.ok line) start = some (.ok ⟨start, content⟩) :=
          readLine?_eq_some_ok_iff.mpr ⟨line, rfl, ⟨hholds, hline⟩, rfl⟩
        rw [hsaid]
        constructor
        · rintro ⟨written, h, rfl⟩
          obtain ⟨_, more, rfl, hfirst, hmore⟩ := List.map_eq_cons_iff.mp h.symm
          obtain rfl := Except.ok.inj hfirst
          rw [(ih (start + 1)).mp ⟨more, hmore.symm, rfl⟩]
          rfl
        · intro h
          obtain ⟨_, more, rfl, hfirst, hmore⟩ := List.map_eq_cons_iff.mp h.symm
          obtain rfl := Except.ok.inj hfirst
          obtain ⟨written, hwritten, rfl⟩ := (ih (start + 1)).mpr hmore.symm
          exact ⟨⟨start, _⟩ :: written, congrArg (_ :: ·) hwritten, rfl⟩

/-- Lines that all say something are said in turn. -/
theorem said_eq_map_ok {texts : List String} {contents : List RuleLine}
    (h : List.Forall₂ Says texts contents) : said texts = contents.map .ok := by
  induction h with
  | nil => rfl
  | cons hline _ ih =>
    rw [hline.said_cons, ih]
    rfl

/-- Lines that all say something are read as what they say. -/
theorem exists_readLines_of_says {texts : List String} {contents : List RuleLine}
    (h : List.Forall₂ Says texts contents) (file : String) :
    ∃ written, readLines file (texts.map .ok) = .ok written ∧
      written.map (·.content) = contents := by
  simp only [readLines_eq_ok_iff]
  exact (exists_results_iff file 1).mpr (said_eq_map_ok h)

/-! ## Rules -/

/-- The call that adds a written rule to a builder. -/
def WrittenRule.call (rule : WrittenRule) : Symbol × List Alternative :=
  (rule.lhs, rule.alternatives)

/-- Lines make up rules exactly if the first of them starts one. -/
theorem gatherRules_eq_ok_iff {lines : List NumberedLine} {rules : List WrittenRule} :
    gatherRules file lines = .ok rules ↔
      (∀ line ∈ lines.head?, line.content.isContinuation = false) ∧ (gather lines).2 = rules := by
  unfold gatherRules
  cases lines with
  | nil => simp
  | cons line rest => cases hline : line.content.isContinuation <;> simp [hline]

/-- A gathered alternative stands on one of the lines. -/
theorem exists_line_of_mem_gather {lines : List NumberedLine} {alt : Alternative}
    (h : alt ∈ (gather lines).1 ∨ ∃ rule ∈ (gather lines).2, alt ∈ rule.alternatives) :
    ∃ line ∈ lines, alt ∈ line.content.alternatives := by
  induction lines using gather.induct with
  | case1 => simp [gather] at h
  | case2 number alts rest ih =>
    simp only [gather, List.mem_append, or_assoc] at h
    rcases h with halt | h
    · exact ⟨_, List.mem_cons_self, halt⟩
    · obtain ⟨line, hline, halt⟩ := ih h
      exact ⟨line, List.mem_cons_of_mem _ hline, halt⟩
  | case3 number lhs alts rest ih =>
    simp only [gather, List.exists_mem_cons_iff, List.mem_append, or_assoc] at h
    rcases h with h | halt | h
    · simp at h
    · exact ⟨_, List.mem_cons_self, halt⟩
    · obtain ⟨line, hline, halt⟩ := ih h
      exact ⟨line, List.mem_cons_of_mem _ hline, halt⟩

/-- A gathered rule was started by one of the lines. -/
theorem exists_head_of_mem_gather {lines : List NumberedLine} {rule : WrittenRule}
    (h : rule ∈ (gather lines).2) :
    ∃ line ∈ lines, ∃ alts, line.content = .head rule.lhs alts := by
  induction lines using gather.induct with
  | case1 => simp [gather] at h
  | case2 number alts rest ih =>
    obtain ⟨line, hline, hhead⟩ := ih h
    exact ⟨line, List.mem_cons_of_mem _ hline, hhead⟩
  | case3 number lhs alts rest ih =>
    rcases List.mem_cons.mp h with rfl | h
    · exact ⟨_, List.mem_cons_self, alts, rfl⟩
    · obtain ⟨line, hline, hhead⟩ := ih h
      exact ⟨line, List.mem_cons_of_mem _ hline, hhead⟩

/-- A rule is added as a call, and if it is refused its fault comes before those of the rest. -/
theorem addWritten_cons (file : String) (b : Builder) (rule : WrittenRule)
    (rest : List WrittenRule) :
    addWritten file b (rule :: rest) =
      match b.addRule rule.lhs rule.alternatives with
      | .ok _ => addWritten file (b.offer rule.call) rest
      | .error fault =>
        ((addWritten file (b.offer rule.call) rest).1,
          ⟨.atLine file rule.line, .grammar fault⟩ ::
            (addWritten file (b.offer rule.call) rest).2) := by
  rw [addWritten, Builder.addRule, Builder.offer, WrittenRule.call]
  cases (Builder.add rule.lhs rule.alternatives).run b <;> rfl

/-- All rules are accepted exactly if none of them is reported. -/
theorem addWritten_eq_iff (file : String) {rules : List WrittenRule} {b last : Builder} :
    addWritten file b rules = (last, []) ↔
      b.addRules (rules.map WrittenRule.call) = .ok last := by
  induction rules generalizing b with
  | nil => simp [addWritten]
  | cons rule rest ih =>
    rw [List.map_cons, WrittenRule.call, Builder.addRules_cons, addWritten_cons]
    cases hadd : b.addRule rule.lhs rule.alternatives with
    | ok next => simpa [Builder.offer_of_addRule rule.call hadd] using ih
    | error fault => simp

/-- Rules make a grammar exactly if a new builder accepts them in turn and builds it. -/
theorem assemble_eq_ok_iff {rules : List WrittenRule} {g : Grammar} :
    assemble file rules = .ok g ↔
      ∃ b, (∅ : Builder).addRules (rules.map WrittenRule.call) = .ok b ∧ b.build = .ok g := by
  simp only [← addWritten_eq_iff file, assemble]
  cases haddWritten : addWritten file ∅ rules with
  | mk builder errors =>
    cases errors with
    | nil => cases hbuild : builder.build <;> simp [Except.mapError, hbuild]
    | cons e more => simp

/-- A file is read exactly if its lines are, the first that holds rule text starts a rule, and a new
builder accepts the gathered rules in turn and builds a grammar. -/
theorem read_eq_ok_iff {lines : List (Except FileError String)} {g : Grammar} :
    read file lines = .ok g ↔
      ∃ written, readLines file lines = .ok written ∧
        (∀ line ∈ written.head?, line.content.isContinuation = false) ∧
        ∃ b, (∅ : Builder).addRules ((gather written).2.map WrittenRule.call) = .ok b ∧
          b.build = .ok g := by
  unfold read
  simp only [bind_eq_ok_iff, gatherRules_eq_ok_iff, assemble_eq_ok_iff]
  grind

/-- A grammar that is read was built, and its rules can be written down. -/
theorem isExpressible_of_read {lines : List (Except FileError String)} {g : Grammar}
    (h : read file lines = .ok g) : g.Built ∧ g.IsExpressible := by
  obtain ⟨written, hread, -, b, hadded, hbuild⟩ := read_eq_ok_iff.mp h
  have hoffers := Builder.foldl_offer_of_addRules hadded
  have hbuilt : g.Built := ⟨_, hoffers ▸ hbuild⟩
  -- a rule of the grammar is one that the lines make up
  have hrule : ∀ {lhs alt}, alt ∈ g.table.alternatives lhs →
      ∃ rule ∈ (gather written).2, rule.lhs = lhs ∧ alt ∈ rule.alternatives := by
    intro lhs alt halt
    rw [(Builder.build_eq_ok hbuild).2.2.2.1, Builder.alternatives_addRules hadded,
      Builder.alternatives_empty, List.nil_append] at halt
    obtain ⟨call, hcall, halt⟩ := List.mem_flatMap.mp halt
    obtain ⟨hmem, hlhs⟩ := List.mem_filter.mp hcall
    obtain ⟨rule, hrule, rfl⟩ := List.mem_map.mp hmem
    exact ⟨rule, hrule, of_decide_eq_true hlhs, halt⟩
  have hlhs : ∀ {lhs alt}, alt ∈ g.table.alternatives lhs →
      lhs.IsWord ∧ lhs.toList.head? ≠ some '#' := by
    intro lhs alt halt
    obtain ⟨rule, hmem, rfl, -⟩ := hrule halt
    obtain ⟨line, hline, alts, hcontent⟩ := exists_head_of_mem_gather hmem
    obtain ⟨text, -, hsays⟩ := (mem_of_readLines_eq_ok hread).mp hline
    exact (hcontent ▸ hsays).isWord_lhs
  refine ⟨hbuilt, fun {lhs alt} halt => ⟨(hlhs halt).1, fun s hs => ?_⟩, fun N hN => ?_⟩
  · obtain ⟨rule, hmem, -, halt⟩ := hrule halt
    obtain ⟨line, hline, halt⟩ := exists_line_of_mem_gather (.inr ⟨rule, hmem, halt⟩)
    obtain ⟨text, -, hsays⟩ := (mem_of_readLines_eq_ok hread).mp hline
    exact hsays.isWord_of_mem halt hs
  · obtain ⟨alt, halt⟩ := List.exists_mem_of_ne_nil _ (hbuilt.alternatives_ne_nil hN)
    exact (hlhs halt).2

end Source

end Lookahead
