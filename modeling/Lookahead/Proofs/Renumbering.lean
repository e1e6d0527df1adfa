import Lookahead.Proofs.Stages

/-!
# Line numbers are only carried along

No stage of reading looks at the number of a line: it goes from the line to the rule that the line
starts and from there into the errors. So a file whose lines say the same under other numbers is
read alike, with the errors numbered accordingly (`Source.read_renumber`), and whether it is read
depends on what its lines say alone (`Source.read_eq_ok_iff_said`).
-/

namespace Lookahead

/-- The place with another number for its line; a whole file has none. -/
def Location.renumber (f : Nat → Nat) (place : Location) : Location :=
  { place with line := place.line.map f }

/-- The problem at the place with another number. -/
def ReadError.renumber (f : Nat → Nat) (e : ReadError) : ReadError :=
  { e with location := e.location.renumber f }

namespace Source

/-- The line with another number. -/
def NumberedLine.renumber (f : Nat → Nat) (line : NumberedLine) : NumberedLine :=
  { line with number := f line.number }

/-- The rule with another number for its first line. -/
def WrittenRule.renumber (f : Nat → Nat) (rule : WrittenRule) : WrittenRule :=
  { rule with line := f rule.line }

/-- What a line says, or what is wrong with it, with another number. -/
def renumberResult (f : Nat → Nat) : Except ReadError NumberedLine → Except ReadError NumberedLine
  | .error e => .error (e.renumber f)
  | .ok line => .ok (line.renumber f)

variable {file : String} {lines lines' : List (Except FileError String)} (f : Nat → Nat)

/-! ## Line by line -/

/-- A line is read the same under another number, which its result then has. -/
theorem readLine?_renumber (file : String) (line : Except FileError String) (number : Nat) :
    readLine? file line (f number) = (readLine? file line number).map (renumberResult f) := by
  cases line with
  | error fault => rfl
  | ok text =>
    simp only [readLine?]
    cases holdsRule text with
    | false => rfl
    | true => cases RuleLine.ofTokens (Token.ofLine text) <;> rfl

/-- The results of two parts are those of the first and those of the second, numbered on. -/
theorem results_append (file : String) (lines lines' : List (Except FileError String))
    (start : Nat) :
    results file (lines ++ lines') start =
      results file lines start ++ results file lines' (start + lines.length) := by
  unfold results
  rw [List.zipIdx_append, List.filterMap_append]

/-- Lines that come later say the same under higher numbers. -/
theorem results_add (start k : Nat)
    (h : ∀ number, start ≤ number → number < start + lines.length → f number = number + k) :
    results file lines (start + k) = (results file lines start).map (renumberResult f) := by
  induction lines generalizing start with
  | nil => rfl
  | cons line rest ih =>
    rw [List.length_cons] at h
    have hrest : results file rest (start + 1 + k) = _ :=
      ih (start + 1) fun number hle hlt => h number (by omega) (by omega)
    have hstart : f start = start + k := h start (Nat.le_refl _) (by omega)
    rw [results_cons, results_cons, ← hstart, readLine?_renumber, hstart, Nat.add_right_comm, hrest,
      List.map_append]
    cases readLine? file line start <;> rfl

/-- Renumbering the results renumbers their errors. -/
theorem filterMap_error?_renumber (said : List (Except ReadError NumberedLine)) :
    (said.map (renumberResult f)).filterMap error? =
      (said.filterMap error?).map (ReadError.renumber f) := by
  rw [List.filterMap_map, List.map_filterMap]
  refine congrArg (said.filterMap ·) (funext fun result => ?_)
  cases result <;> rfl

/-- Renumbering the results renumbers what was read. -/
theorem filterMap_value?_renumber (said : List (Except ReadError NumberedLine)) :
    (said.map (renumberResult f)).filterMap value? =
      (said.filterMap value?).map (NumberedLine.renumber f) := by
  rw [List.filterMap_map, List.map_filterMap]
  refine congrArg (said.filterMap ·) (funext fun result => ?_)
  cases result <;> rfl

/-! ## Rules -/

/-- Rules are gathered from renumbered lines as from the lines, with their numbers changed. -/
theorem gather_renumber (lines : List NumberedLine) :
    gather (lines.map (NumberedLine.renumber f)) =
      ((gather lines).1, (gather lines).2.map (WrittenRule.renumber f)) := by
  induction lines using gather.induct with
  | case1 => rfl
  | case2 number alts rest ih =>
    rw [List.map_cons, NumberedLine.renumber, gather, gather, ih]
  | case3 number lhs alts rest ih =>
    rw [List.map_cons, NumberedLine.renumber, gather, gather, ih]
    rfl

/-- Gathering rules from renumbered lines succeeds or fails as from the lines, with the numbers
changed in either result. -/
theorem gatherRules_renumber (file : String) (lines : List NumberedLine) :
    gatherRules file (lines.map (NumberedLine.renumber f)) =
      ((gatherRules file lines).map (List.map (WrittenRule.renumber f))).mapError
        (List.map (ReadError.renumber f)) := by
  have hdangling : (lines.map (NumberedLine.renumber f)).takeWhile (·.content.isContinuation) =
      (lines.takeWhile (·.content.isContinuation)).map (NumberedLine.renumber f) :=
    List.takeWhile_map
  unfold gatherRules
  simp only [hdangling, gather_renumber, List.isEmpty_map]
  split
  · rfl
  · simp only [Except.map, Except.mapError, List.map_map]
    rfl

/-- The numbers of rules have no part in adding them, and the reports have the changed ones. -/
theorem addWritten_renumber (file : String) (b : Builder) (rules : List WrittenRule) :
    addWritten file b (rules.map (WrittenRule.renumber f)) =
      ((addWritten file b rules).1, (addWritten file b rules).2.map (ReadError.renumber f)) := by
  induction rules generalizing b with
  | nil => rfl
  | cons rule rest ih =>
    simp only [List.map_cons, addWritten, WrittenRule.renumber]
    cases (Builder.add rule.lhs rule.alternatives).run b with
    | ok _ next => exact ih next
    | error fault next =>
      simp only [ih]
      rfl

/-- Renumbering the rules renumbers where a fault is located. -/
theorem faultLocation_renumber (file : String) (rules : List WrittenRule) (fault : GrammarError) :
    faultLocation file (rules.map (WrittenRule.renumber f)) fault =
      (faultLocation file rules fault).renumber f := by
  have hdefinedAt : ∀ s, definedAt? (rules.map (WrittenRule.renumber f)) s =
      (definedAt? rules s).map f := by
    intro s
    unfold definedAt?
    rw [List.find?_map, Option.map_map, Option.map_map]
    rfl
  cases fault <;> first | exact congrArg (Location.mk file) (hdefinedAt _) | rfl

/-- Renumbering the rules renumbers the reports and leaves the grammar as it is. -/
theorem assemble_renumber (file : String) (rules : List WrittenRule) :
    assemble file (rules.map (WrittenRule.renumber f)) =
      (assemble file rules).mapError (List.map (ReadError.renumber f)) := by
  unfold assemble
  simp only [addWritten_renumber, List.isEmpty_map, faultLocation_renumber]
  split
  · cases (addWritten file ∅ rules).1.build with
    | ok g => rfl
    | error faults =>
      simp only [Except.mapError, List.map_map]
      rfl
  · rfl

/-! ## Files -/

/-- A file whose lines say the same under other numbers is read alike. -/
theorem read_renumber
    (h : results file lines' 1 = (results file lines 1).map (renumberResult f)) :
    read file lines' = (read file lines).mapError (List.map (ReadError.renumber f)) := by
  unfold read
  rw [readLines_eq_results, readLines_eq_results, h, filterMap_error?_renumber,
    filterMap_value?_renumber, List.isEmpty_map]
  split
  · show (do let rules ← gatherRules file (List.map _ _); assemble file rules) =
      (do let rules ← gatherRules file _; assemble file rules : Except _ _).mapError _
    rw [gatherRules_renumber]
    cases gatherRules file ((results file lines 1).filterMap value?) with
    | error errors => rfl
    | ok rules => exact assemble_renumber f file rules
  · rfl

/-! ## Files without line numbers -/

/-- The calls that add the rules which lines make up. -/
def calls (contents : List RuleLine) : List (Symbol × List Alternative) :=
  (gather (contents.map (NumberedLine.mk 0))).2.map WrittenRule.call

/-- The calls for rules do not depend on the numbers of their lines. -/
theorem calls_map_content (written : List NumberedLine) :
    calls (written.map (·.content)) = (gather written).2.map WrittenRule.call := by
  have hzero : (written.map (·.content)).map (NumberedLine.mk 0) =
      written.map (NumberedLine.renumber fun _ => 0) := List.map_map
  unfold calls
  rw [hzero, gather_renumber, List.map_map]
  rfl

/-- Whether lines are read, and as which grammar, depends on what they say alone. -/
theorem read_eq_ok_iff_said {lines : List String} {g : Grammar} :
    read file (lines.map .ok) = .ok g ↔
      ∃ contents : List RuleLine, said lines = contents.map .ok ∧
        (∀ content ∈ contents.head?, content.isContinuation = false) ∧
        ∃ b, (∅ : Builder).addRules (calls contents) = .ok b ∧ b.build = .ok g := by
  rw [read_eq_ok_iff]
  constructor
  · rintro ⟨written, hread, hstart, hbuild⟩
    refine ⟨written.map (·.content), ?_, ?_, calls_map_content written ▸ hbuild⟩
    · exact (exists_results_iff file 1).mp ⟨written, readLines_eq_ok_iff.mp hread, rfl⟩
    · cases written with
      | nil => exact fun _ h => nomatch h
      | cons line more =>
        rintro _ ⟨⟩
        exact hstart line rfl
  · rintro ⟨contents, hsaid, hstart, hbuild⟩
    obtain ⟨written, hwritten, rfl⟩ := (exists_results_iff file 1).mpr hsaid
    refine ⟨written, readLines_eq_ok_iff.mpr hwritten, ?_, calls_map_content written ▸ hbuild⟩
    intro line hline
    exact hstart _ (by simp [Option.mem_def.mp hline])

end Source
end Lookahead
