import Lookahead.Grammar.Builder
import Lookahead.Source.Line
import Lookahead.Text.Line

/-!
# Reading a grammar

A grammar file is read in stages, each of which reports all of its problems and is reached only if
the stages before it found none: each line by itself; lines of alternatives before the first rule;
each rule with the rules before it; the rules together. Blank lines and lines that start with `#`
are skipped, but they count when lines are numbered.
-/

namespace Lookahead.Source

/-- Whether a line holds rule text, being neither blank nor a comment. -/
def holdsRule (line : String) : Bool :=
  match Text.dropBlanks line.toList with
  | [] => false
  | c :: _ => c != '#'

/-- A line of rules and its number. -/
structure NumberedLine where
  number : Nat
  content : RuleLine
  deriving DecidableEq, Repr

/-- What a line of a file says; nothing if it is blank or a comment. A line that is no text counts
against the whole file. -/
def readLine? (file : String) (line : Except FileError String) (number : Nat) :
    Option (Except ReadError NumberedLine) :=
  match line with
  | .error fault => some (.error ⟨.wholeFile file, .file fault⟩)
  | .ok text =>
    if holdsRule text then
      match RuleLine.ofTokens (Token.ofLine text) with
      | .error fault => some (.error ⟨.atLine file number, .line fault⟩)
      | .ok content => some (.ok ⟨number, content⟩)
    else none

/-- The error of a result that is one. -/
def error? {ε α : Type} : Except ε α → Option ε
  | .error e => some e
  | .ok _ => none

/-- The value of a result that has one. -/
def value? {ε α : Type} : Except ε α → Option α
  | .error _ => none
  | .ok a => some a

/-- What the lines of a file say, or everything wrong with single lines. -/
def readLines (file : String) (lines : List (Except FileError String)) :
    Except (List ReadError) (List NumberedLine) :=
  let results := (lines.zipIdx 1).filterMap fun (line, number) => readLine? file line number
  let errors := results.filterMap error?
  if errors.isEmpty then .ok (results.filterMap value?) else .error errors

/-- A rule as it is written, with the number of its first line. -/
structure WrittenRule where
  lhs : Symbol
  alternatives : List Alternative
  line : Nat
  deriving DecidableEq, Repr

/-- The alternatives before the first head line, and the rule that each head line starts, with the
alternatives of the lines that continue it. -/
def gather : List NumberedLine → List Alternative × List WrittenRule
  | [] => ([], [])
  | ⟨_, .continuation alts⟩ :: rest => (alts ++ (gather rest).1, (gather rest).2)
  | ⟨number, .head lhs alts⟩ :: rest =>
    ([], ⟨lhs, alts ++ (gather rest).1, number⟩ :: (gather rest).2)

/-- The rules that the lines make up, or the lines that continue no rule. -/
def gatherRules (file : String) (lines : List NumberedLine) :
    Except (List ReadError) (List WrittenRule) :=
  let dangling := lines.takeWhile (·.content.isContinuation)
  if dangling.isEmpty then .ok (gather lines).2
  else .error (dangling.map fun line => ⟨.atLine file line.number, .danglingAlternative⟩)

/-- The builder after the rules have been added to it in turn, and the faults of those that it
refuses. -/
def addWritten (file : String) (b : Builder) : List WrittenRule → Builder × List ReadError
  | [] => (b, [])
  | rule :: rest =>
    match (Builder.add rule.lhs rule.alternatives).run b with
    | .ok _ next => addWritten file next rest
    | .error fault next =>
      let (last, errors) := addWritten file next rest
      (last, ⟨.atLine file rule.line, .grammar fault⟩ :: errors)

/-- Where a nonterminal is first defined. -/
def definedAt? (rules : List WrittenRule) (s : Symbol) : Option Nat :=
  (rules.find? fun rule => rule.lhs == s).map (·.line)

/-- The place of a fault of the rules together: an undefined use is placed where the nonterminal
that uses it is first defined. -/
def faultLocation (file : String) (rules : List WrittenRule) : GrammarError → Location
  | .undefinedNonterminal _ usedBy => ⟨file, definedAt? rules usedBy⟩
  | _ => .wholeFile file

/-- The grammar that the rules make. -/
def assemble (file : String) (rules : List WrittenRule) : Except (List ReadError) Grammar :=
  let (builder, errors) := addWritten file ∅ rules
  if errors.isEmpty then
    builder.build.mapError fun faults =>
      faults.map fun fault => ⟨faultLocation file rules fault, .grammar fault⟩
  else .error errors

/-- The grammar that the lines of a file describe, or the problems of the first stage that has
any. -/
def read (file : String) (lines : List (Except FileError String)) :
    Except (List ReadError) Grammar := do
  let written ← readLines file lines
  let rules ← gatherRules file written
  assemble file rules

/-- The grammar that a text describes. -/
def readText (file text : String) : Except (List ReadError) Grammar :=
  read file ((Text.lines text).map .ok)

/-- The text of a line's bytes. -/
def decodeLine (bytes : List UInt8) : Except FileError String :=
  match String.fromUTF8? ⟨bytes.toArray⟩ with
  | some text => .ok text
  | none => .error .invalidData

/-- The grammar that the bytes of a file describe. -/
def readBytes (file : String) (bytes : ByteArray) : Except (List ReadError) Grammar :=
  read file ((Text.byteLines bytes.data.toList).map decodeLine)

/-- The grammar that a file describes, given its bytes if there is such a file. -/
def readContent (file : String) : Option ByteArray → Except (List ReadError) Grammar
  | some bytes => readBytes file bytes
  | none => .error [⟨.wholeFile file, .file .notFound⟩]

/-- Whether two results of reading are the same grammar, or the same problems in the same order. -/
def same : (a b : Except (List ReadError) Grammar) → Bool
  | .ok g, .ok h => g == h
  | .error es, .error fs => es.length == fs.length && (es.zip fs).all fun (e, f) => e.same f
  | _, _ => false

end Lookahead.Source
