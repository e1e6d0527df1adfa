import Lookahead.Report

/-!
# The command line

One grammar file, any number of sections to report and a flag that makes conflicts a failure:

    [-s SECTION | --section SECTION]... [--strict] FILE

Arguments are taken from left to right, and the first that asks for help or for the version, or that
cannot be accepted, ends the reading. A value that is an argument of its own is not looked at when
it is met but when the next option, file or the end of the line is: until then an argument that no
option accepts is the earlier fault. A value attached to its option is looked at right away.
-/

namespace Lookahead

/-- What the program is asked to do. -/
structure CommandLine where
  file : String
  given : List Section
  strict : Bool
  deriving DecidableEq, Repr

namespace CommandLine

/-- The sections to report: the given ones, or all if none is given. -/
def sections (c : CommandLine) : List Section := if c.given.isEmpty then Section.all else c.given

/-- The reasons for not running the program. -/
inductive Refusal where
  /-- No file is named. -/
  | missingFile
  /-- A value is missing, empty or not one of the possible ones. -/
  | invalidValue
  /-- No option or place is left for the argument. -/
  | unknownArgument
  /-- A flag is given twice. -/
  | repeatedFlag
  /-- A flag is given a value. -/
  | unexpectedValue
  /-- Help is asked for. -/
  | help
  /-- The version is asked for. -/
  | version
  deriving DecidableEq, Repr

/-- The exit code of a program that does not run: asking for help is no failure. -/
def Refusal.exitCode : Refusal → Nat
  | help => 0
  | version => 0
  | _ => 2

/-- A value that is still to be looked at. -/
inductive Pending where
  | nothing
  | sectionName (value : Option String)
  | fileName (value : String)
  deriving DecidableEq, Repr

/-- What is known after some of the arguments. -/
structure Progress where
  file : Option String
  given : List Section
  strict : Bool
  pending : Pending
  deriving DecidableEq, Repr

namespace Progress

/-- What is known before the first argument. -/
def start : Progress := ⟨none, [], false, .nothing⟩

/-- Takes a section to report. -/
def takeSection (p : Progress) (name : String) : Except Refusal Progress :=
  match Section.ofName? name with
  | some s => .ok { p with given := p.given ++ [s] }
  | none => .error .invalidValue

/-- Looks at the pending value. -/
def settle (p : Progress) : Except Refusal Progress :=
  let settled := { p with pending := .nothing }
  match p.pending with
  | .nothing => .ok settled
  | .sectionName none => .error .invalidValue
  | .sectionName (some name) => settled.takeSection name
  | .fileName name => if name = "" then .error .invalidValue else .ok { settled with file := name }

/-- Whether a file has been named, looked at or not. -/
def hasFile (p : Progress) : Bool :=
  p.file.isSome || match p.pending with
    | .fileName _ => true
    | _ => false

/-- Takes an argument that stands by itself, which can only be the file. -/
def takeFile (p : Progress) (arg : String) : Except Refusal Progress :=
  if p.hasFile then .error .unknownArgument
  else p.settle.map fun settled => { settled with pending := .fileName arg }

/-- Takes an option that needs a section, with the value attached to it, if any. -/
def takeSectionOption (p : Progress) (attached : Option String) : Except Refusal Progress := do
  let settled ← p.settle
  match attached with
  | some name => settled.takeSection name
  | none => return { settled with pending := .sectionName none }

/-- Takes the flag that makes conflicts a failure. -/
def takeStrict (p : Progress) : Except Refusal Progress := do
  let settled ← p.settle
  if settled.strict then .error .repeatedFlag else .ok { settled with strict := true }

/-- Takes a request that ends the reading, once the pending value is looked at. -/
def takeRequest (p : Progress) (request : Refusal) : Except Refusal Progress := do
  let _ ← p.settle
  .error request

/-- Takes an option written `--name` or `--name=value`. -/
def takeLong (p : Progress) (name : List Char) (value : Option (List Char)) :
    Except Refusal Progress :=
  let isFlag := ["strict", "help", "version"].contains (String.ofList name)
  if isFlag && value.isSome then .error .unexpectedValue
  else
    match String.ofList name with
    | "section" => p.takeSectionOption (value.map String.ofList)
    | "strict" => p.takeStrict
    | "help" => p.takeRequest .help
    | "version" => p.takeRequest .version
    | _ => .error .unknownArgument

/-- Takes an option written `-c`, with the text after its letter, which can be a value with or
without an equals sign. -/
def takeShort (p : Progress) (letter : Char) (text : List Char) : Except Refusal Progress :=
  match letter, text with
  | 's', [] => p.takeSectionOption none
  | 's', '=' :: value => p.takeSectionOption (some (String.ofList value))
  | 's', value => p.takeSectionOption (some (String.ofList value))
  | 'h', _ => p.takeRequest .help
  | 'V', _ => p.takeRequest .version
  | _, _ => .error .unknownArgument

/-- Takes an argument that is no option: the value that an option waits for, or the file. -/
def takeValue (p : Progress) (arg : String) : Except Refusal Progress :=
  match p.pending with
  | .sectionName none => .ok { p with pending := .sectionName (some arg) }
  | _ => p.takeFile arg

/-- Splits an option's text at its first equals sign. -/
def splitAtEquals (text : List Char) : List Char × Option (List Char) :=
  (text.takeWhile (· != '='), (text.dropWhile (· != '=')).tail?)

/-- Takes arguments in turn. After `--` they all stand by themselves. -/
def takeAll (p : Progress) : List String → Except Refusal Progress
  | [] => .ok p
  | arg :: rest =>
    match arg.toList with
    | ['-', '-'] => rest.foldlM takeFile p
    | '-' :: '-' :: text => do
      let next ← p.takeLong (splitAtEquals text).1 (splitAtEquals text).2
      next.takeAll rest
    | '-' :: letter :: text => do
      let next ← p.takeShort letter text
      next.takeAll rest
    | _ => do
      let next ← p.takeValue arg
      next.takeAll rest

end Progress

/-- The command line that the arguments make, or the reason for not running the program. -/
def ofArgs (args : List String) : Except Refusal CommandLine := do
  let read ← Progress.start.takeAll args
  let settled ← read.settle
  match settled.file with
  | some file => .ok ⟨file, settled.given, settled.strict⟩
  | none => .error .missingFile

end CommandLine

end Lookahead
