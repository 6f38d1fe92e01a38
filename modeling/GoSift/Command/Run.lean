import GoSift.Command.Finding
import GoSift.Diagnostic
import GoSift.Rule.File
import GoSift.Rule.Listing
import GoSift.Syntax.Parse

/-! Doing what a request asks for. The files it names are looked up through a function. -/
namespace GoSift.Command

/-- What is found under a path. -/
inductive Content where
  | missing
  | unreadable (reason : String)
  | text (s : String)

/-- Why a request fails. -/
inductive Failure where
  | notFound (path : String)
  | unreadable (reason : String)
  | pattern (d : Diagnostic)
  | rules (path : String) (d : Diagnostic)
  | source (path : String) (d : Diagnostic)
  | findings (count : Nat)
  | halted (h : Halt)

namespace Failure

def diagnostic? : Failure → Option Diagnostic
  | pattern d | rules _ d | source _ d => some d
  | _ => none

/-- The messages, from the outermost to the cause. -/
def messages : Failure → List String
  | notFound path => ["File not found: " ++ path]
  | unreadable reason => [reason]
  | pattern d => [d.cause.message]
  | rules path d => ["Failed to load " ++ path, d.cause.message]
  | source path d => ["Failed to parse " ++ path, d.cause.message]
  | findings count => [toString count ++ " issue(s) found"]
  | halted (.fault f) => [f.message?.getD "filter fault"]
  | halted .endless => ["filter does not end"]

end Failure

/-- What is written, and why the request fails if it does. -/
structure Result where
  output : String
  failure : Option Failure

/-- The text under a path. -/
def readText (read : String → Content) (path : String) : Except Failure String :=
  match read path with
  | .missing => .error (.notFound path)
  | .unreadable reason => .error (.unreadable reason)
  | .text s => .ok s

/-- The rules of the rule file under a path. -/
def readRules (read : String → Content) (path : String) : Except Failure RuleSet := do
  let text ← readText read path
  (RuleSet.load text).mapError fun e => .rules path (.ofCause text (.rule e))

/-- The findings in one file. -/
def fileFindings (read : String → Content) (find : File → Except Halt (List Report))
    (path : String) : Except Failure (List Finding) := do
  let text ← readText read path
  let file ← (File.parse text).mapError fun e => .source path (.ofCause text (.parse e))
  let reports ← (find file).mapError .halted
  return reports.map (⟨path, ·⟩)

/-- The findings in several files, in the order of the files. -/
def findings (read : String → Content) (find : File → Except Halt (List Report))
    (paths : List String) : Except Failure (List Finding) :=
  return (← paths.mapM (fileFindings read find)).flatten

/-- The report of a match of a pattern that is no rule's. -/
def grepReport? (m : Pattern.Match) : Option Report :=
  m.node.pos?.map fun pos => ⟨"grep", pos.line, pos.column, m.node.text, none, m.node.text⟩

/-- The matches of a pattern in a file. -/
def grep (p : Pattern) (file : File) : List Report :=
  (p.findInFile file).filterMap grepReport?

/-- Does a task. Findings are written before they make a check fail. -/
def runTask (read : String → Content) (format : Format) : Task → Except Failure Result
  | .check rules files => do
    let rules ← readRules read rules
    let fs ← findings read rules.run files
    return ⟨format.write fs, if fs.isEmpty then none else some (.findings fs.length)⟩
  | .grep pattern files => do
    let p ← (Pattern.compile pattern).mapError fun e => .pattern (.ofCause pattern (.pattern e))
    let fs ← findings read (fun file => .ok (grep p file)) files
    return ⟨format.write fs, none⟩
  | .disasm rules => do
    let rules ← readRules read rules
    return ⟨rules.listing, none⟩

/-- Does what a request asks for. A task that fails before its end writes nothing. -/
def Request.run (r : Request) (read : String → Content) : Result :=
  match runTask read r.format r.task with
  | .ok result => result
  | .error e => ⟨"", some e⟩

/-- The paths that a task needs to read. -/
def Task.paths : Task → List String
  | check rules files => rules :: files
  | grep _ files => files
  | disasm rules => [rules]

end GoSift.Command
