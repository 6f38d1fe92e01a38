import GoSift.Text.Integer

/-!
The command line: what can be asked for, and how the arguments are read. Options may stand anywhere, and
those for the output also in front of the command. An argument is taken into account when the next one
begins, so a fault in its value shows only then.
-/
namespace GoSift.Command

/-- How findings are written. -/
inductive Format where
  | text
  | json
deriving DecidableEq, Repr

def Format.ofName? : String → Option Format
  | "text" => some text
  | "json" => some json
  | _ => none

/-- What is to be done. -/
inductive Task where
  | check (rules : String) (files : List String)
  | grep (pattern : String) (files : List String)
  | disasm (rules : String)
deriving DecidableEq, Repr

/-- A task with the options for all of them. Above the threshold, files may be read side by side. -/
structure Request where
  task : Task
  format : Format
  threshold : Nat
deriving DecidableEq, Repr

/-- Why arguments are no request. Asking for help or the version is one of the reasons. -/
inductive UsageError where
  | help
  | version
  | nothingGiven
  | missingCommand
  | unknownCommand
  | unknownArgument
  | missingArgument
  | invalidValue
  | notNumber
  | repeated
  | unwantedValue
deriving DecidableEq, Repr

def UsageError.exitCode : UsageError → Nat
  | help | version => 0
  | _ => 2

def UsageError.message : UsageError → String
  | help =>
    "usage: gosift [-F text|json] [-P N] check -r RULES FILES... | grep PATTERN FILES... | "
      ++ "disasm -r RULES"
  | version => "gosift 0.3.0"
  | nothingGiven | missingCommand => "a command is required: check, grep, disasm or help"
  | unknownCommand => "unrecognized command"
  | unknownArgument => "unexpected argument"
  | missingArgument => "required arguments were not provided"
  | invalidValue => "invalid value"
  | notNumber => "invalid number"
  | repeated => "an argument cannot be used multiple times"
  | unwantedValue => "unexpected value for a flag"

/-- Where arguments are read: in front of the command, or behind it. -/
inductive Level where
  | top
  | check
  | grep
  | disasm
deriving DecidableEq, Repr

/-- The command with the given name. -/
def Level.ofName? : String → Option Level
  | "check" => some check
  | "grep" => some grep
  | "disasm" => some disasm
  | _ => none

inductive Opt where
  | format
  | threshold
  | rules
  | help
  | version
deriving DecidableEq, Repr

namespace Opt

def short : Opt → Char
  | format => 'F'
  | threshold => 'P'
  | rules => 'r'
  | help => 'h'
  | version => 'V'

def long? : Opt → Option String
  | format => some "format"
  | threshold => none
  | rules => some "rules"
  | help => some "help"
  | version => some "version"

/-- A flag ends the reading as soon as it is met. -/
def flag? : Opt → Option UsageError
  | help => some .help
  | version => some .version
  | _ => none

end Opt

/-- The options that are known at a level. -/
def Level.opts : Level → List Opt
  | top => [.format, .threshold, .help, .version]
  | check | disasm => [.rules, .format, .threshold, .help]
  | grep => [.format, .threshold, .help]

/-- The arguments of one level that have been taken into account. -/
structure Given where
  format : Option Format := none
  threshold : Option Nat := none
  rules : Option String := none
  pattern : Option String := none
  files : List String := []
deriving DecidableEq, Repr

def Given.isEmpty (g : Given) : Bool :=
  g.format.isNone && g.threshold.isNone && g.rules.isNone && g.pattern.isNone && g.files.isEmpty

/-- An argument that has been met and not yet taken into account. -/
inductive Pending where
  | nothing
  | opt (o : Opt) (value : Option String)
  | pattern (text : String)
  | files (paths : List String)
deriving DecidableEq, Repr

/-- Where the reading of a level stands. Behind `--`, nothing is an option. -/
structure Scan where
  given : Given := {}
  pending : Pending := .nothing
  onlyPlain : Bool := false
deriving DecidableEq, Repr

/-- A path is not empty. -/
def path (s : String) : Except UsageError String :=
  if s.isEmpty then .error .invalidValue else .ok s

/-- Takes an option into account. It can be given once. -/
def Given.setOpt (g : Given) (o : Opt) (value : String) : Except UsageError Given :=
  match o with
  | .format =>
    if g.format.isSome then .error .repeated
    else match Format.ofName? value with
      | some f => .ok { g with format := some f }
      | none => .error .invalidValue
  | .threshold =>
    if g.threshold.isSome then .error .repeated
    else match Text.readNat 10 0xffffffffffffffff value.toList with
      | .ok n => .ok { g with threshold := some n }
      | .error _ => .error .notNumber
  | .rules =>
    if g.rules.isSome then .error .repeated
    else return { g with rules := some (← path value) }
  | .help | .version => .ok g

namespace Scan

/-- Whether an option waits for its value. -/
def awaitsValue (s : Scan) : Bool :=
  match s.pending with
  | .opt _ none => true
  | _ => false

/-- Takes the pending argument into account. -/
def settle (s : Scan) : Except UsageError Given :=
  match s.pending with
  | .nothing => .ok s.given
  | .opt _ none => .error .invalidValue
  | .opt o (some value) => s.given.setOpt o value
  | .pattern text => .ok { s.given with pattern := some text }
  | .files paths => return { s.given with files := s.given.files ++ (← paths.mapM path) }

/-- Meets an argument, after the one before it is settled. -/
def meet (s : Scan) (p : Pending) : Except UsageError Scan := do
  return { s with given := ← s.settle, pending := p }

/-- Meets an option, with the value that is attached to it. -/
def option (s : Scan) (o : Opt) (attached : Option String) : Except UsageError Scan := do
  match o.flag?, attached with
  | some e, _ =>
    let _ ← s.settle
    throw e
  | none, none => s.meet (.opt o none)
  | none, some value =>
    return { s with given := ← (← s.settle).setOpt o value, pending := .nothing }

/-- Meets `--name` or `--name=value`. -/
def long (s : Scan) (level : Level) (name : String) (attached : Option String) :
    Except UsageError Scan :=
  match level.opts.find? (·.long? = some name) with
  | none => .error .unknownArgument
  | some o => if o.flag?.isSome && attached.isSome then .error .unwantedValue else s.option o attached

/-- Meets `-n`, `-nvalue` or `-n=value`. -/
def short (s : Scan) (level : Level) (name : Char) (rest : List Char) : Except UsageError Scan :=
  match level.opts.find? (·.short = name) with
  | none => .error .unknownArgument
  | some o =>
    s.option o <| match rest with
      | [] => none
      | '=' :: value => some (String.ofList value)
      | value => some (String.ofList value)

/-- Meets the path of a file. Paths in a row are settled together. -/
def file (s : Scan) (path : String) : Except UsageError Scan :=
  match s.pending with
  | .files paths => .ok { s with pending := .files (paths ++ [path]) }
  | _ => s.meet (.files [path])

/-- Whether a pattern has been met. -/
def hasPattern (s : Scan) : Bool :=
  match s.pending with
  | .pattern _ => true
  | _ => s.given.pattern.isSome

/-- Meets an argument that is no option. -/
def plain (s : Scan) (level : Level) (arg : String) : Except UsageError Scan :=
  match level with
  | .top =>
    if s.onlyPlain && (arg = "help" || (Level.ofName? arg).isSome) then .error .unknownArgument
    else .error .unknownCommand
  | .disasm => .error .unknownArgument
  | .check => s.file arg
  | .grep => if s.hasPattern then s.file arg else s.meet (.pattern arg)

/-- Meets the next argument. -/
def next (s : Scan) (level : Level) (arg : String) : Except UsageError Scan :=
  if s.onlyPlain then s.plain level arg
  else
    match arg.toList with
    | ['-', '-'] => .ok { s with onlyPlain := true }
    | '-' :: '-' :: cs =>
      let name := String.ofList (cs.takeWhile (· ≠ '='))
      match cs.dropWhile (· ≠ '=') with
      | [] => s.long level name none
      | _ :: value => s.long level name (some (String.ofList value))
    | '-' :: c :: cs => s.short level c cs
    | _ =>
      match s.pending with
      | .opt o none => .ok { s with pending := .opt o (some arg) }
      | _ => s.plain level arg

end Scan

/-- Reads all arguments behind a command. -/
def scan (level : Level) : Scan → List String → Except UsageError Given
  | s, [] => s.settle
  | s, arg :: args => do
    scan level (← s.next level arg) args

/-- What a level must be given. -/
def task? (level : Level) (g : Given) : Option Task :=
  match level with
  | .top => none
  | .check => if g.files.isEmpty then none else g.rules.map (.check · g.files)
  | .grep => if g.files.isEmpty then none else g.pattern.map (.grep · g.files)
  | .disasm => g.rules.map .disasm

/-- Help for a command, which nothing follows. -/
def helpFor : List String → UsageError
  | [] => .help
  | [name] => if name = "help" || (Level.ofName? name).isSome then .help else .unknownCommand
  | _ => .unknownCommand

/-- Without a command, it is what is missing. -/
def withoutCommand (g : Given) : UsageError :=
  if g.isEmpty then .nothingGiven else .missingCommand

/-- Reads the arguments from the top. What stands in front of a command is settled after those
behind it, which come first where both give an option. -/
def scanTop : Scan → List String → Except UsageError Request
  | s, [] => do throw (withoutCommand (← s.settle))
  | s, arg :: args => do
    if s.onlyPlain || s.awaitsValue then scanTop (← s.next .top arg) args
    else if arg = "help" then throw (helpFor args)
    else
      match Level.ofName? arg with
      | none => scanTop (← s.next .top arg) args
      | some level =>
        let inner ← scan level {} args
        match task? level inner with
        | none => throw .missingArgument
        | some task =>
          let outer ← s.settle
          return {
            task
            format := (inner.format <|> outer.format).getD .text
            threshold := (inner.threshold <|> outer.threshold).getD 10 }

/-- The request that some arguments make. -/
def Request.parse (args : List String) : Except UsageError Request :=
  scanTop {} args

end GoSift.Command
