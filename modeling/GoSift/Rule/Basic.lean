import GoSift.Filter.Machine
import GoSift.Pattern.Match

/-! Compiled rules, and what their filters say about a match. -/
namespace GoSift

/-- A compiled filter: its function, the functions declared behind it, and for each parameter the name
of the capture it stands for. -/
structure RuleFilter where
  main : Filter.Func
  helpers : List Filter.Func
  params : List String

/-- A compiled rule. -/
structure Rule where
  name : String
  patterns : List Pattern
  filter : Option RuleFilter
  report : String
  suggest : Option String

/-- Rules with the functions that their filters can call. -/
structure RuleSet where
  rules : List Rule
  registry : Filter.Registry

/-- Why a filter gives no answer. -/
inductive Halt where
  | fault (f : Filter.Fault)
  | endless
deriving DecidableEq, Repr

namespace RuleFilter

/-- The values of the parameters: the facts about each capture, or `nil` without it. -/
def args (f : RuleFilter) (m : Pattern.Match) : List Filter.Value :=
  f.params.zipIdx.map fun (name, i) =>
    match m.get? name with
    | some node => .ref i node.facts
    | none => .nil

/-- Whether the filter lets a match pass. It starts with the stack that the run before it left. -/
def accepts (f : RuleFilter) (r : Filter.Registry) (m : Pattern.Match) (stack : Filter.Stack) :
    Except Halt (Bool × Filter.Stack) :=
  match f.main.eval r (f.args m) stack with
  | none => .error .endless
  | some ⟨.error e, _, _⟩ => .error (.fault e)
  | some ⟨.ok v, stack, _⟩ => .ok (v.asBool, stack)

end RuleFilter

/-- Whether a match of a rule is to be reported. -/
def Rule.accepts (rule : Rule) (r : Filter.Registry) (m : Pattern.Match) (stack : Filter.Stack) :
    Except Halt (Bool × Filter.Stack) :=
  match rule.filter with
  | none => .ok (true, stack)
  | some f => f.accepts r m stack

end GoSift
