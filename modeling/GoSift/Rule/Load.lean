import GoSift.Filter.Library
import GoSift.Filter.Package
import GoSift.Pattern.Source
import GoSift.Rule.Basic
import GoSift.Rule.Error
import GoSift.Rule.Source

/-!
Compiling rules. The filters of all rules share one registry, in which the package of a rule's functions
is named like the rule.
-/
namespace GoSift

namespace RuleFilter

/-- The names in one parameter list entry. Each must be a capture, and the type that of captures. -/
def fieldParams (rule : String) (captures : List String) : Field → Except RuleError (List String)
  | .mk _ [] type => throw (.filterParam rule type.text)
  | .mk _ names type =>
    names.mapM fun x =>
      let name := x.identName?.getD ""
      if Filter.Ty.ofExpr? type = some (.named Filter.varType) ∧ name ∈ captures then pure name
      else throw (.filterParam rule name)

/-- The names of the parameters of a filter function. -/
def paramNames (rule : String) (captures : List String) (decl : Func) :
    Except RuleError (List String) :=
  return (← decl.params.mapM (fieldParams rule captures)).flatten

/-- Compiles the filter of a rule and adds its functions to the registry. The first of them is the
filter itself. -/
def build (r : Filter.Registry) (rule text : String) (patterns : List Pattern) :
    Except RuleError (RuleFilter × Filter.Registry) := do
  let decls ← (Func.parseList text).mapError (.filterParse rule text)
  match decls with
  | [] => throw (.filterEmpty rule)
  | decl :: _ =>
    let params ← paramNames rule (patterns.flatMap (·.captureNames)) decl
    let (r, ids) := Filter.compilePackage r rule decls
    let ids ← ids.mapError (.filterCode rule text)
    match ids.filterMap r.funcs.get? with
    | [] => throw (.filterResult rule)
    | main :: helpers =>
      if main.sig.results = [.bool] then return (⟨main, helpers, params⟩, r)
      else throw (.filterResult rule)

end RuleFilter

/-- Compiles a rule. -/
def Rule.build (r : Filter.Registry) (s : RuleSource) : Except RuleError (Rule × Filter.Registry) := do
  if s.patterns.isEmpty then throw (.noPatterns s.name)
  let patterns ← s.patterns.mapM fun text =>
    (Pattern.compile text).mapError (.pattern s.name text)
  match s.filter with
  | none => return (⟨s.name, patterns, none, s.report, s.suggest⟩, r)
  | some text =>
    let (filter, r) ← RuleFilter.build r s.name text patterns
    return (⟨s.name, patterns, some filter, s.report, s.suggest⟩, r)

namespace RuleSet

/-- Compiles rules one after the other. Their names must differ from each other and from those
taken. -/
def build : Filter.Registry → List String → List RuleSource → Except RuleError RuleSet
  | r, _, [] => return ⟨[], r⟩
  | r, taken, s :: sources => do
    if s.name ∈ taken then throw (.duplicate s.name)
    let (rule, r) ← Rule.build r s
    let rest ← build r (s.name :: taken) sources
    return { rest with rules := rule :: rest.rules }

/-- The rule set of some sources. -/
def ofSources (sources : List RuleSource) : Except RuleError RuleSet :=
  build .standard [] sources

end RuleSet

end GoSift
