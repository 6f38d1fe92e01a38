import GoSift.Filter.Listing
import GoSift.Pattern.Listing
import GoSift.Rule.Basic

/-! Listings of rule sets: the patterns of each rule, then the functions of its filter. -/
namespace GoSift

namespace Rule

/-- The listing of one pattern of a rule. -/
def patternListing (rule : Rule) (i : Nat) (p : Pattern) : String :=
  rule.name ++ ".pattern" ++ toString i ++ ":\n" ++ p.listing 1

/-- The listing of one function of a rule's filter. -/
def funcListing (rule : Rule) (r : Filter.Registry) (func : Filter.Func) : String :=
  rule.name ++ "." ++ func.name ++ " " ++ func.sig.text ++ ":\n" ++ func.listing r

def listing (rule : Rule) (r : Filter.Registry) : String :=
  let patterns := rule.patterns.zipIdx.map fun (p, i) => rule.patternListing i p
  let funcs := match rule.filter with
    | none => []
    | some f => (f.main :: f.helpers).map (rule.funcListing r)
  String.join (patterns ++ funcs)

end Rule

/-- The listing of all rules. -/
def RuleSet.listing (rs : RuleSet) : String :=
  String.join (rs.rules.map (·.listing rs.registry))

end GoSift
