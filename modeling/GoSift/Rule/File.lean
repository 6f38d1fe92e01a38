import GoSift.Rule.Load
import GoSift.Toml.Reader

/-!
Rule files. The document has one array, `rules`, whose elements have a name, patterns and a report, and
may have a filter and a suggestion. An element can also be written as an array of these in that order,
which may go on with other values.
-/
namespace GoSift

namespace RuleSource

/-- The keys of a rule. -/
def keys : List String :=
  ["name", "patterns", "report", "filter", "suggest"]

/-- The text of an entry that may be left out. -/
def optText? : Option Toml.Value → Option (Option String)
  | none => some none
  | some v => v.text?.map some

/-- A rule from the values of its keys. -/
def ofValues? (name patterns report filter suggest : Option Toml.Value) : Option RuleSource := do
  return {
    name := ← (← name).text?
    patterns := ← (← patterns).texts?
    report := ← (← report).text?
    filter := ← optText? filter
    suggest := ← optText? suggest }

/-- A rule from its entries. There must be no others. -/
def ofTable? (t : Toml.Table) : Option RuleSource :=
  if t.all (·.1 ∈ keys.map ([·])) then
    ofValues? (t.lookup ["name"]) (t.lookup ["patterns"]) (t.lookup ["report"])
      (t.lookup ["filter"]) (t.lookup ["suggest"])
  else none

def ofValue? : Toml.Value → Option RuleSource
  | .text _ | .word _ => none
  | .list vs => ofValues? vs[0]? vs[1]? vs[2]? vs[3]? vs[4]?
  | .table t => ofTable? t

/-- The rules of a document. They are the elements of an array or sections, not both. -/
def ofDocument? (d : Toml.Document) : Option (List RuleSource) :=
  match d.entries with
  | [] =>
    if d.sections.all (·.1 = ["rules"]) then d.sections.mapM fun (_, t) => ofTable? t else none
  | [(["rules"], .list vs)] => if d.sections.isEmpty then vs.mapM ofValue? else none
  | _ => none

/-- Reads the rules of a rule file. -/
def parseFile (text : String) : Except RuleError (List RuleSource) :=
  match (Toml.Document.parse? text).bind ofDocument? with
  | some rules => .ok rules
  | none => .error .malformedFile

end RuleSource

/-- Loads the rules of a rule file. -/
def RuleSet.load (text : String) : Except RuleError RuleSet := do
  ofSources (← RuleSource.parseFile text)

end GoSift
