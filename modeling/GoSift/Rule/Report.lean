import GoSift.Pattern.Find
import GoSift.Rule.Basic
import GoSift.Rule.Template

/-!
Reports: what rules find in a file. They are in the order of their places, and a rule reports a place
once.
-/
namespace GoSift

/-- A finding. `matched` is the code it is about. -/
structure Report where
  rule : String
  line : Nat
  column : Nat
  message : String
  suggestion : Option String
  matched : String
deriving DecidableEq, Repr

namespace Report

def text (r : Report) : String :=
  toString r.line ++ ":" ++ toString r.column ++ ": " ++ r.rule ++ ": " ++ r.message

/-- The report of a match. A match without a place is put at the start of the file. -/
def ofMatch (rule : Rule) (m : Pattern.Match) : Report :=
  let pos := m.node.pos?.getD ⟨1, 1⟩
  { rule := rule.name
    line := pos.line
    column := pos.column
    message := renderTemplate rule.report m
    suggestion := rule.suggest.map (renderTemplate · m)
    matched := m.node.text }

/-- Whether a report stands before another or at the same place. Reports of one place are in the order
of the names of their rules. -/
def le (a b : Report) : Bool :=
  if a.line ≠ b.line then a.line < b.line
  else if a.column ≠ b.column then a.column < b.column
  else a.rule ≤ b.rule

/-- Whether two reports are by one rule about one place. -/
def sameKey (a b : Report) : Bool :=
  a.line = b.line && a.column = b.column && a.rule = b.rule

/-- Drops each report that has the key of the last one kept. -/
def dropRepeats : List Report → List Report
  | [] => []
  | a :: rs => a :: go a rs
where
  go (a : Report) : List Report → List Report
    | [] => []
    | b :: rs => if a.sameKey b then go a rs else b :: go b rs

/-- Puts reports in order and keeps the first for each rule and place. -/
def arrange (rs : List Report) : List Report :=
  dropRepeats (rs.mergeSort le)

end Report

namespace RuleSet

/-- The matches of the rules at a node, rule by rule and pattern by pattern. -/
def matchesAt (rs : RuleSet) (node : Node) : List (Rule × Pattern.Match) :=
  rs.rules.flatMap fun rule =>
    rule.patterns.flatMap fun p => (p.matchesAt node).map (rule, ·)

/-- All matches in a file in the order in which they are found. -/
def candidates (rs : RuleSet) (file : File) : List (Rule × Pattern.Match) :=
  file.visits.flatMap rs.matchesAt

/-- The matches that filters let pass. -/
def accepted (r : Filter.Registry) :
    Filter.Stack → List (Rule × Pattern.Match) → Except Halt (List (Rule × Pattern.Match))
  | _, [] => return []
  | stack, (rule, m) :: ms => do
    let (ok, stack) ← rule.accepts r m stack
    let rest ← accepted r stack ms
    return if ok then (rule, m) :: rest else rest

/-- What the rules find in a file. -/
def run (rs : RuleSet) (file : File) : Except Halt (List Report) := do
  let ms ← accepted rs.registry [] (rs.candidates file)
  return Report.arrange (ms.map fun (rule, m) => .ofMatch rule m)

end RuleSet

end GoSift
