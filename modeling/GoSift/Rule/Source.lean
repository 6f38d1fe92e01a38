/-! Rules as their authors write them. -/
namespace GoSift

/-- A rule before it is compiled. The filter is the text of a function, with its helpers behind it;
the report and the suggestion are templates. -/
structure RuleSource where
  name : String
  patterns : List String
  report : String
  filter : Option String := none
  suggest : Option String := none
deriving DecidableEq, Repr

end GoSift
