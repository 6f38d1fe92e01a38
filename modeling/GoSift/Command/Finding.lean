import GoSift.Command.Usage
import GoSift.Rule.Report

/-! Findings: reports with the file they are about, as text or as JSON. -/
namespace GoSift.Command

structure Finding where
  file : String
  report : Report
deriving DecidableEq, Repr

/-- The four hexadecimal digits of a control character. -/
def controlDigits (c : Char) : String :=
  let digits := Nat.toDigits 16 c.toNat
  String.ofList (List.replicate (4 - digits.length) '0' ++ digits)

/-- A character as it stands in a JSON string. -/
def jsonChar : Char → String
  | '\x22' => "\\\""
  | '\\' => "\\\\"
  | '\n' => "\\n"
  | '\r' => "\\r"
  | '\t' => "\\t"
  | '\x08' => "\\b"
  | '\x0c' => "\\f"
  | c => if c < ' ' then "\\u" ++ controlDigits c else c.toString

def jsonString (s : String) : String :=
  "\"" ++ String.join (s.toList.map jsonChar) ++ "\""

namespace Finding

/-- A line for the place and the message, and one for the suggestion if there is one. -/
def text (f : Finding) : String :=
  f.file ++ ":" ++ f.report.text ++ "\n" ++
    match f.report.suggestion with
    | none => ""
    | some s => "  suggestion: " ++ s ++ "\n"

/-- The members of a finding as an object, each with its value written out. -/
def members (f : Finding) : List (String × String) :=
  let r := f.report
  [("file", jsonString f.file), ("rule", jsonString r.rule), ("line", toString r.line),
    ("column", toString r.column), ("message", jsonString r.message)]
  ++ (r.suggestion.map fun s => ("suggestion", jsonString s)).toList
  ++ [("matched", jsonString r.matched)]

/-- A finding as a JSON object that is an element of an array. -/
def json (f : Finding) : String :=
  let lines := f.members.map fun (name, value) => "    " ++ jsonString name ++ ": " ++ value
  "  \x7b\n" ++ ",\n".intercalate lines ++ "\n  \x7d"

end Finding

/-- Findings as a JSON array. -/
def jsonArray (fs : List Finding) : String :=
  if fs.isEmpty then "[]\n" else "[\n" ++ ",\n".intercalate (fs.map Finding.json) ++ "\n]\n"

/-- Findings in a format. -/
def Format.write : Format → List Finding → String
  | json, fs => jsonArray fs
  | text, fs => String.join (fs.map Finding.text)

end GoSift.Command
