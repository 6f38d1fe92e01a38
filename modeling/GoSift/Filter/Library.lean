import GoSift.Filter.Registry
import GoSift.Text.Blank
import GoSift.Text.Bytes
import GoSift.Text.Case
import GoSift.Text.Integer

/-! The natives every filter can call: facts about captured nodes, and functions on texts. -/
namespace GoSift.Filter

/-- The type of captured nodes in filters. -/
def varType : String := "*Var"

/-- A native that is to be added under a package, or as a method of a type. -/
structure NativeSpec where
  isMethod : Bool
  qualifier : String
  name : String
  sig : Signature
  run : Stack → Stack

/-- A method that tells a fact about a captured node. On another value it gives `nil`. -/
def factMethod (name : String) (result : Ty) (get : Facts → Value) : NativeSpec where
  isMethod := true
  qualifier := varType
  name
  sig := ⟨[], [result]⟩
  run s :=
    let (v, s) := s.pop
    (v.facts?.map get).getD .nil :: s

/-- A function of two texts. -/
def textFunc₂ (name : String) (result : Ty) (f : String → String → Value) : NativeSpec where
  isMethod := false
  qualifier := "strings"
  name
  sig := ⟨[.string, .string], [result]⟩
  run s :=
    let (y, s) := s.pop
    let (x, s) := s.pop
    f x.asStr y.asStr :: s

/-- A function from texts to texts. -/
def textFunc (name : String) (f : String → String) : NativeSpec where
  isMethod := false
  qualifier := "strings"
  name
  sig := ⟨[.string], [.string]⟩
  run s :=
    let (x, s) := s.pop
    .str (f x.asStr) :: s

/-- The integer a text spells and no error, or zero and an error. -/
def parseInt (s : String) : Value × Value :=
  match Text.readInt64 10 s.toList with
  | .ok n => (.int n, .nil)
  | .error e => (.int 0, .str ("strconv.Atoi: parsing " ++ Text.quote s ++ ": " ++ e.message))

def parseIntFunc : NativeSpec where
  isMethod := false
  qualifier := "strconv"
  name := "Atoi"
  sig := ⟨[.string], [.int, .error]⟩
  run s :=
    let (x, s) := s.pop
    let (n, e) := parseInt x.asStr
    e :: n :: s

/-- The place of a text in another, or -1. -/
def indexValue (s sub : String) : Value :=
  match Text.indexOf s sub with
  | some i => .ofNat i
  | none => .int (-1)

/-- The natives, in the order of their numbers. -/
def library : List NativeSpec :=
  [factMethod "Text" .string fun f => .str f.text,
    factMethod "Kind" .string fun f => .str f.kind,
    factMethod "Pure" .bool fun f => .bool f.isPure,
    factMethod "Const" .bool fun f => .bool f.isConst,
    factMethod "Line" .int fun f => .ofNat f.line,
    factMethod "Len" .int fun f => .ofNat f.size,
    factMethod "IsList" .bool fun f => .bool f.isList,
    textFunc₂ "HasPrefix" .bool fun s front => .bool (Text.startsWith s front),
    textFunc₂ "HasSuffix" .bool fun s back => .bool (Text.endsWith s back),
    textFunc₂ "Contains" .bool fun s sub => .bool (Text.indexOf s sub).isSome,
    textFunc "ToLower" Text.toLower,
    textFunc "ToUpper" Text.toUpper,
    textFunc "TrimSpace" Text.trim,
    textFunc₂ "Index" .int indexValue,
    parseIntFunc]

def Registry.addSpec (r : Registry) (spec : NativeSpec) : Registry × Option Nat :=
  if spec.isMethod then r.addMethod spec.qualifier spec.name spec.sig spec.run
  else r.addNative spec.qualifier spec.name spec.sig spec.run

/-- The registry with these natives added. -/
def Registry.addSpecs (r : Registry) (specs : List NativeSpec) : Registry :=
  specs.foldl (fun r spec => (r.addSpec spec).1) r

/-- A registry that holds the library. -/
def Registry.standard : Registry :=
  Registry.empty.addSpecs library

end GoSift.Filter
