import GoSift.Pattern.Program
import GoSift.Text.Quoted

/-! Listings of compiled patterns: a line for each instruction, its arguments indented under it. -/
namespace GoSift.Pattern

/-- The operator or keyword of an instruction. -/
def Inst.tokenText (i : Inst) : String :=
  let text? : Option String := match i.op with
    | .unary => UnaryOp.all[i.value]?.map UnaryOp.text
    | .binary => BinaryOp.all[i.value]?.map BinaryOp.text
    | .branch _ => Branch.all[i.value]?.map Branch.text
    | .assign | .multiAssign => (AssignOp.ofCode? i.value).map AssignOp.text
    | .incDec => some (stepText (i.value = 0))
    | .rangeKey | .rangeKeyValue => some (defineText (i.value = 1))
    | _ => none
  text?.getD ("?" ++ toString i.value)

/-- The direction of a channel type. -/
def Inst.directionText (i : Inst) : String :=
  match i.value with
  | 0 => ChanDir.both.text
  | 1 => ChanDir.send.text
  | _ => ChanDir.recv.text

/-- The operation of an instruction and what it holds. -/
def Inst.describe (i : Inst) (strings : List String) : String :=
  let text := Text.quote ((strings[i.index]?).getD "")
  i.op.name ++ match i.op.payload with
    | .nothing => ""
    | .text => " " ++ text
    | .token => " " ++ i.tokenText
    | .direction => " " ++ i.directionText
    | .tokenAndText => " " ++ i.tokenText ++ " " ++ text

/-- Instructions with their depths, and the code behind them. -/
abbrev Lines := List (Nat × Inst) × List Inst

mutual

/-- The first term of some code, to a depth of `fuel`. -/
def termLines : Nat → Nat → List Inst → Lines
  | 0, _, code => ([], code)
  | _, _, [] => ([], [])
  | fuel + 1, depth, i :: code =>
    i.op.args.foldl (fun (lines, code) arg =>
      let (more, code) := match arg with
        | .one => termLines fuel (depth + 1) code
        | .run => runLines fuel (depth + 1) code
      (lines ++ more, code)) ([(depth, i)], code)
termination_by structural fuel => fuel

/-- The terms up to a closing instruction, with it. -/
def runLines : Nat → Nat → List Inst → Lines
  | 0, _, code => ([], code)
  | _, _, [] => ([], [])
  | fuel + 1, depth, i :: code =>
    if i.op = .close then ([(depth, i)], code)
    else
      let (lines, code) := termLines fuel depth (i :: code)
      let (more, code) := runLines fuel depth code
      (lines ++ more, code)
termination_by structural fuel => fuel

end

/-- The terms of some code. -/
def codeLines : Nat → List Inst → List (Nat × Inst)
  | 0, _ => []
  | _, [] => []
  | fuel + 1, code =>
    let (lines, rest) := termLines (2 * code.length) 0 code
    lines ++ codeLines fuel rest

/-- The instructions of a pattern, each with the number of terms around it. -/
def lines (p : Pattern) : List (Nat × Inst) :=
  codeLines p.insts.length p.insts

/-- The listing of a pattern, all of it indented by `indent` steps. -/
def listing (p : Pattern) (indent : Nat := 0) : String :=
  String.join (p.lines.map fun (depth, i) =>
    "".pushn ' ' (2 * (indent + depth)) ++ i.describe p.strings ++ "\n")

end GoSift.Pattern
