import GoSift.Pattern.Part
import GoSift.Pattern.Search

/-!
Matching a node against the code of a pattern. An instruction takes the node apart and its arguments
are matched in turn against the parts.
-/
namespace GoSift.Pattern

/-- Matches one of the parts of a node, given how nodes are matched. -/
def matchPart (strings : List String) (node : Node → MatchState → Except Mismatch MatchState)
    (s : MatchState) : Part → Except Mismatch MatchState
  | .one n => node n s
  | .run (.exprs xs) => (search strings .exprs (fun x => node (.expr x)) true s xs []).map (·.2)
  | .run (.stmts ss) => (search strings .stmts (fun x => node (.stmt x)) true s ss []).map (·.2)
  | .run (.fields fs) => (search strings .fields (fun x => node (.field x)) true s fs []).map (·.2)
  | .run _ => .error .differs
  | .absent empty =>
    match s with
    | ⟨[], _⟩ => .error .stuck
    | ⟨i :: code, captures⟩ =>
      match i.op, i.text? strings with
      | _, none => .error .stuck
      | .wildcard .opt named, some text =>
        match bindOpt? captures (if named then some text else none) empty with
        | some captures => .ok ⟨code, captures⟩
        | none => .error .differs
      | _, _ => .error .differs

/-- Matches a node against the term at the front of the code. Each level of nesting takes an
instruction, so the length of the code is enough fuel. -/
def matchTerm (strings : List String) : Nat → Node → MatchState → Except Mismatch MatchState
  | 0, _, _ => .error .stuck
  | _, _, ⟨[], _⟩ => .error .stuck
  | fuel + 1, node, ⟨i :: code, captures⟩ =>
    match i.op, i.text? strings with
    | _, none => .error .stuck
    | .wildcard _ named, some text =>
      match bindOpt? captures (if named then some text else none) node with
      | some captures => .ok ⟨code, captures⟩
      | none => .error .differs
    | op, some text =>
      match parts? op i.value text node with
      | none => .error .differs
      | some parts => parts.foldlM (matchPart strings (matchTerm strings fuel)) ⟨code, captures⟩

/-- Matches a list against a run, all of it if `whole` is set. Gives the number of elements taken. -/
def matchRun (strings : List String) (whole : Bool) (s : MatchState) :
    Node → Except Mismatch (Nat × MatchState)
  | .exprs xs => taken xs (search strings .exprs (fun x => term (.expr x)) whole s xs [])
  | .stmts ss => taken ss (search strings .stmts (fun x => term (.stmt x)) whole s ss [])
  | .fields fs => taken fs (search strings .fields (fun x => term (.field x)) whole s fs [])
  | _ => .error .differs
where
  term : Node → MatchState → Except Mismatch MatchState :=
    matchTerm strings s.code.length
  taken {α : Type} (xs : List α) (r : Except Mismatch (List α × MatchState)) :
      Except Mismatch (Nat × MatchState) :=
    r.map fun (left, s) => (xs.length - left.length, s)

/-- A node that a pattern matches, or the part of a list with the indices of its ends, and the names
in the order in which they were bound. -/
structure Match where
  node : Node
  window : Option (Nat × Nat)
  captures : List Capture

namespace Match

/-- The node bound to a name. -/
def get? (m : Match) (name : String) : Option Node :=
  (m.captures.find? (·.name = name)).map (·.node)

end Match

/-- The state at the start of a pattern. -/
def start (p : Pattern) : MatchState :=
  ⟨p.insts, []⟩

/-- Whether a list pattern with the root `op` is for lists of this kind. -/
def isRootOf (op : Op) : Node → Bool
  | .exprs _ => op = .exprList
  | .stmts _ => op = .stmtList
  | _ => false

/-- Matches a node that is no list, or a whole list against a list pattern. -/
def matchNode (p : Pattern) (node : Node) : Except Mismatch Match :=
  match p.insts with
  | [] => if node.isList then .error .differs else .error .stuck
  | root :: code =>
    if p.isList then
      if isRootOf root.op node then
        (matchRun p.strings true ⟨code, []⟩ node).map fun (n, s) =>
          ⟨node, some (0, n), s.captures⟩
      else .error .differs
    else if node.isList then .error .differs
    else (matchTerm p.strings p.insts.length node p.start).map fun s => ⟨node, none, s.captures⟩

/-- The part of a list between two indices. -/
def sublist (i j : Nat) : Node → Node
  | .exprs xs => .exprs ((xs.drop i).take (j - i))
  | .stmts ss => .stmts ((ss.drop i).take (j - i))
  | .fields fs => .fields ((fs.drop i).take (j - i))
  | n => n

/-- Matches the elements of a list from the index `i` on against a list pattern. -/
def matchFrom (p : Pattern) (list : Node) (i : Nat) : Except Mismatch Match :=
  if list.size ≤ i then .error .differs
  else
    match p.insts with
    | [] => .error .stuck
    | root :: code =>
      if isRootOf root.op list then
        (matchRun p.strings false ⟨code, []⟩ (sublist i list.size list)).map fun (n, s) =>
          ⟨sublist i (i + n) list, some (i, i + n), s.captures⟩
      else .error .differs

def matchNode? (p : Pattern) (node : Node) : Option Match :=
  (p.matchNode node).toOption

def matchFrom? (p : Pattern) (list : Node) (i : Nat) : Option Match :=
  (p.matchFrom list i).toOption

end GoSift.Pattern
