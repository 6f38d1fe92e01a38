import GoSift.Pattern.Find
import GoSift.Proofs.Outcome
import GoSift.Proofs.Syntax.Erasure

/-!
Matching does not look at places. A pattern matches a node without places as it matches the node, and
captures the same parts of it, without their places.
-/
namespace GoSift.Pattern

namespace Capture

def erase (c : Capture) : Capture :=
  ⟨c.name, c.node.erase⟩

theorem normal_erase (n : Node) : normal n.erase = (normal n).erase := by
  cases n with
  | stmt s => cases s <;> rfl
  | _ => rfl

end Capture

/-- A state of a match with the places of the captures forgotten. -/
def MatchState.erase (s : MatchState) : MatchState :=
  ⟨s.code, s.captures.map Capture.erase⟩

theorem bind?_erase (captures : List Capture) (name : String) (node : Node) :
    bind? (captures.map Capture.erase) name node.erase =
      (bind? captures name node).map (List.map Capture.erase) := by
  have hfind : (captures.map Capture.erase).find? (·.name = name) =
      (captures.find? (·.name = name)).map Capture.erase := by
    rw [List.find?_map]
    rfl
  unfold bind?
  rw [hfind, Capture.normal_erase]
  cases captures.find? (·.name = name) with
  | none => simp [Capture.erase]
  | some c =>
    simp only [Option.map_some, Capture.erase, Node.same_erase]
    split <;> rfl

theorem bindOpt?_erase (captures : List Capture) (name : Option String) (node : Node) :
    bindOpt? (captures.map Capture.erase) name node.erase =
      (bindOpt? captures name node).map (List.map Capture.erase) := by
  cases name with
  | none => rfl
  | some name => exact bind?_erase captures name node

def Part.erase : Part → Part
  | one n => one n.erase
  | run n => run n.erase
  | absent n => absent n.erase

section

open GoSift.Pattern.Part

@[simp] theorem erase_expr (x : Expr) : (expr x).erase = expr x.erase := rfl

@[simp] theorem erase_stmt (s : Stmt) : (stmt s).erase = stmt s.erase := rfl

theorem partsIf_erase {c c' : Bool} {parts parts' : List Part} (hc : c' = c)
    (hp : parts' = parts.map Part.erase) :
    partsIf c' parts' = (partsIf c parts).map (List.map Part.erase) := by
  subst hc hp
  unfold partsIf
  split <;> rfl

theorem spelled_erase (present : Bool) (part : Part) :
    spelled present part.erase = (spelled present part).map Part.erase := by
  cases present <;> rfl

theorem exprSlot_erase (x : Option Expr) : exprSlot (x.map Expr.erase) = (exprSlot x).erase := by
  cases x <;> rfl

theorem stmtSlot_erase (s : Option Stmt) : stmtSlot (s.map Stmt.erase) = (stmtSlot s).erase := by
  cases s <;> rfl

theorem exprParts?_erase (op : Op) (value : Nat) (text : String) (x : Expr) :
    exprParts? op value text x.erase = (exprParts? op value text x).map (List.map Part.erase) := by
  cases x with
  | ident | lit => exact partsIf_erase rfl rfl
  | wildcard => rfl
  | composite _ type elts => cases type <;> exact partsIf_erase rfl rfl
  | funcLit | paren | index | call | star | unary | binary | keyValue | mapType | chanType | structType
  | interfaceType => exact partsIf_erase rfl rfl
  | selector _ x sel =>
    cases op with
    | fixedSelector => exact partsIf_erase (by rw [Expr.identName?_erase]) rfl
    | _ => rfl
  | slice _ x low high max full =>
    cases low <;> cases high <;> cases max <;> exact partsIf_erase rfl rfl
  | typeAssert _ x type => cases type <;> exact partsIf_erase rfl rfl
  | arrayType _ len elem => cases len <;> exact partsIf_erase rfl rfl
  | ellipsis _ elem => cases elem <;> exact partsIf_erase rfl rfl
  | funcType _ params results => cases results <;> exact partsIf_erase rfl rfl

theorem fieldParts?_erase (op : Op) (text : String) (f : Field) :
    fieldParts? op text f.erase = (fieldParts? op text f).map (List.map Part.erase) := by
  obtain ⟨_, names, type⟩ := f
  rcases names with _ | ⟨name, names⟩
  · exact partsIf_erase rfl rfl
  · have hempty : (Expr.eraseList names).isEmpty = names.isEmpty := by cases names <;> rfl
    cases op with
    | fixedField => exact partsIf_erase (by rw [hempty, Expr.identName?_erase]) rfl
    | field => exact partsIf_erase hempty rfl
    | _ => rfl

theorem stmtParts?_erase (op : Op) (value : Nat) (text : String) (s : Stmt) :
    stmtParts? op value text s.erase = (stmtParts? op value text s).map (List.map Part.erase) := by
  cases s with
  | expr | send | incDec | go | defer | ret | labeled | block | empty => exact partsIf_erase rfl rfl
  | assign _ lhs o rhs =>
    cases op with
    | assign =>
      rcases lhs with _ | ⟨l, _ | ⟨_, _⟩⟩
      · rfl
      · rcases rhs with _ | ⟨r, _ | ⟨_, _⟩⟩
        · rfl
        · exact partsIf_erase rfl rfl
        · rfl
      · rfl
    | multiAssign => exact partsIf_erase rfl rfl
    | _ => rfl
  | var _ names type values => cases type <;> exact partsIf_erase rfl rfl
  | branch _ kind label => cases label <;> exact partsIf_erase rfl rfl
  | cond _ init test body other =>
    cases op with
    | cond wantInit wantOther =>
      apply partsIf_erase
      · cases init <;> cases other <;> rfl
      · cases other <;> simp [spelled_erase, stmtSlot_erase]
    | _ => rfl
  | switch _ init tag body =>
    cases op with
    | switch wantInit wantTag =>
      apply partsIf_erase
      · cases init <;> cases tag <;> rfl
      · simp [spelled_erase, stmtSlot_erase, exprSlot_erase]
    | _ => rfl
  | typeSwitch _ init guard body =>
    cases op with
    | typeSwitch wantInit =>
      apply partsIf_erase
      · cases init <;> rfl
      · simp [spelled_erase, stmtSlot_erase]
    | _ => rfl
  | clause _ list body => cases list <;> exact partsIf_erase rfl rfl
  | loop _ init test post body =>
    cases op with
    | loop wantInit wantTest wantPost =>
      apply partsIf_erase
      · cases init <;> cases test <;> cases post <;> rfl
      · simp [spelled_erase, stmtSlot_erase, exprSlot_erase]
    | _ => rfl
  | range _ key value _ x body =>
    cases key with
    | none => exact partsIf_erase rfl rfl
    | some key => cases value <;> exact partsIf_erase rfl rfl

/-- A node without places has the parts of the node, without their places. -/
theorem parts?_erase (op : Op) (value : Nat) (text : String) (n : Node) :
    parts? op value text n.erase = (parts? op value text n).map (List.map Part.erase) := by
  cases n with
  | expr x => exact exprParts?_erase op value text x
  | stmt s => exact stmtParts?_erase op value text s
  | field f => exact fieldParts?_erase op text f
  | fields fs => exact partsIf_erase rfl rfl
  | exprs | stmts => rfl

end

section Search

variable {α : Type}

/-- A restart without places, where `e` forgets those of an element. -/
def Restart.erase (e : α → α) (r : Restart α) : Restart α :=
  ⟨r.name, r.window.map e, e r.next, r.left.map e, r.state.erase⟩

theorem pushRestart_erase (e : α → α) (name : Option String) (s : MatchState) (window todo : List α)
    (restarts : List (Restart α)) :
    pushRestart name s.erase (window.map e) (todo.map e) (restarts.map (Restart.erase e)) =
      (pushRestart name s window todo restarts).map (Restart.erase e) := by
  cases todo <;> rfl

variable (strings : List String) {list : List α → Node}
  {node : α → MatchState → Except Mismatch MatchState} (whole : Bool) {e : α → α}

/-- Searching among elements without places. -/
theorem search_erase (hlist : ∀ xs, list (xs.map e) = (list xs).erase)
    (hnode : ∀ x s, node (e x) s.erase = (node x s).map MatchState.erase) (s : MatchState)
    (todo : List α) (restarts : List (Restart α)) :
    search strings list node whole s.erase (todo.map e) (restarts.map (Restart.erase e)) =
      (search strings list node whole s todo restarts).map (Prod.map (List.map e) MatchState.erase) := by
  have hempty : list [] = (list []).erase := hlist []
  have hterm : ∀ {i code captures x}, node (e x) ⟨i :: code, captures.map Capture.erase⟩ =
      (node x ⟨i :: code, captures⟩).map MatchState.erase :=
    fun {i code captures x} => hnode x ⟨i :: code, captures⟩
  have hwindow : ∀ r : Restart α, r.window.map e ++ [e r.next] = (r.window ++ [r.next]).map e :=
    fun r => by simp
  revert s todo restarts
  refine (search.mutual_induct strings list node whole
    (fun s todo restarts =>
      search strings list node whole s.erase (todo.map e) (restarts.map (Restart.erase e)) =
        (search strings list node whole s todo restarts).map
          (Prod.map (List.map e) MatchState.erase))
    (fun restarts =>
      resume strings list node whole (restarts.map (Restart.erase e)) =
        (resume strings list node whole restarts).map (Prod.map (List.map e) MatchState.erase))
    ?_ ?_ ?_ ?_ ?_ ?_ ?_ ?_ ?_ ?_ ?_ ?_ ?_ ?_).1
  · intro todo restarts captures
    rw [search.eq_def, search.eq_def]
    rfl
  · intro todo restarts i code captures hop hdone
    simp only [MatchState.erase, search_close hop, List.isEmpty_map, if_pos hdone]
    rfl
  · intro todo restarts i code captures hop hdone ih
    simp only [MatchState.erase, search_close hop, List.isEmpty_map, if_neg hdone]
    exact ih
  · intro todo restarts i code captures named hop htext
    rw [search.eq_def, search.eq_def]
    simp only [MatchState.erase, hop, htext]
    rfl
  · intro todo restarts i code captures named hop text htext
    simp only [dite_eq_ite]
    intro captures' hbind ih
    rw [MatchState.erase, search_seq hop htext, search_seq hop htext]
    simp only [hbind]
    rw [hempty, bindOpt?_erase, hbind]
    rw [← pushRestart_erase] at ih
    exact ih
  · intro todo restarts i code captures named hop text htext
    simp only [dite_eq_ite]
    intro hbind ih
    rw [MatchState.erase, search_seq hop htext, search_seq hop htext]
    simp only [hbind]
    rw [hempty, bindOpt?_erase, hbind]
    rw [← pushRestart_erase] at ih
    exact ih
  · intro restarts i code captures hclose hseq ih
    rw [MatchState.erase, search_term hclose hseq, search_term hclose hseq]
    exact ih
  · intro restarts i code captures x xs s' hx hlength hclose hseq ih
    rw [MatchState.erase, search_term hclose hseq, search_term hclose hseq]
    simp only [List.map_cons, hterm, hx, Except.map, MatchState.erase, if_pos hlength]
    exact ih
  · intro restarts i code captures x xs s' hx hlength hclose hseq
    rw [MatchState.erase, search_term hclose hseq, search_term hclose hseq]
    simp only [List.map_cons, hterm, hx, Except.map, MatchState.erase, if_neg hlength]
  · intro restarts i code captures x xs hx hclose hseq ih
    rw [MatchState.erase, search_term hclose hseq, search_term hclose hseq]
    simp only [List.map_cons, hterm, hx]
    exact ih
  · intro restarts i code captures x xs hx hclose hseq
    rw [MatchState.erase, search_term hclose hseq, search_term hclose hseq]
    simp only [List.map_cons, hterm, hx]
    rfl
  · rw [List.map_nil, resume.eq_def]
    rfl
  · intro r restarts
    dsimp only
    intro captures' hbind ih
    rw [← pushRestart_erase] at ih
    rw [List.map_cons, resume.eq_def, resume.eq_def strings list node whole (r :: restarts)]
    simp only [Restart.erase, MatchState.erase, hwindow, hlist, bindOpt?_erase, hbind, Option.map_some]
    exact ih
  · intro r restarts
    dsimp only
    intro hbind ih
    rw [← pushRestart_erase] at ih
    rw [List.map_cons, resume.eq_def, resume.eq_def strings list node whole (r :: restarts)]
    simp only [Restart.erase, MatchState.erase, hwindow, hlist, bindOpt?_erase, hbind, Option.map_none]
    exact ih

end Search

section Match

variable (strings : List String) {node : Node → MatchState → Except Mismatch MatchState}
  (hnode : ∀ n s, node n.erase s.erase = (node n s).map MatchState.erase)

include hnode

theorem search_exprs_erase (whole : Bool) (s : MatchState) (xs : List Expr) :
    search strings .exprs (fun x => node (.expr x)) whole s.erase (Expr.eraseList xs) [] =
      (search strings .exprs (fun x => node (.expr x)) whole s xs []).map
        (Prod.map (List.map Expr.erase) MatchState.erase) := by
  rw [Expr.eraseList_eq_map]
  exact search_erase strings whole (fun xs => by simp [Node.erase]) (fun x => hnode (.expr x)) s xs []

theorem search_stmts_erase (whole : Bool) (s : MatchState) (ss : List Stmt) :
    search strings .stmts (fun x => node (.stmt x)) whole s.erase (Stmt.eraseList ss) [] =
      (search strings .stmts (fun x => node (.stmt x)) whole s ss []).map
        (Prod.map (List.map Stmt.erase) MatchState.erase) := by
  rw [Stmt.eraseList_eq_map]
  exact search_erase strings whole (fun xs => by simp [Node.erase]) (fun x => hnode (.stmt x)) s ss []

theorem search_fields_erase (whole : Bool) (s : MatchState) (fs : List Field) :
    search strings .fields (fun x => node (.field x)) whole s.erase (Field.eraseList fs) [] =
      (search strings .fields (fun x => node (.field x)) whole s fs []).map
        (Prod.map (List.map Field.erase) MatchState.erase) := by
  rw [Field.eraseList_eq_map]
  exact search_erase strings whole (fun xs => by simp [Node.erase]) (fun x => hnode (.field x)) s fs []

/-- Matching a part without places, if nodes are matched so. -/
theorem matchPart_erase (s : MatchState) (part : Part) :
    matchPart strings node s.erase part.erase = (matchPart strings node s part).map MatchState.erase := by
  cases part with
  | one n => exact hnode n s
  | run n =>
    cases n with
    | exprs xs =>
      have hsearch := search_exprs_erase strings hnode true s xs
      simp only [Part.erase, Node.erase, matchPart, hsearch]
      cases search strings .exprs (fun x => node (.expr x)) true s xs [] <;> rfl
    | stmts ss =>
      have hsearch := search_stmts_erase strings hnode true s ss
      simp only [Part.erase, Node.erase, matchPart, hsearch]
      cases search strings .stmts (fun x => node (.stmt x)) true s ss [] <;> rfl
    | fields fs =>
      have hsearch := search_fields_erase strings hnode true s fs
      simp only [Part.erase, Node.erase, matchPart, hsearch]
      cases search strings .fields (fun x => node (.field x)) true s fs [] <;> rfl
    | expr | stmt | field => rfl
  | absent n =>
    obtain ⟨_ | ⟨i, code⟩, captures⟩ := s
    · rfl
    · simp only [Part.erase, MatchState.erase, matchPart]
      split
      · rfl
      · rw [bindOpt?_erase]
        cases bindOpt? captures _ n <;> rfl
      · rfl

theorem foldParts_erase (parts : List Part) (s : MatchState) :
    (parts.map Part.erase).foldlM (matchPart strings node) s.erase =
      (parts.foldlM (matchPart strings node) s).map MatchState.erase := by
  induction parts generalizing s with
  | nil => rfl
  | cons part parts ih =>
    rw [List.map_cons, List.foldlM_cons, List.foldlM_cons, matchPart_erase strings hnode]
    cases matchPart strings node s part with
    | error e => rfl
    | ok s' => exact ih s'

end Match

section Match

variable (strings : List String)

/-- Matching a node without places. -/
theorem matchTerm_erase (fuel : Nat) (n : Node) (s : MatchState) :
    matchTerm strings fuel n.erase s.erase = (matchTerm strings fuel n s).map MatchState.erase := by
  induction fuel generalizing n s with
  | zero => rfl
  | succ fuel ih =>
    obtain ⟨_ | ⟨i, code⟩, captures⟩ := s
    · rfl
    · simp only [MatchState.erase, matchTerm]
      split
      · rfl
      · rw [bindOpt?_erase]
        cases bindOpt? captures _ n <;> rfl
      · rw [parts?_erase]
        cases parts? i.op i.value _ n with
        | none => rfl
        | some parts => exact foldParts_erase strings ih parts ⟨code, captures⟩

theorem taken_erase {α : Type} (e : α → α) (xs : List α) (r : Except Mismatch (List α × MatchState)) :
    matchRun.taken (xs.map e) (r.map (Prod.map (List.map e) MatchState.erase)) =
      (matchRun.taken xs r).map (Prod.map id MatchState.erase) := by
  cases r with
  | error _ => rfl
  | ok r => simp [matchRun.taken, Except.map]

theorem matchRun_erase (whole : Bool) (s : MatchState) (n : Node) :
    matchRun strings whole s.erase n.erase =
      (matchRun strings whole s n).map (Prod.map id MatchState.erase) := by
  have hterm := matchTerm_erase strings s.code.length
  cases n with
  | exprs xs =>
    rw [matchRun, ← taken_erase Expr.erase, ← Expr.eraseList_eq_map]
    exact congrArg (matchRun.taken (Expr.eraseList xs)) (search_exprs_erase strings hterm whole s xs)
  | stmts ss =>
    rw [matchRun, ← taken_erase Stmt.erase, ← Stmt.eraseList_eq_map]
    exact congrArg (matchRun.taken (Stmt.eraseList ss)) (search_stmts_erase strings hterm whole s ss)
  | fields fs =>
    rw [matchRun, ← taken_erase Field.erase, ← Field.eraseList_eq_map]
    exact congrArg (matchRun.taken (Field.eraseList fs)) (search_fields_erase strings hterm whole s fs)
  | expr | stmt | field => rfl

end Match

/-- A match with the places of its nodes forgotten. -/
def Match.erase (m : Match) : Match :=
  ⟨m.node.erase, m.window, m.captures.map Capture.erase⟩

variable (p : Pattern)

theorem isList_erase (n : Node) : n.erase.isList = n.isList := by
  cases n <;> rfl

theorem size_erase (n : Node) : n.erase.size = n.size := by
  cases n <;> simp [Node.erase, Node.size]

theorem isRootOf_erase (op : Op) (n : Node) : isRootOf op n.erase = isRootOf op n := by
  cases n <;> rfl

theorem sublist_erase (i j : Nat) (n : Node) : sublist i j n.erase = (sublist i j n).erase := by
  cases n <;> simp [Node.erase, sublist]

theorem matchNode_erase (n : Node) : p.matchNode n.erase = (p.matchNode n).map Match.erase := by
  unfold matchNode
  rw [isList_erase]
  cases p.insts with
  | nil => cases n.isList <;> rfl
  | cons root code =>
    dsimp only
    rw [isRootOf_erase]
    split
    · split
      · have hrun := matchRun_erase p.strings true ⟨code, []⟩ n
        rw [MatchState.erase, List.map_nil] at hrun
        rw [hrun]
        cases matchRun p.strings true ⟨code, []⟩ n <;> rfl
      · rfl
    · split
      · rfl
      · have hterm := matchTerm_erase p.strings (root :: code).length n p.start
        rw [show p.start.erase = p.start from rfl] at hterm
        rw [hterm]
        cases matchTerm p.strings (root :: code).length n p.start <;> rfl

theorem matchFrom_erase (n : Node) (i : Nat) :
    p.matchFrom n.erase i = (p.matchFrom n i).map Match.erase := by
  unfold matchFrom
  rw [size_erase]
  split
  · rfl
  · cases p.insts with
    | nil => rfl
    | cons root code =>
      dsimp only
      rw [isRootOf_erase]
      split
      · have hrun := matchRun_erase p.strings false ⟨code, []⟩ (sublist i n.size n)
        rw [MatchState.erase, List.map_nil] at hrun
        rw [sublist_erase, hrun]
        cases matchRun p.strings false ⟨code, []⟩ (sublist i n.size n) with
        | error e => rfl
        | ok r => simp [Except.map, Match.erase, sublist_erase, MatchState.erase]
      · rfl

theorem windowsFrom_erase (n : Node) (i : Nat) :
    p.windowsFrom n.erase i = (p.windowsFrom n i).map Match.erase := by
  fun_induction p.windowsFrom n i with
  | case1 i hi m hm ih =>
    have hfrom : p.matchFrom? n.erase i = some m.erase := by
      rw [matchFrom?, matchFrom_erase, except_toOption_map, ← matchFrom?, hm, Option.map_some]
    rw [windowsFrom, size_erase, if_pos hi, hfrom]
    exact congrArg _ ih
  | case2 i hi hm ih =>
    have hfrom : p.matchFrom? n.erase i = none := by
      rw [matchFrom?, matchFrom_erase, except_toOption_map, ← matchFrom?, hm, Option.map_none]
    rw [windowsFrom, size_erase, if_pos hi, hfrom]
    exact ih
  | case3 i hi => rw [windowsFrom, size_erase, if_neg hi, List.map_nil]

theorem matchesAt_erase (n : Node) : p.matchesAt n.erase = (p.matchesAt n).map Match.erase := by
  unfold matchesAt
  rw [isList_erase]
  split
  · split
    · exact p.windowsFrom_erase n 0
    · rfl
  · rw [matchNode?, matchNode_erase, except_toOption_map, ← matchNode?]
    cases p.matchNode? n <;> rfl

/-- The matches in a file without places are those in the file, without their places. -/
theorem findInFile_erase (file : File) :
    p.findInFile file.erase = (p.findInFile file).map Match.erase := by
  simp [findInFile, File.visits_erase, List.flatMap_map, List.map_flatMap, matchesAt_erase]

end GoSift.Pattern
