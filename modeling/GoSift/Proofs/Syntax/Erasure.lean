import GoSift.Proofs.Syntax.Addresses
import GoSift.Proofs.Syntax.Sameness
import GoSift.Syntax.Parse
import GoSift.Syntax.Visit

/-!
Forgetting places. Whatever is asked of a tree besides where it stands has the same answer once the
places are forgotten, and the nodes of the tree are visited in the same order.
-/
namespace GoSift

section

@[simp] theorem Expr.eraseOpt_eq_map (x : Option Expr) : Expr.eraseOpt x = x.map Expr.erase := by
  cases x <;> rfl

@[simp] theorem Expr.eraseList_eq_map (xs : List Expr) : Expr.eraseList xs = xs.map Expr.erase := by
  induction xs with
  | nil => rfl
  | cons x xs ih => rw [Expr.eraseList, ih, List.map_cons]

@[simp] theorem Expr.eraseListOpt_eq_map (xs : Option (List Expr)) :
    Expr.eraseListOpt xs = xs.map (List.map Expr.erase) := by
  cases xs <;> simp [Expr.eraseListOpt]

@[simp] theorem Field.eraseList_eq_map (fs : List Field) : Field.eraseList fs = fs.map Field.erase := by
  induction fs with
  | nil => rfl
  | cons f fs ih => rw [Field.eraseList, ih, List.map_cons]

@[simp] theorem Stmt.eraseOpt_eq_map (s : Option Stmt) : Stmt.eraseOpt s = s.map Stmt.erase := by
  cases s <;> rfl

@[simp] theorem Stmt.eraseList_eq_map (ss : List Stmt) : Stmt.eraseList ss = ss.map Stmt.erase := by
  induction ss with
  | nil => rfl
  | cons s ss ih => rw [Stmt.eraseList, ih, List.map_cons]

@[simp] theorem Expr.pos_erase (x : Expr) : x.erase.pos = default := by
  cases x <;> rfl

@[simp] theorem Stmt.pos_erase (s : Stmt) : s.erase.pos = default := by
  cases s <;> rfl

@[simp] theorem Field.pos_erase (f : Field) : f.erase.pos = default := by
  cases f
  rfl

@[simp] theorem Expr.ctorIdx_erase (x : Expr) : x.erase.ctorIdx = x.ctorIdx := by
  cases x <;> rfl

@[simp] theorem Stmt.ctorIdx_erase (s : Stmt) : s.erase.ctorIdx = s.ctorIdx := by
  cases s <;> rfl

@[simp] theorem Expr.atoms_erase (x : Expr) : x.erase.atoms = x.atoms := by
  cases x <;> simp [erase, atoms]

@[simp] theorem Stmt.atoms_erase (s : Stmt) : s.erase.atoms = s.atoms := by
  cases s with
  | clause _ list => cases list <;> simp [erase, atoms]
  | _ => simp [erase, atoms]

@[simp] theorem Expr.identName?_erase (x : Expr) : x.erase.identName? = x.identName? := by
  cases x <;> rfl

@[simp] theorem Expr.wildcard?_erase (x : Expr) : x.erase.wildcard? = x.wildcard? := by
  cases x <;> rfl

@[simp] theorem Expr.isTypeName_erase (x : Expr) : x.erase.isTypeName = x.isTypeName := by
  cases x with
  | selector _ x sel => cases x <;> rfl
  | _ => rfl

@[simp] theorem Expr.isLiteralType_erase (x : Expr) : x.erase.isLiteralType = x.isLiteralType := by
  cases x with
  | selector _ x sel => cases x <;> rfl
  | _ => rfl

@[simp] theorem Stmt.isTypeSwitchGuard_erase (s : Stmt) :
    s.erase.isTypeSwitchGuard = s.isTypeSwitchGuard := by
  cases s with
  | expr _ x =>
    cases x with
    | typeAssert _ _ type => cases type <;> rfl
    | _ => rfl
  | assign _ lhs op rhs =>
    cases op with
    | define =>
      rcases rhs with _ | ⟨x, rest⟩
      · rfl
      · cases x with
        | typeAssert _ _ type => cases type <;> cases rest <;> rfl
        | _ => rfl
    | _ => rfl
  | _ => rfl

end

/-- A function with every place set to the default. -/
def Func.erase (f : Func) : Func :=
  ⟨default, f.recv.map Field.erase, f.name, f.params.map Field.erase, f.results.map Field.erase,
    f.body.map Stmt.erase⟩

/-- A file with every place set to the default. -/
def File.erase (f : File) : File :=
  ⟨f.package, f.imports, f.funcs.map Func.erase⟩

theorem Func.same_iff (f g : Func) : f.same g ↔ f.erase = g.erase := by
  obtain ⟨_, recv, name, params, results, body⟩ := f
  obtain ⟨_, recv', name', params', results', body'⟩ := g
  cases recv <;> cases recv' <;>
    simp [same, erase, Field.same_iff, Field.sameList_iff, Stmt.sameOpt_iff, and_assoc]

theorem Func.sameList_iff (fs gs : List Func) :
    Func.sameList fs gs ↔ fs.map Func.erase = gs.map Func.erase := by
  induction fs generalizing gs with
  | nil => cases gs <;> simp [sameList]
  | cons f fs ih => cases gs <;> simp [sameList, Func.same_iff, ih]

theorem File.same_iff (f g : File) : f.same g ↔ f.erase = g.erase := by
  simp [same, erase, Func.sameList_iff, and_assoc]

namespace Node

@[simp] theorem optExprParts_erase (x : Option Expr) :
    Expr.optParts (x.map Expr.erase) = (Expr.optParts x).map erase := by
  cases x <;> rfl

@[simp] theorem exprListParts_erase (xs : List Expr) :
    Expr.listParts (xs.map Expr.erase) = (Expr.listParts xs).map erase := by
  cases xs <;> simp [Expr.listParts, erase]

@[simp] theorem fieldListParts_erase (fs : List Field) :
    Field.listParts (fs.map Field.erase) = (Field.listParts fs).map erase := by
  cases fs <;> simp [Field.listParts, erase]

@[simp] theorem optStmtParts_erase (s : Option Stmt) :
    Stmt.optParts (s.map Stmt.erase) = (Stmt.optParts s).map erase := by
  cases s <;> rfl

@[simp] theorem stmtListParts_erase (ss : List Stmt) :
    Stmt.listParts (ss.map Stmt.erase) = (Stmt.listParts ss).map erase := by
  cases ss <;> simp [Stmt.listParts, erase]

/-- The parts of a node without places are its parts, without their places. -/
theorem parts_erase (n : Node) : n.erase.parts = n.parts.map erase := by
  cases n with
  | expr x => cases x <;> simp [erase, parts, Expr.erase, Expr.parts]
  | stmt s =>
    cases s with
    | clause _ list =>
      cases list with
      | none => simp [erase, parts, Stmt.erase, Stmt.parts, Expr.listParts]
      | some xs => simp [erase, parts, Stmt.erase, Stmt.parts]
    | _ => simp [erase, parts, Stmt.erase, Stmt.parts]
  | field f => cases f; simp [erase, parts, Field.erase, Field.parts, Field.names, Field.type]
  | exprs | stmts | fields => simp [erase, parts]

@[simp] theorem size_erase (n : Node) : n.erase.size = n.size := by
  cases n <;> simp [erase, size]

theorem label_erase_erase (n : Node) : n.erase.erase.label = n.erase.label := by
  cases n <;> simp [erase, label]

@[simp] theorem erase_erase (n : Node) : n.erase.erase = n.erase := by
  induction n using parts_induction with
  | step n ih =>
    refine eq_of_parts n.label_erase_erase ?_
    rw [parts_erase, parts_erase, List.map_map]
    exact List.map_congr_left ih

/-- Sameness does not look at places. -/
theorem same_erase (n m : Node) : n.erase.same m.erase = n.same m := by
  rw [Bool.eq_iff_iff, Node.same_iff, Node.same_iff, erase_erase, erase_erase]

theorem visits_eq_nil {n : Node} (h : n.size = 0) : n.visits = [] := by
  cases n with
  | exprs xs | stmts xs | fields xs =>
    cases xs with
    | nil => rfl
    | cons => cases h
  | _ => cases h

theorem visits_erase (n : Node) : n.erase.visits = n.visits.map erase := by
  induction n using parts_induction with
  | step n ih =>
    by_cases h : n.Solid
    · have h' : n.erase.size ≠ 0 := n.size_erase ▸ h
      rw [visits_eq h, visits_eq h', parts_erase, List.map_cons, List.flatMap_map, List.map_flatMap]
      exact congrArg (n.erase :: ·) (List.flatMap_congr ih)
    · obtain hsize : n.size = 0 := not_not.mp h
      rw [visits_eq_nil hsize, visits_eq_nil (n.size_erase.trans hsize)]
      rfl

end Node

theorem Func.parts_erase (f : Func) : f.erase.parts = f.parts.map Node.erase := by
  obtain ⟨_, recv, name, params, results, body⟩ := f
  cases recv <;> simp [erase, parts, Node.erase]

/-- The nodes of a file without places are those of the file, without their places. -/
theorem File.visits_erase (f : File) : f.erase.visits = f.visits.map Node.erase := by
  simp only [File.visits_eq, parts, erase, List.flatMap_assoc, List.flatMap_map, List.map_flatMap,
    Func.parts_erase, Node.visits_erase]

end GoSift
