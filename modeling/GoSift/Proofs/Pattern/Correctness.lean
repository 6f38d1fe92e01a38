import GoSift.Proofs.Outcome
import GoSift.Proofs.Pattern.Compiled
import GoSift.Proofs.Pattern.Ground
import Mathlib

/-!
What a pattern matches. A match gives an instance of the pattern with its captures for the names.
Where a choice for a run never has to be taken back, every instance is matched.
-/
namespace GoSift.Pattern

variable {src : String} {p : Pattern} {tree n : Node} {m : Match}

/-- The reading of captures allows no more than that of the match with them. -/
theorem captured_weaker (m : Match) (strict : Bool) :
    (captured m.captures).Weaker (.of strict m.get?) := by
  refine ⟨fun _ => rfl, fun name n ⟨c, hc, hn⟩ => ⟨c.node, ?_, hn⟩⟩
  rw [Match.get?, hc]
  rfl

theorem Encodes.covers (h : p.Encodes tree) (htree : tree.Regular)
    (hn : Node.Each Node.Keyed n.visits) (hm : p.matchNode n = .ok m) (strict : Bool) :
    tree.Covers (.of strict m.get?) n := by
  have hfit : (candidate? tree n).bind (fun part => (termOf tree).fit part []) =
      some m.captures := by
    rw [← h.matchNode_eq, matchNode?, hm]
    rfl
  obtain ⟨part, hpart, hfit⟩ := Option.bind_eq_some_iff.1 hfit
  obtain ⟨-, hfits⟩ := (termOf tree).sound part hfit
  have hread := hfits m.captures List.prefix_rfl
  exact (covers_iff htree hn).2 ⟨part, hpart, hread.mono (captured_weaker m strict)⟩

theorem Encodes.covers_iff_same {r : Reading} (h : p.Encodes tree)
    (hground : Node.Ground tree.visits) : tree.Covers r n ↔ tree.same n := by
  cases tree with
  | expr x =>
    have hx : x.wildcard? = none := hground.wildcard?_eq_none
    cases n with
    | expr y =>
      simp only [Node.Covers, hx]
      exact x.covers_iff_same r y hground
    | _ => simp [Node.Covers, Node.same, hx]
  | stmt s =>
    have hs : s.wildcard? = none := hground.stmtWildcard?_eq_none
    cases n with
    | stmt t =>
      simp only [Node.Covers, hs]
      exact s.covers_iff_same r t hground
    | _ => simp [Node.Covers, Node.same, hs]
  | exprs xs =>
    cases n with
    | exprs ys => exact Expr.coversList_iff_same r xs ys hground.exprs
    | _ => simp [Node.Covers, Node.same]
  | stmts ss =>
    cases n with
    | stmts ts => exact Stmt.coversList_iff_same r ss ts hground.stmts
    | _ => simp [Node.Covers, Node.same]
  | field | fields => cases h

/-- A node that a pattern matches is an instance of the pattern, with the captures of the match for
the names. -/
theorem instance_of_match (hp : compile src = .ok p) (hn : Node.Each Node.Keyed n.visits)
    (hm : p.matchNode n = .ok m) :
    ∃ tree, tree? src = some tree ∧ tree.Covers (.of false m.get?) n := by
  obtain ⟨tree, htree, hcode⟩ := exists_tree_of_compile hp
  exact ⟨tree, htree, hcode.covers (regular_of_tree? htree) hn hm false⟩

/-- The call `f(a, b, a)`. -/
def framed : Node :=
  .expr (.call default (.ident default "f")
    [.ident default "a", .ident default "b", .ident default "a"] false)

/-- The code of `f($x, $*_, $x)`. -/
def frame : Pattern :=
  ⟨[⟨.call (some false), 0, 0⟩, ⟨.ident, 0, 0⟩, ⟨.wildcard .single true, 0, 1⟩,
    ⟨.wildcard .seq false, 0, 0⟩, ⟨.wildcard .single true, 0, 1⟩, .closing], ["f", "x"]⟩

theorem framed_regular : framed.Regular := by
  simp [framed, Node.Regular, Node.visits, Expr.visits, Expr.listVisits, Expr.eachVisits,
    Node.Local]

/-- The code of `f($x, $*ys)`. -/
def headed : Pattern :=
  ⟨[⟨.call none, 0, 0⟩, ⟨.ident, 0, 0⟩, ⟨.wildcard .single true, 0, 1⟩,
    ⟨.wildcard .seq true, 0, 2⟩, .closing], ["f", "x", "ys"]⟩

theorem framed_compiled : compile "f($x, $*_, $x)" = .ok frame ∧
    compile "f($x, $*ys)" = .ok headed ∧
    (tree? "f($x, $*ys)").map Node.captureNames = some ["x", "ys"] :=
  ⟨except_toOption_eq_some.1 (by decide +kernel), except_toOption_eq_some.1 (by decide +kernel),
    by decide +kernel⟩

theorem framed_matches :
    frame.matchNode framed = .ok ⟨framed, none, [⟨"x", .expr (.ident default "a")⟩]⟩ ∧
      headed.matchNode framed = .ok ⟨framed, none, [⟨"x", .expr (.ident default "a")⟩,
        ⟨"ys", .exprs [.ident default "b", .ident default "a"]⟩]⟩ := by
  constructor <;> cbv

theorem framed_instance : ∃ m, compile "f($x, $*_, $x)" = .ok frame ∧
    frame.matchNode framed = .ok m ∧ m.get? "x" = some (.expr (.ident default "a")) ∧
    ∃ tree, tree? "f($x, $*_, $x)" = some tree ∧ tree.Covers (.of false m.get?) framed := by
  have hp := framed_compiled.1
  have hm := framed_matches.1
  exact ⟨_, hp, hm, rfl, instance_of_match hp framed_regular.keyed hm⟩

/-- The code of `for range $x {}`. -/
def ranging : Pattern :=
  ⟨[⟨.rangeAll, 0, 0⟩, ⟨.wildcard .single true, 0, 0⟩, ⟨.block, 0, 0⟩, .closing], ["x"]⟩

/-- A range clause with a value and `:=` that lacks its key. -/
def keyless : Stmt :=
  .range default none (some (.ident default "v")) true (.ident default "xs") (.block default [])

/-- The code of `func($*x int) {}`. -/
def naming : Pattern :=
  ⟨[⟨.funcLit, 0, 0⟩, ⟨.funcType false, 0, 0⟩, ⟨.fieldList, 0, 0⟩, ⟨.field, 0, 0⟩,
    ⟨.wildcard .single true, 0, 0⟩, ⟨.ident, 0, 1⟩, .closing, ⟨.block, 0, 0⟩, .closing], ["x", "int"]⟩

/-- A range clause without a key is matched whatever its value, and the only name of a field is no
list for a run. -/
theorem keyless_matched :
    (∃ tree m, compile "for range $x {}" = .ok ranging ∧ tree? "for range $x {}" = some tree ∧
      ranging.matchNode (.stmt keyless) = .ok m ∧
      ∀ strict a, ¬ tree.Covers (.of strict a) (.stmt keyless)) ∧
    ∃ x m, compile "func($*x int) {}" = .ok naming ∧
      Expr.parseList false "func(a int) {}" = .ok [x] ∧ naming.matchNode (.expr x) = .ok m ∧
      m.get? "x" = some (.expr (.ident ⟨1, 6⟩ "a")) := by
  constructor
  · refine ⟨.stmt (.range ⟨1, 1⟩ none none false (.wildcard ⟨1, 11⟩ "x" false) (.block ⟨1, 14⟩ [])),
      ⟨.stmt keyless, none, [⟨"x", .expr (.ident default "xs")⟩]⟩, by cbv, by cbv, by cbv, ?_⟩
    rintro strict a ⟨-, hvalue, -⟩
    cases hvalue
  · exact ⟨.funcLit ⟨1, 1⟩ [.mk ⟨1, 6⟩ [.ident ⟨1, 6⟩ "a"] (.ident ⟨1, 8⟩ "int")] []
      (.block ⟨1, 13⟩ []), _, by cbv, by cbv, by cbv, by rfl⟩

/-- The code of `func($*x, $*y int) {}`. -/
def counting : Pattern :=
  ⟨[⟨.funcLit, 0, 0⟩, ⟨.funcType false, 0, 0⟩, ⟨.fieldList, 0, 0⟩, ⟨.multiField, 0, 0⟩,
    ⟨.wildcard .seq true, 0, 0⟩, ⟨.wildcard .seq true, 0, 1⟩, .closing, ⟨.ident, 0, 2⟩, .closing,
    ⟨.block, 0, 0⟩, .closing], ["x", "y", "int"]⟩

/-- The literal `func(int) {}`. -/
def nameless : Expr :=
  .funcLit ⟨1, 1⟩ [.mk ⟨1, 6⟩ [] (.ident ⟨1, 6⟩ "int")] [] (.block ⟨1, 11⟩ [])

end GoSift.Pattern
