import GoSift.Proofs.Syntax.Erasure

/-!
Parsing without places: tokens and what is read from them with the places forgotten. How parameters are
grouped does not depend on where they stand.
-/
namespace GoSift

/-- A token with the default place. -/
def Token.erase (t : Token) : Token :=
  ⟨t.kind, default⟩

theorem Token.map_erase_eq {ts ts' : List Token} (h : ts.map kind = ts'.map kind) :
    ts.map erase = ts'.map erase := by
  have hkind : erase = (fun k => ⟨k, default⟩) ∘ kind := rfl
  rw [hkind, ← List.map_map, ← List.map_map, h]

namespace Nonterminal

/-- A nonterminal that goes on behind a tree without its places. -/
def erase : Nonterminal → Nonterminal
  | binaryTail least x => binaryTail least x.erase
  | primaryTail x => primaryTail x.erase
  | n => n

/-- What a nonterminal reads, with the places forgotten. -/
def eraseTree : (n : Nonterminal) → n.Tree → n.erase.Tree
  | binary _ | binaryTail _ _ | unary | primaryTail _ | type => Expr.erase
  | exprs | elements | names => Expr.eraseList
  | args => Prod.map Expr.eraseList id
  | params => List.map (Prod.map Expr.erase Expr.eraseOpt)
  | fields | methods => Field.eraseList
  | stmt => Stmt.erase
  | stmts | clauses => Stmt.eraseList
  | importSpecs | imports => id
  | funcs | decls => List.map Func.erase

end Nonterminal

def RangeClause.erase (c : RangeClause) : RangeClause :=
  ⟨default, Expr.eraseOpt c.key, Expr.eraseOpt c.value, c.define, c.x.erase⟩

def Simple.erase : Simple → Simple
  | stmt s => stmt s.erase
  | range clause => range clause.erase

def LoopHeader.erase : LoopHeader → LoopHeader
  | clauses init test post =>
    clauses (Stmt.eraseOpt init) (Expr.eraseOpt test) (Stmt.eraseOpt post)
  | range clause => range clause.erase

namespace Grammar

theorem groupParams_erase (close close' : Range) (names : List Expr)
    (entries : List (Expr × Option Expr)) :
    (groupParams close' (Expr.eraseList names)
        (entries.map (Prod.map Expr.erase Expr.eraseOpt))).toOption =
      (groupParams close names entries).toOption.map Field.eraseList := by
  induction entries generalizing names with
  | nil => cases names <;> rfl
  | cons entry entries ih =>
    obtain ⟨name, type⟩ := entry
    have happend : Expr.eraseList names ++ [name.erase] = Expr.eraseList (names ++ [name]) := by simp
    simp only [List.map_cons, Prod.map_apply, groupParams, Expr.identName?_erase,
      Expr.wildcard?_erase, happend]
    split
    · rfl
    · cases type with
      | none => exact ih (names ++ [name])
      | some type =>
        have hfirst : (Expr.eraseList (names ++ [name])).headD name.erase =
            ((names ++ [name]).headD name).erase := by
          cases names <;> rfl
        have hrest := ih []
        simp only [Expr.eraseOpt, hfirst, Expr.pos_erase]
        rw [Expr.eraseList] at hrest
        generalize groupParams close [] entries = r at hrest ⊢
        generalize groupParams close' [] (entries.map _) = r' at hrest ⊢
        cases r <;> cases r' <;> cases hrest <;> rfl

theorem paramFields_erase (close close' : Range) (entries : List (Expr × Option Expr)) :
    (paramFields close' (entries.map (Prod.map Expr.erase Expr.eraseOpt))).toOption =
      (paramFields close entries).toOption.map Field.eraseList := by
  have hany : (entries.map (Prod.map Expr.erase Expr.eraseOpt)).any (·.2.isSome) =
      entries.any (·.2.isSome) := by
    simp [List.any_map, Function.comp_def]
  unfold paramFields
  rw [hany]
  split
  · exact groupParams_erase close close' [] entries
  · simp [Except.toOption, Field.erase, Function.comp_def]

/-- Only a label is a label without its place. -/
theorem exists_of_eraseList_eq_label {lhs : List Expr} {pos : Position} {label : String}
    (h : Expr.eraseList lhs = [.ident pos label]) : ∃ pos', lhs = [.ident pos' label] := by
  rcases lhs with _ | ⟨x, _ | ⟨_, _⟩⟩
  · cases h
  · have hx : x.erase = .ident pos label := (List.cons.inj h).1
    cases x with
    | ident pos' name =>
      cases hx
      exact ⟨pos', rfl⟩
    | _ => cases hx
  · cases (List.cons.inj h).2

end Grammar

end GoSift
