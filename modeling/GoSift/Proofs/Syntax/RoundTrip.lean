import GoSift.Proofs.Syntax.Erasure
import GoSift.Proofs.Syntax.Rules

/-!
Printing and parsing. The parser takes the tokens of a legible tree for the tree they were printed from,
so a printed expression is read back as the same expression.
-/
namespace GoSift

open Token GoSift.Parser

/-- Whether a token begins a tree in the given place. -/
def Place.starts : Place → Kind → Bool
  | .value, k | .element, k => k.startsExpr || k == .symbol .lBrace
  | _, k => k.startsExpr

theorem Place.starts_of_startsExpr {k : Kind} (h : k.startsExpr) (place : Place) : place.starts k := by
  cases place <;> simp [Place.starts, h]

theorem Expr.Legible.head?_kinds {place : Place} {x : Expr} (h : Legible place x) :
    ∃ k ∈ x.kinds.head?, place.starts k := by
  induction h with
  | ident | lit | paren | star | elided => exact ⟨_, rfl, rfl⟩
  | @unary _ op => exact ⟨_, rfl, by cases op <;> rfl⟩
  | ofPrimary _ ih | ofOperand _ ih | ofValue _ ih => exact ih
  | ofExpr _ ih =>
    obtain ⟨k, hk, hstart⟩ := ih
    exact ⟨k, hk, Place.starts_of_startsExpr hstart .value⟩
  | selector _ _ _ ih | index _ _ ih | slice _ _ _ ih | fullSlice _ _ _ _ ih | call _ _ _ ih
  | typeAssert _ _ _ _ ih | typeSwitch _ _ ih | composite _ _ _ ih | binary _ _ _ _ ih
  | keyValue _ _ ih =>
    obtain ⟨k, hk, hstart⟩ := ih
    exact ⟨k, by simp [Expr.kinds, Expr.optKinds, List.head?_append, Option.mem_def.mp hk], hstart⟩

open Grammar

/-- How the grammar reads a tree in its place, in front of any token that does not go on with it. Behind
an operand or an expression it goes on with what may still follow. -/
def Expr.ReadIn (x : Expr) : Place → Prop
  | .primary => ∀ (depth : Nat) (c : Kind) (rest : List Kind) (Q : Expr → List Kind → Prop),
    (x.kinds ++ c :: rest).length ≤ depth →
    (∀ y depth, y.same x → (c :: rest).length ≤ depth →
      Reads (bounded depth (.primaryTail y)) (c :: rest) Q) →
    Reads (bounded depth .unary) (x.kinds ++ c :: rest) Q
  | .operand => ∀ (depth : Nat) (c : Kind) (rest : List Kind),
    (x.kinds ++ c :: rest).length ≤ depth → c.continuesPrimary = false →
    Reads (bounded depth .unary) (x.kinds ++ c :: rest) fun y left => y.same x ∧ left = c :: rest
  | .expr => ∀ (depth least : Nat) (c : Kind) (rest : List Kind) (Q : Expr → List Kind → Prop),
    (x.kinds ++ c :: rest).length ≤ depth → c.continuesPrimary = false → least ≤ x.tightness →
    (∀ op ∈ c.binaryOp?, op.precedence ≤ x.tightness) →
    (∀ y depth, y.same x → (c :: rest).length ≤ depth →
      Reads (bounded depth (.binaryTail least y)) (c :: rest) Q) →
    Reads (bounded depth (.binary least)) (x.kinds ++ c :: rest) Q
  | .value => ∀ (depth : Nat) (c : Kind) (rest : List Kind),
    (x.kinds ++ c :: rest).length ≤ depth + 1 → c.endsExpr →
    Reads (elementValue (bounded depth)) (x.kinds ++ c :: rest) fun y left =>
      y.same x ∧ left = c :: rest
  | .element => ∀ (depth : Nat) (c : Kind) (rest : List Kind),
    (x.kinds ++ c :: rest).length ≤ depth + 1 → c.endsExpr → c ≠ .symbol .colon →
    Reads (element (bounded depth)) (x.kinds ++ c :: rest) fun y left => y.same x ∧ left = c :: rest

/-- A whole expression that is read back in front of a token that ends it. -/
structure Expr.ReadBack (x : Expr) : Prop where
  starts : ∃ k ∈ x.kinds.head?, k.startsExpr
  reads : ∀ {depth : Nat} {c : Kind} {rest : List Kind}, (x.kinds ++ c :: rest).length ≤ depth →
    c.endsExpr → Reads (bounded depth (.binary 1)) (x.kinds ++ c :: rest) fun y left =>
      y.same x ∧ left = c :: rest

theorem Expr.ReadBack.exists_cons {x : Expr} (h : x.ReadBack) :
    ∃ k ks, x.kinds = k :: ks ∧ k.startsExpr := by
  obtain ⟨k, hhead, hk⟩ := h.starts
  obtain ⟨ks, hks⟩ := List.head?_eq_some_iff.mp hhead
  exact ⟨k, ks, hks, hk⟩

theorem Expr.ReadIn.readBack {x : Expr} (h : x.ReadIn .expr)
    (hstart : ∃ k ∈ x.kinds.head?, k.startsExpr) : x.ReadBack where
  starts := hstart
  reads {depth c rest} hdepth hc := by
    simp only [Kind.endsExpr, Bool.and_eq_true, Bool.not_eq_true', Option.isNone_iff_eq_none] at hc
    have htight : 1 ≤ x.tightness := by
      unfold Expr.tightness
      split
      · next op _ _ => cases op <;> decide
      · decide
    have hnone : ∀ {P : BinaryOp → Prop}, ∀ op ∈ c.binaryOp?, P op := by
      rw [hc.2]
      exact nofun
    refine h depth 1 c rest _ hdepth hc.1 htight hnone fun y depth hy hdepth => ?_
    refine reads_bounded hdepth fun _ _ => ?_
    exact reads_binaryTail_end hnone ⟨hy, rfl⟩

namespace Grammar

variable {g : Grammar} {x : Expr} {c : Kind} {ks rest : List Kind} {depth : Nat}
  {Q : Expr → List Kind → Prop}

theorem reads_lowBound (low : Option Expr) (hlow : ∀ y ∈ low, y.ReadBack)
    (hc : c = .symbol .colon ∨ c = .symbol .rBracket) (hnone : low = none → c = .symbol .colon)
    (hdepth : (Expr.optKinds low ++ c :: rest).length ≤ depth) :
    Reads (lowBound (bounded depth)) (Expr.optKinds low ++ c :: rest) fun low' left =>
      Expr.sameOpt low' low ∧ left = c :: rest := by
  cases low with
  | none =>
    refine .bind (.kind ?_)
    rw [if_pos (hnone rfl)]
    exact .pure ⟨rfl, rfl⟩
  | some y =>
    have hends : c.endsExpr := by rcases hc with rfl | rfl <;> rfl
    have hy := hlow y rfl
    obtain ⟨k, ks, hks, hk⟩ := hy.exists_cons
    have hread := hy.reads hdepth hends
    rw [Expr.optKinds, hks] at *
    refine .bind (.kind ?_)
    rw [if_neg (by rintro rfl; cases hk)]
    exact .map hread

theorem reads_sliceBound (bound : Option Expr) (hbound : ∀ y ∈ bound, y.ReadBack)
    (hc : c = .symbol .colon ∨ c = .symbol .rBracket)
    (hdepth : (Expr.optKinds bound ++ c :: rest).length ≤ depth) :
    Reads (sliceBound (bounded depth)) (Expr.optKinds bound ++ c :: rest) fun bound' left =>
      Expr.sameOpt bound' bound ∧ left = c :: rest := by
  cases bound with
  | none =>
    refine .bind (.kind ?_)
    rw [if_pos (by rcases hc with rfl | rfl <;> rfl)]
    exact .pure ⟨rfl, rfl⟩
  | some y =>
    have hends : c.endsExpr := by rcases hc with rfl | rfl <;> rfl
    have hy := hbound y rfl
    obtain ⟨k, ks, hks, hk⟩ := hy.exists_cons
    have hread := hy.reads hdepth hends
    rw [Expr.optKinds, hks] at *
    have hne : k ≠ .symbol .colon ∧ k ≠ .symbol .rBracket := by
      constructor <;> rintro rfl <;> cases hk
    refine .bind (.kind ?_)
    rw [if_neg (by simp [hne])]
    exact .map hread

theorem reads_sliced_index {i : Expr} (h : Q (.index x.pos x i) ks) :
    Reads (sliced g x (some i)) (.symbol .rBracket :: ks) Q := by
  refine .bind (.bind (.eat_other (by simp) ?_))
  exact .pure (.bind (.expect (by simp) fun _ _ => .pure h))

theorem reads_sliced_two {low : Option Expr}
    (h : Reads (sliceBound g) ks fun high left => ∃ ks, left = .symbol .rBracket :: ks
      ∧ Q (.slice x.pos x low high none false) ks) :
    Reads (sliced g x low) (.symbol .colon :: ks) Q := by
  refine .bind (.bind (.eat (by simp) (.bind (h.mono ?_))))
  rintro high _ ⟨ks, rfl, hQ⟩
  refine .bind (.eat_other (by simp) (.pure ?_))
  refine .bind (.expect (by simp) fun _ _ => ?_)
  cases low <;> exact .pure hQ

theorem reads_sliced_three {low : Option Expr}
    (h : Reads (sliceBound g) ks fun high left => ∃ high' ks, high = some high'
      ∧ left = .symbol .colon :: ks ∧ Reads (sliceBound g) ks fun max left => ∃ max' ks,
        max = some max' ∧ left = .symbol .rBracket :: ks ∧ Q (.slice x.pos x low high max true) ks) :
    Reads (sliced g x low) (.symbol .colon :: ks) Q := by
  refine .bind (.bind (.eat (by simp) (.bind (h.mono ?_))))
  rintro _ _ ⟨high, ks, rfl, rfl, hmax⟩
  refine .bind (.eat (by simp) (.bind (hmax.mono ?_)))
  rintro _ _ ⟨max, ks, rfl, rfl, hQ⟩
  refine .pure (.bind (.expect (by simp) fun _ _ => ?_))
  cases low <;> exact .pure hQ

/-- What stands behind an argument of a call. -/
def argsTail (g : Grammar) (x : Expr) : Parser (List Expr × Bool) := do
  let spread ← eatSymbol .ellipsis
  if ← eatSymbol .comma then
    let (xs, later) ← g .args
    return (x :: xs, spread || later)
  else
    return ([x], spread)

theorem reads_args_cons (hx : x.ReadBack) (hc : c.endsExpr)
    (hdepth : (x.kinds ++ c :: rest).length ≤ depth) {Q : List Expr × Bool → List Kind → Prop}
    (h : ∀ y depth, y.same x → rest.length ≤ depth → Reads (argsTail (bounded depth) y) (c :: rest) Q) :
    Reads (bounded depth .args) (x.kinds ++ c :: rest) Q := by
  refine reads_bounded hdepth fun depth hdepth => ?_
  obtain ⟨k, ks, hks, hk⟩ := hx.exists_cons
  have hread : Reads (binaryExpr (bounded depth) 1) _ _ := hx.reads hdepth hc
  rw [hks, List.cons_append] at *
  refine .bind (.kind ?_)
  rw [if_neg (by rintro rfl; cases hk)]
  refine .bind (hread.mono ?_)
  rintro y _ ⟨hy, rfl⟩
  refine h y depth hy ?_
  simp only [List.length_cons, List.length_append] at hdepth
  omega

/-- The arguments of a call, up to the closing bracket. -/
theorem reads_args {args : List Expr} {spread : Bool} (hargs : ∀ x ∈ args, x.ReadBack)
    (hspread : spread → args ≠ [])
    (hdepth : (Expr.listKinds args ++ (spreadKinds spread ++ .symbol .rParen :: rest)).length ≤ depth) :
    Reads (bounded depth .args) (Expr.listKinds args ++ (spreadKinds spread ++ .symbol .rParen :: rest))
      fun list left => Expr.sameList list.1 args ∧ list.2 = spread ∧ left = .symbol .rParen :: rest := by
  induction args generalizing depth with
  | nil =>
    obtain rfl : spread = false := by
      cases spread
      · rfl
      · exact absurd rfl (hspread rfl)
    refine reads_bounded hdepth fun depth _ => .bind (.kind ?_)
    exact .pure ⟨rfl, rfl, rfl⟩
  | cons x xs ih =>
    obtain ⟨hx, hxs⟩ := List.forall_mem_cons.mp hargs
    rw [Expr.listKinds, List.append_assoc] at hdepth ⊢
    cases xs with
    | nil =>
      cases spread with
      | false =>
        refine reads_args_cons hx rfl hdepth fun y _ hy _ => ?_
        refine .bind (.eat_other (by simp) (.bind (.eat_other (by simp) ?_)))
        exact .pure ⟨by simp [Expr.sameList, hy], rfl, rfl⟩
      | true =>
        refine reads_args_cons hx rfl hdepth fun y _ hy _ => ?_
        refine .bind (.eat (by simp) (.bind (.eat_other (by simp) ?_)))
        exact .pure ⟨by simp [Expr.sameList, hy], rfl, rfl⟩
    | cons z zs =>
      refine reads_args_cons hx rfl hdepth fun y depth hy hdepth => ?_
      refine .bind (.eat_other (by simp) (.bind (.eat (by simp) (.bind ?_))))
      refine (ih hxs (fun _ => List.cons_ne_nil z zs) hdepth).mono ?_
      rintro ⟨ys, later⟩ _ ⟨hys, rfl, rfl⟩
      refine .pure ⟨?_, rfl, rfl⟩
      rw [Expr.sameList, hy]
      exact hys

/-- What stands behind an element of a composite literal. -/
def elementsTail (g : Grammar) (elt : Expr) : Parser (List Expr) := do
  if ← eatSymbol .comma then
    return elt :: (← g .elements)
  else
    return [elt]

theorem reads_elements_cons (hx : x.ReadIn .element)
    (hstart : ∃ k ∈ x.kinds.head?, Place.element.starts k)
    (hc : c = .symbol .comma ∨ c = .symbol .rBrace)
    (hdepth : (x.kinds ++ c :: rest).length ≤ depth) {Q : List Expr → List Kind → Prop}
    (h : ∀ y depth, y.same x → rest.length ≤ depth →
      Reads (elementsTail (bounded depth) y) (c :: rest) Q) :
    Reads (bounded depth .elements) (x.kinds ++ c :: rest) Q := by
  refine reads_bounded hdepth fun depth hdepth => ?_
  have hends : c.endsExpr ∧ c ≠ .symbol .colon := by
    rcases hc with rfl | rfl <;> exact ⟨rfl, nofun⟩
  have hread := hx depth c rest hdepth hends.1 hends.2
  obtain ⟨k, hhead, hk⟩ := hstart
  obtain ⟨ks, hks⟩ := List.head?_eq_some_iff.mp hhead
  rw [hks, List.cons_append] at hread hdepth ⊢
  rw [step, elements_eq]
  refine .bind (.kind ?_)
  rw [if_neg (by rintro rfl; cases hk)]
  refine .bind (hread.mono ?_)
  rintro y _ ⟨hy, rfl⟩
  refine h y depth hy ?_
  simp only [List.length_cons, List.length_append] at hdepth
  omega

/-- The elements of a composite literal, up to the closing brace. -/
theorem reads_elements {elts : List Expr} (helts : ∀ x ∈ elts, x.ReadIn .element)
    (hstart : ∀ x ∈ elts, ∃ k ∈ x.kinds.head?, Place.element.starts k)
    (hdepth : (Expr.listKinds elts ++ .symbol .rBrace :: rest).length ≤ depth) :
    Reads (bounded depth .elements) (Expr.listKinds elts ++ .symbol .rBrace :: rest)
      fun ys left => Expr.sameList ys elts ∧ left = .symbol .rBrace :: rest := by
  induction elts generalizing depth with
  | nil =>
    refine reads_bounded hdepth fun depth _ => .bind (.kind ?_)
    exact .pure ⟨rfl, rfl⟩
  | cons x xs ih =>
    obtain ⟨hx, hxs⟩ := List.forall_mem_cons.mp helts
    obtain ⟨hk, hks⟩ := List.forall_mem_cons.mp hstart
    rw [Expr.listKinds, List.append_assoc] at hdepth ⊢
    cases xs with
    | nil =>
      refine reads_elements_cons hx hk (.inr rfl) hdepth fun y _ hy _ => ?_
      refine .bind (.eat_other (by simp) ?_)
      exact .pure ⟨by simp [Expr.sameList, hy], rfl⟩
    | cons z zs =>
      refine reads_elements_cons hx hk (.inl rfl) hdepth fun y depth hy hdepth => ?_
      refine .bind (.eat (by simp) (.bind ?_))
      refine (ih hxs hks hdepth).mono ?_
      rintro ys _ ⟨hys, rfl⟩
      refine .pure ⟨?_, rfl⟩
      rw [Expr.sameList, hy]
      exact hys

/-- A composite literal at its opening brace. -/
theorem reads_composite_legible {elts : List Expr} {type : Option Expr}
    (helts : ∀ x ∈ elts, x.ReadIn .element)
    (hstart : ∀ x ∈ elts, ∃ k ∈ x.kinds.head?, Place.element.starts k)
    (hdepth : (Expr.listKinds elts ++ .symbol .rBrace :: rest).length ≤ depth)
    (h : ∀ pos ys, Expr.sameList ys elts → Q (.composite pos type ys) rest) :
    Reads (composite (bounded depth) type)
      (.symbol .lBrace :: (Expr.listKinds elts ++ .symbol .rBrace :: rest)) Q := by
  refine reads_composite ((reads_elements helts hstart hdepth).mono ?_)
  rintro ys _ ⟨hys, rfl⟩
  exact .expect (by simp) fun _ _ pos => h pos ys hys

/-- The name of a type in brackets. -/
theorem reads_type (hx : Expr.Legible .primary x) (hname : x.isTypeName) (hrest : rest ≠ [])
    (hdepth : (x.kinds ++ .symbol .rParen :: rest).length ≤ depth) :
    Reads (bounded depth .type) (x.kinds ++ .symbol .rParen :: rest) fun y left =>
      y.same x ∧ left = .symbol .rParen :: rest := by
  refine reads_bounded hdepth fun depth _ => ?_
  obtain ⟨c, rest, rfl⟩ := List.exists_cons_of_ne_nil hrest
  cases x with
  | ident pos name =>
    refine .bind (.current fun t ht => ?_)
    simp only [ht]
    refine .bind (.name fun pos => .bind (.kind (.bind (.secondKind ?_))))
    exact .pure ⟨by simp [Expr.same], rfl⟩
  | selector pos x sel =>
    cases x with
    | ident pos' package =>
      cases hx with
      | selector _ _ _ =>
        refine .bind (.current fun t ht => ?_)
        simp only [ht]
        refine .bind (.name fun pos => .bind (.kind (.bind (.secondKind ?_))))
        refine .bind (.advance (by simp) fun _ _ => ?_)
        exact .bind (.name fun _ => .pure ⟨by simp [Expr.same], rfl⟩)
    | _ => cases hname
  | wildcard => cases hx
  | _ => cases hname

end Grammar

namespace Expr.Legible

variable {x y : Expr} {c : Kind} {rest : List Kind} {depth : Nat} {Q : Expr → List Kind → Prop}

/-- A tree that goes on behind an operand is read if its tail is. -/
theorem readIn_tail {k : Kind} {ks : List Kind} (hkinds : y.kinds = x.kinds ++ k :: ks)
    (hx : x.ReadIn .primary)
    (htail : ∀ {x' depth c rest Q}, x'.same x → (ks ++ c :: rest).length ≤ depth →
      (∀ z, z.same y → Reads (bounded depth (.primaryTail z)) (c :: rest) Q) →
      Reads (primaryTail (bounded depth) x') (k :: (ks ++ c :: rest)) Q) : y.ReadIn .primary := by
  intro depth c rest Q hdepth hQ
  rw [hkinds, List.append_assoc, List.cons_append] at hdepth ⊢
  refine hx depth _ _ Q hdepth fun x' depth hx' hdepth => ?_
  refine reads_bounded hdepth fun depth hdepth => ?_
  refine htail hx' (Nat.le_of_succ_le_succ hdepth) fun z hz => hQ z depth hz ?_
  simp only [List.length_cons, List.length_append] at hdepth ⊢
  omega

theorem readIn_ident {pos : Position} {name : String} : (Expr.ident pos name).ReadIn .primary := by
  intro depth c rest Q hdepth hQ
  refine reads_bounded hdepth fun depth hdepth => ?_
  refine reads_unaryExpr_operand nofun (reads_operand_ident fun pos => ?_)
  exact hQ _ (depth + 1) (by simp [Expr.same]) (Nat.le_of_succ_le hdepth)

theorem readIn_lit {pos : Position} {kind : LitKind} {text : String} :
    (Expr.lit pos kind text).ReadIn .primary := by
  intro depth c rest Q hdepth hQ
  refine reads_bounded hdepth fun depth hdepth => ?_
  refine reads_unaryExpr_operand nofun (reads_operand_lit fun pos => ?_)
  exact hQ _ (depth + 1) (by simp [Expr.same]) (Nat.le_of_succ_le hdepth)

theorem readIn_selector {pos pos' : Position} {name : String} (hx : x.ReadIn .primary) :
    (Expr.selector pos x (.ident pos' name)).ReadIn .primary := by
  refine readIn_tail rfl hx fun hx' _ hQ => reads_primaryTail_name fun pos => ?_
  exact hQ _ (by simp [Expr.same, hx'])

/-- An operand that nothing goes on with. -/
theorem readIn_operand (hx : x.ReadIn .primary) : x.ReadIn .operand := by
  intro depth c rest hdepth hc
  refine hx depth c rest _ hdepth fun y depth hy hdepth => ?_
  refine reads_bounded hdepth fun depth _ => ?_
  exact reads_primaryTail_end hc ⟨hy, rfl⟩

theorem readIn_star {pos : Position} (hx : x.ReadIn .operand) : (Expr.star pos x).ReadIn .operand := by
  intro depth c rest hdepth hc
  refine reads_bounded hdepth fun depth hdepth => ?_
  refine reads_unaryExpr_star fun pos => ?_
  refine (hx depth c rest (Nat.le_of_succ_le_succ hdepth) hc).mono fun y left h => ?_
  exact ⟨by simpa [Expr.same] using h.1, h.2⟩

theorem readIn_unary {pos : Position} {op : UnaryOp} (hx : x.ReadIn .operand)
    (hstart : ∃ k ∈ x.kinds.head?, k.startsExpr) : (Expr.unary pos op x).ReadIn .operand := by
  intro depth c rest hdepth hc
  obtain ⟨k, hhead, hk⟩ := hstart
  obtain ⟨ks, hks⟩ := List.head?_eq_some_iff.mp hhead
  have hchan : k ≠ .keyword .chan := by
    rintro rfl
    cases hk
  refine reads_bounded hdepth fun depth hdepth => ?_
  have hread := hx depth c rest (Nat.le_of_succ_le_succ hdepth) hc
  rw [Expr.kinds, List.cons_append, hks] at *
  refine reads_unaryExpr_op hchan fun pos => hread.mono fun y left h => ?_
  exact ⟨by simpa [Expr.same] using h.1, h.2⟩

theorem readIn_expr (hx : x.ReadIn .operand) : x.ReadIn .expr := by
  intro depth least c rest Q hdepth hc _ _ hQ
  refine reads_bounded hdepth fun depth hdepth => .bind ?_
  refine Reads.mono (hx (depth + 1) c rest hdepth hc) ?_
  rintro y _ ⟨hy, rfl⟩
  refine hQ y (depth + 1) hy ?_
  rw [List.length_append] at hdepth
  omega

theorem readIn_binary {pos : Position} {op : BinaryOp} (hx : x.ReadIn .expr) (hy : y.ReadIn .expr)
    (hleft : op.precedence ≤ x.tightness) (hright : op.precedence < y.tightness) :
    (Expr.binary pos op x y).ReadIn .expr := by
  intro depth least c rest Q hdepth hc hleast hop hQ
  simp only [Expr.kinds, List.append_assoc, List.cons_append] at hdepth ⊢
  have hcontinues : (Kind.symbol op.symbol).continuesPrimary = false := by cases op <;> rfl
  have hself : (Kind.symbol op.symbol).binaryOp? = some op := op.ofSymbol?_symbol
  refine hx depth least _ _ Q hdepth hcontinues (Nat.le_trans hleast hleft) ?_
    fun x' depth hx' hdepth => ?_
  · rw [hself]
    rintro _ ⟨⟩
    exact hleft
  · -- the right operand ends in front of `c`, which binds no more tightly than `op`
    refine reads_bounded hdepth fun depth hdepth => ?_
    refine reads_binaryTail_op hleast ?_
    refine hy depth _ c rest _ (Nat.le_of_succ_le_succ hdepth) hc hright
      (fun op' h => Nat.le_trans (hop op' h) (Nat.le_of_lt hright)) fun y' depth' hy' hdepth' => ?_
    refine reads_bounded hdepth' fun _ _ => ?_
    refine reads_binaryTail_end (fun op' h => Nat.lt_succ_of_le (hop op' h)) ?_
    refine hQ _ depth (by simp [Expr.same, hx', hy']) ?_
    simp only [List.length_cons, List.length_append] at hdepth ⊢
    omega

theorem readIn_paren {pos : Position} (hx : x.ReadBack) : (Expr.paren pos x).ReadIn .primary := by
  intro depth c rest Q hdepth hQ
  simp only [Expr.kinds, List.append_assoc, List.cons_append, List.nil_append] at hdepth ⊢
  refine reads_bounded hdepth fun depth hdepth => ?_
  refine reads_unaryExpr_operand (by rintro _ ⟨⟩; exact ⟨by decide, rfl⟩) ?_
  refine reads_operand_paren fun pos => ?_
  refine (hx.reads (Nat.le_of_succ_le_succ hdepth) rfl).mono ?_
  rintro y _ ⟨hy, rfl⟩
  refine .expect (by simp) fun _ _ => ?_
  refine hQ _ (depth + 1) (by simp [Expr.same, hy]) ?_
  simp only [List.length_cons, List.length_append] at hdepth ⊢
  omega

theorem readIn_index {pos : Position} (hx : x.ReadIn .primary) (hy : y.ReadBack) :
    (Expr.index pos x y).ReadIn .primary := by
  refine readIn_tail rfl hx fun hx' hdepth hQ => ?_
  rw [List.append_assoc] at hdepth ⊢
  refine reads_primaryTail_bracket ?_
  have hys : ∀ z ∈ some y, z.ReadBack := by
    rintro _ ⟨⟩
    exact hy
  rw [indexOrSlice_eq]
  refine .bind ((reads_lowBound (some y) hys (.inr rfl) (by rintro ⟨⟩) hdepth).mono ?_)
  rintro (_ | y') _ ⟨hy', rfl⟩
  · cases hy'
  · refine reads_sliced_index (hQ _ ?_)
    simp [Expr.same, hx', show y'.same y from hy']

theorem readIn_slice {pos : Position} {low high : Option Expr} (hx : x.ReadIn .primary)
    (hlow : ∀ y ∈ low, y.ReadBack) (hhigh : ∀ y ∈ high, y.ReadBack) :
    (Expr.slice pos x low high none false).ReadIn .primary := by
  refine readIn_tail rfl hx fun {x' depth c rest Q} hx' hdepth hQ => ?_
  simp only [List.append_assoc, List.cons_append, List.nil_append, Bool.false_eq_true, if_false]
    at hdepth ⊢
  have hlen : (Expr.optKinds high ++ .symbol .rBracket :: c :: rest).length ≤ depth := by
    simp only [List.length_cons, List.length_append] at hdepth ⊢
    omega
  refine reads_primaryTail_bracket ?_
  rw [indexOrSlice_eq]
  refine .bind ((reads_lowBound low hlow (.inl rfl) (fun _ => rfl) hdepth).mono ?_)
  rintro low' _ ⟨hlow', rfl⟩
  refine reads_sliced_two ((reads_sliceBound high hhigh (.inr rfl) hlen).mono ?_)
  rintro high' _ ⟨hhigh', rfl⟩
  refine ⟨_, rfl, hQ _ ?_⟩
  simp [Expr.same, Expr.sameOpt, hx', hlow', hhigh']

theorem readIn_fullSlice {pos : Position} {low : Option Expr} {high max : Expr}
    (hx : x.ReadIn .primary) (hlow : ∀ y ∈ low, y.ReadBack) (hhigh : high.ReadBack)
    (hmax : max.ReadBack) : (Expr.slice pos x low (some high) (some max) true).ReadIn .primary := by
  refine readIn_tail rfl hx fun {x' depth c rest Q} hx' hdepth hQ => ?_
  simp only [List.append_assoc, List.cons_append, List.nil_append, if_true] at hdepth ⊢
  have hlen : (Expr.optKinds (some high) ++ .symbol .colon :: (Expr.optKinds (some max)
      ++ .symbol .rBracket :: c :: rest)).length ≤ depth := by
    simp only [List.length_cons, List.length_append] at hdepth ⊢
    omega
  have hlen' : (Expr.optKinds (some max) ++ .symbol .rBracket :: c :: rest).length ≤ depth := by
    simp only [List.length_cons, List.length_append] at hlen ⊢
    omega
  have hhighs : ∀ z ∈ some high, z.ReadBack := by
    rintro _ ⟨⟩
    exact hhigh
  have hmaxs : ∀ z ∈ some max, z.ReadBack := by
    rintro _ ⟨⟩
    exact hmax
  refine reads_primaryTail_bracket ?_
  rw [indexOrSlice_eq]
  refine .bind ((reads_lowBound low hlow (.inl rfl) (fun _ => rfl) hdepth).mono ?_)
  rintro low' _ ⟨hlow', rfl⟩
  refine reads_sliced_three ((reads_sliceBound _ hhighs (.inl rfl) hlen).mono ?_)
  rintro (_ | high') _ ⟨hhigh', rfl⟩
  · cases hhigh'
  refine ⟨_, _, rfl, rfl, (reads_sliceBound _ hmaxs (.inr rfl) hlen').mono ?_⟩
  rintro (_ | max') _ ⟨hmax', rfl⟩
  · cases hmax'
  refine ⟨_, _, rfl, rfl, hQ _ ?_⟩
  simp [Expr.same, hx', hlow', hhigh', hmax']

theorem readIn_call {pos : Position} {args : List Expr} {spread : Bool} (hx : x.ReadIn .primary)
    (hargs : ∀ y ∈ args, y.ReadBack) (hspread : spread → args ≠ []) :
    (Expr.call pos x args spread).ReadIn .primary := by
  refine readIn_tail rfl hx fun hx' hdepth hQ => ?_
  rw [List.append_assoc, List.append_assoc] at hdepth ⊢
  refine reads_primaryTail_call ((reads_args hargs hspread hdepth).mono ?_)
  rintro ⟨args', _⟩ _ ⟨hargs', rfl, rfl⟩
  exact .expect (by simp) fun _ _ => hQ _ (by simp [Expr.same, hx', hargs'])

theorem readIn_typeAssert {pos : Position} {type : Expr} (hx : x.ReadIn .primary)
    (htype : Legible .primary type) (hname : type.isTypeName) :
    (Expr.typeAssert pos x (some type)).ReadIn .primary := by
  refine readIn_tail rfl hx fun {x' depth c rest Q} hx' hdepth hQ => ?_
  rw [List.cons_append, List.append_assoc] at hdepth ⊢
  have hread := reads_type htype hname (List.cons_ne_nil c rest) (Nat.le_of_succ_le hdepth)
  obtain ⟨k, hhead, hk⟩ := htype.head?_kinds
  obtain ⟨ks, hks⟩ := List.head?_eq_some_iff.mp hhead
  rw [hks, List.cons_append] at hread ⊢
  refine reads_primaryTail_assert (by rintro rfl; cases hk) (hread.mono ?_)
  rintro type' _ ⟨htype', rfl⟩
  exact .expect (by simp) fun _ _ => hQ _ (by simp [Expr.same, Expr.sameOpt, hx', htype'])

theorem readIn_typeSwitch {pos : Position} (hx : x.ReadIn .primary) :
    (Expr.typeAssert pos x none).ReadIn .primary := by
  refine readIn_tail rfl hx fun hx' _ hQ => reads_primaryTail_typeSwitch (hQ _ ?_)
  simp [Expr.same, Expr.sameOpt, hx']

theorem isTypeName_of_same (h : y.same x) (hx : x.isTypeName) : y.isTypeName := by
  rw [← Expr.isTypeName_erase, (Expr.same_iff y x).mp h, Expr.isTypeName_erase]
  exact hx

theorem readIn_composite {pos : Position} {type : Expr} {elts : List Expr} (hx : type.ReadIn .primary)
    (hname : type.isTypeName) (helts : ∀ y ∈ elts, y.ReadIn .element)
    (hstart : ∀ y ∈ elts, ∃ k ∈ y.kinds.head?, Place.element.starts k) :
    (Expr.composite pos (some type) elts).ReadIn .primary := by
  refine readIn_tail rfl hx fun hx' hdepth hQ => ?_
  rw [List.append_assoc] at hdepth ⊢
  refine reads_primaryTail_brace (isTypeName_of_same hx' hname) ?_
  refine reads_composite_legible helts hstart hdepth fun pos ys hys => ?_
  exact hQ _ (by simp [Expr.same, Expr.sameOpt, hx', hys])

theorem readIn_value (hx : x.ReadBack) : x.ReadIn .value := by
  intro depth c rest hdepth hc
  have hread : Reads (binaryExpr (bounded depth) 1) _ _ := hx.reads hdepth hc
  obtain ⟨k, ks, hks, hk⟩ := hx.exists_cons
  rw [hks, List.cons_append] at hread ⊢
  refine .bind (.kind ?_)
  rw [if_neg (by rintro rfl; cases hk)]
  exact hread

theorem readIn_elided {pos : Position} {elts : List Expr} (helts : ∀ y ∈ elts, y.ReadIn .element)
    (hstart : ∀ y ∈ elts, ∃ k ∈ y.kinds.head?, Place.element.starts k) :
    (Expr.composite pos none elts).ReadIn .value := by
  intro depth c rest hdepth _
  simp only [Expr.kinds, Expr.optKinds, List.append_assoc, List.cons_append, List.nil_append]
    at hdepth ⊢
  refine .bind (.kind ?_)
  refine reads_composite_legible helts hstart (Nat.le_of_succ_le_succ hdepth)
    fun pos ys hys => ⟨?_, rfl⟩
  simp [Expr.same, Expr.sameOpt, hys]

theorem readIn_element (hx : x.ReadIn .value) : x.ReadIn .element := by
  intro depth c rest hdepth hc hcolon
  refine .bind ((hx depth c rest hdepth hc).mono ?_)
  rintro y _ ⟨hy, rfl⟩
  exact .bind (.eat_other hcolon (.pure ⟨hy, rfl⟩))

theorem readIn_keyValue {pos : Position} (hx : x.ReadIn .value) (hy : y.ReadIn .value) :
    (Expr.keyValue pos x y).ReadIn .element := by
  intro depth c rest hdepth hc _
  simp only [Expr.kinds, List.append_assoc, List.cons_append] at hdepth ⊢
  refine .bind ((hx depth _ _ hdepth rfl).mono ?_)
  rintro x' _ ⟨hx', rfl⟩
  have hlen : (y.kinds ++ c :: rest).length ≤ depth + 1 := by
    simp only [List.length_cons, List.length_append] at hdepth ⊢
    omega
  refine .bind (.eat (by simp) (.bind ((hy depth c rest hlen hc).mono ?_)))
  rintro y' _ ⟨hy', rfl⟩
  exact .pure ⟨by simp [Expr.same, hx', hy'], rfl⟩

/-- A legible tree is read in its place. -/
theorem readIn {place : Place} (h : Legible place x) : x.ReadIn place := by
  induction h with
  | ident => exact readIn_ident
  | lit => exact readIn_lit
  | paren hx ihx => exact readIn_paren (ihx.readBack hx.head?_kinds)
  | selector _ _ _ ihx => exact readIn_selector ihx
  | index _ hi ihx ihi => exact readIn_index ihx (ihi.readBack hi.head?_kinds)
  | slice _ hlow hhigh ihx ihlow ihhigh =>
    exact readIn_slice ihx (fun y hy => (ihlow y hy).readBack (hlow y hy).head?_kinds)
      fun y hy => (ihhigh y hy).readBack (hhigh y hy).head?_kinds
  | fullSlice _ hlow hhigh hmax ihx ihlow ihhigh ihmax =>
    exact readIn_fullSlice ihx (fun y hy => (ihlow y hy).readBack (hlow y hy).head?_kinds)
      (ihhigh.readBack hhigh.head?_kinds) (ihmax.readBack hmax.head?_kinds)
  | call _ hargs hspread ihx ihargs =>
    refine readIn_call ihx (fun y hy => (ihargs y hy).readBack (hargs y hy).head?_kinds) fun h => ?_
    obtain ⟨last, hlast, -⟩ := hspread h
    rintro rfl
    cases hlast
  | typeAssert _ _ htype hname ihx => exact readIn_typeAssert ihx htype hname
  | typeSwitch _ _ ihx => exact readIn_typeSwitch ihx
  | composite _ hname helts ihtype ihelts =>
    exact readIn_composite ihtype hname ihelts fun y hy => (helts y hy).head?_kinds
  | ofPrimary _ ih => exact readIn_operand ih
  | star _ ih => exact readIn_star ih
  | unary hx _ ih => exact readIn_unary ih hx.head?_kinds
  | ofOperand _ ih => exact readIn_expr ih
  | binary _ _ hleft hright ihx ihy => exact readIn_binary ihx ihy hleft hright
  | ofExpr hx ih => exact readIn_value (ih.readBack hx.head?_kinds)
  | elided helts ih => exact readIn_elided ih fun y hy => (helts y hy).head?_kinds
  | ofValue _ ih => exact readIn_element ih
  | keyValue _ _ ihkey ihvalue => exact readIn_keyValue ihkey ihvalue

end Expr.Legible

theorem reads_listParser {x : Expr} (hx : x.ReadBack) {tail : List Kind} (htail : IsTail tail) :
    Reads Expr.listParser (x.kinds ++ tail) fun ys _ => ∃ y, ys = [y] ∧ y.same x := by
  -- a list of one expression in front of the tail
  have hexprs : ∀ c rest, c.endsExpr → c ≠ .symbol .comma →
      Reads (full .exprs) (x.kinds ++ c :: rest) fun ys left =>
        (∃ y, ys = [y] ∧ y.same x) ∧ left = c :: rest := by
    intro c rest hc hcomma
    refine .full (reads_bounded (Nat.le_refl _) fun depth hdepth => ?_)
    have hread : Reads (binaryExpr (bounded depth) 1) _ _ := hx.reads hdepth hc
    refine .bind (hread.mono ?_)
    rintro y _ ⟨hy, rfl⟩
    exact .bind (.eat_other hcomma (.pure ⟨⟨y, rfl, hy⟩, rfl⟩))
  rcases htail with rfl | rfl
  · refine .bind ((hexprs (.symbol .semiColon) [.eof] rfl nofun).mono ?_)
    rintro ys _ ⟨hys, rfl⟩
    exact .bind (.eat (by simp) (.bind (.finish (.pure hys))))
  · refine .bind ((hexprs .eof [] rfl nofun).mono ?_)
    rintro ys _ ⟨hys, rfl⟩
    exact .bind (.eat_other (by simp) (.bind (.finish (.pure hys))))

/-- A printed expression is read back as the same expression. -/
theorem Expr.parseList_text {x : Expr} (h : x.Legible .expr) (wildcards : Bool) :
    ∃ y, Expr.parseList wildcards x.text = .ok [y] ∧ y.same x := by
  obtain ⟨ts, tail, htokens, htail, hkinds⟩ := h.exists_tokenize wildcards
  have hend : .eof ∈ (x.kinds ++ tail).getLast? := by rcases htail with rfl | rfl <;> simp
  have hread := reads_listParser (h.readIn.readBack h.head?_kinds) htail
  obtain ⟨_, hrun, _, y, rfl, hy⟩ := hread.run hkinds hend
  refine ⟨y, ?_, hy⟩
  rw [Expr.parseList, runText, htokens]
  exact hrun

-- Two signs in a row are read as another symbol, so they are not legible.
example : (Expr.parseList false
    (Expr.unary default .plus (.unary default .plus (.ident default "x"))).text).isOk = false := by
  rfl

/-- A call with operators, a composite literal, a type assertion and a slice. -/
def spreadCall : Expr :=
  .call default (.ident default "f")
    [.binary default .add
        (.binary default .mul (.ident default "a") (.unary default .neg (.ident default "b")))
        (.lit default .int "1"),
      .composite default (some (.selector default (.ident default "pkg") (.ident default "T")))
        [.keyValue default (.ident default "k")
            (.composite default none [.lit default .string "\x22s\x22"]),
          .slice default (.typeAssert default (.ident default "x") (some (.ident default "T"))) none
            (some (.lit default .int "2")) none false]]
    true

theorem spreadCall_legible : spreadCall.Legible .expr := by
  have hone : (Expr.lit default .int "1").Legible .primary := .lit rfl
  have htwo : (Expr.lit default .int "2").Legible .expr := .ofOperand (.ofPrimary (.lit rfl))
  have htext : (Expr.lit default .string "\x22s\x22").Legible .expr :=
    .ofOperand (.ofPrimary (.lit rfl))
  have hneg : (Expr.unary default .neg (.ident default "b")).Legible .operand :=
    .unary (.ofPrimary (.ident (by decide))) (by rintro _ ⟨⟩; rfl)
  refine .ofOperand (.ofPrimary (.call (.ident (by decide)) ?_ fun _ => ⟨_, rfl, rfl⟩))
  refine List.forall_mem_cons.mpr ⟨?_, List.forall_mem_singleton.mpr ?_⟩
  · refine .binary (.binary (.ofOperand (.ofPrimary (.ident (by decide)))) (.ofOperand hneg) ?_ ?_)
      (.ofOperand (.ofPrimary hone)) ?_ ?_ <;> decide
  · refine .ofOperand (.ofPrimary (.composite ?_ rfl ?_))
    · exact .selector (.ident (by decide)) rfl (by decide)
    · refine List.forall_mem_cons.mpr ⟨?_, List.forall_mem_singleton.mpr ?_⟩
      · refine .keyValue (.ofExpr (.ofOperand (.ofPrimary (.ident (by decide))))) (.elided ?_)
        exact List.forall_mem_singleton.mpr (.ofValue (.ofExpr htext))
      · refine .ofValue (.ofExpr (.ofOperand (.ofPrimary (.slice ?_ (by rintro _ ⟨⟩) ?_))))
        · exact .typeAssert (.ident (by decide)) rfl (.ident (by decide)) rfl
        · rintro _ ⟨⟩
          exact htwo

theorem spreadCall_read_back :
    spreadCall.text = "f(a * -b + 1, pkg.T\x7bk: \x7b\x22s\x22\x7d, x.(T)[:2]\x7d...)" ∧
      ∃ y, Expr.parseList false spreadCall.text = .ok [y] ∧ y.same spreadCall :=
  ⟨by decide, Expr.parseList_text spreadCall_legible false⟩

end GoSift
