import GoSift.Proofs.Syntax.Leading
import GoSift.Syntax.Node

/-!
How operators group. Operands with operators between them are the same in many trees, and precedence picks
one of these: no operator stands below one that binds more tightly, and operators of one level group to
the left. Climbing gives that tree.
-/
namespace GoSift

theorem BinaryOp.precedence_pos (op : BinaryOp) : 0 < op.precedence := by
  cases op <;> decide

theorem BinaryOp.precedence_lt_six (op : BinaryOp) : op.precedence < 6 := by
  cases op <;> decide

/-- The operator a token stands for between two operands. -/
def Token.Kind.binaryOp? : Kind → Option BinaryOp
  | symbol sym => BinaryOp.ofSymbol? sym
  | _ => none

/-! ### Trees -/

namespace Expr

/-- How tightly the parts of an expression hold together: operators as their precedence says, and
everything else more tightly than any operator. -/
def tightness : Expr → Nat
  | .binary _ op _ _ => op.precedence
  | _ => 6

/-- The operand on the left of all operators. -/
def firstOperand : Expr → Expr
  | .binary _ _ x _ => x.firstOperand
  | x => x
termination_by structural x => x

/-- The operators in source order, each with the operand on its right. -/
def operations : Expr → List (BinaryOp × Expr)
  | .binary _ op x y => x.operations ++ (op, y.firstOperand) :: y.operations
  | _ => []
termination_by structural x => x

/-- Whether operands are grouped as precedence asks. An operation stands where its left side does. -/
def Grouped : Expr → Prop
  | .binary pos op x y =>
    pos = x.pos ∧ op.precedence ≤ x.tightness ∧ op.precedence < y.tightness ∧ x.Grouped ∧ y.Grouped
  | _ => True
termination_by structural x => x

section

variable {x y : Expr}

theorem operations_binary {pos : Position} {op : BinaryOp} :
    (binary pos op x y).operations = x.operations ++ (op, y.firstOperand) :: y.operations :=
  rfl

theorem exists_binary (h : x.isBinary = true) : ∃ pos op y z, x = .binary pos op y z := by
  cases x with
  | binary pos op y z => exact ⟨pos, op, y, z, rfl⟩
  | _ => cases h

theorem tightness_of_not_isBinary (h : x.isBinary = false) : x.tightness = 6 := by
  cases x with
  | binary => cases h
  | _ => rfl

theorem firstOperand_of_not_isBinary (h : x.isBinary = false) : x.firstOperand = x := by
  cases x with
  | binary => cases h
  | _ => rfl

theorem operations_of_not_isBinary (h : x.isBinary = false) : x.operations = [] := by
  cases x with
  | binary => cases h
  | _ => rfl

theorem grouped_of_not_isBinary (h : x.isBinary = false) : x.Grouped := by
  cases x with
  | binary => cases h
  | _ => trivial

/-- No operator in a group binds less tightly than the group does. -/
theorem Grouped.tightness_le (x : Expr) (h : x.Grouped) :
    ∀ p ∈ x.operations, x.tightness ≤ p.1.precedence := by
  cases x with
  | binary pos op x y =>
    obtain ⟨-, hleft, hright, hx, hy⟩ := h
    intro p hp
    rcases List.mem_append.mp hp with hp | hp
    · exact Nat.le_trans hleft (tightness_le x hx p hp)
    · cases hp with
      | head => exact Nat.le_refl _
      | tail _ hp => exact Nat.le_of_lt (Nat.lt_of_lt_of_le hright (tightness_le y hy p hp))
  | _ =>
    intro p hp
    cases hp

/-- The operator at the top is the last among those that bind least tightly, so there is one place where
operators can be split. -/
theorem split_unique {front front' back back' : List (BinaryOp × Expr)} {p p' : BinaryOp × Expr}
    (h : front ++ p :: back = front' ++ p' :: back')
    (hfront : ∀ q ∈ front, p.1.precedence ≤ q.1.precedence)
    (hback : ∀ q ∈ back, p.1.precedence < q.1.precedence)
    (hfront' : ∀ q ∈ front', p'.1.precedence ≤ q.1.precedence)
    (hback' : ∀ q ∈ back', p'.1.precedence < q.1.precedence) :
    front = front' ∧ p = p' ∧ back = back' := by
  rcases List.append_eq_append_iff.mp h with ⟨mid, rfl, hmid⟩ | ⟨mid, rfl, hmid⟩
  · cases mid with
    | nil =>
      cases hmid
      exact ⟨(List.append_nil _).symm, rfl, rfl⟩
    | cons q mid =>
      cases hmid
      have hle := hfront' p (List.mem_append_right _ List.mem_cons_self)
      have hlt := hback p' (List.mem_append_right _ List.mem_cons_self)
      exact absurd hle (Nat.not_le_of_lt hlt)
  · cases mid with
    | nil =>
      cases hmid
      exact ⟨List.append_nil _, rfl, rfl⟩
    | cons q mid =>
      cases hmid
      have hle := hfront p' (List.mem_append_right _ List.mem_cons_self)
      have hlt := hback' p (List.mem_append_right _ List.mem_cons_self)
      exact absurd hle (Nat.not_le_of_lt hlt)

/-- There is one way to group operands. -/
theorem Grouped.unique (hx : x.Grouped) (hy : y.Grouped) (hfirst : x.firstOperand = y.firstOperand)
    (hops : x.operations = y.operations) : x = y := by
  induction hn : x.operations.length using Nat.strongRecOn generalizing x y with
  | ind n ih =>
    cases hbinary : x.isBinary with
    | false =>
      have hempty : y.operations = [] := hops ▸ operations_of_not_isBinary hbinary
      have hother : y.isBinary = false := by
        refine Bool.eq_false_iff.mpr fun htrue => ?_
        obtain ⟨pos, op, l, r, rfl⟩ := exists_binary htrue
        exact List.append_ne_nil_of_right_ne_nil _ (List.cons_ne_nil _ _) hempty
      rwa [firstOperand_of_not_isBinary hbinary, firstOperand_of_not_isBinary hother] at hfirst
    | true =>
      obtain ⟨pos, op, l, r, rfl⟩ := exists_binary hbinary
      have hother : y.isBinary = true := by
        refine Bool.not_eq_false _ |>.mp fun hfalse => ?_
        rw [operations_of_not_isBinary hfalse] at hops
        exact List.append_ne_nil_of_right_ne_nil _ (List.cons_ne_nil _ _) hops
      obtain ⟨pos', op', l', r', rfl⟩ := exists_binary hother
      obtain ⟨hpos, hleft, hright, hl, hr⟩ := hx
      obtain ⟨hpos', hleft', hright', hl', hr'⟩ := hy
      obtain ⟨hfront, hp, hback⟩ := split_unique hops
        (fun q hq => Nat.le_trans hleft (hl.tightness_le l q hq))
        (fun q hq => Nat.lt_of_lt_of_le hright (hr.tightness_le r q hq))
        (fun q hq => Nat.le_trans hleft' (hl'.tightness_le l' q hq))
        (fun q hq => Nat.lt_of_lt_of_le hright' (hr'.tightness_le r' q hq))
      have hlength : l.operations.length + (r.operations.length + 1) = n := by
        rw [← hn, operations_binary, List.length_append, List.length_cons]
      obtain rfl : l = l' := ih _ (by omega) hl hl' hfirst hfront rfl
      obtain ⟨rfl, hsecond⟩ := Prod.mk.inj hp
      obtain rfl : r = r' := ih _ (by omega) hr hr' hsecond hback rfl
      rw [hpos, hpos']

end

end Expr

/-- Whether precedence asks for no brackets in a node, of those that are not there: neither an operand of
an operator that binds more tightly nor one of a unary operator is a bare operation. -/
def Node.Tight : Node → Prop
  | .expr (.binary _ op x y) => op.precedence ≤ x.tightness ∧ op.precedence < y.tightness
  | .expr (.star _ x) | .expr (.unary _ _ x) => x.isBinary = false
  | _ => True

/-! ### Climbing -/

/-- Whether a cursor is in front of no operator that binds at least as tightly as `least`. -/
def Cursor.StopsAt (c : Cursor) (least : Nat) : Prop :=
  ∀ op ∈ c.current.kind.binaryOp?, op.precedence < least

theorem Cursor.stopsAt_of_none {c : Cursor} {least : Nat} (h : c.current.kind.binaryOp? = none) :
    c.StopsAt least := by
  intro op hop
  rw [h] at hop
  cases hop

theorem Cursor.stopsAt_iff_of_some {c : Cursor} {least : Nat} {op : BinaryOp}
    (h : c.current.kind.binaryOp? = some op) : c.StopsAt least ↔ op.precedence < least := by
  refine ⟨fun hstop => hstop op h, fun hlt op' hop => ?_⟩
  cases h.symm.trans hop
  exact hlt

/-- A grammar whose operands are no bare operations, and that groups operands as precedence asks. What is
behind `least` operators is read up to one that binds less tightly, and so holds together as tightly. -/
structure Grammar.Climbs (g : Grammar) : Prop where
  leading : g.Leading
  binary : ∀ {least c y c'}, g (.binary least) c = .ok y c' →
    y.Grouped ∧ c'.StopsAt least ∧ (least ≤ 6 → least ≤ y.tightness)
  binaryTail : ∀ {least x c y c'}, g (.binaryTail least x) c = .ok y c' → x.Grouped →
    c.StopsAt (x.tightness + 1) →
    y.Grouped ∧ c'.StopsAt least ∧ (least ≤ x.tightness → least ≤ y.tightness)

namespace Grammar

open GoSift.Parser

variable {g : Grammar} {least : Nat} {x y : Expr} {c c' : Cursor}

theorem binaryTail_stop (h : c.StopsAt least) : binaryTail g least x c = .ok x c := by
  unfold binaryTail
  refine bind_eq_ok.mpr ⟨_, c, rfl, ?_⟩
  unfold Cursor.StopsAt at h
  cases hk : c.current.kind with
  | symbol sym =>
    rw [hk] at h
    dsimp only
    cases hop : BinaryOp.ofSymbol? sym with
    | none => rfl
    | some op =>
      dsimp only
      rw [if_pos (h op hop)]
      rfl
  | _ => rfl

theorem binaryTail_op {op : BinaryOp} (hop : c.current.kind.binaryOp? = some op)
    (hle : least ≤ op.precedence) :
    binaryTail g least x c =
      (do
        let y ← g (.binary (op.precedence + 1))
        g (.binaryTail least (.binary x.pos op x y)) : Parser Expr) c.next := by
  unfold binaryTail
  change EStateM.bind kind _ c = _
  simp only [EStateM.bind, kind]
  cases hk : c.current.kind with
  | symbol sym =>
    rw [hk] at hop
    have hsym : BinaryOp.ofSymbol? sym = some op := hop
    simp only [hsym, if_neg (Nat.not_lt.mpr hle)]
    rfl
  | _ =>
    rw [hk] at hop
    cases hop

/-- What the tail of an operation can do: it ends, or it goes on with an operator and what binds more
tightly than that. -/
theorem binaryTail_cases (h : binaryTail g least x c = .ok y c') :
    c.StopsAt least ∧ y = x ∧ c' = c ∨
      ∃ op z c₁, c.current.kind.binaryOp? = some op ∧ least ≤ op.precedence ∧
        g (.binary (op.precedence + 1)) c.next = .ok z c₁ ∧
        g (.binaryTail least (.binary x.pos op x z)) c₁ = .ok y c' := by
  by_cases hstop : c.StopsAt least
  · rw [binaryTail_stop hstop] at h
    cases h
    exact .inl ⟨hstop, rfl, rfl⟩
  · cases hop : c.current.kind.binaryOp? with
    | none => exact absurd (Cursor.stopsAt_of_none hop) hstop
    | some op =>
      rw [Cursor.stopsAt_iff_of_some hop, Nat.not_lt] at hstop
      rw [binaryTail_op hop hstop, bind_eq_ok] at h
      obtain ⟨z, c₁, hz, hy⟩ := h
      exact .inr ⟨op, z, c₁, rfl, hstop, hz, hy⟩

/-- The operator in front of an operand binds no more tightly than the tree on its left, since that has
been read up to the operator. -/
theorem binaryTail_climbs (hg : g.Climbs) (h : binaryTail g least x c = .ok y c') (hx : x.Grouped)
    (hc : c.StopsAt (x.tightness + 1)) :
    y.Grouped ∧ c'.StopsAt least ∧ (least ≤ x.tightness → least ≤ y.tightness) := by
  obtain ⟨hstop, rfl, rfl⟩ | ⟨op, z, c₁, hop, hle, hz, hy⟩ := binaryTail_cases h
  · exact ⟨hx, hstop, id⟩
  · obtain ⟨hgrouped, hstop, htight⟩ := hg.binary hz
    have hwhole : (Expr.binary x.pos op x z).Grouped :=
      ⟨rfl, Nat.le_of_lt_succ (hc op hop), htight op.precedence_lt_six, hx, hgrouped⟩
    obtain ⟨hy, hstop, htight⟩ := hg.binaryTail hy hwhole hstop
    exact ⟨hy, hstop, fun _ => htight hle⟩

theorem binaryExpr_climbs (hg : g.Climbs) (h : binaryExpr g least c = .ok y c') :
    y.Grouped ∧ c'.StopsAt least ∧ (least ≤ 6 → least ≤ y.tightness) := by
  obtain ⟨x, c₁, hx, hy⟩ := bind_eq_ok.mp h
  have hbinary : x.isBinary = false := (unaryExpr_from hg.leading c x c₁ rfl hx).bare
  have htight := Expr.tightness_of_not_isBinary hbinary
  have hloose : c₁.StopsAt (x.tightness + 1) := by
    intro op _
    have := op.precedence_lt_six
    omega
  have hclimbs := binaryTail_climbs hg hy (Expr.grouped_of_not_isBinary hbinary) hloose
  rwa [htight] at hclimbs

theorem climbs_step (hg : g.Climbs) : (step g).Climbs where
  leading := leading_step hg.leading
  binary h := binaryExpr_climbs hg h
  binaryTail h := binaryTail_climbs hg h

theorem climbs_bounded (n : Nat) : (bounded n).Climbs := by
  induction n with
  | zero =>
    refine ⟨leading_bounded 0, fun h => ?_, fun h => ?_⟩
    · cases h
    · cases h
  | succ n ih => exact climbs_step ih

theorem climbs_full : full.Climbs where
  leading n t c x c' hc h := (climbs_bounded _).leading n t c x c' hc h
  binary h := (climbs_bounded _).binary h
  binaryTail h := (climbs_bounded _).binaryTail h

end Grammar

end GoSift
