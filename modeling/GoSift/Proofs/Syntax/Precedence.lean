import GoSift.Proofs.Syntax.Parsed
import GoSift.Proofs.Syntax.Totality

/-!
Precedence. Operands with operators between them are read as the one tree that precedence asks for, and
no tree that is read has an operation where brackets would be needed.
-/
namespace GoSift

/-- Whether operators with an operand behind each of them are what is read from one cursor to another,
in front of no further operator. -/
inductive Operations : Cursor → List (BinaryOp × Expr) → Cursor → Prop
  | nil {c : Cursor} (hend : c.current.kind.binaryOp? = none) : Operations c [] c
  | cons {c c₁ c' : Cursor} {op : BinaryOp} {x : Expr} {ops : List (BinaryOp × Expr)}
      (hop : c.current.kind.binaryOp? = some op) (hx : Grammar.full .unary c.next = .ok x c₁)
      (hops : Operations c₁ ops c') : Operations c ((op, x) :: ops) c'

theorem Node.LocalIn.tight {I : Token.Kind → Prop} {n : Node} (h : n.LocalIn I) : n.Tight := by
  unfold Tight
  split
  · exact h
  · exact h
  · exact h
  · trivial

namespace Grammar

open GoSift.Parser

variable {c c₁ c' : Cursor} {least : Nat} {x y : Expr} {ops : List (BinaryOp × Expr)}

/-- A binary expression is an operand and its tail. -/
theorem full_binary (hc : Token.Terminated c.tokens) (hx : full .unary c = .ok x c₁)
    (hy : full (.binaryTail least x) c₁ = .ok y c') : full (.binary least) c = .ok y c' := by
  have hc₁ := (reaches_of_full hc hx).terminated hc
  rw [full_eq_step hc] at hx ⊢
  rw [full_eq_step hc₁] at hy
  exact bind_eq_ok.mpr ⟨x, c₁, hx, hy⟩

/-- The tail behind `x` takes the operators up to some place, and leaves the rest. -/
theorem exists_binaryTail (hops : Operations c ops c') (hc : Token.Terminated c.tokens) (least : Nat)
    (x : Expr) :
    ∃ y c₁ front back, full (.binaryTail least x) c = .ok y c₁ ∧ ops = front ++ back ∧
      Operations c₁ back c' ∧ y.firstOperand = x.firstOperand ∧
      y.operations = x.operations ++ front := by
  -- The right side of an operator and what is behind it are both shorter than the whole.
  induction hn : ops.length using Nat.strongRecOn generalizing c ops least x with
  | ind n ih =>
    have hstop (hle : c.StopsAt least) : full (.binaryTail least x) c = .ok x c := by
      rw [full_eq_step hc]
      exact binaryTail_stop hle
    cases hops with
    | nil hend =>
      exact ⟨x, _, [], [], hstop (Cursor.stopsAt_of_none hend), rfl, .nil hend, rfl,
        (List.append_nil _).symm⟩
    | @cons _ c₂ _ op z rest hop hz hrest =>
      by_cases hlt : op.precedence < least
      · have hle := (Cursor.stopsAt_iff_of_some hop).mpr hlt
        exact ⟨x, c, [], _, hstop hle, rfl, .cons hop hz hrest, rfl, (List.append_nil _).symm⟩
      · have hnext := c.reaches_next.terminated hc
        have hc₂ := (reaches_of_full hnext hz).terminated hnext
        have hbinary : z.isBinary = false := (climbs_full.leading .unary _ c.next z c₂ rfl hz).bare
        rw [List.length_cons] at hn
        obtain ⟨right, c₃, front, back, hright, rfl, hback, hfirst, hright_ops⟩ :=
          ih rest.length (by omega) hrest hc₂ (op.precedence + 1) z rfl
        rw [Expr.firstOperand_of_not_isBinary hbinary] at hfirst
        rw [Expr.operations_of_not_isBinary hbinary, List.nil_append] at hright_ops
        have hc₃ := (reaches_of_full hc₂ hright).terminated hc₂
        rw [List.length_append] at hn
        obtain ⟨y, c₄, front', back', htail, rfl, hback', hfirst', hy_ops⟩ :=
          ih back.length (by omega) hback hc₃ least (.binary x.pos op x right) rfl
        refine ⟨y, c₄, (op, z) :: (front ++ front'), back', ?_, ?_, hback', hfirst', ?_⟩
        · rw [full_eq_step hc]
          refine (binaryTail_op hop (Nat.le_of_not_lt hlt)).trans ?_
          exact bind_eq_ok.mpr ⟨right, c₃, full_binary hnext hz hright, htail⟩
        · rw [List.cons_append, List.append_assoc]
        · rw [hy_ops, Expr.operations_binary, hfirst, hright_ops, List.append_assoc, List.cons_append]

theorem exists_expr (hc : Token.Terminated c.tokens) (hx : full .unary c = .ok x c₁)
    (hops : Operations c₁ ops c') :
    ∃ y, full.expr c = .ok y c' ∧ y.firstOperand = x ∧ y.operations = ops ∧ y.Grouped := by
  have hc₁ := (reaches_of_full hc hx).terminated hc
  have hbinary : x.isBinary = false := (climbs_full.leading .unary _ c x c₁ rfl hx).bare
  obtain ⟨y, c₂, front, back, htail, rfl, hback, hfirst, hy_ops⟩ := exists_binaryTail hops hc₁ 1 x
  have hy := full_binary hc hx htail
  obtain ⟨hgrouped, hstop, -⟩ := climbs_full.binary hy
  rw [Expr.firstOperand_of_not_isBinary hbinary] at hfirst
  rw [Expr.operations_of_not_isBinary hbinary, List.nil_append] at hy_ops
  cases hback with
  | nil => exact ⟨y, hy, hfirst, by rw [hy_ops, List.append_nil], hgrouped⟩
  | @cons _ _ _ op _ _ hop =>
    have hlt := (Cursor.stopsAt_iff_of_some hop).mp hstop
    exact absurd op.precedence_pos (Nat.not_lt.mpr (Nat.le_of_lt_succ hlt))

/-- Operands with operators between them, in front of no further operator, are read to their end, as the
one tree of these operands and operators in which the left side of each operator binds at least as
tightly as the operator and the right side more tightly. Whatever the tokens are, the same holds of every
operation in what is read, and no operand of a unary operator or of a star is a bare operation. -/
theorem precedence_climbing :
    (∀ {c c₁ c' : Cursor} {x : Expr} {ops : List (BinaryOp × Expr)}, Token.Terminated c.tokens →
      full .unary c = .ok x c₁ → Operations c₁ ops c' →
      ∃ y, full.expr c = .ok y c' ∧ y.firstOperand = x ∧ y.operations = ops ∧ y.Grouped ∧
        (∀ z : Expr, z.firstOperand = x → z.operations = ops → z.Grouped → z = y) ∧
        ∀ n ∈ y.visits, n.Tight) ∧
    ∀ ts : List Token,
      (∀ file, File.parser.run ts = .ok file → ∀ n ∈ file.visits, n.Tight) ∧
      (∀ fs, Func.listParser.run ts = .ok fs → ∀ f ∈ fs, ∀ n ∈ f.visits, n.Tight) ∧
      (∀ xs, Expr.listParser.run ts = .ok xs → ∀ x ∈ xs, ∀ n ∈ x.visits, n.Tight) ∧
      ∀ ss, Stmt.listParser.run ts = .ok ss → ∀ s ∈ ss, ∀ n ∈ s.visits, n.Tight := by
  have hany (c : Cursor) : c.Within fun _ => True := fun _ _ => trivial
  have hw (t : Token) (_ : True) : t.kind.Allowed true := t.kind.allowed_true
  constructor
  · intro c c₁ c' x ops hc hx hops
    obtain ⟨y, hy, hfirst, hy_ops, hgrouped⟩ := exists_expr hc hx hops
    refine ⟨y, hy, hfirst, hy_ops, hgrouped, fun z hz hz_ops hz_grouped => ?_, fun n hn => ?_⟩
    · exact hz_grouped.unique hgrouped (hz.trans hfirst.symm) (hz_ops.trans hy_ops.symm)
    · have hread := full_yields hw (.binary 1) trivial _ c rfl (hany c)
      rw [show full (.binary 1) c = _ from hy] at hread
      exact (hread.2.1 n hn).tight
  · intro ts
    refine ⟨fun file h n hn => ?_, fun fs h f hf n hn => ?_, fun xs h x hx n hn => ?_,
      fun ss h s hs n hn => ?_⟩
    · obtain ⟨f, hf, hn⟩ := List.mem_flatMap.mp hn
      exact (((File.parser_yields hw).run (hany _) h f hf).1 n hn).tight
    · exact (((Func.listParser_yields hw).run (hany _) h f hf).1 n hn).tight
    · exact ((((Expr.listParser_yields hw).run (hany _) h).2 x hx).1 n hn).tight
    · exact (((Stmt.listParser_yields hw).run (hany _) h s hs).1 n hn).tight

/-- The tokens of `a + b * -c - d == e && (f)`. -/
def mixedLevels : List Token :=
  [.ident "a", .symbol .plus, .ident "b", .symbol .star, .symbol .minus, .ident "c", .symbol .minus,
    .ident "d", .symbol .eqEq, .ident "e", .symbol .andAnd, .symbol .lParen, .ident "f",
    .symbol .rParen, .eof].map (⟨·, default⟩)

/-- The operators of `mixedLevels` from the loosest to the tightest, and to the left on one level. -/
def mixedTree : Expr :=
  let name := Expr.ident default
  .binary default .logicalAnd
    (.binary default .eq
      (.binary default .sub
        (.binary default .add (name "a")
          (.binary default .mul (name "b") (.unary default .neg (name "c"))))
        (name "d"))
      (name "e"))
    (.paren default (name "f"))

theorem mixedLevels_precedence :
    Token.Terminated (Cursor.ofTokens mixedLevels).tokens ∧
      (∃ c₁ c', full .unary (.ofTokens mixedLevels) = .ok (.ident default "a") c₁ ∧
        Operations c₁ mixedTree.operations c' ∧ full.expr (.ofTokens mixedLevels) = .ok mixedTree c') ∧
      Expr.listParser.run mixedLevels = .ok [mixedTree] ∧ ∀ n ∈ mixedTree.visits, n.Tight := by
  have hend : Token.Terminated (Cursor.ofTokens mixedLevels).tokens := ⟨_, rfl, rfl⟩
  obtain ⟨c₁, c', hx, hops⟩ : ∃ c₁ c', full .unary (.ofTokens mixedLevels) =
      .ok (.ident default "a") c₁ ∧ Operations c₁ mixedTree.operations c' :=
    ⟨_, _, rfl, .cons rfl rfl (.cons rfl rfl (.cons rfl rfl (.cons rfl rfl (.cons rfl rfl
      (.nil rfl)))))⟩
  have hmul : (Expr.binary default .mul (.ident default "b")
      (.unary default .neg (.ident default "c"))).Grouped :=
    ⟨rfl, by decide, by decide, trivial, trivial⟩
  have hgrouped : mixedTree.Grouped :=
    ⟨rfl, by decide, by decide, ⟨rfl, by decide, by decide, ⟨rfl, by decide, by decide,
      ⟨rfl, by decide, by decide, trivial, hmul⟩, trivial⟩, trivial⟩, trivial⟩
  have hrun : Expr.listParser.run mixedLevels = .ok [mixedTree] := rfl
  obtain ⟨hexpr, hparsed⟩ := precedence_climbing
  obtain ⟨y, hy, -, -, -, hunique, -⟩ := hexpr hend hx hops
  obtain rfl := hunique mixedTree rfl rfl hgrouped
  obtain ⟨-, -, hlist, -⟩ := hparsed mixedLevels
  exact ⟨hend, ⟨c₁, c', hx, hops, hy⟩, hrun, hlist _ hrun mixedTree List.mem_cons_self⟩

end Grammar

end GoSift
