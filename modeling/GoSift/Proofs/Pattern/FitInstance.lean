import GoSift.Proofs.Pattern.Shapes
import Mathlib.Tactic.Tauto

/-!
The term of a pattern fits exactly the instances of the pattern. The code of a pattern leaves out what
the parser makes sure of, so that both trees have to be as the parser makes them.
-/
namespace GoSift

open Pattern

variable {r : Reading}

attribute [local simp] Expr.Covers Stmt.Covers

mutual

theorem Expr.fits_iff (p x : Expr) (hp : p.Regular) (hx : x.Each Node.Keyed) :
    p.term.Fits r (.expr x) ↔ p.Covers r x := by
  cases p with
  | wildcard => exact fits_named
  | ident _ name =>
    cases x with
    | ident _ name' => exact (fits_shape_if rfl).trans (by simp [@eq_comm _ name'])
    | _ => exact fits_unsuited rfl nofun
  | lit _ kind text =>
    cases x with
    | lit _ kind' text' => exact (fits_shape_if rfl).trans (by simp [@eq_comm _ text'])
    | _ => exact fits_unsuited rfl nofun
  | composite _ type elts =>
    obtain ⟨-, hpt, hpe⟩ := Expr.each_iff.1 hp
    cases x with
    | composite _ type' elts' =>
      obtain ⟨-, ht, he⟩ := Expr.each_iff.1 hx
      refine (fits_shape_if (r.parts?_composite)).trans ?_
      simp [Expr.fitsOpt_iff type type' hpt ht,
        Expr.fitsRun_iff elts elts' hpe he, and_assoc]
    | _ => exact fits_unsuited rfl nofun
  | funcLit _ params results body =>
    obtain ⟨-, hpp, hpr, hpb⟩ := Expr.each_iff.1 hp
    cases x with
    | funcLit pos params' results' body' =>
      obtain ⟨-, hps, hrs, hb⟩ := Expr.each_iff.1 hx
      refine (fits_shape rfl).trans ?_
      simp [body.fits_iff body' hpb hb, and_assoc,
        fits_signature pos (Field.fitsRun_iff params params' hpp hps)
          (Field.fitsRun_iff results results' hpr hrs)]
    | _ => exact fits_unsuited rfl nofun
  | paren _ p =>
    obtain ⟨-, hp⟩ := Expr.each_iff.1 hp
    cases x with
    | paren _ x =>
      obtain ⟨-, hx⟩ := Expr.each_iff.1 hx
      exact (fits_shape rfl).trans (by simp [p.fits_iff x hp hx])
    | _ => exact fits_unsuited rfl nofun
  | selector _ p sel =>
    obtain ⟨-, hp, hpsel⟩ := Expr.each_iff.1 hp
    rw [Expr.term]
    cases x with
    | selector _ x sel' =>
      obtain ⟨-, hx, hsel⟩ := Expr.each_iff.1 hx
      split
      · next name hname =>
        rw [Expr.Covers, Expr.covers_of_identName? hname]
        refine (fits_shape_if rfl).trans ?_
        simp [p.fits_iff x hp hx, and_comm]
      · refine (fits_shape rfl).trans ?_
        simp [p.fits_iff x hp hx, sel.fits_iff sel' hpsel hsel]
    | _ => split <;> exact fits_unsuited rfl nofun
  | index _ p q =>
    obtain ⟨-, hp, hq⟩ := Expr.each_iff.1 hp
    cases x with
    | index _ x y =>
      obtain ⟨-, hx, hy⟩ := Expr.each_iff.1 hx
      exact (fits_shape rfl).trans (by simp [p.fits_iff x hp hx, q.fits_iff y hq hy])
    | _ => exact fits_unsuited rfl nofun
  | slice _ p low high max full =>
    obtain ⟨⟨hfull, -⟩, hp, hpl, hph, hpm⟩ := Expr.each_iff.1 hp
    cases x with
    | slice _ x low' high' max' full' =>
      obtain ⟨-, hx, hl, hh, hm⟩ := Expr.each_iff.1 hx
      refine (fits_shape_if (r.parts?_slice)).trans ?_
      simp only [decide_eq_true_eq, List.cons_append, List.append_assoc, fitsAll_cons,
        fitsAll_exprOpt, Expr.Covers, p.fits_iff x hp hx, Expr.fitsOpt_iff low low' hpl hl,
        Expr.fitsOpt_iff high high' hph hh, Expr.fitsOpt_iff max max' hpm hm, hfull]
      grind
    | _ => exact fits_unsuited rfl nofun
  | typeAssert _ p type =>
    obtain ⟨-, hp, hpt⟩ := Expr.each_iff.1 hp
    cases x with
    | typeAssert _ x type' =>
      obtain ⟨-, hx, ht⟩ := Expr.each_iff.1 hx
      refine (fits_shape_if (r.parts?_typeAssert)).trans ?_
      simp [p.fits_iff x hp hx, Expr.fitsOpt_iff type type' hpt ht,
        and_left_comm]
    | _ => exact fits_unsuited rfl nofun
  | call _ fn args spread =>
    obtain ⟨-, hpf, hpa⟩ := Expr.each_iff.1 hp
    cases x with
    | call _ fn' args' spread' =>
      obtain ⟨-, hf, ha⟩ := Expr.each_iff.1 hx
      refine (fits_shape_if rfl).trans ?_
      simp only [Bool.or_eq_true, decide_eq_true_eq, Op.call.injEq, callSpread_iff]
      simp only [fitsAll_cons, fitsAll_nil, and_true, fits_exprs, Expr.Covers,
        fn.fits_iff fn' hpf hf, Expr.fitsRun_iff args args' hpa ha]
      tauto
    | _ => exact fits_unsuited rfl nofun
  | star _ p =>
    obtain ⟨-, hp⟩ := Expr.each_iff.1 hp
    cases x with
    | star _ x =>
      obtain ⟨-, hx⟩ := Expr.each_iff.1 hx
      exact (fits_shape rfl).trans (by simp [p.fits_iff x hp hx])
    | _ => exact fits_unsuited rfl nofun
  | unary _ op p =>
    obtain ⟨-, hp⟩ := Expr.each_iff.1 hp
    cases x with
    | unary _ op' x =>
      obtain ⟨-, hx⟩ := Expr.each_iff.1 hx
      exact (fits_shape_if rfl).trans (by simp [p.fits_iff x hp hx])
    | _ => exact fits_unsuited rfl nofun
  | binary _ op p q =>
    obtain ⟨-, hp, hq⟩ := Expr.each_iff.1 hp
    cases x with
    | binary _ op' x y =>
      obtain ⟨-, hx, hy⟩ := Expr.each_iff.1 hx
      exact (fits_shape_if rfl).trans (by simp [p.fits_iff x hp hx, q.fits_iff y hq hy])
    | _ => exact fits_unsuited rfl nofun
  | keyValue _ p q =>
    obtain ⟨-, hp, hq⟩ := Expr.each_iff.1 hp
    cases x with
    | keyValue _ x y =>
      obtain ⟨-, hx, hy⟩ := Expr.each_iff.1 hx
      exact (fits_shape rfl).trans (by simp [p.fits_iff x hp hx, q.fits_iff y hq hy])
    | _ => exact fits_unsuited rfl nofun
  | arrayType _ len elem =>
    obtain ⟨-, hpl, hpe⟩ := Expr.each_iff.1 hp
    cases x with
    | arrayType _ len' elem' =>
      obtain ⟨-, hl, he⟩ := Expr.each_iff.1 hx
      refine (fits_shape_if (r.parts?_arrayType)).trans ?_
      simp [elem.fits_iff elem' hpe he,
        Expr.fitsOpt_iff len len' hpl hl, and_assoc]
    | _ => exact fits_unsuited rfl nofun
  | ellipsis _ elem =>
    obtain ⟨-, hp⟩ := Expr.each_iff.1 hp
    cases x with
    | ellipsis _ elem' =>
      obtain ⟨-, hx⟩ := Expr.each_iff.1 hx
      refine (fits_shape_if (r.parts?_ellipsis)).trans ?_
      simp [Expr.fitsOpt_iff elem elem' hp hx]
    | _ => exact fits_unsuited rfl nofun
  | mapType _ p q =>
    obtain ⟨-, hp, hq⟩ := Expr.each_iff.1 hp
    cases x with
    | mapType _ x y =>
      obtain ⟨-, hx, hy⟩ := Expr.each_iff.1 hx
      exact (fits_shape rfl).trans (by simp [p.fits_iff x hp hx, q.fits_iff y hq hy])
    | _ => exact fits_unsuited rfl nofun
  | chanType _ dir p =>
    obtain ⟨-, hp⟩ := Expr.each_iff.1 hp
    cases x with
    | chanType _ dir' x =>
      obtain ⟨-, hx⟩ := Expr.each_iff.1 hx
      exact (fits_shape_if rfl).trans (by simp [p.fits_iff x hp hx])
    | _ => exact fits_unsuited rfl nofun
  | funcType _ params results =>
    obtain ⟨-, hpp, hpr⟩ := Expr.each_iff.1 hp
    cases x with
    | funcType pos params' results' =>
      obtain ⟨-, hps, hrs⟩ := Expr.each_iff.1 hx
      exact fits_signature pos (Field.fitsRun_iff params params' hpp hps)
        (Field.fitsRun_iff results results' hpr hrs)
    | _ => cases results <;> exact fits_unsuited rfl nofun
  | structType _ fields =>
    obtain ⟨-, hp⟩ := Expr.each_iff.1 hp
    cases x with
    | structType _ fields' =>
      obtain ⟨-, hx⟩ := Expr.each_iff.1 hx
      exact (fits_shape rfl).trans (by simp [Field.fitsRun_iff fields fields' hp hx])
    | _ => exact fits_unsuited rfl nofun
  | interfaceType _ methods =>
    obtain ⟨-, hp⟩ := Expr.each_iff.1 hp
    cases x with
    | interfaceType _ methods' =>
      obtain ⟨-, hx⟩ := Expr.each_iff.1 hx
      exact (fits_shape rfl).trans (by simp [Field.fitsRun_iff methods methods' hp hx])
    | _ => exact fits_unsuited rfl nofun
termination_by structural p

theorem Expr.fitsOpt_iff (p x : Option Expr) (hp : ∀ q ∈ p, q.Regular)
    (hx : ∀ y ∈ x, y.Each Node.Keyed) :
    Expr.CoversOpt r p x ↔ p.isSome = x.isSome ∧
      Term.FitsAll r (Expr.termOpt p) (spelled p.isSome (.exprSlot x)) := by
  cases p with
  | none => cases x <;> simp [Expr.CoversOpt, Expr.termOpt, spelled]
  | some p =>
    cases x with
    | none => simp [Expr.CoversOpt]
    | some x =>
      simp [Expr.CoversOpt, Expr.termOpt, spelled, Part.exprSlot,
        p.fits_iff x (hp p rfl) (hx x rfl)]
termination_by structural p

theorem Expr.fitsRun_iff (ps xs : List Expr) (hps : ∀ p ∈ ps, p.Regular)
    (hxs : ∀ x ∈ xs, x.Each Node.Keyed) :
    FitsRun r .exprs .expr (Term.fitsEach r (Expr.terms ps)) xs ↔
      Expr.CoversList r ps xs := by
  cases ps with
  | nil => simp [Expr.terms, Term.fitsEach, FitsRun, Expr.CoversList]
  | cons p ps =>
    obtain ⟨hp, hps⟩ := List.forall_mem_cons.1 hps
    have hhead (y : Expr) (hy : y ∈ xs) := p.fits_iff y hp (hxs y hy)
    have htail (ys : List Expr) (hys : ys ⊆ xs) :=
      Expr.fitsRun_iff ps ys hps fun y hy => hxs y (hys hy)
    rw [Expr.terms, Expr.CoversList]
    cases hrun : runName? p with
    | some name => exact fitsRun_stretch fun front back h => htail back (by simp [h])
    | none => exact fitsRun_single p.term_ne_seq hhead fun y ys h => htail ys (by simp [h])
termination_by structural ps

theorem Expr.fitsSlot_iff (p x : Option Expr) (hp : ∀ q ∈ p, q.Regular)
    (hx : ∀ y ∈ x, y.Each Node.Keyed) :
    Expr.CoversSlot r p x ↔ (p.isSome ∨ x.isNone) ∧
      Term.FitsAll r (Expr.termSlot p) (spelled p.isSome (.exprSlot x)) := by
  cases p with
  | none => cases x <;> simp [Expr.CoversSlot, Expr.termSlot, spelled]
  | some p =>
    have h (y : Expr) (hy : y ∈ x) := p.fits_iff y (hp p rfl) (hx y hy)
    rw [Expr.CoversSlot.eq_def, Expr.termSlot]
    dsimp only
    cases runName? p with
    | some name => cases x <;> simp [spelled, Part.exprSlot, Part.expr]
    | none =>
      cases x with
      | none => simp [spelled, Part.exprSlot, p.not_fits_absent]
      | some x => simp [spelled, Part.exprSlot, h]
termination_by structural p

theorem Field.fits_iff (p f : Field) (hp : p.Regular) (hf : f.Each Node.Keyed) :
    p.term.Fits r (.one (.field f)) ↔ p.Covers r f := by
  obtain ⟨_, names, type⟩ := p
  obtain ⟨pos, names', type'⟩ := f
  obtain ⟨hpn, hpt⟩ := Field.each_iff.1 hp
  obtain ⟨hn, ht⟩ := Field.each_iff.1 hf
  have htype := type.fits_iff type' hpt ht
  cases names with
  | nil =>
    rw [Field.term.eq_def, Field.Covers.eq_def]
    dsimp only
    cases type.wildcard? with
    | some w => exact fits_named
    | none =>
      cases names' with
      | nil => exact (fits_shape rfl).trans (by simp [htype])
      | cons => exact fits_none rfl (by simp)
  | cons p ps =>
    have hone (x : Expr) (hx : x ∈ names') := p.fits_iff x (hpn p (.head _)) (hn x hx)
    have hall := Expr.fitsRun_iff (p :: ps) names' hpn hn
    cases ps with
    | nil =>
      rw [Field.term, Field.Covers]
      cases hident : p.identName? with
      | some ident =>
        cases names' with
        | nil => exact fits_none rfl (by simp)
        | cons x xs =>
          rw [exists_singleton_iff]
          refine (fits_shape_if rfl).trans ?_
          simp [htype, Expr.covers_of_identName? hident]
      | none =>
        cases names' with
        | nil => exact fits_none rfl (by simp)
        | cons x xs =>
          rw [exists_singleton_iff]
          refine (fits_shape_if rfl).trans ?_
          simp [htype, hone x (.head _), and_assoc]
    | cons q qs =>
      simp only [Field.term, Field.Covers]
      cases names' with
      | nil =>
        cases hr : r.strict with
        | true => exact fits_none (if_pos hr) (by simp [Reading.Filled, hr])
        | false =>
          have hparts : r.parts? .multiField 0 "" (.field (.mk pos [] type')) =
              some [.exprs [], .expr type'] := if_neg (by simp [hr])
          refine (fits_shape hparts).trans ?_
          simp [htype, hall, Reading.Filled, hr]
      | cons x xs =>
        refine (fits_shape rfl).trans ?_
        simp [htype, hall, Reading.Filled]
termination_by structural p

theorem Field.fitsRun_iff (ps fs : List Field) (hps : ∀ p ∈ ps, p.Regular)
    (hfs : ∀ f ∈ fs, f.Each Node.Keyed) :
    FitsRun r .fields .field (Term.fitsEach r (Field.terms ps)) fs ↔
      Field.CoversList r ps fs := by
  cases ps with
  | nil => simp [Field.terms, Term.fitsEach, FitsRun, Field.CoversList]
  | cons p ps =>
    obtain ⟨hp, hps⟩ := List.forall_mem_cons.1 hps
    have hhead (g : Field) (hg : g ∈ fs) := p.fits_iff g hp (hfs g hg)
    have htail (gs : List Field) (hgs : gs ⊆ fs) :=
      Field.fitsRun_iff ps gs hps fun g hg => hfs g (hgs hg)
    rw [Field.terms, Field.CoversList]
    cases hrun : fieldRunName? p with
    | some name =>
      rw [Field.term_of_fieldRunName? hrun]
      exact fitsRun_stretch fun front back h => htail back (by simp [h])
    | none =>
      exact fitsRun_single (Field.term_ne_seq hrun) hhead fun g gs h => htail gs (by simp [h])
termination_by structural ps

theorem Stmt.fits_iff (p s : Stmt) (hp : p.Regular) (hs : s.Each Node.Keyed) :
    p.term.Fits r (.stmt s) ↔ p.Covers r s := by
  cases p with
  | expr _ p =>
    obtain ⟨-, hp⟩ := Stmt.each_iff.1 hp
    have h (x : Expr) (hx : x.Each Node.Keyed) := p.fits_iff x hp hx
    rw [Stmt.term, Stmt.Covers.eq_def]
    dsimp only
    cases p.wildcard? with
    | some w => exact fits_named
    | none =>
      cases s with
      | expr _ x =>
        obtain ⟨-, hx⟩ := Stmt.each_iff.1 hs
        exact (fits_shape rfl).trans (by simp [h x hx])
      | _ => exact fits_unsuited rfl nofun
  | send _ p q =>
    obtain ⟨-, hp, hq⟩ := Stmt.each_iff.1 hp
    cases s with
    | send _ x y =>
      obtain ⟨-, hx, hy⟩ := Stmt.each_iff.1 hs
      exact (fits_shape rfl).trans (by simp [p.fits_iff x hp hx, q.fits_iff y hq hy])
    | _ => exact fits_unsuited rfl nofun
  | incDec _ p up =>
    obtain ⟨-, hp⟩ := Stmt.each_iff.1 hp
    cases s with
    | incDec _ x up' =>
      obtain ⟨-, hx⟩ := Stmt.each_iff.1 hs
      exact (fits_shape_if rfl).trans (by simp [p.fits_iff x hp hx, and_comm])
    | _ => exact fits_unsuited rfl nofun
  | assign _ lhs op rhs =>
    obtain ⟨-, hpl, hpr⟩ := Stmt.each_iff.1 hp
    cases s with
    | assign _ lhs' op' rhs' =>
      obtain ⟨-, hl, hr'⟩ := Stmt.each_iff.1 hs
      have hlhs := Expr.fitsRun_iff lhs lhs' hpl hl
      have hrhs := Expr.fitsRun_iff rhs rhs' hpr hr'
      rw [Stmt.term, Stmt.Covers, ← hlhs, ← hrhs]
      split
      · next hsingle => exact fits_assign hsingle
      · refine (fits_shape_if rfl).trans ?_
        simp only [AssignOp.code_inj, decide_eq_true_eq, fitsAll_cons, fitsAll_nil, and_true,
          fits_exprs]
        tauto
    | _ =>
      rw [Stmt.term]
      split <;> exact fits_unsuited rfl nofun
  | var _ names type values =>
    obtain ⟨-, hpn, hpt, hpv⟩ := Stmt.each_iff.1 hp
    cases s with
    | var _ names' type' values' =>
      obtain ⟨-, hn, ht, hv⟩ := Stmt.each_iff.1 hs
      refine (fits_shape_if (r.parts?_var)).trans ?_
      simp only [decide_eq_true_eq, List.cons_append, fitsAll_cons, fitsAll_exprOpt, fitsAll_nil,
        and_true, fits_exprs, Stmt.Covers, Expr.fitsRun_iff names names' hpn hn,
        Expr.fitsOpt_iff type type' hpt ht, Expr.fitsRun_iff values values' hpv hv]
      tauto
    | _ => exact fits_unsuited rfl nofun
  | go _ p =>
    obtain ⟨-, hp⟩ := Stmt.each_iff.1 hp
    cases s with
    | go _ x =>
      obtain ⟨-, hx⟩ := Stmt.each_iff.1 hs
      exact (fits_shape rfl).trans (by simp [p.fits_iff x hp hx])
    | _ => exact fits_unsuited rfl nofun
  | defer _ p =>
    obtain ⟨-, hp⟩ := Stmt.each_iff.1 hp
    cases s with
    | defer _ x =>
      obtain ⟨-, hx⟩ := Stmt.each_iff.1 hs
      exact (fits_shape rfl).trans (by simp [p.fits_iff x hp hx])
    | _ => exact fits_unsuited rfl nofun
  | ret _ ps =>
    obtain ⟨-, hp⟩ := Stmt.each_iff.1 hp
    cases s with
    | ret _ xs =>
      obtain ⟨-, hx⟩ := Stmt.each_iff.1 hs
      exact (fits_shape rfl).trans (by simp [Expr.fitsRun_iff ps xs hp hx])
    | _ => exact fits_unsuited rfl nofun
  | branch _ kind label =>
    cases s with
    | branch _ kind' label' =>
      cases label with
      | none =>
        cases label' with
        | none => exact (fits_shape_if rfl).trans (by simp)
        | some => exact fits_none rfl (by simp)
      | some label =>
        cases label' with
        | none => exact fits_none rfl (by simp)
        | some label' => exact (fits_shape_if rfl).trans (by simp [@eq_comm _ label'])
    | _ => cases label <;> exact fits_unsuited rfl nofun
  | labeled _ label p =>
    obtain ⟨-, hp⟩ := Stmt.each_iff.1 hp
    cases s with
    | labeled _ label' s =>
      obtain ⟨-, hs⟩ := Stmt.each_iff.1 hs
      exact (fits_shape_if rfl).trans (by simp [p.fits_iff s hp hs, @eq_comm _ label'])
    | _ => exact fits_unsuited rfl nofun
  | block _ ps =>
    obtain ⟨-, hp⟩ := Stmt.each_iff.1 hp
    cases s with
    | block _ ss =>
      obtain ⟨-, hx⟩ := Stmt.each_iff.1 hs
      exact (fits_shape rfl).trans (by simp [Stmt.fitsRun_iff ps ss hp hx])
    | _ => exact fits_unsuited rfl nofun
  | cond _ init test body other =>
    obtain ⟨-, hpi, hpt, hpb, hpo⟩ := Stmt.each_iff.1 hp
    cases s with
    | cond _ init' test' body' other' =>
      obtain ⟨-, hi, ht, hb, ho⟩ := Stmt.each_iff.1 hs
      refine (fits_shape_if (r.parts?_cond)).trans ?_
      simp only [Bool.and_eq_true, Bool.or_eq_true, decide_eq_true_eq, List.append_assoc,
        List.cons_append, List.nil_append, fitsAll_stmtSlot, fitsAll_cons, Stmt.Covers,
        Stmt.fitsSlot_iff init init' hpi hi, test.fits_iff test' hpt ht,
        body.fits_iff body' hpb hb, Stmt.fitsOpt_iff other other' hpo ho]
      tauto
    | _ => exact fits_unsuited rfl nofun
  | switch _ init tag body =>
    obtain ⟨-, hpi, hpt, hpb⟩ := Stmt.each_iff.1 hp
    cases s with
    | switch _ init' tag' body' =>
      obtain ⟨-, hi, ht, hb⟩ := Stmt.each_iff.1 hs
      refine (fits_shape_if rfl).trans ?_
      simp only [Bool.and_eq_true, Bool.or_eq_true, List.append_assoc, fitsAll_stmtSlot,
        fitsAll_exprSlot, fitsAll_cons, fitsAll_nil, and_true, Stmt.Covers,
        Stmt.fitsSlot_iff init init' hpi hi, Expr.fitsSlot_iff tag tag' hpt ht,
        body.fits_iff body' hpb hb]
      tauto
    | _ => exact fits_unsuited rfl nofun
  | typeSwitch _ init guard body =>
    obtain ⟨-, hpi, hpg, hpb⟩ := Stmt.each_iff.1 hp
    cases s with
    | typeSwitch _ init' guard' body' =>
      obtain ⟨-, hi, hg, hb⟩ := Stmt.each_iff.1 hs
      refine (fits_shape_if rfl).trans ?_
      simp only [Bool.or_eq_true, fitsAll_stmtSlot, fitsAll_cons, fitsAll_nil, and_true, Stmt.Covers,
        Stmt.fitsSlot_iff init init' hpi hi, guard.fits_iff guard' hpg hg,
        body.fits_iff body' hpb hb]
      tauto
    | _ => exact fits_unsuited rfl nofun
  | clause _ list body =>
    obtain ⟨-, hpl, hpb⟩ := Stmt.each_iff.1 hp
    cases s with
    | clause _ list' body' =>
      obtain ⟨-, hl, hb⟩ := Stmt.each_iff.1 hs
      have hbody := Stmt.fitsRun_iff body body' hpb hb
      cases list with
      | none =>
        cases list' with
        | none =>
          refine (fits_shape rfl).trans ?_
          simp [Expr.termsOpt, Expr.CoversListOpt, hbody]
        | some => exact fits_none rfl (by simp [Expr.CoversListOpt])
      | some ps =>
        cases list' with
        | none => exact fits_none rfl (by simp [Expr.CoversListOpt])
        | some xs =>
          refine (fits_shape rfl).trans ?_
          simp [Expr.termsOpt, Expr.CoversListOpt, hbody,
            Expr.fitsRun_iff ps xs (hpl ps rfl) (hl xs rfl)]
    | _ => cases list <;> exact fits_unsuited rfl nofun
  | loop _ init test post body =>
    obtain ⟨-, hpi, hpt, hpp, hpb⟩ := Stmt.each_iff.1 hp
    cases s with
    | loop _ init' test' post' body' =>
      obtain ⟨-, hi, ht, hpo, hb⟩ := Stmt.each_iff.1 hs
      refine (fits_shape_if rfl).trans ?_
      simp only [Bool.and_eq_true, Bool.or_eq_true, List.append_assoc, fitsAll_stmtSlot,
        fitsAll_exprSlot, fitsAll_cons, fitsAll_nil, and_true, Stmt.Covers,
        Stmt.fitsSlot_iff init init' hpi hi, Expr.fitsSlot_iff test test' hpt ht,
        Stmt.fitsSlot_iff post post' hpp hpo, body.fits_iff body' hpb hb]
      tauto
    | _ => exact fits_unsuited rfl nofun
  | range _ key value define p body =>
    obtain ⟨hpkey, hpk, hpv, hp, hpb⟩ := Stmt.each_iff.1 hp
    cases s with
    | range _ key' value' define' x body' =>
      obtain ⟨hkey, hk, hv, hx, hb⟩ := Stmt.each_iff.1 hs
      have hrest := and_congr (p.fits_iff x hp hx) (body.fits_iff body' hpb hb)
      cases key with
      | none =>
        obtain ⟨hvalue, rfl⟩ := hpkey rfl
        obtain rfl := Option.isNone_iff_eq_none.1 hvalue
        cases key' with
        | none =>
          obtain ⟨hvalue', rfl⟩ := hkey rfl
          obtain rfl := Option.isNone_iff_eq_none.1 hvalue'
          refine (fits_shape rfl).trans ?_
          simpa [Expr.CoversOpt] using hrest
        | some =>
          cases value' <;>
            exact fits_none rfl (by simp [Expr.CoversOpt])
      | some k =>
        cases key' with
        | none =>
          cases value <;>
            exact fits_none rfl (by simp [Expr.CoversOpt])
        | some k' =>
          refine (fits_shape_if r.parts?_range).trans ?_
          simp only [Bool.and_eq_true, decide_eq_true_eq, defineCode_inj, List.cons_append,
            fitsAll_cons, fitsAll_exprOpt, fitsAll_nil, and_true, Stmt.Covers, Expr.coversOpt_some,
            k.fits_iff k' (hpk k rfl) (hk k' rfl), Expr.fitsOpt_iff value value' hpv hv, hrest]
          tauto
    | _ => cases key <;> cases value <;> exact fits_unsuited rfl nofun
  | empty =>
    cases s with
    | empty => exact (fits_shape rfl).trans (by simp)
    | _ => exact fits_unsuited rfl nofun
termination_by structural p

theorem Stmt.fitsOpt_iff (p s : Option Stmt) (hp : ∀ q ∈ p, q.Regular)
    (hs : ∀ t ∈ s, t.Each Node.Keyed) :
    Stmt.CoversOpt r p s ↔ p.isSome = s.isSome ∧
      Term.FitsAll r (Stmt.termOpt p) (spelled p.isSome (.stmtSlot s)) := by
  cases p with
  | none => cases s <;> simp [Stmt.CoversOpt, Stmt.termOpt, spelled]
  | some p =>
    cases s with
    | none => simp [Stmt.CoversOpt]
    | some s =>
      simp [Stmt.CoversOpt, Stmt.termOpt, spelled, Part.stmtSlot,
        p.fits_iff s (hp p rfl) (hs s rfl)]
termination_by structural p

theorem Stmt.fitsSlot_iff (p s : Option Stmt) (hp : ∀ q ∈ p, q.Regular)
    (hs : ∀ t ∈ s, t.Each Node.Keyed) :
    Stmt.CoversSlot r p s ↔ (p.isSome ∨ s.isNone) ∧
      Term.FitsAll r (Stmt.termSlot p) (spelled p.isSome (.stmtSlot s)) := by
  cases p with
  | none => cases s <;> simp [Stmt.CoversSlot, Stmt.termSlot, spelled]
  | some p =>
    have h (t : Stmt) (ht : t ∈ s) := p.fits_iff t (hp p rfl) (hs t ht)
    rw [Stmt.CoversSlot.eq_def, Stmt.termSlot]
    dsimp only
    cases stmtRunName? p with
    | some name => cases s <;> simp [spelled, Part.stmtSlot, Part.stmt]
    | none =>
      cases s with
      | none => simp [spelled, Part.stmtSlot, p.not_fits_absent]
      | some s => simp [spelled, Part.stmtSlot, h]
termination_by structural p

theorem Stmt.fitsRun_iff (ps ss : List Stmt) (hps : ∀ p ∈ ps, p.Regular)
    (hss : ∀ s ∈ ss, s.Each Node.Keyed) :
    FitsRun r .stmts .stmt (Term.fitsEach r (Stmt.terms ps)) ss ↔
      Stmt.CoversList r ps ss := by
  cases ps with
  | nil => simp [Stmt.terms, Term.fitsEach, FitsRun, Stmt.CoversList]
  | cons p ps =>
    obtain ⟨hp, hps⟩ := List.forall_mem_cons.1 hps
    have hhead (t : Stmt) (ht : t ∈ ss) := p.fits_iff t hp (hss t ht)
    have htail (ts : List Stmt) (hts : ts ⊆ ss) :=
      Stmt.fitsRun_iff ps ts hps fun t ht => hss t (hts ht)
    rw [Stmt.terms, Stmt.CoversList]
    cases hrun : stmtRunName? p with
    | some name => exact fitsRun_stretch fun front back h => htail back (by simp [h])
    | none => exact fitsRun_single p.term_ne_seq hhead fun t ts h => htail ts (by simp [h])
termination_by structural ps

end

end GoSift
