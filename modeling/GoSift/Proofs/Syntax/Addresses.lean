import GoSift.Proofs.Syntax.Regular
import Mathlib.Data.List.Basic

/-!
Addresses in trees. A node has parts, and an address leads from part to part into it. Nothing in a node
lies outside its parts but data that holds no nodes. Going through a tree visits every address once, in
the order of addresses: a node before what lies in it, and parts from left to right.
-/
namespace GoSift

def Expr.optParts (x : Option Expr) : List Node :=
  x.toList.map .expr

/-- A list is a part if it is not empty. -/
def Expr.listParts (xs : List Expr) : List Node :=
  if xs.isEmpty then [] else [.exprs xs]

def Field.listParts (fs : List Field) : List Node :=
  if fs.isEmpty then [] else [.fields fs]

def Stmt.optParts (s : Option Stmt) : List Node :=
  s.toList.map .stmt

def Stmt.listParts (ss : List Stmt) : List Node :=
  if ss.isEmpty then [] else [.stmts ss]

/-- The parts of an expression from left to right. -/
def Expr.parts : Expr → List Node
  | ident .. | wildcard .. | lit .. => []
  | composite _ type elts => optParts type ++ listParts elts
  | funcLit _ params results body =>
    Field.listParts params ++ (Field.listParts results ++ [.stmt body])
  | paren _ x | star _ x | unary _ _ x | chanType _ _ x => [.expr x]
  | selector _ x y | index _ x y | binary _ _ x y | keyValue _ x y | mapType _ x y =>
    [.expr x, .expr y]
  | slice _ x low high max _ => .expr x :: (optParts low ++ (optParts high ++ optParts max))
  | typeAssert _ x type => .expr x :: optParts type
  | call _ fn args _ => .expr fn :: listParts args
  | arrayType _ len elem => optParts len ++ [.expr elem]
  | ellipsis _ elem => optParts elem
  | funcType _ params results => Field.listParts params ++ Field.listParts results
  | structType _ fields | interfaceType _ fields => Field.listParts fields

/-- The parts of a field. Its names are no list of their own. -/
def Field.parts (f : Field) : List Node :=
  f.names.map .expr ++ [.expr f.type]

/-- The parts of a statement from left to right. -/
def Stmt.parts : Stmt → List Node
  | expr _ x | incDec _ x _ | go _ x | defer _ x => [.expr x]
  | send _ chan value => [.expr chan, .expr value]
  | assign _ lhs _ rhs => Expr.listParts lhs ++ Expr.listParts rhs
  | var _ names type values =>
    Expr.listParts names ++ (Expr.optParts type ++ Expr.listParts values)
  | ret _ results => Expr.listParts results
  | branch .. | empty _ => []
  | labeled _ _ s => [.stmt s]
  | block _ ss => listParts ss
  | cond _ init test body other =>
    optParts init ++ .expr test :: .stmt body :: optParts other
  | switch _ init tag body => optParts init ++ (Expr.optParts tag ++ [.stmt body])
  | typeSwitch _ init guard body => optParts init ++ [.stmt guard, .stmt body]
  | clause _ list body => Expr.listParts (list.getD []) ++ listParts body
  | loop _ init test post body =>
    optParts init ++ (Expr.optParts test ++ (optParts post ++ [.stmt body]))
  | range _ key value _ x body =>
    Expr.optParts key ++ (Expr.optParts value ++ [.expr x, .stmt body])

/-- The parts of a function: its receiver, its signature and its body. -/
def Func.parts (f : Func) : List Node :=
  f.recv.toList.map .field ++ (Field.listParts f.params ++ (Field.listParts f.results ++
    Stmt.optParts f.body))

/-- The parts of the functions of a file. -/
def File.parts (f : File) : List Node :=
  f.funcs.flatMap Func.parts

namespace Node

/-- The parts of a node from left to right. The parts of a list are its elements. -/
def parts : Node → List Node
  | expr x => x.parts
  | stmt s => s.parts
  | field f => f.parts
  | exprs xs => xs.map expr
  | stmts ss => ss.map stmt
  | fields fs => fs.map field

/-- The node at an address: the numbers of the parts on the way to it. -/
def at? (n : Node) : List Nat → Option Node
  | [] => some n
  | i :: address => n.parts[i]?.bind (·.at? address)

/-- The node at an address among several nodes. -/
def amongAt? (ns : List Node) : List Nat → Option Node
  | [] => none
  | i :: address => ns[i]?.bind (·.at? address)

end Node

/-- The node at an address in the functions of a file. -/
def File.at? (f : File) (address : List Nat) : Option Node :=
  Node.amongAt? f.parts address

/-! ### What is in a node besides its parts -/

/-- Data that holds no nodes. -/
inductive Atom where
  | text (s : String)
  | label (s : Option String)
  | flag (b : Bool)
  | literal (kind : LitKind)
  | unary (op : UnaryOp)
  | binary (op : BinaryOp)
  | assign (op : AssignOp)
  | branch (kind : Branch)
  | channel (dir : ChanDir)
deriving DecidableEq, Repr

/-- What an expression holds besides its parts. Flags say which of the parts that may be missing are
there. -/
def Expr.atoms : Expr → List Atom
  | ident _ name => [.text name]
  | wildcard _ name any => [.text name, .flag any]
  | lit _ kind text => [.literal kind, .text text]
  | composite _ type _ => [.flag type.isSome]
  | funcLit _ params results _ | funcType _ params results =>
    [.flag params.isEmpty, .flag results.isEmpty]
  | slice _ _ low high max full => [.flag low.isSome, .flag high.isSome, .flag max.isSome, .flag full]
  | call _ _ _ spread => [.flag spread]
  | unary _ op _ => [.unary op]
  | binary _ op _ _ => [.binary op]
  | arrayType _ len _ => [.flag len.isSome]
  | chanType _ dir _ => [.channel dir]
  | paren .. | star .. | selector .. | index .. | typeAssert .. | keyValue .. | mapType ..
  | ellipsis .. | structType .. | interfaceType .. => []

/-- What a statement holds besides its parts. -/
def Stmt.atoms : Stmt → List Atom
  | incDec _ _ up => [.flag up]
  | assign _ lhs op _ => [.flag lhs.isEmpty, .assign op]
  | var _ names type _ => [.flag names.isEmpty, .flag type.isSome]
  | branch _ kind label => [.branch kind, .label label]
  | labeled _ label _ => [.text label]
  | cond _ init _ _ _ | typeSwitch _ init _ _ => [.flag init.isSome]
  | switch _ init tag _ => [.flag init.isSome, .flag tag.isSome]
  | clause _ list _ => [.flag list.isSome, .flag (list.getD []).isEmpty]
  | loop _ init test post _ => [.flag init.isSome, .flag test.isSome, .flag post.isSome]
  | range _ key value define _ _ => [.flag key.isSome, .flag value.isSome, .flag define]
  | expr .. | send .. | go .. | defer .. | ret .. | block .. | empty .. => []

section

variable {r s : List Node}

@[simp] theorem Expr.optParts_inj {x y : Option Expr} : optParts x = optParts y ↔ x = y := by
  cases x <;> cases y <;> simp [optParts]

@[simp] theorem Expr.listParts_inj {xs ys : List Expr} : listParts xs = listParts ys ↔ xs = ys := by
  cases xs <;> cases ys <;> simp [listParts]

@[simp] theorem Field.listParts_inj {fs gs : List Field} :
    listParts fs = listParts gs ↔ fs = gs := by
  cases fs <;> cases gs <;> simp [listParts]

@[simp] theorem Stmt.optParts_inj {x y : Option Stmt} : optParts x = optParts y ↔ x = y := by
  cases x <;> cases y <;> simp [optParts]

@[simp] theorem Stmt.listParts_inj {xs ys : List Stmt} : listParts xs = listParts ys ↔ xs = ys := by
  cases xs <;> cases ys <;> simp [listParts]

theorem Expr.optParts_append_inj {x y : Option Expr} (h : x.isSome = y.isSome) :
    optParts x ++ r = optParts y ++ s ↔ x = y ∧ r = s := by
  cases x <;> cases y <;> simp_all [optParts]

theorem Expr.listParts_append_inj {xs ys : List Expr} (h : xs.isEmpty = ys.isEmpty) :
    listParts xs ++ r = listParts ys ++ s ↔ xs = ys ∧ r = s := by
  cases xs <;> cases ys <;> simp_all [listParts]

theorem Field.listParts_append_inj {fs gs : List Field} (h : fs.isEmpty = gs.isEmpty) :
    listParts fs ++ r = listParts gs ++ s ↔ fs = gs ∧ r = s := by
  cases fs <;> cases gs <;> simp_all [listParts]

theorem Stmt.optParts_append_inj {x y : Option Stmt} (h : x.isSome = y.isSome) :
    optParts x ++ r = optParts y ++ s ↔ x = y ∧ r = s := by
  cases x <;> cases y <;> simp_all [optParts]

end

theorem Expr.eq_of_parts {x y : Expr} (hctor : x.ctorIdx = y.ctorIdx) (hpos : x.pos = y.pos)
    (hatoms : x.atoms = y.atoms) (hparts : x.parts = y.parts) : x = y := by
  -- With the same constructor, the flags say where the parts of a field begin and end.
  cases x <;> cases y <;> first
    | cases hctor; done
    | simp_all [pos, atoms, parts, optParts_append_inj, Field.listParts_append_inj]

theorem Field.eq_of_parts {f g : Field} (hpos : f.pos = g.pos) (hparts : f.parts = g.parts) :
    f = g := by
  obtain ⟨pos, names, type⟩ := f
  obtain ⟨pos', names', type'⟩ := g
  obtain ⟨hnames, htype⟩ := List.append_inj' hparts rfl
  obtain rfl : names = names' := List.map_injective_iff.mpr (fun _ _ => Node.expr.inj) hnames
  obtain rfl : type = type' := Node.expr.inj (List.cons.inj htype).1
  obtain rfl : pos = pos' := hpos
  rfl

theorem Stmt.eq_of_parts {s t : Stmt} (hctor : s.ctorIdx = t.ctorIdx) (hpos : s.pos = t.pos)
    (hatoms : s.atoms = t.atoms) (hparts : s.parts = t.parts) : s = t := by
  cases s with
  | clause pos list body =>
    cases t with
    | clause pos' list' body' =>
      simp only [atoms, List.cons.injEq, Atom.flag.injEq, and_true] at hatoms
      obtain ⟨hsome, hempty⟩ := hatoms
      obtain ⟨hlist, hbody⟩ := (Expr.listParts_append_inj hempty).mp hparts
      obtain rfl : list = list' := by cases list <;> cases list' <;> simp_all
      obtain rfl := Stmt.listParts_inj.mp hbody
      obtain rfl : pos = pos' := hpos
      rfl
    | _ => cases hctor
  | _ =>
    cases t <;> first
      | cases hctor; done
      | simp_all [pos, atoms, parts, optParts_append_inj, Expr.optParts_append_inj,
          Expr.listParts_append_inj]

/-- What a node holds besides its parts: what it is, where it starts, and data without nodes. -/
def Node.label : Node → Nat × Option (Nat × Position × List Atom)
  | expr x => (0, some (x.ctorIdx, x.pos, x.atoms))
  | stmt s => (1, some (s.ctorIdx, s.pos, s.atoms))
  | field f => (2, some (0, f.pos, []))
  | exprs _ => (3, none)
  | stmts _ => (4, none)
  | fields _ => (5, none)

/-- A node is made of its parts and of data without nodes. -/
theorem Node.eq_of_parts {n m : Node} (hlabel : n.label = m.label) (hparts : n.parts = m.parts) :
    n = m := by
  cases n with
  | expr x =>
    cases m with
    | expr y =>
      simp only [label, Prod.mk.injEq, Option.some.injEq, true_and] at hlabel
      obtain ⟨hctor, hpos, hatoms⟩ := hlabel
      rw [Expr.eq_of_parts hctor hpos hatoms hparts]
    | _ => cases hlabel
  | stmt s =>
    cases m with
    | stmt t =>
      simp only [label, Prod.mk.injEq, Option.some.injEq, true_and] at hlabel
      obtain ⟨hctor, hpos, hatoms⟩ := hlabel
      rw [Stmt.eq_of_parts hctor hpos hatoms hparts]
    | _ => cases hlabel
  | field f =>
    cases m with
    | field g =>
      simp only [label, Prod.mk.injEq, Option.some.injEq, true_and, and_true] at hlabel
      rw [Field.eq_of_parts hlabel hparts]
    | _ => cases hlabel
  | exprs xs =>
    cases m with
    | exprs ys => rw [List.map_injective_iff.mpr (fun _ _ => expr.inj) hparts]
    | _ => cases hlabel
  | stmts ss =>
    cases m with
    | stmts ts => rw [List.map_injective_iff.mpr (fun _ _ => stmt.inj) hparts]
    | _ => cases hlabel
  | fields fs =>
    cases m with
    | fields gs => rw [List.map_injective_iff.mpr (fun _ _ => field.inj) hparts]
    | _ => cases hlabel

/-! ### Visits -/

namespace Node

@[simp] theorem flatMap_optExprParts (x : Option Expr) :
    (Expr.optParts x).flatMap visits = Expr.optVisits x := by
  cases x <;> simp [Expr.optParts, Expr.optVisits, visits]

@[simp] theorem flatMap_exprs (xs : List Expr) :
    (xs.map expr).flatMap visits = Expr.eachVisits xs := by
  induction xs with
  | nil => rfl
  | cons x xs ih =>
    rw [List.map_cons, List.flatMap_cons, ih]
    rfl

@[simp] theorem flatMap_exprListParts (xs : List Expr) :
    (Expr.listParts xs).flatMap visits = Expr.listVisits xs := by
  cases xs <;> simp [Expr.listParts, Expr.listVisits, visits]

@[simp] theorem flatMap_fields (fs : List Field) :
    (fs.map field).flatMap visits = Field.eachVisits fs := by
  induction fs with
  | nil => rfl
  | cons f fs ih =>
    rw [List.map_cons, List.flatMap_cons, ih]
    rfl

@[simp] theorem flatMap_fieldListParts (fs : List Field) :
    (Field.listParts fs).flatMap visits = Field.listVisits fs := by
  cases fs <;> simp [Field.listParts, Field.listVisits, visits]

@[simp] theorem flatMap_optStmtParts (s : Option Stmt) :
    (Stmt.optParts s).flatMap visits = Stmt.optVisits s := by
  cases s <;> simp [Stmt.optParts, Stmt.optVisits, visits]

@[simp] theorem flatMap_stmts (ss : List Stmt) :
    (ss.map stmt).flatMap visits = Stmt.eachVisits ss := by
  induction ss with
  | nil => rfl
  | cons s ss ih =>
    rw [List.map_cons, List.flatMap_cons, ih]
    rfl

@[simp] theorem flatMap_stmtListParts (ss : List Stmt) :
    (Stmt.listParts ss).flatMap visits = Stmt.listVisits ss := by
  cases ss <;> simp [Stmt.listParts, Stmt.listVisits, visits]

theorem listOptVisits_eq (xs : Option (List Expr)) :
    Expr.listOptVisits xs = Expr.listVisits (xs.getD []) := by
  cases xs <;> rfl

end Node

open Node

theorem Expr.visits_eq (x : Expr) : x.visits = .expr x :: x.parts.flatMap Node.visits := by
  cases x <;> simp [Expr.visits, Expr.parts, Node.visits]

theorem Field.visits_eq (f : Field) : f.visits = .field f :: f.parts.flatMap Node.visits := by
  cases f
  simp [Field.visits, Field.parts, Field.names, Field.type, Node.visits]

theorem Stmt.visits_eq (s : Stmt) : s.visits = .stmt s :: s.parts.flatMap Node.visits := by
  cases s <;> simp [Stmt.visits, Stmt.parts, Node.visits, listOptVisits_eq]

namespace Node

/-- A node is visited before its parts. -/
theorem visits_eq {n : Node} (h : n.size ≠ 0) : n.visits = n :: n.parts.flatMap visits := by
  cases n with
  | expr x => exact x.visits_eq
  | stmt s => exact s.visits_eq
  | field f => exact f.visits_eq
  | exprs xs =>
    cases xs with
    | nil => exact absurd rfl h
    | cons x xs =>
      rw [parts, flatMap_exprs]
      rfl
  | stmts ss =>
    cases ss with
    | nil => exact absurd rfl h
    | cons s ss =>
      rw [parts, flatMap_stmts]
      rfl
  | fields fs =>
    cases fs with
    | nil => exact absurd rfl h
    | cons f fs =>
      rw [parts, flatMap_fields]
      rfl

theorem sublist_flatMap_of_mem {α β : Type} {f : α → List β} {a : α} {as : List α} (h : a ∈ as) :
    (f a).Sublist (as.flatMap f) := by
  rw [List.flatMap_def]
  exact List.sublist_flatten_of_mem (List.mem_map_of_mem h)

/-- Whether a node is no empty list. -/
def Solid (n : Node) : Prop :=
  n.size ≠ 0

@[simp] theorem solid_expr (x : Expr) : Solid (.expr x) := Nat.one_ne_zero

@[simp] theorem solid_stmt (s : Stmt) : Solid (.stmt s) := Nat.one_ne_zero

@[simp] theorem solid_field (f : Field) : Solid (.field f) := Nat.one_ne_zero

@[simp] theorem solid_optExprParts (x : Option Expr) : Each Solid (Expr.optParts x) := by
  cases x <;> simp [Expr.optParts]

@[simp] theorem solid_exprListParts (xs : List Expr) : Each Solid (Expr.listParts xs) := by
  cases xs <;> simp [Expr.listParts, Solid, size]

@[simp] theorem solid_fieldListParts (fs : List Field) : Each Solid (Field.listParts fs) := by
  cases fs <;> simp [Field.listParts, Solid, size]

@[simp] theorem solid_optStmtParts (s : Option Stmt) : Each Solid (Stmt.optParts s) := by
  cases s <;> simp [Stmt.optParts]

@[simp] theorem solid_stmtListParts (ss : List Stmt) : Each Solid (Stmt.listParts ss) := by
  cases ss <;> simp [Stmt.listParts, Solid, size]

/-- No part is an empty list. -/
theorem solid_parts (n : Node) : Each Solid n.parts := by
  cases n with
  | expr x => cases x <;> simp [parts, Expr.parts]
  | stmt s => cases s <;> simp [parts, Stmt.parts]
  | field f =>
    rw [parts, Field.parts, each_append]
    simp [Each]
  | exprs | stmts | fields => simp [parts, Each]

theorem solid_of_mem_parts {n m : Node} (hm : m ∈ n.parts) : n.Solid := by
  cases n with
  | exprs xs | stmts xs | fields xs =>
    cases xs with
    | nil => cases hm
    | cons => exact Nat.succ_ne_zero _
  | _ => exact Nat.one_ne_zero

/-- What holds of a node whenever it holds of the parts holds of all nodes. -/
theorem parts_induction {P : Node → Prop} (step : ∀ n, (∀ m ∈ n.parts, P m) → P n) (n : Node) :
    P n := by
  -- The parts have fewer visits than the node, which is visited itself.
  induction hlen : n.visits.length using Nat.strongRecOn generalizing n with
  | _ len ih =>
    subst hlen
    refine step n fun m hm => ih _ ?_ m rfl
    rw [visits_eq (solid_of_mem_parts hm)]
    exact Nat.lt_succ_of_le (sublist_flatMap_of_mem hm).length_le

end Node

/-- All values that are found at addresses, each as often as it is found, in the order of addresses. An
address comes before those that go on from it, and then the number of the part decides. -/
def Enumerates {α : Type} (get? : List Nat → Option α) (xs : List α) : Prop :=
  ∃ addresses : List (List Nat), addresses.Pairwise (· < ·) ∧
    (∀ address, address ∈ addresses ↔ (get? address).isSome) ∧ addresses.map get? = xs.map some

namespace Enumerates

variable {α β : Type} {get? : List Nat → Option α} {xs : List α}

/-- What is made of some of the values, found at their addresses. -/
theorem filterMap (h : Enumerates get? xs) (f : α → Option β) :
    Enumerates (fun address => (get? address).bind f) (xs.filterMap f) := by
  obtain ⟨addresses, hsorted, hmem, hvalues⟩ := h
  refine ⟨addresses.filter fun address => ((get? address).bind f).isSome, hsorted.filter _, ?_, ?_⟩
  · intro address
    rw [List.mem_filter, hmem]
    refine ⟨And.right, fun hsome => ⟨Option.isSome_of_isSome_bind hsome, hsome⟩⟩
  · clear hsorted hmem
    induction addresses generalizing xs with
    | nil =>
      obtain rfl : xs = [] := by simpa using hvalues.symm
      rfl
    | cons address addresses ih =>
      cases xs with
      | nil => cases hvalues
      | cons x xs =>
        obtain ⟨hx, hxs⟩ := List.cons.inj hvalues
        have hrest := ih hxs
        rw [List.filter_cons, List.filterMap_cons]
        simp only [hx, Option.bind_some]
        cases hf : f x with
        | none => exact hrest
        | some y => simp [hx, hf, hrest]

end Enumerates

namespace Node

/-- The address with the number of its first part one higher. -/
def moveRight : List Nat → List Nat
  | [] => []
  | i :: address => (i + 1) :: address

theorem moveRight_lt {a b : List Nat} (h : a < b) : moveRight a < moveRight b := by
  cases a with
  | nil =>
    cases b with
    | nil => exact absurd h (List.lt_irrefl _)
    | cons => exact List.nil_lt_cons _ _
  | cons i a =>
    cases b with
    | nil => exact absurd h (List.not_lt_nil _)
    | cons j b =>
      rw [List.cons_lt_cons_iff] at h
      refine List.cons_lt_cons_iff.mpr (h.imp Nat.succ_lt_succ ?_)
      rintro ⟨rfl, hab⟩
      exact ⟨rfl, hab⟩

/-- A node further to the left makes no difference but to the first number. -/
theorem amongAt?_moveRight (n : Node) (ns : List Node) (address : List Nat) :
    amongAt? (n :: ns) (moveRight address) = amongAt? ns address := by
  cases address <;> rfl

/-- What lies in several nodes is what lies in each of them. -/
theorem enumerates_among {ns : List Node} (h : ∀ n ∈ ns, Enumerates n.at? n.visits) :
    Enumerates (amongAt? ns) (ns.flatMap visits) := by
  induction ns with
  | nil => exact ⟨[], .nil, fun address => by cases address <;> simp [amongAt?], rfl⟩
  | cons n ns ih =>
    obtain ⟨hn, hns⟩ := List.forall_mem_cons.mp h
    obtain ⟨inside, hsorted, hmem, hvalues⟩ := hn
    obtain ⟨beside, hsorted', hmem', hvalues'⟩ := ih hns
    refine ⟨inside.map (0 :: ·) ++ beside.map moveRight, ?_, ?_, ?_⟩
    · refine List.pairwise_append.mpr ⟨?_, hsorted'.map _ fun a b => moveRight_lt, ?_⟩
      · exact hsorted.map _ fun a b hab => List.cons_lt_cons_iff.mpr (Or.inr ⟨rfl, hab⟩)
      · rintro a ha b hb
        obtain ⟨a, -, rfl⟩ := List.mem_map.mp ha
        obtain ⟨b, hb', rfl⟩ := List.mem_map.mp hb
        cases b with
        | nil => cases (hmem' []).mp hb'
        | cons i b => exact List.cons_lt_cons_iff.mpr (Or.inl (Nat.succ_pos i))
    · intro address
      rw [List.mem_append]
      constructor
      · rintro (hin | hbeside)
        · obtain ⟨a, ha, rfl⟩ := List.mem_map.mp hin
          exact (hmem a).mp ha
        · obtain ⟨b, hb, rfl⟩ := List.mem_map.mp hbeside
          rw [amongAt?_moveRight]
          exact (hmem' b).mp hb
      · intro hsome
        match address with
        | [] => cases hsome
        | 0 :: a => exact Or.inl (List.mem_map_of_mem ((hmem a).mpr hsome))
        | (i + 1) :: a =>
          have hb : i :: a ∈ beside := (hmem' _).mpr hsome
          exact Or.inr (List.mem_map.mpr ⟨_, hb, rfl⟩)
    · rw [List.map_append, List.map_map, List.map_map, List.flatMap_cons, List.map_append, ← hvalues,
        ← hvalues']
      congr 1
      exact List.map_congr_left fun b _ => amongAt?_moveRight n ns b

/-- Visiting a node goes through all addresses in it. -/
theorem enumerates_visits (n : Node) (h : n.Solid) : Enumerates n.at? n.visits := by
  induction n using parts_induction with
  | step n ih =>
    obtain ⟨addresses, hsorted, hmem, hvalues⟩ :=
      enumerates_among fun m hm => ih m hm (n.solid_parts m hm)
    refine ⟨[] :: addresses, ?_, ?_, ?_⟩
    · refine List.pairwise_cons.mpr ⟨fun a ha => ?_, hsorted⟩
      cases a with
      | nil => cases (hmem []).mp ha
      | cons i a => exact List.nil_lt_cons _ _
    · intro address
      cases address with
      | nil => simp [at?]
      | cons i a =>
        rw [List.mem_cons, hmem]
        simp [at?, amongAt?]
    · rw [visits_eq h, List.map_cons, List.map_cons, ← hvalues]
      refine congrArg (some n :: ·) (List.map_congr_left fun a ha => ?_)
      cases a with
      | nil => cases (hmem []).mp ha
      | cons i a => rfl

end Node

theorem Func.visits_eq (f : Func) : f.visits = f.parts.flatMap Node.visits := by
  rw [Func.visits, Func.parts]
  cases f.recv <;> simp [Node.visits]

theorem File.visits_eq (f : File) : f.visits = f.parts.flatMap Node.visits := by
  rw [File.visits, File.parts, List.flatMap_assoc]
  exact List.flatMap_congr fun f _ => f.visits_eq

theorem Func.solid_parts (f : Func) : Node.Each Solid f.parts := by
  rw [Func.parts]
  cases f.recv <;> simp

theorem File.solid_parts (f : File) : Node.Each Solid f.parts := by
  intro n hn
  obtain ⟨func, -, hn⟩ := List.mem_flatMap.mp hn
  exact func.solid_parts n hn

/-- Visiting a file goes through all addresses in its functions. -/
theorem File.enumerates_visits (f : File) : Enumerates f.at? f.visits := by
  rw [f.visits_eq]
  exact enumerates_among fun n hn => n.enumerates_visits (f.solid_parts n hn)

/-- What has an address is no empty list. -/
theorem Node.solid_of_at? {n m : Node} (h : n.Solid) {address : List Nat}
    (hm : n.at? address = some m) : m.Solid := by
  induction address generalizing n with
  | nil =>
    obtain rfl := Option.some.inj hm
    exact h
  | cons i address ih =>
    obtain ⟨part, hpart, hm⟩ := Option.bind_eq_some_iff.mp hm
    exact ih (n.solid_parts part (List.mem_of_getElem? hpart)) hm

theorem File.solid_of_at? (f : File) {n : Node} {address : List Nat} (h : f.at? address = some n) :
    n.Solid := by
  cases address with
  | nil => cases h
  | cons i address =>
    obtain ⟨part, hpart, hn⟩ := Option.bind_eq_some_iff.mp h
    exact Node.solid_of_at? (f.solid_parts part (List.mem_of_getElem? hpart)) hn

/-- What is visited from a visited node is visited in the same order. -/
theorem Node.visits_sublist {n m : Node} (h : n.Solid) (hm : m ∈ n.visits) :
    m.Solid ∧ m.visits.Sublist n.visits := by
  induction n using parts_induction with
  | step n ih =>
    rw [visits_eq h] at hm
    rcases List.mem_cons.mp hm with rfl | hm
    · exact ⟨h, .refl _⟩
    · obtain ⟨part, hpart, hm⟩ := List.mem_flatMap.mp hm
      obtain ⟨hsolid, hin⟩ := ih part hpart (n.solid_parts part hpart) hm
      rw [visits_eq h]
      exact ⟨hsolid, (hin.trans (sublist_flatMap_of_mem hpart)).cons _⟩

theorem File.visits_sublist {file : File} {n : Node} (hn : n ∈ file.visits) :
    n.Solid ∧ n.visits.Sublist file.visits := by
  rw [file.visits_eq] at hn ⊢
  obtain ⟨part, hpart, hn⟩ := List.mem_flatMap.mp hn
  obtain ⟨hsolid, hin⟩ := Node.visits_sublist (file.solid_parts part hpart) hn
  exact ⟨hsolid, hin.trans (sublist_flatMap_of_mem hpart)⟩

end GoSift
