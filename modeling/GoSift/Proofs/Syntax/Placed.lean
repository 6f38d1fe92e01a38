import GoSift.Proofs.Syntax.Addresses
import GoSift.Proofs.Syntax.Trail

/-!
Every parser of the grammar leaves on the trail just the places of the nodes of its tree, in the order in
which they are visited.
-/
namespace GoSift

open Position

/-- The places where nodes start. -/
def Node.places (ns : List Node) : List Position :=
  ns.filterMap pos?

/-- The places of a function: its own, and those of the nodes in it. -/
def Func.places (f : Func) : List Position :=
  f.pos :: Node.places f.visits

namespace Node

variable {ns ms : List Node}

@[simp] theorem places_nil : places [] = [] := rfl

@[simp] theorem places_append : places (ns ++ ms) = places ns ++ places ms :=
  List.filterMap_append

@[simp] theorem places_expr {x : Expr} : places (.expr x :: ns) = x.pos :: places ns := rfl

@[simp] theorem places_stmt {s : Stmt} : places (.stmt s :: ns) = s.pos :: places ns := rfl

@[simp] theorem places_field {f : Field} : places (.field f :: ns) = f.pos :: places ns := rfl

@[simp] theorem places_exprs {x : Expr} {xs : List Expr} :
    places (.exprs (x :: xs) :: ns) = x.pos :: places ns := rfl

@[simp] theorem places_stmts {s : Stmt} {ss : List Stmt} :
    places (.stmts (s :: ss) :: ns) = s.pos :: places ns := rfl

@[simp] theorem places_fields {f : Field} {fs : List Field} :
    places (.fields (f :: fs) :: ns) = f.pos :: places ns := rfl

/-- A tree may be given its place twice. -/
theorem retraces_expr (x : Expr) : Retraces (places x.visits) (x.pos :: places x.visits) := by
  rw [x.visits_eq, places_expr]
  exact (Retraces.refl _).double

theorem retraces_stmt (s : Stmt) : Retraces (places s.visits) (s.pos :: places s.visits) := by
  rw [s.visits_eq, places_stmt]
  exact (Retraces.refl _).double

theorem retraces_field (f : Field) : Retraces (places f.visits) (f.pos :: places f.visits) := by
  rw [f.visits_eq, places_field]
  exact (Retraces.refl _).double

/-- A list has the place of its first element. -/
theorem retraces_exprList (xs : List Expr) :
    Retraces (places (Expr.eachVisits xs)) (places (Expr.listVisits xs)) := by
  cases xs with
  | nil => exact .refl _
  | cons x xs =>
    simp only [Expr.eachVisits, Expr.listVisits, places_append, places_exprs]
    exact (retraces_expr x).append (.refl _)

/-- What begins with a list may be given the place of its first element, too. -/
theorem retraces_listStart (x : Expr) (xs : List Expr) :
    Retraces (places (Expr.eachVisits (x :: xs))) (x.pos :: places (Expr.listVisits (x :: xs))) := by
  have hlist := retraces_exprList (x :: xs)
  rw [Expr.listVisits, places_exprs] at hlist ⊢
  exact hlist.double

theorem retraces_stmtList (ss : List Stmt) :
    Retraces (places (Stmt.eachVisits ss)) (places (Stmt.listVisits ss)) := by
  cases ss with
  | nil => exact .refl _
  | cons s ss =>
    simp only [Stmt.eachVisits, Stmt.listVisits, places_append, places_stmts]
    exact (retraces_stmt s).append (.refl _)

theorem retraces_fieldList (fs : List Field) :
    Retraces (places (Field.eachVisits fs)) (places (Field.listVisits fs)) := by
  cases fs with
  | nil => exact .refl _
  | cons f fs =>
    simp only [Field.eachVisits, Field.listVisits, places_append, places_fields]
    exact (retraces_field f).append (.refl _)

theorem each_at {S : Position → Prop} (h : ∀ p ∈ places ns, S p) : Each (At S) ns := by
  intro n hn
  cases n with
  | expr | stmt => exact h _ (List.mem_filterMap.mpr ⟨_, hn, rfl⟩)
  | _ => trivial

end Node

open Node

theorem Field.mem_listVisits {f : Field} {fs : List Field} (h : f ∈ fs) :
    Node.field f ∈ Field.listVisits fs := by
  have heach : Node.field f ∈ Field.eachVisits fs := by
    rw [← flatMap_fields]
    refine List.mem_flatMap.mpr ⟨_, List.mem_map_of_mem h, ?_⟩
    rw [Node.visits, f.visits_eq]
    exact List.mem_cons_self
  cases fs with
  | nil => cases h
  | cons => exact List.mem_cons_of_mem _ heach

/-- The fields in the header of a function are at its places. -/
theorem Func.pos_mem_places {func : Func} {f : Field} (h : f ∈ func.params ∨ f ∈ func.results) :
    f.pos ∈ func.places := by
  refine List.mem_cons_of_mem _ (List.mem_filterMap.mpr ⟨.field f, ?_, rfl⟩)
  simp only [Func.visits, List.mem_append]
  rcases h with h | h
  · exact .inl (.inl (.inr (Field.mem_listVisits h)))
  · exact .inl (.inr (Field.mem_listVisits h))

/-- The places of the entries of a parameter list. -/
def entryPlaces (entries : List (Expr × Option Expr)) : List Position :=
  entries.flatMap fun entry => places entry.1.visits ++ places (Expr.optVisits entry.2)

def RangeClause.places (c : RangeClause) : List Position :=
  Node.places (Expr.optVisits c.key) ++ (Node.places (Expr.optVisits c.value) ++ Node.places c.x.visits)

def Simple.places : Simple → List Position
  | stmt s => Node.places s.visits
  | range c => c.places

def LoopHeader.places : LoopHeader → List Position
  | clauses init test post => Node.places (Stmt.optVisits init) ++
      (Node.places (Expr.optVisits test) ++ Node.places (Stmt.optVisits post))
  | range c => c.places

namespace Parser.Trails

variable {α : Type} {I : Token → Prop} {t : Token} {ps : List Position}

/-- A tree that begins with another is given the place of that one. -/
theorem startingWith {p : Parser α} {f : α → List Position} (x : Expr)
    (hp : p.Trails I t (ps ++ x.pos :: places x.visits) f) :
    p.Trails I t (ps ++ places x.visits) f :=
  .retrace (.append (.refl ps) (retraces_expr x)) hp

/-- A list is given the place of its first element. -/
theorem exprList {p : Parser (List Expr)}
    (hp : p.Trails I t ps fun xs => ps ++ places (Expr.eachVisits xs)) :
    p.Trails I t ps fun xs => ps ++ places (Expr.listVisits xs) :=
  .mono hp fun xs => .append (.refl ps) (retraces_exprList xs)

theorem fieldList {p : Parser (List Field)}
    (hp : p.Trails I t ps fun fs => ps ++ places (Field.eachVisits fs)) :
    p.Trails I t ps fun fs => ps ++ places (Field.listVisits fs) :=
  .mono hp fun fs => .append (.refl ps) (retraces_fieldList fs)

theorem stmtList {p : Parser (List Stmt)}
    (hp : p.Trails I t ps fun ss => ps ++ places (Stmt.eachVisits ss)) :
    p.Trails I t ps fun ss => ps ++ places (Stmt.listVisits ss) :=
  .mono hp fun ss => .append (.refl ps) (retraces_stmtList ss)

theorem noExpr : (Pure.pure none : Parser (Option Expr)).Trails I t ps
    fun x => ps ++ places (Expr.optVisits x) :=
  .pure (.of_eq (List.append_nil ps).symm)

theorem noStmt : (Pure.pure none : Parser (Option Stmt)).Trails I t ps
    fun s => ps ++ places (Stmt.optVisits s) :=
  .pure (.of_eq (List.append_nil ps).symm)

end Parser.Trails

/-- The trail behind which a nonterminal is read. A tail is read behind the tree it goes on with. -/
def Nonterminal.trailAhead (ps : List Position) : Nonterminal → List Position
  | binaryTail _ x | primaryTail x => ps ++ places x.visits
  | _ => ps

/-- The places of what a nonterminal reads. -/
def Nonterminal.places : (n : Nonterminal) → n.Tree → List Position
  | binary _ | binaryTail _ _ | unary | primaryTail _ | type => fun x => Node.places x.visits
  | exprs | elements | names => fun xs => Node.places (Expr.eachVisits xs)
  | args => fun r => Node.places (Expr.eachVisits r.1)
  | params => entryPlaces
  | fields | methods => fun fs => Node.places (Field.eachVisits fs)
  | stmt => fun s => Node.places s.visits
  | stmts | clauses => fun ss => Node.places (Stmt.eachVisits ss)
  | importSpecs | imports => fun _ => []
  | funcs | decls => fun fs => fs.flatMap Func.places

/-- Where a nonterminal is read. A statement is not read at a semicolon that is put in. -/
def Nonterminal.ReadAt (I : Token → Prop) (t : Token) : Nonterminal → Prop
  | stmt => t.kind = .symbol .semiColon → I t
  | _ => True

/-- A grammar that gives places in the order of the tokens. -/
structure Grammar.Follows (I : Token → Prop) (g : Grammar) : Prop where
  leading : g.Leading
  trails : ∀ (n : Nonterminal) {t : Token}, n.ReadAt I t → ∀ {ps : List Position},
    (g n).Trails I t (n.trailAhead ps) fun a => ps ++ n.places a

namespace Grammar

open GoSift.Parser

variable {g : Grammar} {I : Token → Prop} {t : Token} {ps : List Position}

attribute [local simp] Expr.visits Expr.pos Expr.optVisits Expr.eachVisits Expr.listVisits
  Expr.listOptVisits Field.visits Field.pos Field.eachVisits Field.listVisits Stmt.visits Stmt.pos
  Stmt.optVisits Stmt.eachVisits Nonterminal.places Simple.places LoopHeader.places RangeClause.places
  entryPlaces

theorem name_trails : Parser.name.Trails I t ps fun x => ps ++ places x.visits := by
  by_cases ht : t.kind.isProper
  · refine .push ht (.advance fun u => ?_)
    split
    · exact .same (by simp)
    · exact .same (by simp)
    · exact .throw
  · refine .advance fun u => ?_
    split
    · next hk => simp [hk, Token.Kind.isProper] at ht
    · next hk => simp [hk, Token.Kind.isProper] at ht
    · exact .throw

variable (hg : g.Follows I)

include hg

theorem expr_trails : g.expr.Trails I t ps fun x => ps ++ places x.visits :=
  hg.trails (.binary 1) trivial

theorem type_trails : (g .type).Trails I t ps fun x => ps ++ places x.visits :=
  hg.trails .type trivial

theorem exprList_trails : (g .exprs).Trails I t ps fun xs => ps ++ places (Expr.listVisits xs) :=
  .exprList (hg.trails .exprs trivial)

theorem argList_trails : (g .args).Trails I t ps fun r => ps ++ places (Expr.listVisits r.1) :=
  .mono (hg.trails .args trivial) fun r => .append (.refl ps) (retraces_exprList r.1)

/-! ### Types -/

omit hg in
theorem eachVisits_append (xs ys : List Expr) :
    Expr.eachVisits (xs ++ ys) = Expr.eachVisits xs ++ Expr.eachVisits ys := by
  rw [← flatMap_exprs, ← flatMap_exprs, ← flatMap_exprs, List.map_append, List.flatMap_append]

omit hg in
/-- A field that shares a type among names starts with the first of them. -/
theorem groupParams_retraces {close : Range} {names : List Expr} {entries : List (Expr × Option Expr)}
    {fields : List Field} (h : groupParams close names entries = .ok fields) :
    Retraces (places (Expr.eachVisits names) ++ entryPlaces entries)
      (places (Field.eachVisits fields)) := by
  induction entries generalizing names fields with
  | nil =>
    cases names with
    | nil =>
      cases h
      exact .nil
    | cons _ _ => cases h
  | cons entry entries ih =>
    obtain ⟨name, type⟩ := entry
    simp only [groupParams] at h
    split at h
    · cases h
    · cases type with
      | none =>
        have hrest := ih h
        rw [eachVisits_append] at hrest
        simpa using hrest
      | some type =>
        simp only [Except.map] at h
        split at h
        · cases h
        · next rest hgroup =>
          cases h
          have hrest := ih hgroup
          obtain ⟨first, more, hnames⟩ : ∃ first more, names ++ [name] = first :: more := by
            cases names with
            | nil => exact ⟨name, [], rfl⟩
            | cons first more => exact ⟨first, more ++ [name], rfl⟩
          have hhead : Retraces (places (Expr.eachVisits (names ++ [name])))
              (((names ++ [name]).headD name).pos :: places (Expr.eachVisits (names ++ [name]))) := by
            rw [hnames]
            simp only [List.headD_cons, Expr.eachVisits, places_append]
            exact (retraces_expr first).append (.refl _)
          have hall := hhead.append ((Retraces.refl (places type.visits)).append hrest)
          rw [eachVisits_append] at hall
          simpa [eachVisits_append] using hall

omit hg in
/-- A field without names starts with its type. -/
theorem unnamed_retraces (entries : List (Expr × Option Expr)) : Retraces (entryPlaces entries)
    (places (Field.eachVisits (entries.map fun entry => .mk entry.1.pos [] entry.1))) := by
  induction entries with
  | nil => exact .nil
  | cons entry entries ih =>
    have hentry := (retraces_expr entry.1).append (.nothing (places (Expr.optVisits entry.2)))
    simpa using hentry.append ih

omit hg in
theorem paramFields_retraces {close : Range} {entries : List (Expr × Option Expr)}
    {fields : List Field} (h : paramFields close entries = .ok fields) :
    Retraces (entryPlaces entries) (places (Field.eachVisits fields)) := by
  unfold paramFields at h
  split at h
  · exact groupParams_retraces h
  · cases h
    exact unnamed_retraces entries

theorem paramList_trails :
    (paramList g).Trails I t ps fun fs => ps ++ places (Field.listVisits fs) := by
  refine .seq fun _ _ => .bind (hg.trails .params trivial) fun entries _ => .seq fun close _ => ?_
  split
  · next h =>
    refine .retrace (.append (.refl ps) (paramFields_retraces h)) (.pure ?_)
    exact .append (.refl ps) (retraces_fieldList _)
  · exact .throw

theorem signature_trails : (signature g).Trails I t ps fun r =>
    ps ++ (places (Field.listVisits r.1) ++ places (Field.listVisits r.2)) := by
  refine .bind (paramList_trails hg) fun params u => .current ?_
  split
  · exact .last (paramList_trails hg) (by simp)
  · split
    · next hk =>
      have hproper : u.kind.isProper := by
        revert hk
        cases u.kind with
        | symbol sym => cases sym <;> simp [Token.Kind.startsType, Token.Kind.isProper]
        | _ => simp [Token.Kind.startsType, Token.Kind.isProper]
      refine .push hproper (.bind (type_trails hg) fun type _ => .pure ?_)
      have htype : Retraces (u.start :: places type.visits) (u.start :: u.start :: places type.visits) :=
        (Retraces.refl _).double
      have hall := (Retraces.refl (ps ++ places (Field.listVisits params))).append htype
      simpa using hall
    · exact .same (by simp)

theorem arrayLength_trails :
    (arrayLength g).Trails I t ps fun len => ps ++ places (Expr.optVisits len) := by
  refine .seq fun _ u => ?_
  split
  · exact .noExpr
  · refine .current ?_
    have hrest : ∀ (len : Expr) (v : Token),
        (do let _ ← expectSymbol .rBracket; return some len : Parser (Option Expr)).Trails I v
          (ps ++ places len.visits) fun len => ps ++ places (Expr.optVisits len) :=
      fun len v => .seq fun _ _ => .pure (.of_eq rfl)
    dsimp only
    split
    · next hk =>
      refine .own hk rfl (.seq fun _ v => .bind (.pure (.of_eq ?_)) hrest)
      simp
    · exact .bind (.atLevel (expr_trails hg)) hrest

omit hg in
theorem typeName_trails : (typeName t.start).Trails I t ps fun x => ps ++ places x.visits := by
  refine .led name_trails name_from fun x hx _ => .seq fun _ _ => .seq fun _ _ => ?_
  split
  · refine .seq fun _ _ => .bind name_trails fun sel _ => .pure ?_
    have hhead := retraces_expr x
    rw [hx.pos] at hhead
    have hall := (Retraces.refl ps).append (hhead.append (.refl (places sel.visits)))
    simpa using hall
  · exact .pure (.refl _)

omit hg in
theorem bracedFields_trails {entries : Parser (List Field)} {f : List Field → List Position}
    (h : ∀ u, entries.Trails I u ps f) : (bracedFields entries).Trails I t ps f :=
  .seq fun _ _ => .seq fun _ u => .bind (h u) fun _ _ => .seq fun _ _ => .pure (.refl _)

theorem typeExpr_trails : (typeExpr g).Trails I t ps fun x => ps ++ places x.visits := by
  refine .current ?_
  dsimp only
  split
  · exact typeName_trails
  · exact typeName_trails
  · next hk => exact .own hk rfl (.seq fun _ _ => .last (type_trails hg) (by simp))
  · next hk =>
    exact .own hk rfl (.seq fun _ _ => .bind (arrayLength_trails hg) fun len _ =>
      .last (type_trails hg) (by simp))
  · next hk =>
    exact .own hk rfl (.seq fun _ _ => .seq fun _ _ => .bind (type_trails hg) fun key _ =>
      .seq fun _ _ => .last (type_trails hg) (by simp))
  · next hk =>
    exact .own hk rfl (.seq fun _ _ => .seq fun _ _ => .last (type_trails hg) (by simp))
  · next hk =>
    exact .own hk rfl (.seq fun _ _ => .seq fun _ _ => .last (type_trails hg) (by simp))
  · next hk => exact .own hk rfl (.seq fun _ _ => .last (signature_trails hg) (by simp))
  · next hk =>
    exact .own hk rfl (.last (bracedFields_trails fun _ =>
      .fieldList (hg.trails .fields trivial)) (by simp))
  · next hk =>
    exact .own hk rfl (.last (bracedFields_trails fun _ =>
      .fieldList (hg.trails .methods trivial)) (by simp))
  · next hk =>
    exact .own hk rfl (.seq fun _ _ => .bind (type_trails hg) fun x _ => .seq fun _ _ => .same (by simp))
  · exact .wanted

theorem paramType_trails : (paramType g).Trails I t ps fun x => ps ++ places x.visits := by
  refine .current ?_
  split
  · next hk => exact .own hk rfl (.seq fun _ _ => .last (type_trails hg) (by simp))
  · exact typeExpr_trails hg

theorem params_trails : (params g).Trails I t ps fun entries => ps ++ entryPlaces entries := by
  refine .seq fun _ _ => .choice (.same (by simp)) ?_
  refine .bind (paramType_trails hg) fun first _ => .seq fun k _ => ?_
  dsimp only
  refine .ite .noExpr (.map (paramType_trails hg)) fun second _ => .seq fun _ _ =>
    .choice ?_ (.same (by simp))
  exact .last (hg.trails .params trivial) (by simp)

theorem names_trails : (names g).Trails I t ps fun xs => ps ++ places (Expr.eachVisits xs) := by
  refine .bind name_trails fun x _ => .seq fun _ _ => .choice ?_ (.same (by simp))
  exact .last (hg.trails .names trivial) (by simp)

theorem structField_trails : (structField g).Trails I t ps fun f => ps ++ places f.visits := by
  refine .here (.led (typeExpr_trails hg) typeExpr_from fun first hfirst _ => ?_)
  -- the field starts where its first name or its type starts
  refine .startingWith first ?_
  rw [hfirst.pos]
  refine .seq fun _ _ => .choice ?_ (.seq fun _ _ => .choice (.same (by simp)) ?_)
  · exact .bind (hg.trails .names trivial) fun _ _ => .last (type_trails hg) (by simp)
  · exact .last (type_trails hg) (by simp)

omit hg in
/-- The end of a list of fields: the closing brace, or a semicolon and the rest. -/
theorem fieldsRest_trails {rest : Parser (List Field)} {field : Field}
    (hr : ∀ {u : Token} {qs : List Position},
      rest.Trails I u qs fun fs => qs ++ places (Field.eachVisits fs)) :
    (do if ← eatSymbol .semiColon then return field :: (← rest) else return [field] :
      Parser (List Field)).Trails I t (ps ++ places field.visits)
        fun fs => ps ++ places (Field.eachVisits fs) :=
  .seq fun _ _ => .choice (.last hr (by simp)) (.same (by simp))

theorem fields_trails : (fields g).Trails I t ps fun fs => ps ++ places (Field.eachVisits fs) := by
  refine .seq fun _ _ => .choice (.same (by simp)) ?_
  refine .bind (structField_trails hg) fun field _ => .seq fun _ _ => .choice ?_ ?_
  · exact .seq fun _ _ => fieldsRest_trails (hg.trails .fields trivial)
  · exact fieldsRest_trails (hg.trails .fields trivial)

omit hg in
/-- A name has no parts. -/
theorem name_single : Parser.name.From t fun x => places x.visits = [t.start] := by
  refine .advance fun _ => ?_
  split
  · exact .pure rfl
  · exact .pure rfl
  · exact .throw

theorem method_trails : (method g).Trails I t ps fun f => ps ++ places f.visits := by
  refine .current (.secondKind fun _ => .choice ?_ ?_)
  · refine .led name_trails name_single fun x hx _ => .bind (signature_trails hg) fun r _ => ?_
    -- the name, the method and its type all start at one token
    have hname : Retraces (places x.visits) (t.start :: (places x.visits ++ [t.start])) := by
      rw [hx]
      exact .again (.again (.refl _))
    exact .retrace (.append (.append (.refl ps) hname) (.refl _)) (.same (by simp))
  · refine .led (typeExpr_trails hg) typeExpr_from fun type htype _ => ?_
    refine .startingWith type ?_
    rw [htype.pos]
    exact .same (by simp)

theorem methods_trails :
    (methods g).Trails I t ps fun fs => ps ++ places (Field.eachVisits fs) := by
  refine .seq fun _ _ => .choice (.same (by simp)) ?_
  exact .bind (method_trails hg) fun field _ => fieldsRest_trails (hg.trails .methods trivial)

/-! ### Expressions -/

theorem block_trails : (block g).Trails I t ps fun s => ps ++ places s.visits := by
  refine .here (.expect rfl fun _ => .bind (.stmtList (hg.trails .stmts trivial)) fun ss _ =>
    .seq fun _ _ => ?_)
  exact .same (by simp)

theorem sliceBound_trails :
    (sliceBound g).Trails I t ps fun x => ps ++ places (Expr.optVisits x) :=
  .seq fun _ _ => .choice .noExpr (.map (expr_trails hg))

theorem sliceBounds_trails : (sliceBounds g).Trails I t ps fun bounds =>
    ps ++ bounds.flatMap fun x => places (Expr.optVisits x) := by
  refine .seq fun _ _ => .choice ?_ (.same (by simp))
  refine .bind (sliceBound_trails hg) fun high _ => .seq fun _ _ => .choice ?_ (.same (by simp))
  exact .last (sliceBound_trails hg) (by simp)

theorem indexOrSlice_trails {x : Expr} :
    (indexOrSlice g x).Trails I t (ps ++ places x.visits) fun y => ps ++ places y.visits := by
  refine .startingWith x (.seq fun _ _ => ?_)
  generalize x.pos = pos
  dsimp only
  refine .ite .noExpr (.map (expr_trails hg)) fun low _ => .bind (sliceBounds_trails hg)
    fun bounds _ => .seq fun _ _ => ?_
  split
  · exact .same (by simp)
  · exact .throw
  · exact .same (by simp)
  · exact .same (by simp)
  · exact .throw

/-- A literal whose type is left out starts at its brace. -/
theorem elided_trails : (composite g none).Trails I t ps fun x => ps ++ places x.visits := by
  refine .expect rfl fun _ => .bind (.atLevel (.exprList (hg.trails .elements trivial))) fun elts _ =>
    .seq fun _ _ => ?_
  exact .same (by simp)

/-- A literal with a type starts where its type starts. -/
theorem typed_trails {x : Expr} :
    (composite g (some x)).Trails I t (ps ++ places x.visits) fun y => ps ++ places y.visits := by
  refine .startingWith x ?_
  refine .seq fun _ _ => .bind (.atLevel (.exprList (hg.trails .elements trivial))) fun elts _ =>
    .seq fun _ _ => .pure (.of_eq ?_)
  rw [Option.map_some, Option.getD_some]
  generalize x.pos = pos
  simp

theorem funcOperand_trails (ht : t.kind.isProper) :
    (funcOperand g t.start).Trails I t ps fun x => ps ++ places x.visits := by
  refine .push ht (.seq fun _ _ => .bind (signature_trails hg) fun r _ => .seq fun _ _ => ?_)
  split
  · exact .last (.atLevel (block_trails hg)) (by simp)
  · exact .same (by simp)

theorem operand_trails : (operand g).Trails I t ps fun x => ps ++ places x.visits := by
  refine .current ?_
  dsimp only
  split
  · exact name_trails
  · exact name_trails
  · next hk => exact .own hk rfl (.seq fun _ _ => .same (by simp))
  · next hk =>
    exact .own hk rfl (.seq fun _ _ => .bind (.atLevel (expr_trails hg)) fun x _ =>
      .seq fun _ _ => .same (by simp))
  · next hk => exact funcOperand_trails hg (by rw [hk]; rfl)
  iterate 5 exact typeExpr_trails hg
  · exact .wanted

omit hg in
theorem isProper_of_isName (h : t.kind.isName) : t.kind.isProper := by
  revert h
  cases t.kind <;> simp [Token.Kind.isName, Token.Kind.isProper]

theorem selection_trails {x : Expr} :
    (selection g x).Trails I t (ps ++ places x.visits) fun y => ps ++ places y.visits := by
  refine .startingWith x ?_
  -- the token is the start of a part just if it is a name
  by_cases hname : t.kind.isName
  · refine .push (isProper_of_isName hname) (.advance fun _ => ?_)
    split
    · refine .pure (.of_eq ?_)
      generalize x.pos = pos
      simp
    · refine .pure (.of_eq ?_)
      generalize x.pos = pos
      simp
    · next hk =>
      rw [hk] at hname
      cases hname
    · exact .throw
  · refine .advance fun _ => ?_
    split
    · next hk => exact absurd (by rw [hk]; rfl) hname
    · next hk => exact absurd (by rw [hk]; rfl) hname
    · refine .seq fun _ _ => ?_
      dsimp only
      refine .ite .noExpr (.map (type_trails hg)) fun type _ => .seq fun _ _ => .pure (.of_eq ?_)
      generalize x.pos = pos
      simp
    · exact .throw

theorem primaryTail_trails {x : Expr} :
    (primaryTail g x).Trails I t (ps ++ places x.visits) fun y => ps ++ places y.visits := by
  have htail : ∀ (y : Expr) (u : Token), (g (.primaryTail y)).Trails I u (ps ++ places y.visits)
      fun z => ps ++ places z.visits := fun y u => hg.trails (.primaryTail y) trivial
  refine .seq fun k _ => ?_
  split
  · exact .seq fun _ _ => .bind (selection_trails hg) htail
  · exact .seq fun _ _ => .bind (.atLevel (indexOrSlice_trails hg)) htail
  · refine .startingWith x (.seq fun _ _ => .bind
      (f := fun r => ps ++ x.pos :: places x.visits ++ places (Expr.listVisits r.1)) (.atLevel ?_)
      fun r u => ?_)
    · exact .bind (argList_trails hg) fun r _ => .seq fun _ _ => .pure (.refl _)
    · obtain ⟨args, spread⟩ := r
      refine .retrace (.of_eq ?_) (htail (.call x.pos x args spread) u)
      generalize x.pos = pos
      simp
  · refine .seq fun _ _ => ?_
    split
    · exact .bind (typed_trails hg) htail
    · exact .pure (.refl _)
  · exact .pure (.refl _)

theorem unaryExpr_trails : (unaryExpr g).Trails I t ps fun x => ps ++ places x.visits := by
  have hprimary : (do primaryTail g (← operand g) : Parser Expr).Trails I t ps
      fun x => ps ++ places x.visits :=
    .bind (operand_trails hg) fun _ _ => primaryTail_trails hg
  refine .current ?_
  dsimp only
  split
  · next hk => exact .own hk rfl (.seq fun _ _ => .last (hg.trails .unary trivial) (by simp))
  · next sym hstar hk =>
    split
    · exact hprimary
    · next op hop =>
      have hproper : t.kind.isProper := by
        rw [hk]
        cases sym <;> first | rfl | cases hop
      refine .push hproper (.seq fun _ _ => .seq fun _ _ => ?_)
      split
      · exact .seq fun _ _ => .last (type_trails hg) (by simp)
      · exact .last (hg.trails .unary trivial) (by simp)
  · exact hprimary

theorem binaryTail_trails {least : Nat} {x : Expr} :
    (binaryTail g least x).Trails I t (ps ++ places x.visits) fun y => ps ++ places y.visits := by
  refine .seq fun k _ => ?_
  split
  · split
    · exact .pure (.refl _)
    · next op _ =>
      split
      · exact .pure (.refl _)
      · refine .startingWith x (.seq fun _ _ => .bind (hg.trails (.binary _) trivial) fun y _ => ?_)
        refine .retrace (.of_eq ?_) (hg.trails (.binaryTail least (.binary x.pos op x y)) trivial)
        generalize x.pos = pos
        simp [Nonterminal.trailAhead]
  · exact .pure (.refl _)

theorem binaryExpr_trails {least : Nat} :
    (binaryExpr g least).Trails I t ps fun x => ps ++ places x.visits :=
  .bind (unaryExpr_trails hg) fun _ _ => binaryTail_trails hg

theorem exprs_trails : (exprs g).Trails I t ps fun xs => ps ++ places (Expr.eachVisits xs) := by
  refine .bind (binaryExpr_trails hg) fun x _ => .seq fun _ _ => .choice ?_ (.same (by simp))
  exact .last (hg.trails .exprs trivial) (by simp)

theorem args_trails : (args g).Trails I t ps fun r => ps ++ places (Expr.eachVisits r.1) := by
  refine .seq fun _ _ => .choice (.same (by simp)) ?_
  refine .bind (binaryExpr_trails hg) fun x _ => .seq fun _ _ => .seq fun _ _ =>
    .choice ?_ (.same (by simp))
  exact .last (hg.trails .args trivial) (by simp)

theorem elementValue_trails : (elementValue g).Trails I t ps fun x => ps ++ places x.visits :=
  .kind (.choice (elided_trails hg) (binaryExpr_trails hg))

theorem elements_trails :
    (elements g).Trails I t ps fun xs => ps ++ places (Expr.eachVisits xs) := by
  refine .seq fun _ _ => .choice (.same (by simp)) ?_
  refine .bind (elementValue_trails hg) fun key _ => .seq fun _ _ => ?_
  have hrest (elt : Expr) (u : Token) :
      (do if ← eatSymbol .comma then return elt :: (← g .elements) else return [elt] :
        Parser (List Expr)).Trails I u (ps ++ places elt.visits)
          fun xs => ps ++ places (Expr.eachVisits xs) :=
    .seq fun _ _ => .choice (.last (hg.trails .elements trivial) (by simp)) (.same (by simp))
  refine .choice ?_ (.bind (.pure (.refl _)) hrest)
  refine .startingWith key (.bind (elementValue_trails hg)
    fun value _ => .bind (.pure (.of_eq ?_)) hrest)
  generalize key.pos = pos
  simp

/-! ### Statements -/

omit hg in
theorem single_trails {u : Token} {xs : List Expr} : (single u xs).Trails I t ps fun _ => ps := by
  unfold single
  split
  · exact .pure (.refl ps)
  · exact .throw

theorem rangeClause_trails {pos : Position} {vars : List Expr} {define : Bool}
    (hvars : vars.length ≤ 2) : (rangeClause g pos vars define).Trails I t
      (ps ++ places (Expr.eachVisits vars)) fun c => ps ++ c.places := by
  refine .bind (expr_trails hg) fun x _ => .pure (.of_eq ?_)
  match vars, hvars with
  | [], _ => simp
  | [_], _ => simp
  | [_, _], _ => simp

theorem assignment_trails {mode : SimpleMode} {x : Expr} {xs : List Expr}
    {u : Token} {op : AssignOp} : (assignment g mode x.pos (x :: xs) u op).Trails I t
      (ps ++ places (Expr.eachVisits (x :: xs))) fun r => ps ++ r.places := by
  refine .seq fun _ _ => .choice ?_ ?_
  · refine .seq fun _ _ => ?_
    split
    · exact .throw
    · next hlen => exact .bind (rangeClause_trails hg (by omega)) fun c _ => .pure (.refl _)
  · refine .retrace (.append (.refl ps) (retraces_listStart x xs)) (.bind (exprList_trails hg)
      fun rhs _ => .pure (.of_eq ?_))
    generalize x.pos = pos
    simp

/-- A label is in front of its colon, so the empty statement that may stand behind it is in the
source. -/
theorem labeledStmt_trails {pos : Position} {label : String}
    (ht : t.kind = .symbol .semiColon → I t) :
    (labeledStmt g pos label).Trails I t (ps ++ [pos]) fun s => ps ++ places s.visits := by
  refine .current ?_
  split
  · next hk => exact .own hk rfl (.same (by simp))
  · exact .last (hg.trails .stmt ht) (by simp)

theorem simpleTail_trails {mode : SimpleMode} {x : Expr} {xs : List Expr} :
    (simpleTail g mode x.pos (x :: xs) t).Trails I t (ps ++ places (Expr.eachVisits (x :: xs)))
      fun s => ps ++ places s.visits := by
  -- a statement that begins with a single expression
  have hsingle : xs = [] → Retraces (ps ++ places (Expr.eachVisits (x :: xs)))
      (ps ++ (x.pos :: places x.visits)) := by
    rintro rfl
    simpa using (Retraces.refl ps).append (retraces_expr x)
  have hwhole {u : Token} (make : Position → Expr → Stmt)
      (hmake : ∀ pos, pos :: places x.visits = places (make pos x).visits) :
      (do return make x.pos (← single t (x :: xs)) : Parser Stmt).Trails I u
        (ps ++ places (Expr.eachVisits (x :: xs))) fun s => ps ++ places s.visits := by
    refine .led single_trails single_from fun y hy _ => ?_
    obtain ⟨rfl, rfl⟩ := List.cons.inj hy
    exact .retrace (hsingle rfl) (.same (by rw [hmake]))
  unfold simpleTail
  split
  · next hk heq =>
    cases heq
    refine .advance_colon hk fun u hu => ?_
    exact .retrace (.of_eq (by simp)) (labeledStmt_trails hg hu)
  · refine .seq fun _ _ => .led single_trails single_from fun y hy _ => ?_
    obtain ⟨rfl, rfl⟩ := List.cons.inj hy
    refine .retrace (hsingle rfl) (.bind (expr_trails hg) fun value _ => .pure (.of_eq ?_))
    generalize x.pos = pos
    simp
  · exact .seq fun _ _ => hwhole (.incDec · · true) fun _ => by simp
  · exact .seq fun _ _ => hwhole (.incDec · · false) fun _ => by simp
  · exact hwhole .expr fun _ => by simp

theorem simple_trails {mode : SimpleMode} :
    (simple g mode).Trails I t ps fun r => ps ++ r.places := by
  refine .current ?_
  dsimp only
  split
  · refine .seq fun _ _ => .bind (f := fun c => ps ++ c.places) ?_ fun c _ => .pure (.refl _)
    exact .retrace (.of_eq (by simp)) (rangeClause_trails hg (Nat.zero_le 2))
  · refine .led (exprs_trails hg) (exprs_from hg.leading) fun lhs hl u => .current ?_
    obtain ⟨x, xs, rfl, hx⟩ := hl
    rw [← hx.pos]
    split
    · exact .seq fun _ _ => assignment_trails hg
    · exact .bind (simpleTail_trails hg) fun s _ => .pure (.refl _)

theorem simpleStmt_trails {mode : SimpleMode} :
    (simpleStmt g mode).Trails I t ps fun s => ps ++ places s.visits := by
  refine .bind (simple_trails hg) fun r _ => ?_
  cases r with
  | stmt s => exact .pure (.refl _)
  | range clause => exact .throw

theorem varDecl_trails {pos : Position} :
    (varDecl g pos).Trails I t (ps ++ [pos]) fun s => ps ++ places s.visits := by
  refine .bind (.exprList (hg.trails .names trivial)) fun names _ => .seq fun k _ => ?_
  have hrest (type : Option Expr) (u : Token) : (do
      let values ← if ← eatSymbol .assign then g .exprs else pure []
      return .var pos names type values : Parser Stmt).Trails I u
        (ps ++ [pos] ++ places (Expr.listVisits names) ++ places (Expr.optVisits type))
        fun s => ps ++ places s.visits :=
    .seq fun _ _ => .ite (exprList_trails hg) (.same (by simp)) fun values _ => .same (by simp)
  dsimp only
  split
  iterate 4 exact .bind .noExpr hrest
  · exact .bind (.map (type_trails hg)) hrest

theorem results_trails : (results g).Trails I t ps fun xs => ps ++ places (Expr.listVisits xs) := by
  refine .seq fun k _ => ?_
  split
  iterate 3 exact .same (by simp)
  · exact exprList_trails hg

theorem condHeader_trails : (condHeader g).Trails I t ps fun r =>
    ps ++ (places (Stmt.optVisits r.1) ++ places r.2.visits) := by
  refine .seq fun _ _ => ?_
  dsimp only
  refine .ite .noStmt (.map (simpleStmt_trails hg)) fun init _ => .seq fun _ _ => .choice ?_ ?_
  · exact .last (expr_trails hg) (by simp)
  · split
    · -- the test alone is left of the statement
      refine .pure (.append (.refl ps) ?_)
      simpa using Retraces.skip (.refl _)
    · exact .wanted

theorem condStmt_trails (ht : t.kind.isProper) :
    (condStmt g t.start).Trails I t ps fun s => ps ++ places s.visits := by
  refine .push ht (.seq fun _ _ => .seq fun _ _ => .choice .wanted ?_)
  refine .bind (.atLevel (condHeader_trails hg)) fun r _ => ?_
  obtain ⟨init, test⟩ := r
  refine .bind (block_trails hg) fun body _ => .seq fun _ u => .choice ?_ ?_
  · refine .kind ?_
    split
    · next hk =>
      have hread : Nonterminal.stmt.ReadAt I u := fun h => by
        rw [hk] at h
        cases h
      exact .last (hg.trails .stmt hread) (by simp)
    · exact .last (block_trails hg) (by simp)
    · exact .wanted
  · exact .same (by simp)

theorem switchHeader_trails : (switchHeader g).Trails I t ps fun r =>
    ps ++ (places (Stmt.optVisits r.1) ++ places (Stmt.optVisits r.2)) := by
  refine .seq fun _ _ => .choice (.same (by simp)) (.seq fun _ _ => ?_)
  dsimp only
  refine .ite .noStmt (.map (simpleStmt_trails hg)) fun first _ => .seq fun _ _ =>
    .choice (.seq fun _ _ => .choice (.same (by simp)) ?_) (.same (by simp))
  exact .last (simpleStmt_trails hg) (by simp)

theorem switchStmt_trails (ht : t.kind.isProper) :
    (switchStmt g t.start).Trails I t ps fun s => ps ++ places s.visits := by
  refine .push ht (.seq fun _ _ => .bind (.atLevel (switchHeader_trails hg)) fun r u => .here
    (.expect rfl fun _ => .bind (.stmtList (hg.trails .clauses trivial)) fun clauses _ =>
      .seq fun _ _ => ?_))
  obtain ⟨init, tag⟩ := r
  dsimp only
  split
  · exact .same (by simp)
  · split
    · exact .same (by simp)
    · split
      · next p x _ =>
        -- the tag alone is left of the statement
        have htag : Retraces (places (Stmt.expr p x).visits) (places x.visits) := .skip (.refl _)
        have hall : Retraces
            (ps ++ [t.start] ++ (places (Stmt.optVisits init) ++ places (Stmt.expr p x).visits) ++
              [u.start] ++ places (Stmt.listVisits clauses))
            (ps ++ [t.start] ++ (places (Stmt.optVisits init) ++ places x.visits) ++ [u.start] ++
              places (Stmt.listVisits clauses)) :=
          .append (.append (.append (.refl _) (.append (.refl _) htag)) (.refl _)) (.refl _)
        exact .retrace hall (.same (by simp))
      · exact .throw

theorem loopClauses_trails {init : Option Stmt} :
    (loopClauses g init).Trails I t (ps ++ places (Stmt.optVisits init))
      fun header => ps ++ header.places := by
  refine .seq fun _ _ => ?_
  dsimp only
  refine .ite .noExpr (.map (expr_trails hg)) fun test _ => .seq fun _ _ => .seq fun _ _ => ?_
  exact .ite .noStmt (.map (simpleStmt_trails hg)) fun post _ => .same (by simp)

theorem loopHeader_trails : (loopHeader g).Trails I t ps fun header => ps ++ header.places := by
  refine .seq fun _ _ => ?_
  split
  · exact .same (by simp)
  · refine .seq fun _ _ => .retrace (.of_eq ?_) (loopClauses_trails hg)
    simp
  · refine .bind (simple_trails hg) fun r _ => ?_
    cases r with
    | range clause => exact .pure (.refl _)
    | stmt init =>
      refine .seq fun _ _ => .choice (loopClauses_trails hg) ?_
      split
      · -- the test alone is left of the statement
        refine .pure (.append (.refl ps) ?_)
        simpa using Retraces.skip (.refl _)
      · exact .wanted

theorem loopStmt_trails (ht : t.kind.isProper) :
    (loopStmt g t.start).Trails I t ps fun s => ps ++ places s.visits := by
  refine .push ht (.seq fun _ _ => .bind (.atLevel (loopHeader_trails hg)) fun header _ =>
    .bind (block_trails hg) fun body _ => ?_)
  cases header with
  | clauses init test post => exact .same (by simp)
  | range c => exact .same (by simp)

theorem stmt_trails (ht : t.kind = .symbol .semiColon → I t) :
    (stmt g).Trails I t ps fun s => ps ++ places s.visits := by
  refine .current ?_
  dsimp only
  split
  · next hk => exact .own hk rfl (.seq fun _ _ => varDecl_trails hg)
  · next hk => exact .own hk rfl (.seq fun _ _ => .last (expr_trails hg) (by simp))
  · next hk => exact .own hk rfl (.seq fun _ _ => .last (expr_trails hg) (by simp))
  · next hk => exact .own hk rfl (.seq fun _ _ => .last (results_trails hg) (by simp))
  · next hk => exact condStmt_trails hg (by rw [hk]; rfl)
  · next hk => exact switchStmt_trails hg (by rw [hk]; rfl)
  · next hk => exact loopStmt_trails hg (by rw [hk]; rfl)
  iterate 5 exact .throw
  · next hk =>
    split
    · exact .own hk rfl (.seq fun _ _ => .seq fun _ _ => .same (by simp))
    · exact simpleStmt_trails hg
  · exact block_trails hg
  · next hk => exact .place (ht hk) (.same (by simp))
  · exact simpleStmt_trails hg

/-- A statement in front of others. -/
theorem stmtCons_trails {rest : Parser (List Stmt)}
    (ht : t.kind = .symbol .semiColon → I t)
    (hr : ∀ {u : Token} {qs : List Position},
      rest.Trails I u qs fun ss => qs ++ places (Stmt.eachVisits ss)) :
    (do let s ← stmt g; stmtEnd; return s :: (← rest) : Parser (List Stmt)).Trails I t ps
      fun ss => ps ++ places (Stmt.eachVisits ss) :=
  .bind (stmt_trails hg ht) fun _ _ => .seq fun _ _ => .last hr (by simp)

theorem stmts_trails : (stmts g).Trails I t ps fun ss => ps ++ places (Stmt.eachVisits ss) := by
  refine .kind ?_
  split
  iterate 4 exact .same (by simp)
  · exact .seq fun _ _ => hg.trails .stmts trivial
  · next hk => exact stmtCons_trails hg (fun h => (hk h).elim) (hg.trails .stmts trivial)

theorem clause_trails (ht : t.kind.isProper) :
    (clause g).Trails I t ps fun s => ps ++ places s.visits := by
  refine .push ht (.advance fun _ => ?_)
  dsimp only
  exact .ite (f := fun list => ps ++ [t.start] ++ places (Expr.listOptVisits list))
    (.map (exprList_trails hg)) (.same (by simp)) fun list _ => .seq fun _ _ =>
      .last (.stmtList (hg.trails .stmts trivial)) (by simp)

theorem clauses_trails : (clauses g).Trails I t ps fun ss => ps ++ places (Stmt.eachVisits ss) := by
  have hclause (ht : t.kind.isProper) :
      (do let c ← clause g; return c :: (← g .clauses) : Parser (List Stmt)).Trails I t ps
        fun ss => ps ++ places (Stmt.eachVisits ss) :=
    .bind (clause_trails hg ht) fun _ _ => .last (hg.trails .clauses trivial) (by simp)
  refine .kind ?_
  split
  · next hk => exact hclause (by rw [hk]; rfl)
  · next hk => exact hclause (by rw [hk]; rfl)
  · next hk =>
    refine stmtCons_trails hg (fun h => ?_) (hg.trails .clauses trivial)
    rw [hk] at h
    cases h
  · exact .seq fun _ _ => hg.trails .clauses trivial
  · exact .same (by simp)

/-! ### Declarations -/

theorem importSpecs_trails : (importSpecs g).Trails I t ps fun _ => ps ++ [] := by
  refine .seq fun _ _ => .choice (.same (by simp)) ?_
  refine .seq fun spec _ => .seq fun _ _ => .choice ?_ (.same (by simp))
  exact .bind (hg.trails .importSpecs trivial) fun _ _ => .pure (.refl _)

theorem imports_trails : (imports g).Trails I t ps fun _ => ps ++ [] := by
  have hrest : ∀ (specs : List Import) (u : Token),
      (do stmtEnd; return specs ++ (← g .imports) : Parser (List Import)).Trails I u ps
        fun _ => ps ++ [] :=
    fun specs u => .seq fun _ _ => .bind (hg.trails .imports trivial) fun _ _ => .pure (.refl _)
  refine .seq fun _ _ => .choice (.seq fun _ _ => ?_) (.same (by simp))
  dsimp only
  split
  · refine .bind (hg.trails .importSpecs trivial) fun specs _ => .seq fun _ _ => ?_
    exact .bind (.same (by simp)) hrest
  · exact .bind (.map .any) hrest

theorem receiver_trails {pos : Position} : (receiver g pos).Trails I t ps fun recv =>
    ps ++ places (recv.toList.flatMap Field.visits) := by
  refine .seq fun _ _ => .choice ?_ (.same (by simp))
  refine .bind (paramList_trails hg) fun fields _ => ?_
  split
  · -- the receiver is no list of its own
    refine .pure (.append (.refl ps) ?_)
    simpa using Retraces.skip (.refl _)
  · exact .throw

theorem func_trails : (func g).Trails I t ps fun f => ps ++ f.places := by
  refine .here (.expect rfl fun _ => .bind (receiver_trails hg) fun recv _ => .seq fun name _ =>
    .bind (signature_trails hg) fun sig _ => .seq fun _ _ => ?_)
  obtain ⟨params, results⟩ := sig
  have hbody : ∀ (body : Option Stmt) (u : Token),
      (pure ⟨t.start, recv, name, params, results, body⟩ : Parser Func).Trails I u
        (ps ++ [t.start] ++ places (recv.toList.flatMap Field.visits) ++
          (places (Field.listVisits params) ++ places (Field.listVisits results)) ++
          places (Stmt.optVisits body)) fun f => ps ++ f.places :=
    fun body u => .pure (.of_eq (by cases recv <;> simp [Func.places, Func.visits]))
  dsimp only
  split
  · exact .bind (.map (block_trails hg)) hbody
  · exact .bind .noStmt hbody

/-- A function in front of others. -/
theorem funcCons_trails {rest : Parser (List Func)}
    (hr : ∀ {u : Token} {qs : List Position},
      rest.Trails I u qs fun fs => qs ++ fs.flatMap Func.places) :
    (do let f ← func g; stmtEnd; return f :: (← rest) : Parser (List Func)).Trails I t ps
      fun fs => ps ++ fs.flatMap Func.places :=
  .bind (func_trails hg) fun _ _ => .seq fun _ _ => .last hr (by simp)

theorem funcs_trails : (funcs g).Trails I t ps fun fs => ps ++ fs.flatMap Func.places := by
  refine .seq fun _ _ => ?_
  split
  · exact .same (by simp)
  · exact .seq fun _ _ => hg.trails .funcs trivial
  · exact funcCons_trails hg (hg.trails .funcs trivial)

theorem decls_trails : (decls g).Trails I t ps fun fs => ps ++ fs.flatMap Func.places := by
  refine .seq fun _ _ => ?_
  split
  · exact .same (by simp)
  · exact .seq fun _ _ => hg.trails .decls trivial
  · exact funcCons_trails hg (hg.trails .decls trivial)
  iterate 3 exact .seq fun _ _ => hg.trails .decls trivial
  · exact .seq fun _ _ => .throw

/-- A grammar that uses one that follows the source for its parts follows the source. -/
theorem follows_step : (step g).Follows I := by
  refine ⟨leading_step hg.leading, fun n t hn ps => ?_⟩
  cases n with
  | binary least => exact binaryExpr_trails hg
  | binaryTail least x => exact binaryTail_trails hg
  | unary => exact unaryExpr_trails hg
  | primaryTail x => exact primaryTail_trails hg
  | type => exact typeExpr_trails hg
  | exprs => exact exprs_trails hg
  | args => exact args_trails hg
  | elements => exact elements_trails hg
  | params => exact params_trails hg
  | fields => exact fields_trails hg
  | methods => exact methods_trails hg
  | names => exact names_trails hg
  | stmt => exact stmt_trails hg hn
  | stmts => exact stmts_trails hg
  | clauses => exact clauses_trails hg
  | importSpecs => exact importSpecs_trails hg
  | imports => exact imports_trails hg
  | funcs => exact funcs_trails hg
  | decls => exact decls_trails hg

omit hg

theorem follows_bounded (n : Nat) : (bounded n).Follows I := by
  induction n with
  | zero =>
    refine ⟨leading_bounded 0, fun n t _ ps c a c' _ _ h => ?_⟩
    cases h
  | succ n ih => exact follows_step ih

theorem full_trails (n : Nonterminal) (hn : n.ReadAt I t) :
    (full n).Trails I t (n.trailAhead ps) fun a => ps ++ n.places a :=
  fun c a c' ht htrail h => (follows_bounded _).trails n hn c a c' ht htrail h

end Grammar

end GoSift
