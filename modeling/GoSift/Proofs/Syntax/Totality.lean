import GoSift.Proofs.Syntax.Lockstep

/-!
The grammar is total and blind. Whatever the tokens are, as long as they end with the end mark, its
parsers come to an end within them and put the level back. Each level of the grammar takes a token, so
what it does does not depend on what is below the number of tokens. Nor does it depend on where the tokens
stand, or on tokens behind a semicolon at which it stops.
-/
namespace GoSift

/-- Grammars in lockstep where fewer than `n` tokens are ahead, the third on tokens that are alike. -/
def Grammar.Lockstep (n : Nat) (g g' h : Grammar) : Prop :=
  ∀ (s : Nonterminal) {t : Token}, Parser.Lockstep n t false s.eraseTree (g s) (g' s) (h s.erase)

/-- A parser of grammars in lockstep. -/
abbrev Grammar.InStep {α : Type} (g g' h : Grammar) (n : Nat) (t : Token) (takes : Bool) (f : α → α)
    (F : Grammar → Parser α) : Prop :=
  Parser.Lockstep n t takes f (F g) (F g') (F h)

namespace Grammar

open GoSift.Parser

variable {n : Nat} {t : Token} {g g' h : Grammar}

variable (hg : g.Lockstep n g' h)

include hg

/-! ### Types -/

theorem paramList_lockstep : InStep g g' h (n + 1) t true Field.eraseList paramList := by
  refine .first .expectSymbol fun _ _ => .bind (hg .params) fun entries _ => .seq fun close _ => ?_
  have hfields := paramFields_erase close.range close.erase.range entries
  dsimp only [Nonterminal.eraseTree]
  generalize paramFields close.range entries = r at hfields ⊢
  generalize paramFields close.erase.range _ = r' at hfields ⊢
  cases r with
  | error e =>
    cases r' with
    | error e' => exact .throw
    | ok fields' => cases hfields
  | ok fields =>
    cases r' with
    | error e' => cases hfields
    | ok fields' => exact .pure (Option.some.inj hfields).symm

theorem signature_lockstep :
    InStep g g' h (n + 1) t true (Prod.map Field.eraseList Field.eraseList) signature := by
  refine .first (paramList_lockstep hg) fun params _ => .current (.choice (fun _ => ?_)
    (.choice (fun _ => ?_) (.pure rfl)))
  · exact .last (paramList_lockstep hg).lower rfl
  · exact .last (hg .type) rfl

theorem arrayLength_lockstep : InStep g g' h n t false Expr.eraseOpt arrayLength := by
  refine .seq fun _ _ => .choice (fun _ => .pure rfl) (.current (.choice (fun _ => ?_) ?_))
  · exact .seq fun _ _ => .bind (f := Expr.erase) (.pure rfl) fun _ _ => .seq fun _ _ => .pure rfl
  · exact .bind (.bracketed (hg (.binary 1))) fun _ _ => .seq fun _ _ => .pure rfl

omit hg in
theorem typeName_lockstep {start : Position} : Parser.Lockstep (n + 1) t true Expr.erase (typeName start)
    (typeName start) (typeName default) := by
  refine .first .name fun x u => .kind (.secondKind (fun hu _ _ => ?_) fun _ =>
    .choice (fun _ => ?_) (.pure rfl))
  · rw [hu]
    rfl
  · exact .seq fun _ _ => .seq fun _ _ => .pure rfl

omit hg in
theorem bracedFields_lockstep {entries entries' entries'' : Parser (List Field)}
    (he : ∀ {u}, Parser.Lockstep n u false Field.eraseList entries entries' entries'') :
    Parser.Lockstep (n + 1) t true Field.eraseList (bracedFields entries) (bracedFields entries')
      (bracedFields entries'') :=
  .seq fun _ _ => .first .expectSymbol fun _ _ => .bind he fun _ _ => .seq fun _ _ => .pure rfl

theorem typeExpr_lockstep : InStep g g' h (n + 1) t true Expr.erase typeExpr := by
  refine .current ?_
  dsimp only
  split
  · exact typeName_lockstep
  · exact typeName_lockstep
  · next ht => exact .past ht rfl fun _ => .last (hg .type) rfl
  · next ht =>
    exact .past ht rfl fun _ => .bind (arrayLength_lockstep hg) fun _ _ => .last (hg .type) rfl
  · next ht =>
    exact .past ht rfl fun _ => .seq fun _ _ => .bind (hg .type) fun _ _ =>
      .seq fun _ _ => .last (hg .type) rfl
  · next ht => exact .past ht rfl fun _ => .seq fun _ _ => .last (hg .type) rfl
  · next ht => exact .past ht rfl fun _ => .seq fun _ _ => .last (hg .type) rfl
  · next ht => exact .past ht rfl fun _ => .last (signature_lockstep hg).lower rfl
  · exact .first (bracedFields_lockstep (hg .fields)) fun _ _ => .pure rfl
  · exact .first (bracedFields_lockstep (hg .methods)) fun _ _ => .pure rfl
  · next ht => exact .past ht rfl fun _ => .bind (hg .type) fun _ _ => .seq fun _ _ => .pure rfl
  · exact .wanted

theorem paramType_lockstep : InStep g g' h (n + 1) t true Expr.erase paramType := by
  refine .current (.choice (fun ht => ?_) (typeExpr_lockstep hg))
  exact .past ht rfl fun _ => .last (hg .type) rfl

theorem params_lockstep : InStep g g' h (n + 1) t false (Nonterminal.eraseTree .params) params := by
  refine .kind (.choice (fun _ => .pure rfl) ?_)
  refine .first (paramType_lockstep hg) fun first _ => .kind ?_
  dsimp only
  refine .ite (f := Expr.eraseOpt) (.pure rfl) (.map (paramType_lockstep hg).lower.forget fun _ => rfl)
    fun second _ => .seq fun _ _ => .choice (fun _ => ?_) (.pure rfl)
  exact .last (hg .params) rfl

theorem names_lockstep : InStep g g' h (n + 1) t true Expr.eraseList names := by
  refine .first .name fun x _ => .seq fun _ _ => .choice (fun _ => ?_) (.pure rfl)
  exact .last (hg .names) rfl

theorem structField_lockstep : InStep g g' h (n + 1) t true Field.erase structField := by
  refine .here (.first (typeExpr_lockstep hg) fun first _ => .seq fun _ _ => .choice (fun _ => ?_)
    (.kind (.choice (fun _ => .pure rfl) ?_)))
  · exact .bind (hg .names) fun _ _ => .last (hg .type) rfl
  · exact .last (hg .type) rfl

omit hg in
/-- The end of a list of fields: the closing brace, or a semicolon and the rest. -/
theorem fieldsRest_lockstep {rest rest' rest'' : Parser (List Field)} (field : Field)
    (hr : ∀ {u}, Parser.Lockstep n u false Field.eraseList rest rest' rest'') :
    Parser.Lockstep n t false Field.eraseList
      (do if ← eatSymbol .semiColon then return field :: (← rest) else return [field])
      (do if ← eatSymbol .semiColon then return field :: (← rest') else return [field])
      (do if ← eatSymbol .semiColon then return field.erase :: (← rest'') else return [field.erase]) :=
  .seq fun _ _ => .choice (fun _ => .last hr rfl) (.pure rfl)

theorem fields_lockstep : InStep g g' h (n + 1) t false Field.eraseList fields := by
  refine .kind (.choice (fun _ => .pure rfl) ?_)
  refine .first (structField_lockstep hg) fun field _ => .kind (.choice (fun _ => ?_) ?_)
  · exact .seq fun _ _ => fieldsRest_lockstep field (hg .fields)
  · exact fieldsRest_lockstep field (hg .fields)

theorem method_lockstep : InStep g g' h (n + 1) t true Field.erase method := by
  refine .current (.secondKind (fun ht _ _ => ?_) fun _ => .choice (fun _ => ?_) ?_)
  · dsimp only
    rw [ht]
    rfl
  · exact .first .name fun _ _ => .last (signature_lockstep hg).lower rfl
  · exact .first (typeExpr_lockstep hg) fun _ _ => .pure rfl

theorem methods_lockstep : InStep g g' h (n + 1) t false Field.eraseList methods := by
  refine .kind (.choice (fun _ => .pure rfl) ?_)
  exact .first (method_lockstep hg) fun field _ => fieldsRest_lockstep field (hg .methods)

/-! ### Expressions -/

theorem block_lockstep : InStep g g' h (n + 1) t true Stmt.erase block :=
  .here (.first .expectSymbol fun _ _ => .bind (hg .stmts) fun _ _ => .seq fun _ _ => .pure rfl)

theorem sliceBound_lockstep : InStep g g' h n t false Expr.eraseOpt sliceBound :=
  .kind (.choice (fun _ => .pure rfl) (.map (hg (.binary 1)) fun _ => rfl))

theorem sliceBounds_lockstep : InStep g g' h n t false (List.map Expr.eraseOpt) sliceBounds := by
  refine .seq fun _ _ => .choice (fun _ => ?_) (.pure rfl)
  refine .bind (sliceBound_lockstep hg) fun high _ => .seq fun _ _ => .choice (fun _ => ?_) (.pure rfl)
  exact .last (sliceBound_lockstep hg) rfl

theorem indexOrSlice_lockstep (x : Expr) : Parser.Lockstep n t false Expr.erase (indexOrSlice g x)
    (indexOrSlice g' x) (indexOrSlice h x.erase) := by
  refine .kind ?_
  dsimp only
  refine .ite (f := Expr.eraseOpt) (.pure rfl) (.map (hg (.binary 1)) fun _ => rfl) fun low _ =>
    .bind (sliceBounds_lockstep hg) fun bounds _ => .seq fun close _ => ?_
  -- bounds that make no slice are refused, with places or without
  cases low <;> rcases bounds with _ | ⟨_ | high, _ | ⟨_ | max, _ | ⟨_, _⟩⟩⟩ <;>
    first
    | exact .throw
    | exact .pure (by rw [Expr.pos_erase]; rfl)

theorem composite_lockstep (type : Option Expr) : Parser.Lockstep (n + 1) t true Expr.erase
    (composite g type) (composite g' type) (composite h (Expr.eraseOpt type)) := by
  refine .first .expectSymbol fun _ _ => .bind (.bracketed (hg .elements)) fun _ _ => .seq fun _ _ =>
    .pure ?_
  cases type with
  | none => rfl
  | some type => simp [Expr.erase, Nonterminal.eraseTree]

theorem funcOperand_lockstep {pos : Position} : Parser.Lockstep (n + 1) t true Expr.erase
    (funcOperand g pos) (funcOperand g' pos) (funcOperand h default) := by
  refine .seq fun _ _ => .first (signature_lockstep hg) fun _ _ => .kind
    (.choice (fun _ => ?_) (.pure rfl))
  exact .last (.bracketed (block_lockstep hg).lower) rfl

theorem operand_lockstep : InStep g g' h (n + 1) t true Expr.erase operand := by
  refine .current ?_
  dsimp only
  split
  · exact .name
  · exact .name
  · next ht => exact .past ht rfl fun _ => .pure rfl
  · next ht =>
    exact .past ht rfl fun _ => .bind (.bracketed (hg (.binary 1))) fun _ _ => .seq fun _ _ => .pure rfl
  · exact funcOperand_lockstep hg
  iterate 5 exact typeExpr_lockstep hg
  · exact .wanted

theorem selection_lockstep (x : Expr) : Parser.Lockstep n t false Expr.erase (selection g x)
    (selection g' x) (selection h x.erase) := by
  refine .seq fun t _ => ?_
  dsimp only [Token.erase]
  split
  · exact .pure (by rw [Expr.pos_erase]; rfl)
  · exact .pure (by rw [Expr.pos_erase]; rfl)
  · refine .seq fun _ _ => ?_
    exact .ite (f := Expr.eraseOpt) (.pure rfl) (.map (hg .type) fun _ => rfl) fun _ _ =>
      .seq fun _ _ => .pure (by simp [Expr.erase])
  · exact .throw

theorem primaryTail_lockstep (x : Expr) : Parser.Lockstep (n + 1) t false Expr.erase (primaryTail g x)
    (primaryTail g' x) (primaryTail h x.erase) := by
  have htail (y : Expr) (u : Token) : Parser.Lockstep n u false Expr.erase (g (.primaryTail y))
      (g' (.primaryTail y)) (h (.primaryTail y.erase)) :=
    hg (.primaryTail y)
  refine .kind ?_
  split
  · next ht => exact .past ht rfl fun _ => .bind (selection_lockstep hg x) htail
  · next ht => exact .past ht rfl fun _ => .bind (.bracketed (indexOrSlice_lockstep hg x)) htail
  · next ht =>
    refine .past ht rfl fun _ => .bind (f := Prod.map Expr.eraseList id) (.bracketed ?_) fun r u => ?_
    · exact .bind (hg .args) fun _ _ => .seq fun _ _ => .pure rfl
    · rw [x.pos_erase]
      exact htail (.call x.pos x r.1 r.2) u
  · refine .level fun _ => ?_
    rw [Expr.isLiteralType_erase, Expr.isTypeName_erase]
    refine .choice (fun _ => ?_) (.pure rfl)
    exact .first (composite_lockstep hg (some x)) htail
  · exact .pure rfl

theorem primary_lockstep : Parser.Lockstep (n + 1) t true Expr.erase (do primaryTail g (← operand g))
    (do primaryTail g' (← operand g')) (do primaryTail h (← operand h)) :=
  .first (operand_lockstep hg) fun x _ => (primaryTail_lockstep hg x).lower

theorem unaryExpr_lockstep : InStep g g' h (n + 1) t true Expr.erase unaryExpr := by
  refine .current ?_
  dsimp only
  split
  · next ht => exact .past ht rfl fun _ => .last (hg .unary) rfl
  · next sym _ ht =>
    split
    · exact primary_lockstep hg
    · refine .past ht rfl fun _ => .kind (.choice (fun _ => ?_) ?_)
      · exact .seq fun _ _ => .last (hg .type) rfl
      · exact .last (hg .unary) rfl
  · exact primary_lockstep hg

theorem binaryTail_lockstep (least : Nat) (x : Expr) : Parser.Lockstep (n + 1) t false Expr.erase
    (binaryTail g least x) (binaryTail g' least x) (binaryTail h least x.erase) := by
  refine .kind ?_
  split
  · next ht =>
    split
    · exact .pure rfl
    · next op _ =>
      refine .choice (fun _ => .pure rfl) ?_
      refine .past ht rfl fun _ => .bind (hg (.binary _)) fun y u => ?_
      rw [x.pos_erase]
      exact hg (.binaryTail least (.binary x.pos op x y))
  · exact .pure rfl

theorem binaryExpr_lockstep (least : Nat) : Parser.Lockstep (n + 1) t true Expr.erase
    (binaryExpr g least) (binaryExpr g' least) (binaryExpr h least) :=
  .first (unaryExpr_lockstep hg) fun x _ => (binaryTail_lockstep hg least x).lower

theorem exprs_lockstep : InStep g g' h (n + 1) t true Expr.eraseList exprs := by
  refine .first (binaryExpr_lockstep hg 1) fun x _ => .seq fun _ _ => .choice (fun _ => ?_) (.pure rfl)
  exact .last (hg .exprs) rfl

theorem args_lockstep : InStep g g' h (n + 1) t false (Nonterminal.eraseTree .args) args := by
  refine .kind (.choice (fun _ => .pure rfl) ?_)
  refine .first (binaryExpr_lockstep hg 1) fun x _ => .seq fun _ _ => .seq fun _ _ =>
    .choice (fun _ => ?_) (.pure rfl)
  exact .last (hg .args) rfl

theorem elementValue_lockstep : InStep g g' h (n + 1) t true Expr.erase elementValue :=
  .kind (.choice (fun _ => composite_lockstep hg none) (binaryExpr_lockstep hg 1))

theorem elements_lockstep : InStep g g' h (n + 1) t false Expr.eraseList elements := by
  refine .kind (.choice (fun _ => .pure rfl) ?_)
  refine .first (elementValue_lockstep hg) fun key _ => .seq fun _ _ => ?_
  have hrest (elt : Expr) (u : Token) : Parser.Lockstep n u false Expr.eraseList
      (do if ← eatSymbol .comma then return elt :: (← g .elements) else return [elt])
      (do if ← eatSymbol .comma then return elt :: (← g' .elements) else return [elt])
      (do if ← eatSymbol .comma then return elt.erase :: (← h .elements) else return [elt.erase]) :=
    .seq fun _ _ => .choice (fun _ => .last (hg .elements) rfl) (.pure rfl)
  refine .choice (fun _ => ?_) (.bind (.pure rfl) hrest)
  exact .bind (elementValue_lockstep hg).lower.forget fun _ _ =>
    .bind (.pure (by simp [Expr.erase])) hrest

/-! ### Statements -/

omit hg in
theorem single_lockstep {u : Token} (xs : List Expr) : Parser.Lockstep n t false Expr.erase (single u xs)
    (single u xs) (single ⟨u.kind, default⟩ (Expr.eraseList xs)) := by
  rcases xs with _ | ⟨x, _ | ⟨_, _⟩⟩
  · exact .throw
  · exact .pure rfl
  · exact .throw

theorem rangeClause_lockstep {pos : Position} {vars : List Expr} {define : Bool} :
    Parser.Lockstep n t false RangeClause.erase (rangeClause g pos vars define)
      (rangeClause g' pos vars define) (rangeClause h default (Expr.eraseList vars) define) :=
  .bind (hg (.binary 1)) fun _ _ => .pure (by simp [RangeClause.erase, Nonterminal.eraseTree])

theorem assignment_lockstep {mode : SimpleMode} {pos : Position} {lhs : List Expr} {u : Token}
    {op : AssignOp} :
    Parser.Lockstep n t false Simple.erase (assignment g mode pos lhs u op)
      (assignment g' mode pos lhs u op)
      (assignment h mode default (Expr.eraseList lhs) ⟨u.kind, default⟩ op) := by
  refine .kind (.choice (fun _ => .seq fun _ _ => ?_) ?_)
  · rw [Expr.eraseList_eq_map, List.length_map, ← Expr.eraseList_eq_map]
    exact .choice (fun _ => .throw) (.last (rangeClause_lockstep hg) rfl)
  · exact .last (hg .exprs) rfl

theorem labeledStmt_lockstep {pos : Position} {label : String} :
    Parser.Lockstep n t false Stmt.erase (labeledStmt g pos label) (labeledStmt g' pos label)
      (labeledStmt h default label) :=
  .current (.choice (fun _ => .pure rfl) (.last (hg .stmt) rfl))

theorem simpleTail_lockstep {mode : SimpleMode} {pos : Position} {lhs : List Expr} {u : Token} :
    Parser.Lockstep n t false Stmt.erase (simpleTail g mode pos lhs u) (simpleTail g' mode pos lhs u)
      (simpleTail h mode default (Expr.eraseList lhs) ⟨u.kind, default⟩) := by
  obtain ⟨kind, range⟩ := u
  unfold simpleTail
  dsimp only
  split
  · exact .seq fun _ _ => labeledStmt_lockstep hg
  · exact .seq fun _ _ => .bind (single_lockstep _) fun _ _ => .last (hg (.binary 1)) rfl
  · exact .seq fun _ _ => .last (single_lockstep _) rfl
  · exact .seq fun _ _ => .last (single_lockstep _) rfl
  · next harrow hinc hdec hlabel =>
    split
    · next hlhs =>
      obtain ⟨pos', rfl⟩ := exists_of_eraseList_eq_label hlhs
      exact (hlabel _ _ rfl rfl rfl).elim
    · exact (harrow rfl).elim
    · exact (hinc rfl).elim
    · exact (hdec rfl).elim
    · exact .last (single_lockstep _) rfl

theorem simple_lockstep {mode : SimpleMode} :
    Parser.Lockstep (n + 1) t true Simple.erase (simple g mode) (simple g' mode) (simple h mode) := by
  refine .current (.choice (fun ht => ?_) ?_)
  · have hk : t.kind ≠ .eof := by
      simp only [Bool.and_eq_true, decide_eq_true_eq] at ht
      simp [ht.2]
    exact .advance hk fun _ => .last (rangeClause_lockstep hg) rfl
  · refine .first (exprs_lockstep hg) fun lhs _ => .current ?_
    dsimp only
    split
    · exact .seq fun _ _ => assignment_lockstep hg
    · exact .last (simpleTail_lockstep hg) rfl

theorem simpleStmt_lockstep {mode : SimpleMode} : Parser.Lockstep (n + 1) t true Stmt.erase
    (simpleStmt g mode) (simpleStmt g' mode) (simpleStmt h mode) := by
  refine .first (simple_lockstep hg) fun r _ => ?_
  cases r with
  | stmt s => exact .pure rfl
  | range clause => exact .throw

theorem varDecl_lockstep {pos : Position} :
    Parser.Lockstep n t false Stmt.erase (varDecl g pos) (varDecl g' pos) (varDecl h default) := by
  refine .bind (hg .names) fun names _ => .kind ?_
  have hrest (type : Option Expr) (u : Token) : Parser.Lockstep n u false Stmt.erase
      (do
        let values ← if ← eatSymbol .assign then g .exprs else pure []
        return .var pos names type values)
      (do
        let values ← if ← eatSymbol .assign then g' .exprs else pure []
        return .var pos names type values)
      (do
        let values ← if ← eatSymbol .assign then h .exprs else pure []
        return .var default (Expr.eraseList names) (Expr.eraseOpt type) values) :=
    .seq fun _ _ => .ite (f := Expr.eraseList) (hg .exprs) (.pure rfl) fun _ _ => .pure rfl
  dsimp only
  split
  iterate 4 exact .bind (.pure rfl) hrest
  · exact .bind (.map (hg .type) fun _ => rfl) hrest

theorem results_lockstep : InStep g g' h n t false Expr.eraseList results := by
  refine .kind ?_
  split
  iterate 3 exact .pure rfl
  · exact hg .exprs

omit hg in
theorem branchLabel_lockstep : Parser.Lockstep n t false id branchLabel branchLabel branchLabel := by
  refine .kind ?_
  split
  · exact .seq fun _ _ => .pure rfl
  · exact .pure rfl

/-- A statement in a header that is left out in front of one kind of token. -/
theorem optStmt_lockstep {β β' : Type} {f : β → β'} {k k' : Option Stmt → Parser β}
    {l : Option Stmt → Parser β'} {c : Prop} [Decidable c]
    (hk : ∀ s u, Parser.Lockstep (n + 1) u false f (k s) (k' s) (l (Stmt.eraseOpt s))) :
    Parser.Lockstep (n + 1) t false f
      (if c then pure none >>= k else (some <$> simpleStmt g .basic) >>= k)
      (if c then pure none >>= k' else (some <$> simpleStmt g' .basic) >>= k')
      (if c then pure none >>= l else (some <$> simpleStmt h .basic) >>= l) :=
  .ite (.pure rfl) (.map (simpleStmt_lockstep hg).forget fun _ => rfl) hk

theorem condHeader_lockstep :
    InStep g g' h (n + 1) t false (Prod.map Stmt.eraseOpt Expr.erase) condHeader := by
  refine .kind (optStmt_lockstep hg fun init _ => .eatSymbol (fun _ => ?_) ?_)
  · exact .last (hg (.binary 1)) rfl
  · rcases init with _ | init
    · exact .wanted
    · cases init with
      | expr _ test => exact .pure rfl
      | _ => exact .wanted

theorem condStmt_lockstep {pos : Position} : Parser.Lockstep (n + 1) t true Stmt.erase (condStmt g pos)
    (condStmt g' pos) (condStmt h default) := by
  refine .seq fun _ _ => .kind (.choice (fun _ => .wanted) ?_)
  refine .bind (.inHeader (condHeader_lockstep hg)) fun header _ =>
    .first (block_lockstep hg) fun body _ => .seq fun _ _ => .choice (fun _ => .kind ?_) (.pure rfl)
  split
  · exact .last (hg .stmt) rfl
  · exact .last (block_lockstep hg).lower rfl
  · exact .wanted

theorem switchHeader_lockstep :
    InStep g g' h (n + 1) t false (Prod.map Stmt.eraseOpt Stmt.eraseOpt) switchHeader := by
  refine .kind (.choice (fun _ => .pure rfl) (.kind ?_))
  refine optStmt_lockstep hg fun first _ => .eatSymbol (fun _ => ?_) (.pure rfl)
  refine .kind (.choice (fun _ => .pure rfl) ?_)
  exact .last (simpleStmt_lockstep hg).lower rfl

theorem switchStmt_lockstep {pos : Position} : Parser.Lockstep (n + 1) t true Stmt.erase
    (switchStmt g pos) (switchStmt g' pos) (switchStmt h default) := by
  refine .seq fun _ _ => .bind (.inHeader (switchHeader_lockstep hg)) fun header _ => .here
    (.first .expectSymbol fun _ _ => .bind (hg .clauses) fun clauses _ => .seq fun _ _ => ?_)
  obtain ⟨init, tag⟩ := header
  cases tag with
  | none => exact .pure rfl
  | some guard =>
    change Parser.Lockstep n _ _ _ _ _ (if guard.erase.isTypeSwitchGuard = true then _ else _)
    rw [Stmt.isTypeSwitchGuard_erase]
    refine .choice (fun _ => .pure rfl) ?_
    cases guard with
    | expr _ x => exact .pure rfl
    | _ => exact .throw

theorem loopClauses_lockstep {init : Option Stmt} : Parser.Lockstep n t false LoopHeader.erase
    (loopClauses g init) (loopClauses g' init) (loopClauses h (Stmt.eraseOpt init)) := by
  refine .kind (.ite (f := Expr.eraseOpt) (.pure rfl) (.map (hg (.binary 1)) fun _ => rfl)
    fun test _ => .seq fun _ _ => .kind ?_)
  exact .ite (f := Stmt.eraseOpt) (.pure rfl)
    (.map (simpleStmt_lockstep hg).lower.forget fun _ => rfl) fun _ _ => .pure rfl

theorem loopHeader_lockstep : InStep g g' h (n + 1) t false LoopHeader.erase loopHeader := by
  refine .kind ?_
  split
  · exact .pure rfl
  · next ht => exact .past ht rfl fun _ => loopClauses_lockstep hg
  · refine .first (simple_lockstep hg) fun r _ => ?_
    cases r with
    | range clause => exact .pure rfl
    | stmt init =>
      refine .seq fun _ _ => .choice (fun _ => loopClauses_lockstep hg) ?_
      cases init with
      | expr _ test => exact .pure rfl
      | _ => exact .wanted

theorem loopStmt_lockstep {pos : Position} : Parser.Lockstep (n + 1) t true Stmt.erase (loopStmt g pos)
    (loopStmt g' pos) (loopStmt h default) := by
  refine .seq fun _ _ => .bind (.inHeader (loopHeader_lockstep hg)) fun header _ =>
    .first (block_lockstep hg) fun body _ => ?_
  cases header with
  | clauses init test post => exact .pure rfl
  | range c => exact .pure rfl

/-- A statement takes a token, unless it is empty. -/
theorem stmt_lockstep {takes : Bool} (htakes : takes = true → t.kind ≠ .symbol .semiColon) :
    InStep g g' h (n + 1) t takes Stmt.erase stmt := by
  have hsimple : Parser.Lockstep (n + 1) t takes Stmt.erase (simpleStmt g .labeled)
      (simpleStmt g' .labeled) (simpleStmt h .labeled) :=
    (simpleStmt_lockstep hg).weaken fun _ => rfl
  refine .current ?_
  dsimp only
  split
  · next ht => exact .past ht rfl fun _ => varDecl_lockstep hg
  · next ht => exact .past ht rfl fun _ => .last (hg (.binary 1)) rfl
  · next ht => exact .past ht rfl fun _ => .last (hg (.binary 1)) rfl
  · next ht => exact .past ht rfl fun _ => .last (results_lockstep hg) rfl
  · exact (condStmt_lockstep hg).weaken fun _ => rfl
  · exact (switchStmt_lockstep hg).weaken fun _ => rfl
  · exact (loopStmt_lockstep hg).weaken fun _ => rfl
  iterate 5 exact .throw
  · next ht =>
    split
    · exact .past ht rfl fun _ => .last branchLabel_lockstep rfl
    · exact hsimple
  · exact (block_lockstep hg).weaken fun _ => rfl
  · next ht =>
    cases takes with
    | false => exact .pure rfl
    | true => exact absurd ht (htakes rfl)
  · exact hsimple

/-- A statement in front of others. -/
theorem stmtCons_lockstep {rest rest' rest'' : Parser (List Stmt)}
    (hr : ∀ {u}, Parser.Lockstep n u false Stmt.eraseList rest rest' rest'')
    (ht : t.kind ≠ .symbol .semiColon) :
    Parser.Lockstep (n + 1) t false Stmt.eraseList (do let s ← stmt g; stmtEnd; return s :: (← rest))
      (do let s ← stmt g'; stmtEnd; return s :: (← rest'))
      (do let s ← stmt h; stmtEnd; return s :: (← rest'')) :=
  .first (stmt_lockstep hg fun _ => ht) fun _ _ => .seq fun _ _ => .last hr rfl

theorem stmts_lockstep : InStep g g' h (n + 1) t false Stmt.eraseList stmts := by
  refine .kind ?_
  split
  iterate 4 exact .pure rfl
  · next ht => exact .past ht rfl fun _ => hg .stmts
  · next ht => exact stmtCons_lockstep hg (hg .stmts) ht

theorem clause_lockstep : InStep g g' h (n + 1) t true Stmt.erase clause := by
  by_cases ht : t.kind = .eof
  · refine .advance_eof ht ?_
    dsimp only [Token.erase]
    rw [ht]
    exact .bind (f := Expr.eraseListOpt) (.pure rfl) fun _ _ => .first .expectSymbol fun _ _ =>
      .last (hg .stmts) rfl
  · refine .advance ht fun _ => ?_
    exact .ite (f := Expr.eraseListOpt) (.map (hg .exprs) fun _ => rfl) (.pure rfl) fun _ _ =>
      .seq fun _ _ => .last (hg .stmts) rfl

theorem clauses_lockstep : InStep g g' h (n + 1) t false Stmt.eraseList clauses := by
  have hclause : Parser.Lockstep (n + 1) t false Stmt.eraseList
      (do let c ← clause g; return c :: (← g .clauses))
      (do let c ← clause g'; return c :: (← g' .clauses))
      (do let c ← clause h; return c :: (← h .clauses)) :=
    .first (clause_lockstep hg) fun _ _ => .last (hg .clauses) rfl
  refine .kind ?_
  split
  · exact hclause
  · exact hclause
  · next ht => exact stmtCons_lockstep hg (hg .clauses) (by simp [ht])
  · next ht => exact .past ht rfl fun _ => hg .clauses
  · exact .pure rfl

/-! ### Declarations -/

omit hg in
theorem importSpec_lockstep :
    Parser.Lockstep (n + 1) t true id importSpec importSpec importSpec := by
  have hpath {m : Nat} {u : Token} (name : Option String) :
      Parser.Lockstep (m + 1) u true id (importPath name) (importPath name) (importPath name) := by
    by_cases hu : u.kind = .eof
    · refine .advance_eof hu ?_
      dsimp only [Token.erase]
      rw [hu]
      exact .throw
    · refine .advance hu fun _ => ?_
      dsimp only [Token.erase]
      split
      · exact .pure rfl
      · exact .throw
  refine .kind ?_
  dsimp only
  split
  · next ht => exact .past ht rfl fun _ => .bind (.pure rfl) fun _ _ => (hpath _).lower.forget
  · next ht => exact .past ht rfl fun _ => .bind (.pure rfl) fun _ _ => (hpath _).lower.forget
  · exact .bind (.pure rfl) fun _ _ => hpath _

omit hg in
instance : Steady id importSpec :=
  .of_lockstep importSpec_lockstep

theorem importSpecs_lockstep : InStep g g' h (n + 1) t false id importSpecs := by
  refine .kind (.choice (fun _ => .pure rfl) ?_)
  refine .first importSpec_lockstep fun spec _ => .seq fun _ _ => .choice (fun _ => ?_) (.pure rfl)
  exact .last (hg .importSpecs) rfl

/-- What is imported behind the word for it. -/
def importClause (g : Grammar) : Parser (List Import) := do
  if ← eatSymbol .lParen then do
    let specs ← g .importSpecs
    let _ ← expectSymbol .rParen
    pure specs
  else List.singleton <$> importSpec

theorem importClause_lockstep : InStep g g' h n t false id importClause := by
  refine .seq fun _ _ => .choice (fun _ => ?_) (.map .steady fun _ => rfl)
  exact .bind (hg .importSpecs) fun _ _ => .seq fun _ _ => .pure rfl

omit hg in
theorem imports_eq (g : Grammar) : g.imports = do
    if ← eat (.keyword .import_) then
      let specs ← importClause g
      stmtEnd
      return specs ++ (← g .imports)
    else
      return [] := by
  have hchoice {α β : Type} (b : Bool) (p q : Parser α) (k : α → Parser β) :
      (if b then p else q) >>= k = if b then p >>= k else q >>= k := by
    cases b <;> rfl
  simp only [imports, importClause, bind_assoc, hchoice, pure_bind]

theorem imports_lockstep : InStep g g' h (n + 1) t false id imports := by
  rw [InStep, imports_eq, imports_eq, imports_eq]
  refine .eat (by simp) (fun _ => ?_) (.pure rfl)
  exact .bind (importClause_lockstep hg) fun _ _ => .seq fun _ _ => .last (hg .imports) rfl

theorem receiver_lockstep {pos : Position} : Parser.Lockstep (n + 1) t false (Option.map Field.erase)
    (receiver g pos) (receiver g' pos) (receiver h default) := by
  refine .kind (.choice (fun _ => .first (paramList_lockstep hg) fun fields _ => ?_) (.pure rfl))
  rcases fields with _ | ⟨field, _ | ⟨_, _⟩⟩
  · exact .throw
  · exact .pure rfl
  · exact .throw

theorem func_lockstep : InStep g g' h (n + 1) t true Func.erase func := by
  refine .here (.first .expectKeyword fun _ _ => .bind (receiver_lockstep hg).lower fun recv _ =>
    .seq fun name _ => .bind (signature_lockstep hg).lower.forget fun sig _ => .kind ?_)
  exact .ite (f := Stmt.eraseOpt) (.map (block_lockstep hg).lower.forget fun _ => rfl) (.pure rfl)
    fun _ _ => .pure (by simp [Func.erase])

/-- A function in front of others. -/
theorem funcCons_lockstep {rest rest' rest'' : Parser (List Func)}
    (hr : ∀ {u}, Parser.Lockstep n u false (List.map Func.erase) rest rest' rest'') :
    Parser.Lockstep (n + 1) t false (List.map Func.erase)
      (do let f ← func g; stmtEnd; return f :: (← rest))
      (do let f ← func g'; stmtEnd; return f :: (← rest'))
      (do let f ← func h; stmtEnd; return f :: (← rest'')) :=
  .first (func_lockstep hg) fun _ _ => .seq fun _ _ => .last hr rfl

theorem funcs_lockstep : InStep g g' h (n + 1) t false (List.map Func.erase) funcs := by
  refine .kind ?_
  split
  · exact .pure rfl
  · next ht => exact .past ht rfl fun _ => hg .funcs
  · exact funcCons_lockstep hg (hg .funcs)

theorem decls_lockstep : InStep g g' h (n + 1) t false (List.map Func.erase) decls := by
  have hskip (ht : t.kind ≠ .eof) (hdecl : t.kind.endsDecl 0 = false) :
      Parser.Lockstep (n + 1) t false (List.map Func.erase) (do modify Cursor.skipDecl; g .decls)
        (do modify Cursor.skipDecl; g' .decls) (do modify Cursor.skipDecl; h .decls) :=
    .skipDecl ht hdecl fun _ => hg .decls
  refine .kind ?_
  split
  · exact .pure rfl
  · next ht => exact .past ht rfl fun _ => hg .decls
  · exact funcCons_lockstep hg (hg .decls)
  · next ht => exact hskip (by simp [ht]) (by simp [ht, Token.Kind.endsDecl])
  · next ht => exact hskip (by simp [ht]) (by simp [ht, Token.Kind.endsDecl])
  · next ht => exact hskip (by simp [ht]) (by simp [ht, Token.Kind.endsDecl])
  · exact .current .throw

/-! ### Whole sources -/

theorem file_lockstep : InStep g g' h n t true File.erase file :=
  .andThen .expectKeyword (fun _ _ => .seq fun _ _ => .seq fun _ _ => .bind (hg .imports)
    fun _ _ => .last (hg .decls) rfl) (.inl (Nat.le_refl n))

theorem exprsToEnd_lockstep : InStep g g' h n t false Expr.eraseList exprsToEnd :=
  .bind (hg .exprs) fun _ _ => .seq fun _ _ => .seq fun _ _ => .pure rfl

theorem stmtsToEnd_lockstep : InStep g g' h n t false Stmt.eraseList stmtsToEnd :=
  .bind (hg .stmts) fun _ _ => .seq fun _ _ => .pure rfl

/-! ### The grammar as a whole -/

/-- Whether a nonterminal takes a token, at `t`, unless it fails. -/
def takes (t : Token) : Nonterminal → Bool
  | .binary _ | .unary | .type | .exprs | .names => true
  | .stmt => t.kind ≠ .symbol .semiColon
  | _ => false

theorem step_lockstep (s : Nonterminal) :
    Parser.Lockstep (n + 1) t (takes t s) s.eraseTree (step g s) (step g' s) (step h s.erase) := by
  cases s with
  | binary least => exact binaryExpr_lockstep hg least
  | binaryTail least x => exact binaryTail_lockstep hg least x
  | unary => exact unaryExpr_lockstep hg
  | primaryTail x => exact primaryTail_lockstep hg x
  | type => exact typeExpr_lockstep hg
  | exprs => exact exprs_lockstep hg
  | args => exact args_lockstep hg
  | elements => exact elements_lockstep hg
  | params => exact params_lockstep hg
  | fields => exact fields_lockstep hg
  | methods => exact methods_lockstep hg
  | names => exact names_lockstep hg
  | stmt => exact stmt_lockstep hg of_decide_eq_true
  | stmts => exact stmts_lockstep hg
  | clauses => exact clauses_lockstep hg
  | importSpecs => exact importSpecs_lockstep hg
  | imports => exact imports_lockstep hg
  | funcs => exact funcs_lockstep hg
  | decls => exact decls_lockstep hg

/-- Grammars that go one level deeper are in lockstep with one token more ahead. -/
theorem lockstep_step : (step g).Lockstep (n + 1) (step g') (step h) :=
  fun s _ => (step_lockstep hg s).forget

omit hg

/-- The grammar to the given depth, with `g` below it. -/
def levels (g : Grammar) : Nat → Grammar
  | 0 => g
  | n + 1 => step (levels g n)

/-- Where fewer tokens are ahead than the grammar is deep, what is below is never asked. -/
theorem lockstep_levels (g g' h : Grammar) (n : Nat) :
    (g.levels n).Lockstep n (g'.levels n) (h.levels n) := by
  induction n with
  | zero => exact fun s t c _ _ hn => absurd hn (Nat.not_lt_zero _)
  | succ n ih => exact lockstep_step ih

theorem levels_add (g : Grammar) (n m : Nat) : (g.levels m).levels n = g.levels (n + m) := by
  induction n with
  | zero =>
    rw [Nat.zero_add]
    rfl
  | succ n ih =>
    rw [Nat.succ_add]
    exact congrArg step ih

theorem bounded_eq_levels (n : Nat) : bounded n = (bounded 0).levels n := by
  induction n with
  | zero => rfl
  | succ n ih => exact congrArg step ih

theorem lockstep_full (g h : Grammar) (n : Nat) : (g.levels n).Lockstep n full (h.levels n) := by
  intro s t c hc hend hn
  obtain ⟨m, rfl⟩ : ∃ m, n = c.size + 1 + m := ⟨n - (c.size + 1), by omega⟩
  have hsame := lockstep_levels (g.levels m) (bounded 0) (h.levels m) (c.size + 1) s c hc hend
    (Nat.lt_succ_self _)
  rw [levels_add, levels_add, ← bounded_eq_levels] at hsame
  exact hsame

/-- The grammar is what it makes of itself. -/
theorem full_eq_step {c : Cursor} (hc : Token.Terminated c.tokens) (s : Nonterminal) :
    full s c = step full s c := by
  have hfull := lockstep_full full full (c.size + 1) s c rfl hc (Nat.lt_succ_self _)
  have hstep := lockstep_step (lockstep_full full full c.size) s c rfl hc (Nat.lt_succ_self _)
  exact hfull.1.trans hstep.1.symm

theorem reaches_of_full {c c' : Cursor} (hc : Token.Terminated c.tokens) {s : Nonterminal} {a : s.Tree}
    (h : full s c = .ok a c') : c.Reaches c' := by
  obtain ⟨heq, horderly, -⟩ := lockstep_full full full (c.size + 1) s c rfl hc (Nat.lt_succ_self _)
  rw [← heq, h] at horderly
  exact horderly.1

/-- A parser made from the grammar does the same wherever the tokens are alike up to where it stops. -/
theorem erased_full {α : Type} {f : α → α} {F : Grammar → Parser α}
    (hF : ∀ {n t g g' h}, Grammar.Lockstep n g g' h →
      InStep g g' h n t false f F)
    {c c' : Cursor} {behind behind' : List Token} (hc : Token.Terminated c.tokens)
    (hc' : Token.Terminated c'.tokens) (halike : c.Alike behind behind' c')
    (hlen : behind.length ≤ ((F full).leaves c).size) :
    Erased behind behind' f (F full c) (F full c') := by
  have hgrammar := lockstep_full full full (c.size + c'.size + 1)
  obtain ⟨heq, -, hblind⟩ := hF hgrammar c rfl hc (by omega)
  obtain ⟨heq', -⟩ := hF hgrammar c' rfl hc' (by omega)
  rw [Parser.leaves, heq] at hlen
  rw [heq, heq']
  exact hblind.erased halike hlen

theorem erased_ofTokens {α : Type} {f : α → α} {F : Grammar → Parser α}
    (hF : ∀ {n t g g' h}, Grammar.Lockstep n g g' h →
      InStep g g' h n t false f F)
    {ts : List Token} (hts : Token.Terminated ts) :
    Erased [] [] f (F full (.ofTokens ts)) (F full (.ofTokens (ts.map Token.erase))) := by
  cases ts with
  | nil =>
    obtain ⟨t, ht, -⟩ := hts
    cases ht
  | cons t ts =>
    exact erased_full hF hts hts.map_erase ⟨rfl, .erase (List.cons_ne_nil t ts)⟩ (Nat.zero_le _)

/-- What a file is read to depends on the kinds of the tokens only, places apart. -/
theorem erase_file {ts : List Token} (hts : Token.Terminated ts) :
    (File.parser.run ts).toOption.map File.erase = (File.parser.run (ts.map Token.erase)).toOption := by
  have hread := erased_ofTokens (fun hg => (file_lockstep hg).forget) hts
  unfold Parser.run File.parser
  generalize full.file (.ofTokens ts) = r at hread ⊢
  generalize full.file (.ofTokens (ts.map Token.erase)) = r' at hread ⊢
  cases hread <;> rfl

/-- The parsers made from a grammar: those of the nonterminals, the parts of them that are parsers by
themselves, and those for a whole source. Each comes with whether it takes a token, at `t`, unless it
fails. -/
inductive Routine (t : Token) : Bool → {α : Type} → (Grammar → Parser α) → Prop
  | nonterminal (s : Nonterminal) : Routine t false fun g => g s
  | body (s : Nonterminal) : Routine t (takes t s) fun g => step g s
  | advance : Routine t false fun _ => advance
  | eat (kind : Token.Kind) : Routine t false fun _ => eat kind
  | expect (kind : Token.Kind) : Routine t false fun _ => expect kind
  | name : Routine t true fun _ => name
  | identName : Routine t true fun _ => identName
  | stmtEnd : Routine t false fun _ => stmtEnd
  | finish : Routine t false fun _ => finish
  | typeName (start : Position) : Routine t true fun _ => typeName start
  | paramList : Routine t true paramList
  | signature : Routine t true signature
  | arrayLength : Routine t false arrayLength
  | structBody : Routine t true fun g => bracedFields (g .fields)
  | interfaceBody : Routine t true fun g => bracedFields (g .methods)
  | paramType : Routine t true paramType
  | structField : Routine t true structField
  | method : Routine t true method
  | block : Routine t true block
  | sliceBound : Routine t false sliceBound
  | sliceBounds : Routine t false sliceBounds
  | indexOrSlice (x : Expr) : Routine t false fun g => indexOrSlice g x
  | composite (type : Option Expr) : Routine t true fun g => composite g type
  | funcOperand (pos : Position) : Routine t true fun g => funcOperand g pos
  | operand : Routine t true operand
  | selection (x : Expr) : Routine t false fun g => selection g x
  | primary : Routine t true fun g => do primaryTail g (← operand g)
  | elementValue : Routine t true elementValue
  | single (u : Token) (xs : List Expr) : Routine t false fun _ => single u xs
  | rangeClause (pos : Position) (vars : List Expr) (define : Bool) :
      Routine t false fun g => rangeClause g pos vars define
  | assignment (mode : SimpleMode) (pos : Position) (lhs : List Expr) (u : Token) (op : AssignOp) :
      Routine t false fun g => assignment g mode pos lhs u op
  | labeledStmt (pos : Position) (label : String) : Routine t false fun g => labeledStmt g pos label
  | simpleTail (mode : SimpleMode) (pos : Position) (lhs : List Expr) (u : Token) :
      Routine t false fun g => simpleTail g mode pos lhs u
  | simple (mode : SimpleMode) : Routine t true fun g => simple g mode
  | simpleStmt (mode : SimpleMode) : Routine t true fun g => simpleStmt g mode
  | varDecl (pos : Position) : Routine t false fun g => varDecl g pos
  | results : Routine t false results
  | branchLabel : Routine t false fun _ => branchLabel
  | condHeader : Routine t false condHeader
  | condStmt (pos : Position) : Routine t true fun g => condStmt g pos
  | switchHeader : Routine t false switchHeader
  | switchStmt (pos : Position) : Routine t true fun g => switchStmt g pos
  | loopClauses (init : Option Stmt) : Routine t false fun g => loopClauses g init
  | loopHeader : Routine t false loopHeader
  | loopStmt (pos : Position) : Routine t true fun g => loopStmt g pos
  | clause : Routine t true clause
  | importSpec : Routine t true fun _ => importSpec
  | receiver (pos : Position) : Routine t false fun g => receiver g pos
  | func : Routine t true func
  | skipDecl : Routine t false fun _ => modify Cursor.skipDecl
  | file : Routine t true file
  | exprsToEnd : Routine t false exprsToEnd
  | stmtsToEnd : Routine t false stmtsToEnd

theorem Routine.agree {α : Type} {takes : Bool} {F : Grammar → Parser α} (hF : Routine t takes F)
    (hg : g.Lockstep n g' h) : Parser.Agree n t takes (F g) (F g') := by
  cases hF with
  | nonterminal s => exact (hg s).same
  | body s => exact (step_lockstep hg s).lower.same
  | advance => exact .steady
  | eat kind => exact .steady
  | expect kind => exact .steady
  | name => exact Parser.Lockstep.name.lower.same
  | identName => exact Parser.Lockstep.identName.lower.same
  | stmtEnd => exact .steady
  | finish => exact .steady
  | typeName start => exact typeName_lockstep.lower.same
  | paramList => exact (paramList_lockstep hg).lower.same
  | signature => exact (signature_lockstep hg).lower.same
  | arrayLength => exact (arrayLength_lockstep hg).same
  | structBody => exact (bracedFields_lockstep (hg .fields)).lower.same
  | interfaceBody => exact (bracedFields_lockstep (hg .methods)).lower.same
  | paramType => exact (paramType_lockstep hg).lower.same
  | structField => exact (structField_lockstep hg).lower.same
  | method => exact (method_lockstep hg).lower.same
  | block => exact (block_lockstep hg).lower.same
  | sliceBound => exact (sliceBound_lockstep hg).same
  | sliceBounds => exact (sliceBounds_lockstep hg).same
  | indexOrSlice x => exact (indexOrSlice_lockstep hg x).same
  | composite type => exact (composite_lockstep hg type).lower.same
  | funcOperand pos => exact (funcOperand_lockstep hg).lower.same
  | operand => exact (operand_lockstep hg).lower.same
  | selection x => exact (selection_lockstep hg x).same
  | primary => exact (primary_lockstep hg).lower.same
  | elementValue => exact (elementValue_lockstep hg).lower.same
  | single u xs => exact (single_lockstep xs).same
  | rangeClause pos vars define => exact (rangeClause_lockstep hg).same
  | assignment mode pos lhs u op => exact (assignment_lockstep hg).same
  | labeledStmt pos label => exact (labeledStmt_lockstep hg).same
  | simpleTail mode pos lhs u => exact (simpleTail_lockstep hg).same
  | simple mode => exact (simple_lockstep hg).lower.same
  | simpleStmt mode => exact (simpleStmt_lockstep hg).lower.same
  | varDecl pos => exact (varDecl_lockstep hg).same
  | results => exact (results_lockstep hg).same
  | branchLabel => exact branchLabel_lockstep.same
  | condHeader => exact (condHeader_lockstep hg).lower.same
  | condStmt pos => exact (condStmt_lockstep hg).lower.same
  | switchHeader => exact (switchHeader_lockstep hg).lower.same
  | switchStmt pos => exact (switchStmt_lockstep hg).lower.same
  | loopClauses init => exact (loopClauses_lockstep hg).same
  | loopHeader => exact (loopHeader_lockstep hg).lower.same
  | loopStmt pos => exact (loopStmt_lockstep hg).lower.same
  | clause => exact (clause_lockstep hg).lower.same
  | importSpec => exact importSpec_lockstep.lower.same
  | receiver pos => exact (receiver_lockstep hg).lower.same
  | func => exact (func_lockstep hg).lower.same
  | skipDecl => exact fun c _ _ _ => ⟨rfl, .idle c.reaches_skipDecl⟩
  | file => exact (file_lockstep hg).same
  | exprsToEnd => exact (exprsToEnd_lockstep hg).same
  | stmtsToEnd => exact (stmtsToEnd_lockstep hg).same

/-- The grammar is total. At any token of a list that ends with the end mark, however malformed it is:
its parsers make up a solution of the equations of the grammar; none of them goes deeper than there are
tokens ahead, whatever is below; it leaves the cursor in the list, at no smaller index, and at the level at
which it began; and if it is one that takes a token, the index has grown unless it failed. -/
theorem Routine.total {ts : List Token} (hts : Token.Terminated ts) {i : Nat} {c : Cursor}
    (hc : c.At ts i) {takes : Bool} {α : Type} {F : Grammar → Parser α}
    (hF : Routine c.current takes F) :
    (∀ s, full s c = step full s c) ∧
      (∀ (g : Grammar) (depth : Nat), c.size < depth → F (g.levels depth) c = F full c) ∧
      ((F full).leaves c).level = c.level ∧
      ∃ j, ((F full).leaves c).At ts j ∧ i ≤ j ∧
        (takes = true → (∃ a c', F full c = .ok a c') → i < j) := by
  have hend : Token.Terminated c.tokens :=
    hts.suffix (hc.tokens ▸ List.drop_suffix i ts) (List.cons_ne_nil _ _)
  have hsame (g : Grammar) (depth : Nat) (hdepth : c.size < depth) :=
    hF.agree (lockstep_full g g depth) c rfl hend hdepth
  have horderly : Orderly takes c (F full c) := by
    obtain ⟨heq, horderly⟩ := hsame full (c.size + 1) (Nat.lt_succ_self _)
    rwa [heq]
  obtain ⟨hreach, htakes⟩ := horderly.leaves
  obtain ⟨j, hij, hj, hlt⟩ := hc.reaches hreach
  exact ⟨full_eq_step hend, fun g depth hdepth => (hsame g depth hdepth).1.symm, hreach.level, j, hj,
    hij, fun ht hok => hlt (htakes ht hok)⟩

/-- The tokens of `if g(a) { b[T{1, (2 : =`. -/
def brokenBranch : List Token :=
  [.keyword .if_, .ident "g", .symbol .lParen, .ident "a", .symbol .rParen, .symbol .lBrace,
    .ident "b", .symbol .lBracket, .ident "T", .symbol .lBrace, .literal .int "1", .symbol .comma,
    .symbol .lParen, .literal .int "2", .symbol .colon, .symbol .assign, .eof].map (⟨·, default⟩)

/-- As statements the tokens are refused inside three pairs of brackets, and the level is put back; the
call in the header is read as an operand, and its tokens are taken. -/
theorem brokenBranch_total :
    Token.Terminated brokenBranch ∧
      (∃ e, Stmt.listParser.run brokenBranch = .error e) ∧
      (Stmt.listParser.leaves (.ofTokens brokenBranch)).level = 0 ∧
      (∃ j, (Stmt.listParser.leaves (.ofTokens brokenBranch)).At brokenBranch j) ∧
      (∀ g : Grammar, stmtsToEnd (g.levels 17) (.ofTokens brokenBranch) =
        Stmt.listParser (.ofTokens brokenBranch)) ∧
      ∃ j, ((step full .unary).leaves (Cursor.ofTokens brokenBranch).next).At brokenBranch j ∧ 1 < j := by
  have hend : Token.Terminated brokenBranch := ⟨_, rfl, rfl⟩
  have hstart : (Cursor.ofTokens brokenBranch).At brokenBranch 0 := Cursor.at_ofTokens (by decide)
  have hcall : (Cursor.ofTokens brokenBranch).next.At brokenBranch 1 := ⟨by decide, rfl⟩
  obtain ⟨-, hdeep, hlevel, j, hj, -⟩ := Routine.total hend hstart .stmtsToEnd
  obtain ⟨-, -, -, j', hj', -, htakes⟩ := Routine.total hend hcall (.body .unary)
  exact ⟨hend, ⟨_, rfl⟩, hlevel, ⟨j, hj⟩, fun g => hdeep g 17 (by decide), j', hj',
    htakes rfl ⟨_, _, rfl⟩⟩

end Grammar

end GoSift
