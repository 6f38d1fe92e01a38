import GoSift.Pattern.Source
import GoSift.Proofs.Pattern.FitInstance
import GoSift.Proofs.Pattern.Spelling
import GoSift.Proofs.Pattern.Wildcards
import GoSift.Proofs.Syntax.Parsed

/-!
Compiled patterns. The code of a pattern spells out the tree of its source, so that a node is matched
if it fits the term of the tree, and it fits if it is an instance of the tree.
-/
namespace GoSift.Pattern

/-- One expression, or several in a row. -/
def exprTree : List Expr → Node
  | [x] => .expr x
  | xs => .exprs xs

/-- One statement, or several in a row. -/
def stmtTree : List Stmt → Node
  | [s] => .stmt s
  | ss => .stmts ss

/-- The tree of a pattern: expressions if its source can be read as such, else statements. -/
def tree? (src : String) : Option Node :=
  match Expr.parseList true src, Stmt.parseList true src with
  | .ok xs, _ => some (exprTree xs)
  | .error _, .ok ss => some (stmtTree ss)
  | .error _, .error _ => none

/-- The term of a tree or list. -/
def termOf : Node → Term
  | .expr x => x.term
  | .stmt s => s.term
  | .field f => f.term
  | .exprs xs => .run (Expr.terms xs)
  | .stmts ss => .run (Stmt.terms ss)
  | .fields fs => .run (Field.terms fs)

/-- Whether a pattern is the code of a tree. -/
def Encodes (p : Pattern) : Node → Prop
  | .expr x => x.term.Spells p.strings p.insts
  | .stmt s => s.term.Spells p.strings p.insts
  | .exprs xs =>
    ∃ code, p.insts = .plain .exprList :: code ∧ (Term.run (Expr.terms xs)).Spells p.strings code
  | .stmts ss =>
    ∃ code, p.insts = .plain .stmtList :: code ∧ (Term.run (Stmt.terms ss)).Spells p.strings code
  | .field _ | .fields _ => False

/-- A node as it is matched against a pattern with the given tree: a list if the tree is one of the
same sort, and no list if the tree is none. -/
def candidate? : Node → Node → Option Part
  | .exprs _, .exprs xs => some (.exprs xs)
  | .stmts _, .stmts ss => some (.stmts ss)
  | .expr _, n | .stmt _, n => if n.isList then none else some (.one n)
  | _, _ => none

/-! ### The code of a source -/

/-- What comes of encoding a tree whose nodes are at places in `S`. -/
def Encoded (S : Position → Prop) (tree : Node) : Except PatternError Pattern → Prop
  | .ok p => p.Encodes tree ∧ Compact p.strings
  | .error e => PlacedIn S e

section

variable {p : Pattern} {S : Position → Prop}

/-- The pattern that an encoder makes, from no texts. -/
theorem Makes.ofEncoder {m : Encoder (List Inst)} {P : List String → List Inst → Prop} {tree : Node}
    (h : Makes S m P) (htree : ∀ p : Pattern, P p.strings p.insts → p.Encodes tree) :
    Encoded S tree (ofEncoder m) := by
  have hmade := h []
  unfold Pattern.ofEncoder
  cases hm : m [] with
  | error e =>
    rw [hm] at hmade
    exact hmade
  | ok r =>
    rw [hm] at hmade
    obtain ⟨hle, hP⟩ := hmade
    exact ⟨htree ⟨r.1, r.2⟩ (hP _ List.prefix_rfl), hle.compact ⟨List.nodup_nil, Nat.zero_le _⟩⟩

theorem encoded_ofExprs {xs : List Expr} (h : ∀ x ∈ xs, x.Each (Node.At S)) :
    Encoded S (exprTree xs) (ofExprs xs) := by
  have hlist : Makes S (do return .plain .exprList :: (← limited xs .expressions (encodeExprs 0 xs)))
      fun table code => ∃ rest, code = .plain .exprList :: rest ∧
        (Term.run (Expr.terms xs)).Spells table rest :=
    .bind (.limited (Expr.spelled_list xs h 0)) fun code => .pure fun table hcode => ⟨code, rfl, hcode⟩
  match xs, h, hlist with
  | [], _, hlist => exact hlist.ofEncoder fun _ hp => hp
  | [x], h, _ => exact (x.spelled (h x List.mem_cons_self) 0).ofEncoder fun _ hp => hp
  | _ :: _ :: _, _, hlist => exact hlist.ofEncoder fun _ hp => hp

theorem encoded_ofStmts {ss : List Stmt} (h : ∀ s ∈ ss, s.Each (Node.At S)) :
    Encoded S (stmtTree ss) (ofStmts ss) := by
  have hlist : Makes S (do return .plain .stmtList :: (← limited ss .statements (encodeStmts 0 ss)))
      fun table code => ∃ rest, code = .plain .stmtList :: rest ∧
        (Term.run (Stmt.terms ss)).Spells table rest :=
    .bind (.limited (Stmt.spelled_list ss h 0)) fun code => .pure fun table hcode => ⟨code, rfl, hcode⟩
  match ss, h, hlist with
  | [], _, _ => exact .empty
  | [s], h, _ => exact (s.spelled (h s List.mem_cons_self) 0).ofEncoder fun _ hp => hp
  | _ :: _ :: _, _, hlist => exact hlist.ofEncoder fun _ hp => hp

theorem exists_compact_tree_of_compile {src : String} (h : compile src = .ok p) :
    ∃ tree, tree? src = some tree ∧ p.Encodes tree ∧ Compact p.strings := by
  unfold compile at h
  unfold tree? Expr.parseList Stmt.parseList Parser.runText
  cases hts : Token.tokenize true src with
  | error e => rw [hts] at h; cases h
  | ok ts =>
    rw [hts] at h
    dsimp only [ofTokens] at h ⊢
    split at h
    · cases h
    split at h
    · cases h
    cases hxs : Expr.listParser.run ts with
    | ok xs =>
      rw [hxs] at h
      have hcoded := @encoded_ofExprs (fun _ => True) xs fun _ _ n _ => n.at_true
      rw [show ofExprs xs = .ok p from h] at hcoded
      exact ⟨_, rfl, hcoded⟩
    | error e =>
      rw [hxs] at h
      dsimp only at h
      cases hss : Stmt.listParser.run ts with
      | ok ss =>
        rw [hss] at h
        have hcoded := @encoded_ofStmts (fun _ => True) ss fun _ _ n _ => n.at_true
        rw [show ofStmts ss = .ok p from h] at hcoded
        exact ⟨_, rfl, hcoded⟩
      | error e' => rw [hss] at h; cases h

theorem exists_tree_of_compile {src : String} (h : compile src = .ok p) :
    ∃ tree, tree? src = some tree ∧ p.Encodes tree := by
  obtain ⟨tree, htree, hp, -⟩ := exists_compact_tree_of_compile h
  exact ⟨tree, htree, hp⟩

section

variable {L : Node → Prop} [Node.OnTrees L]

theorem each_exprTree {xs : List Expr} (h : ∀ x ∈ xs, x.Each L) :
    Node.Each L (exprTree xs).visits := by
  match xs, h with
  | [], h => exact Node.each_listVisits.2 h
  | [x], h => exact h x (.head _)
  | _ :: _ :: _, h => exact Node.each_listVisits.2 h

theorem each_stmtTree {ss : List Stmt} (h : ∀ s ∈ ss, s.Each L) :
    Node.Each L (stmtTree ss).visits := by
  match ss, h with
  | [], h => exact Node.each_stmtListVisits.2 h
  | [s], h => exact h s (.head _)
  | _ :: _ :: _, h => exact Node.each_stmtListVisits.2 h

end

/-- The tree of a source with tokens in `I`. -/
theorem localIn_of_tree? {I : Token.Kind → Prop} {src : String} {tree : Node}
    (hI : ∀ ts, Token.tokenize true src = .ok ts → ∀ t ∈ ts, I t.kind) (h : tree? src = some tree) :
    Node.Each (Node.LocalIn I) tree.visits := by
  unfold tree? at h
  split at h
  · next hxs =>
    cases h
    exact each_exprTree (Expr.regularIn_of_parseList hI hxs)
  · next hss =>
    cases h
    exact each_stmtTree (Stmt.regularIn_of_parseList hI hss)
  · cases h

theorem regular_of_tree? {src : String} {tree : Node} (h : tree? src = some tree) :
    tree.Regular := by
  have htree : Node.Each (Node.LocalIn fun _ => True) tree.visits :=
    localIn_of_tree? (fun _ _ _ _ => trivial) h
  exact fun n hn => (htree n hn).local

/-! ### What is matched -/

/-- A node is matched against the code of a pattern as against its term. -/
theorem matchTerm_start {t : Term} (h : t.Spells p.strings p.insts) (hkind : t.kind = .one)
    (n : Node) :
    matchTerm p.strings p.insts.length n p.start = outcome [] (t.fit (.one n) []) := by
  have hterm : matchTerm p.strings p.insts.length n ⟨p.insts ++ [], []⟩ =
      outcome [] (t.fit (.one n) []) := t.matchPart_eq h (Nat.le_refl _) (.one n) hkind [] []
  rwa [List.append_nil] at hterm

theorem isList_of_spells {t : Term} (h : t.Spells p.strings p.insts) (hkind : t.kind = .one) :
    p.isList = false := by
  obtain ⟨i, code, hcode, -, hexprs, hstmts⟩ := h.exists_first hkind
  simp [isList, hcode, hexprs, hstmts]

theorem matchNode?_one {t : Term} (h : t.Spells p.strings p.insts) (hkind : t.kind = .one)
    (n : Node) :
    (p.matchNode? n).map (·.captures) = if n.isList then none else t.fit (.one n) [] := by
  obtain ⟨i, code, hcode, -⟩ := h.exists_first hkind
  unfold matchNode? matchNode
  rw [isList_of_spells h hkind, matchTerm_start h hkind, hcode]
  change Option.map _ (Except.toOption (if n.isList then _ else _)) = _
  split
  · rfl
  · cases t.fit (.one n) [] <;> rfl

/-- The captures of a match with a whole list. -/
theorem captures_taken {α : Type} {xs : List α} {node : Node}
    {r : Except Mismatch (List α × MatchState)} {found : Option (List Capture)}
    (h : r.map (·.2) = outcome [] found) :
    ((matchRun.taken xs r).map fun (n, s) =>
      (⟨node, some (0, n), s.captures⟩ : Match)).toOption.map (·.captures) = found := by
  cases found with
  | none =>
    cases r with
    | error e => rfl
    | ok => cases h
  | some captures =>
    cases r with
    | error e => cases h
    | ok r =>
      obtain ⟨left, s⟩ := r
      cases h
      rfl

theorem matchNode?_list {op : Op} {ts : List Term} {code : List Inst}
    (hcode : p.insts = .plain op :: code) (hop : op = .exprList ∨ op = .stmtList)
    (h : (Term.run ts).Spells p.strings code) (n : Node) :
    (p.matchNode? n).map (·.captures) =
      if isRootOf op n then (Term.run ts).fit (.run n) [] else none := by
  have hlist : p.isList = true := by
    rw [isList, hcode]
    obtain rfl | rfl := hop <;> rfl
  obtain ⟨front, rfl, hkinds, hspells⟩ := h
  have hcoded : Coded p.strings (matchTerm p.strings (front ++ [Inst.closing]).length)
      (Term.fitEach ts) front := Term.coded_fitEach ts hspells hkinds (by simp)
  unfold matchNode? matchNode
  rw [hlist, hcode]
  change Option.map _ (Except.toOption (if isRootOf op n then _ else _)) = _
  split
  · next hn =>
    cases n with
    | exprs xs => exact captures_taken (hcoded.search_map xs [])
    | stmts ss => exact captures_taken (hcoded.search_map ss [])
    | _ => cases hn
  · rfl

theorem Encodes.matchNode_eq {tree : Node} (h : p.Encodes tree) (n : Node) :
    (p.matchNode? n).map (·.captures) =
      (candidate? tree n).bind fun part => (termOf tree).fit part [] := by
  cases tree with
  | expr x =>
    rw [matchNode?_one h x.kind_term]
    cases n <;> rfl
  | stmt s =>
    rw [matchNode?_one h s.kind_term]
    cases n <;> rfl
  | exprs xs =>
    obtain ⟨code, hcode, hspells⟩ := h
    rw [matchNode?_list hcode (.inl rfl) hspells]
    cases n <;> rfl
  | stmts ss =>
    obtain ⟨code, hcode, hspells⟩ := h
    rw [matchNode?_list hcode (.inr rfl) hspells]
    cases n <;> rfl
  | field | fields => cases h

theorem Encodes.tallies {tree : Node} (h : p.Encodes tree) :
    Tallies True tree.visits [termOf tree] := by
  cases tree with
  | expr x => exact x.tallies
  | stmt s => exact s.tallies
  | exprs xs => exact .run (.exprs (Expr.tallies_each xs))
  | stmts ss => exact .run (.stmts (Stmt.tallies_each ss))
  | field | fields => cases h

variable {r : Reading} {n : Node}

/-- Whether a term takes only nodes with `P` apart. -/
def Term.OnlyFor (P : Node → Prop) : Term → Prop
  | .shape op .. => ∀ n, op.suits n → P n
  | _ => False

theorem Term.OnlyFor.of_fits {P : Node → Prop} {t : Term} (h : t.OnlyFor P)
    (hfits : t.Fits r (.one n)) : P n := by
  cases t with
  | shape op value text args =>
    obtain ⟨parts, hparts, -⟩ := hfits
    exact h n (Reading.suits_of_parts? hparts)
  | wild | run => cases h

theorem onlyFor_expr {x : Expr} (h : x.wildcard? = none) :
    x.term.OnlyFor fun n => ∃ y, n = .expr y := by
  cases x with
  | wildcard => cases h
  | selector _ y sel =>
    rw [Expr.term]
    split <;> (intro n hn; cases n <;> first | exact ⟨_, rfl⟩ | cases hn)
  | funcType _ params results =>
    rw [Expr.term, Term.signature]
    split <;> (intro n hn; cases n <;> first | exact ⟨_, rfl⟩ | cases hn)
  | _ => intro n hn; cases n <;> first | exact ⟨_, rfl⟩ | cases hn

theorem onlyFor_stmt {s : Stmt} (h : s.wildcard? = none) :
    s.term.OnlyFor fun n => ∃ t, n = .stmt t := by
  cases s with
  | expr _ x =>
    rw [Stmt.term]
    split
    · next hx => cases hx.symm.trans h
    · intro n hn
      cases n <;> first | exact ⟨_, rfl⟩ | cases hn
  | assign _ lhs op rhs =>
    rw [Stmt.term]
    split <;> (intro n hn; cases n <;> first | exact ⟨_, rfl⟩ | cases hn)
  | branch _ kind label =>
    cases label <;> (intro n hn; cases n <;> first | exact ⟨_, rfl⟩ | cases hn)
  | clause _ list =>
    cases list <;> (intro n hn; cases n <;> first | exact ⟨_, rfl⟩ | cases hn)
  | range _ key value =>
    cases key <;> cases value <;> (intro n hn; cases n <;> first | exact ⟨_, rfl⟩ | cases hn)
  | _ => intro n hn; cases n <;> first | exact ⟨_, rfl⟩ | cases hn

theorem exprCovers_iff {x : Expr} (hx : x.Regular) (hn : Node.Each Node.Keyed n.visits) :
    (Node.expr x).Covers r n ↔ n.isList = false ∧ x.term.Fits r (.one n) := by
  cases hwild : x.wildcard? with
  | some w =>
    obtain ⟨pos, rfl⟩ := eq_wildcard_of_wildcard? hwild
    exact and_congr_right fun _ => fits_named.symm
  | none =>
    unfold Node.Covers
    dsimp only
    rw [hwild]
    cases n with
    | expr y => exact (x.fits_iff y hx hn).symm.trans (and_iff_right rfl).symm
    | _ => exact iff_of_false id fun h => nomatch (onlyFor_expr hwild).of_fits h.2

theorem stmtCovers_iff {s : Stmt} (hs : s.Regular) (hn : Node.Each Node.Keyed n.visits) :
    (Node.stmt s).Covers r n ↔ n.isList = false ∧ s.term.Fits r (.one n) := by
  cases hwild : s.wildcard? with
  | some w =>
    cases s with
    | expr =>
      obtain ⟨pos, rfl⟩ := eq_wildcard_of_wildcard? hwild
      exact and_congr_right fun _ => fits_named.symm
    | _ => cases hwild
  | none =>
    unfold Node.Covers
    dsimp only
    rw [hwild]
    cases n with
    | stmt t => exact (s.fits_iff t hs hn).symm.trans (and_iff_right rfl).symm
    | _ => exact iff_of_false id fun h => nomatch (onlyFor_stmt hwild).of_fits h.2

theorem covers_iff {r : Reading} {tree n : Node} (htree : tree.Regular)
    (hn : Node.Each Node.Keyed n.visits) :
    tree.Covers r n ↔ ∃ part, candidate? tree n = some part ∧ (termOf tree).Fits r part := by
  cases tree with
  | expr x =>
    rw [exprCovers_iff htree hn, candidate?]
    cases n.isList <;> simp [termOf]
  | stmt s =>
    rw [stmtCovers_iff htree hn, candidate?]
    cases n.isList <;> simp [termOf]
  | exprs ps =>
    cases n with
    | exprs xs =>
      have hruns := Expr.fitsRun_iff (r := r) ps xs (Node.each_listVisits.1 htree)
        (Node.each_listVisits.1 hn)
      simpa [candidate?, termOf, Node.Covers] using hruns.symm
    | _ => simp [candidate?, Node.Covers]
  | stmts ps =>
    cases n with
    | stmts ss =>
      have hruns := Stmt.fitsRun_iff (r := r) ps ss (Node.each_stmtListVisits.1 htree)
        (Node.each_stmtListVisits.1 hn)
      simpa [candidate?, termOf, Node.Covers] using hruns.symm
    | _ => simp [candidate?, Node.Covers]
  | field | fields => simp [candidate?, Node.Covers]

end

end GoSift.Pattern
