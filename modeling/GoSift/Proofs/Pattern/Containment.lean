import GoSift.Proofs.Outcome
import GoSift.Proofs.Pattern.Compiled
import GoSift.Proofs.Pattern.Preorder

/-!
Compiled patterns are complete. Their code is one term in pre-order, their texts are the words of the
source, and matching never leaves the code: it is stuck on no node, and a match has used up the code.
-/
namespace GoSift.Pattern

/-! ### Searches -/

/-- A search that ends as it should: with `rest` of the code left, or because something differs. -/
def Ends {β : Type} (rest : List Inst) : Except Mismatch (β × MatchState) → Prop
  | .ok (_, s) => s.code = rest
  | .error e => e = .differs

theorem Ends.taken {α : Type} {rest : List Inst} {xs : List α}
    {r : Except Mismatch (List α × MatchState)} (h : Ends rest r) :
    Ends rest (matchRun.taken xs r) := by
  cases r with
  | ok => exact h
  | error => exact h

section

variable {α : Type} {strings : List String} {list : List α → Node} {node : α → Node}
  {matcher : Node → MatchState → Except Mismatch MatchState} {whole : Bool}
  {es : List (Element Fit)} {code rest : List Inst}

/-- The restarts of a wildcard end well if the search behind it does. -/
theorem ends_resume_pushRestart (name : Option String) (captures : List Capture)
    (hsearch : ∀ xs captures restarts,
      Ends rest (resume strings list (fun x => matcher (node x)) whole restarts) →
      Ends rest (search strings list (fun x => matcher (node x)) whole ⟨code, captures⟩ xs restarts))
    (window todo : List α) {restarts : List (Restart α)}
    (h : Ends rest (resume strings list (fun x => matcher (node x)) whole restarts)) :
    Ends rest (resume strings list (fun x => matcher (node x)) whole
      (pushRestart name ⟨code, captures⟩ window todo restarts)) := by
  induction todo generalizing window with
  | nil => exact h
  | cons x todo ih =>
    have hlater := ih (window ++ [x])
    rw [pushRestart, resume]
    dsimp only
    split
    · exact hsearch _ _ _ hlater
    · exact hlater

theorem Coded.search_ends (h : Coded strings matcher es code) (xs : List α)
    (captures : List Capture) (restarts : List (Restart α))
    (hrestarts : Ends rest (resume strings list (fun x => matcher (node x)) whole restarts)) :
    Ends rest (search strings list (fun x => matcher (node x)) whole
      ⟨code ++ .closing :: rest, captures⟩ xs restarts) := by
  induction h generalizing xs captures restarts with
  | nil =>
    rw [List.nil_append, search_close rfl]
    split
    · rfl
    · exact hrestarts
  | @stretch named i text es code hop htext h ih =>
    rw [List.cons_append, search_seq hop htext]
    dsimp only
    have hpush := ends_resume_pushRestart (if named then some text else none) captures ih [] xs
      hrestarts
    split
    · exact ih _ _ _ hpush
    · exact hpush
  | @single f i code es code' hclose hseq hf h ih =>
    rw [List.append_assoc, search_single hclose hseq hf]
    cases xs with
    | nil => exact hrestarts
    | cons x xs =>
      dsimp only
      cases f (node x) captures with
      | none => exact hrestarts
      | some captures' => exact ih xs captures' restarts hrestarts

end

/-- Matching a list against the code of a run ends behind the run, be it for all of the list or for a
part of it. -/
theorem ends_matchRun {strings : List String} {ts : List Term} {code : List Inst}
    (h : (Term.run ts).Spells strings code) (whole : Bool) (n : Node) :
    Ends [] (matchRun strings whole ⟨code, []⟩ n) := by
  obtain ⟨front, rfl, hkinds, hspells⟩ := h
  have hcoded : Coded strings (matchTerm strings (front ++ [Inst.closing]).length)
      (Term.fitEach ts) front := Term.coded_fitEach ts hspells hkinds (by simp)
  have hnone {α : Type} (list : List α → Node)
      (node : α → MatchState → Except Mismatch MatchState) :
      Ends [] (resume strings list node whole []) := by
    rw [resume]
    rfl
  cases n with
  | exprs xs => exact .taken (hcoded.search_ends xs [] [] (hnone ..))
  | stmts ss => exact .taken (hcoded.search_ends ss [] [] (hnone ..))
  | fields fs => exact .taken (hcoded.search_ends fs [] [] (hnone ..))
  | expr | stmt | field => rfl

theorem Ends.ne_stuck {β γ : Type} {rest : List Inst} {r : Except Mismatch (β × MatchState)}
    (h : Ends rest r) (f : β × MatchState → γ) : r.map f ≠ .error .stuck := by
  cases r with
  | ok => nofun
  | error e =>
    obtain rfl : e = .differs := h
    nofun

/-! ### The code of a pattern -/

/-- The code of a pattern is an operation with the terms of its arguments. -/
theorem Encodes.exists_root {p : Pattern} {tree : Node} (h : p.Encodes tree) :
    ∃ root code ts, p.insts = root :: code ∧ root.op ≠ .close ∧
      (∃ text, root.text? p.strings = some text) ∧ ts.map Term.kind = root.op.args ∧
      Term.SpellsAll p.strings ts code := by
  have hone {t : Term} (ht : t.Spells p.strings p.insts) (hkind : t.kind = .one) :
      ∃ root code ts, p.insts = root :: code ∧ root.op ≠ .close ∧
        (∃ text, root.text? p.strings = some text) ∧ ts.map Term.kind = root.op.args ∧
        Term.SpellsAll p.strings ts code := by
    cases t with
    | wild slot name =>
      obtain ⟨i, named, text, hcode, hop, htext, -⟩ := ht.wild_inv
      exact ⟨i, [], [], hcode, by simp [hop], ⟨text, htext⟩, by simp [hop, Op.args], .nil⟩
    | shape op value text args =>
      obtain ⟨i, code, hcode, hop, hargs, htext, hspells⟩ := ht
      refine ⟨_, code, args, hcode, ?_, ⟨text, htext⟩, hargs, hspells⟩
      rintro rfl
      cases hop
    | run => cases hkind
  cases tree with
  | expr x => exact hone h x.kind_term
  | stmt s => exact hone h s.kind_term
  | exprs xs =>
    obtain ⟨code, hcode, hspells⟩ := h
    exact ⟨_, code, [.run (Expr.terms xs)], hcode, nofun, ⟨"", rfl⟩, rfl, .single hspells⟩
  | stmts ss =>
    obtain ⟨code, hcode, hspells⟩ := h
    exact ⟨_, code, [.run (Stmt.terms ss)], hcode, nofun, ⟨"", rfl⟩, rfl, .single hspells⟩
  | field | fields => cases h

mutual

/-- The texts that the code of a term refers to are in the table. -/
theorem Term.exists_text {strings : List String} (t : Term) {code : List Inst}
    (h : t.Spells strings code) : ∀ i ∈ code, ∃ text, i.text? strings = some text := by
  cases t with
  | wild slot name =>
    obtain ⟨i, named, text, rfl, -, htext, -⟩ := h.wild_inv
    exact List.forall_mem_singleton.2 ⟨text, htext⟩
  | shape op value text args =>
    obtain ⟨i, code, rfl, -, -, htext, hspells⟩ := h
    exact List.forall_mem_cons.2 ⟨⟨text, htext⟩, Term.exists_texts args hspells⟩
  | run ts =>
    obtain ⟨front, rfl, -, hspells⟩ := h
    exact List.forall_mem_append.2
      ⟨Term.exists_texts ts hspells, List.forall_mem_singleton.2 ⟨"", rfl⟩⟩

theorem Term.exists_texts {strings : List String} (ts : List Term) {code : List Inst}
    (h : Term.SpellsAll strings ts code) : ∀ i ∈ code, ∃ text, i.text? strings = some text := by
  cases ts with
  | nil =>
    obtain rfl : code = [] := h
    nofun
  | cons t ts =>
    obtain ⟨front, back, rfl, ht, hts⟩ := h
    exact List.forall_mem_append.2 ⟨t.exists_text ht, Term.exists_texts ts hts⟩

end

/-- A program that can be run: its code is one term, and the table holds the texts that the
instructions refer to, each of them once. -/
structure WellFormed (p : Pattern) : Prop where
  one_term : awaited [.one] p.insts = some []
  indexed : ∀ i ∈ p.insts, i.op.hasText → i.index < p.strings.length
  nodup : p.strings.Nodup
  length_le : p.strings.length ≤ 255

/-- The words that the instructions of a program refer to are those of the source, as often as they
occur in its tree, and tokens of the source spell them out. -/
def HasWordsOf (p : Pattern) (src : String) : Prop :=
  ∃ tree ts, tree? src = some tree ∧ Token.tokenize true src = .ok ts ∧
    p.words.Perm tree.words ∧ ∀ w ∈ p.words, ∃ t ∈ ts, w.WrittenAs t.kind

/-- Matching stays in the program: neither code nor texts are missing for any node, and a match has
used up the code. -/
structure Contained (p : Pattern) : Prop where
  node : ∀ n, p.matchNode n ≠ .error .stuck
  list : ∀ list i, p.matchFrom list i ≠ .error .stuck
  node_end : p.isList = false → ∀ n s,
    matchTerm p.strings p.insts.length n p.start = .ok s → s.code = []
  list_end : p.isList = true → ∀ whole n k s,
    matchRun p.strings whole ⟨p.insts.tail, []⟩ n = .ok (k, s) → s.code = []

/-- The line of a listing for an instruction at a depth. -/
def lineText (p : Pattern) (depth : Nat) (i : Inst) : String :=
  "".pushn ' ' (2 * depth) ++ i.describe p.strings ++ "\n"

/-- The listing has a line for each instruction, in order, and only the first one is at the margin. -/
def ListsAll (p : Pattern) : Prop :=
  ∃ root rest depths, p.insts = root :: rest ∧ depths.length = rest.length ∧ (∀ d ∈ depths, 0 < d) ∧
    ∀ indent, p.listing indent = p.lineText indent root ++
      String.join (List.zipWith (fun d i => p.lineText (indent + d) i) depths rest)

section

variable {p : Pattern} {tree : Node} {src : String}

theorem Encodes.wellFormed (h : p.Encodes tree) (hstrings : Compact p.strings) : p.WellFormed := by
  obtain ⟨root, code, ts, hcode, hclose, ⟨text, htext⟩, hargs, hspells⟩ := h.exists_root
  refine ⟨?_, fun i hi hop => ?_, hstrings.1, hstrings.2⟩
  · have hread := Term.awaitedAll_eq ts hspells [] []
    rw [List.append_nil code, hargs] at hread
    rw [hcode, awaited_one hclose, hread]
    rfl
  · have htexts : ∀ i ∈ p.insts, ∃ text, i.text? p.strings = some text := by
      rw [hcode]
      exact List.forall_mem_cons.2 ⟨⟨text, htext⟩, Term.exists_texts ts hspells⟩
    obtain ⟨text, htext⟩ := htexts i hi
    rw [Inst.text?, if_pos hop] at htext
    exact (List.getElem?_eq_some_iff.1 htext).1

theorem Encodes.words_eq (h : p.Encodes tree) : p.words = (termOf tree).words := by
  have hlist {op : Op} {t : Term} {code : List Inst} (hop : op.hasText = false)
      (hcode : p.insts = .plain op :: code) (ht : t.Spells p.strings code) :
      p.words = t.words := by
    have hroot : (Inst.plain op).text? p.strings = some "" := by simp [Inst.text?, Inst.plain, hop]
    have hnone : op.word? "" = none := by
      rw [← Option.isNone_iff_eq_none, ← Option.not_isSome, Op.isSome_word?, hop]
      rfl
    rw [words, hcode, List.filterMap_cons_none ((Inst.word?_of_text? hroot).trans hnone),
      t.words_eq ht]
  cases tree with
  | expr x => exact x.term.words_eq h
  | stmt s => exact s.term.words_eq h
  | exprs xs =>
    obtain ⟨code, hcode, hspells⟩ := h
    exact hlist rfl hcode hspells
  | stmts ss =>
    obtain ⟨code, hcode, hspells⟩ := h
    exact hlist rfl hcode hspells
  | field | fields => cases h

theorem Encodes.perm_words (h : p.Encodes tree) (htree : tree? src = some tree) :
    p.words.Perm tree.words := by
  have hwords := h.tallies.words (regular_of_tree? htree)
  rw [Term.wordsAll, Term.wordsAll, List.append_nil, ← h.words_eq] at hwords
  exact hwords

theorem Encodes.hasWordsOf (h : p.Encodes tree) (htree : tree? src = some tree)
    {ts : List Token} (hts : Token.tokenize true src = .ok ts) : p.HasWordsOf src := by
  have hperm := h.perm_words htree
  refine ⟨tree, ts, htree, hts, hperm, fun w hw => ?_⟩
  obtain ⟨n, hn, hw⟩ := List.mem_filterMap.1 (hperm.subset hw)
  have hlocal := localIn_of_tree? (I := fun kind => ∀ w : Word, w.WrittenAs kind →
    ∃ t ∈ ts, w.WrittenAs t.kind) ?_ htree n hn
  · obtain ⟨kind, hkind, hw⟩ := hlocal.written hw
    exact hkind w hw
  · intro ts' hts' t ht w hw
    obtain rfl : ts = ts' := Except.ok.inj (hts.symm.trans hts')
    exact ⟨t, ht, hw⟩

/-- A pattern for one node. -/
theorem contained_one {t : Term} (h : t.Spells p.strings p.insts) (hkind : t.kind = .one) :
    p.Contained := by
  have hterm := matchTerm_start h hkind
  have hlist := isList_of_spells h hkind
  obtain ⟨i, code, hcode, -, hexprs, hstmts⟩ := h.exists_first hkind
  refine ⟨fun n => ?_, fun list k => ?_, fun _ n s hs => ?_, fun h => ?_⟩
  · rw [matchNode, hlist, hterm, hcode]
    dsimp only
    split
    · contradiction
    · split
      · nofun
      · cases t.fit (.one n) [] <;> nofun
  · have hroot : isRootOf i.op list = false := by cases list <;> simp [isRootOf, hexprs, hstmts]
    rw [matchFrom, hcode]
    dsimp only
    rw [hroot]
    split <;> nofun
  · rw [hterm] at hs
    cases hfit : t.fit (.one n) [] with
    | none =>
      rw [hfit] at hs
      cases hs
    | some captures =>
      rw [hfit] at hs
      cases hs
      rfl
  · rw [hlist] at h
    cases h

/-- A pattern for several nodes in a row. -/
theorem contained_list {op : Op} {ts : List Term} {code : List Inst}
    (hcode : p.insts = .plain op :: code) (hop : op = .exprList ∨ op = .stmtList)
    (h : (Term.run ts).Spells p.strings code) : p.Contained := by
  have hends := ends_matchRun h
  have hlist : p.isList = true := by
    rw [isList, hcode]
    obtain rfl | rfl := hop <;> rfl
  refine ⟨fun n => ?_, fun list k => ?_, fun h => ?_, fun _ whole n k s hs => ?_⟩
  · rw [matchNode, hlist, hcode]
    dsimp only
    split
    · split
      · exact (hends true n).ne_stuck _
      · rintro ⟨⟩
    · contradiction
  · rw [matchFrom, hcode]
    dsimp only
    split
    · rintro ⟨⟩
    · split
      · exact (hends false _).ne_stuck _
      · rintro ⟨⟩
  · rw [hlist] at h
    cases h
  · have hend := hends whole n
    rw [hcode, List.tail_cons] at hs
    rw [hs] at hend
    exact hend

theorem Encodes.contained (h : p.Encodes tree) : p.Contained := by
  cases tree with
  | expr x => exact contained_one h x.kind_term
  | stmt s => exact contained_one h s.kind_term
  | exprs xs =>
    obtain ⟨code, hcode, hspells⟩ := h
    exact contained_list hcode (.inl rfl) hspells
  | stmts ss =>
    obtain ⟨code, hcode, hspells⟩ := h
    exact contained_list hcode (.inr rfl) hspells
  | field | fields => cases h

theorem Encodes.listsAll (h : p.Encodes tree) : p.ListsAll := by
  obtain ⟨root, code, ts, hcode, -, -, hargs, hspells⟩ := h.exists_root
  obtain ⟨lines, hlines, hlisted⟩ := Term.exists_argLines ts hspells
    (by omega : 2 * code.length ≤ 2 * code.length + 1) 1 [(0, root)] []
  have hterm : termLines (2 * p.insts.length) 0 p.insts = ((0, root) :: lines, []) := by
    rw [hcode]
    refine termLines_succ.trans ?_
    rw [← hargs]
    rwa [List.append_nil] at hlines
  have hall : p.lines = (0, root) :: lines := by
    rw [Pattern.lines, hcode, List.length_cons, codeLines, ← hcode, hterm]
    · cases code.length <;> simp [codeLines]
    · nofun
  refine ⟨root, code, lines.map Prod.fst, hcode, ?_, ?_, fun indent => ?_⟩
  · rw [← hlisted.insts, List.length_map, List.length_map]
  · exact List.forall_mem_map.2 hlisted.depth_le
  · rw [listing, hall, List.map_cons, String.join_cons, ← hlisted.insts, List.zipWith_map,
      List.zipWith_self]
    rfl

end

/-- A compiled pattern is a complete program for its source: one term in pre-order with the words of
the source as its texts. No node leads matching out of it, and its listing shows all of it. -/
theorem complete_of_compile {src : String} {p : Pattern} (h : compile src = .ok p) :
    p.WellFormed ∧ p.HasWordsOf src ∧ p.Contained ∧ p.ListsAll := by
  obtain ⟨tree, htree, hp, hstrings⟩ := exists_compact_tree_of_compile h
  obtain ⟨ts, hts⟩ : ∃ ts, Token.tokenize true src = .ok ts := by
    unfold compile at h
    split at h
    · next ts hts => exact ⟨ts, hts⟩
    · cases h
  exact ⟨hp.wellFormed hstrings, hp.hasWordsOf htree hts, hp.contained, hp.listsAll⟩

/-- The program of a labeled assignment. -/
def labeled : Pattern :=
  ⟨[⟨.labeled, 0, 0⟩, ⟨.assign, 0, 0⟩, ⟨.wildcard .single true, 0, 1⟩, ⟨.call (some false), 0, 0⟩,
    ⟨.ident, 0, 2⟩, ⟨.wildcard .seq false, 0, 0⟩, ⟨.wildcard .single true, 0, 1⟩,
    ⟨.lit .int, 0, 3⟩, ⟨.close, 0, 0⟩], ["L", "x", "f", "1"]⟩

theorem labeled_complete : compile "L: $x = f($*_, $x, 1)" = .ok labeled ∧ labeled.WellFormed ∧
    labeled.HasWordsOf "L: $x = f($*_, $x, 1)" ∧ labeled.Contained ∧ labeled.ListsAll := by
  have hp : compile "L: $x = f($*_, $x, 1)" = .ok labeled :=
    except_toOption_eq_some.1 (by decide +kernel)
  exact ⟨hp, complete_of_compile hp⟩

end GoSift.Pattern
