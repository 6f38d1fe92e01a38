import GoSift.Proofs.Pattern.Backtracking
import GoSift.Proofs.Pattern.Windows

/-!
The names that a match binds. Whatever a search has gone back on, the way to a match goes through each
instruction of the pattern once and in order, and its captures have the names of these instructions.
-/
namespace GoSift.Pattern

/-- The names `seen` and behind them those of `names` that are new, each once. -/
def addNames (seen names : List String) : List String :=
  names.foldl (fun seen name => if name ∈ seen then seen else seen ++ [name]) seen

theorem addNames_append (seen names more : List String) :
    addNames seen (names ++ more) = addNames (addNames seen names) more :=
  List.foldl_append

theorem nodup_addNames {seen : List String} (h : seen.Nodup) (names : List String) :
    (addNames seen names).Nodup := by
  induction names generalizing seen with
  | nil => exact h
  | cons name names ih =>
    refine ih ?_
    dsimp only
    split
    · exact h
    · next hname =>
      refine List.nodup_append.2 ⟨h, by simp, fun a ha b hb => ?_⟩
      rintro rfl
      exact hname (List.mem_singleton.1 hb ▸ ha)

theorem mem_addNames {seen names : List String} {name : String} :
    name ∈ addNames seen names ↔ name ∈ seen ∨ name ∈ names := by
  induction names generalizing seen with
  | nil => simp [addNames]
  | cons first names ih =>
    refine Iff.trans ih ?_
    dsimp only
    split
    · next hfirst =>
      constructor
      · rintro (h | h)
        · exact .inl h
        · exact .inr (.tail _ h)
      · rintro (h | h)
        · exact .inl h
        · obtain rfl | h := List.mem_cons.1 h
          · exact .inl hfirst
          · exact .inr h
    · simp [or_assoc]

/-- The names of captures, in the order in which they were bound. -/
def boundNames (captures : List Capture) : List String :=
  captures.map (·.name)

/-- Binding adds a name that is not bound yet. -/
theorem boundNames_bindOpt? {captures captures' : List Capture} {name : Option String} {n : Node}
    (h : bindOpt? captures name n = some captures') :
    boundNames captures' = addNames (boundNames captures) name.toList := by
  cases name with
  | none =>
    cases h
    rfl
  | some name =>
    change boundNames captures' =
      if name ∈ boundNames captures then boundNames captures else boundNames captures ++ [name]
    simp only [bindOpt?, bind?] at h
    cases hfind : captures.find? (·.name = name) with
    | some c =>
      have hmem : name ∈ boundNames captures :=
        List.mem_map.2 ⟨c, List.mem_of_find?_eq_some hfind, by simpa using List.find?_some hfind⟩
      rw [hfind] at h
      dsimp only at h
      split at h
      · cases h
        rw [if_pos hmem]
      · cases h
    | none =>
      have hnot : name ∉ boundNames captures := by
        simpa [boundNames, List.find?_eq_none] using hfind
      rw [hfind] at h
      cases h
      rw [if_neg hnot]
      exact List.map_append

/-! ### The way of a match through the code -/

/-- From `s` to `s'` a front part of the code is passed, and the names that its instructions bind are
added in order. -/
def MatchState.Passes (strings : List String) (s s' : MatchState) : Prop :=
  ∃ passed, s.code = passed ++ s'.code ∧
    boundNames s'.captures =
      addNames (boundNames s.captures) (passed.filterMap (·.captureName? strings))

section

variable {strings : List String} {s s' s'' : MatchState} {i : Inst} {code : List Inst}
  {captures captures' : List Capture} {name : Option String} {n : Node}

namespace MatchState.Passes

theorem refl (s : MatchState) : s.Passes strings s :=
  ⟨[], rfl, rfl⟩

theorem trans (h : s.Passes strings s') (h' : s'.Passes strings s'') : s.Passes strings s'' := by
  obtain ⟨passed, hcode, hnames⟩ := h
  obtain ⟨passed', hcode', hnames'⟩ := h'
  refine ⟨passed ++ passed', by rw [hcode, hcode', List.append_assoc], ?_⟩
  rw [hnames', hnames, List.filterMap_append, addNames_append]

/-- An instruction that binds its name, if it has one. -/
theorem bound (hname : i.captureName? strings = name) (h : bindOpt? captures name n = some captures') :
    Passes strings ⟨i :: code, captures⟩ ⟨code, captures'⟩ := by
  refine ⟨[i], rfl, ?_⟩
  subst hname
  rw [boundNames_bindOpt? h]
  cases hi : i.captureName? strings <;> simp [hi]

/-- An instruction without a name. -/
theorem nameless (hname : i.captureName? strings = none) :
    Passes strings ⟨i :: code, captures⟩ ⟨code, captures⟩ :=
  ⟨[i], rfl, by simp [hname, addNames]⟩

end MatchState.Passes

theorem captureName?_eq_none (h : ∀ slot named, i.op ≠ .wildcard slot named) :
    i.captureName? strings = none := by
  unfold Inst.captureName?
  split
  · exact absurd ‹_› (h _ _)
  · rfl

/-- A restart belongs to an instruction that is reached from `s`, and binds the name of it. -/
def Restart.Reached {α : Type} (strings : List String) (s : MatchState) (r : Restart α) : Prop :=
  ∃ i, i.captureName? strings = r.name ∧ s.Passes strings ⟨i :: r.state.code, r.state.captures⟩

theorem forall_mem_pushRestart {α : Type} {P : Restart α → Prop} {window todo : List α}
    {restarts : List (Restart α)} (hrestarts : ∀ r ∈ restarts, P r)
    (h : ∀ window x xs, P ⟨name, window, x, xs, s⟩) :
    ∀ r ∈ pushRestart name s window todo restarts, P r := by
  cases todo with
  | nil => exact hrestarts
  | cons x xs => exact List.forall_mem_cons.2 ⟨h window x xs, hrestarts⟩

/-- A search whose result, if there is one, is reached from `s`. -/
def Arrives {β : Type} (strings : List String) (s : MatchState)
    (r : Except Mismatch (β × MatchState)) : Prop :=
  ∀ found s', r = .ok (found, s') → s.Passes strings s'

theorem Arrives.error {β : Type} {e : Mismatch} :
    Arrives strings s (.error e : Except Mismatch (β × MatchState)) :=
  nofun

theorem Arrives.of_map {β : Type} {r : Except Mismatch (β × MatchState)} (h : Arrives strings s r)
    (hr : r.map (·.2) = .ok s') : s.Passes strings s' := by
  cases r with
  | error e => cases hr
  | ok found =>
    cases hr
    exact h _ _ rfl

theorem Arrives.taken {α : Type} {xs : List α} {r : Except Mismatch (List α × MatchState)}
    (h : Arrives strings s r) : Arrives strings s (matchRun.taken xs r) := by
  cases r with
  | error e => exact .error
  | ok found =>
    rintro k s' ⟨⟩
    exact h _ _ rfl

/-- However often a search goes back, it ends in a state that is reached from its start. -/
theorem search_arrives {α : Type} {list : List α → Node}
    {node : α → MatchState → Except Mismatch MatchState} {whole : Bool}
    (hnode : ∀ x s s', node x s = .ok s' → s.Passes strings s') (s₀ s : MatchState) (todo : List α)
    (restarts : List (Restart α)) :
    s₀.Passes strings s → (∀ r ∈ restarts, r.Reached strings s₀) →
      Arrives strings s₀ (search strings list node whole s todo restarts) := by
  -- A restart stands behind an instruction that is reached, so going back to it is no harm.
  have hpush {i : Inst} {code : List Inst} {captures : List Capture} {name : Option String}
      {window todo : List α} {restarts : List (Restart α)} (hname : i.captureName? strings = name)
      (hs : s₀.Passes strings ⟨i :: code, captures⟩) (hrestarts : ∀ r ∈ restarts, r.Reached strings s₀) :
      ∀ r ∈ pushRestart name ⟨code, captures⟩ window todo restarts, r.Reached strings s₀ :=
    forall_mem_pushRestart hrestarts fun _ _ _ => ⟨i, hname, hs⟩
  refine search.induct_unfolding strings list node whole
    (fun s _ restarts r => s₀.Passes strings s → (∀ r ∈ restarts, r.Reached strings s₀) →
      Arrives strings s₀ r)
    (fun restarts r => (∀ r ∈ restarts, r.Reached strings s₀) → Arrives strings s₀ r)
    ?ended ?closed ?unfinished ?textless ?bound ?refused ?short ?matched ?grown ?differs ?stuck
    ?given_up ?longer ?longer_refused s todo restarts
  case ended => exact fun _ _ _ _ _ => .error
  case closed =>
    rintro todo restarts i code captures hop - hs - found s' ⟨⟩
    exact hs.trans (.nameless (captureName?_eq_none (by simp [hop])))
  case unfinished => exact fun _ _ _ _ _ _ _ ih _ hrestarts => ih hrestarts
  case textless => exact fun _ _ _ _ _ _ _ _ _ _ => .error
  case bound =>
    intro todo restarts i code captures named hop text htext name restarts' captures' hbind ih hs
      hrestarts
    have hname : i.captureName? strings = name := captureName?_eq hop htext
    exact ih (hs.trans (.bound hname hbind)) (hpush hname hs hrestarts)
  case refused =>
    intro todo restarts i code captures named hop text htext name restarts' hbind ih hs hrestarts
    exact ih (hpush (captureName?_eq hop htext) hs hrestarts)
  case short => exact fun _ _ _ _ _ _ ih _ hrestarts => ih hrestarts
  case matched =>
    intro restarts i code captures x xs s' hx _ _ _ ih hs hrestarts
    exact ih (hs.trans (hnode x _ s' hx)) hrestarts
  case grown => exact fun _ _ _ _ _ _ _ _ _ _ _ _ _ => .error
  case differs => exact fun _ _ _ _ _ _ _ _ _ ih _ hrestarts => ih hrestarts
  case stuck => exact fun _ _ _ _ _ _ _ _ _ _ _ => .error
  case given_up => exact fun _ => .error
  case longer =>
    intro r restarts window restarts' captures' hbind ih hrestarts
    obtain ⟨⟨i, hname, hs⟩, hrestarts⟩ := List.forall_mem_cons.1 hrestarts
    exact ih (hs.trans (.bound hname hbind)) (hpush hname hs hrestarts)
  case longer_refused =>
    intro r restarts window restarts' hbind ih hrestarts
    obtain ⟨⟨i, hname, hs⟩, hrestarts⟩ := List.forall_mem_cons.1 hrestarts
    exact ih (hpush hname hs hrestarts)

/-- A part of a node is matched on the way through the code if nodes are. -/
theorem matchPart_passes {node : Node → MatchState → Except Mismatch MatchState}
    (hnode : ∀ n s s', node n s = .ok s' → s.Passes strings s') (part : Part)
    (h : matchPart strings node s part = .ok s') : s.Passes strings s' := by
  have hrun {α : Type} (list : List α → Node) (element : α → Node) (xs : List α)
      (h : (search strings list (fun x => node (element x)) true s xs []).map (·.2) = .ok s') :
      s.Passes strings s' :=
    (search_arrives (fun x => hnode (element x)) s s xs [] (.refl s) (List.forall_mem_nil _)).of_map h
  cases part with
  | one n => exact hnode n s s' h
  | run list =>
    cases list with
    | exprs xs => exact hrun .exprs .expr xs h
    | stmts ss => exact hrun .stmts .stmt ss h
    | fields fs => exact hrun .fields .field fs h
    | expr | stmt | field => cases h
  | absent empty =>
    simp only [matchPart] at h
    split at h
    · cases h
    · next i code captures =>
      split at h
      · cases h
      · next named text hop htext =>
        split at h
        · next hbind =>
          cases h
          exact .bound (captureName?_eq hop htext) hbind
        · cases h
      · cases h

theorem foldParts_passes {node : Node → MatchState → Except Mismatch MatchState}
    (hnode : ∀ n s s', node n s = .ok s' → s.Passes strings s') (parts : List Part)
    (h : parts.foldlM (matchPart strings node) s = .ok s') : s.Passes strings s' := by
  induction parts generalizing s with
  | nil =>
    cases h
    exact .refl _
  | cons part parts ih =>
    obtain ⟨s₁, hpart, hparts⟩ := except_bind_eq_ok.1 h
    exact (matchPart_passes hnode part hpart).trans (ih hparts)

/-- A node is matched on the way through the code. -/
theorem matchTerm_passes (fuel : Nat) (n : Node) (s s' : MatchState)
    (h : matchTerm strings fuel n s = .ok s') : s.Passes strings s' := by
  induction fuel generalizing n s s' with
  | zero => cases h
  | succ fuel ih =>
    obtain ⟨code, captures⟩ := s
    cases code with
    | nil => cases h
    | cons i code =>
      rw [matchTerm] at h
      split at h
      · cases h
      · next hop htext =>
        split at h
        · next hbind =>
          cases h
          exact .bound (captureName?_eq hop htext) hbind
        · cases h
      · next htext hop =>
        split at h
        · cases h
        · next parts hparts =>
          have hname : i.captureName? strings = none := captureName?_eq_none hop
          exact MatchState.Passes.trans (.nameless hname) (foldParts_passes ih parts h)

theorem matchRun_arrives (whole : Bool) (s : MatchState) (n : Node) :
    Arrives strings s (matchRun strings whole s n) := by
  have htaken {α : Type} (list : List α → Node) (element : α → Node) (xs : List α) :
      Arrives strings s (matchRun.taken xs (search strings list
        (fun x => matchTerm strings s.code.length (element x)) whole s xs [])) :=
    .taken (search_arrives (fun x => matchTerm_passes _ (element x)) s s xs [] (.refl s)
      (List.forall_mem_nil _))
  cases n with
  | exprs xs => exact htaken .exprs .expr xs
  | stmts ss => exact htaken .stmts .stmt ss
  | fields fs => exact htaken .fields .field fs
  | expr | stmt | field => exact .error

end

/-! ### The names of a match -/

section

variable {p : Pattern} {s : MatchState} {m : Match}

/-- The way through all the code of a pattern binds the names of the pattern. -/
theorem MatchState.Passes.boundNames_eq (h : p.start.Passes p.strings s) (hend : s.code = []) :
    boundNames s.captures = p.captureNames := by
  obtain ⟨passed, hcode, hnames⟩ := h
  rw [hend, List.append_nil] at hcode
  rw [hnames, ← hcode]
  rfl

/-- A list that is matched against the code behind the root of a list pattern. -/
theorem Contained.boundNames_matchRun (h : p.Contained) {root : Inst} {code : List Inst} {n : Node}
    {whole : Bool} {k : Nat} (hcode : p.insts = root :: code) (hroot : isRootOf root.op n = true)
    {list : Node} (hrun : matchRun p.strings whole ⟨code, []⟩ list = .ok (k, s)) :
    boundNames s.captures = p.captureNames := by
  have hop : root.op = .exprList ∨ root.op = .stmtList := by
    cases n with
    | exprs => exact .inl (of_decide_eq_true hroot)
    | stmts => exact .inr (of_decide_eq_true hroot)
    | expr | stmt | field | fields => cases hroot
  have hlist : p.isList = true := by
    rw [isList, hcode]
    simpa using hop
  have hname : root.captureName? p.strings = none :=
    captureName?_eq_none (by obtain hop | hop := hop <;> simp [hop])
  have hend : s.code = [] := by
    refine h.list_end hlist whole list k s ?_
    rwa [hcode]
  have hpasses : p.start.Passes p.strings s := by
    rw [start, hcode]
    exact MatchState.Passes.trans (.nameless hname) (matchRun_arrives whole _ list k s hrun)
  exact hpasses.boundNames_eq hend

theorem Contained.boundNames_matchNode? (h : p.Contained) {n : Node}
    (hm : p.matchNode? n = some m) : boundNames m.captures = p.captureNames := by
  obtain ⟨-, root, code, k, s, hcode, hroot, hrun, rfl⟩ | ⟨hlist, s, hterm, rfl⟩ :=
    matchNode?_eq_some hm
  · exact h.boundNames_matchRun hcode hroot hrun
  · exact (matchTerm_passes _ _ _ _ hterm).boundNames_eq (h.node_end hlist _ _ hterm)

theorem Contained.boundNames_matchFrom? (h : p.Contained) {list : Node} {i : Nat}
    (hm : p.matchFrom? list i = some m) : boundNames m.captures = p.captureNames := by
  obtain ⟨-, root, code, k, s, hcode, hroot, hrun, rfl⟩ := matchFrom?_eq_some hm
  exact h.boundNames_matchRun hcode hroot hrun

/-- The ways in which a pattern gives a match. -/
inductive Gives (p : Pattern) (m : Match) : Prop where
  | node (n : Node) (h : p.matchNode? n = some m)
  | list (list : Node) (i : Nat) (h : p.matchFrom? list i = some m)
  | windows (list : Node) (h : m ∈ p.windows list)
  | find (root : Node) (h : m ∈ p.find root)
  | findInFile (file : File) (h : m ∈ p.findInFile file)

/-- All of them match a node, or a list from an index on. -/
theorem Gives.basic (h : p.Gives m) :
    (∃ n, p.matchNode? n = some m) ∨ ∃ list i, p.matchFrom? list i = some m := by
  have hwindows {list : Node} (h : m ∈ p.windows list) : ∃ list i, p.matchFrom? list i = some m :=
    ⟨list, exists_of_mem_windowsFrom h⟩
  have hat {n : Node} (h : m ∈ p.matchesAt n) :
      (∃ n, p.matchNode? n = some m) ∨ ∃ list i, p.matchFrom? list i = some m := by
    unfold matchesAt at h
    split at h
    · split at h
      · exact .inr (hwindows h)
      · cases h
    · exact .inl ⟨n, Option.mem_toList.1 h⟩
  cases h with
  | node n h => exact .inl ⟨n, h⟩
  | list list i h => exact .inr ⟨list, i, h⟩
  | windows list h => exact .inr (hwindows h)
  | find root h =>
    obtain ⟨n, -, h⟩ := List.mem_flatMap.1 h
    exact hat h
  | findInFile file h =>
    obtain ⟨n, -, h⟩ := List.mem_flatMap.1 h
    exact hat h

theorem Contained.boundNames_of_gives (h : p.Contained) (hm : p.Gives m) :
    boundNames m.captures = p.captureNames := by
  obtain ⟨n, hm⟩ | ⟨list, i, hm⟩ := hm.basic
  · exact h.boundNames_matchNode? hm
  · exact h.boundNames_matchFrom? hm

theorem isSome_get? {name : String} : (m.get? name).isSome ↔ name ∈ boundNames m.captures := by
  simp [Match.get?, boundNames]

/-! ### The names of a source -/

theorem Inst.word?_eq_wildcard {strings : List String} {i : Inst} {name : String} :
    i.word? strings = some (.wildcard name) ↔ i.captureName? strings = some name := by
  obtain ⟨op, value, index⟩ := i
  rw [Inst.word?, Inst.captureName?]
  cases op with
  | wildcard slot named => cases named <;> simp [Op.word?, Option.bind_eq_some_iff]
  | branch label => cases label <;> simp [Op.word?, Option.bind_eq_some_iff]
  | _ => simp [Op.word?, Option.bind_eq_some_iff]

/-- The names of a pattern are those of the wildcards in its source. -/
theorem Encodes.mem_captureNames {tree : Node} {src : String} (h : p.Encodes tree)
    (htree : tree? src = some tree) {name : String} :
    name ∈ p.captureNames ↔ name ∈ tree.captureNames := by
  have hinsts : name ∈ p.captureNames ↔ Word.wildcard name ∈ p.words := by
    rw [words, List.mem_filterMap]
    simp only [Inst.word?_eq_wildcard]
    exact mem_addNames.trans (by simp)
  have hvisits : name ∈ tree.captureNames ↔ Word.wildcard name ∈ tree.words := by
    rw [Node.words, Node.captureNames, List.mem_filterMap, List.mem_filterMap]
    simp only [Node.word?_eq_wildcard]
  rw [hinsts, hvisits]
  exact (h.perm_words htree).mem_iff

end

/-- A match binds each name of its pattern once. Whichever way it was found, its captures have the names
of the pattern in order of first use, so there is a node for a name just if a wildcard of the source has
this name. -/
theorem captures_of_gives {src : String} {p : Pattern} (h : compile src = .ok p) :
    ∃ tree, tree? src = some tree ∧ p.captureNames.Nodup ∧ ∀ m, p.Gives m →
      m.captures.map (·.name) = p.captureNames ∧
        ∀ name, (m.get? name).isSome ↔ name ∈ tree.captureNames := by
  obtain ⟨tree, htree, hp⟩ := exists_tree_of_compile h
  refine ⟨tree, htree, nodup_addNames List.nodup_nil _, fun m hm => ?_⟩
  have hnames := hp.contained.boundNames_of_gives hm
  refine ⟨hnames, fun name => ?_⟩
  rw [isSome_get?, hnames, hp.mem_captureNames htree]

/-- The search in the block goes back before `b` is bound to what stands at both its ends, and `s` is
bound though there is no such statement. -/
theorem framedBranch_captures :
    ∃ p tree ss m, compile "if $*s; $c \x7b $*b; $x; $*b \x7d" = .ok p ∧
      tree? "if $*s; $c \x7b $*b; $x; $*b \x7d" = some tree ∧
      tree.captureNames = ["s", "c", "b", "x", "b"] ∧
      Stmt.parseList false "if ok \x7b f(); g(); f() \x7d" = .ok ss ∧
      p.matchNode? (stmtTree ss) = some m ∧
      m.captures.map (·.node.text) = ["", "ok", "f()", "g()"] ∧ p.captureNames.Nodup ∧
      m.captures.map (·.name) = p.captureNames ∧
      ∀ name, (m.get? name).isSome ↔ name ∈ ["s", "c", "b", "x", "b"] := by
  have hrun : ((compile "if $*s; $c \x7b $*b; $x; $*b \x7d").toOption.bind fun p =>
      (tree? "if $*s; $c \x7b $*b; $x; $*b \x7d").bind fun tree =>
      (Stmt.parseList false "if ok \x7b f(); g(); f() \x7d").toOption.bind fun ss =>
      (p.matchNode? (stmtTree ss)).map fun m =>
        (tree.captureNames, m.captures.map (·.node.text))) =
      some (["s", "c", "b", "x", "b"], ["", "ok", "f()", "g()"]) := by decide +kernel
  simp only [Option.bind_eq_some_iff, Option.map_eq_some_iff, except_toOption_eq_some,
    Prod.mk.injEq] at hrun
  obtain ⟨p, hp, tree, htree, ss, hss, m, hm, hnames, htexts⟩ := hrun
  obtain ⟨tree', htree', hnodup, hcaptures⟩ := captures_of_gives hp
  obtain rfl : tree = tree' := Option.some.inj (htree.symm.trans htree')
  obtain ⟨hbound, hget⟩ := hcaptures m (.node _ hm)
  rw [hnames] at hget
  exact ⟨p, tree, ss, m, hp, htree, hnames, hss, hm, htexts, hnodup, hbound, hget⟩

end GoSift.Pattern
