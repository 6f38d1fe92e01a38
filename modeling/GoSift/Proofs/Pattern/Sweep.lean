import GoSift.Proofs.Pattern.Backtracking
import GoSift.Proofs.Pattern.Windows

/-!
A list is swept once from left to right. The windows of a pattern lie apart and in order, each is what
the pattern matches from its first index on, and from no index between them does it match. A list that
is matched as a whole has a window at its start.
-/
namespace GoSift.Pattern

/-- The index of the first element of the window of a match. -/
def Match.first (m : Match) : Nat :=
  (m.window.map (·.1)).getD 0

/-- The index from which on the next window is searched. A window without elements is passed by one. -/
def Match.next (m : Match) : Nat :=
  max m.stop (m.first + 1)

/-- A window of `list`, found by matching from its first index on. -/
structure Match.InList (p : Pattern) (list : Node) (m : Match) : Prop where
  window : m.window = some (m.first, m.stop)
  first_le : m.first ≤ m.stop
  stop_le : m.stop ≤ list.size
  node : m.node = sublist m.first m.stop list
  found : p.matchFrom list m.first = .ok m

/-- The windows in a list from the index `i` on: they lie apart and nothing else matches. -/
structure Sweeps (p : Pattern) (list : Node) (i : Nat) (ms : List Match) : Prop where
  inList : ∀ m ∈ ms, m.InList p list
  le_first : ∀ m ∈ ms, i ≤ m.first
  apart : ms.Pairwise fun m m' => m.next ≤ m'.first
  missed : ∀ j, i ≤ j → j < list.size → (∀ m ∈ ms, j < m.first ∨ m.next ≤ j) →
    p.matchFrom? list j = none
  length_le : ms.length ≤ list.size - i

section

variable {p : Pattern} {list : Node} {i : Nat} {m : Match} {ms : List Match}

theorem matchRun_le {strings : List String} {whole : Bool} {s s' : MatchState} {n : Node} {k : Nat}
    (h : matchRun strings whole s n = .ok (k, s')) : k ≤ n.size := by
  have htaken {α : Type} {xs : List α} {r : Except Mismatch (List α × MatchState)}
      (h : matchRun.taken xs r = .ok (k, s')) : k ≤ xs.length := by
    cases r with
    | error e => cases h
    | ok r =>
      cases h
      exact Nat.sub_le _ _
  cases n with
  | exprs | stmts | fields => exact htaken h
  | expr | stmt | field => cases h

/-- A match in a list is a window that starts where it was tried. -/
theorem inList_of_matchFrom? (h : p.matchFrom? list i = some m) :
    m.first = i ∧ m.InList p list := by
  obtain ⟨hi, root, code, n, s, -, hroot, hrun, rfl⟩ := matchFrom?_eq_some h
  have hn := matchRun_le hrun
  rw [size_sublist (isList_of_isRootOf hroot)] at hn
  refine ⟨rfl, rfl, Nat.le_add_right i n, ?_, rfl, except_toOption_eq_some.1 h⟩
  change i + n ≤ list.size
  omega

/-- A window is found, and the sweep goes on behind it. -/
theorem Sweeps.cons (hm : p.matchFrom? list i = some m) (hi : i < list.size)
    (h : p.Sweeps list (max m.stop (i + 1)) ms) : p.Sweeps list i (m :: ms) := by
  obtain ⟨rfl, hin⟩ := inList_of_matchFrom? hm
  refine ⟨List.forall_mem_cons.2 ⟨hin, h.inList⟩, List.forall_mem_cons.2 ⟨Nat.le_refl _, ?_⟩,
    List.pairwise_cons.2 ⟨h.le_first, h.apart⟩, fun j hij hj hout => ?_, ?_⟩
  · intro m' hm'
    have hle := h.le_first m' hm'
    omega
  · obtain ⟨hfirst, hrest⟩ := List.forall_mem_cons.1 hout
    exact h.missed j (hfirst.resolve_left (by omega)) hj hrest
  · have hlength := h.length_le
    rw [List.length_cons]
    omega

/-- Nothing is found, and the sweep goes on at the next index. -/
theorem Sweeps.skip (hnone : p.matchFrom? list i = none) (h : p.Sweeps list (i + 1) ms) :
    p.Sweeps list i ms := by
  refine ⟨h.inList, fun m hm => Nat.le_of_succ_le (h.le_first m hm), h.apart,
    fun j hij hj hout => ?_, ?_⟩
  · obtain rfl | hlt := Nat.eq_or_lt_of_le hij
    · exact hnone
    · exact h.missed j hlt hj hout
  · have hlength := h.length_le
    omega

theorem sweeps_windowsFrom (p : Pattern) (list : Node) (i : Nat) :
    p.Sweeps list i (p.windowsFrom list i) := by
  fun_induction windowsFrom p list i with
  | case1 i hi m hm ih => exact .cons hm hi ih
  | case2 i hi hnone ih => exact .skip hnone ih
  | case3 i hi =>
    refine ⟨List.forall_mem_nil _, List.forall_mem_nil _, .nil, fun j hij hj _ => ?_, Nat.zero_le _⟩
    omega

end

/-! ### Lists that are matched as a whole -/

section

variable {α : Type} {strings : List String} {s : MatchState} {lens : List Nat}
  {r : Nat × MatchState}

/-- The lengths that lead to the end of a list do so if the search may stop anywhere. -/
theorem along_false_of_true {list : List α → Node} {node : α → MatchState → Option MatchState}
    {xs : List α} {i : Nat} (h : along strings list node true xs s i lens = some r) :
    along strings list node false xs s i lens = some r := by
  fun_induction along strings list node true xs s i lens with
  | case1 | case3 | case4 | case6 | case7 => cases h
  | case2 i lens inst code captures hop hend =>
    rw [along_close hop, if_pos (by simp_all)]
    exact h
  | case5 i inst code captures named hop l lens hl ih =>
    obtain ⟨captures', hbind, h⟩ := Option.bind_eq_some_iff.1 h
    rw [along_seq_cons hop, if_pos hl, hbind]
    exact ih captures' h
  | case8 i lens inst code captures x hx hclose hseq ih =>
    obtain ⟨s', hs', h⟩ := Option.bind_eq_some_iff.1 h
    rw [along_single hclose hseq, hx, Option.bind_some, hs']
    exact ih s' h

theorem split_false_of_true {n : Node} (h : split strings true s lens n = some r) :
    split strings false s lens n = some r := by
  cases n with
  | exprs | stmts | fields => exact along_false_of_true h
  | expr | stmt | field => cases h

/-- A list that is matched to its end has a part at its start that is matched. -/
theorem Term.Spells.exists_matchRun_false {ts : List Term} {run : List Inst} {n : Node}
    (h : (Term.run ts).Spells strings run) (hrun : matchRun strings true ⟨run, []⟩ n = .ok r) :
    ∃ r', matchRun strings false ⟨run, []⟩ n = .ok r' := by
  have heq (whole : Bool) := (h.matchRun_eq [] whole [] n).1
  simp only [List.append_nil] at heq
  cases hback : backtrack strings false ⟨run, []⟩ n with
  | some r' => exact ⟨r', by rw [heq, hback]; rfl⟩
  | none =>
    have hnone : backtrack strings true ⟨run, []⟩ n = none := by
      refine backtrack_least.eq_none_iff.2 fun lens => ?_
      cases hlens : split strings true ⟨run, []⟩ lens n with
      | none => rfl
      | some r' =>
        have hfalse := split_false_of_true hlens
        rw [backtrack_least.eq_none_iff.1 hback lens] at hfalse
        cases hfalse
    rw [heq, hnone] at hrun
    cases hrun

end

section

variable {p : Pattern} {tree list : Node} {m : Match}

theorem sublist_size (h : list.isList = true) : sublist 0 list.size list = list := by
  cases list with
  | exprs | stmts | fields => simp [sublist, Node.size]
  | expr | stmt | field => cases h

/-- A list pattern that matches all of a list matches from the start of it. -/
theorem Encodes.exists_matchFrom?_zero (h : p.Encodes tree) (hlist : p.isList = true)
    (hsize : list.size ≠ 0) (hm : p.matchNode? list = some m) :
    ∃ m', p.matchFrom? list 0 = some m' := by
  obtain ⟨-, root, code, k, s, hcode, hroot, hrun, -⟩ | ⟨hnot, -⟩ := matchNode?_eq_some hm
  · obtain ⟨_, _, ts, hcode', hspells⟩ := h.exists_list_spells hlist
    obtain ⟨rfl, rfl⟩ := List.cons_eq_cons.1 (hcode.symm.trans hcode')
    obtain ⟨r, hr⟩ := hspells.exists_matchRun_false hrun
    refine ⟨⟨sublist 0 (0 + r.1) list, some (0, 0 + r.1), r.2.captures⟩, ?_⟩
    rw [matchFrom?, except_toOption_eq_some, matchFrom, if_neg (by omega), hcode]
    simp only [hroot, if_true, sublist_size (isList_of_isRootOf hroot), hr]
    rfl
  · rw [hlist] at hnot
    cases hnot

/-- Matching in a list fails only because something differs. -/
theorem Contained.matchFrom_eq_differs (h : p.Contained) {i : Nat}
    (hnone : p.matchFrom? list i = none) : p.matchFrom list i = .error .differs := by
  cases hr : p.matchFrom list i with
  | ok m =>
    rw [matchFrom?, hr] at hnone
    cases hnone
  | error e =>
    cases e with
    | differs => rfl
    | stuck => exact absurd hr (h.list list i)

end

/-- The windows of a compiled pattern in a list: each is a part of the list and what the pattern matches
from its first index on, each starts behind the one before it, and the pattern matches from no other
index that is outside of them. There are no more than the list has elements. If the pattern is one for
lists and matches the list as a whole, the first window starts where the list does. -/
theorem windows_sweep {src : String} {p : Pattern} (h : compile src = .ok p) (list : Node) :
    (∀ m ∈ p.windows list, m.InList p list) ∧
      (p.windows list).Pairwise (fun m m' => m.next ≤ m'.first) ∧
      (∀ i < list.size, (∀ m ∈ p.windows list, i < m.first ∨ m.next ≤ i) →
        p.matchFrom list i = .error .differs) ∧
      (p.windows list).length ≤ list.size ∧
      (p.isList = true → list.size ≠ 0 → (p.matchNode? list).isSome →
        ∃ m, (p.windows list).head? = some m ∧ m.first = 0) := by
  obtain ⟨tree, -, hp⟩ := exists_tree_of_compile h
  have hsweeps := sweeps_windowsFrom p list 0
  refine ⟨hsweeps.inList, hsweeps.apart, fun i hi hout => ?_, hsweeps.length_le,
    fun hlist hsize hwhole => ?_⟩
  · exact hp.contained.matchFrom_eq_differs (hsweeps.missed i (Nat.zero_le i) hi hout)
  · obtain ⟨m, hm⟩ := Option.isSome_iff_exists.1 hwhole
    obtain ⟨m', hm'⟩ := hp.exists_matchFrom?_zero hlist hsize hm
    refine ⟨m', ?_, (inList_of_matchFrom? hm').1⟩
    rw [windows, windowsFrom, if_pos (Nat.pos_of_ne_zero hsize), hm']
    rfl

/-- As a whole the list is matched up to its last `a`, but the sweep finds a window that ends at the
second one, and nothing behind it. -/
theorem sameEnds_sweep :
    ∃ p xs, compile "$x, $*_, $x" = .ok p ∧ Expr.parseList false "a, b, a, c, a" = .ok xs ∧
      p.isList = true ∧ (Node.exprs xs).size = 5 ∧
      (p.matchNode? (.exprs xs)).map (·.stop) = some 5 ∧
      (p.windows (.exprs xs)).map (fun m => (m.first, m.stop)) = [(0, 3)] ∧
      (∀ m ∈ p.windows (.exprs xs), m.InList p (.exprs xs)) ∧
      p.matchFrom (.exprs xs) 3 = .error .differs ∧ p.matchFrom (.exprs xs) 4 = .error .differs ∧
      ∃ m, (p.windows (.exprs xs)).head? = some m ∧ m.first = 0 := by
  have hrun : ((compile "$x, $*_, $x").toOption.bind fun p =>
      (Expr.parseList false "a, b, a, c, a").toOption.map fun xs =>
        (p.isList, (Node.exprs xs).size, (p.matchNode? (.exprs xs)).map (·.stop),
          (p.windows (.exprs xs)).map fun m => (m.first, m.stop))) =
      some (true, 5, some 5, [(0, 3)]) := by decide +kernel
  simp only [Option.bind_eq_some_iff, Option.map_eq_some_iff, except_toOption_eq_some,
    Prod.mk.injEq] at hrun
  obtain ⟨p, hp, xs, hxs, hlist, hsize, ⟨m, hm, hwhole⟩, hwindows⟩ := hrun
  obtain ⟨hin, -, hmissed, -, hfirst⟩ := windows_sweep hp (.exprs xs)
  have hbehind (i : Nat) (hi : 3 ≤ i) : ∀ m ∈ p.windows (.exprs xs), i < m.first ∨ m.next ≤ i := by
    intro m hm
    have hmem := List.mem_map_of_mem (f := fun m => (m.first, m.stop)) hm
    rw [hwindows, List.mem_singleton, Prod.mk.injEq] at hmem
    refine .inr ?_
    rw [Match.next, hmem.1, hmem.2]
    omega
  exact ⟨p, xs, hp, hxs, hlist, hsize, by rw [hm, Option.map_some, hwhole], hwindows, hin,
    hmissed 3 (by omega) (hbehind 3 (by decide)), hmissed 4 (by omega) (hbehind 4 (by decide)),
    hfirst hlist (by omega) (by rw [hm]; rfl)⟩

end GoSift.Pattern
