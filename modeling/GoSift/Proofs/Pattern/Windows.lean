import GoSift.Pattern.Find
import GoSift.Proofs.Outcome
import GoSift.Proofs.Pattern.Compiled

/-!
The windows of list patterns. A search that may stop in the middle of a list stops as early as it can.
So a pattern of nothing but wildcards for runs takes no element wherever it is tried, and every other
list pattern takes one at least.
-/
namespace GoSift.Pattern

/-- Whether an instruction can be passed without an element: a wildcard for a run, or the end of one. -/
def Inst.takesNone (i : Inst) : Bool :=
  match i.op with
  | .close | .wildcard .seq _ => true
  | _ => false

/-- Whether a pattern is a list of wildcards for runs and nothing else. -/
def runsOnly (p : Pattern) : Bool :=
  p.isList && p.insts.tail.all Inst.takesNone

/-- Whether a list pattern is for lists like `n`. -/
def suits (p : Pattern) (n : Node) : Bool :=
  p.insts.head?.any (isRootOf ·.op n)

theorem takesNone_eq_false {i : Inst} (hclose : i.op ≠ .close)
    (hseq : ∀ named, i.op ≠ .wildcard .seq named) : i.takesNone = false := by
  unfold Inst.takesNone
  split
  · contradiction
  · exact absurd ‹_› (hseq _)
  · rfl

/-! ### Searches that may stop early -/

/-- A search that leaves fewer than `n` elements over if it succeeds. -/
def Advances {α : Type} (n : Nat) (r : Except Mismatch (List α × MatchState)) : Prop :=
  ∀ left s, r = .ok (left, s) → left.length < n

section

variable {α : Type} {strings : List String} {list : List α → Node} {node : α → Node}
  {matcher : Node → MatchState → Except Mismatch MatchState} {es : List (Element Fit)}
  {code rest : List Inst} {n : Nat}

/-- A wildcard that takes one more element advances, whatever comes behind it. -/
theorem advances_resume_pushRestart (name : Option String) (captures : List Capture)
    (hsearch : ∀ xs captures restarts, xs.length < n →
      Advances n (resume strings list (fun x => matcher (node x)) false restarts) →
      Advances n (search strings list (fun x => matcher (node x)) false ⟨code, captures⟩ xs restarts))
    (window todo : List α) {restarts : List (Restart α)} (htodo : todo.length ≤ n)
    (h : Advances n (resume strings list (fun x => matcher (node x)) false restarts)) :
    Advances n (resume strings list (fun x => matcher (node x)) false
      (pushRestart name ⟨code, captures⟩ window todo restarts)) := by
  induction todo generalizing window with
  | nil => exact h
  | cons x todo ih =>
    have hlt : todo.length < n := htodo
    have hlater := ih (window ++ [x]) (Nat.le_of_lt hlt)
    rw [pushRestart, resume]
    dsimp only
    split
    · exact hsearch _ _ _ hlt hlater
    · exact hlater

/-- A search advances if it has done so already or some element of the run is no wildcard for a run. -/
theorem Coded.search_advances (h : Coded strings matcher es code) (xs : List α)
    (captures : List Capture) (restarts : List (Restart α))
    (hxs : xs.length < n ∨ xs.length ≤ n ∧ code.all Inst.takesNone = false)
    (hrestarts : Advances n (resume strings list (fun x => matcher (node x)) false restarts)) :
    Advances n (search strings list (fun x => matcher (node x)) false
      ⟨code ++ .closing :: rest, captures⟩ xs restarts) := by
  induction h generalizing xs captures restarts with
  | nil =>
    rw [List.nil_append, search_close rfl]
    rintro left s ⟨⟩
    exact hxs.resolve_right (by simp)
  | @stretch named i text es code hop htext h ih =>
    have hi : i.takesNone = true := by simp [Inst.takesNone, hop]
    rw [List.all_cons, hi, Bool.true_and] at hxs
    rw [List.cons_append, search_seq hop htext]
    dsimp only
    have hpush := advances_resume_pushRestart (if named then some text else none) captures
      (fun ys captures restarts hys => ih ys captures restarts (.inl hys)) [] xs
      (hxs.elim Nat.le_of_lt And.left) hrestarts
    split
    · exact ih _ _ _ hxs hpush
    · exact hpush
  | @single f i code es code' hclose hseq hf h ih =>
    rw [List.append_assoc, search_single hclose hseq hf]
    cases xs with
    | nil => exact hrestarts
    | cons x xs =>
      have hlt : xs.length < n := hxs.elim Nat.lt_of_succ_lt And.left
      dsimp only
      cases f (node x) captures with
      | none => exact hrestarts
      | some captures' => exact ih xs captures' restarts (.inl hlt) hrestarts

/-- A name that is bound to the empty list, if at all, can be bound to it. -/
theorem exists_bindOpt?_empty {empty : Node} (hempty : Capture.normal empty = empty)
    {captures : List Capture} (hcaptures : ∀ c ∈ captures, c.node = empty) (name : Option String) :
    ∃ captures', bindOpt? captures name empty = some captures' ∧ ∀ c ∈ captures', c.node = empty := by
  cases name with
  | none => exact ⟨captures, rfl, hcaptures⟩
  | some name =>
    cases hfind : captures.find? (·.name = name) with
    | none =>
      refine ⟨captures ++ [⟨name, empty⟩], by simp [bindOpt?, bind?, hfind, hempty], ?_⟩
      exact List.forall_mem_append.2 ⟨hcaptures, List.forall_mem_singleton.2 rfl⟩
    | some c =>
      have hc := hcaptures c (List.mem_of_find?_eq_some hfind)
      refine ⟨captures, ?_, hcaptures⟩
      simp [bindOpt?, bind?, hfind, hempty, hc, Node.same_refl]

/-- Wildcards for runs are passed without an element at the first attempt. -/
theorem Coded.search_takes_none (h : Coded strings matcher es code)
    (hcode : code.all Inst.takesNone = true) (hempty : Capture.normal (list []) = list [])
    (xs : List α) {captures : List Capture} (hcaptures : ∀ c ∈ captures, c.node = list [])
    (restarts : List (Restart α)) :
    ∃ s, search strings list (fun x => matcher (node x)) false
      ⟨code ++ .closing :: rest, captures⟩ xs restarts = .ok (xs, s) := by
  induction h generalizing captures restarts with
  | nil =>
    rw [List.nil_append, search_close rfl]
    exact ⟨_, rfl⟩
  | @stretch named i text es code hop htext h ih =>
    rw [List.all_cons, Bool.and_eq_true] at hcode
    obtain ⟨captures', hbind, hcaptures'⟩ :=
      exists_bindOpt?_empty hempty hcaptures (if named then some text else none)
    rw [List.cons_append, search_seq hop htext]
    simp only [hbind]
    exact ih hcode.2 hcaptures' _
  | @single f i code es code' hclose hseq hf h ih =>
    rw [List.cons_append, List.all_cons, takesNone_eq_false hclose hseq] at hcode
    cases hcode

end

/-! ### Matches in lists -/

theorem isList_of_isRootOf {op : Op} {n : Node} (h : isRootOf op n = true) : n.isList = true := by
  cases n <;> first | rfl | cases h

theorem isList_sublist {n : Node} (i j : Nat) : (sublist i j n).isList = n.isList := by
  cases n <;> rfl

theorem size_sublist {n : Node} (h : n.isList = true) (i j : Nat) :
    (sublist i j n).size = min (j - i) (n.size - i) := by
  cases n with
  | exprs | stmts | fields => simp [sublist, Node.size]
  | expr | stmt | field => cases h

section

variable {strings : List String} {es : List (Element Fit)} {code : List Inst} {n : Node}

theorem Coded.matchRun_takes_none
    (h : Coded strings (matchTerm strings (code ++ [Inst.closing]).length) es code)
    (hcode : code.all Inst.takesNone = true) (hn : n.isList = true) :
    ∃ s, matchRun strings false ⟨code ++ [.closing], []⟩ n = .ok (0, s) := by
  have htaken {α : Type} (list : List α → Node) (node : α → Node)
      (hempty : Capture.normal (list []) = list []) (xs : List α) :
      ∃ s, matchRun.taken xs (search strings list
        (fun x => matchTerm strings (code ++ [Inst.closing]).length (node x)) false
        ⟨code ++ [.closing], []⟩ xs []) = .ok (0, s) := by
    obtain ⟨s, hs⟩ : ∃ s, search strings list
        (fun x => matchTerm strings (code ++ [Inst.closing]).length (node x)) false
        ⟨code ++ [.closing], []⟩ xs [] = .ok (xs, s) :=
      h.search_takes_none hcode hempty xs (List.forall_mem_nil _) []
    rw [hs]
    exact ⟨s, by simp [matchRun.taken, Except.map]⟩
  cases n with
  | exprs xs => exact htaken .exprs .expr rfl xs
  | stmts ss => exact htaken .stmts .stmt rfl ss
  | fields fs => exact htaken .fields .field rfl fs
  | expr | stmt | field => cases hn

theorem Coded.matchRun_takes_some
    (h : Coded strings (matchTerm strings (code ++ [Inst.closing]).length) es code)
    (hcode : code.all Inst.takesNone = false) {k : Nat} {s : MatchState}
    (hk : matchRun strings false ⟨code ++ [.closing], []⟩ n = .ok (k, s)) : 0 < k := by
  have htaken {α : Type} (list : List α → Node) (node : α → Node) (xs : List α)
      (hk : matchRun.taken xs (search strings list
        (fun x => matchTerm strings (code ++ [Inst.closing]).length (node x)) false
        ⟨code ++ [.closing], []⟩ xs []) = .ok (k, s)) : 0 < k := by
    have hnone : Advances xs.length (resume strings list
        (fun x => matchTerm strings (code ++ [Inst.closing]).length (node x)) false []) := by
      intro left s h
      rw [resume] at h
      cases h
    have hadvances : Advances xs.length (search strings list
        (fun x => matchTerm strings (code ++ [Inst.closing]).length (node x)) false
        ⟨code ++ [.closing], []⟩ xs []) :=
      h.search_advances xs [] [] (.inr ⟨Nat.le_refl _, hcode⟩) hnone
    generalize search strings list _ false _ xs [] = r at hk hadvances
    cases r with
    | error e => cases hk
    | ok r =>
      cases hk
      exact Nat.sub_pos_of_lt (hadvances _ _ rfl)
  cases n with
  | exprs xs => exact htaken .exprs .expr xs hk
  | stmts ss => exact htaken .stmts .stmt ss hk
  | fields fs => exact htaken .fields .field fs hk
  | expr | stmt | field => cases hk

end

section

variable {p : Pattern} {tree list : Node} {i : Nat} {m : Match}

/-- The code of a list pattern is the root and a run. -/
theorem Encodes.exists_list_spells (h : p.Encodes tree) (hlist : p.isList = true) :
    ∃ root code ts, p.insts = root :: code ∧ (Term.run ts).Spells p.strings code := by
  cases tree with
  | expr x => exact absurd hlist (by simp [isList_of_spells h x.kind_term])
  | stmt s => exact absurd hlist (by simp [isList_of_spells h s.kind_term])
  | exprs xs =>
    obtain ⟨code, hcode, hspells⟩ := h
    exact ⟨_, code, _, hcode, hspells⟩
  | stmts ss =>
    obtain ⟨code, hcode, hspells⟩ := h
    exact ⟨_, code, _, hcode, hspells⟩
  | field | fields => cases h

/-- The elements of the run are those of a search. -/
theorem Encodes.exists_run (h : p.Encodes tree) (hlist : p.isList = true) :
    ∃ root code es, p.insts = root :: (code ++ [.closing]) ∧
      Coded p.strings (matchTerm p.strings (code ++ [Inst.closing]).length) es code := by
  obtain ⟨root, _, ts, hcode, front, rfl, hkinds, hspells⟩ := h.exists_list_spells hlist
  exact ⟨root, front, _, hcode, Term.coded_fitEach ts hspells hkinds (by simp)⟩

theorem runsOnly_of_code {root : Inst} {code : List Inst} (hlist : p.isList = true)
    (hcode : p.insts = root :: (code ++ [.closing])) :
    p.runsOnly = code.all Inst.takesNone := by
  have hclosing : Inst.closing.takesNone = true := rfl
  simp [runsOnly, hlist, hcode, hclosing]

/-- What a match in a list from the index `i` on is. -/
theorem matchFrom?_eq_some (h : p.matchFrom? list i = some m) :
    i < list.size ∧ ∃ root code n s, p.insts = root :: code ∧ isRootOf root.op list = true ∧
      matchRun p.strings false ⟨code, []⟩ (sublist i list.size list) = .ok (n, s) ∧
      m = ⟨sublist i (i + n) list, some (i, i + n), s.captures⟩ := by
  rw [matchFrom?, except_toOption_eq_some, matchFrom] at h
  split at h
  · cases h
  · next hi =>
    refine ⟨Nat.lt_of_not_le hi, ?_⟩
    split at h
    · cases h
    · next root code hcode =>
      split at h
      · next hroot =>
        cases hrun : matchRun p.strings false ⟨code, []⟩ (sublist i list.size list) with
        | error e =>
          rw [hrun] at h
          cases h
        | ok r =>
          rw [hrun] at h
          cases h
          exact ⟨root, code, r.1, r.2, hcode, hroot, hrun, rfl⟩
      · cases h

/-- What a match with a node is: with a whole list, or with a node that is none. -/
theorem matchNode?_eq_some {n : Node} (h : p.matchNode? n = some m) :
    (p.isList = true ∧ ∃ root code k s, p.insts = root :: code ∧ isRootOf root.op n = true ∧
      matchRun p.strings true ⟨code, []⟩ n = .ok (k, s) ∧ m = ⟨n, some (0, k), s.captures⟩) ∨
    (p.isList = false ∧ ∃ s, matchTerm p.strings p.insts.length n p.start = .ok s ∧
      m = ⟨n, none, s.captures⟩) := by
  rw [matchNode?, except_toOption_eq_some, matchNode] at h
  split at h
  · split at h <;> cases h
  · next root code hcode =>
    split at h
    · next hlist =>
      split at h
      · next hroot =>
        cases hrun : matchRun p.strings true ⟨code, []⟩ n with
        | error e =>
          rw [hrun] at h
          cases h
        | ok r =>
          rw [hrun] at h
          cases h
          exact .inl ⟨hlist, root, code, r.1, r.2, hcode, hroot, hrun, rfl⟩
      · cases h
    · next hlist =>
      split at h
      · cases h
      · cases hterm : matchTerm p.strings p.insts.length n p.start with
        | error e =>
          rw [hterm] at h
          cases h
        | ok s =>
          rw [hterm] at h
          cases h
          exact .inr ⟨Bool.eq_false_iff.2 hlist, s, rfl, rfl⟩

/-- A match in a list has no elements just if the pattern consists of wildcards for runs. -/
theorem Encodes.size_matchFrom? (h : p.Encodes tree) (hlist : p.isList = true)
    (hm : p.matchFrom? list i = some m) : m.node.size = 0 ↔ p.runsOnly = true := by
  obtain ⟨hi, root, _, n, s, hcode, hroot, hrun, rfl⟩ := matchFrom?_eq_some hm
  obtain ⟨_, code, es, hcode', hcoded⟩ := h.exists_run hlist
  obtain ⟨rfl, rfl⟩ := List.cons_eq_cons.1 (hcode.symm.trans hcode')
  have hl := isList_of_isRootOf hroot
  have hsub : (sublist i list.size list).isList = true := (isList_sublist _ _).trans hl
  rw [runsOnly_of_code hlist hcode, size_sublist hl]
  cases hall : code.all Inst.takesNone with
  | true =>
    obtain ⟨s', hs'⟩ := hcoded.matchRun_takes_none hall hsub
    obtain ⟨rfl, -⟩ := Prod.mk.inj (Except.ok.inj (hrun.symm.trans hs'))
    simp
  | false =>
    have hn := hcoded.matchRun_takes_some hall hrun
    simp only [Bool.false_eq_true, iff_false]
    omega

/-- A pattern of wildcards for runs matches in every list that is of its kind and has elements. -/
theorem Encodes.exists_matchFrom? (h : p.Encodes tree) (hp : p.runsOnly = true)
    (hsuits : p.suits list = true) (hsize : list.size ≠ 0) : ∃ m, p.matchFrom? list 0 = some m := by
  have hlist : p.isList = true := (Bool.and_eq_true_iff.1 hp).1
  obtain ⟨root, code, es, hcode, hcoded⟩ := h.exists_run hlist
  have hroot : isRootOf root.op list = true := by simpa [suits, hcode] using hsuits
  have hsub : (sublist 0 list.size list).isList = true :=
    (isList_sublist _ _).trans (isList_of_isRootOf hroot)
  obtain ⟨s, hs⟩ := hcoded.matchRun_takes_none (runsOnly_of_code hlist hcode ▸ hp) hsub
  refine ⟨⟨sublist 0 0 list, some (0, 0), s.captures⟩, ?_⟩
  rw [matchFrom?, except_toOption_eq_some, matchFrom, if_neg (by omega), hcode]
  simp only [hroot, if_true, hs]
  rfl

theorem exists_of_mem_windowsFrom (h : m ∈ p.windowsFrom list i) :
    ∃ j, p.matchFrom? list j = some m := by
  fun_induction windowsFrom p list i with
  | case1 i hi found hfound ih =>
    obtain rfl | h := List.mem_cons.1 h
    · exact ⟨i, hfound⟩
    · exact ih h
  | case2 i hi hnone ih => exact ih h
  | case3 => cases h

theorem mem_windows_of_matchFrom? (h : p.matchFrom? list 0 = some m) : m ∈ p.windows list := by
  rw [windows, windowsFrom, if_pos (matchFrom?_eq_some h).1, h]
  exact .head _

end

end GoSift.Pattern
