import GoSift.Proofs.Outcome
import GoSift.Proofs.Pattern.Containment

/-!
The search through a list, with its stack of restarts, finds what a recursive search finds that tries
the lengths of each wildcard for a run one after the other. So of all ways to split a list among such
wildcards it finds the one with the lexicographically smallest lengths.
-/
namespace GoSift.Pattern

/-- What `f` gives for the lexicographically smallest list for which it gives something. -/
def Least {β : Type} (f : List Nat → Option β) : Option β → Prop
  | some b => ∃ lens, f lens = some b ∧ ∀ lens' < lens, f lens' = none
  | none => ∀ lens, f lens = none

section

variable {β : Type} {f : List Nat → Option β} {found : Option β}

theorem Least.eq_some_iff (h : Least f found) {b : β} :
    found = some b ↔ ∃ lens, f lens = some b ∧ ∀ lens' < lens, f lens' = none := by
  constructor
  · rintro rfl
    exact h
  · rintro ⟨lens, hlens, hleast⟩
    cases found with
    | none => cases (h lens).symm.trans hlens
    | some b' =>
      obtain ⟨lens', hlens', hleast'⟩ := h
      have hle : ¬ lens' < lens := fun hlt => by cases (hleast lens' hlt).symm.trans hlens'
      have hge : ¬ lens < lens' := fun hlt => by cases (hleast' lens hlt).symm.trans hlens
      obtain rfl := List.le_antisymm hle hge
      exact hlens'.symm.trans hlens

theorem Least.eq_none_iff (h : Least f found) : found = none ↔ ∀ lens, f lens = none := by
  constructor
  · rintro rfl
    exact h
  · intro hnone
    cases found with
    | none => rfl
    | some b =>
      obtain ⟨lens, hlens, -⟩ := h
      cases (hnone lens).symm.trans hlens

end

/-! ### Searching recursively -/

section

variable {α : Type} (strings : List String) (list : List α → Node)
  (node : α → MatchState → Option MatchState) (whole : Bool) (xs : List α)

/-- Matches code up to its closing instruction against the elements of `xs` from the index `i` on, and
gives the index behind the last one taken. A wildcard for a run takes as few elements as it can for the
rest to match. -/
def recurse (s : MatchState) (i : Nat) : Option (Nat × MatchState) :=
  match s with
  | ⟨[], _⟩ => none
  | ⟨inst :: code, captures⟩ =>
    match inst.op with
    | .close => if !whole || i = xs.length then some (i, ⟨code, captures⟩) else none
    | .wildcard .seq _ =>
      (List.range (xs.length - i + 1)).findSome? fun l =>
        (bindOpt? captures (inst.captureName? strings) (list ((xs.drop i).take l))).bind
          fun captures => recurse ⟨code, captures⟩ (i + l)
    | _ =>
      match h : xs[i]? with
      | none => none
      | some x => (node x ⟨inst :: code, captures⟩).bind fun s => recurse s (i + 1)
termination_by (xs.length - i, s.code.length)
decreasing_by
  · rw [Prod.lex_def]
    simp only [List.length_cons]
    omega
  · have hi : i < xs.length := (List.getElem?_eq_some_iff.1 h).1
    rw [Prod.lex_def]
    omega

/-- Matches code like `recurse`, but with the lengths of the wildcards for runs given in order. -/
def along (s : MatchState) (i : Nat) (lens : List Nat) : Option (Nat × MatchState) :=
  match s with
  | ⟨[], _⟩ => none
  | ⟨inst :: code, captures⟩ =>
    match inst.op with
    | .close =>
      if lens.isEmpty && (!whole || i = xs.length) then some (i, ⟨code, captures⟩) else none
    | .wildcard .seq _ =>
      match lens with
      | [] => none
      | l :: lens =>
        if i + l ≤ xs.length then
          (bindOpt? captures (inst.captureName? strings) (list ((xs.drop i).take l))).bind
            fun captures => along ⟨code, captures⟩ (i + l) lens
        else none
    | _ =>
      match h : xs[i]? with
      | none => none
      | some x => (node x ⟨inst :: code, captures⟩).bind fun s => along s (i + 1) lens
termination_by (lens.length, xs.length - i)
decreasing_by
  · rw [Prod.lex_def]
    simp
  · have hi : i < xs.length := (List.getElem?_eq_some_iff.1 h).1
    rw [Prod.lex_def]
    omega

end

section

variable {α : Type} {strings : List String} {list : List α → Node}
  {node : α → MatchState → Option MatchState} {whole : Bool} {xs : List α} {inst : Inst}
  {code : List Inst} {captures : List Capture} {i : Nat} {lens : List Nat} {named : Bool}

theorem recurse_close (hop : inst.op = .close) :
    recurse strings list node whole xs ⟨inst :: code, captures⟩ i =
      if !whole || i = xs.length then some (i, ⟨code, captures⟩) else none := by
  rw [recurse.eq_def]
  simp only [hop]

theorem recurse_seq (hop : inst.op = .wildcard .seq named) :
    recurse strings list node whole xs ⟨inst :: code, captures⟩ i =
      (List.range (xs.length - i + 1)).findSome? fun l =>
        (bindOpt? captures (inst.captureName? strings) (list ((xs.drop i).take l))).bind
          fun captures => recurse strings list node whole xs ⟨code, captures⟩ (i + l) := by
  rw [recurse.eq_def]
  simp only [hop]

theorem recurse_single (hclose : inst.op ≠ .close) (hseq : ∀ named, inst.op ≠ .wildcard .seq named) :
    recurse strings list node whole xs ⟨inst :: code, captures⟩ i =
      xs[i]?.bind fun x => (node x ⟨inst :: code, captures⟩).bind fun s =>
        recurse strings list node whole xs s (i + 1) := by
  rw [recurse.eq_def]
  dsimp only
  split
  · exact absurd ‹_› hclose
  · exact absurd ‹_› (hseq _)
  · split
    · next h => rw [h]; rfl
    · next h => rw [h]; rfl

theorem along_close (hop : inst.op = .close) :
    along strings list node whole xs ⟨inst :: code, captures⟩ i lens =
      if lens.isEmpty && (!whole || i = xs.length) then some (i, ⟨code, captures⟩) else none := by
  rw [along.eq_def]
  simp only [hop]

theorem along_seq_nil (hop : inst.op = .wildcard .seq named) :
    along strings list node whole xs ⟨inst :: code, captures⟩ i [] = none := by
  rw [along.eq_def]
  simp only [hop]

theorem along_seq_cons {l : Nat} (hop : inst.op = .wildcard .seq named) :
    along strings list node whole xs ⟨inst :: code, captures⟩ i (l :: lens) =
      if i + l ≤ xs.length then
        (bindOpt? captures (inst.captureName? strings) (list ((xs.drop i).take l))).bind
          fun captures => along strings list node whole xs ⟨code, captures⟩ (i + l) lens
      else none := by
  rw [along.eq_def]
  simp only [hop]

theorem along_single (hclose : inst.op ≠ .close) (hseq : ∀ named, inst.op ≠ .wildcard .seq named) :
    along strings list node whole xs ⟨inst :: code, captures⟩ i lens =
      xs[i]?.bind fun x => (node x ⟨inst :: code, captures⟩).bind fun s =>
        along strings list node whole xs s (i + 1) lens := by
  rw [along.eq_def]
  dsimp only
  split
  · exact absurd ‹_› hclose
  · exact absurd ‹_› (hseq _)
  · split
    · next h => rw [h]; rfl
    · next h => rw [h]; rfl

/-! ### The smallest lengths -/

/-- What comes first in a range. -/
theorem findSome?_range_eq_some {β : Type} {f : Nat → Option β} {n : Nat} {b : β}
    (h : (List.range n).findSome? f = some b) :
    ∃ l < n, f l = some b ∧ ∀ k < l, f k = none := by
  induction n with
  | zero => cases h
  | succ n ih =>
    rw [List.range_succ, List.findSome?_append, Option.or_eq_some_iff] at h
    obtain h | ⟨hnone, hn⟩ := h
    · obtain ⟨l, hl, hfirst⟩ := ih h
      exact ⟨l, Nat.lt_succ_of_lt hl, hfirst⟩
    · rw [List.findSome?_eq_none_iff] at hnone
      exact ⟨n, Nat.lt_succ_self n, by simpa using hn, fun k hk => hnone k (List.mem_range.2 hk)⟩

/-- No more elements are taken than there are. -/
theorem along_le {s s' : MatchState} {j : Nat} (hi : i ≤ xs.length)
    (h : along strings list node whole xs s i lens = some (j, s')) : j ≤ xs.length := by
  fun_induction along strings list node whole xs s i lens with
  | case1 | case3 | case4 | case6 | case7 => cases h
  | case2 i lens inst code captures hop hend =>
    cases h
    exact hi
  | case5 i inst code captures named hop l lens hl ih =>
    obtain ⟨captures', -, h⟩ := Option.bind_eq_some_iff.1 h
    exact ih captures' hl h
  | case8 i lens inst code captures x hx hclose hseq ih =>
    obtain ⟨s'', -, h⟩ := Option.bind_eq_some_iff.1 h
    exact ih s'' (List.getElem?_eq_some_iff.1 hx).1 h

theorem recurse_least (s : MatchState) (i : Nat) (hi : i ≤ xs.length) :
    Least (along strings list node whole xs s i) (recurse strings list node whole xs s i) := by
  fun_induction recurse strings list node whole xs s i with
  | case1 i captures =>
    intro lens
    rw [along.eq_def]
  | case2 i inst code captures hop hend =>
    refine ⟨[], ?_, fun lens hlens => absurd hlens (List.not_lt_nil _)⟩
    rw [along_close hop]
    simp [hend]
  | case3 i inst code captures hop hend =>
    intro lens
    rw [along_close hop, if_neg (by simp [hend])]
  | case4 i inst code captures named hop ih =>
    -- A length that is passed over leads to nothing, whatever the lengths behind it.
    have hpassed : ∀ l ≤ xs.length - i,
        ((bindOpt? captures (inst.captureName? strings) (list ((xs.drop i).take l))).bind
          fun captures => recurse strings list node whole xs ⟨code, captures⟩ (i + l)) = none →
        ∀ lens, along strings list node whole xs ⟨inst :: code, captures⟩ i (l :: lens) = none := by
      intro l hl hnone lens
      rw [along_seq_cons hop, if_pos (by omega)]
      cases hbind : bindOpt? captures (inst.captureName? strings) (list ((xs.drop i).take l)) with
      | none => rfl
      | some captures' =>
        rw [hbind, Option.bind_some] at hnone
        have hlater := ih l captures' (by omega)
        rw [hnone] at hlater
        exact hlater lens
    cases hfound : (List.range (xs.length - i + 1)).findSome? fun l =>
        (bindOpt? captures (inst.captureName? strings) (list ((xs.drop i).take l))).bind
          fun captures => recurse strings list node whole xs ⟨code, captures⟩ (i + l) with
    | none =>
      rw [List.findSome?_eq_none_iff] at hfound
      intro lens
      cases lens with
      | nil => exact along_seq_nil hop
      | cons l lens =>
        by_cases hl : i + l ≤ xs.length
        · exact hpassed l (by omega) (hfound l (List.mem_range.2 (by omega))) lens
        · rw [along_seq_cons hop, if_neg hl]
    | some r =>
      obtain ⟨l, hl, hr, hfirst⟩ := findSome?_range_eq_some hfound
      obtain ⟨captures', hbind, hr⟩ := Option.bind_eq_some_iff.1 hr
      have hlater := ih l captures' (by omega)
      rw [hr] at hlater
      obtain ⟨lens, hlens, hleast⟩ := hlater
      refine ⟨l :: lens, ?_, fun lens' hlt => ?_⟩
      · rw [along_seq_cons hop, if_pos (by omega), hbind]
        exact hlens
      · cases lens' with
        | nil => exact along_seq_nil hop
        | cons k lens' =>
          obtain hk | ⟨rfl, hlt'⟩ := List.cons_lt_cons_iff.1 hlt
          · exact hpassed k (by omega) (hfirst k hk) lens'
          · rw [along_seq_cons hop, if_pos (by omega), hbind]
            exact hleast lens' hlt'
  | case5 i inst code captures hx hclose hseq =>
    intro lens
    rw [along_single hclose hseq, hx]
    rfl
  | case6 i inst code captures x hx hclose hseq ih =>
    have hlt : i < xs.length := (List.getElem?_eq_some_iff.1 hx).1
    have halong : ∀ lens, along strings list node whole xs ⟨inst :: code, captures⟩ i lens =
        (node x ⟨inst :: code, captures⟩).bind fun s =>
          along strings list node whole xs s (i + 1) lens := by
      intro lens
      rw [along_single hclose hseq, hx]
      rfl
    unfold Least
    simp only [halong]
    cases node x ⟨inst :: code, captures⟩ with
    | none => exact fun _ => rfl
    | some s' => exact ih s' hlt

end

/-- The result of a recursive search as one of a search through a list, with what happens if nothing is
found. -/
def finish {α : Type} (xs : List α) (otherwise : Except Mismatch (List α × MatchState)) :
    Option (Nat × MatchState) → Except Mismatch (List α × MatchState)
  | some (j, s) => .ok (xs.drop j, s)
  | none => otherwise

section

variable {α : Type} {strings : List String} {list : List α → Node} {node : α → Node}
  {matcher : Node → MatchState → Except Mismatch MatchState} {whole : Bool} {xs : List α}
  {es : List (Element Fit)} {code rest : List Inst} {i : Nat}

theorem captureName?_eq {inst : Inst} {slot : Slot} {named : Bool} {text : String}
    (hop : inst.op = .wildcard slot named) (htext : inst.text? strings = some text) :
    inst.captureName? strings = if named then some text else none := by
  cases named with
  | true => simpa [Inst.captureName?, Inst.text?, hop, Op.hasText, Op.payload] using htext
  | false => simp [Inst.captureName?, hop]

theorem length_window_le {window todo : List α} (htodo : xs.drop i = window ++ todo)
    (hi : i ≤ xs.length) : i + window.length ≤ xs.length := by
  have hlength := congrArg List.length htodo
  rw [List.length_drop, List.length_append] at hlength
  omega

/-- The stack of restarts goes through the lengths in order. -/
theorem resume_pushRestart_eq (name : Option String) (captures : List Capture)
    {f : List Capture → Nat → Option (Nat × MatchState)}
    (hsearch : ∀ j captures restarts, j ≤ xs.length →
      search strings list (fun x => matcher (node x)) whole ⟨code, captures⟩ (xs.drop j) restarts =
        finish xs (resume strings list (fun x => matcher (node x)) whole restarts) (f captures j))
    (window todo : List α) (htodo : xs.drop i = window ++ todo) (hi : i ≤ xs.length)
    (restarts : List (Restart α)) :
    (match bindOpt? captures name (list window) with
      | some captures' =>
        search strings list (fun x => matcher (node x)) whole ⟨code, captures'⟩ todo
          (pushRestart name ⟨code, captures⟩ window todo restarts)
      | none =>
        resume strings list (fun x => matcher (node x)) whole
          (pushRestart name ⟨code, captures⟩ window todo restarts)) =
      finish xs (resume strings list (fun x => matcher (node x)) whole restarts)
        ((List.range' window.length (todo.length + 1)).findSome? fun l =>
          (bindOpt? captures name (list ((xs.drop i).take l))).bind (f · (i + l))) := by
  induction todo generalizing window with
  | nil =>
    have hwindow : (xs.drop i).take window.length = window := by rw [htodo, List.take_left]
    have hdrop : xs.drop (i + window.length) = [] := by
      rw [← List.drop_drop, htodo, List.drop_left]
    have hlength := length_window_le htodo hi
    rw [List.length_nil, Nat.zero_add, List.range'_one, List.findSome?_singleton, hwindow]
    cases bindOpt? captures name (list window) with
    | none => rfl
    | some captures' =>
      have hnext := hsearch (i + window.length) captures' restarts hlength
      rw [hdrop] at hnext
      exact hnext
  | cons x todo ih =>
    have hwindow : (xs.drop i).take window.length = window := by rw [htodo, List.take_left]
    have hdrop : xs.drop (i + window.length) = x :: todo := by
      rw [← List.drop_drop, htodo, List.drop_left]
    have hlength := length_window_le htodo hi
    have hlater := ih (window ++ [x]) (by simpa using htodo)
    rw [List.length_append, List.length_singleton] at hlater
    rw [List.length_cons, List.range'_succ, List.findSome?_cons, hwindow]
    cases hbind : bindOpt? captures name (list window) with
    | none =>
      simp only [pushRestart, Option.bind_none]
      rw [resume]
      exact hlater
    | some captures' =>
      simp only [pushRestart, Option.bind_some]
      rw [← hdrop, hsearch _ _ _ hlength]
      cases f captures' (i + window.length) with
      | some r => rfl
      | none =>
        simp only [finish]
        rw [resume]
        exact hlater

theorem Coded.search_eq_recurse (h : Coded strings matcher es code) (i : Nat) (hi : i ≤ xs.length)
    (captures : List Capture) (restarts : List (Restart α)) :
    search strings list (fun x => matcher (node x)) whole ⟨code ++ .closing :: rest, captures⟩
        (xs.drop i) restarts =
      finish xs (resume strings list (fun x => matcher (node x)) whole restarts)
        (recurse strings list (fun x s => (matcher (node x) s).toOption) whole xs
          ⟨code ++ .closing :: rest, captures⟩ i) := by
  induction h generalizing i captures restarts with
  | nil =>
    have hempty : (xs.drop i).isEmpty = decide (i = xs.length) := by
      rw [Bool.eq_iff_iff, List.isEmpty_iff_length_eq_zero, List.length_drop, decide_eq_true_iff]
      omega
    rw [List.nil_append, recurse_close rfl, search_close rfl, hempty]
    split <;> rfl
  | @stretch named inst text es code hop htext h ih =>
    have hname := captureName?_eq hop htext
    rw [List.cons_append, recurse_seq hop, search_seq hop htext, hname]
    have hall := resume_pushRestart_eq (if named then some text else none) captures
      (fun j captures restarts hj => ih j hj captures restarts) [] (xs.drop i) rfl hi restarts
    rw [List.length_nil, ← List.range_eq_range', List.length_drop] at hall
    exact hall
  | @single f inst code es code' hclose hseq hf h ih =>
    rw [List.append_assoc, search_single hclose hseq hf, List.cons_append,
      recurse_single hclose hseq]
    obtain hlt | rfl := Nat.lt_or_eq_of_le hi
    · have hx := hf (node xs[i]) captures (code' ++ .closing :: rest)
      rw [List.cons_append] at hx
      rw [List.drop_eq_getElem_cons hlt, List.getElem?_eq_getElem hlt]
      simp only [Option.bind_some, hx]
      cases f (node xs[i]) captures with
      | none => rfl
      | some captures' => exact ih (i + 1) hlt captures' restarts
    · rw [List.drop_length, List.getElem?_eq_none (Nat.le_refl _)]
      rfl

end

/-! ### Runs in compiled code -/

/-- Whether an instruction is one of those that follow the root of compiled code: a closing one, a
wildcard, or a shape, with its text in the table. -/
def Inst.Follows (strings : List String) (i : Inst) : Prop :=
  i = .closing ∨ (∃ slot name, (Term.wild slot name).Spells strings [i]) ∨
    (i.op.isShape ∧ ∃ text, i.text? strings = some text)

section

variable {strings : List String}

mutual

theorem Term.follows {t : Term} {code : List Inst} (h : t.Spells strings code) :
    ∀ i ∈ code, i.Follows strings := by
  cases t with
  | wild slot name =>
    obtain ⟨i, named, text, rfl, -⟩ := h.wild_inv
    exact List.forall_mem_singleton.2 (.inr (.inl ⟨slot, name, h⟩))
  | shape op value text args =>
    obtain ⟨i, code, rfl, hop, -, htext, hspells⟩ := h
    exact List.forall_mem_cons.2 ⟨.inr (.inr ⟨hop, text, htext⟩), Term.follows_all hspells⟩
  | run ts =>
    obtain ⟨front, rfl, -, hspells⟩ := h
    exact List.forall_mem_append.2
      ⟨Term.follows_all hspells, List.forall_mem_singleton.2 (.inl rfl)⟩

theorem Term.follows_all {ts : List Term} {code : List Inst} (h : Term.SpellsAll strings ts code) :
    ∀ i ∈ code, i.Follows strings := by
  cases ts with
  | nil =>
    obtain rfl : code = [] := h
    exact List.forall_mem_nil _
  | cons t ts =>
    obtain ⟨front, back, rfl, ht, hts⟩ := h
    exact List.forall_mem_append.2 ⟨Term.follows ht, Term.follows_all hts⟩

end

variable {ts us : List Term} {t : Term} {i : Inst} {code : List Inst}

theorem Term.spellsAll_append (h : Term.SpellsAll strings (ts ++ us) code) :
    ∃ front back, code = front ++ back ∧ Term.SpellsAll strings ts front ∧
      Term.SpellsAll strings us back := by
  induction ts generalizing code with
  | nil => exact ⟨[], code, rfl, rfl, h⟩
  | cons t ts ih =>
    obtain ⟨front, back, rfl, ht, hrest⟩ := h
    obtain ⟨middle, back, rfl, hts, hus⟩ := ih hrest
    exact ⟨front ++ middle, back, by simp, ⟨front, middle, rfl, ht, hts⟩, hus⟩

theorem Inst.Follows.eq_closing (hi : i.Follows strings) (hop : i.op = .close) : i = .closing := by
  obtain hi | ⟨slot, name, hwild⟩ | ⟨hshape, -⟩ := hi
  · exact hi
  · obtain ⟨_, named, text, hi, hwildcard, -⟩ := hwild.wild_inv
    obtain rfl := List.singleton_inj.1 hi
    cases hop.symm.trans hwildcard
  · rw [hop] at hshape
    cases hshape

/-- An instruction in front of its arguments is a term. -/
theorem Inst.Follows.exists_term (hi : i.Follows strings) (hop : i.op ≠ .close)
    (hargs : ts.map Term.kind = i.op.args) (h : Term.SpellsAll strings (ts ++ us) code) :
    ∃ t, t.kind = .one ∧ Term.SpellsAll strings (t :: us) (i :: code) := by
  obtain rfl | ⟨slot, name, hwild⟩ | ⟨hshape, text, htext⟩ := hi
  · exact absurd rfl hop
  · obtain ⟨_, named, text, hi, hop, -⟩ := hwild.wild_inv
    obtain rfl := List.singleton_inj.1 hi
    have hnone : ts = [] := by simpa [hop, Op.args] using hargs
    rw [hnone, List.nil_append] at h
    exact ⟨.wild slot name, rfl, [i], code, rfl, hwild, h⟩
  · obtain ⟨front, back, rfl, hts, hus⟩ := Term.spellsAll_append h
    exact ⟨.shape i.op i.value text ts, rfl, i :: front, back, rfl,
      ⟨i.index, front, rfl, hshape, hargs, htext, hts⟩, hus⟩

/-- One more term in front of a run belongs to it. -/
theorem Term.spellsAll_run (hkind : t.kind = .one)
    (h : Term.SpellsAll strings (t :: .run ts :: us) code) :
    Term.SpellsAll strings (.run (t :: ts) :: us) code := by
  obtain ⟨front, _, rfl, ht, _, back, rfl, ⟨middle, rfl, hkinds, hts⟩, hus⟩ := h
  exact ⟨front ++ (middle ++ [.closing]), back, by simp, ⟨front ++ middle, by simp,
    List.forall_mem_cons.2 ⟨hkind, hkinds⟩, front, middle, rfl, ht, hts⟩, hus⟩

/-- Code that can be read leaving nothing awaited is that of terms. -/
theorem exists_spellsAll {args : List Arg} (hcode : ∀ i ∈ code, i.Follows strings)
    (h : awaited args code = some []) :
    ∃ ts, ts.map Term.kind = args ∧ Term.SpellsAll strings ts code := by
  induction code generalizing args with
  | nil =>
    obtain rfl : args = [] := Option.some.inj h
    exact ⟨[], rfl, rfl⟩
  | cons i code ih =>
    obtain ⟨hi, hcode⟩ := List.forall_mem_cons.1 hcode
    cases args with
    | nil => cases h
    | cons arg args =>
      cases arg with
      | one =>
        by_cases hop : i.op = .close
        · rw [awaited, if_pos hop] at h
          cases h
        · rw [awaited_one hop] at h
          obtain ⟨_, hkinds, hspells⟩ := ih hcode h
          obtain ⟨ts, us, rfl, hargs, rfl⟩ := List.map_eq_append_iff.1 hkinds
          obtain ⟨t, hkind, ht⟩ := hi.exists_term hop hargs hspells
          exact ⟨t :: us, by rw [List.map_cons, hkind], ht⟩
      | run =>
        by_cases hop : i.op = .close
        · rw [awaited, if_pos hop] at h
          obtain ⟨ts, rfl, hspells⟩ := ih hcode h
          exact ⟨.run [] :: ts, rfl, [i], code, rfl,
            ⟨[], by rw [hi.eq_closing hop]; rfl, List.forall_mem_nil _, rfl⟩, hspells⟩
        · rw [awaited_run hop, awaited_one hop] at h
          obtain ⟨_, hkinds, hspells⟩ := ih hcode h
          obtain ⟨ts, us, rfl, hargs, hus⟩ := List.map_eq_append_iff.1 hkinds
          obtain ⟨r, us, rfl, hr, rfl⟩ := List.map_eq_cons_iff.1 hus
          obtain ⟨t, hkind, ht⟩ := hi.exists_term hop hargs hspells
          cases r with
          | run elements => exact ⟨.run (t :: elements) :: us, rfl, Term.spellsAll_run hkind ht⟩
          | wild | shape => cases hr

end

theorem awaited_append {args : List Arg} {code rest : List Inst} :
    awaited args (code ++ rest) = (awaited args code).bind (awaited · rest) := by
  fun_induction awaited args code with
  | case1 => rfl
  | case2 => rfl
  | case3 args i code hop => simp [awaited, hop]
  | case4 args i code hop ih => simpa [awaited, hop] using ih
  | case5 args i code hop ih => simpa [awaited, hop] using ih
  | case6 args i code hop ih => simpa [awaited, hop] using ih

/-- Whatever can be read as a run in compiled code is the code of a run of terms. -/
theorem Encodes.exists_run_spells {p : Pattern} {tree : Node} {pre run rest : List Inst}
    (h : p.Encodes tree) (hp : p.insts = pre ++ run ++ rest) (hrun : awaited [.run] run = some []) :
    ∃ ts, (Term.run ts).Spells p.strings run := by
  obtain ⟨root, code, ts, hcode, hclose, -, hargs, hspells⟩ := h.exists_root
  cases pre with
  | cons first pre =>
    have hfollows : ∀ i ∈ run, i.Follows p.strings := by
      obtain ⟨-, rfl⟩ := List.cons_eq_cons.1 (hcode.symm.trans hp)
      exact fun i hi => Term.follows_all hspells i
        (List.mem_append_left _ (List.mem_append_right _ hi))
    obtain ⟨_, hkinds, hspells⟩ := exists_spellsAll hfollows hrun
    obtain ⟨t, rfl, hkind⟩ := List.map_eq_singleton_iff.1 hkinds
    obtain ⟨_, _, rfl, ht, rfl⟩ := hspells
    rw [List.append_nil]
    cases t with
    | run ts => exact ⟨ts, ht⟩
    | wild | shape => cases hkind
  | nil =>
    -- The root is no element of a run: behind its arguments the code ends, and the run is still awaited.
    cases run with
    | nil => cases hrun
    | cons first run =>
      obtain ⟨rfl, hcode⟩ := List.cons_eq_cons.1 (hcode.symm.trans hp)
      rw [awaited_run hclose, awaited_one hclose, ← hargs] at hrun
      have hread := Term.awaitedAll_eq ts hspells [.run] []
      rw [List.append_nil, hcode, List.append_eq, awaited_append, hrun] at hread
      cases rest <;> cases hread

/-! ### Lists of nodes -/

/-- The recursive search through a list. -/
def backtrack (strings : List String) (whole : Bool) (s : MatchState) :
    Node → Option (Nat × MatchState)
  | .exprs xs => recurse strings .exprs (fun x => term (.expr x)) whole xs s 0
  | .stmts ss => recurse strings .stmts (fun x => term (.stmt x)) whole ss s 0
  | .fields fs => recurse strings .fields (fun x => term (.field x)) whole fs s 0
  | _ => none
where
  term (n : Node) (s' : MatchState) : Option MatchState :=
    (matchTerm strings s.code.length n s').toOption

/-- Matching a list with the lengths of the wildcards for runs given. -/
def split (strings : List String) (whole : Bool) (s : MatchState) (lens : List Nat) :
    Node → Option (Nat × MatchState)
  | .exprs xs => along strings .exprs (fun x => backtrack.term strings s (.expr x)) whole xs s 0 lens
  | .stmts ss => along strings .stmts (fun x => backtrack.term strings s (.stmt x)) whole ss s 0 lens
  | .fields fs =>
    along strings .fields (fun x => backtrack.term strings s (.field x)) whole fs s 0 lens
  | _ => none

section

variable {α : Type} {strings : List String} {list : List α → Node} {node : α → Node}
  {matcher : Node → MatchState → Except Mismatch MatchState} {whole : Bool}
  {es : List (Element Fit)} {code rest : List Inst}

theorem recurse_le {node : α → MatchState → Option MatchState} {xs : List α} {s s' : MatchState}
    {j : Nat} (h : recurse strings list node whole xs s 0 = some (j, s')) : j ≤ xs.length := by
  have hleast : Least (along strings list node whole xs s 0)
      (recurse strings list node whole xs s 0) := recurse_least s 0 (Nat.zero_le _)
  rw [h] at hleast
  obtain ⟨lens, hlens, -⟩ := hleast
  exact along_le (Nat.zero_le _) hlens

/-- The search from the start of a list, with the number of elements it takes. -/
theorem Coded.taken_eq_recurse (h : Coded strings matcher es code) (xs : List α)
    (captures : List Capture) :
    matchRun.taken xs (search strings list (fun x => matcher (node x)) whole
        ⟨code ++ .closing :: rest, captures⟩ xs []) =
      (recurse strings list (fun x s => (matcher (node x) s).toOption) whole xs
        ⟨code ++ .closing :: rest, captures⟩ 0).elim (.error .differs) .ok := by
  have hsearch : search strings list (fun x => matcher (node x)) whole
      ⟨code ++ .closing :: rest, captures⟩ (xs.drop 0) [] = _ :=
    h.search_eq_recurse 0 (Nat.zero_le _) captures []
  rw [List.drop_zero] at hsearch
  rw [hsearch]
  cases hr : recurse strings list (fun x s => (matcher (node x) s).toOption) whole xs
      ⟨code ++ .closing :: rest, captures⟩ 0 with
  | none =>
    rw [finish, resume]
    rfl
  | some r =>
    obtain ⟨j, s⟩ := r
    have hj := recurse_le hr
    have htaken : xs.length - (xs.drop j).length = j := by
      rw [List.length_drop]
      omega
    simp only [finish, matchRun.taken, Except.map, Option.elim_some, htaken]

end

section

variable {strings : List String} {ts : List Term} {run : List Inst}

/-- Matching a list against a run is a recursive search, which ends behind the run. -/
theorem Term.Spells.matchRun_eq (h : (Term.run ts).Spells strings run) (rest : List Inst)
    (whole : Bool) (captures : List Capture) (n : Node) :
    matchRun strings whole ⟨run ++ rest, captures⟩ n =
        (backtrack strings whole ⟨run ++ rest, captures⟩ n).elim (.error .differs) .ok ∧
      Ends rest (matchRun strings whole ⟨run ++ rest, captures⟩ n) := by
  obtain ⟨front, rfl, hkinds, hspells⟩ := h
  rw [List.append_assoc, List.singleton_append]
  have hcoded : Coded strings (matchTerm strings (front ++ Inst.closing :: rest).length)
      (Term.fitEach ts) front := Term.coded_fitEach ts hspells hkinds (by simp)
  have hnone {α : Type} (list : List α → Node)
      (node : α → MatchState → Except Mismatch MatchState) :
      Ends rest (resume strings list node whole []) := by
    rw [resume]
    rfl
  cases n with
  | exprs xs =>
    exact ⟨hcoded.taken_eq_recurse xs captures, .taken (hcoded.search_ends xs captures [] (hnone ..))⟩
  | stmts ss =>
    exact ⟨hcoded.taken_eq_recurse ss captures, .taken (hcoded.search_ends ss captures [] (hnone ..))⟩
  | fields fs =>
    exact ⟨hcoded.taken_eq_recurse fs captures, .taken (hcoded.search_ends fs captures [] (hnone ..))⟩
  | expr | stmt | field => exact ⟨rfl, rfl⟩

variable {whole : Bool} {s : MatchState} {n : Node}

theorem backtrack_least : Least (split strings whole s · n) (backtrack strings whole s n) := by
  cases n with
  | exprs | stmts | fields => exact recurse_least s 0 (Nat.zero_le _)
  | expr | stmt | field => exact fun _ => rfl

end

/-- A list is matched against a run of a compiled pattern as by a recursive search that goes back to the
last wildcard for a run that can take one more element, and the match ends behind the run. What is
found is the match with the lexicographically smallest lengths of such wildcards. -/
theorem matchRun_backtracks {src : String} {p : Pattern} (h : compile src = .ok p)
    {pre run rest : List Inst} (hp : p.insts = pre ++ run ++ rest)
    (hrun : awaited [.run] run = some []) (whole : Bool) (captures : List Capture) (n : Node) :
    let s : MatchState := ⟨run ++ rest, captures⟩
    matchRun p.strings whole s n = (backtrack p.strings whole s n).elim (.error .differs) .ok ∧
      (∀ k s', backtrack p.strings whole s n = some (k, s') → s'.code = rest) ∧
      (∀ r, backtrack p.strings whole s n = some r ↔
        ∃ lens, split p.strings whole s lens n = some r ∧
          ∀ lens' < lens, split p.strings whole s lens' n = none) ∧
      (backtrack p.strings whole s n = none ↔ ∀ lens, split p.strings whole s lens n = none) := by
  obtain ⟨tree, -, hencodes⟩ := exists_tree_of_compile h
  obtain ⟨ts, hspells⟩ := hencodes.exists_run_spells hp hrun
  obtain ⟨heq, hends⟩ := hspells.matchRun_eq rest whole captures n
  refine ⟨heq, fun k s' hs => ?_, fun r => backtrack_least.eq_some_iff, backtrack_least.eq_none_iff⟩
  rw [heq, hs] at hends
  exact hends

/-- The program of a call whose first and last arguments are the same run. -/
def repeated : Pattern :=
  ⟨[⟨.call none, 0, 0⟩, ⟨.ident, 0, 0⟩, ⟨.wildcard .seq true, 0, 1⟩, ⟨.wildcard .single true, 0, 2⟩,
    ⟨.wildcard .seq true, 0, 1⟩, ⟨.close, 0, 0⟩], ["f", "x", "y"]⟩

/-- The arguments of `repeated`. -/
def repeatedArgs : List Inst :=
  [⟨.wildcard .seq true, 0, 1⟩, ⟨.wildcard .single true, 0, 2⟩, ⟨.wildcard .seq true, 0, 1⟩,
    ⟨.close, 0, 0⟩]

/-- The expressions `a`, `b`, `a`. -/
def mirrored : Node :=
  .exprs [.ident ⟨1, 1⟩ "a", .ident ⟨1, 4⟩ "b", .ident ⟨1, 7⟩ "a"]

theorem repeated_backtracks :
    compile "f($*x, $y, $*x)" = .ok repeated ∧
      repeated.insts = repeated.insts.take 2 ++ repeatedArgs ++ [] ∧
      awaited [.run] repeatedArgs = some [] ∧
      (matchRun repeated.strings true ⟨repeatedArgs ++ [], []⟩ mirrored).toOption.map (·.1) = some 3 ∧
      (backtrack repeated.strings true ⟨repeatedArgs ++ [], []⟩ mirrored).map (·.1) = some 3 := by
  have hp : compile "f($*x, $y, $*x)" = .ok repeated :=
    except_toOption_eq_some.1 (by decide +kernel)
  have hrun : awaited [.run] repeatedArgs = some [] := by decide
  have hmatch : (matchRun repeated.strings true ⟨repeatedArgs ++ [], []⟩ mirrored).toOption.map (·.1) =
      some 3 := by decide +kernel
  have hinsts : repeated.insts = repeated.insts.take 2 ++ repeatedArgs ++ [] := rfl
  refine ⟨hp, hinsts, hrun, hmatch, ?_⟩
  rw [(matchRun_backtracks hp hinsts hrun true [] mirrored).1] at hmatch
  cases hfound : backtrack repeated.strings true ⟨repeatedArgs ++ [], []⟩ mirrored with
  | none =>
    rw [hfound] at hmatch
    cases hmatch
  | some r =>
    rw [hfound] at hmatch
    exact hmatch

end GoSift.Pattern
