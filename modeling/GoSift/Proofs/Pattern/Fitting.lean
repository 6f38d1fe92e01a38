import GoSift.Pattern.Match
import GoSift.Proofs.Pattern.Term

/-!
Matching nodes against terms, by recursion on the term. A wildcard for a run takes the shortest
stretch of a list with which the rest of the run matches, and nothing behind the run goes back to it.
Matching against code gives the same result.
-/
namespace GoSift.Pattern

/-- An element of a run: a wildcard for a stretch of a list, or a term, given by what it makes of a
node. -/
inductive Element (β : Type) where
  | stretch (name : Option String)
  | single (f : Node → β)

/-- The captures after a match, from those before it. -/
abbrev Fit := List Capture → Option (List Capture)

/-- What `rest` gives for the shortest stretch, `window` or longer, that `bind` takes and with which
`rest` succeeds. -/
def firstWindow {α β γ : Type} (bind : List α → Option β) (rest : β → List α → Option γ)
    (window : List α) : List α → Option γ
  | [] => (bind window).bind (rest · [])
  | x :: todo =>
    ((bind window).bind (rest · (x :: todo))).or (firstWindow bind rest (window ++ [x]) todo)

/-- Matches a list against the elements of a run. -/
def fitRun {α : Type} (list : List α → Node) (node : α → Node) :
    List (Element Fit) → List α → Fit
  | [], [], captures => some captures
  | [], _ :: _, _ => none
  | .stretch name :: es, xs, captures =>
    firstWindow (bindOpt? captures name <| list ·)
      (fun captures xs => fitRun list node es xs captures) [] xs
  | .single _ :: _, [], _ => none
  | .single f :: es, x :: xs, captures =>
    (f (node x) captures).bind fun captures => fitRun list node es xs captures

mutual

/-- Matches a part of a node against a term. -/
def Term.fit : Term → Part → Fit
  | .wild _ name, .one n => (bindOpt? · name n)
  | .wild .opt name, .absent empty => (bindOpt? · name empty)
  | .shape op value text args, .one n => fun captures =>
    (parts? op value text n).bind fun parts => Term.fitAll args parts captures
  | .run ts, .run (.exprs xs) => fitRun .exprs .expr (Term.fitEach ts) xs
  | .run ts, .run (.stmts ss) => fitRun .stmts .stmt (Term.fitEach ts) ss
  | .run ts, .run (.fields fs) => fitRun .fields .field (Term.fitEach ts) fs
  | _, _ => fun _ => none
termination_by structural t => t

/-- Matches parts against as many terms. -/
def Term.fitAll : List Term → List Part → Fit
  | [], [] => some
  | t :: ts, p :: ps => fun captures => (t.fit p captures).bind (Term.fitAll ts ps)
  | _, _ => fun _ => none
termination_by structural ts => ts

/-- The elements of a run. -/
def Term.fitEach : List Term → List (Element Fit)
  | [] => []
  | t :: ts =>
    (match t with
      | .wild .seq name => .stretch name
      | t => .single fun n => t.fit (.one n)) :: Term.fitEach ts
termination_by structural ts => ts

end

/-! ### Runs of code -/

/-- The result of a match that leaves `rest` of the code. -/
def outcome (rest : List Inst) : Option (List Capture) → Except Mismatch MatchState
  | some captures => .ok ⟨rest, captures⟩
  | none => .error .differs

section

variable {α : Type} (strings : List String) (list : List α → Node) (node : α → Node)
  (matcher : Node → MatchState → Except Mismatch MatchState)

/-- Code for the elements of a run, where `matcher` matches a node against the code of one. -/
inductive Coded : List (Element Fit) → List Inst → Prop where
  | nil : Coded [] []
  | stretch {named : Bool} {i : Inst} {text : String} {es code} (hop : i.op = .wildcard .seq named)
      (htext : i.text? strings = some text) (h : Coded es code) :
      Coded (.stretch (if named then some text else none) :: es) (i :: code)
  | single {f : Node → Fit} {i : Inst} {code es code'} (hclose : i.op ≠ .close)
      (hseq : ∀ named, i.op ≠ .wildcard .seq named)
      (hf : ∀ n captures rest,
        matcher n ⟨(i :: code) ++ rest, captures⟩ = outcome rest (f n captures))
      (h : Coded es code') : Coded (.single f :: es) ((i :: code) ++ code')

/-- The search for the elements of a run, with what happens if they do not match. -/
def settle (rest : List Inst) (otherwise : Except Mismatch (List α × MatchState)) :
    Option (List Capture) → Except Mismatch (List α × MatchState)
  | some captures => .ok ([], ⟨rest, captures⟩)
  | none => otherwise

variable {strings list node matcher} {es : List (Element Fit)} {code rest : List Inst}

/-- Restarts try the longer stretches. -/
theorem resume_pushRestart {name : Option String} {captures : List Capture}
    (hsearch : ∀ xs captures restarts,
      search strings list (fun x => matcher (node x)) true ⟨code, captures⟩ xs restarts =
        settle rest (resume strings list (fun x => matcher (node x)) true restarts)
          (fitRun list node es xs captures))
    (window todo : List α) (restarts : List (Restart α)) :
    (match bindOpt? captures name (list window) with
      | some captures' =>
        search strings list (fun x => matcher (node x)) true ⟨code, captures'⟩ todo
          (pushRestart name ⟨code, captures⟩ window todo restarts)
      | none =>
        resume strings list (fun x => matcher (node x)) true
          (pushRestart name ⟨code, captures⟩ window todo restarts)) =
      settle rest (resume strings list (fun x => matcher (node x)) true restarts)
        (firstWindow (bindOpt? captures name <| list ·)
          (fun captures xs => fitRun list node es xs captures) window todo) := by
  induction todo generalizing window with
  | nil =>
    cases h : bindOpt? captures name (list window) with
    | none => simp [firstWindow, h, settle, pushRestart]
    | some captures' => simp [firstWindow, h, pushRestart, hsearch]
  | cons x todo ih =>
    have hlater := ih (window ++ [x])
    rw [firstWindow]
    cases h : bindOpt? captures name (list window) with
    | none =>
      simp only [pushRestart, Option.bind_none, Option.none_or]
      rw [resume]
      exact hlater
    | some captures' =>
      simp only [pushRestart, hsearch, Option.bind_some]
      cases hfit : fitRun list node es (x :: todo) captures' with
      | some captures'' => simp [settle]
      | none =>
        simp only [settle, Option.none_or]
        rw [resume]
        exact hlater

/-- The search at a term whose code comes out as `f`. -/
theorem search_single {whole : Bool} {f : Node → Fit} {i : Inst} {code' : List Inst}
    (hclose : i.op ≠ .close) (hseq : ∀ named, i.op ≠ .wildcard .seq named)
    (hf : ∀ n captures rest, matcher n ⟨(i :: code) ++ rest, captures⟩ = outcome rest (f n captures))
    (captures : List Capture) (xs : List α) (restarts : List (Restart α)) :
    search strings list (fun x => matcher (node x)) whole ⟨(i :: code) ++ code', captures⟩ xs restarts =
      match xs with
      | [] => resume strings list (fun x => matcher (node x)) whole restarts
      | x :: xs =>
        match f (node x) captures with
        | none => resume strings list (fun x => matcher (node x)) whole restarts
        | some captures' =>
          search strings list (fun x => matcher (node x)) whole ⟨code', captures'⟩ xs restarts := by
  rw [List.cons_append, search_term hclose hseq]
  cases xs with
  | nil => rfl
  | cons x xs =>
    have hx := hf (node x) captures code'
    rw [List.cons_append] at hx
    simp only [hx]
    cases f (node x) captures with
    | none => rfl
    | some captures' => simp [outcome]

theorem Coded.search_eq (h : Coded strings matcher es code) (xs : List α)
    (captures : List Capture) (restarts : List (Restart α)) :
    search strings list (fun x => matcher (node x)) true ⟨code ++ .closing :: rest, captures⟩ xs
        restarts =
      settle rest (resume strings list (fun x => matcher (node x)) true restarts)
        (fitRun list node es xs captures) := by
  induction h generalizing xs captures restarts with
  | nil =>
    rw [List.nil_append, search_close rfl]
    cases xs <;> rfl
  | @stretch named i text es code hop htext h ih =>
    rw [List.cons_append, search_seq hop htext]
    exact resume_pushRestart ih [] xs restarts
  | @single f i code es code' hclose hseq hf h ih =>
    rw [List.append_assoc, search_single hclose hseq hf]
    cases xs with
    | nil => rfl
    | cons x xs =>
      simp only [fitRun]
      cases f (node x) captures with
      | none => rfl
      | some captures' => exact ih xs captures' restarts

theorem Coded.search_map (h : Coded strings matcher es code) (xs : List α)
    (captures : List Capture) :
    (search strings list (fun x => matcher (node x)) true ⟨code ++ .closing :: rest, captures⟩ xs
        []).map (·.2) =
      outcome rest (fitRun list node es xs captures) := by
  rw [h.search_eq, resume]
  cases fitRun list node es xs captures <;> rfl

end

/-- What the code of a wildcard is. -/
theorem Term.Spells.wild_inv {strings : List String} {slot : Slot} {name : Option String}
    {code : List Inst} (h : (Term.wild slot name).Spells strings code) :
    ∃ i named text, code = [i] ∧ i.op = .wildcard slot named ∧ i.text? strings = some text ∧
      name = if named then some text else none := by
  cases name with
  | none =>
    rw [Term.Spells] at h
    exact ⟨_, false, "", h, rfl, rfl, rfl⟩
  | some name =>
    rw [Term.Spells] at h
    obtain ⟨i, hi, rfl⟩ := h
    exact ⟨_, true, name, rfl, rfl, hi, rfl⟩

/-- The code of a term for one node neither closes a run nor begins like that of a list pattern. -/
theorem Term.Spells.exists_first {strings : List String} {t : Term} {code : List Inst}
    (h : t.Spells strings code) (hkind : t.kind = .one) :
    ∃ i rest, code = i :: rest ∧ i.op ≠ .close ∧ i.op ≠ .exprList ∧ i.op ≠ .stmtList := by
  cases t with
  | wild slot name =>
    obtain ⟨i, named, text, hcode, hop, -⟩ := h.wild_inv
    exact ⟨i, [], hcode, by simp [hop], by simp [hop], by simp [hop]⟩
  | shape op value text args =>
    obtain ⟨i, rest, hcode, hop, -⟩ := h
    refine ⟨_, rest, hcode, ?_, ?_, ?_⟩ <;>
    · rintro rfl
      cases hop
  | run => cases hkind

section

variable {strings : List String} {fuel : Nat} {n : Node} {i : Inst} {code rest : List Inst}
  {captures : List Capture} {slot : Slot} {named : Bool} {text : String}

theorem matchTerm_wildcard (hop : i.op = .wildcard slot named)
    (htext : i.text? strings = some text) :
    matchTerm strings (fuel + 1) n ⟨i :: code, captures⟩ =
      outcome code (bindOpt? captures (if named then some text else none) n) := by
  simp only [matchTerm, hop, htext]
  cases bindOpt? captures (if named then some text else none) n <;> rfl

theorem matchTerm_shape (hop : i.op.isShape) (htext : i.text? strings = some text) :
    matchTerm strings (fuel + 1) n ⟨i :: code, captures⟩ =
      match parts? i.op i.value text n with
      | none => .error .differs
      | some parts => parts.foldlM (matchPart strings (matchTerm strings fuel)) ⟨code, captures⟩ := by
  rw [matchTerm, htext]
  split
  · next h => cases h
  · next h _ => simp [h, Op.isShape] at hop
  · next h _ => cases h; rfl

theorem matchPart_absent_opt {node : Node → MatchState → Except Mismatch MatchState} {empty : Node}
    (hop : i.op = .wildcard .opt named) (htext : i.text? strings = some text) :
    matchPart strings node ⟨i :: code, captures⟩ (.absent empty) =
      outcome code (bindOpt? captures (if named then some text else none) empty) := by
  simp only [matchPart, hop, htext]
  cases bindOpt? captures (if named then some text else none) empty <;> rfl

theorem matchPart_absent_of_ne {node : Node → MatchState → Except Mismatch MatchState} {empty : Node}
    (hop : ∀ named, i.op ≠ .wildcard .opt named) (htext : i.text? strings = some text) :
    matchPart strings node ⟨i :: code, captures⟩ (.absent empty) = .error .differs := by
  rw [matchPart, htext]
  split
  · next h => cases h
  · next h _ => exact absurd h (hop _)
  · rfl

theorem outcome_bind {found : Option (List Capture)} {f : MatchState → Except Mismatch MatchState}
    {g : Fit} (h : ∀ captures, f ⟨rest, captures⟩ = outcome code (g captures)) :
    outcome rest found >>= f = outcome code (found.bind g) := by
  cases found with
  | none => rfl
  | some captures => exact h captures

end

mutual

/-- Matching against the code of a term is matching against the term. -/
theorem Term.matchPart_eq {strings : List String} (t : Term) {code : List Inst} {fuel : Nat}
    (h : t.Spells strings code) (hfuel : code.length ≤ fuel) (part : Part)
    (hkind : t.kind = part.kind) (captures : List Capture) (rest : List Inst) :
    matchPart strings (matchTerm strings fuel) ⟨code ++ rest, captures⟩ part =
      outcome rest (t.fit part captures) := by
  cases t with
  | wild slot name =>
    obtain ⟨i, named, text, rfl, hop, htext, rfl⟩ := h.wild_inv
    obtain ⟨fuel, rfl⟩ : ∃ k, fuel = k + 1 := ⟨fuel - 1, by simp at hfuel; omega⟩
    cases part with
    | one n => exact matchTerm_wildcard hop htext
    | absent empty =>
      cases slot with
      | opt => exact matchPart_absent_opt hop htext
      | single | seq => exact matchPart_absent_of_ne (by simp [hop]) htext
    | run list => cases hkind
  | shape op value text args =>
    obtain ⟨i, code, rfl, hop, hargs, htext, hspells⟩ := h
    obtain ⟨fuel, rfl⟩ : ∃ k, fuel = k + 1 := ⟨fuel - 1, by simp at hfuel; omega⟩
    cases part with
    | one n =>
      refine (matchTerm_shape hop htext).trans ?_
      rw [Term.fit]
      dsimp only
      cases hparts : parts? op value text n with
      | none => rfl
      | some parts =>
        exact Term.foldParts_eq args hspells (by simpa using hfuel) parts
          (hargs.trans (parts?_kinds hparts).symm) captures rest
    | absent empty => exact matchPart_absent_of_ne (by rintro named rfl; cases hop) htext
    | run list => cases hkind
  | run ts =>
    obtain ⟨front, rfl, hkinds, hspells⟩ := h
    have hcoded : Coded strings (matchTerm strings fuel) (Term.fitEach ts) front :=
      Term.coded_fitEach ts hspells hkinds (by simp at hfuel; omega)
    cases part with
    | one n | absent empty => cases hkind
    | run list =>
      rw [List.append_assoc]
      cases list with
      | exprs xs => exact hcoded.search_map xs captures
      | stmts ss => exact hcoded.search_map ss captures
      | fields fs => exact hcoded.search_map fs captures
      | expr | stmt | field => rfl

/-- The same for terms in a row. -/
theorem Term.foldParts_eq {strings : List String} (ts : List Term) {code : List Inst} {fuel : Nat}
    (h : Term.SpellsAll strings ts code) (hfuel : code.length ≤ fuel) (parts : List Part)
    (hkinds : ts.map Term.kind = parts.map Part.kind) (captures : List Capture)
    (rest : List Inst) :
    parts.foldlM (matchPart strings (matchTerm strings fuel)) ⟨code ++ rest, captures⟩ =
      outcome rest (Term.fitAll ts parts captures) := by
  cases ts with
  | nil =>
    obtain rfl : code = [] := h
    obtain rfl : parts = [] := by simpa using hkinds.symm
    rfl
  | cons t ts =>
    obtain ⟨front, back, rfl, ht, hts⟩ := h
    cases parts with
    | nil => cases hkinds
    | cons part parts =>
      obtain ⟨hkind, hkinds⟩ := List.cons_eq_cons.1 hkinds
      rw [List.length_append] at hfuel
      rw [List.foldlM_cons, List.append_assoc,
        t.matchPart_eq ht (by omega) part hkind captures (back ++ rest)]
      exact outcome_bind fun captures =>
        Term.foldParts_eq ts hts (by omega) parts hkinds captures rest

/-- The elements of a run have their terms' code. -/
theorem Term.coded_fitEach {strings : List String} (ts : List Term) {code : List Inst} {fuel : Nat}
    (h : Term.SpellsAll strings ts code) (hkinds : ∀ t ∈ ts, t.kind = .one)
    (hfuel : code.length ≤ fuel) :
    Coded strings (matchTerm strings fuel) (Term.fitEach ts) code := by
  cases ts with
  | nil =>
    obtain rfl : code = [] := h
    exact .nil
  | cons t ts =>
    obtain ⟨front, back, rfl, ht, hts⟩ := h
    rw [List.length_append] at hfuel
    have hback : Coded strings (matchTerm strings fuel) (Term.fitEach ts) back :=
      Term.coded_fitEach ts hts (fun t ht => hkinds t (.tail _ ht)) (by omega)
    have hfit (n : Node) := t.matchPart_eq ht (by omega : front.length ≤ fuel) (.one n)
      (hkinds t (.head _))
    cases t with
    | wild slot name =>
      obtain ⟨i, named, text, rfl, hop, htext, rfl⟩ := ht.wild_inv
      cases slot with
      | seq => exact .stretch hop htext hback
      | single | opt => exact .single (by simp [hop]) (by simp [hop]) hfit hback
    | shape op value text args =>
      obtain ⟨i, code, rfl, hop, -⟩ := ht
      exact .single (by rintro rfl; cases hop) (by rintro _ rfl; cases hop) hfit hback
    | run => cases hkinds _ (.head _)

end

end GoSift.Pattern
