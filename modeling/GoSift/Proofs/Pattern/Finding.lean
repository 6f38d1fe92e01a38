import GoSift.Proofs.Pattern.Fits

/-!
A part that fits a term is matched. The search never goes back into a run that it has matched, so this
takes one of two conditions: without wildcards for runs there is nothing to choose, and if no name
occurs twice, no choice can spoil a later one. Both are cases of one invariant of the captures and
the names that are still to come.
-/
namespace GoSift.Pattern

mutual

/-- The wildcards of a term in order. -/
def Term.wilds : Term → List (Slot × Option String)
  | .wild slot name => [(slot, name)]
  | .shape _ _ _ args => Term.wildsAll args
  | .run ts => Term.wildsAll ts
termination_by structural t => t

def Term.wildsAll : List Term → List (Slot × Option String)
  | [] => []
  | t :: ts => t.wilds ++ Term.wildsAll ts
termination_by structural ts => ts

end

/-- The names of wildcards. -/
def namesOf (wilds : List (Slot × Option String)) : List String :=
  wilds.filterMap (·.2)

/-- Whether no wildcard is for a run. -/
def RunFree (wilds : List (Slot × Option String)) : Prop :=
  ∀ w ∈ wilds, w.1 ≠ .seq

@[simp] theorem runFree_append {ws vs : List (Slot × Option String)} :
    RunFree (ws ++ vs) ↔ RunFree ws ∧ RunFree vs := by
  simp only [RunFree, List.mem_append]
  grind

section

variable (Inv : List String → List Capture → Prop) (stands : String → Node → Prop)

/-- Binding a name to what it stands for succeeds, and the invariant holds for the names that are
left. -/
def Binds : Prop :=
  ∀ ⦃name names captures n⦄, Inv (name :: names) captures → stands name n →
    ∃ captures', bind? captures name n = some captures' ∧ Inv names captures'

/-- Whatever a name is bound to, the invariant holds for the names that are left. -/
def Keeps : Prop :=
  ∀ ⦃name names captures captures' n⦄, Inv (name :: names) captures →
    bind? captures name n = some captures' → Inv names captures'

/-- A match that succeeds keeps the invariant. -/
def KeptBy (f : Fit) (wilds : List (Slot × Option String)) : Prop :=
  ∀ ⦃names captures captures'⦄, Inv (namesOf wilds ++ names) captures →
    f captures = some captures' → Inv names captures'

/-- A match succeeds and keeps the invariant. -/
def FoundBy (f : Fit) (wilds : List (Slot × Option String)) : Prop :=
  ∀ ⦃names captures⦄, Inv (namesOf wilds ++ names) captures →
    ∃ captures', f captures = some captures' ∧ Inv names captures'

end

section

variable {Inv : List String → List Capture → Prop} {r : Reading}
  {f g : Fit} {ws vs : List (Slot × Option String)} {slot : Slot} {name : Option String} {n : Node}

theorem KeptBy.pure : KeptBy Inv some [] := by
  rintro names captures _ hinv ⟨⟩
  exact hinv

theorem KeptBy.none : KeptBy Inv (fun _ => Option.none) ws := by
  rintro names captures captures' - ⟨⟩

theorem KeptBy.bind (hf : KeptBy Inv f ws) (hg : KeptBy Inv g vs) :
    KeptBy Inv (fun captures => (f captures).bind g) (ws ++ vs) := by
  intro names captures captures'' hinv h
  obtain ⟨captures', hf', hg'⟩ := Option.bind_eq_some_iff.1 h
  rw [namesOf, List.filterMap_append, List.append_assoc] at hinv
  exact hg (hf hinv hf') hg'

theorem Keeps.bindOpt? (hkeeps : Keeps Inv) : KeptBy Inv (bindOpt? · name n) [(slot, name)] := by
  intro names captures captures' hinv h
  cases name with
  | none =>
    obtain rfl := Option.some.inj h
    exact hinv
  | some name => exact hkeeps hinv h

theorem FoundBy.pure : FoundBy Inv some [] :=
  fun _ captures hinv => ⟨captures, rfl, hinv⟩

theorem FoundBy.bind (hf : FoundBy Inv f ws) (hg : FoundBy Inv g vs) :
    FoundBy Inv (fun captures => (f captures).bind g) (ws ++ vs) := by
  intro names captures hinv
  rw [namesOf, List.filterMap_append, List.append_assoc] at hinv
  obtain ⟨captures', hf', hinv'⟩ := hf hinv
  obtain ⟨captures'', hg', hinv''⟩ := hg hinv'
  exact ⟨captures'', by simp [hf', hg'], hinv''⟩

theorem Binds.bindOpt? (hbinds : Binds Inv r.stands) (h : ∀ s ∈ name, r.stands s n) :
    FoundBy Inv (bindOpt? · name n) [(slot, name)] := by
  intro names captures hinv
  cases name with
  | none => exact ⟨captures, rfl, hinv⟩
  | some name => exact hbinds hinv (h name rfl)

theorem firstWindow_isSome {α β γ : Type} {bind : List α → Option β}
    {rest : β → List α → Option γ} {window front back : List α} {r : γ}
    (h : (bind (window ++ front)).bind (rest · back) = some r) :
    ∃ r', firstWindow bind rest window (front ++ back) = some r' := by
  induction front generalizing window with
  | nil =>
    rw [List.append_nil] at h
    cases back with
    | nil => exact ⟨r, h⟩
    | cons x back => exact ⟨r, by simp [firstWindow, h]⟩
  | cons x front ih =>
    obtain ⟨r', hr'⟩ := @ih (window ++ [x]) (by simpa using h)
    rw [List.cons_append, firstWindow, hr']
    cases (bind window).bind (rest · (x :: (front ++ back))) with
    | none => exact ⟨r', rfl⟩
    | some r'' => exact ⟨r'', rfl⟩

/-! ### Runs -/

variable {α : Type} {list : List α → Node} {node : α → Node} {es : List (Element Fit)}
  {Es : List (Element Prop)}

theorem KeptBy.stretch (hkeeps : Keeps Inv) (hes : ∀ xs, KeptBy Inv (fitRun list node es xs) vs)
    (xs : List α) : KeptBy Inv (fitRun list node (.stretch name :: es) xs) ((slot, name) :: vs) := by
  intro names captures captures' hinv h
  obtain ⟨front, back, rfl, hback⟩ := firstWindow_eq_some h
  exact (KeptBy.bind hkeeps.bindOpt? (hes back)) hinv hback

theorem KeptBy.single {f : Node → Fit} (hf : ∀ n, KeptBy Inv (f n) ws)
    (hes : ∀ xs, KeptBy Inv (fitRun list node es xs) vs) (xs : List α) :
    KeptBy Inv (fitRun list node (.single f :: es) xs) (ws ++ vs) := by
  cases xs with
  | nil => exact .none
  | cons x xs => exact (hf (node x)).bind (hes xs)

theorem FoundBy.stretch (hbinds : Binds Inv r.stands) (hkeeps : Keeps Inv)
    (hkept : ∀ xs, KeptBy Inv (fitRun list node es xs) vs)
    (hes : ∀ xs, FitsRun r list node Es xs → FoundBy Inv (fitRun list node es xs) vs)
    {xs : List α} (h : FitsRun r list node (.stretch name :: Es) xs) :
    FoundBy Inv (fitRun list node (.stretch name :: es) xs) ((slot, name) :: vs) := by
  intro names captures hinv
  obtain ⟨front, back, rfl, hname, hback⟩ := h
  have hfirst : FoundBy Inv (bindOpt? · name (list front)) [(slot, name)] :=
    hbinds.bindOpt? hname
  obtain ⟨captures', hsome, -⟩ := (hfirst.bind (hes back hback)) hinv
  -- The search may stop at a shorter stretch, which is as good.
  obtain ⟨found, hfound⟩ :
      ∃ found, fitRun list node (.stretch name :: es) (front ++ back) captures = some found :=
    firstWindow_isSome hsome
  exact ⟨found, hfound, KeptBy.stretch hkeeps hkept _ hinv hfound⟩

theorem FoundBy.single {f : Node → Fit} {P : Node → Prop} (hf : ∀ n, P n → FoundBy Inv (f n) ws)
    (hes : ∀ xs, FitsRun r list node Es xs → FoundBy Inv (fitRun list node es xs) vs)
    {xs : List α} (h : FitsRun r list node (.single P :: Es) xs) :
    FoundBy Inv (fitRun list node (.single f :: es) xs) (ws ++ vs) := by
  obtain ⟨y, ys, rfl, hy, hys⟩ := h
  exact (hf (node y) hy).bind (hes ys hys)

end

section

variable {Inv : List String → List Capture → Prop} {r : Reading}

mutual

theorem Term.kept (hkeeps : Keeps Inv) (t : Term) (part : Part) :
    KeptBy Inv (t.fit part) t.wilds := by
  cases t with
  | wild slot name =>
    cases part with
    | one n => exact hkeeps.bindOpt?
    | absent empty =>
      cases slot with
      | opt => exact hkeeps.bindOpt?
      | single | seq => exact .none
    | run list => exact .none
  | shape op value text args =>
    cases part with
    | one n =>
      intro names captures captures' hinv h
      obtain ⟨parts, -, h⟩ := Option.bind_eq_some_iff.1 h
      exact Term.kept_all hkeeps args parts hinv h
    | absent empty | run list => exact .none
  | run ts =>
    cases part with
    | one n | absent empty => exact .none
    | run list =>
      cases list with
      | exprs xs => exact Term.kept_run hkeeps .exprs .expr ts xs
      | stmts ss => exact Term.kept_run hkeeps .stmts .stmt ts ss
      | fields fs => exact Term.kept_run hkeeps .fields .field ts fs
      | expr | stmt | field => exact .none

theorem Term.kept_all (hkeeps : Keeps Inv) (ts : List Term) (parts : List Part) :
    KeptBy Inv (Term.fitAll ts parts) (Term.wildsAll ts) := by
  cases ts with
  | nil =>
    cases parts with
    | nil => exact .pure
    | cons => exact .none
  | cons t ts =>
    cases parts with
    | nil => exact .none
    | cons part parts => exact (t.kept hkeeps part).bind (Term.kept_all hkeeps ts parts)

theorem Term.kept_run (hkeeps : Keeps Inv) {α : Type} (list : List α → Node) (node : α → Node)
    (ts : List Term) (xs : List α) :
    KeptBy Inv (fitRun list node (Term.fitEach ts) xs) (Term.wildsAll ts) := by
  cases ts with
  | nil =>
    cases xs with
    | nil => exact .pure
    | cons => exact .none
  | cons t ts =>
    have ht (n : Node) := t.kept hkeeps (.one n)
    have hts (ys : List α) := Term.kept_run hkeeps list node ts ys
    cases t with
    | wild slot name =>
      cases slot with
      | seq => exact .stretch hkeeps hts xs
      | single | opt => exact .single ht hts xs
    | shape | run => exact .single ht hts xs

end

mutual

/-- A part that fits a term is matched. -/
theorem Term.found (hr : r.strict) (hbinds : Binds Inv r.stands) (t : Term) (hruns : Keeps Inv ∨ RunFree t.wilds)
    {part : Part} (h : t.Fits r part) : FoundBy Inv (t.fit part) t.wilds := by
  cases t with
  | wild slot name =>
    cases part with
    | one n => exact hbinds.bindOpt? h
    | absent empty =>
      cases slot with
      | opt => exact hbinds.bindOpt? h
      | single | seq => exact h.elim
    | run list => exact h.elim
  | shape op value text args =>
    cases part with
    | one n =>
      obtain ⟨parts, hparts, hargs⟩ := h
      rw [Reading.parts?_of_strict hr] at hparts
      simp only [Term.fit, hparts, Option.bind_some, Term.wilds]
      exact Term.found_all hr hbinds args hruns hargs
    | absent empty | run list => exact h.elim
  | run ts =>
    cases part with
    | one n | absent empty => exact h.elim
    | run list =>
      cases list with
      | exprs xs => exact Term.found_run hr hbinds .exprs .expr ts hruns h
      | stmts ss => exact Term.found_run hr hbinds .stmts .stmt ts hruns h
      | fields fs => exact Term.found_run hr hbinds .fields .field ts hruns h
      | expr | stmt | field => exact h.elim

theorem Term.found_all (hr : r.strict) (hbinds : Binds Inv r.stands) (ts : List Term)
    (hruns : Keeps Inv ∨ RunFree (Term.wildsAll ts)) {parts : List Part}
    (h : Term.FitsAll r ts parts) :
    FoundBy Inv (Term.fitAll ts parts) (Term.wildsAll ts) := by
  cases ts with
  | nil =>
    obtain rfl : parts = [] := h
    exact .pure
  | cons t ts =>
    obtain ⟨part, parts, rfl, ht, hts⟩ := h
    rw [Term.wildsAll, runFree_append] at hruns
    exact (t.found hr hbinds (hruns.imp_right And.left) ht).bind
      (Term.found_all hr hbinds ts (hruns.imp_right And.right) hts)

theorem Term.found_run (hr : r.strict) (hbinds : Binds Inv r.stands) {α : Type} (list : List α → Node)
    (node : α → Node) (ts : List Term) (hruns : Keeps Inv ∨ RunFree (Term.wildsAll ts))
    {xs : List α} (h : FitsRun r list node (Term.fitsEach r ts) xs) :
    FoundBy Inv (fitRun list node (Term.fitEach ts) xs) (Term.wildsAll ts) := by
  cases ts with
  | nil =>
    obtain rfl : xs = [] := h
    exact .pure
  | cons t ts =>
    rw [Term.wildsAll, runFree_append] at hruns
    have ht (n : Node) (hn : t.Fits r (.one n)) :=
      t.found hr hbinds (hruns.imp_right And.left) hn
    have hts (ys : List α) (hys : FitsRun r list node (Term.fitsEach r ts) ys) :=
      Term.found_run hr hbinds list node ts (hruns.imp_right And.right) hys
    cases t with
    | wild slot name =>
      cases slot with
      | seq =>
        have hkeeps : Keeps Inv := hruns.resolve_right fun hfree => hfree.1 _ (.head _) rfl
        exact .stretch hbinds hkeeps (Term.kept_run hkeeps list node ts) hts h
      | single | opt => exact .single ht hts h
    | shape | run => exact .single ht hts h

end

end

/-! ### The two invariants -/

/-- Whether names are bound to what an assignment says. -/
def Agrees (a : String → Option Node) (captures : List Capture) : Prop :=
  ∀ ⦃name c⦄, captures.find? (·.name = name) = some c →
    ∃ d, a name = some d ∧ (Capture.normal d).same c.node

/-- Whether names differ and are not bound yet. -/
def Fresh (names : List String) (captures : List Capture) : Prop :=
  names.Nodup ∧ ∀ name ∈ names, captures.find? (·.name = name) = none

theorem bind?_of_find?_eq_none {captures : List Capture} {name : String} {n : Node}
    (h : captures.find? (·.name = name) = none) :
    bind? captures name n = some (captures ++ [⟨name, Capture.normal n⟩]) := by
  simp [bind?, h]

theorem Fresh.tail {name : String} {names : List String} {captures : List Capture} {n : Node}
    (h : Fresh (name :: names) captures) :
    ∃ captures', bind? captures name n = some captures' ∧ Fresh names captures' := by
  obtain ⟨hnodup, hfree⟩ := h
  obtain ⟨hname, hnames⟩ := List.nodup_cons.1 hnodup
  refine ⟨_, bind?_of_find?_eq_none (hfree name (.head _)), hnames, fun name' hmem => ?_⟩
  have hne : name ≠ name' := fun h => hname (h ▸ hmem)
  simp [List.find?_append, hfree name' (.tail _ hmem), hne]

end GoSift.Pattern
