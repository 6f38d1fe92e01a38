import GoSift.Proofs.Pattern.Fitting
import GoSift.Proofs.Pattern.Instance

/-!
When a part of a node fits a term, whatever is found by searching: names stand for nodes, and a
wildcard for a run stands for any stretch of a list. A match that succeeds fits. A part that fits is
matched if no wildcard is for a run, or if no name occurs twice.
-/
namespace GoSift.Pattern

/-- The parts of a node for an operation. Unless the reading is strict, also a signature without
results and a field without names are taken apart where the pattern has some. -/
def Reading.parts? (r : Reading) (op : Op) (value : Nat) (text : String) (n : Node) :
    Option (List Part) :=
  match op, n with
  | .funcType true, .expr (.funcType _ params []) =>
    if r.strict then none else some [.fields params, .fields []]
  | .multiField, .field (.mk _ [] type) => if r.strict then none else some [.exprs [], .expr type]
  | op, n => Pattern.parts? op value text n

def FitsRun {α : Type} (r : Reading) (list : List α → Node) (node : α → Node) :
    List (Element Prop) → List α → Prop
  | [], xs => xs = []
  | .stretch name :: es, xs =>
    ∃ front back, xs = front ++ back ∧ (∀ s ∈ name, r.stands s (list front)) ∧
      FitsRun r list node es back
  | .single P :: es, xs => ∃ y ys, xs = y :: ys ∧ P (node y) ∧ FitsRun r list node es ys

mutual

/-- Whether a part of a node fits a term. -/
def Term.Fits (r : Reading) : Term → Part → Prop
  | .wild _ name, .one n => ∀ s ∈ name, r.stands s n
  | .wild .opt name, .absent empty => ∀ s ∈ name, r.stands s empty
  | .shape op value text args, .one n =>
    ∃ parts, r.parts? op value text n = some parts ∧ Term.FitsAll r args parts
  | .run ts, .run (.exprs xs) => FitsRun r .exprs .expr (Term.fitsEach r ts) xs
  | .run ts, .run (.stmts ss) => FitsRun r .stmts .stmt (Term.fitsEach r ts) ss
  | .run ts, .run (.fields fs) => FitsRun r .fields .field (Term.fitsEach r ts) fs
  | _, _ => False
termination_by structural t => t

def Term.FitsAll (r : Reading) : List Term → List Part → Prop
  | [], ps => ps = []
  | t :: ts, ps => ∃ q qs, ps = q :: qs ∧ t.Fits r q ∧ Term.FitsAll r ts qs
termination_by structural ts => ts

def Term.fitsEach (r : Reading) : List Term → List (Element Prop)
  | [] => []
  | t :: ts =>
    (match t with
      | .wild .seq name => .stretch name
      | t => .single fun n => t.Fits r (.one n)) :: Term.fitsEach r ts
termination_by structural ts => ts

end

section

variable {r : Reading} {op : Op} {value : Nat} {text : String} {n : Node} {parts : List Part}

/-- A strict reading takes nodes apart as a match does. -/
theorem Reading.parts?_of_strict (hr : r.strict) :
    r.parts? op value text n = Pattern.parts? op value text n := by
  unfold Reading.parts?
  split
  · rw [if_pos hr]
    rfl
  · rw [if_pos hr]
    rfl
  · rfl

theorem Reading.suits_of_parts? (h : r.parts? op value text n = some parts) : op.suits n := by
  unfold Reading.parts? at h
  split at h
  · rfl
  · rfl
  · exact Pattern.suits_of_parts? h

/-- Whether a reading allows all that another does. -/
def Reading.Weaker (r r' : Reading) : Prop :=
  (r'.strict → r.strict) ∧ ∀ name n, r.stands name n → r'.stands name n

theorem Reading.Weaker.parts? {r' : Reading} (h : r.Weaker r')
    (hparts : r.parts? op value text n = some parts) : r'.parts? op value text n = some parts := by
  unfold Reading.parts? at hparts ⊢
  split at hparts
  · split at hparts
    · cases hparts
    · next hr => rwa [if_neg fun hr' => hr (h.1 hr')]
  · split at hparts
    · cases hparts
    · next hr => rwa [if_neg fun hr' => hr (h.1 hr')]
  · exact hparts

end

section

variable {r r' : Reading}

mutual

/-- What fits under a reading fits under a weaker one. -/
theorem Term.Fits.mono (h : r.Weaker r') (t : Term) (part : Part) (hfits : t.Fits r part) :
    t.Fits r' part := by
  cases t with
  | wild slot name =>
    cases part with
    | one n => exact fun s hs => h.2 s n (hfits s hs)
    | absent empty =>
      cases slot with
      | opt => exact fun s hs => h.2 s empty (hfits s hs)
      | single | seq => exact hfits.elim
    | run list => exact hfits.elim
  | shape op value text args =>
    cases part with
    | one n =>
      obtain ⟨parts, hparts, hargs⟩ := hfits
      exact ⟨parts, h.parts? hparts, Term.FitsAll.mono h args parts hargs⟩
    | absent empty | run list => exact hfits.elim
  | run ts =>
    cases part with
    | one n | absent empty => exact hfits.elim
    | run list =>
      cases list with
      | exprs xs => exact Term.fitsRun_mono h .exprs .expr ts xs hfits
      | stmts ss => exact Term.fitsRun_mono h .stmts .stmt ts ss hfits
      | fields fs => exact Term.fitsRun_mono h .fields .field ts fs hfits
      | expr | stmt | field => exact hfits.elim

theorem Term.FitsAll.mono (h : r.Weaker r') (ts : List Term) (parts : List Part)
    (hfits : Term.FitsAll r ts parts) : Term.FitsAll r' ts parts := by
  cases ts with
  | nil => exact hfits
  | cons t ts =>
    obtain ⟨part, parts, rfl, ht, hts⟩ := hfits
    exact ⟨part, parts, rfl, Term.Fits.mono h t part ht, Term.FitsAll.mono h ts parts hts⟩

theorem Term.fitsRun_mono (h : r.Weaker r') {α : Type} (list : List α → Node) (node : α → Node)
    (ts : List Term) (xs : List α) (hfits : FitsRun r list node (Term.fitsEach r ts) xs) :
    FitsRun r' list node (Term.fitsEach r' ts) xs := by
  cases ts with
  | nil => exact hfits
  | cons t ts =>
    have ht (n : Node) := Term.Fits.mono h t (.one n)
    have hts (ys : List α) := Term.fitsRun_mono h list node ts ys
    -- Each element of the run is a stretch or a single term for both readings.
    cases t with
    | wild slot name =>
      cases slot with
      | seq =>
        obtain ⟨front, back, rfl, hname, hback⟩ := hfits
        exact ⟨front, back, rfl, fun s hs => h.2 s _ (hname s hs), hts back hback⟩
      | single | opt =>
        obtain ⟨y, ys, rfl, hy, hys⟩ := hfits
        exact ⟨y, ys, rfl, ht _ hy, hts ys hys⟩
    | shape | run =>
      obtain ⟨y, ys, rfl, hy, hys⟩ := hfits
      exact ⟨y, ys, rfl, ht _ hy, hts ys hys⟩

end

end

/-! ### Matches that succeed -/

/-- The strict reading in which names stand for what they are bound to. -/
def captured (captures : List Capture) : Reading :=
  ⟨true, fun name n => ∃ c, captures.find? (·.name = name) = some c ∧ c.node.denotes n⟩

/-- Whether a match only adds captures, and has `P` hold of the reading by them and by more. -/
def Sound (f : Fit) (P : Reading → Prop) : Prop :=
  ∀ ⦃captures captures'⦄, f captures = some captures' →
    captures <+: captures' ∧ ∀ more, captures' <+: more → P (captured more)

theorem denotes_of_same_normal {c n : Node} (h : c.same (Capture.normal n)) : c.denotes n := by
  unfold Capture.normal at h
  split at h
  · next pos y =>
    cases c with
    | expr x => exact h
    | _ => cases h
  · next hn =>
    unfold Node.denotes
    split
    · exact absurd rfl (hn _ _)
    · exact h

theorem find?_extend {captures more : List Capture} {name : String} {c : Capture}
    (h : captures <+: more) (hc : captures.find? (·.name = name) = some c) :
    more.find? (·.name = name) = some c := by
  obtain ⟨tail, rfl⟩ := h
  rw [List.find?_append, hc]
  rfl

namespace Sound

variable {f g : Fit} {P Q : Reading → Prop}

theorem mono (hf : Sound f P) (h : ∀ r, P r → Q r) : Sound f Q := by
  intro captures captures' hc
  obtain ⟨hle, hP⟩ := hf hc
  exact ⟨hle, fun more hmore => h _ (hP more hmore)⟩

theorem pure (h : ∀ r, P r) : Sound some P := by
  intro captures captures' hc
  obtain rfl := Option.some.inj hc
  exact ⟨List.prefix_rfl, fun more _ => h _⟩

theorem bind? (name : String) (n : Node) :
    Sound (Pattern.bind? · name n) fun r => r.stands name n := by
  intro captures captures' h
  unfold Pattern.bind? at h
  dsimp only at h
  split at h
  · next c hc =>
    split at h
    · next hsame =>
      obtain rfl := Option.some.inj h
      exact ⟨List.prefix_rfl, fun more hmore =>
        ⟨c, find?_extend hmore hc, denotes_of_same_normal hsame⟩⟩
    · cases h
  · next hnone =>
    obtain rfl := Option.some.inj h
    refine ⟨List.prefix_append .., fun more hmore => ⟨⟨name, Capture.normal n⟩, ?_, ?_⟩⟩
    · exact find?_extend hmore (by simp [List.find?_append, hnone])
    · exact denotes_of_same_normal (Node.same_refl _)

theorem bindOpt? (name : Option String) (n : Node) :
    Sound (Pattern.bindOpt? · name n) fun r => ∀ s ∈ name, r.stands s n := by
  cases name with
  | none => exact pure (by simp)
  | some name => exact (bind? name n).mono (by simp)

theorem bind (hf : Sound f P) (hg : Sound g Q) :
    Sound (fun captures => (f captures).bind g) fun r => P r ∧ Q r := by
  intro captures captures'' h
  obtain ⟨captures', hf', hg'⟩ := Option.bind_eq_some_iff.1 h
  obtain ⟨hle, hP⟩ := hf hf'
  obtain ⟨hle', hQ⟩ := hg hg'
  exact ⟨hle.trans hle', fun more hmore => ⟨hP more (hle'.trans hmore), hQ more hmore⟩⟩

theorem none : Sound (fun _ => Option.none) P := by
  rintro captures captures' ⟨⟩

end Sound

theorem firstWindow_eq_some {α β γ : Type} {bind : List α → Option β}
    {rest : β → List α → Option γ} {window todo : List α} {r : γ}
    (h : firstWindow bind rest window todo = some r) :
    ∃ front back, todo = front ++ back ∧ (bind (window ++ front)).bind (rest · back) = some r := by
  induction todo generalizing window with
  | nil => exact ⟨[], [], rfl, by simpa [firstWindow] using h⟩
  | cons x todo ih =>
    rw [firstWindow, Option.or_eq_some_iff] at h
    obtain h | ⟨-, h⟩ := h
    · exact ⟨[], x :: todo, rfl, by simpa using h⟩
    · obtain ⟨front, back, rfl, hback⟩ := ih h
      exact ⟨x :: front, back, rfl, by simpa using hback⟩

section

variable {α : Type} {list : List α → Node} {node : α → Node} {es : List (Element Fit)}
  {Es : Reading → List (Element Prop)}

theorem Sound.stretch (name : Option String)
    (hes : ∀ xs, Sound (fitRun list node es xs) fun r => FitsRun r list node (Es r) xs)
    (xs : List α) :
    Sound (fitRun list node (.stretch name :: es) xs) fun r =>
      FitsRun r list node (.stretch name :: Es r) xs := by
  intro captures captures' h
  obtain ⟨front, back, rfl, hback⟩ := firstWindow_eq_some h
  obtain ⟨hle, hfits⟩ := ((bindOpt? name (list front)).bind (hes back)) hback
  exact ⟨hle, fun more hmore =>
    ⟨front, back, rfl, (hfits more hmore).1, (hfits more hmore).2⟩⟩

theorem Sound.single {f : Node → Fit} {P : Reading → Node → Prop}
    (hf : ∀ n, Sound (f n) fun r => P r n)
    (hes : ∀ xs, Sound (fitRun list node es xs) fun r => FitsRun r list node (Es r) xs)
    (xs : List α) :
    Sound (fitRun list node (.single f :: es) xs) fun r =>
      FitsRun r list node (.single (P r) :: Es r) xs := by
  cases xs with
  | nil => exact .none
  | cons x xs =>
    exact ((hf (node x)).bind (hes xs)).mono fun _ h => ⟨x, xs, rfl, h.1, h.2⟩

end

mutual

/-- What a match makes of a part fits. -/
theorem Term.sound (t : Term) (part : Part) : Sound (t.fit part) fun r => t.Fits r part := by
  cases t with
  | wild slot name =>
    cases part with
    | one n => exact .bindOpt? name n
    | absent empty =>
      cases slot with
      | opt => exact .bindOpt? name empty
      | single | seq => exact .none
    | run list => exact .none
  | shape op value text args =>
    cases part with
    | one n =>
      intro captures captures' h
      obtain ⟨parts, hparts, h⟩ := Option.bind_eq_some_iff.1 h
      obtain ⟨hle, hfits⟩ := Term.sound_all args parts h
      exact ⟨hle, fun more hmore =>
        ⟨parts, (Reading.parts?_of_strict rfl).trans hparts, hfits more hmore⟩⟩
    | absent empty | run list => exact .none
  | run ts =>
    cases part with
    | one n | absent empty => exact .none
    | run list =>
      cases list with
      | exprs xs => exact Term.sound_run .exprs .expr ts xs
      | stmts ss => exact Term.sound_run .stmts .stmt ts ss
      | fields fs => exact Term.sound_run .fields .field ts fs
      | expr | stmt | field => exact .none

theorem Term.sound_all (ts : List Term) (parts : List Part) :
    Sound (Term.fitAll ts parts) fun r => Term.FitsAll r ts parts := by
  cases ts with
  | nil =>
    cases parts with
    | nil =>
      exact Sound.pure fun _ => rfl
    | cons => exact .none
  | cons t ts =>
    cases parts with
    | nil => exact .none
    | cons part parts =>
      exact ((t.sound part).bind (Term.sound_all ts parts)).mono fun _ h =>
        ⟨part, parts, rfl, h.1, h.2⟩

theorem Term.sound_run {α : Type} (list : List α → Node) (node : α → Node) (ts : List Term)
    (xs : List α) :
    Sound (fitRun list node (Term.fitEach ts) xs) fun r =>
      FitsRun r list node (Term.fitsEach r ts) xs := by
  cases ts with
  | nil =>
    cases xs with
    | nil => exact Sound.pure fun _ => rfl
    | cons => exact .none
  | cons t ts =>
    have ht (n : Node) := t.sound (.one n)
    have hts (ys : List α) := Term.sound_run list node ts ys
    cases t with
    | wild slot name =>
      cases slot with
      | seq => exact .stretch name hts xs
      | single | opt => exact .single ht hts xs
    | shape | run => exact .single ht hts xs

end

end GoSift.Pattern
