import GoSift.Pattern.Capture

/-!
Matching the elements of a list. A wildcard for a run takes no element at first; when the rest of the
run does not match, the search goes back to the last such wildcard that can take one more.
-/
namespace GoSift.Pattern

/-- A wildcard that can take more: the name it binds, the elements it has taken, the next one, those
behind it, and the state behind the wildcard. -/
structure Restart (α : Type) where
  name : Option String
  window : List α
  next : α
  left : List α
  state : MatchState

/-- An upper bound for the steps with `k` instructions and `n` elements ahead, restarts apart. -/
def effort : Nat → Nat → Nat
  | 0, n => n + 2
  | k + 1, n => (n + 2) * effort k n

def Restart.effort {α : Type} (r : Restart α) : Nat :=
  (r.left.length + 1) * (Pattern.effort r.state.code.length r.left.length + 1)

/-- An upper bound for the steps that restarts can lead to. -/
def totalEffort {α : Type} : List (Restart α) → Nat
  | [] => 0
  | r :: restarts => r.effort + totalEffort restarts

/-- The restarts after one more wildcard with the elements `todo` ahead. -/
def pushRestart {α : Type} (name : Option String) (state : MatchState) (window todo : List α)
    (restarts : List (Restart α)) : List (Restart α) :=
  match todo with
  | [] => restarts
  | x :: xs => ⟨name, window, x, xs, state⟩ :: restarts

theorem effort_succ (k n : Nat) : effort (k + 1) n = (n + 2) * effort k n := rfl

theorem lt_effort (k n : Nat) : n + 1 < effort k n := by
  induction k with
  | zero => simp [effort]
  | succ k ih =>
    rw [effort_succ, Nat.add_mul]
    omega

theorem effort_pos (k n : Nat) : 0 < effort k n :=
  Nat.lt_of_le_of_lt (Nat.zero_le _) (lt_effort k n)

theorem effort_le_succ (k n : Nat) : effort k n ≤ effort (k + 1) n := by
  rw [effort_succ, Nat.add_mul]
  omega

theorem effort_mono_left {k k' : Nat} (n : Nat) (h : k ≤ k') : effort k n ≤ effort k' n := by
  induction h with
  | refl => exact Nat.le_refl _
  | step _ ih => exact Nat.le_trans ih (effort_le_succ _ n)

theorem effort_lt_right (k : Nat) {n n' : Nat} (h : n < n') : effort k n < effort k n' := by
  induction k with
  | zero => simpa [effort] using h
  | succ k ih =>
    rw [effort_succ, effort_succ]
    exact Nat.mul_lt_mul_of_lt_of_le (by omega) (Nat.le_of_lt ih) (effort_pos k n')

theorem effort_mono_right (k : Nat) {n n' : Nat} (h : n ≤ n') : effort k n ≤ effort k n' := by
  rcases Nat.lt_or_eq_of_le h with h | rfl
  · exact Nat.le_of_lt (effort_lt_right k h)
  · exact Nat.le_refl _

theorem effort_lt {k k' n n' : Nat} (hk : k ≤ k') (hn : n < n') : effort k n < effort k' n' :=
  Nat.lt_of_lt_of_le (effort_lt_right k hn) (effort_mono_left n' hk)

/-- Passing a wildcard takes a step off, its restart included. -/
theorem effort_push {α : Type} (name : Option String) (s : MatchState) (window todo : List α)
    (restarts : List (Restart α)) :
    effort s.code.length todo.length + totalEffort (pushRestart name s window todo restarts)
      < effort (s.code.length + 1) todo.length + totalEffort restarts := by
  cases todo with
  | nil =>
    have h := effort_succ s.code.length 0
    have hp := effort_pos s.code.length 0
    simp only [pushRestart, List.length_nil]
    omega
  | cons x xs =>
    have h := effort_succ s.code.length (xs.length + 1)
    have hl := lt_effort s.code.length (xs.length + 1)
    have hm : effort s.code.length xs.length ≤ effort s.code.length (xs.length + 1) :=
      effort_mono_right _ (by omega)
    simp only [pushRestart, totalEffort, Restart.effort, List.length_cons]
    generalize effort s.code.length (xs.length + 1) = e at *
    generalize effort s.code.length xs.length = d at *
    have hmul : (xs.length + 1) * (d + 1) ≤ (xs.length + 1) * (e + 1) :=
      Nat.mul_le_mul_left _ (by omega)
    rw [Nat.mul_succ (xs.length + 1) e] at hmul
    rw [h, Nat.add_mul (xs.length + 1) 2 e]
    omega

theorem totalEffort_push_lt {α : Type} (name : Option String) (s : MatchState)
    (window todo : List α) (restarts : List (Restart α)) :
    totalEffort (pushRestart name s window todo restarts)
      < effort (s.code.length + 1) todo.length + totalEffort restarts :=
  Nat.lt_of_le_of_lt (Nat.le_add_left ..) (effort_push name s window todo restarts)

/-- Going back to a restart takes a step off, the restart it leaves included. -/
theorem effort_resume {α : Type} (r : Restart α) (s : MatchState) (window : List α)
    (restarts : List (Restart α)) (hs : s.code = r.state.code) :
    effort s.code.length r.left.length
        + totalEffort (pushRestart r.name r.state window r.left restarts)
      < totalEffort (r :: restarts) := by
  rw [hs]
  simp only [totalEffort]
  cases hl : r.left with
  | nil => simp [pushRestart, Restart.effort, hl]
  | cons y ys =>
    have hm : effort r.state.code.length ys.length ≤ effort r.state.code.length (ys.length + 1) :=
      effort_mono_right _ (by omega)
    have hmul : (ys.length + 1) * (effort r.state.code.length ys.length + 1)
        ≤ (ys.length + 1) * (effort r.state.code.length (ys.length + 1) + 1) :=
      Nat.mul_le_mul_left _ (by omega)
    simp only [pushRestart, totalEffort, Restart.effort, hl, List.length_cons]
    rw [show ys.length + 1 + 1 = (ys.length + 1) + 1 from rfl, Nat.add_mul (ys.length + 1) 1]
    omega

theorem totalEffort_resume_lt {α : Type} (r : Restart α) (window : List α)
    (restarts : List (Restart α)) :
    totalEffort (pushRestart r.name r.state window r.left restarts) < totalEffort (r :: restarts) :=
  Nat.lt_of_le_of_lt (Nat.le_add_left ..) (effort_resume r r.state window restarts rfl)

section

variable {α : Type} (strings : List String) (list : List α → Node)
  (node : α → MatchState → Except Mismatch MatchState) (whole : Bool)

mutual

/-- Matches code up to its closing instruction against the elements `todo`, all of them if `whole` is
set. Gives the elements left over. -/
def search (s : MatchState) (todo : List α) (restarts : List (Restart α)) :
    Except Mismatch (List α × MatchState) :=
  match s with
  | ⟨[], _⟩ => .error .stuck
  | ⟨i :: code, captures⟩ =>
    match i.op with
    | .close =>
      if !whole || todo.isEmpty then .ok (todo, ⟨code, captures⟩) else resume restarts
    | .wildcard .seq named =>
      match i.text? strings with
      | none => .error .stuck
      | some text =>
        let name := if named then some text else none
        let restarts' := pushRestart name ⟨code, captures⟩ [] todo restarts
        match bindOpt? captures name (list []) with
        | some captures' => search ⟨code, captures'⟩ todo restarts'
        | none => resume restarts'
    | _ =>
      match todo with
      | [] => resume restarts
      | x :: todo =>
        match node x ⟨i :: code, captures⟩ with
        | .ok s' =>
          if s'.code.length ≤ code.length then search s' todo restarts else .error .stuck
        | .error .differs => resume restarts
        | .error .stuck => .error .stuck
termination_by effort s.code.length todo.length + totalEffort restarts
decreasing_by
  · have := effort_pos (code.length + 1) todo.length
    simp only [List.length_cons]
    omega
  · exact effort_push name ⟨code, captures⟩ [] todo restarts
  · exact totalEffort_push_lt name ⟨code, captures⟩ [] todo restarts
  · have := effort_pos (code.length + 1) 0
    simp only [List.length_cons, List.length_nil]
    omega
  · rename_i h
    exact Nat.add_lt_add_right
      (effort_lt (Nat.le_succ_of_le h) (Nat.lt_succ_self todo.length)) _
  · have := effort_pos (code.length + 1) (todo.length + 1)
    simp only [List.length_cons]
    omega

/-- Lets the last wildcard that can take one more element do so. -/
def resume (restarts : List (Restart α)) : Except Mismatch (List α × MatchState) :=
  match restarts with
  | [] => .error .differs
  | r :: restarts =>
    let window := r.window ++ [r.next]
    let restarts' := pushRestart r.name r.state window r.left restarts
    match bindOpt? r.state.captures r.name (list window) with
    | some captures => search ⟨r.state.code, captures⟩ r.left restarts'
    | none => resume restarts'
termination_by totalEffort restarts
decreasing_by
  · exact effort_resume r ⟨r.state.code, captures⟩ window restarts rfl
  · exact totalEffort_resume_lt r window restarts

end

variable {strings list node whole} {i : Inst} {code : List Inst} {captures : List Capture}
  {todo : List α} {restarts : List (Restart α)}

theorem search_close (hop : i.op = .close) :
    search strings list node whole ⟨i :: code, captures⟩ todo restarts =
      if !whole || todo.isEmpty then .ok (todo, ⟨code, captures⟩)
      else resume strings list node whole restarts := by
  rw [search.eq_def]
  simp only [hop]

theorem search_seq {named : Bool} {text : String} (hop : i.op = .wildcard .seq named)
    (htext : i.text? strings = some text) :
    search strings list node whole ⟨i :: code, captures⟩ todo restarts =
      let name := if named then some text else none
      let restarts' := pushRestart name ⟨code, captures⟩ [] todo restarts
      match bindOpt? captures name (list []) with
      | some captures' => search strings list node whole ⟨code, captures'⟩ todo restarts'
      | none => resume strings list node whole restarts' := by
  rw [search.eq_def]
  simp only [hop, htext]

/-- At a term the next element is matched against it. -/
theorem search_term (hclose : i.op ≠ .close) (hseq : ∀ named, i.op ≠ .wildcard .seq named) :
    search strings list node whole ⟨i :: code, captures⟩ todo restarts =
      match todo with
      | [] => resume strings list node whole restarts
      | x :: todo =>
        match node x ⟨i :: code, captures⟩ with
        | .ok s' =>
          if s'.code.length ≤ code.length then search strings list node whole s' todo restarts
          else .error .stuck
        | .error .differs => resume strings list node whole restarts
        | .error .stuck => .error .stuck := by
  rw [search.eq_def]
  dsimp only
  split
  · exact absurd ‹_› hclose
  · exact absurd ‹_› (hseq _)
  · rfl

end

end GoSift.Pattern
