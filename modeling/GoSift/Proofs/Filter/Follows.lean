import GoSift.Proofs.Filter.Execution
import GoSift.Proofs.Filter.Semantics

/-!
How the machine follows a computation: it makes the same calls of natives, it comes to a state that
fits the result, and it goes on for long if the computation runs out of fuel. The rules take a
computation apart the way it is put together.
-/
namespace GoSift.Filter

namespace Run

variable {α β : Type}

/-- The result of a computation, if there is enough fuel, and all calls of natives behind it. -/
def result (m : Run α) (calls : List NativeCall) : Option α × List NativeCall :=
  m.run.run calls

theorem result_bind (m : Run α) (f : α → Run β) (calls : List NativeCall) :
    result (m >>= f) calls = match result m calls with
      | (some a, calls) => result (f a) calls
      | (none, calls) => (none, calls) := by
  change (match result m calls with
    | (a, calls) => (match a with | some a => f a | none => pure none : StateM _ _) calls) = _
  rcases result m calls with ⟨_ | a, calls'⟩ <;> rfl

end Run

/-- The machine follows a computation from a state. If there is a result, the machine comes to a state
that fits it; if there is none, the machine makes at least `n` steps. Either way the calls of natives
are those of the computation. -/
def Follows {α : Type} (r : Registry) (n : Nat) (s : State) (m : Run α) (fits : α → State → Prop) :
    Prop :=
  match m.result s.calls with
  | (some a, calls) => ∃ k s', s.Steps r k s' ∧ s'.calls = calls ∧ fits a s'
  | (none, calls) => ∃ k s', n ≤ k ∧ s.Steps r k s' ∧ s'.calls = calls

namespace Follows

variable {α β : Type} {r : Registry} {k n : Nat} {s s' : State} {m : Run α}
  {fits fits' : α → State → Prop} {fitsNext : β → State → Prop}

theorem of_some {a : α} {calls : List NativeCall} (h : Follows r n s m fits)
    (hm : m.result s.calls = (some a, calls)) :
    ∃ k s', s.Steps r k s' ∧ s'.calls = calls ∧ fits a s' := by
  rwa [Follows, hm] at h

theorem of_none {calls : List NativeCall} (h : Follows r n s m fits)
    (hm : m.result s.calls = (none, calls)) : ∃ k s', n ≤ k ∧ s.Steps r k s' ∧ s'.calls = calls := by
  rwa [Follows, hm] at h

theorem pure {a : α} (h : fits a s) : Follows r n s (pure a) fits :=
  ⟨0, s, rfl, rfl, h⟩

theorem failure : Follows r 0 s (failure : Run α) fits :=
  ⟨0, s, Nat.le_refl 0, rfl, rfl⟩

theorem steps (hs : s.Steps r k s') (hcalls : s'.calls = s.calls) (h : Follows r n s' m fits) :
    Follows r (n + k) s m fits := by
  unfold Follows at h ⊢
  rw [hcalls] at h
  generalize m.result s.calls = out at h ⊢
  obtain ⟨_ | a, calls⟩ := out
  · obtain ⟨j, s'', hj, hsteps, he⟩ := h
    exact ⟨k + j, s'', by omega, hs.trans hsteps, he⟩
  · obtain ⟨j, s'', hsteps, he, hfits⟩ := h
    exact ⟨k + j, s'', hs.trans hsteps, he, hfits⟩

theorem weaken (h : Follows r n s m fits) (hk : k ≤ n) (hfits : ∀ a s', fits a s' → fits' a s') :
    Follows r k s m fits' := by
  unfold Follows at h ⊢
  generalize m.result s.calls = out at h ⊢
  obtain ⟨_ | a, calls⟩ := out
  · obtain ⟨j, s', hj, hs, he⟩ := h
    exact ⟨j, s', Nat.le_trans hk hj, hs, he⟩
  · obtain ⟨j, s', hs, he, hf⟩ := h
    exact ⟨j, s', hs, he, hfits a s' hf⟩

theorem mono (h : Follows r n s m fits) (hfits : ∀ a s', fits a s' → fits' a s') :
    Follows r n s m fits' :=
  h.weaken (Nat.le_refl n) hfits

/-- A step that calls no native. -/
theorem step (hs : s.step r = .next s') (hcalls : s'.calls = s.calls) (h : Follows r n s' m fits) :
    Follows r n s m fits := by
  have hone : s.Steps r 1 s' := ⟨s', hs, rfl⟩
  exact (h.steps hone hcalls).weaken (Nat.le_add_right n 1) fun _ _ hf => hf

theorem bind {f : α → Run β} (h : Follows r n s m fits)
    (hf : ∀ a s', fits a s' → Follows r n s' (f a) fitsNext) : Follows r n s (m >>= f) fitsNext := by
  unfold Follows at h ⊢
  rw [Run.result_bind]
  generalize m.result s.calls = out at h ⊢
  obtain ⟨_ | a, calls⟩ := out
  · exact h
  · obtain ⟨k, s₁, hs, rfl, hfits⟩ := h
    have h' := hf a s₁ hfits
    unfold Follows at h'
    dsimp only at h' ⊢
    generalize (f a).result s₁.calls = out at h' ⊢
    obtain ⟨_ | b, calls⟩ := out
    · obtain ⟨j, s₂, hj, hs', he⟩ := h'
      exact ⟨k + j, s₂, by omega, hs.trans hs', he⟩
    · obtain ⟨j, s₂, hs', he, hfits'⟩ := h'
      exact ⟨k + j, s₂, hs.trans hs', he, hfits'⟩

/-- The machine goes on behind the computation. -/
theorem after (h : Follows r n s m fits)
    (hf : ∀ a s', fits a s' → Follows r n s' (Pure.pure a) fits') : Follows r n s m fits' := by
  have hbind := h.bind hf
  rwa [bind_pure] at hbind

/-- A computation whose value is only looked at. -/
theorem map {f : α → β} (h : Follows r n s m fits)
    (hf : ∀ a s', fits a s' → fitsNext (f a) s') :
    Follows r n s (do return f (← m)) fitsNext :=
  h.bind fun a s' ha => pure (hf a s' ha)

end Follows

end GoSift.Filter
