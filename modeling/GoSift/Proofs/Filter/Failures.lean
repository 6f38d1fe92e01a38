import GoSift.Proofs.Filter.Renaming
import GoSift.Proofs.Outcome
import GoSift.Proofs.Syntax.Placed

/-!
Where packages fail to compile. The errors are at the places of the functions: at the start of one, of a
field in its header, or of a node in its body.
-/
namespace GoSift.Filter

open Compiler

variable {S : Position → Prop} {e : FilterError} {r r' : Registry} {package : String} {decl : GoSift.Func}
  {decls : List GoSift.Func}

theorem paramTypes_error {fields : List Field} (h : ∀ f ∈ fields, S f.pos)
    (he : paramTypes fields = .error e) : S e.pos := by
  induction fields with
  | nil => cases he
  | cons f fields ih =>
    obtain ⟨hf, hfields⟩ := List.forall_mem_cons.mp h
    obtain ⟨pos, names, type⟩ := f
    rw [paramTypes] at he
    split at he
    · cases he
      exact hf
    · rcases except_bind_eq_error.mp he with he | ⟨_, -, he⟩
      · exact ih hfields he
      · cases he

theorem signatureOf_error (h : ∀ p ∈ decl.places, S p) (he : signatureOf decl = .error e) :
    S e.pos := by
  have hpos : S decl.pos := h _ List.mem_cons_self
  by_cases hrecv : decl.recv.isSome = true
  · rw [signatureOf, if_pos hrecv] at he
    cases he
    exact hpos
  · rw [signatureOf, if_neg hrecv] at he
    rcases except_bind_eq_error.mp he with he | ⟨_, -, he⟩
    · exact paramTypes_error (fun f hf => h _ (Func.pos_mem_places (.inl hf))) he
    · split at he
      · next pos names type hresults =>
        have hfield : S pos := by
          refine h _ (Func.pos_mem_places (f := .mk pos names type) (.inr ?_))
          rw [hresults]
          exact List.mem_cons_self
        by_cases hnames : 1 < names.length
        · rw [if_pos hnames] at he
          cases he
          exact hpos
        · rw [if_neg hnames] at he
          dsimp only at he
          split at he
          · cases he
            exact hfield
          · cases he
      · cases he
        exact hpos

theorem compileFunc_error (h : ∀ p ∈ decl.places, S p)
    (he : compileFunc r package decl = .error e) : S e.pos := by
  have hpos : S decl.pos := h _ List.mem_cons_self
  have hbody := Func.each_iff.mp
    (Node.each_at (fun p hp => h p (List.mem_cons_of_mem _ hp)) : decl.Each (Node.At S))
  rcases except_bind_eq_error.mp he with he | ⟨_, -, he⟩
  · exact signatureOf_error h he
  · cases hblock : decl.body.bind Stmt.blockStmts? with
    | none =>
      rw [hblock] at he
      cases he
      exact hpos
    | some body =>
      obtain ⟨s, hs, hstmts⟩ := Option.bind_eq_some_iff.mp hblock
      have hparts := (Stmt.each_iff.mp (hbody.2.2.2 s hs)).2
      cases s <;> cases hstmts
      rw [hblock] at he
      dsimp only at he
      split at he
      · cases he
        exact hpos
      · rcases except_bind_eq_error.mp he with he | ⟨_, -, he⟩
        · exact ((Context.Renames.refl _).stmtsCode_turns false body hparts).fails he
        · split at he
          · cases he
            exact hpos
          · cases he

theorem registerAll_error {make : Registry → GoSift.Func → Except FilterError Func}
    (h : ∀ decl ∈ decls, S decl.pos ∧ ∀ r e, make r decl = .error e → S e.pos)
    (he : registerAll package make r decls = (r', .error e)) : S e.pos := by
  induction decls generalizing r r' with
  | nil => cases he
  | cons decl decls ih =>
    obtain ⟨⟨hpos, hmake⟩, hrest⟩ := List.forall_mem_cons.mp h
    rw [registerAll] at he
    split at he
    · next hreg =>
      cases he
      unfold register at hreg
      split at hreg
      · next hfails =>
        cases hreg
        exact hmake _ _ hfails
      · split at hreg
        · cases hreg
        · cases hreg
          exact hpos
    · next r₁ _ _ =>
      cases hall : registerAll package make r₁ decls with
      | mk r₂ ids =>
        simp only [hall] at he
        cases ids with
        | error e' =>
          cases he
          exact ih hrest hall
        | ok ids => cases he

/-- A package that cannot be compiled has a flaw at one of the places of its functions. -/
theorem compilePackage_error (h : ∀ decl ∈ decls, ∀ p ∈ decl.places, S p)
    (he : compilePackage r package decls = (r', .error e)) : S e.pos := by
  have hpos : ∀ decl ∈ decls, S decl.pos := fun decl hd => h decl hd _ List.mem_cons_self
  unfold compilePackage at he
  dsimp only at he
  split at he
  · next hstubs =>
    cases he
    refine registerAll_error (fun decl hd => ⟨hpos decl hd, fun r e hstub => ?_⟩) hstubs
    rcases except_bind_eq_error.mp hstub with hsig | ⟨_, -, hsig⟩
    · exact signatureOf_error (h decl hd) hsig
    · cases hsig
  · exact registerAll_error (fun decl hd => ⟨hpos decl hd, fun _ _ => compileFunc_error (h decl hd)⟩) he

end GoSift.Filter
