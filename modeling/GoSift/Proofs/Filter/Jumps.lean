import GoSift.Proofs.Filter.Operand

/-!
Jump targets. Every jump of compiled code leads to the start of one of its instructions or to its end.
-/
namespace GoSift.Filter

open Compiler

/-- The places at which the instructions of some code start, and the place behind it. -/
def Code.starts : Nat → Code → List Nat
  | pc, [] => [pc]
  | pc, i :: code => pc :: starts (pc + i.size) code

/-- The closed jumps of some code lead to places with a property. -/
def Code.JumpsTo (P : Nat → Prop) : Nat → Code → Prop
  | _, [] => True
  | pc, i :: code =>
    (∀ op offset, i = .jump op offset → ∃ t : Nat, (t : Int) = pc + offset ∧ P t) ∧
      JumpsTo P (pc + i.size) code

namespace Code

variable {P Q : Nat → Prop} {pc t : Nat} {code rest : Code}

attribute [local simp] starts JumpsTo

theorem start_mem_starts (pc : Nat) (code : Code) : pc ∈ code.starts pc := by
  cases code <;> simp

theorem mem_starts_append :
    t ∈ starts pc (code ++ rest) ↔ t ∈ code.starts pc ∨ t ∈ rest.starts (pc + code.size) := by
  induction code generalizing pc with
  | nil =>
    have := start_mem_starts pc rest
    simp only [List.nil_append, starts, List.mem_singleton, size_nil, Nat.add_zero]
    grind
  | cons i code ih => simp only [List.cons_append, starts, List.mem_cons, ih, size_cons, or_assoc, Nat.add_assoc]

theorem stop_mem_starts (pc : Nat) (code : Code) : pc + code.size ∈ code.starts pc := by
  have hend : pc + code.size ∈ starts pc (code ++ []) := by
    rw [mem_starts_append]
    simp
  simpa using hend

theorem starts_closed {kind : Instr} (hk : kind.size = 3) (behind pc : Nat) (code : Code) :
    (code.closed kind behind).starts pc = code.starts pc := by
  induction code generalizing pc with
  | nil => rfl
  | cons i code ih =>
    simp only [closed, starts, ih]
    split
    · next h => rw [h, hk]; rfl
    · rfl

@[simp] theorem jumpsTo_nil : JumpsTo P pc [] := trivial

@[simp] theorem jumpsTo_append :
    JumpsTo P pc (code ++ rest) ↔ code.JumpsTo P pc ∧ rest.JumpsTo P (pc + code.size) := by
  induction code generalizing pc with
  | nil => simp
  | cons i code ih => simp [ih, and_assoc, Nat.add_assoc]

theorem JumpsTo.mono (h : code.JumpsTo P pc) (hpq : ∀ t, P t → Q t) : code.JumpsTo Q pc := by
  induction code generalizing pc with
  | nil => trivial
  | cons i code ih =>
    refine ⟨?_, ih h.2⟩
    intro op offset he
    obtain ⟨t, ht, hp⟩ := h.1 op offset he
    exact ⟨t, ht, hpq t hp⟩

/-- Code without closed jumps. -/
theorem jumpsTo_of_no_jump (h : ∀ i ∈ code, ∀ op offset, i ≠ .jump op offset) :
    code.JumpsTo P pc := by
  induction code generalizing pc with
  | nil => trivial
  | cons i code ih =>
    obtain ⟨hi, hcode⟩ := List.forall_mem_cons.mp h
    exact ⟨fun op offset he => (hi op offset he).elim, ih hcode⟩

theorem jumpsTo_jump {op : Opcode} {offset : Int} (ht : (t : Int) = pc + offset) (hp : P t) :
    JumpsTo P pc [.jump op offset] := by
  refine ⟨?_, trivial⟩
  intro op' offset' he
  cases he
  exact ⟨t, ht, hp⟩

theorem JumpsTo.closed {kind : Instr} {behind : Nat} (hk : kind.size = 3) (h : code.JumpsTo P pc)
    (hp : P (pc + code.size + behind)) : (code.closed kind behind).JumpsTo P pc := by
  induction code generalizing pc with
  | nil => trivial
  | cons i code ih =>
    rw [Code.closed]
    have hrest := @ih (pc + i.size) h.2 (by rwa [size_cons, ← Nat.add_assoc] at hp)
    split
    · next he =>
      rw [he, hk] at hrest
      refine ⟨?_, hrest⟩
      intro op offset hj
      cases hj
      exact ⟨_, rfl, by rwa [← Nat.add_assoc]⟩
    · exact ⟨h.1, hrest⟩

end Code

variable {ctx : Context} {sc sc' : Scope}

/-- The closed jumps of some code lead to starts of its instructions or to its end. -/
def Code.Inside (code : Code) : Prop :=
  ∀ pc, code.JumpsTo (· ∈ code.starts pc) pc

theorem Code.Inside.of_no_jump {code : Code} (h : ∀ i ∈ code, ∀ op offset, i ≠ .jump op offset) :
    code.Inside :=
  fun _ => jumpsTo_of_no_jump h

theorem Code.Inside.append {code rest : Code} (h : code.Inside) (h' : rest.Inside) :
    Code.Inside (code ++ rest) := by
  intro pc
  rw [jumpsTo_append]
  constructor
  · exact (h pc).mono fun t ht => mem_starts_append.mpr (Or.inl ht)
  · exact (h' _).mono fun t ht => mem_starts_append.mpr (Or.inr ht)

/-- A jump between two parts of the code. -/
theorem Code.Inside.jump {code rest : Code} {op : Opcode} {offset : Int} (h : code.Inside)
    (h' : rest.Inside)
    (ht : ∀ pc, ∃ t ∈ starts pc (code ++ [.jump op offset] ++ rest),
      (t : Int) = (pc + code.size : Nat) + offset) :
    Code.Inside (code ++ [.jump op offset] ++ rest) := by
  intro pc
  obtain ⟨t, hmem, ht⟩ := ht pc
  rw [jumpsTo_append, jumpsTo_append]
  refine ⟨⟨(h pc).mono ?_, jumpsTo_jump ht hmem⟩, (h' _).mono ?_⟩
  · exact fun t ht => mem_starts_append.mpr (Or.inl (mem_starts_append.mpr (Or.inl ht)))
  · exact fun t ht => mem_starts_append.mpr (Or.inr ht)

/-- A jump to the end of the code. -/
theorem Code.Inside.jumpToEnd {code rest : Code} (h : code.Inside) (h' : rest.Inside) (op : Opcode) :
    Code.Inside (code ++ [.jump op (rest.size + 3 : Nat)] ++ rest) := by
  refine h.jump h' fun pc => ⟨_, stop_mem_starts pc _, ?_⟩
  simp only [size_append, size_cons, size_nil, Instr.size]
  omega

theorem Instr.Calls.ne_jump {r : Registry} {i : Instr} (h : i.Calls r) (op : Opcode) (offset : Int) :
    i ≠ .jump op offset := by
  rintro rfl
  exact h

theorem Emits.inside {ph : Phrase} {code : Code} {ts : List Ty} (h : Emits ctx sc ph code ts sc') :
    code.Inside := by
  induction h with
  | param _ | var _ _ | lit _ _ | const _ _ => exact .of_no_jump (by simp)
  | noBound | noArgs => exact .of_no_jump (by simp)
  | paren _ ih | bound _ ih => exact ih
  | not _ ih | neg _ ih => exact ih.append (.of_no_jump (by simp))
  | @logical _ _ _ _ op _ _ left right hop hx hy hr ihx ihy =>
    have hdup : Code.Inside [.plain .dup] := .of_no_jump (by simp)
    have hpop : Code.Inside [.plain .pop] := .of_no_jump (by simp)
    have hend := (ihx.append hdup).jumpToEnd (hpop.append ihy)
      (if op = .logicalAnd then .jumpFalse else .jumpTrue)
    have hsize : Code.size ([.plain .pop] ++ right) + 3 = right.size + 4 := by
      simp only [Code.size_append, Code.size_cons, Code.size_nil, Instr.size]
      omega
    rw [hsize] at hend
    simpa only [List.append_assoc, List.cons_append, List.nil_append] using hend
  | nilTest _ _ _ _ ih => exact ih.append (.of_no_jump (by simp [nilInstr]))
  | binary _ hx hy ho ihx ihy => exact (ihx.append ihy).append (.of_no_jump (by simp))
  | call hf hx ih => exact ih.append (.of_no_jump (by simpa using (direct?_calls hf).ne_jump))
  | method hf hx hm ha ihx iha =>
    exact (ihx.append iha).append (.of_no_jump (by simpa using (method?_calls hm).ne_jump))
  | @slice _ _ _ _ _ _ low high _ _ _ _ _ _ _ _ _ ihx ihl ihh =>
    refine ((ihx.append ihl).append ihh).append (.of_no_jump ?_)
    cases low <;> cases high <;> simp [sliceInstrs]
  | arg hx _ hxs ihx ihxs => exact ihx.append ihxs

theorem Stores.inside {x : Expr} {t : Ty} {define : Bool} {code : Code}
    (h : Stores ctx sc x t define code sc') : code.Inside := by
  cases h <;> exact .of_no_jump (by simp)

theorem starts_loopBody (pc : Nat) (body post : Code) :
    (loopBody body post).starts pc = body.starts pc := by
  rw [loopBody, Code.starts_closed rfl, Code.starts_closed rfl]

theorem EmitsTest.jumpsTo {P : Nat → Prop} {pc : Nat} {test : Option Expr} {code : Option Code}
    {body post : Code} (h : EmitsTest ctx sc test code sc')
    (hp : ∀ t ∈ (loopFront code body post).starts pc, P t)
    (hend : P (pc + (loopFront code body post).size + body.size + post.size + 3)) :
    (loopFront code body post).JumpsTo P pc := by
  cases h with
  | none => trivial
  | some hx =>
    rw [loopFront, Code.jumpsTo_append]
    refine ⟨(hx.inside pc).mono fun t ht => hp t (Code.mem_starts_append.mpr (Or.inl ht)), ?_⟩
    refine Code.jumpsTo_jump ?_ hend
    simp only [loopFront, Code.size_append, Code.size_cons, Code.size_nil, Instr.size]
    omega

/-- The jumps of a loop lead to its parts and behind it. -/
theorem loop_inside {test : Option Expr} {code : Option Code} {body post : Code}
    (ht : EmitsTest ctx sc test code sc') (hb : body.Inside) (hp : post.Inside) :
    Code.Inside (loopFront code body post ++ loopBody body post ++ post ++
      [loopBack code body post]) := by
  intro pc
  have hparts (t : Nat) (ht : t ∈ (loopFront code body post).starts pc ∨
      t ∈ body.starts (pc + (loopFront code body post).size) ∨
      t ∈ post.starts (pc + (loopFront code body post).size + body.size)) :
      t ∈ Code.starts pc (loopFront code body post ++ loopBody body post ++ post ++
        [loopBack code body post]) := by
    simp only [Code.mem_starts_append, starts_loopBody, Code.size_append, size_loopBody,
      ← Nat.add_assoc, or_assoc]
    exact ht.imp_right (.imp_right .inl)
  have hstop := Code.stop_mem_starts pc (loopFront code body post ++ loopBody body post ++ post ++
    [loopBack code body post])
  simp only [Code.size_append, size_loopBody, Code.size_cons, Code.size_nil, ← Nat.add_assoc,
    Nat.add_zero] at hstop
  simp only [Code.jumpsTo_append, Code.size_append, size_loopBody, ← Nat.add_assoc]
  refine ⟨⟨⟨ht.jumpsTo (fun t h => hparts t (.inl h)) hstop, ?_⟩,
    (hp _).mono fun t h => hparts t (.inr (.inr h))⟩, Code.jumpsTo_jump (t := pc) ?_ ?_⟩
  · refine (((hb _).mono fun t h => hparts t (.inr (.inl h))).closed rfl ?_).closed rfl ?_
    · exact hparts _ (.inr (.inr (Code.start_mem_starts _ _)))
    · rw [size_closed rfl]
      exact hstop
  · omega
  · exact Code.start_mem_starts _ _

theorem EmitsStmt.inside {l : Bool} {c : Clause} {code : Code} (h : EmitsStmt ctx l sc c code sc') :
    code.Inside := by
  induction h with
  | call hx => exact hx.inside.append (.of_no_jump (by simp))
  | retConst => exact .of_no_jump (by simp [boolReturn])
  | ret hx _ => exact hx.inside.append (.of_no_jump (by simp))
  | assign hop hx _ hs => exact hx.inside.append hs.inside
  | assignTwo hop hx hs₂ hs₁ => exact (hx.inside.append hs₂.inside).append hs₁.inside
  | update _ hl hx ho _ =>
    exact ((Code.Inside.of_no_jump (by simp)).append hx.inside).append (.of_no_jump (by simp))
  | step => exact .of_no_jump (by simp)
  | block _ ih | given _ ih => exact ih
  | cond hi ht hb _ ihi ihb => exact (ihi.append ht.inside).jumpToEnd ihb .jumpFalse
  | @condElse _ _ _ _ _ _ _ _ _ _ _ ic tc bc oc hi ht hb ho _ _ ihi ihb iho =>
    have hall : Code.Inside ((ic ++ tc) ++ [.jump .jumpFalse (bc.size + 6 : Nat)]
        ++ (bc ++ [.jump .jump (oc.size + 3 : Nat)] ++ oc)) := by
      refine (ihi.append ht.inside).jump (ihb.jumpToEnd iho .jump) fun pc => ?_
      refine ⟨pc + Code.size (ic ++ tc) + 3 + bc.size + 3, ?_, by omega⟩
      refine Code.mem_starts_append.mpr (Or.inr (Code.mem_starts_append.mpr (Or.inr ?_)))
      simp only [Code.size_append, Code.size_cons, Code.size_nil, Instr.size, ← Nat.add_assoc]
      exact Code.start_mem_starts _ _
    simpa only [List.append_assoc] using hall
  | loop hi ht hb hp _ _ _ ihi ihb ihp => exact ihi.append (loop_inside ht ihb ihp)
  | leave | again | empty | absent | nil => exact .of_no_jump (by simp)
  | cons _ _ ih ihs => exact ih.append ihs

end GoSift.Filter
