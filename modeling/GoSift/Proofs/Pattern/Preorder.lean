import GoSift.Pattern.Listing
import GoSift.Proofs.Pattern.Fitting

/-!
Code as terms in pre-order. The arguments of an operation are all that a reader has to know: it keeps
the arguments that are still awaited, and the code of a term leaves none. Listings are read that way.
-/
namespace GoSift.Pattern

/-! ### Reading code -/

/-- Reads code where arguments are awaited, and gives those that are awaited behind it. An operation
is in place of its arguments, and a run is awaited until a closing instruction. -/
def awaited : List Arg → List Inst → Option (List Arg)
  | args, [] => some args
  | [], _ :: _ => none
  | .one :: args, i :: code =>
    if i.op = .close then none else awaited (i.op.args ++ args) code
  | .run :: args, i :: code =>
    if i.op = .close then awaited args code else awaited (i.op.args ++ .run :: args) code

section

variable {strings : List String} {i : Inst} {args : List Arg} {code rest : List Inst} {t : Term}

theorem awaited_one (hop : i.op ≠ .close) :
    awaited (.one :: args) (i :: code) = awaited (i.op.args ++ args) code := by
  rw [awaited, if_neg hop]

/-- In a run there can be one more term. -/
theorem awaited_run (hop : i.op ≠ .close) :
    awaited (.run :: args) (i :: code) = awaited (.one :: .run :: args) (i :: code) := by
  rw [awaited_one hop, awaited, if_neg hop]

theorem awaited_closing : awaited (.run :: args) (.closing :: code) = awaited args code := by
  rw [awaited]
  rfl

mutual

/-- The code of a term is read as the argument that the term is. -/
theorem Term.awaited_eq (t : Term) {code : List Inst} (h : t.Spells strings code)
    (args : List Arg) (rest : List Inst) :
    awaited (t.kind :: args) (code ++ rest) = awaited args rest := by
  cases t with
  | wild slot name =>
    obtain ⟨i, named, text, rfl, hop, -⟩ := h.wild_inv
    have hclose : i.op ≠ .close := by simp [hop]
    rw [Term.kind, List.singleton_append, awaited_one hclose, hop]
    · rfl
    · nofun
  | shape op value text ts =>
    obtain ⟨i, code, rfl, hop, hargs, -, hspells⟩ := h
    have hclose : op ≠ .close := by
      rintro rfl
      cases hop
    rw [List.cons_append]
    refine (awaited_one hclose).trans ?_
    rw [← hargs]
    exact Term.awaitedAll_eq ts hspells args rest
  | run ts =>
    obtain ⟨front, rfl, hkinds, hspells⟩ := h
    rw [Term.kind, List.append_assoc, Term.awaited_elements ts hspells hkinds]
    exact awaited_closing

theorem Term.awaitedAll_eq (ts : List Term) {code : List Inst}
    (h : Term.SpellsAll strings ts code) (args : List Arg) (rest : List Inst) :
    awaited (ts.map Term.kind ++ args) (code ++ rest) = awaited args rest := by
  cases ts with
  | nil =>
    obtain rfl : code = [] := h
    rfl
  | cons t ts =>
    obtain ⟨front, back, rfl, ht, hts⟩ := h
    rw [List.append_assoc, List.map_cons, List.cons_append, t.awaited_eq ht]
    exact Term.awaitedAll_eq ts hts args rest

/-- The elements of a run leave the run awaited. -/
theorem Term.awaited_elements (ts : List Term) {code : List Inst}
    (h : Term.SpellsAll strings ts code) (hkinds : ∀ t ∈ ts, t.kind = .one) (args : List Arg)
    (rest : List Inst) : awaited (.run :: args) (code ++ rest) = awaited (.run :: args) rest := by
  cases ts with
  | nil =>
    obtain rfl : code = [] := h
    rfl
  | cons t ts =>
    obtain ⟨front, back, rfl, ht, hts⟩ := h
    have hkind : t.kind = .one := hkinds t (.head _)
    have hread := t.awaited_eq ht (.run :: args) (back ++ rest)
    obtain ⟨i, front, rfl, hclose, -⟩ := ht.exists_first hkind
    rw [List.append_assoc, List.cons_append, awaited_run hclose, ← hkind, ← List.cons_append, hread]
    exact Term.awaited_elements ts hts (fun t ht => hkinds t (.tail _ ht)) args rest

end

end

/-! ### Listings -/

/-- The lines of an argument. -/
def argLines (fuel depth : Nat) : Arg → List Inst → Lines
  | .one => termLines fuel depth
  | .run => runLines fuel depth

/-- Adds the lines of one more argument. -/
def addLines (fuel depth : Nat) (lines : Lines) (arg : Arg) : Lines :=
  let more := argLines fuel depth arg lines.2
  (lines.1 ++ more.1, more.2)

/-- Lines for the instructions of some code, each of them once and in order, from a depth on. -/
structure Listed (depth : Nat) (code : List Inst) (lines : List (Nat × Inst)) : Prop where
  insts : lines.map (·.2) = code
  depth_le : ∀ line ∈ lines, depth ≤ line.1

section

variable {fuel depth : Nat} {i : Inst} {code code' rest : List Inst} {lines more : List (Nat × Inst)}

theorem Listed.nil : Listed depth [] [] :=
  ⟨rfl, nofun⟩

theorem Listed.append (h : Listed depth code lines) (h' : Listed depth code' more) :
    Listed depth (code ++ code') (lines ++ more) := by
  refine ⟨by rw [List.map_append, h.insts, h'.insts], fun line hline => ?_⟩
  obtain hline | hline := List.mem_append.1 hline
  · exact h.depth_le line hline
  · exact h'.depth_le line hline

theorem Listed.cons (h : Listed (depth + 1) code lines) :
    Listed depth (i :: code) ((depth, i) :: lines) := by
  refine ⟨by rw [List.map_cons, h.insts], fun line hline => ?_⟩
  cases hline with
  | head => exact Nat.le_refl depth
  | tail _ hline => exact Nat.le_of_succ_le (h.depth_le line hline)

theorem termLines_succ :
    termLines (fuel + 1) depth (i :: code) =
      i.op.args.foldl (addLines fuel (depth + 1)) ([(depth, i)], code) := by
  rw [termLines]
  congr 1
  funext lines arg
  cases arg <;> rfl

theorem runLines_closing :
    runLines (fuel + 1) depth (.closing :: code) = ([(depth, .closing)], code) := by
  rw [runLines]
  rfl

theorem runLines_cons (hop : i.op ≠ .close) :
    runLines (fuel + 1) depth (i :: code) =
      let first := termLines fuel depth (i :: code)
      let more := runLines fuel depth first.2
      (first.1 ++ more.1, more.2) := by
  rw [runLines, if_neg hop]

end

section

variable {strings : List String}

mutual

/-- The lines of a term are those of its code, and what is behind the code is left. -/
theorem Term.exists_lines (t : Term) {code : List Inst} (h : t.Spells strings code) {fuel : Nat}
    (hfuel : 2 * code.length ≤ fuel) (depth : Nat) (rest : List Inst) :
    ∃ lines, argLines fuel depth t.kind (code ++ rest) = (lines, rest) ∧
      Listed depth code lines := by
  cases t with
  | wild slot name =>
    obtain ⟨i, named, text, rfl, hop, -⟩ := h.wild_inv
    obtain ⟨fuel, rfl⟩ : ∃ k, fuel = k + 1 := ⟨fuel - 1, by simp at hfuel; omega⟩
    refine ⟨[(depth, i)], ?_, .cons .nil⟩
    change termLines (fuel + 1) depth (i :: rest) = _
    rw [termLines_succ, hop]
    rfl
  | shape op value text ts =>
    obtain ⟨i, code, rfl, hop, hargs, -, hspells⟩ := h
    obtain ⟨fuel, rfl⟩ : ∃ k, fuel = k + 1 := ⟨fuel - 1, by simp at hfuel; omega⟩
    obtain ⟨lines, hlines, hlisted⟩ := Term.exists_argLines ts hspells
      (by simp at hfuel; omega : 2 * code.length ≤ fuel) (depth + 1) [(depth, ⟨op, value, i⟩)] rest
    refine ⟨(depth, ⟨op, value, i⟩) :: lines, ?_, hlisted.cons⟩
    change termLines (fuel + 1) depth (⟨op, value, i⟩ :: (code ++ rest)) = _
    rw [termLines_succ, ← hargs, hlines]
    rfl
  | run ts =>
    obtain ⟨front, rfl, hkinds, hspells⟩ := h
    rw [List.append_assoc]
    exact Term.exists_runLines ts hspells hkinds (by simp at hfuel; omega) depth rest

/-- The lines of the arguments of an operation. -/
theorem Term.exists_argLines (ts : List Term) {code : List Inst}
    (h : Term.SpellsAll strings ts code) {fuel : Nat} (hfuel : 2 * code.length ≤ fuel) (depth : Nat)
    (front : List (Nat × Inst)) (rest : List Inst) :
    ∃ lines, (ts.map Term.kind).foldl (addLines fuel depth) (front, code ++ rest) =
      (front ++ lines, rest) ∧ Listed depth code lines := by
  cases ts with
  | nil =>
    obtain rfl : code = [] := h
    exact ⟨[], by rw [List.append_nil]; rfl, .nil⟩
  | cons t ts =>
    obtain ⟨code, code', rfl, ht, hts⟩ := h
    rw [List.length_append] at hfuel
    obtain ⟨lines, hlines, hlisted⟩ :=
      t.exists_lines ht (by omega : 2 * code.length ≤ fuel) depth (code' ++ rest)
    obtain ⟨more, hmore, hlisted'⟩ := Term.exists_argLines ts hts
      (by omega : 2 * code'.length ≤ fuel) depth (front ++ lines) rest
    refine ⟨lines ++ more, ?_, hlisted.append hlisted'⟩
    rw [List.map_cons, List.foldl_cons, addLines, List.append_assoc, hlines, hmore,
      List.append_assoc]

/-- The lines of a run, with the closing instruction. An element takes one step more than the code of
its term. -/
theorem Term.exists_runLines (ts : List Term) {code : List Inst}
    (h : Term.SpellsAll strings ts code) (hkinds : ∀ t ∈ ts, t.kind = .one) {fuel : Nat}
    (hfuel : 2 * code.length + 1 ≤ fuel) (depth : Nat) (rest : List Inst) :
    ∃ lines, runLines fuel depth (code ++ .closing :: rest) = (lines, rest) ∧
      Listed depth (code ++ [.closing]) lines := by
  obtain ⟨fuel, rfl⟩ : ∃ k, fuel = k + 1 := ⟨fuel - 1, by omega⟩
  cases ts with
  | nil =>
    obtain rfl : code = [] := h
    exact ⟨[(depth, .closing)], runLines_closing, .cons .nil⟩
  | cons t ts =>
    obtain ⟨code, code', rfl, ht, hts⟩ := h
    rw [List.length_append] at hfuel
    have hkind : t.kind = .one := hkinds t (.head _)
    obtain ⟨lines, hlines, hlisted⟩ :=
      t.exists_lines ht (by omega : 2 * code.length ≤ fuel) depth (code' ++ .closing :: rest)
    obtain ⟨i, code, rfl, hclose, -⟩ := ht.exists_first hkind
    rw [List.length_cons] at hfuel
    obtain ⟨more, hmore, hlisted'⟩ := Term.exists_runLines ts hts
      (fun t ht => hkinds t (.tail _ ht)) (by omega : 2 * code'.length + 1 ≤ fuel) depth rest
    have hfirst : termLines fuel depth (i :: (code ++ (code' ++ .closing :: rest))) =
        (lines, code' ++ .closing :: rest) := by
      rw [hkind] at hlines
      exact hlines
    refine ⟨lines ++ more, ?_, ?_⟩
    · rw [List.append_assoc, List.cons_append, runLines_cons hclose, hfirst]
      dsimp only
      rw [hmore]
    · rw [List.append_assoc]
      exact hlisted.append hlisted'

end

end

end GoSift.Pattern
