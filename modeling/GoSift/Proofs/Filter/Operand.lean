import GoSift.Proofs.Filter.Layout

/-!
Operands. What an instruction of compiled code refers to is there: a parameter, a local, a constant or
a function with that number. The scope of the compiler only grows, so this holds at the end too.
-/
namespace GoSift.Filter

open Compiler

/-- There are no more constants and locals than an operand can number, and the locals have different
names. -/
structure Scope.WellFormed (sc : Scope) : Prop where
  constants : sc.constants.length ≤ 256
  locals : sc.locals.length ≤ maxLocals
  distinct : (sc.locals.map Prod.fst).Nodup

/-- The constants and locals of one scope stand at the front of those of another, which is well formed
if the first is. -/
structure Scope.Grows (sc sc' : Scope) : Prop where
  constants : sc.constants <+: sc'.constants
  locals : sc.locals <+: sc'.locals
  wellFormed : sc.WellFormed → sc'.WellFormed

namespace Scope

variable {sc sc₁ sc' : Scope}

theorem MoreConstants.refl (sc : Scope) : sc.MoreConstants sc :=
  ⟨List.prefix_refl _, id, rfl⟩

theorem MoreConstants.trans (h : sc.MoreConstants sc₁) (h' : sc₁.MoreConstants sc') :
    sc.MoreConstants sc' :=
  ⟨h.constants.trans h'.constants, h'.bounded ∘ h.bounded, h'.locals.trans h.locals⟩

theorem MoreConstants.scope_grows (h : sc.MoreConstants sc') : sc.Grows sc' where
  constants := h.constants
  locals := h.locals ▸ List.prefix_refl _
  wellFormed hw := ⟨h.bounded hw.constants, h.locals ▸ hw.locals, h.locals ▸ hw.distinct⟩

theorem Grows.refl (sc : Scope) : sc.Grows sc :=
  ⟨List.prefix_refl _, List.prefix_refl _, id⟩

theorem Grows.trans (h : sc.Grows sc₁) (h' : sc₁.Grows sc') : sc.Grows sc' :=
  ⟨h.constants.trans h'.constants, h.locals.trans h'.locals, h'.wellFormed ∘ h.wellFormed⟩

end Scope

theorem slot?_eq_some {name : String} {vars : List (String × Ty)} {i : Nat} {t : Ty}
    (h : slot? name vars = some (i, t)) : vars[i]? = some (name, t) := by
  obtain ⟨⟨⟨n, u⟩, j⟩, hf, he⟩ := Option.map_eq_some_iff.mp h
  cases he
  have hn : n = name := by simpa using List.find?_some hf
  have hm := List.mem_zipIdx_iff_getElem?.mp (List.mem_of_find?_eq_some hf)
  exact hn ▸ hm

theorem slot?_eq_none {name : String} {vars : List (String × Ty)} :
    slot? name vars = none ↔ name ∉ vars.map Prod.fst := by
  rw [slot?, Option.map_eq_none_iff, List.find?_eq_none]
  constructor
  · intro h hm
    obtain ⟨v, hv, rfl⟩ := List.mem_map.mp hm
    obtain ⟨i, hi⟩ := List.mem_iff_getElem?.mp hv
    exact h (v, i) (List.mem_zipIdx_iff_getElem?.mpr hi) (by simp)
  · rintro h ⟨v, i⟩ hv he
    simp only [decide_eq_true_eq] at he
    exact h (he ▸ List.mem_map_of_mem (List.fst_mem_of_mem_zipIdx hv))

theorem lt_length_of_getElem? {α : Type} {xs : List α} {i : Nat} {x : α} (h : xs[i]? = some x) :
    i < xs.length :=
  (List.getElem?_eq_some_iff.mp h).1

theorem getElem?_extend {α : Type} {xs ys : List α} {i : Nat} {x : α} (h : xs <+: ys)
    (hx : xs[i]? = some x) : ys[i]? = some x := by
  obtain ⟨zs, rfl⟩ := h
  rw [List.getElem?_append_left (lt_length_of_getElem? hx), hx]

theorem paramSlot?_eq_some {ctx : Context} {name : String} {i : Nat} {t : Ty}
    (h : paramSlot? ctx name = some (i, t)) : ctx.params[i]? = some (name, t) := by
  obtain ⟨⟨⟨n, u⟩, j⟩, hf, he⟩ := Option.map_eq_some_iff.mp h
  cases he
  have hn : n = name := by simpa using List.find?_some hf
  have hm := List.mem_reverse.mp (List.mem_of_find?_eq_some hf)
  exact hn ▸ List.mem_zipIdx_iff_getElem?.mp hm

theorem paramSlot?_lt {ctx : Context} {name : String} {i : Nat} {t : Ty}
    (h : paramSlot? ctx name = some (i, t)) : i < ctx.params.length :=
  lt_length_of_getElem? (paramSlot?_eq_some h)

/-- What the operand of an instruction refers to is there. There may be open jumps in a loop. -/
def Instr.Refers (r : Registry) (params locals constants : Nat) (inLoop : Bool) : Instr → Prop
  | plain op => op.width = 1
  | indexed .pushParam i => i < params
  | indexed .pushConst i => i < constants
  | indexed op i => op ∈ [.pushLocal, .setLocal, .incLocal, .decLocal] ∧ i < locals
  | numbered .call id => id < r.funcs.size
  | numbered .callNative id => id < r.natives.size
  | numbered _ _ => False
  | jump op offset => op ∈ [.jump, .jumpFalse, .jumpTrue] ∧ Filter.InRange offset
  | leave | repeat_ => inLoop

variable {ctx : Context} {sc sc' : Scope}

theorem Emits.moreConstants {ph : Phrase} {code : Code} {ts : List Ty}
    (h : Emits ctx sc ph code ts sc') : sc.MoreConstants sc' := by
  induction h with
  | lit _ hi => exact hi.toMoreConstants
  | logical _ _ _ _ ihx ihy => exact ihx.trans ihy
  | binary _ _ _ _ ihx ihy => exact ihx.trans ihy
  | method _ _ _ _ ihx iha => exact ihx.trans iha
  | slice _ _ _ ihx ihl ihh => exact (ihx.trans ihl).trans ihh
  | arg _ _ _ ihx ihxs => exact ihx.trans ihxs
  | param | var | const | noBound | noArgs => exact .refl _
  | paren _ ih | not _ ih | neg _ ih | nilTest _ _ _ _ ih | call _ _ ih | bound _ ih => exact ih

theorem EmitsTest.moreConstants {x : Option Expr} {code : Option Code}
    (h : EmitsTest ctx sc x code sc') : sc.MoreConstants sc' := by
  cases h with
  | none => exact .refl _
  | some hx => exact hx.moreConstants

theorem Emits.grows {ph : Phrase} {code : Code} {ts : List Ty} (h : Emits ctx sc ph code ts sc') :
    sc.Grows sc' :=
  h.moreConstants.scope_grows

theorem EmitsTest.grows {x : Option Expr} {code : Option Code} (h : EmitsTest ctx sc x code sc') :
    sc.Grows sc' :=
  h.moreConstants.scope_grows

theorem Stores.grows {x : Expr} {t : Ty} {define : Bool} {code : Code}
    (h : Stores ctx sc x t define code sc') : sc.Grows sc' := by
  cases h with
  | discard | assign => exact .refl _
  | declare hn hv hl =>
    refine ⟨List.prefix_refl _, List.prefix_append _ _, fun hw => ⟨hw.constants, ?_, ?_⟩⟩
    · simp only [List.length_append, List.length_singleton]
      omega
    · simp only [Context.isVar, Bool.or_eq_false_iff, Option.isSome_eq_false_iff,
        Option.isNone_iff_eq_none, slot?_eq_none] at hv
      simp only [List.map_append, List.map_cons, List.map_nil]
      exact List.nodup_append.mpr ⟨hw.distinct, by simp, by grind⟩

theorem EmitsStmt.grows {l : Bool} {c : Clause} {code : Code} (h : EmitsStmt ctx l sc c code sc') :
    sc.Grows sc' := by
  induction h with
  | call hx | ret hx _ | update _ _ hx _ _ => exact hx.grows
  | assign _ hx _ hs => exact hx.grows.trans hs.grows
  | assignTwo _ hx hs₂ hs₁ => exact (hx.grows.trans hs₂.grows).trans hs₁.grows
  | cond _ ht _ _ ihi ihb => exact (ihi.trans ht.grows).trans ihb
  | condElse _ ht _ _ _ _ ihi ihb iho => exact ((ihi.trans ht.grows).trans ihb).trans iho
  | loop _ ht _ _ _ _ _ ihi ihb ihp => exact ((ihi.trans ht.grows).trans ihb).trans ihp
  | cons _ _ ih ihs => exact ih.trans ihs
  | block _ ih | given _ ih => exact ih
  | retConst | step | leave | again | empty | absent | nil => exact .refl _

theorem Instr.Refers.mono {r : Registry} {params locals locals' constants constants' : Nat} {l : Bool}
    {i : Instr} (h : i.Refers r params locals constants l) (hl : locals ≤ locals')
    (hc : constants ≤ constants') : i.Refers r params locals' constants' l := by
  cases i with
  | indexed op n => cases op <;> simp only [Refers] at h ⊢ <;> grind
  | numbered op id => cases op <;> exact h
  | _ => exact h

theorem Instr.Refers.closed {r : Registry} {params locals constants : Nat} {l l' : Bool} {i : Instr}
    (h : i.Refers r params locals constants l) (hl : i ≠ .leave) (hr : i ≠ .repeat_) :
    i.Refers r params locals constants l' := by
  cases i with
  | indexed op n => cases op <;> exact h
  | numbered op id => cases op <;> exact h
  | leave => exact (hl rfl).elim
  | repeat_ => exact (hr rfl).elim
  | _ => exact h

/-- The operands of some code refer to things of a context and a scope. -/
def Code.Refers (ctx : Context) (l : Bool) (sc : Scope) (code : Code) : Prop :=
  ∀ i ∈ code, i.Refers ctx.registry ctx.params.length sc.locals.length sc.constants.length l

namespace Code.Refers

variable {l : Bool}

theorem mono {code : Code} (h : code.Refers ctx l sc) (hg : sc.Grows sc') : code.Refers ctx l sc' :=
  fun i hi => (h i hi).mono hg.locals.length_le hg.constants.length_le

@[simp] theorem nil : Code.Refers ctx l sc [] := by
  simp [Code.Refers]

@[simp] theorem cons_iff {i : Instr} {code : Code} :
    Code.Refers ctx l sc (i :: code) ↔
      i.Refers ctx.registry ctx.params.length sc.locals.length sc.constants.length l ∧
        code.Refers ctx l sc := by
  simp [Code.Refers]

@[simp] theorem append_iff {code rest : Code} :
    Code.Refers ctx l sc (code ++ rest) ↔ code.Refers ctx l sc ∧ rest.Refers ctx l sc := by
  simp only [Code.Refers, List.mem_append]
  grind

end Code.Refers

/-- The named constants are pushed by operations that look at nothing but the stack. -/
theorem constant?_onStack {name : String} {op : Opcode} {t : Ty} (h : constant? name = some (op, t)) :
    op.onStack?.isSome := by
  unfold constant? at h
  split at h <;> cases h <;> rfl

theorem binaryOpcode?_onStack {op : BinaryOp} {t result : Ty} {opcode : Opcode}
    (h : binaryOpcode? op t = some (opcode, result)) : opcode.onStack?.isSome := by
  unfold binaryOpcode? at h
  split at h <;> cases h <;> rfl

theorem Opcode.width_of_onStack {op : Opcode} (h : op.onStack?.isSome) : op.width = 1 := by
  cases op <;> first | rfl | cases h

theorem Table.get?_of_lookup? {α : Type} {t : Table α} {key : Key} {id : Nat} {a : α}
    (h : t.lookup? key = some (id, a)) : t.get? id = some a := by
  simp only [lookup?, Option.bind_eq_some_iff, Option.map_eq_some_iff, Prod.mk.injEq] at h
  obtain ⟨_, -, _, hget, rfl, rfl⟩ := h
  exact hget

theorem Table.lookup?_lt {α : Type} {t : Table α} {key : Key} {id : Nat} {a : α}
    (h : t.lookup? key = some (id, a)) : id < t.size :=
  (Array.getElem?_eq_some_iff.mp (get?_of_lookup? h)).1

/-- An instruction that calls something that is there. -/
def Instr.Calls (r : Registry) : Instr → Prop
  | plain op => op ∈ [.stringLen, .callSelf]
  | numbered .call id => id < r.funcs.size
  | numbered .callNative id => id < r.natives.size
  | _ => False

theorem plainCallee?_calls {name : String} {instr : Instr} {sig : Signature}
    (h : plainCallee? ctx name = some (instr, sig)) : instr.Calls ctx.registry := by
  unfold plainCallee? at h
  split at h
  · cases h
    simp [Instr.Calls]
  · split at h
    · next hf =>
      cases h
      exact Table.lookup?_lt hf
    · obtain ⟨⟨id, f⟩, hn, he⟩ := Option.map_eq_some_iff.mp h
      cases he
      exact Table.lookup?_lt hn

theorem qualifiedCallee?_calls {qualifier name : String} {instr : Instr} {sig : Signature}
    (h : qualifiedCallee? ctx qualifier name = some (instr, sig)) : instr.Calls ctx.registry := by
  unfold qualifiedCallee? at h
  split at h
  · next hn =>
    cases h
    exact Table.lookup?_lt hn
  · obtain ⟨⟨id, f⟩, hf, he⟩ := Option.map_eq_some_iff.mp h
    cases he
    exact Table.lookup?_lt hf

theorem direct?_calls {locals : List (String × Ty)} {fn : Expr} {instr : Instr} {sig : Signature}
    (h : ctx.direct? locals fn = some (instr, sig)) : instr.Calls ctx.registry := by
  unfold Context.direct? at h
  split at h
  · split at h
    · cases h
      simp [Instr.Calls]
    · exact plainCallee?_calls h
  · split at h
    · cases h
    · obtain ⟨name, -, hq⟩ := Option.bind_eq_some_iff.mp h
      exact qualifiedCallee?_calls hq
  · cases h

theorem method?_calls {t : Ty} {name : String} {instr : Instr} {sig : Signature}
    (h : method? ctx t name = some (instr, sig)) : instr.Calls ctx.registry := by
  obtain ⟨⟨id, f⟩, hn, he⟩ := Option.map_eq_some_iff.mp h
  cases he
  exact Table.lookup?_lt hn

theorem Instr.Calls.refers {l : Bool} {i : Instr} (h : i.Calls ctx.registry) :
    Code.Refers ctx l sc [i] := by
  rw [Code.Refers.cons_iff]
  refine ⟨?_, .nil⟩
  cases i with
  | plain op =>
    simp only [Calls, List.mem_cons, List.not_mem_nil, or_false] at h
    rcases h with rfl | rfl <;> rfl
  | numbered op id => cases op <;> exact h
  | _ => exact h.elim

theorem Emits.refers {l : Bool} {ph : Phrase} {code : Code} {ts : List Ty}
    (h : Emits ctx sc ph code ts sc') : code.Refers ctx l sc' := by
  induction h with
  | param hp => simpa [Instr.Refers] using paramSlot?_lt hp
  | var _ hl => simpa [Instr.Refers] using lt_length_of_getElem? (slot?_eq_some hl)
  | const _ hc => simpa [Instr.Refers] using Opcode.width_of_onStack (constant?_onStack hc)
  | lit _ hi => simpa [Instr.Refers] using lt_length_of_getElem? hi.value
  | paren _ ih => exact ih
  | not _ ih | neg _ ih => simpa [Instr.Refers, Opcode.width] using ih
  | logical _ hx hy hr ihx ihy =>
    have ihx := ihx.mono hy.grows
    simp only [Code.Refers.append_iff, Code.Refers.cons_iff]
    refine ⟨⟨ihx, rfl, ⟨?_, hr⟩, rfl, .nil⟩, ihy⟩
    split <;> simp
  | nilTest _ _ _ _ ih =>
    simp only [Code.Refers.append_iff, Code.Refers.cons_iff, nilInstr]
    refine ⟨ih, ?_, .nil⟩
    split <;> rfl
  | binary _ hx hy ho ihx ihy =>
    have ihx := ihx.mono hy.grows
    simp only [Code.Refers.append_iff, Code.Refers.cons_iff]
    exact ⟨⟨ihx, ihy⟩, Opcode.width_of_onStack (binaryOpcode?_onStack ho), .nil⟩
  | call hf hx ih => exact Code.Refers.append_iff.mpr ⟨ih, (direct?_calls hf).refers⟩
  | method hf hx hm ha ihx iha =>
    have ihx := ihx.mono ha.grows
    exact Code.Refers.append_iff.mpr ⟨Code.Refers.append_iff.mpr ⟨ihx, iha⟩, (method?_calls hm).refers⟩
  | @slice _ _ _ _ _ _ low high _ _ _ _ _ _ hx hl hh ihx ihl ihh =>
    have ihl := ihl.mono hh.grows
    have ihx := ihx.mono (hl.moreConstants.trans hh.moreConstants).scope_grows
    simp only [Code.Refers.append_iff]
    refine ⟨⟨⟨ihx, ihl⟩, ihh⟩, ?_⟩
    cases low <;> cases high <;> simp [sliceInstrs, Instr.Refers, Opcode.width]
  | noBound => exact .nil
  | bound _ ih => exact ih
  | noArgs => exact .nil
  | arg hx _ hxs ihx ihxs =>
    exact Code.Refers.append_iff.mpr ⟨ihx.mono hxs.grows, ihxs⟩

theorem EmitsTest.refers {l : Bool} {x : Option Expr} {code : Option Code}
    (h : EmitsTest ctx sc x code sc') : Code.Refers ctx l sc' (code.getD []) := by
  cases h with
  | none => exact .nil
  | some hx => exact hx.refers

theorem Stores.refers {l : Bool} {x : Expr} {t : Ty} {define : Bool} {code : Code}
    (h : Stores ctx sc x t define code sc') : code.Refers ctx l sc' := by
  cases h with
  | discard => simp [Instr.Refers, Opcode.width]
  | declare => simp [Instr.Refers]
  | assign _ _ hl _ => simpa [Instr.Refers] using lt_length_of_getElem? (slot?_eq_some hl)

theorem mem_closed {kind i : Instr} {behind : Nat} {code : Code} (h : i ∈ code.closed kind behind) :
    i ∈ code ∧ i ≠ kind ∨ ∃ offset, i = .jump .jump offset := by
  induction code with
  | nil => simp [Code.closed] at h
  | cons j code ih =>
    rw [Code.closed, List.mem_cons] at h
    rcases h with rfl | h
    · split
      · exact Or.inr ⟨_, rfl⟩
      · next hj => exact Or.inl ⟨List.mem_cons_self, hj⟩
    · exact (ih h).imp_left fun hi => ⟨List.mem_cons_of_mem j hi.1, hi.2⟩

theorem loopFront_refers {l : Bool} {test : Option Code} {body post : Code}
    (ht : Code.Refers ctx l sc (test.getD []))
    (hf : ∀ i ∈ loopFront test body post, i ∈ test.getD [] ∨ i.InRange) :
    (loopFront test body post).Refers ctx l sc := by
  intro i hi
  rcases hf i hi with h | h
  · exact ht i h
  · cases test with
    | none => simp [loopFront] at hi
    | some test =>
      simp only [loopFront, List.mem_append, List.mem_singleton] at hi
      rcases hi with hi | rfl
      · exact ht i hi
      · exact ⟨by simp, h⟩

theorem loopBody_refers {l : Bool} {body post : Code} (hb : body.Refers ctx true sc)
    (hl : ∀ i ∈ loopBody body post, i ∈ body ∨ i.InRange) :
    (loopBody body post).Refers ctx l sc := by
  have hjump : ∀ offset, Instr.jump .jump offset ∈ loopBody body post →
      (Instr.jump .jump offset).Refers ctx.registry ctx.params.length sc.locals.length
        sc.constants.length l := by
    intro offset hi
    rcases hl _ hi with h | h
    · exact (hb _ h).closed (by simp) (by simp)
    · exact ⟨by simp, h⟩
  intro i hi
  rcases mem_closed hi with ⟨hi', hleave⟩ | ⟨offset, rfl⟩
  · rcases mem_closed hi' with ⟨hi'', hrepeat⟩ | ⟨offset, rfl⟩
    · exact (hb i hi'').closed hleave hrepeat
    · exact hjump offset hi
  · exact hjump offset hi

theorem EmitsStmt.refers {l : Bool} {c : Clause} {code : Code} (h : EmitsStmt ctx l sc c code sc') :
    code.Refers ctx l sc' := by
  induction h with
  | @call _ _ _ _ _ _ _ _ _ types hx =>
    refine Code.Refers.append_iff.mpr ⟨hx.refers, ?_⟩
    intro i hi
    obtain ⟨t, -, rfl⟩ := List.mem_map.mp hi
    rfl
  | @retConst _ _ _ _ b => cases b <;> simp [boolReturn, Instr.Refers, Opcode.width]
  | ret hx _ => simpa [Instr.Refers, Opcode.width] using hx.refers
  | assign _ hx _ hs => exact Code.Refers.append_iff.mpr ⟨hx.refers.mono hs.grows, hs.refers⟩
  | assignTwo _ hx hs₂ hs₁ =>
    simp only [Code.Refers.append_iff]
    exact ⟨⟨hx.refers.mono (hs₂.grows.trans hs₁.grows), hs₂.refers.mono hs₁.grows⟩, hs₁.refers⟩
  | update _ hl hx ho _ =>
    have hi := lt_length_of_getElem? (slot?_eq_some hl)
    rw [← hx.moreConstants.locals] at hi
    simpa [Instr.Refers, hi, Opcode.width_of_onStack (binaryOpcode?_onStack ho)] using hx.refers
  | @step _ _ _ _ _ up _ _ hl =>
    have hi := lt_length_of_getElem? (slot?_eq_some hl)
    cases up <;> simpa [Instr.Refers] using hi
  | block _ ih | given _ ih => exact ih
  | cond hi ht hb hr ihi ihb =>
    have hb := hb.grows
    have ht' := ht.grows.trans hb
    simp only [Code.Refers.append_iff, Code.Refers.cons_iff]
    exact ⟨⟨⟨ihi.mono ht', ht.refers.mono hb⟩, ⟨by simp, hr⟩, .nil⟩, ihb⟩
  | condElse hi ht hb ho hr hr' ihi ihb iho =>
    have hb := hb.grows.trans ho.grows
    have ht' := ht.grows.trans hb
    simp only [Code.Refers.append_iff, Code.Refers.cons_iff]
    exact ⟨⟨⟨⟨⟨ihi.mono ht', ht.refers.mono hb⟩, ⟨by simp, hr⟩, .nil⟩, ihb.mono ho.grows⟩,
      ⟨by simp, hr'⟩, .nil⟩, iho⟩
  | loop hi ht hb hp hf hl hr ihi ihb ihp =>
    have hp := hp.grows
    have hb := hb.grows.trans hp
    have ht' := ht.grows.trans hb
    simp only [Code.Refers.append_iff, Code.Refers.cons_iff]
    exact ⟨ihi.mono ht', ⟨⟨loopFront_refers (ht.refers.mono hb) hf, loopBody_refers (ihb.mono hp) hl⟩,
      ihp⟩, ⟨by simp, hr⟩, .nil⟩
  | leave | again => simp [Instr.Refers]
  | empty | absent | nil => exact .nil
  | cons _ hs ih ihs => exact Code.Refers.append_iff.mpr ⟨ih.mono hs.grows, ihs⟩

theorem Instr.Refers.encodable {r : Registry} {params locals constants : Nat} {i : Instr}
    (h : i.Refers r params locals constants false) (hp : params ≤ 256) (hl : locals ≤ maxLocals)
    (hc : constants ≤ 256) (hf : r.funcs.size ≤ Table.capacity)
    (hn : r.natives.size ≤ Table.capacity) : i.Encodable := by
  unfold maxLocals at hl
  unfold Table.capacity at hf hn
  cases i with
  | plain op => exact h
  | indexed op n =>
    cases op <;> simp only [Refers, List.mem_cons, List.not_mem_nil, reduceCtorEq, or_self, or_true,
      or_false, false_and, true_and] at h
    all_goals exact ⟨rfl, by omega⟩
  | numbered op id =>
    cases op <;> simp only [Refers] at h
    all_goals exact ⟨rfl, by omega⟩
  | jump op offset =>
    obtain ⟨hop, hr⟩ := h
    refine ⟨?_, hr⟩
    simp only [List.mem_cons, List.not_mem_nil, or_false] at hop
    rcases hop with rfl | rfl | rfl <;> rfl
  | leave => cases h
  | repeat_ => cases h

end GoSift.Filter
