import GoSift.Proofs.Filter.Checked
import GoSift.Proofs.Filter.Operand

/-!
Runs of checked code. The values of a function lie on the stack as the checker says, above those of its
callers, and each step keeps that. What is watched can differ: the kinds of values may count or not, and
what lies below all these values may be known exactly or not at all.
-/
namespace GoSift.Filter

/-- What is watched in a run: whether the kinds of values count, what lies on the stack below the values
of functions, and the types of the locals of a function. -/
structure Watch where
  kinds : Prop
  floor : Stack → Prop
  locals : Func → List Ty

namespace Watch

/-- A value for which there is a type. -/
def Fits (W : Watch) (t : Ty) (v : Value) : Prop :=
  W.kinds → t.holds v

/-- Values for which there are types lie on the floor. -/
inductive Conforms (W : Watch) : List Ty → Stack → Prop
  | floor {s : Stack} (h : W.floor s) : Conforms W [] s
  | push {t : Ty} {ts : List Ty} {v : Value} {s : Stack} (hv : W.Fits t v) (h : Conforms W ts s) :
      Conforms W (t :: ts) (v :: s)

variable {W : Watch} {ts us : List Ty} {stack : Stack}

theorem Fits.assign {t u : Ty} {v : Value} (h : W.Fits t v) (ht : t.isAssignableTo u) : W.Fits u v :=
  fun hk => Ty.holds_of_assignable ht (h hk)

theorem Conforms.append_iff :
    W.Conforms (ts ++ us) stack ↔
      ∃ vs below, stack = vs ++ below ∧ List.Forall₂ W.Fits ts vs ∧ W.Conforms us below := by
  induction ts generalizing stack with
  | nil => simp
  | cons t ts ih =>
    constructor
    · intro h
      cases h with
      | push hv h =>
        obtain ⟨vs, below, rfl, hvs, hbelow⟩ := ih.mp h
        exact ⟨_, below, rfl, .cons hv hvs, hbelow⟩
    · rintro ⟨vs, below, rfl, hvs, hbelow⟩
      cases hvs with
      | cons hv hvs => exact .push hv (ih.mpr ⟨_, below, rfl, hvs, hbelow⟩)

/-- The arguments of a call lie on the stack, the last one on top. -/
theorem Conforms.args (h : W.Conforms (ts.reverse ++ us) stack) :
    ∃ args below, stack = args.reverse ++ below ∧ List.Forall₂ W.Fits ts args ∧ W.Conforms us below := by
  obtain ⟨vs, below, rfl, hvs, hbelow⟩ := Conforms.append_iff.mp h
  refine ⟨vs.reverse, below, by simp, ?_, hbelow⟩
  rw [← List.forall₂_reverse_iff]
  simpa using hvs

theorem Conforms.pop {t : Ty} (h : W.Conforms (t :: ts) stack) :
    ∃ v below, stack = v :: below ∧ W.Fits t v ∧ W.Conforms ts below := by
  cases h with
  | push hv h => exact ⟨_, _, rfl, hv, h⟩

theorem Conforms.length_le (h : W.Conforms ts stack) : ts.length ≤ stack.length := by
  induction h with
  | floor _ => exact Nat.zero_le _
  | push _ _ ih => simpa using ih

theorem fits_of_assignable {args : List Value} (h : List.Forall₂ W.Fits ts args)
    (ht : List.Forall₂ (·.isAssignableTo ·) ts us) : List.Forall₂ W.Fits us args := by
  induction ht generalizing args with
  | nil => exact h
  | cons ht _ ih =>
    cases h with
    | cons hv h => exact .cons (hv.assign ht) (ih h)

/-- Where the kinds of values do not count, it is enough that there is one for each type. -/
theorem forall₂_fits (hk : ¬ W.kinds) {args : List Value} (h : ts.length = args.length) :
    List.Forall₂ W.Fits ts args := by
  induction ts generalizing args with
  | nil =>
    obtain rfl := List.length_eq_zero_iff.mp h.symm
    exact .nil
  | cons t ts ih =>
    obtain ⟨v, args, rfl⟩ := List.exists_cons_of_length_eq_add_one h.symm
    exact .cons (fun hw => (hk hw).elim) (ih (by simpa using h))

/-- A frame whose arguments and locals fit. A local has no value before it is assigned. -/
structure FrameFits (W : Watch) (fr : Frame) : Prop where
  args : List.Forall₂ W.Fits fr.func.sig.params fr.args
  size : fr.locals.length = maxLocals
  locals : ∀ {i : Nat} {t : Ty} {v : Value}, (W.locals fr.func)[i]? = some t →
    fr.locals[i]? = some v → v = .nil ∨ W.Fits t v

section

variable (W : Watch) (r : Registry) (permits : CallPolicy)

/-- A function that is being run, at a place where the checker has these types on the stack. -/
structure Runs (n : Nat) (fr : Frame) (ts : List Ty) (result : Ty) : Prop where
  checked : fr.func.Checked r permits (W.locals fr.func)
  fits : W.FrameFits fr
  typed : fr.func.Typed r permits (W.locals fr.func) n fr.pc ts
  result : fr.func.sig.results = [result]

/-- Callers wait for a value of a type, in order to give one of type `out` in the end. These are the
types of the values that they have on the stack. -/
inductive Waits (n : Nat) (out : Ty) : Ty → List Frame → List Ty → Prop
  | done : Waits n out out [] []
  | caller {fr : Frame} {rest : List Frame} {t result : Ty} {ts us : List Ty}
      (hfr : W.Runs r permits n fr (t :: ts) result) (hrest : Waits n out result rest us) :
      Waits n out t (fr :: rest) (ts ++ us)

/-- A state in a run of checked code, with a value of type `out` to come, that is good for `n` steps. -/
def Ok (n : Nat) (out : Ty) (s : State) : Prop :=
  ∃ ts us result, W.Runs r permits n s.frame ts result ∧
    W.Waits r permits n out result s.callers us ∧ W.Conforms (ts ++ us) s.stack

/-- Natives that are called as permitted replace their arguments by results. -/
def NativesConform : Prop :=
  ∀ {id : Nat} {g : Native} {recv : Option Ty} {ts us : List Ty} {stack : Stack},
    r.natives.get? id = some g → permits id g recv →
    List.Forall₂ (·.isAssignableTo ·) ts g.sig.params →
    W.Conforms (ts.reverse ++ (recv.toList ++ us)) stack →
    W.Conforms (g.sig.results.reverse ++ us) (g.run stack)

end

end Watch

/-- Whether the next instruction reads a local that has no value yet, although its type has no `nil`. -/
def State.readsUnset (locals : Func → List Ty) (s : State) : Bool :=
  match s.frame.func.opcode? s.frame.pc with
  | some .pushLocal | some .incLocal | some .decLocal =>
    match s.frame.index? with
    | none => false
    | some i =>
      match (locals s.frame.func)[i]?, s.frame.locals[i]? with
      | some t, some .nil => !t.isNillable
      | _, _ => false
  | _ => false

/-- Whether none of the next `n` instructions reads a local too early. -/
def State.readsSet (r : Registry) (locals : Func → List Ty) : Nat → State → Bool
  | 0, _ => true
  | n + 1, s => !s.readsUnset locals && match s.step r with
    | .next s => readsSet r locals n s
    | .done _ => true

/-- A local that is not read too early has a value of its type. -/
theorem State.holds_of_readsUnset {locals : Func → List Ty} {s : State} {op : Opcode} {i : Nat} {t : Ty}
    (h : s.readsUnset locals = false) (hop : s.frame.func.opcode? s.frame.pc = some op)
    (hread : op ∈ [.pushLocal, .incLocal, .decLocal]) (hi : s.frame.index? = some i)
    (ht : (locals s.frame.func)[i]? = some t) (hnil : s.frame.locals[i]? = some .nil) :
    t.holds .nil := by
  simp only [List.mem_cons, List.not_mem_nil, or_false] at hread
  refine Ty.holds_nil_of_nillable ?_
  rcases hread with rfl | rfl | rfl <;> simpa [readsUnset, hop, hi, ht, hnil] using h

/-- A call of a native, also if it does not find all its arguments. -/
theorem Activation.step_native {r : Registry} {a : Activation} {pc id : Nat} {locals : List Value}
    {stack : Stack} {calls : List NativeCall} {native : Native}
    (h : a.func.opcode? pc = some .callNative) (hid : (a.func.at pc).word? = some id)
    (hf : r.natives.get? id = some native) :
    (a.state pc locals stack calls).step r = .next (a.state (pc + 3) locals (native.run stack)
      (⟨id, (Stack.popN native.arity stack).1⟩ :: calls)) := by
  change (a.state pc locals stack calls).frame.word? = some id at hid
  rw [step_of_opcode h]
  simp only [State.exec, hid, hf, State.callNative]
  rfl

namespace Watch

variable {W : Watch} {r : Registry} {permits : CallPolicy} {k m n : Nat} {out result : Ty}
  {fr : Frame} {s s' : State} {ts us : List Ty}

theorem Runs.mono (h : W.Runs r permits n fr ts result) (hm : m ≤ n) : W.Runs r permits m fr ts result :=
  ⟨h.checked, h.fits, h.typed.mono hm, h.result⟩

theorem Waits.mono {t : Ty} {callers : List Frame} (h : W.Waits r permits n out t callers us)
    (hm : m ≤ n) : W.Waits r permits m out t callers us := by
  induction h with
  | done => exact .done
  | caller hfr _ ih => exact .caller (hfr.mono hm) ih

/-- A frame that starts has its arguments and no local with a value. -/
theorem FrameFits.enter {f : Func} {args : List Value} (h : List.Forall₂ W.Fits f.sig.params args) :
    W.FrameFits (.enter f args) where
  args := h
  size := List.length_replicate
  locals {i _ _} _ hv := by
    simp only [Frame.enter, List.getElem?_replicate] at hv
    split at hv
    · exact Or.inl (Option.some.inj hv).symm
    · cases hv

theorem FrameFits.getLocal {i : Nat} {t : Ty} (h : W.FrameFits fr)
    (hc : fr.func.Checked r permits (W.locals fr.func)) (ht : (W.locals fr.func)[i]? = some t) :
    ∃ v, fr.locals[i]? = some v ∧ (v = .nil ∨ W.Fits t v) := by
  have hlt := Nat.lt_of_lt_of_le (lt_length_of_getElem? ht) hc.few
  rw [← h.size] at hlt
  exact ⟨_, List.getElem?_eq_getElem hlt, h.locals ht (List.getElem?_eq_getElem hlt)⟩

theorem FrameFits.setLocal {i : Nat} {t : Ty} {v : Value} (h : W.FrameFits fr)
    (ht : (W.locals fr.func)[i]? = some t) (hv : W.Fits t v) :
    W.FrameFits { fr with locals := fr.locals.set i v } where
  args := h.args
  size := by simpa using h.size
  locals {j u w} hu hw := by
    rw [List.getElem?_set] at hw
    split at hw
    · next hij =>
      subst hij
      obtain rfl : t = u := Option.some.inj (ht.symm.trans hu)
      split at hw
      · cases hw
        exact Or.inr hv
      · cases hw
    · exact h.locals hu hw

theorem FrameFits.place (h : W.FrameFits fr) (pc : Nat) : W.FrameFits { fr with pc } :=
  ⟨h.args, h.size, h.locals⟩

/-- A call of a checked function. The caller waits behind the instruction. -/
theorem ok_enter {a : Activation} {g : Func} {pc : Nat} {args locals : List Value} {below : Stack}
    {calls : List NativeCall} {ts us vs : List Ty}
    (hcaller : ∀ {t : Ty}, g.sig.results = [t] →
      W.Runs r permits n (a.resume pc locals) (t :: us) result)
    (hg : g.Checked r permits (W.locals g)) (hargs : List.Forall₂ W.Fits ts args)
    (hts : List.Forall₂ (·.isAssignableTo ·) ts g.sig.params)
    (hwaits : W.Waits r permits n out result a.callers vs) (hbelow : W.Conforms (us ++ vs) below) :
    args.length = g.numParams ∧
      W.Ok r permits n out ⟨.enter g args, a.resume pc locals :: a.callers, below, calls⟩ := by
  obtain ⟨t, ht⟩ := hg.results
  have hfits := fits_of_assignable hargs hts
  exact ⟨by rw [hg.params, hfits.length_eq],
    [], us ++ vs, t, ⟨hg, .enter hfits, hg.typed n, ht⟩, .caller (hcaller ht) hwaits, hbelow⟩

theorem ok_state {a : Activation} {pc : Nat} {locals : List Value} {stack : Stack}
    {calls : List NativeCall} {vs : List Ty} (hfr : W.Runs r permits n (a.resume pc locals) us result)
    (hwaits : W.Waits r permits n out result a.callers vs) (hstack : W.Conforms (us ++ vs) stack) :
    W.Ok r permits n out (a.state pc locals stack calls) :=
  ⟨us, vs, result, hfr, hwaits, hstack⟩

theorem exists_getElem?_of_forall₂ {α β : Type} {R : α → β → Prop} {xs : List α} {ys : List β} {i : Nat}
    {x : α} (h : List.Forall₂ R xs ys) (hx : xs[i]? = some x) : ∃ y, ys[i]? = some y ∧ R x y := by
  induction h generalizing i with
  | nil => cases hx
  | cons hr _ ih =>
    cases i with
    | zero =>
      cases hx
      exact ⟨_, rfl, hr⟩
    | succ i => exact ih hx

/-- An instruction that leads to the next one. -/
theorem step_transfer (hnatives : W.NativesConform r permits)
    (hfuncs : ∀ {id : Nat} {g : Func}, r.funcs.get? id = some g → g.Checked r permits (W.locals g))
    {a : Activation} {pc : Nat} {locals : List Value} {stack : Stack} {calls : List NativeCall}
    {op : Opcode} {vs : List Ty} (hop : a.func.opcode? pc = some op)
    (hfr : W.Runs r permits n (a.resume (pc + op.width) locals) us result)
    (ht : a.func.Transfer r permits (W.locals a.func) pc op ts us)
    (hwaits : W.Waits r permits n out result a.callers vs) (hstack : W.Conforms (ts ++ vs) stack)
    (hread : W.kinds → (a.state pc locals stack calls).readsUnset W.locals = false) :
    ∃ s, (a.state pc locals stack calls).step r = .next s ∧ W.Ok r permits n out s := by
  cases ht with
  | operation hout hins =>
    rw [List.append_assoc] at hstack
    obtain ⟨ws, below, rfl, hws, hbelow⟩ := Conforms.append_iff.mp hstack
    obtain ⟨f, hf, hresult⟩ := Opcode.onStack?_of_result? hout
    obtain ⟨v, hv, heq⟩ := hresult ws (by rw [← hws.length_eq, hins.length_eq])
    rw [Opcode.width_of_onStack (by rw [hf]; rfl)] at hfr
    refine ⟨_, Activation.step_onStack hop hf, ok_state hfr hwaits ?_⟩
    rw [heq]
    exact .push (fun _ => hv) hbelow
  | pop =>
    obtain ⟨v, below, rfl, -, hbelow⟩ := hstack.pop
    exact ⟨_, Activation.step_onStack hop rfl, ok_state hfr hwaits hbelow⟩
  | dup =>
    obtain ⟨v, below, rfl, hv, hbelow⟩ := hstack.pop
    exact ⟨_, Activation.step_onStack hop rfl, ok_state hfr hwaits (.push hv (.push hv hbelow))⟩
  | pushParam hi ht =>
    obtain ⟨v, hget, hv⟩ := exists_getElem?_of_forall₂ hfr.fits.args ht
    exact ⟨_, Activation.step_pushParam hop hi hget, ok_state hfr hwaits (.push hv hstack)⟩
  | @pushLocal i t _ hi ht =>
    obtain ⟨v, hget, hv⟩ := hfr.fits.getLocal hfr.checked ht
    refine ⟨_, Activation.step_pushLocal hop hi hget, ok_state hfr hwaits (.push (fun hk => ?_) hstack)⟩
    rcases hv with rfl | hv
    · exact State.holds_of_readsUnset (hread hk) hop (by simp) hi ht hget
    · exact hv hk
  | pushConst hi hv ht =>
    exact ⟨_, Activation.step_pushConst hop hi hv, ok_state hfr hwaits (.push (fun _ => ht) hstack)⟩
  | setLocal hi ht hu =>
    obtain ⟨v, below, rfl, hv, hbelow⟩ := hstack.pop
    obtain ⟨w, hget, -⟩ := hfr.fits.getLocal hfr.checked ht
    have hfits := hfr.fits.setLocal ht (hv.assign hu)
    exact ⟨_, Activation.step_setLocal hop hi hget,
      ok_state ⟨hfr.checked, hfits, hfr.typed, hfr.result⟩ hwaits hbelow⟩
  | @stepLocal up _ _ hi ht =>
    obtain ⟨w, hget, -⟩ := hfr.fits.getLocal hfr.checked ht
    refine ⟨_, Activation.step_stepLocal hop hi hget, ok_state ?_ hwaits hstack⟩
    have hfits := hfr.fits.setLocal ht
      (fun _ => rfl : W.Fits .int (.int (if up then w.asInt + 1 else w.asInt - 1)))
    cases up <;> exact ⟨hfr.checked, hfits, hfr.typed, hfr.result⟩
  | call hid hg hargs =>
    rw [List.append_assoc] at hstack
    obtain ⟨args, below, rfl, hvs, hbelow⟩ := hstack.args
    obtain ⟨hlen, hok⟩ :=
      ok_enter (fun ht => by simpa [ht] using hfr) (hfuncs hg) hvs hargs hwaits hbelow
    exact ⟨_, Activation.step_call hop hid hg hlen, hok⟩
  | callSelf hargs =>
    rw [List.append_assoc] at hstack
    obtain ⟨args, below, rfl, hvs, hbelow⟩ := hstack.args
    obtain ⟨hlen, hok⟩ :=
      ok_enter (g := a.func) (fun ht => by simpa [ht] using hfr) hfr.checked hvs hargs hwaits hbelow
    exact ⟨_, Activation.step_callSelf hop hlen, hok⟩
  | callNative hid hg hpermits hargs =>
    simp only [List.append_assoc] at hstack hfr
    have hresults := hnatives hg hpermits hargs hstack
    rw [← List.append_assoc] at hresults
    exact ⟨_, Activation.step_native hop hid hg, ok_state hfr hwaits hresults⟩

/-- Leaving a function gives its value to the caller, or ends the run. -/
theorem ok_leave {a : Activation} {pc : Nat} {locals : List Value} {stack : Stack}
    {calls : List NativeCall} {v : Value} {vs : List Ty}
    (hwaits : W.Waits r permits n out result a.callers vs) (hv : W.Fits result v)
    (hstack : W.Conforms vs stack) :
    (∃ s, (a.state pc locals stack calls).leave v = .next s ∧ W.Ok r permits n out s) ∨
      (a.state pc locals stack calls).leave v = .done ⟨.ok v, stack, calls⟩ ∧ W.Fits out v ∧
        W.floor stack := by
  obtain ⟨func, args, callers⟩ := a
  cases hwaits with
  | done =>
    cases hstack with
    | floor h => exact Or.inr ⟨rfl, hv, h⟩
  | caller hfr hrest => exact Or.inl ⟨_, rfl, _, _, _, hfr, hrest, .push hv hstack⟩

/-- One step of checked code that reads no local too early. It goes on in the same way, or the run ends
with a value of the type to come. -/
theorem Ok.step (h : W.Ok r permits (n + 1) out s) (hnatives : W.NativesConform r permits)
    (hfuncs : ∀ {id : Nat} {g : Func}, r.funcs.get? id = some g → g.Checked r permits (W.locals g))
    (hread : W.kinds → s.readsUnset W.locals = false) :
    (∃ s', s.step r = .next s' ∧ W.Ok r permits n out s') ∨
      ∃ v stack, s.step r = .done ⟨.ok v, stack, s.calls⟩ ∧ W.Fits out v ∧ W.floor stack := by
  obtain ⟨ts, us, result, hfr, hwaits, hstack⟩ := h
  obtain ⟨⟨func, args, locals, pc⟩, callers, stack, calls⟩ := s
  have hwaits := hwaits.mono (Nat.le_succ n)
  have hplace : ∀ {pc' : Nat} {ts' : List Ty},
      func.Typed r permits (W.locals func) n pc' ts' →
      W.Runs r permits n ⟨func, args, locals, pc'⟩ ts' result :=
    fun ht => ⟨hfr.checked, hfr.fits.place _, ht, hfr.result⟩
  cases hfr.typed with
  | straight hop ht hnext =>
    exact Or.inl (step_transfer (a := ⟨func, args, callers⟩) hnatives hfuncs hop (hplace hnext) ht
      hwaits hstack hread)
  | jump hop ht hjump =>
    exact Or.inl ⟨_, Activation.step_jump (a := ⟨func, args, callers⟩) hop ht,
      ok_state (hplace hjump) hwaits hstack⟩
  | branch hop ht hnext hjump =>
    obtain ⟨v, below, rfl, -, hbelow⟩ := hstack.pop
    refine Or.inl ⟨_, Activation.step_jumpIf (a := ⟨func, args, callers⟩) hop ht, ?_⟩
    refine ok_state (hplace ?_) hwaits hbelow
    split
    · exact hjump
    · exact hnext
  | @ret t result' hop hr ht =>
    obtain ⟨v, below, rfl, hv, hbelow⟩ := hstack.pop
    obtain rfl : result' = result := List.singleton_inj.mp (hr.symm.trans hfr.result)
    have hstep := @Activation.step_returnTop r ⟨func, args, callers⟩ pc locals below calls v hop
    rcases ok_leave (a := ⟨func, args, callers⟩) hwaits (hv.assign ht) hbelow with
      ⟨s', hleave, hok⟩ | ⟨hleave, hdone⟩
    · exact Or.inl ⟨s', hstep.trans hleave, hok⟩
    · exact Or.inr ⟨v, below, hstep.trans hleave, hdone⟩
  | @retBool b hop hr =>
    obtain rfl : Ty.bool = result := List.singleton_inj.mp (hr.symm.trans hfr.result)
    have hstep := @Activation.step_returnBool r ⟨func, args, callers⟩ pc locals stack calls b hop
    rcases ok_leave (a := ⟨func, args, callers⟩) (v := .bool b) hwaits (fun _ => rfl) hstack with
      ⟨s', hleave, hok⟩ | ⟨hleave, hdone⟩
    · exact Or.inl ⟨s', hstep.trans hleave, hok⟩
    · exact Or.inr ⟨.bool b, stack, hstep.trans hleave, hdone⟩

section

variable (hnatives : W.NativesConform r permits)
  (hfuncs : ∀ {id : Nat} {g : Func}, r.funcs.get? id = some g → g.Checked r permits (W.locals g))
  (hk : ¬ W.kinds)
include hnatives hfuncs hk

/-- Where the kinds of values do not count, what is good for any number of steps stays so. -/
theorem Ok.step_always (h : ∀ n, W.Ok r permits n out s) :
    (∃ s', s.step r = .next s' ∧ ∀ n, W.Ok r permits n out s') ∨
      ∃ v stack, s.step r = .done ⟨.ok v, stack, s.calls⟩ ∧ W.floor stack := by
  have hread : W.kinds → s.readsUnset W.locals = false := fun hw => (hk hw).elim
  rcases (h 1).step hnatives hfuncs hread with ⟨s₁, hnext, -⟩ | ⟨v, stack, hdone, -, hfloor⟩
  · refine Or.inl ⟨s₁, hnext, fun n => ?_⟩
    rcases (h (n + 1)).step hnatives hfuncs hread with ⟨s₂, hnext', hok⟩ | ⟨v, stack, hdone, -⟩
    · rw [hnext] at hnext'
      cases hnext'
      exact hok
    · rw [hnext] at hdone
      cases hdone
  · exact Or.inr ⟨v, stack, hdone, hfloor⟩

/-- Such a run gives a value if it ends. -/
theorem Ok.run_eq_some (h : ∀ n, W.Ok r permits n out s) {fuel : Nat} {o : Outcome}
    (ho : s.run r fuel = some o) : ∃ v stack calls, o = ⟨.ok v, stack, calls⟩ ∧ W.floor stack := by
  induction fuel generalizing s with
  | zero => cases ho
  | succ fuel ih =>
    rw [State.run] at ho
    rcases Ok.step_always hnatives hfuncs hk h with ⟨s₁, hnext, hok⟩ | ⟨v, stack, hdone, hfloor⟩
    · rw [hnext] at ho
      exact ih hok ho
    · rw [hdone] at ho
      cases ho
      exact ⟨v, stack, s.calls, rfl, hfloor⟩

end

/-- A call of a checked function with fitting arguments starts well. -/
theorem ok_start {f : Func} {args : List Value} {stack : Stack}
    (hf : f.Checked r permits (W.locals f)) (hresult : f.sig.results = [out])
    (hargs : List.Forall₂ W.Fits f.sig.params args) (hstack : W.floor stack) (n : Nat) :
    W.Ok r permits n out (.start f args stack) :=
  ⟨[], [], out, ⟨hf, .enter hargs, hf.typed n, hresult⟩, .done, .floor hstack⟩

/-- What a step preserves, a run preserves, as long as no local is read too early. -/
theorem Ok.steps (h : W.Ok r permits (n + m) out s) (hnatives : W.NativesConform r permits)
    (hfuncs : ∀ {id : Nat} {g : Func}, r.funcs.get? id = some g → g.Checked r permits (W.locals g))
    (hread : W.kinds → s.readsSet r W.locals (m + k)) (hs : s.Steps r m s') :
    W.Ok r permits n out s' ∧ (W.kinds → s'.readsSet r W.locals k) := by
  induction m generalizing s with
  | zero =>
    obtain rfl : s = s' := hs
    rw [Nat.zero_add] at hread
    exact ⟨h, hread⟩
  | succ m ih =>
    obtain ⟨s₁, hstep, hrest⟩ := hs
    have hfirst : W.kinds → s.readsUnset W.locals = false ∧ s₁.readsSet r W.locals (m + k) := by
      intro hk
      have hset := hread hk
      rw [Nat.add_right_comm, State.readsSet, hstep] at hset
      simpa using hset
    rcases h.step hnatives hfuncs (fun hk => (hfirst hk).1) with ⟨s₂, hnext, hok⟩ | ⟨v, _, hdone, -⟩
    · rw [hstep] at hnext
      cases hnext
      exact ih hok (fun hk => (hfirst hk).2) hrest
    · rw [hstep] at hdone
      cases hdone

end Watch

end GoSift.Filter
