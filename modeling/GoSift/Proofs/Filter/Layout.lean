import GoSift.Filter.Listing
import GoSift.Proofs.Filter.StmtEmission

/-!
Where instructions lie in memory. Code that is a list of instructions lies at a place of a function if
each of them can be read off there, with its operand; its open jumps lead to two given places.
-/
namespace GoSift.Filter

theorem Opcode.byte_eq_idxOf (op : Opcode) :
    op.byte = UInt8.ofNat (all.toList.idxOf op + 1) := by
  simp [byte, all]

theorem Opcode.ofByte?_byte (op : Opcode) : ofByte? op.byte = some op := by
  rw [byte_eq_idxOf]
  cases op <;> rfl

/-- The operation at a place. -/
def Func.opcode? (f : Func) (pc : Nat) : Option Opcode :=
  f.code[pc]?.bind Opcode.ofByte?

/-- A view of a function at a place, without arguments and locals. -/
def Func.at (f : Func) (pc : Nat) : Frame :=
  ⟨f, [], [], pc⟩

/-- An instruction lies at a place. The open jumps lead to `brk` and `cont`. -/
def InstrAt (f : Func) (brk cont pc : Nat) : Instr → Prop
  | .plain op => f.opcode? pc = some op ∧ op.width = 1
  | .indexed op i => f.opcode? pc = some op ∧ op.width = 2 ∧ (f.at pc).index? = some i
  | .numbered op id => f.opcode? pc = some op ∧ op.width = 3 ∧ (f.at pc).word? = some id
  | .jump op offset =>
    f.opcode? pc = some op ∧ op.width = 3 ∧
      ∀ t : Nat, (t : Int) = pc + offset → (f.at pc).target? = some t
  | .leave => f.opcode? pc = some .jump ∧ (f.at pc).target? = some brk
  | .repeat_ => f.opcode? pc = some .jump ∧ (f.at pc).target? = some cont

/-- Instructions lie one behind the other from a place on. -/
def CodeAt (f : Func) (brk cont : Nat) : Nat → Code → Prop
  | _, [] => True
  | pc, i :: code => InstrAt f brk cont pc i ∧ CodeAt f brk cont (pc + i.size) code

@[simp] theorem Code.size_nil : Code.size [] = 0 := rfl

@[simp] theorem Code.size_cons (i : Instr) (code : Code) :
    Code.size (i :: code) = i.size + code.size := rfl

theorem Code.size_singleton (i : Instr) : Code.size [i] = i.size := rfl

@[simp] theorem Code.size_append (code rest : Code) :
    Code.size (code ++ rest) = code.size + rest.size := by
  induction code with
  | nil => simp
  | cons i code ih =>
    simp only [List.cons_append, size_cons, ih]
    omega

section

variable {f : Func} {brk cont pc : Nat}

@[simp] theorem codeAt_nil : CodeAt f brk cont pc [] := trivial

@[simp] theorem codeAt_cons {i : Instr} {code : Code} :
    CodeAt f brk cont pc (i :: code) ↔
      InstrAt f brk cont pc i ∧ CodeAt f brk cont (pc + i.size) code := Iff.rfl

@[simp] theorem codeAt_append {code rest : Code} :
    CodeAt f brk cont pc (code ++ rest) ↔
      CodeAt f brk cont pc code ∧ CodeAt f brk cont (pc + code.size) rest := by
  induction code generalizing pc with
  | nil => simp
  | cons i code ih => simp [ih, and_assoc, Nat.add_assoc]

theorem codeAt_singleton {i : Instr} : CodeAt f brk cont pc [i] ↔ InstrAt f brk cont pc i := by simp

/-- Code whose jumps of one kind are closed is code whose jumps of that kind lead behind it. -/
theorem codeAt_of_closed {kind : Instr} {behind t : Nat} {code : Code}
    (h : CodeAt f brk cont pc (code.closed kind behind)) (hk : kind = .leave ∨ kind = .repeat_)
    (ht : t = pc + code.size + behind) :
    CodeAt f (if kind = .leave then t else brk) (if kind = .repeat_ then t else cont) pc code := by
  induction code generalizing pc with
  | nil => trivial
  | cons i code ih =>
    simp only [Code.closed, codeAt_cons] at h
    rw [Code.size_cons] at ht
    refine ⟨?_, @ih (pc + i.size) ?_ (by omega)⟩
    · by_cases hi : i = kind
      · rw [if_pos hi] at h
        obtain ⟨⟨hop, -, htarget⟩, -⟩ := h
        have hto := htarget t (by rw [Code.size_cons]; omega)
        subst hi
        rcases hk with rfl | rfl
        · exact ⟨hop, hto⟩
        · exact ⟨hop, hto⟩
      · rw [if_neg hi] at h
        have hi' := h.1
        rcases hk with rfl | rfl <;> cases i <;> first | exact hi' | exact (hi rfl).elim
    · by_cases hi : i = kind
      · rw [if_pos hi] at h
        have hs : i.size = 3 := by
          subst hi
          rcases hk with rfl | rfl <;> rfl
        rw [hs]
        exact h.2
      · rw [if_neg hi] at h
        exact h.2

theorem size_loopBody (body post : Code) : (loopBody body post).size = body.size := by
  rw [loopBody, Compiler.size_closed rfl, Compiler.size_closed rfl]

/-- In a loop `break` leads behind the jump back and `continue` to what is done after the body. -/
theorem codeAt_of_loopBody {body post : Code} (h : CodeAt f brk cont pc (loopBody body post)) :
    CodeAt f (pc + body.size + post.size + 3) (pc + body.size) pc body := by
  have hl := codeAt_of_closed h (Or.inl rfl) rfl
  have hr := codeAt_of_closed hl (Or.inr rfl) rfl
  rw [Compiler.size_closed rfl] at hr
  simpa [Nat.add_assoc] using hr

end

/-- An instruction that two bytes of operand can hold, and that is not an open jump. -/
def Instr.Encodable : Instr → Prop
  | plain op => op.width = 1
  | indexed op i => op.width = 2 ∧ i < 256
  | numbered op id => op.width = 3 ∧ id < 65536
  | jump op offset => op.width = 3 ∧ Filter.InRange offset
  | leave | repeat_ => False

theorem Instr.length_bytes (i : Instr) : i.bytes.length = i.size := by
  cases i <;> rfl

theorem Code.length_bytes (code : Code) : (code.flatMap Instr.bytes).length = code.size := by
  induction code with
  | nil => rfl
  | cons i code ih => simp [ih, Instr.length_bytes]

theorem offsetPlace_emod {pc t : Nat} {offset : Int} (hr : InRange offset) (ht : (t : Int) = pc + offset) :
    Frame.offsetPlace pc (offset % 0x10000).toNat = t := by
  unfold InRange at hr
  unfold Frame.offsetPlace
  split
  · omega
  · split <;> omega

/-- The word of two bytes is the number they were made from. -/
theorem word_toNat {n : Nat} (h : n < 65536) :
    (UInt8.ofNat n).toNat + 256 * (UInt8.ofNat (n / 256)).toNat = n := by
  simp only [UInt8.toNat_ofNat']
  omega

section

variable {f : Func} {pre rest : List UInt8}

theorem getElem?_of_bytes (h : f.code.toList = pre ++ rest) (k : Nat) :
    f.code[pre.length + k]? = rest[k]? := by
  rw [← Array.getElem?_toList, h, List.getElem?_append_right (Nat.le_add_right _ _),
    Nat.add_sub_cancel_left]

theorem opcode?_of_bytes {op : Opcode} (h : f.code.toList = pre ++ op.byte :: rest) :
    f.opcode? pre.length = some op := by
  have h0 : f.code[pre.length]? = some op.byte := getElem?_of_bytes h 0
  rw [Func.opcode?, h0, Option.bind_some, Opcode.ofByte?_byte]

theorem index?_of_bytes {b n : UInt8} (h : f.code.toList = pre ++ b :: n :: rest) :
    (f.at pre.length).index? = some n.toNat := by
  have h1 : f.code[pre.length + 1]? = some n := getElem?_of_bytes h 1
  simp only [Frame.index?, Func.at, h1, Option.map_some]

theorem word?_of_bytes {b : UInt8} {n : Nat} (h : f.code.toList = pre ++ b :: (wordBytes n ++ rest))
    (hn : n < 65536) : (f.at pre.length).word? = some n := by
  have h1 : f.code[pre.length + 1]? = some (UInt8.ofNat n) := getElem?_of_bytes h 1
  have h2 : f.code[pre.length + 2]? = some (UInt8.ofNat (n / 256)) := getElem?_of_bytes h 2
  simp only [Frame.word?, Func.at, h1, h2, bind, Option.bind, pure, word_toNat hn]

theorem instrAt_of_bytes {brk cont : Nat} {i : Instr} (h : f.code.toList = pre ++ (i.bytes ++ rest))
    (hi : i.Encodable) : InstrAt f brk cont pre.length i := by
  cases i with
  | plain op => exact ⟨opcode?_of_bytes h, hi⟩
  | indexed op n =>
    refine ⟨opcode?_of_bytes h, hi.1, ?_⟩
    rw [index?_of_bytes h, UInt8.toNat_ofNat', Nat.mod_eq_of_lt hi.2]
  | numbered op id => exact ⟨opcode?_of_bytes h, hi.1, word?_of_bytes h hi.2⟩
  | jump op offset =>
    refine ⟨opcode?_of_bytes h, hi.1, ?_⟩
    intro t ht
    rw [Frame.target?, word?_of_bytes h (by omega), Option.map_some]
    exact congrArg some (offsetPlace_emod hi.2 ht)
  | leave => exact hi.elim
  | repeat_ => exact hi.elim

end

/-- Code lies where its bytes are. -/
theorem codeAt_of_bytes {f : Func} {brk cont : Nat} {pre code : Code}
    (h : f.code.toList = (pre ++ code).flatMap Instr.bytes) (he : ∀ i ∈ code, i.Encodable) :
    CodeAt f brk cont pre.size code := by
  induction code generalizing pre with
  | nil => trivial
  | cons i code ih =>
    constructor
    · rw [← Code.length_bytes]
      apply instrAt_of_bytes _ (he i List.mem_cons_self)
      · exact code.flatMap Instr.bytes
      · simp [h]
    · have hrest := @ih (pre ++ [i]) (by simp [h]) fun j hj => he j (List.mem_cons_of_mem i hj)
      simpa using hrest

end GoSift.Filter
