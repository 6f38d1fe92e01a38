import GoSift.Proofs.Pattern.Spelling
import GoSift.Proofs.Syntax.Parsed

/-!
The words of a pattern: the names, labels and literals that its source spells out, and that the
instructions of its code refer to.
-/
namespace GoSift

/-- What is spelled out in a source besides keywords and symbols. -/
inductive Word where
  | name (text : String)
  | wildcard (text : String)
  | label (text : String)
  | literal (kind : LitKind) (text : String)
deriving DecidableEq, Repr

/-- Whether a token spells a word out. -/
def Word.WrittenAs : Word → Token.Kind → Prop
  | name text, kind | label text, kind => kind = .ident text
  | wildcard text, kind => ∃ any, kind = .wildcard text any
  | literal sort text, kind => kind = .literal sort text

/-- The word that a node has of its own. The wildcard `_` has none. -/
def Node.word? : Node → Option Word
  | .expr (.ident _ name) => some (.name name)
  | .expr (.wildcard _ name _) => if name = "_" then none else some (.wildcard name)
  | .expr (.lit _ kind text) => some (.literal kind text)
  | .stmt (.branch _ _ label) => label.map .label
  | .stmt (.labeled _ label _) => some (.label label)
  | _ => none

/-- The words of a tree, as often as they occur. -/
def Node.words (n : Node) : List Word :=
  n.visits.filterMap Node.word?

/-- The words of a tree that is parsed from tokens in `I` are among them. -/
theorem Node.LocalIn.written {I : Token.Kind → Prop} {n : Node} {w : Word} (h : n.LocalIn I)
    (hw : n.word? = some w) : ∃ kind, I kind ∧ w.WrittenAs kind := by
  unfold Node.word? at hw
  split at hw
  · cases hw
    exact ⟨_, h, rfl⟩
  · split at hw
    · cases hw
    · cases hw
      exact ⟨_, h, _, rfl⟩
  · cases hw
    exact ⟨_, h, rfl⟩
  · obtain ⟨label, rfl, rfl⟩ := Option.map_eq_some_iff.1 hw
    exact ⟨_, h label rfl, rfl⟩
  · cases hw
    exact ⟨_, h, rfl⟩
  · cases hw

namespace Pattern

/-- The word that an instruction with a text stands for. -/
def Op.word? (text : String) : Op → Option Word
  | .wildcard _ true => some (.wildcard text)
  | .ident | .fixedSelector | .fixedField => some (.name text)
  | .lit kind => some (.literal kind text)
  | .labeled | .branch true => some (.label text)
  | _ => none

/-- The word of an instruction, in a table of texts. -/
def Inst.word? (strings : List String) (i : Inst) : Option Word :=
  (strings[i.index]?).bind (i.op.word? ·)

/-- The words of the instructions of a pattern, in order. -/
def words (p : Pattern) : List Word :=
  p.insts.filterMap (Inst.word? p.strings)

/-- Exactly the operations with a text have a word. -/
theorem Op.isSome_word? (text : String) (op : Op) : (op.word? text).isSome = op.hasText := by
  cases op with
  | wildcard _ named => cases named <;> rfl
  | branch target => cases target <;> rfl
  | _ => rfl

theorem Inst.word?_of_text? {strings : List String} {i : Inst} {text : String}
    (h : i.text? strings = some text) : i.word? strings = i.op.word? text := by
  unfold Inst.text? at h
  split at h
  · rw [Inst.word?, h]
    rfl
  · next hop =>
    have hnone (s : String) : i.op.word? s = none := by
      rw [← Option.isNone_iff_eq_none, ← Option.not_isSome, Op.isSome_word?]
      simpa using hop
    rw [Inst.word?, hnone]
    cases strings[i.index]? <;> simp [hnone]

mutual

/-- The words of a term in order. -/
def Term.words : Term → List Word
  | .wild _ name => (name.map .wildcard).toList
  | .shape op _ text args => (op.word? text).toList ++ Term.wordsAll args
  | .run ts => Term.wordsAll ts
termination_by structural t => t

def Term.wordsAll : List Term → List Word
  | [] => []
  | t :: ts => t.words ++ Term.wordsAll ts
termination_by structural ts => ts

end

theorem Term.wordsAll_append (ts us : List Term) :
    Term.wordsAll (ts ++ us) = Term.wordsAll ts ++ Term.wordsAll us := by
  induction ts with
  | nil => rfl
  | cons t ts ih => simp [Term.wordsAll, ih]

theorem Inst.filterMap_word?_single {strings : List String} {i : Inst} {text : String}
    (h : i.text? strings = some text) :
    [i].filterMap (Inst.word? strings) = (i.op.word? text).toList := by
  rw [List.filterMap_cons, Inst.word?_of_text? h]
  cases i.op.word? text <;> rfl

mutual

/-- Code has the words of the term that it spells. -/
theorem Term.words_eq {strings : List String} (t : Term) {code : List Inst}
    (h : t.Spells strings code) : code.filterMap (Inst.word? strings) = t.words := by
  cases t with
  | wild slot name =>
    cases name with
    | none =>
      rw [Term.Spells] at h
      rw [h]
      exact Inst.filterMap_word?_single rfl
    | some name =>
      rw [Term.Spells] at h
      obtain ⟨i, hi, rfl⟩ := h
      exact Inst.filterMap_word?_single hi
  | shape op value text args =>
    obtain ⟨i, rest, rfl, -, -, htext, hspells⟩ := h
    have hrest := Term.wordsAll_eq args hspells
    rw [Term.words, ← hrest, ← Inst.filterMap_word?_single htext, ← List.filterMap_append]
    rfl
  | run ts =>
    obtain ⟨front, rfl, -, hspells⟩ := h
    have hfront := Term.wordsAll_eq ts hspells
    have hclose : [Inst.closing].filterMap (Inst.word? strings) = [] :=
      Inst.filterMap_word?_single rfl
    rw [Term.words, ← hfront, List.filterMap_append, hclose, List.append_nil]

theorem Term.wordsAll_eq {strings : List String} (ts : List Term) {code : List Inst}
    (h : Term.SpellsAll strings ts code) :
    code.filterMap (Inst.word? strings) = Term.wordsAll ts := by
  cases ts with
  | nil =>
    obtain rfl : code = [] := h
    rfl
  | cons t ts =>
    obtain ⟨front, back, rfl, ht, hts⟩ := h
    rw [Term.wordsAll, List.filterMap_append, t.words_eq ht, Term.wordsAll_eq ts hts]

end

end Pattern

end GoSift
