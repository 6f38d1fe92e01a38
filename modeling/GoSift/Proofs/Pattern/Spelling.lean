import GoSift.Proofs.Pattern.Term
import GoSift.Proofs.Syntax.Regular

/-!
The code of a pattern spells its term out. Texts are only added to the table, each of them once, so
that code stays good while more of the pattern is encoded.
-/
namespace GoSift.Pattern

namespace Term

variable {strings : List String} {t : Term} {ts us : List Term} {op : Op} {value i : Nat}
  {text : String} {code code' : List Inst}

theorem SpellsAll.nil : SpellsAll strings [] [] := by
  simp [SpellsAll]

theorem SpellsAll.single (h : t.Spells strings code) : SpellsAll strings [t] code := by
  simpa [SpellsAll] using h

theorem SpellsAll.append (h : SpellsAll strings ts code) (h' : SpellsAll strings us code') :
    SpellsAll strings (ts ++ us) (code ++ code') := by
  induction ts generalizing code with
  | nil =>
    simp only [SpellsAll] at h
    simpa [h] using h'
  | cons t ts ih =>
    obtain ⟨front, back, rfl, ht, hts⟩ := h
    exact ⟨front, back ++ code', List.append_assoc .., ht, ih hts⟩

theorem SpellsAll.cons (h : t.Spells strings code) (h' : SpellsAll strings ts code') :
    SpellsAll strings (t :: ts) (code ++ code') :=
  .append (.single h) h'

theorem SpellsAll.pair {u : Term} (h : t.Spells strings code) (h' : u.Spells strings code') :
    SpellsAll strings [t, u] (code ++ code') :=
  .cons h (.single h')

theorem Spells.coded (hop : op.isShape) (htext : op.hasText = false)
    (h : SpellsAll strings ts code) (hargs : ts.map kind = op.args := by simp [Op.args]) :
    (Term.coded op value ts).Spells strings (.coded op value :: code) :=
  ⟨0, code, rfl, hop, hargs, by simp [Inst.text?, htext], h⟩

theorem Spells.plain (hop : op.isShape) (htext : op.hasText = false)
    (h : SpellsAll strings ts code) (hargs : ts.map kind = op.args := by simp [Op.args]) :
    (Term.plain op ts).Spells strings (.plain op :: code) :=
  .coded hop htext h hargs

theorem Spells.shape (hop : op.isShape) (htext : op.hasText) (hi : strings[i]? = some text)
    (h : SpellsAll strings ts code) (hargs : ts.map kind = op.args) :
    (Term.shape op value text ts).Spells strings (⟨op, value, i⟩ :: code) :=
  ⟨i, code, rfl, hop, hargs, by simpa [Inst.text?, htext] using hi, h⟩

theorem Spells.run_nil : (Term.run []).Spells strings [.closing] :=
  ⟨[], rfl, by simp, .nil⟩

theorem Spells.run_cons (h : t.Spells strings code) (h' : (Term.run ts).Spells strings code')
    (hkind : t.kind = .one := by simp) : (Term.run (t :: ts)).Spells strings (code ++ code') := by
  obtain ⟨front, rfl, hkinds, hts⟩ := h'
  exact ⟨code ++ front, (List.append_assoc ..).symm, by simpa [hkind] using hkinds, .cons h hts⟩

end Term

/-- A table of texts without repetitions that is not too long. -/
def Compact (strings : List String) : Prop :=
  strings.Nodup ∧ strings.length ≤ maxStrings

/-- A table that texts were added to, and that is compact if it was before. -/
structure Extends (strings strings' : List String) : Prop where
  isPrefix : strings <+: strings'
  compact : Compact strings → Compact strings'

theorem Extends.refl (strings : List String) : Extends strings strings :=
  ⟨List.prefix_rfl, id⟩

theorem Extends.trans {strings strings' strings'' : List String} (h : Extends strings strings')
    (h' : Extends strings' strings'') : Extends strings strings'' :=
  ⟨h.isPrefix.trans h'.isPrefix, h'.compact ∘ h.compact⟩

/-- A text that is not in the table yet goes to its end, if there is room. -/
theorem Extends.push {strings : List String} {s : String} (hs : s ∉ strings)
    (hroom : strings.length < maxStrings) : Extends strings (strings ++ [s]) := by
  refine ⟨List.prefix_append .., fun ⟨hnodup, _⟩ => ⟨?_, ?_⟩⟩
  · refine List.nodup_append.2 ⟨hnodup, by simp, ?_⟩
    rintro a ha _ hb rfl
    exact hs (List.mem_singleton.1 hb ▸ ha)
  · rw [List.length_append, List.length_singleton]
    exact hroom

/-- Errors that concern a pattern as a whole, or something in it at a place in `S`. -/
inductive PlacedIn (S : Position → Prop) : PatternError → Prop
  | empty : PlacedIn S .empty
  | limit {what : PatternLimit} : PlacedIn S (.limit what)
  | unsupported {pos : Position} {what : UnsupportedPattern} (h : S pos) :
      PlacedIn S (.unsupported (.point pos) what)

/-- What an encoder makes, whatever texts are added to the table later, and where it fails. -/
def Makes {α : Type} (S : Position → Prop) (m : Encoder α) (P : List String → α → Prop) : Prop :=
  ∀ strings, match m strings with
    | .ok (a, strings') => Extends strings strings' ∧ ∀ table, strings' <+: table → P table a
    | .error e => PlacedIn S e

namespace Makes

variable {α β : Type} {S : Position → Prop} {m : Encoder α} {f : α → Encoder β}
  {P : List String → α → Prop} {Q : List String → β → Prop}

theorem pure {a : α} (h : ∀ table, P table a) : Makes S (Pure.pure a) P :=
  fun _ => ⟨.refl _, fun table _ => h table⟩

theorem throw {e : PatternError} (h : PlacedIn S e) : Makes S (MonadExcept.throw e) P :=
  fun _ => h

theorem bind (hm : Makes S m P) (hf : ∀ a, Makes S (f a) fun table b => P table a → Q table b) :
    Makes S (m >>= f) Q := by
  intro strings
  have hfirst := hm strings
  simp only [Bind.bind, StateT.bind, Except.bind]
  cases hr : m strings with
  | error e =>
    rw [hr] at hfirst
    exact hfirst
  | ok r =>
    obtain ⟨a, strings'⟩ := r
    rw [hr] at hfirst
    have hnext := hf a strings'
    dsimp only
    cases hr' : f a strings' with
    | error e =>
      rw [hr'] at hnext
      exact hnext
    | ok r =>
      rw [hr'] at hnext
      refine ⟨hfirst.1.trans hnext.1, fun table ht => hnext.2 table ht ?_⟩
      exact hfirst.2 table (hnext.1.isPrefix.trans ht)

theorem map {g : α → β} (hm : Makes S m P) (hg : ∀ table a, P table a → Q table (g a)) :
    Makes S (do return g (← m)) Q :=
  bind hm fun a => pure fun table h => hg table a h

theorem mono {Q : List String → α → Prop} (hm : Makes S m P) (h : ∀ table a, P table a → Q table a) :
    Makes S m Q := by
  rw [← bind_pure m]
  exact map hm h

theorem limited {γ : Type} {xs : List γ} {limit : PatternLimit} {code : Encoder (List Inst)}
    {P : List String → List Inst → Prop} (h : Makes S code P) :
    Makes S (Pattern.limited xs limit code) P := by
  unfold Pattern.limited
  split
  · exact throw .limit
  · exact h

theorem intern (s : String) : Makes S (Pattern.intern s) fun table i => table[i]? = some s := by
  intro strings
  unfold Pattern.intern
  cases hs : strings.idxOf? s with
  | some j =>
    refine ⟨.refl _, fun table ht => ?_⟩
    obtain ⟨hlt, heq, -⟩ := List.idxOf?_eq_some_iff.1 hs
    obtain ⟨more, rfl⟩ := ht
    rw [List.getElem?_append_left hlt, List.getElem?_eq_getElem hlt]
    simpa using heq
  | none =>
    dsimp only
    by_cases hroom : strings.length < maxStrings
    · rw [if_pos hroom]
      refine ⟨.push (List.idxOf?_eq_none_iff.1 hs) hroom, fun table ht => ?_⟩
      obtain ⟨more, rfl⟩ := ht
      simp
    · rw [if_neg hroom]
      exact .limit

theorem withText (op : Op) (s : String) (value : Nat) :
    Makes S (Pattern.withText op s value) fun table code =>
      ∃ i, table[i]? = some s ∧ code = [⟨op, value, i⟩] :=
  map (intern s) fun _ i hi => ⟨i, hi, rfl⟩

theorem wildcard (name : String) (slot : Slot) :
    Makes S (encodeWildcard name slot) fun table code =>
      (Term.named name slot).Spells table code := by
  unfold encodeWildcard Term.named
  split
  · exact pure fun table => by simp [Term.Spells]
  · exact mono (withText _ _ _) fun table code h => by simpa [Term.Spells] using h

/-- An instruction with a text and no arguments. -/
theorem leaf {op : Op} {text : String} {value : Nat} (hop : op.isShape) (htext : op.hasText)
    (hargs : op.args = []) :
    Makes S (Pattern.withText op text value) fun table code =>
      (Term.shape op value text []).Spells table code := by
  refine mono (withText _ _ _) fun table code h => ?_
  obtain ⟨i, hi, rfl⟩ := h
  exact .shape hop htext hi .nil hargs.symm

/-- An instruction with a text in front of code. -/
theorem shape {op : Op} {text : String} {value : Nat} {args : List Term}
    {code : Encoder (List Inst)} (hop : op.isShape) (htext : op.hasText)
    (hargs : args.map Term.kind = op.args)
    (h : Makes S code fun table c => Term.SpellsAll table args c) :
    Makes S (do return (← Pattern.withText op text value) ++ (← code)) fun table c =>
      (Term.shape op value text args).Spells table c :=
  bind (withText op text value) fun head => map h fun table rest hrest => by
    rintro ⟨i, hi, rfl⟩
    exact .shape hop htext hi hrest hargs

theorem fieldList {fields : List Field} {elements : List Term} {code : Encoder (List Inst)}
    (h : Makes S code fun table c => (Term.run elements).Spells table c) :
    Makes S (fieldListOf fields code) fun table c => (Term.fieldList elements).Spells table c :=
  limited <| map h fun _ _ hc => .plain rfl rfl (.single hc)

theorem signature {results : List Field} {params' results' : List Term}
    {ps rs : Encoder (List Inst)}
    (hps : Makes S ps fun table c => (Term.fieldList params').Spells table c)
    (hrs : Makes S rs fun table c => (Term.fieldList results').Spells table c) :
    Makes S (signatureOf results ps rs) fun table c =>
      (Term.signature results params' results').Spells table c := by
  refine bind hps fun p => ?_
  unfold Term.signature
  split
  · exact pure fun _ hp => .plain rfl rfl (.single hp)
  · exact map hrs fun _ _ hr hp => .plain rfl rfl (.pair hp hr)

end Makes

end GoSift.Pattern

namespace GoSift

open Pattern

section

variable {S : Position → Prop}

mutual

theorem Expr.spelled (x : Expr) (h : x.Each (Node.At S)) (depth : Nat) :
    Makes S (encodeExpr depth x) fun table code => x.term.Spells table code := by
  rw [encodeExpr.eq_def]
  obtain ⟨hpos, h⟩ := Expr.each_iff.mp h
  split
  · exact .throw .limit
  cases x with
  | wildcard _ name any => exact .wildcard name .single
  | ident _ name => exact .leaf rfl rfl rfl
  | lit _ kind text => exact .leaf rfl rfl rfl
  | composite _ type elts =>
    cases type with
    | none =>
      exact .map (.limited (Expr.spelled_list elts h.2 (depth + 1))) fun _ _ h =>
        .plain rfl rfl (.single h)
    | some type =>
      exact .bind (type.spelled (h.1 type rfl) (depth + 1)) fun _ =>
        .map (.limited (Expr.spelled_list elts h.2 (depth + 1))) fun _ _ he ht =>
          .plain rfl rfl (.pair ht he)
  | funcLit _ params results body =>
    exact .bind (.signature (.fieldList (Field.spelled_list params h.1 (depth + 1)))
        (.fieldList (Field.spelled_list results h.2.1 (depth + 1)))) fun _ =>
      .map (body.spelled h.2.2 (depth + 1)) fun _ _ hb hs => .plain rfl rfl (.pair hs hb)
  | paren _ x => exact .map (x.spelled h (depth + 1)) fun _ _ h => .plain rfl rfl (.single h)
  | selector _ x sel =>
    have hx := x.spelled h.1 (depth + 1)
    have hsel := sel.spelled h.2 (depth + 1)
    rw [Expr.term]
    dsimp only
    split
    · next name _ _ hname =>
      rw [hname]
      exact .shape rfl rfl (by simp [Op.args]) (.mono hx fun _ _ h => .single h)
    · exact .throw (.unsupported h.2.at)
    · next hname _ =>
      rw [hname]
      exact .bind hx fun _ => .map hsel fun _ _ hsel hx => .plain rfl rfl (.pair hx hsel)
  | index _ x i =>
    exact .bind (x.spelled h.1 (depth + 1)) fun _ => .map (i.spelled h.2 (depth + 1)) fun _ _ hi hx =>
      .plain rfl rfl (.pair hx hi)
  | slice pos x low high max full =>
    dsimp only
    split
    · exact .throw (.unsupported hpos)
    · exact .bind (x.spelled h.1 (depth + 1)) fun _ =>
        .bind (Expr.spelled_opt low h.2.1 (depth + 1)) fun _ =>
        .bind (Expr.spelled_opt high h.2.2.1 (depth + 1)) fun _ =>
        .map (Expr.spelled_opt max h.2.2.2 (depth + 1)) fun _ _ hmax hhigh hlow hx =>
          .plain rfl rfl (.append (.append (.append (.single hx) hlow) hhigh) hmax)
  | typeAssert _ x type =>
    exact .bind (x.spelled h.1 (depth + 1)) fun _ =>
      .map (Expr.spelled_opt type h.2 (depth + 1)) fun _ _ ht hx => .plain rfl rfl (.cons hx ht)
  | call _ fn args spread =>
    exact .bind (fn.spelled h.1 (depth + 1)) fun _ =>
      .map (.limited (Expr.spelled_list args h.2 (depth + 1))) fun _ _ ha hf =>
        .plain rfl rfl (.pair hf ha)
  | star _ x => exact .map (x.spelled h (depth + 1)) fun _ _ h => .plain rfl rfl (.single h)
  | unary _ op x => exact .map (x.spelled h (depth + 1)) fun _ _ h => .coded rfl rfl (.single h)
  | binary _ op x y =>
    exact .bind (x.spelled h.1 (depth + 1)) fun _ => .map (y.spelled h.2 (depth + 1)) fun _ _ hy hx =>
      .coded rfl rfl (.pair hx hy)
  | keyValue _ key value =>
    exact .bind (key.spelled h.1 (depth + 1)) fun _ => .map (value.spelled h.2 (depth + 1)) fun _ _ hv hk =>
      .plain rfl rfl (.pair hk hv)
  | arrayType _ len elem =>
    exact .bind (Expr.spelled_opt len h.1 (depth + 1)) fun _ =>
      .map (elem.spelled h.2 (depth + 1)) fun _ _ he hl => .plain rfl rfl (.append hl (.single he))
  | ellipsis _ elem =>
    exact .map (Expr.spelled_opt elem h (depth + 1)) fun _ _ h => .plain rfl rfl h
  | mapType _ key value =>
    exact .bind (key.spelled h.1 (depth + 1)) fun _ => .map (value.spelled h.2 (depth + 1)) fun _ _ hv hk =>
      .plain rfl rfl (.pair hk hv)
  | chanType _ dir value =>
    exact .map (value.spelled h (depth + 1)) fun _ _ h => .coded rfl rfl (.single h)
  | funcType _ params results =>
    exact .signature (.fieldList (Field.spelled_list params h.1 (depth + 1)))
      (.fieldList (Field.spelled_list results h.2 (depth + 1)))
  | structType _ fields =>
    exact .map (.fieldList (Field.spelled_list fields h (depth + 1))) fun _ _ h =>
      .plain rfl rfl (.single h)
  | interfaceType _ methods =>
    exact .map (.fieldList (Field.spelled_list methods h (depth + 1))) fun _ _ h =>
      .plain rfl rfl (.single h)

theorem Expr.spelled_opt (x : Option Expr) (h : ∀ y ∈ x, y.Each (Node.At S)) (depth : Nat) :
    Makes S (encodeExprOpt depth x) fun table code => Term.SpellsAll table (Expr.termOpt x) code := by
  cases x with
  | none => exact .pure fun _ => .nil
  | some x => exact .mono (x.spelled (h x rfl) depth) fun _ _ h => .single h

theorem Expr.spelled_slot (x : Option Expr) (h : ∀ y ∈ x, y.Each (Node.At S)) (depth : Nat) :
    Makes S (encodeExprSlot depth x) fun table code => Term.SpellsAll table (Expr.termSlot x) code := by
  cases x with
  | none => exact .pure fun _ => .nil
  | some x =>
    have hx := x.spelled (h x rfl) depth
    rw [encodeExprSlot, Expr.termSlot]
    cases runName? x with
    | none => exact .mono hx fun _ _ h => .single h
    | some name => exact .mono (.wildcard name .opt) fun _ _ h => .single h

theorem Expr.spelled_list (xs : List Expr) (h : ∀ x ∈ xs, x.Each (Node.At S)) (depth : Nat) :
    Makes S (encodeExprs depth xs) fun table code =>
      (Term.run (Expr.terms xs)).Spells table code := by
  cases xs with
  | nil => exact .pure fun _ => .run_nil
  | cons x xs =>
    obtain ⟨h, hs⟩ := List.forall_mem_cons.mp h
    have hx := x.spelled h depth
    have hxs := Expr.spelled_list xs hs depth
    rw [encodeExprs, Expr.terms]
    cases runName? x with
    | none => exact .bind hx fun _ => .map hxs fun _ _ hxs hx => .run_cons hx hxs
    | some name =>
      exact .bind (.wildcard name .seq) fun _ => .map hxs fun _ _ hxs hx => .run_cons hx hxs

theorem Expr.spelled_each (xs : List Expr) (h : ∀ x ∈ xs, x.Each (Node.At S)) (depth : Nat) :
    Makes S (encodeOnly depth xs) fun table code =>
      Term.SpellsAll table (Expr.termEach xs) code := by
  cases xs with
  | nil => exact .pure fun _ => .nil
  | cons x xs =>
    obtain ⟨h, hs⟩ := List.forall_mem_cons.mp h
    exact .bind (x.spelled h depth) fun _ => .map (Expr.spelled_each xs hs depth) fun _ _ hxs hx =>
      .cons hx hxs

theorem Expr.spelled_listOpt (xs : Option (List Expr))
    (h : ∀ ys ∈ xs, ∀ x ∈ ys, x.Each (Node.At S)) (depth : Nat) :
    Makes S (encodeExprsOpt depth xs) fun table code =>
      Term.SpellsAll table (Expr.termsOpt xs) code := by
  cases xs with
  | none => exact .pure fun _ => .nil
  | some xs => exact .mono (.limited (Expr.spelled_list xs (h xs rfl) depth)) fun _ _ h => .single h

theorem Field.spelled (f : Field) (h : f.Each (Node.At S)) (depth : Nat) :
    Makes S (encodeField depth f) fun table code => f.term.Spells table code := by
  obtain ⟨_, names, type⟩ := f
  obtain ⟨h, ht⟩ := Field.each_iff.mp h
  have htype := type.spelled ht depth
  cases names with
  | nil =>
    rw [encodeField.eq_def, Field.term.eq_def]
    dsimp only
    cases type.wildcard? with
    | none => exact .map htype fun _ _ h => .plain rfl rfl (.single h)
    | some w => exact .wildcard _ _
  | cons name names =>
    have hname := name.spelled (h name List.mem_cons_self) depth
    have hnames := Expr.spelled_list (name :: names) h depth
    cases names with
    | nil =>
      rw [encodeField, Field.term]
      cases name.identName? with
      | none => exact .bind hname fun _ => .map htype fun _ _ ht hn => .plain rfl rfl (.pair hn ht)
      | some ident => exact .shape rfl rfl (by simp [Op.args]) (.mono htype fun _ _ h => .single h)
    | cons name' names =>
      exact .bind (.limited hnames) fun _ => .map htype fun _ _ ht hn =>
        .plain rfl rfl (.pair hn ht)

theorem Field.spelled_list (fs : List Field) (h : ∀ f ∈ fs, f.Each (Node.At S)) (depth : Nat) :
    Makes S (encodeFields depth fs) fun table code =>
      (Term.run (Field.terms fs)).Spells table code := by
  cases fs with
  | nil => exact .pure fun _ => .run_nil
  | cons f fs =>
    obtain ⟨h, hs⟩ := List.forall_mem_cons.mp h
    exact .bind (f.spelled h depth) fun _ => .map (Field.spelled_list fs hs depth) fun _ _ hfs hf =>
      .run_cons hf hfs

theorem Stmt.spelled (s : Stmt) (h : s.Each (Node.At S)) (depth : Nat) :
    Makes S (encodeStmt depth s) fun table code => s.term.Spells table code := by
  rw [encodeStmt.eq_def]
  obtain ⟨hpos, h⟩ := Stmt.each_iff.mp h
  split
  · exact .throw .limit
  cases s with
  | expr _ x =>
    have hx := x.spelled h (depth + 1)
    rw [Stmt.term]
    dsimp only
    cases x.wildcard? with
    | none => exact .map hx fun _ _ h => .plain rfl rfl (.single h)
    | some w => exact .wildcard _ _
  | send _ chan value =>
    exact .bind (chan.spelled h.1 (depth + 1)) fun _ =>
      .map (value.spelled h.2 (depth + 1)) fun _ _ hv hc => .plain rfl rfl (.pair hc hv)
  | incDec _ x up => exact .map (x.spelled h (depth + 1)) fun _ _ h => .coded rfl rfl (.single h)
  | assign _ lhs op rhs =>
    have hlhs := Expr.spelled_list lhs h.1 (depth + 1)
    have hrhs := Expr.spelled_list rhs h.2 (depth + 1)
    have hl := Expr.spelled_each lhs h.1 (depth + 1)
    have hr := Expr.spelled_each rhs h.2 (depth + 1)
    rw [Stmt.term]
    dsimp only
    split
    · next hsingle =>
      exact .bind hl fun _ => .map hr fun _ _ hr hl =>
        .coded rfl rfl (.append hl hr) (Expr.kinds_termEach hsingle)
    · exact .bind (.limited hlhs) fun _ => .map (.limited hrhs) fun _ _ hr hl =>
        .coded rfl rfl (.pair hl hr)
  | var _ names type values =>
    exact .bind (.limited (Expr.spelled_list names h.1 (depth + 1))) fun _ =>
      .bind (Expr.spelled_opt type h.2.1 (depth + 1)) fun _ =>
      .map (.limited (Expr.spelled_list values h.2.2 (depth + 1))) fun _ _ hv ht hn =>
        .plain rfl rfl (.append (.cons hn ht) (.single hv))
  | go _ x => exact .map (x.spelled h (depth + 1)) fun _ _ h => .plain rfl rfl (.single h)
  | defer _ x => exact .map (x.spelled h (depth + 1)) fun _ _ h => .plain rfl rfl (.single h)
  | ret _ results =>
    exact .map (.limited (Expr.spelled_list results h (depth + 1))) fun _ _ h =>
      .plain rfl rfl (.single h)
  | branch _ kind label =>
    cases label with
    | none => exact .pure fun _ => .coded rfl rfl .nil
    | some label => exact .leaf rfl rfl rfl
  | labeled _ label stmt =>
    exact .shape rfl rfl (by simp [Op.args]) (.mono (stmt.spelled h (depth + 1)) fun _ _ h => .single h)
  | block _ stmts =>
    exact .map (.limited (Stmt.spelled_list stmts h (depth + 1))) fun _ _ h =>
      .plain rfl rfl (.single h)
  | cond _ init test body other =>
    exact .bind (Stmt.spelled_slot init h.1 (depth + 1)) fun _ =>
      .bind (test.spelled h.2.1 (depth + 1)) fun _ =>
      .bind (body.spelled h.2.2.1 (depth + 1)) fun _ =>
      .map (Stmt.spelled_opt other h.2.2.2 (depth + 1)) fun _ _ ho hb ht hi =>
        .plain rfl rfl (by simpa using Term.SpellsAll.append hi (.cons ht (.cons hb ho)))
  | switch _ init tag body =>
    exact .bind (Stmt.spelled_slot init h.1 (depth + 1)) fun _ =>
      .bind (Expr.spelled_slot tag h.2.1 (depth + 1)) fun _ =>
      .map (body.spelled h.2.2 (depth + 1)) fun _ _ hb ht hi =>
        .plain rfl rfl (.append (.append hi ht) (.single hb))
  | typeSwitch _ init guard body =>
    exact .bind (Stmt.spelled_slot init h.1 (depth + 1)) fun _ =>
      .bind (guard.spelled h.2.1 (depth + 1)) fun _ =>
      .map (body.spelled h.2.2 (depth + 1)) fun _ _ hb hg hi => by
        rw [List.append_assoc]
        exact .plain rfl rfl (.append hi (.pair hg hb))
  | clause _ list body =>
    refine .bind (Expr.spelled_listOpt list h.1 (depth + 1)) fun _ =>
      .map (.limited (Stmt.spelled_list body h.2 (depth + 1))) fun _ _ hb hl => ?_
    cases list <;> exact .plain rfl rfl (.append hl (.single hb)) rfl
  | loop _ init test post body =>
    exact .bind (Stmt.spelled_slot init h.1 (depth + 1)) fun _ =>
      .bind (Expr.spelled_slot test h.2.1 (depth + 1)) fun _ =>
      .bind (Stmt.spelled_slot post h.2.2.1 (depth + 1)) fun _ =>
      .map (body.spelled h.2.2.2 (depth + 1)) fun _ _ hb hp ht hi =>
        .plain rfl rfl (.append (.append (.append hi ht) hp) (.single hb))
  | range _ key value define x body =>
    cases key with
    | none =>
      exact .bind (x.spelled h.2.2.1 (depth + 1)) fun _ =>
        .map (body.spelled h.2.2.2 (depth + 1)) fun _ _ hb hx => .plain rfl rfl (.pair hx hb)
    | some key =>
      refine .bind (key.spelled (h.1 key rfl) (depth + 1)) fun _ =>
        .bind (Expr.spelled_opt value h.2.1 (depth + 1)) fun _ =>
        .bind (x.spelled h.2.2.1 (depth + 1)) fun _ =>
        .map (body.spelled h.2.2.2 (depth + 1)) fun _ _ hb hx hv hk => ?_
      rw [List.append_assoc]
      cases value <;> exact .coded rfl rfl (.append (.cons hk hv) (.pair hx hb))
  | empty => exact .pure fun _ => .plain rfl rfl .nil

theorem Stmt.spelled_opt (s : Option Stmt) (h : ∀ t ∈ s, t.Each (Node.At S)) (depth : Nat) :
    Makes S (encodeStmtOpt depth s) fun table code => Term.SpellsAll table (Stmt.termOpt s) code := by
  cases s with
  | none => exact .pure fun _ => .nil
  | some s => exact .mono (s.spelled (h s rfl) depth) fun _ _ h => .single h

theorem Stmt.spelled_slot (s : Option Stmt) (h : ∀ t ∈ s, t.Each (Node.At S)) (depth : Nat) :
    Makes S (encodeStmtSlot depth s) fun table code => Term.SpellsAll table (Stmt.termSlot s) code := by
  cases s with
  | none => exact .pure fun _ => .nil
  | some s =>
    have hs := s.spelled (h s rfl) depth
    rw [encodeStmtSlot, Stmt.termSlot]
    cases stmtRunName? s with
    | none => exact .mono hs fun _ _ h => .single h
    | some name => exact .mono (.wildcard name .opt) fun _ _ h => .single h

theorem Stmt.spelled_list (ss : List Stmt) (h : ∀ s ∈ ss, s.Each (Node.At S)) (depth : Nat) :
    Makes S (encodeStmts depth ss) fun table code =>
      (Term.run (Stmt.terms ss)).Spells table code := by
  cases ss with
  | nil => exact .pure fun _ => .run_nil
  | cons s ss =>
    obtain ⟨h, hrest⟩ := List.forall_mem_cons.mp h
    have hs := s.spelled h depth
    have hss := Stmt.spelled_list ss hrest depth
    rw [encodeStmts, Stmt.terms]
    cases stmtRunName? s with
    | none => exact .bind hs fun _ => .map hss fun _ _ hss hs => .run_cons hs hss
    | some name =>
      exact .bind (.wildcard name .seq) fun _ => .map hss fun _ _ hss hs => .run_cons hs hss

end

end

end GoSift
