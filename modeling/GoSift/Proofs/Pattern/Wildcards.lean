import GoSift.Proofs.Pattern.Finding
import GoSift.Proofs.Pattern.Words

/-!
The wildcards of a pattern, by its syntax: their names, and whether one for a run stands in a list.
The term of the pattern has the same wildcards, and the same words.
-/
namespace GoSift

open Pattern

/-- The name of a wildcard; `_` is none. -/
def Node.captureName? : Node → Option String
  | .expr (.wildcard _ name _) => if name = "_" then none else some name
  | _ => none

theorem Node.word?_eq_wildcard {n : Node} {name : String} :
    n.word? = some (.wildcard name) ↔ n.captureName? = some name := by
  unfold Node.word? Node.captureName?
  split <;> simp

/-- Whether a node is a list with a wildcard for a run among its elements. Several names of a field
are a list. -/
def Node.listsRun : Node → Bool
  | .exprs xs => xs.any fun x => (runName? x).isSome
  | .stmts ss => ss.any fun s => (stmtRunName? s).isSome
  | .fields fs => fs.any fun f => (fieldRunName? f).isSome
  | .field (.mk _ (x :: y :: xs) _) => (x :: y :: xs).any fun x => (runName? x).isSome
  | _ => false

/-- The names of the wildcards in a pattern, as often as they occur. -/
def Node.captureNames (n : Node) : List String :=
  n.visits.filterMap Node.captureName?

namespace Pattern

theorem wildsAll_append (ts us : List Term) :
    Term.wildsAll (ts ++ us) = Term.wildsAll ts ++ Term.wildsAll us := by
  induction ts with
  | nil => rfl
  | cons t ts ih => simp [Term.wildsAll, ih]

theorem wildsAll_shape (op : Op) (value : Nat) (text : String) (ts : List Term) :
    Term.wildsAll [.shape op value text ts] = Term.wildsAll ts :=
  List.append_nil _

theorem wordsAll_shape (op : Op) (value : Nat) (text : String) (ts : List Term) :
    Term.wordsAll [.shape op value text ts] = (op.word? text).toList ++ Term.wordsAll ts :=
  List.append_nil _

/-- Whether the wildcards of terms are among the visits `ns`, as often as there, and none is for a run
if there is none in a list and `c` holds. If the nodes are as the parser makes them, the terms have all
their words. -/
structure Tallies (c : Prop) (ns : List Node) (ts : List Term) : Prop where
  names : (namesOf (Term.wildsAll ts)).Sublist (ns.filterMap Node.captureName?)
  runFree : c → (∀ n ∈ ns, n.listsRun = false) → RunFree (Term.wildsAll ts)
  words : (∀ n ∈ ns, n.Local) → (Term.wordsAll ts).Perm (ns.filterMap Node.word?)

namespace Tallies

variable {c c' : Prop} {n m : Node} {ns ms ks : List Node} {ts us vs : List Term} {op : Op}
  {value : Nat} {text : String}

theorem nil : Tallies c [] [] :=
  ⟨.slnil, fun _ _ => List.forall_mem_nil _, fun _ => .nil⟩

theorem weaken (h : Tallies c ns ts) (hc : c' → c) : Tallies c' ns ts :=
  ⟨h.names, fun hc' => h.runFree (hc hc'), h.words⟩

theorem append (h : Tallies c ns ts) (h' : Tallies c ms us) : Tallies c (ns ++ ms) (ts ++ us) := by
  refine ⟨?_, fun hc hruns => ?_, fun hlocal => ?_⟩
  · rw [wildsAll_append, namesOf, List.filterMap_append, List.filterMap_append]
    exact h.names.append h'.names
  · rw [wildsAll_append, runFree_append]
    exact ⟨h.runFree hc fun n hn => hruns n (List.mem_append_left _ hn),
      h'.runFree hc fun n hn => hruns n (List.mem_append_right _ hn)⟩
  · rw [Term.wordsAll_append, List.filterMap_append]
    exact (h.words fun n hn => hlocal n (List.mem_append_left _ hn)).append
      (h'.words fun n hn => hlocal n (List.mem_append_right _ hn))

theorem append_pair (h : Tallies c ns ts) (h' : Tallies c ms us) (h'' : Tallies c ks vs) :
    Tallies c (ns ++ ms ++ ks) (ts ++ (us ++ vs)) :=
  List.append_assoc ts us vs ▸ .append (.append h h') h''

/-- Nodes without words can be added. -/
theorem sublist (h : Tallies c ns ts) (hsub : ns.Sublist ms)
    (hwords : (∀ n ∈ ms, n.Local) → ms.filterMap Node.word? = ns.filterMap Node.word?) :
    Tallies c ms ts := by
  refine ⟨h.names.trans (hsub.filterMap _), fun hc hruns => ?_, fun hlocal => ?_⟩
  · exact h.runFree hc fun n hn => hruns n (hsub.mem hn)
  · rw [hwords hlocal]
    exact h.words fun n hn => hlocal n (hsub.mem hn)

theorem skip (h : Tallies c ns ts) (hn : n.word? = none := by rfl) : Tallies c (n :: ns) ts :=
  h.sublist (.cons n (.refl ns)) fun _ => List.filterMap_cons_none hn

theorem shape (h : Tallies c ns ts) (hop : op.word? text = none := by rfl) :
    Tallies c ns [.shape op value text ts] := by
  have hwilds := wildsAll_shape op value text ts
  have hwords : Term.wordsAll [.shape op value text ts] = Term.wordsAll ts := by
    rw [wordsAll_shape, hop]
    rfl
  exact ⟨hwilds ▸ h.names, fun hc hruns => hwilds ▸ h.runFree hc hruns,
    fun hlocal => hwords ▸ h.words hlocal⟩

theorem run (h : Tallies c ns ts) : Tallies c ns [.run ts] := by
  have hwilds : Term.wildsAll [.run ts] = Term.wildsAll ts := List.append_nil _
  have hwords : Term.wordsAll [.run ts] = Term.wordsAll ts := List.append_nil _
  exact ⟨hwilds ▸ h.names, fun hc hruns => hwilds ▸ h.runFree hc hruns,
    fun hlocal => hwords ▸ h.words hlocal⟩

/-- An operation has the word of one of the nodes, be it in front of the others or behind them. -/
theorem word (h : Tallies c (ns ++ ms) ts) (hop : op.word? text = n.word?) :
    Tallies c (ns ++ n :: ms) [.shape op value text ts] := by
  have hsub : (ns ++ ms).Sublist (ns ++ n :: ms) := (List.sublist_cons_self n ms).append_left ns
  have hwilds := wildsAll_shape op value text ts
  refine ⟨hwilds ▸ h.names.trans (hsub.filterMap _), fun hc hruns => ?_, fun hlocal => ?_⟩
  · exact hwilds ▸ h.runFree hc fun n hn => hruns n (hsub.mem hn)
  · have hrest := h.words fun n hn => hlocal n (hsub.mem hn)
    rw [wordsAll_shape, hop]
    cases hn : n.word? with
    | none =>
      rw [List.filterMap_append, List.filterMap_cons_none hn, ← List.filterMap_append]
      exact hrest
    | some w =>
      rw [List.filterMap_append, List.filterMap_cons_some hn]
      rw [List.filterMap_append] at hrest
      exact (hrest.cons w).trans List.perm_middle.symm

theorem node (h : Tallies c ns ts) (hop : op.word? text = n.word? := by rfl) :
    Tallies c (n :: ns) [.shape op value text ts] := by
  have hfront : Tallies c ([] ++ ns) ts := h
  exact hfront.word hop

theorem wild {pos : Position} {name : String} {any : Bool} {slot : Slot} (h : c → slot ≠ .seq) :
    Tallies c [.expr (.wildcard pos name any)] [.named name slot] := by
  refine ⟨?_, fun hc _ => ?_, fun _ => ?_⟩
  · by_cases hname : name = "_" <;>
      simp [Term.wildsAll, Term.wilds, Term.named, namesOf, Node.captureName?, hname]
  · simpa [Term.wildsAll, Term.wilds, Term.named, RunFree] using h hc
  · by_cases hname : name = "_" <;>
      simp [Term.wordsAll, Term.words, Term.named, Node.word?, hname]

theorem signature {results : List Field} {ps rs : List Term} (hps : Tallies c ns ps)
    (hrs : Tallies c ms rs) (hnil : results = [] → ms = []) :
    Tallies c (ns ++ ms) [.signature results ps rs] := by
  unfold Term.signature
  split
  · next h =>
    rw [hnil (List.isEmpty_iff.1 h), List.append_nil]
    exact .shape (.shape (.run hps))
  · exact .shape (.append (.shape (.run hps)) (.shape (.run hrs)))

end Tallies

end Pattern

theorem eq_wildcard_of_runName? {x : Expr} {name : String} (h : runName? x = some name) :
    ∃ pos, x = .wildcard pos name true := by
  unfold runName? at h
  split at h
  · exact ⟨_, by rw [Option.some.inj h]⟩
  · cases h

theorem eq_wildcard_of_stmtRunName? {s : Stmt} {name : String} (h : stmtRunName? s = some name) :
    ∃ pos pos', s = .expr pos (.wildcard pos' name true) := by
  cases s with
  | expr pos x =>
    obtain ⟨pos', rfl⟩ := eq_wildcard_of_runName? h
    exact ⟨pos, pos', rfl⟩
  | _ => cases h

theorem eq_wildcard_of_wildcard? {x : Expr} {name : String} {any : Bool}
    (h : x.wildcard? = some (name, any)) : ∃ pos, x = .wildcard pos name any := by
  cases x with
  | wildcard => cases h; exact ⟨_, rfl⟩
  | _ => cases h

namespace Pattern.Tallies

variable {c : Prop} {ts : List Term}

theorem list {n : Node} {ns : List Node} (h : Tallies c ns ts) (hc : n.listsRun = false → c)
    (hn : n.word? = none := by rfl) : Tallies True (n :: ns) ts := by
  obtain ⟨hnames, hfree, hwords⟩ := h.skip hn
  exact ⟨hnames, fun _ hruns => hfree (hc (hruns n (.head _))) hruns, hwords⟩

theorem forall_eq_none_of_any {α β : Type} {name? : α → Option β} {xs : List α}
    (h : (xs.any fun x => (name? x).isSome) = false) : ∀ x ∈ xs, name? x = none := by
  simpa using h

theorem exprs {xs : List Expr}
    (h : Tallies (∀ x ∈ xs, runName? x = none) (Expr.eachVisits xs) ts) :
    Tallies True (Expr.listVisits xs) ts := by
  cases xs with
  | nil => exact h.weaken fun _ => List.forall_mem_nil _
  | cons x xs => exact h.list forall_eq_none_of_any rfl

theorem fields {fs : List Field}
    (h : Tallies (∀ f ∈ fs, fieldRunName? f = none) (Field.eachVisits fs) ts) :
    Tallies True (Field.listVisits fs) ts := by
  cases fs with
  | nil => exact h.weaken fun _ => List.forall_mem_nil _
  | cons f fs => exact h.list forall_eq_none_of_any rfl

theorem stmts {ss : List Stmt}
    (h : Tallies (∀ s ∈ ss, stmtRunName? s = none) (Stmt.eachVisits ss) ts) :
    Tallies True (Stmt.listVisits ss) ts := by
  cases ss with
  | nil => exact h.weaken fun _ => List.forall_mem_nil _
  | cons s ss => exact h.list forall_eq_none_of_any rfl

end Pattern.Tallies

mutual

theorem Expr.tallies (x : Expr) : Tallies True x.visits [x.term] := by
  cases x with
  | wildcard => exact .wild fun _ => nofun
  | ident | lit => exact .node .nil
  | composite _ type elts =>
    exact .node (.append (Expr.tallies_opt type) (.run (.exprs (Expr.tallies_each elts))))
  | funcLit _ params results body =>
    exact .node (.append (.signature (.fields (Field.tallies_each params))
      (.fields (Field.tallies_each results)) (by rintro rfl; rfl)) body.tallies)
  | paren _ x | star _ x | unary _ _ x => exact .node x.tallies
  | selector _ x sel =>
    have hx := x.tallies
    have hsel := sel.tallies
    rw [Expr.term]
    cases hname : sel.identName? with
    | none => exact .node (.append hx hsel)
    | some name =>
      cases sel with
      | ident pos _ =>
        cases hname
        refine .skip (.word ?_ rfl)
        rwa [List.append_nil]
      | _ => cases hname
  | index _ x y | binary _ _ x y => exact .node (.append x.tallies y.tallies)
  | slice _ x low high max =>
    exact .node (.append (.append (.append x.tallies (Expr.tallies_opt low))
      (Expr.tallies_opt high)) (Expr.tallies_opt max))
  | typeAssert _ x type => exact .node (.append x.tallies (Expr.tallies_opt type))
  | call _ fn args => exact .node (.append fn.tallies (.run (.exprs (Expr.tallies_each args))))
  | keyValue _ x y | mapType _ x y => exact .node (.append x.tallies y.tallies)
  | arrayType _ len elem => exact .node (.append (Expr.tallies_opt len) elem.tallies)
  | ellipsis _ elem => exact .node (Expr.tallies_opt elem)
  | chanType _ _ x => exact .node x.tallies
  | funcType _ params results =>
    exact .skip (.signature (.fields (Field.tallies_each params))
      (.fields (Field.tallies_each results)) (by rintro rfl; rfl))
  | structType _ fields | interfaceType _ fields =>
    exact .node (.shape (.run (.fields (Field.tallies_each fields))))

theorem Expr.tallies_opt (x : Option Expr) : Tallies True (Expr.optVisits x) (Expr.termOpt x) := by
  cases x with
  | none => exact .nil
  | some x => exact x.tallies

theorem Expr.tallies_slot (x : Option Expr) : Tallies True (Expr.optVisits x) (Expr.termSlot x) := by
  cases x with
  | none => exact .nil
  | some x =>
    have hx := x.tallies
    rw [Expr.termSlot]
    cases hrun : runName? x with
    | none => exact hx
    | some name =>
      obtain ⟨pos, rfl⟩ := eq_wildcard_of_runName? hrun
      exact .wild fun _ => nofun

theorem Expr.tallies_each (xs : List Expr) :
    Tallies (∀ x ∈ xs, runName? x = none) (Expr.eachVisits xs) (Expr.terms xs) := by
  cases xs with
  | nil => exact .nil
  | cons x xs =>
    have hx : Tallies (∀ y ∈ x :: xs, runName? y = none) x.visits [x.term] :=
      x.tallies.weaken fun _ => trivial
    have hxs : Tallies (∀ y ∈ x :: xs, runName? y = none) (Expr.eachVisits xs) (Expr.terms xs) :=
      (Expr.tallies_each xs).weaken fun h y hy => h y (.tail _ hy)
    rw [Expr.terms]
    cases hrun : runName? x with
    | none => exact .append hx hxs
    | some name =>
      obtain ⟨pos, rfl⟩ := eq_wildcard_of_runName? hrun
      exact .append (.wild fun h => nomatch h _ (.head _)) hxs

theorem Expr.tallies_only (xs : List Expr) : Tallies True (Expr.eachVisits xs) (Expr.termEach xs) := by
  cases xs with
  | nil => exact .nil
  | cons x xs => exact .append x.tallies (Expr.tallies_only xs)

theorem Expr.tallies_listOpt (xs : Option (List Expr)) :
    Tallies True (Expr.listOptVisits xs) (Expr.termsOpt xs) := by
  cases xs with
  | none => exact .nil
  | some xs => exact .run (.exprs (Expr.tallies_each xs))

theorem Field.tallies (f : Field) : Tallies (fieldRunName? f = none) f.visits [f.term] := by
  obtain ⟨pos, names, type⟩ := f
  have htype := type.tallies
  have hnames := Expr.tallies_each names
  rw [Field.term.eq_def]
  match names with
  | [] =>
    dsimp only
    cases hwild : type.wildcard? with
    | none => exact .weaken (.node htype) fun _ => trivial
    | some w =>
      obtain ⟨pos, rfl⟩ := eq_wildcard_of_wildcard? hwild
      refine .skip (.wild fun hnone => ?_)
      cases w with | mk name any => cases any <;> simp_all [fieldRunName?, runName?]
  | [name] =>
    have hname := name.tallies
    dsimp only
    cases hident : name.identName? with
    | none =>
      have hone : Tallies True (Expr.eachVisits [name]) [name.term] := by
        simpa only [Expr.eachVisits, List.append_nil] using hname
      exact .weaken (.node (.append hone htype)) fun _ => trivial
    | some ident =>
      cases name with
      | ident pos _ =>
        cases hident
        exact .weaken (.skip (.node htype)) fun _ => trivial
      | _ => cases hident
  | x :: y :: names =>
    have htype' : Tallies (∀ z ∈ x :: y :: names, runName? z = none) type.visits [type.term] :=
      htype.weaken fun _ => trivial
    refine .weaken (.list (.shape (.append (.run hnames) htype')) ?_) fun _ => trivial
    simp [Node.listsRun]

theorem Field.tallies_each (fs : List Field) :
    Tallies (∀ f ∈ fs, fieldRunName? f = none) (Field.eachVisits fs) (Field.terms fs) := by
  cases fs with
  | nil => exact .nil
  | cons f fs =>
    exact .append (f.tallies.weaken fun h => h f (.head _))
      ((Field.tallies_each fs).weaken fun h g hg => h g (.tail _ hg))

theorem Stmt.tallies (s : Stmt) : Tallies True s.visits [s.term] := by
  cases s with
  | expr _ x =>
    have hx := x.tallies
    rw [Stmt.term]
    cases hwild : x.wildcard? with
    | none => exact .node hx
    | some w =>
      obtain ⟨pos, rfl⟩ := eq_wildcard_of_wildcard? hwild
      exact .skip (.wild fun _ => nofun)
  | send _ x y => exact .node (.append x.tallies y.tallies)
  | incDec _ x | go _ x | defer _ x => exact .node x.tallies
  | assign _ lhs op rhs =>
    have hl := Expr.tallies_each lhs
    have hr := Expr.tallies_each rhs
    have hl' := Expr.tallies_only lhs
    have hr' := Expr.tallies_only rhs
    rw [Stmt.term]
    split
    · exact .node (.append (.exprs (hl'.weaken fun _ => trivial))
        (.exprs (hr'.weaken fun _ => trivial)))
    · exact .node (.append (.run (.exprs hl)) (.run (.exprs hr)))
  | var _ names type values =>
    exact .node (.append (.append (.run (.exprs (Expr.tallies_each names)))
      (Expr.tallies_opt type)) (.run (.exprs (Expr.tallies_each values))))
  | ret _ results => exact .node (.run (.exprs (Expr.tallies_each results)))
  | branch _ kind label => cases label <;> exact .node .nil
  | empty => exact .node .nil
  | labeled _ _ s => exact .node s.tallies
  | block _ ss => exact .node (.run (.stmts (Stmt.tallies_each ss)))
  | cond _ init test body other =>
    exact .node (.append (.append_pair (Stmt.tallies_slot init) test.tallies body.tallies)
      (Stmt.tallies_opt other))
  | switch _ init tag body =>
    exact .node (.append (.append (Stmt.tallies_slot init) (Expr.tallies_slot tag))
      body.tallies)
  | typeSwitch _ init guard body =>
    exact .node (.append_pair (Stmt.tallies_slot init) guard.tallies body.tallies)
  | clause _ list body =>
    exact .node (.append (Expr.tallies_listOpt list) (.run (.stmts (Stmt.tallies_each body))))
      (by cases list <;> rfl)
  | loop _ init test post body =>
    exact .node (.append (.append (.append (Stmt.tallies_slot init) (Expr.tallies_slot test))
      (Stmt.tallies_slot post)) body.tallies)
  | range pos key value define x body =>
    cases key with
    | none =>
      -- a value without a key is left out of the term, but the parser makes none
      have hparts : Tallies True
          (.stmt (.range pos none value define x body) :: (x.visits ++ body.visits))
          [.plain .rangeAll [x.term, body.term]] := .node (.append x.tallies body.tallies)
      refine hparts.sublist ?_ fun hlocal => ?_
      · exact .cons_cons _ (.append (List.sublist_append_right ..) (.refl _))
      · obtain ⟨hvalue, -⟩ := hlocal _ (.head _) rfl
        obtain rfl := Option.isNone_iff_eq_none.1 hvalue
        rfl
    | some key =>
      exact .node (.append_pair (.append key.tallies (Expr.tallies_opt value)) x.tallies
        body.tallies) (by cases value <;> rfl)

theorem Stmt.tallies_opt (s : Option Stmt) : Tallies True (Stmt.optVisits s) (Stmt.termOpt s) := by
  cases s with
  | none => exact .nil
  | some s => exact s.tallies

theorem Stmt.tallies_slot (s : Option Stmt) : Tallies True (Stmt.optVisits s) (Stmt.termSlot s) := by
  cases s with
  | none => exact .nil
  | some s =>
    have hs := s.tallies
    rw [Stmt.termSlot]
    cases hrun : stmtRunName? s with
    | none => exact hs
    | some name =>
      obtain ⟨pos, pos', rfl⟩ := eq_wildcard_of_stmtRunName? hrun
      exact .skip (.wild fun _ => nofun)

theorem Stmt.tallies_each (ss : List Stmt) :
    Tallies (∀ s ∈ ss, stmtRunName? s = none) (Stmt.eachVisits ss) (Stmt.terms ss) := by
  cases ss with
  | nil => exact .nil
  | cons s ss =>
    have hs : Tallies (∀ u ∈ s :: ss, stmtRunName? u = none) s.visits [s.term] :=
      s.tallies.weaken fun _ => trivial
    have hss : Tallies (∀ u ∈ s :: ss, stmtRunName? u = none) (Stmt.eachVisits ss)
        (Stmt.terms ss) :=
      (Stmt.tallies_each ss).weaken fun h u hu => h u (.tail _ hu)
    rw [Stmt.terms]
    cases hrun : stmtRunName? s with
    | none => exact .append hs hss
    | some name =>
      obtain ⟨pos, pos', rfl⟩ := eq_wildcard_of_stmtRunName? hrun
      exact .append (.skip (.wild fun h => nomatch h _ (.head _))) hss

end

end GoSift
