import GoSift.Proofs.Pattern.Captures
import GoSift.Proofs.Token.Scans
import GoSift.Rule.Template
import Mathlib.Algebra.Ring.Parity
import Mathlib.Data.List.DropRight
import Mathlib.Data.List.Forall2

/-!
Rendering as one substitution from left to right. The parts of a template are fixed by its text alone, a
match gives each of them a text of its own, and what the wildcards of a pattern are called can be said in
a template.
-/
namespace GoSift

namespace Template

/-- The characters of a part. -/
def Piece.written : Piece → List Char
  | text cs => cs
  | whole => ['$', '$']
  | name cs => '$' :: cs

/-- Whether a part can stand in front of `rest` and ends there. -/
def Piece.EndsAt (rest : List Char) : Piece → Prop
  | text cs => cs ≠ [] ∧ '$' ∉ cs ∧ ∀ c ∈ rest.head?, c = '$'
  | whole => True
  | name cs => (∀ c ∈ cs, Text.continuesWord c = true) ∧
      (∀ c ∈ rest.head?, Text.continuesWord c = false) ∧ (cs = [] → rest.head? ≠ some '$')

/-- A template and its parts from left to right. -/
inductive Decomposes : List Char → List Piece → Prop
  | nil : Decomposes [] []
  | cons {p : Piece} {rest : List Char} {ps : List Piece} (hp : p.EndsAt rest)
      (h : Decomposes rest ps) : Decomposes (p.written ++ rest) (p :: ps)

/-- The text that a part stands for. -/
inductive Piece.Expands (m : Pattern.Match) : Piece → String → Prop
  | text (cs : List Char) : Expands m (.text cs) (String.ofList cs)
  | whole : Expands m .whole m.node.text
  | capture {cs : List Char} {node : Node} (hcs : cs ≠ []) (h : m.get? (String.ofList cs) = some node) :
      Expands m (.name cs) node.text
  | unbound {cs : List Char} (h : cs = [] ∨ m.get? (String.ofList cs) = none) :
      Expands m (.name cs) (String.ofList ('$' :: cs))

variable {cs rest : List Char} {ps qs : List Piece} {p : Piece} {m : Pattern.Match}

/-! ### The parts of a template -/

theorem pieces_name (h : ∀ c ∈ cs.head?, c ≠ '$') :
    pieces ('$' :: cs) =
      .name (cs.takeWhile Text.continuesWord) :: pieces (cs.dropWhile Text.continuesWord) := by
  rw [pieces]
  rintro cs' rfl
  exact h '$' rfl rfl

theorem pieces_text {c : Char} (h : c ≠ '$') :
    pieces (c :: cs) = .text (c :: cs.takeWhile (· ≠ '$')) :: pieces (cs.dropWhile (· ≠ '$')) := by
  rw [pieces]
  all_goals simp [h]

/-- A part is cut off where it ends. -/
theorem pieces_written (h : p.EndsAt rest) : pieces (p.written ++ rest) = p :: pieces rest := by
  cases p with
  | text cs =>
    obtain ⟨hne, hcs, hrest⟩ := h
    cases cs with
    | nil => exact absurd rfl hne
    | cons c cs =>
      obtain ⟨hc, hcs⟩ := not_or.mp (List.mem_cons.not.mp hcs)
      have hrun : (cs ++ rest).takeWhile (· ≠ '$') = cs ∧ (cs ++ rest).dropWhile (· ≠ '$') = rest :=
        takeWhile_append_of_head? (fun d hd => decide_eq_true fun (hd' : d = '$') => hcs (hd' ▸ hd))
          fun d hd => decide_eq_false (not_not.mpr (hrest d hd))
      rw [Piece.written, List.cons_append, pieces_text (Ne.symm hc), hrun.1, hrun.2]
  | whole =>
    change pieces ('$' :: '$' :: rest) = _
    rw [pieces]
  | name cs =>
    obtain ⟨hcs, hrest, hempty⟩ := h
    have hhead : ∀ c ∈ (cs ++ rest).head?, c ≠ '$' := by
      cases cs with
      | nil =>
        rintro c hc rfl
        exact hempty rfl hc
      | cons d cs =>
        rintro c ⟨⟩ rfl
        exact absurd (hcs '$' List.mem_cons_self) (by decide)
    have hrun := takeWhile_append_of_head? hcs hrest
    rw [Piece.written, List.cons_append, pieces_name hhead, hrun.1, hrun.2]

theorem head?_dropWhile_eq_false (f : Char → Bool) (cs : List Char) :
    ∀ c ∈ (cs.dropWhile f).head?, f c = false := by
  intro c hc
  have h := List.head?_dropWhile_not f cs
  rw [hc] at h
  exact h

theorem decomposes_pieces (cs : List Char) : Decomposes cs (pieces cs) := by
  fun_induction pieces cs with
  | case1 => exact .nil
  | case2 cs ih => exact .cons (p := .whole) trivial ih
  | case3 cs hcs ih =>
    have hends : (Piece.name (cs.takeWhile Text.continuesWord)).EndsAt
        (cs.dropWhile Text.continuesWord) := by
      refine ⟨fun c hc => List.mem_takeWhile_imp hc, head?_dropWhile_eq_false _ _, ?_⟩
      intro hempty hrest
      have hnone : cs.dropWhile Text.continuesWord = cs := by
        have happ := List.takeWhile_append_dropWhile (p := Text.continuesWord) (l := cs)
        rwa [hempty] at happ
      rw [hnone] at hrest
      obtain ⟨cs', rfl⟩ := List.head?_eq_some_iff.mp hrest
      exact hcs cs' rfl
    have h := Decomposes.cons hends ih
    rwa [Piece.written, List.cons_append, List.takeWhile_append_dropWhile] at h
  | case4 c cs hc hc' ih =>
    have hends : (Piece.text (c :: cs.takeWhile (· ≠ '$'))).EndsAt (cs.dropWhile (· ≠ '$')) := by
      refine ⟨List.cons_ne_nil _ _, ?_, fun d hd => ?_⟩
      · rintro h
        rcases List.mem_cons.mp h with h | h
        · exact hc' h.symm
        · simpa using List.mem_takeWhile_imp h
      · exact not_not.mp (of_decide_eq_false (head?_dropWhile_eq_false _ _ d hd))
    have h := Decomposes.cons hends ih
    rwa [Piece.written, List.cons_append, List.takeWhile_append_dropWhile] at h

/-- A template has just one way to be taken apart. -/
theorem decomposes_iff : Decomposes cs ps ↔ ps = pieces cs := by
  constructor
  · intro h
    induction h with
    | nil => exact pieces_nil.symm
    | cons hp _ ih => rw [pieces_written hp, ih]
  · rintro rfl
    exact decomposes_pieces cs

/-! ### Templates put together -/

/-- How many `$` are at the end of a text. -/
def dollars (cs : List Char) : Nat :=
  (cs.rtakeWhile (· = '$')).length

theorem dollars_concat (cs : List Char) (c : Char) :
    dollars (cs ++ [c]) = if c = '$' then dollars cs + 1 else 0 := by
  rw [dollars, List.rtakeWhile_concat]
  by_cases hc : c = '$' <;> simp [hc, dollars]

theorem dollars_append_of_forall (h : ∀ c ∈ rest, c = '$') :
    dollars (cs ++ rest) = dollars cs + rest.length := by
  induction rest using List.reverseRecOn with
  | nil => simp
  | append_singleton rest c ih =>
    rw [← List.append_assoc, dollars_concat, if_pos (h c (by simp)),
      ih fun d hd => h d (List.mem_append_left _ hd), List.length_append]
    rfl

theorem dollars_append_of_exists (h : ∃ c ∈ rest, c ≠ '$') : dollars (cs ++ rest) = dollars rest := by
  induction rest using List.reverseRecOn with
  | nil => simp at h
  | append_singleton rest c ih =>
    rw [← List.append_assoc, dollars_concat, dollars_concat]
    split
    · next hc =>
      obtain ⟨d, hd, hne⟩ := h
      rcases List.mem_append.mp hd with hd | hd
      · rw [ih ⟨d, hd, hne⟩]
      · exact absurd ((List.mem_singleton.mp hd).trans hc) hne
    · rfl

theorem dollars_eq_zero (h : '$' ∉ rest) (hne : rest ≠ []) : dollars (cs ++ rest) = 0 := by
  induction rest using List.reverseRecOn with
  | nil => exact absurd rfl hne
  | append_singleton rest c _ =>
    have hc : c ≠ '$' := by
      rintro rfl
      exact h (by simp)
    rw [← List.append_assoc, dollars_concat, if_neg hc]

theorem dollar_notMem_name (h : ∀ c ∈ cs, Text.continuesWord c = true) : '$' ∉ cs := by
  intro hm
  exact absurd (h '$' hm) (by decide)

/-- A single `$` at the end is one too many for those in front of it to make pairs. -/
theorem Decomposes.odd_dollars (h : Decomposes cs ps) (hlast : ps.getLast? = some (.name [])) :
    Odd (dollars cs) := by
  induction h with
  | nil => cases hlast
  | @cons p rest ps hp h ih =>
    cases ps with
    | nil =>
      cases h
      cases hlast
      decide
    | cons q qs =>
      have hodd := ih (by simpa using hlast)
      by_cases hall : ∀ c ∈ rest, c = '$'
      · have hrest : dollars ([] ++ rest) = dollars [] + rest.length := dollars_append_of_forall hall
        have hnil : dollars [] = 0 := rfl
        rw [List.nil_append, hnil, Nat.zero_add] at hrest
        rw [hrest] at hodd
        rw [dollars_append_of_forall hall]
        cases p with
        | text cs =>
          have hzero : dollars ([] ++ cs) = 0 := dollars_eq_zero hp.2.1 hp.1
          rw [List.nil_append] at hzero
          rwa [Piece.written, hzero, Nat.zero_add]
        | whole => exact Even.add_odd (by decide) hodd
        | name cs =>
          by_cases hcs : cs = []
          · cases rest with
            | nil => exact absurd hodd (by decide)
            | cons c rest => exact absurd (congrArg some (hall c List.mem_cons_self)) (hp.2.2 hcs)
          · have hzero : dollars (['$'] ++ cs) = 0 := dollars_eq_zero (dollar_notMem_name hp.1) hcs
            rwa [Piece.written, ← List.singleton_append, hzero, Nat.zero_add]
      · rwa [dollars_append_of_exists (by simpa using hall)]

theorem Piece.EndsAt.append_dollar (h : p.EndsAt cs) (hp : cs = [] → p ≠ .name []) :
    p.EndsAt (cs ++ '$' :: rest) := by
  cases cs with
  | cons c cs => exact h
  | nil =>
    cases p with
    | text cs => exact ⟨h.1, h.2.1, by simp⟩
    | whole => trivial
    | name cs =>
      refine ⟨h.1, ?_, fun hcs => absurd (hcs ▸ rfl) (hp rfl)⟩
      rintro c ⟨⟩
      rfl

/-- Behind a text without a single `$` at its end, a `$` begins a new part. -/
theorem Decomposes.append_dollar (h : Decomposes cs ps) (hlast : ps.getLast? ≠ some (.name []))
    (h' : Decomposes ('$' :: rest) qs) : Decomposes (cs ++ '$' :: rest) (ps ++ qs) := by
  induction h with
  | nil => exact h'
  | @cons p cs ps hp h ih =>
    rw [List.append_assoc]
    refine .cons (hp.append_dollar ?_) (ih fun hps => hlast ?_)
    · rintro rfl rfl
      rw [decomposes_iff.mp h, pieces_nil] at hlast
      exact hlast rfl
    · rw [List.getLast?_cons, hps]
      rfl

theorem pieces_append_dollar (h : Even (dollars cs)) :
    pieces (cs ++ '$' :: rest) = pieces cs ++ pieces ('$' :: rest) := by
  have hlast : (pieces cs).getLast? ≠ some (.name []) := fun hlast =>
    Nat.not_even_iff_odd.mpr ((decomposes_pieces cs).odd_dollars hlast) h
  exact (decomposes_iff.mp ((decomposes_pieces cs).append_dollar hlast (decomposes_pieces _))).symm

/-! ### The text of a template -/

theorem Piece.expands_render (p : Piece) (m : Pattern.Match) : p.Expands m (p.render m) := by
  cases p with
  | text cs => exact .text cs
  | whole => exact .whole
  | name cs =>
    simp only [Piece.render]
    split
    · next node hnode =>
      split
      · next hempty =>
        obtain rfl : cs = [] := by simpa using hempty
        exact .unbound (.inl rfl)
      · next hne =>
        exact .capture (by simpa using hne) hnode
    · next hnone =>
      have htext : "$" ++ String.ofList cs = String.ofList ('$' :: cs) := by
        simp
      rw [htext]
      exact .unbound (.inr hnone)

theorem Piece.render_capture {name : String} {node : Node} (hname : name ≠ "")
    (h : m.get? name = some node) : (Piece.name name.toList).render m = node.text := by
  simp [Piece.render, h, hname]

end Template

open Template

/-- A name between two texts is replaced alone. -/
theorem renderTemplate_append {m : Pattern.Match} {name : String} {node : Node}
    (hname : Text.IsWord name) (h : m.get? name = some node) {front back : String}
    (hfront : Even (dollars front.toList))
    (hback : ∀ c ∈ back.toList.head?, Text.continuesWord c = false) :
    renderTemplate (front ++ "$" ++ name ++ back) m =
      renderTemplate front m ++ node.text ++ renderTemplate back m := by
  have hcs := Text.continuesWord_of_isWord hname
  have hne : name ≠ "" := by
    rintro rfl
    cases hname
  have hends : (Piece.name name.toList).EndsAt back.toList :=
    ⟨hcs, hback, fun hempty => absurd (String.toList_eq_nil_iff.mp hempty) hne⟩
  have hpieces : pieces (front ++ "$" ++ name ++ back).toList =
      pieces front.toList ++ .name name.toList :: pieces back.toList := by
    have hitem := pieces_written hends
    rw [Piece.written, List.cons_append] at hitem
    rw [← hitem, ← pieces_append_dollar hfront]
    simp
  rw [renderTemplate, hpieces, List.map_append, List.map_cons, String.join_append, String.join_cons,
    Piece.render_capture hne h, String.append_assoc]
  rfl

/-- What a token reads as the name of a wildcard is a word. -/
theorem Token.isWord_of_wildcard {wildcards : Bool} {src : String} {ts : List Token} {t : Token}
    (h : tokenize wildcards src = .ok ts) (ht : t ∈ ts) {name : String} {any : Bool}
    (hk : t.kind = .wildcard name any) : Text.IsWord name := by
  obtain ⟨cs, text, rest, hnext⟩ := next?_of_tokenize h ht (by simp [hk])
  rw [hk] at hnext
  exact (Piece.form_of_next? hnext).isWord

/-- The names of a pattern are words. -/
theorem Pattern.isWord_of_mem_captureNames {src : String} {tree : Node} (h : tree? src = some tree)
    {name : String} (hname : name ∈ tree.captureNames) : Text.IsWord name := by
  have htree := localIn_of_tree? (I := fun kind => ∀ name any, kind = .wildcard name any → Text.IsWord name)
    (fun ts hts t ht name any => Token.isWord_of_wildcard hts ht) h
  obtain ⟨n, hn, hcapture⟩ := List.mem_filterMap.mp hname
  obtain ⟨kind, hkind, any, hwritten⟩ := (htree n hn).written (Node.word?_eq_wildcard.mpr hcapture)
  exact hkind name any hwritten

/-- A template is one substitution from left to right. It can be taken apart in just one way, whatever
the match is, and its text is made of what the parts stand for, in order. Every name of a pattern can be
said in a template and stands for what a match binds to it. -/
theorem renderTemplate_substitutes :
    (∀ template : String, ∃ ps, (∀ qs, Decomposes template.toList qs ↔ qs = ps) ∧
      ∀ m, ∃ texts, List.Forall₂ (Piece.Expands m) ps texts ∧
        renderTemplate template m = String.join texts) ∧
    ∀ src p tree, Pattern.compile src = .ok p → Pattern.tree? src = some tree →
      ∀ m, p.Gives m → ∀ name ∈ tree.captureNames, ∃ node, m.get? name = some node ∧
        ∀ front back : String, Even (dollars front.toList) →
          (∀ c ∈ back.toList.head?, Text.continuesWord c = false) →
          renderTemplate (front ++ "$" ++ name ++ back) m =
            renderTemplate front m ++ node.text ++ renderTemplate back m := by
  refine ⟨fun template => ⟨pieces template.toList, fun qs => decomposes_iff, fun m => ?_⟩, ?_⟩
  · refine ⟨_, ?_, rfl⟩
    rw [List.forall₂_map_right_iff, List.forall₂_same]
    exact fun p _ => p.expands_render m
  · intro src p tree hp htree m hm name hname
    obtain ⟨tree', htree', hencodes⟩ := Pattern.exists_tree_of_compile hp
    obtain rfl : tree = tree' := Option.some.inj (htree.symm.trans htree')
    have hbound : (m.get? name).isSome := by
      rwa [Pattern.isSome_get?, hencodes.contained.boundNames_of_gives hm,
        hencodes.mem_captureNames htree]
    obtain ⟨node, hnode⟩ := Option.isSome_iff_exists.mp hbound
    exact ⟨node, hnode, fun front back =>
      renderTemplate_append (Pattern.isWord_of_mem_captureNames htree hname) hnode⟩

/-- What `x` is bound to has the name of another wildcard in it, which is left alone. -/
theorem quotedName_kept :
    ∃ p tree m node, Pattern.compile "f($x, $*ys)" = .ok p ∧
      Pattern.tree? "f($x, $*ys)" = some tree ∧ p.Gives m ∧ "x" ∈ tree.captureNames ∧
      m.get? "x" = some node ∧
      renderTemplate ("$$" ++ "$" ++ "x" ++ "$") m =
        renderTemplate "$$" m ++ node.text ++ renderTemplate "$" m ∧
      renderTemplate "$$$x$" m = "f(\"$ys\", a, b)" ++ "\"$ys\"" ++ "$" := by
  have hrun : ((Pattern.compile "f($x, $*ys)").toOption.bind fun p =>
      (Pattern.tree? "f($x, $*ys)").bind fun tree =>
      (Expr.parseList false "f(\"$ys\", a, b)").toOption.bind fun xs =>
      (p.matchNode? (Pattern.exprTree xs)).map fun m => (tree.captureNames, renderTemplate "$$$x$" m)) =
      some (["x", "ys"], "f(\"$ys\", a, b)" ++ "\"$ys\"" ++ "$") := by decide +kernel
  simp only [Option.bind_eq_some_iff, Option.map_eq_some_iff, except_toOption_eq_some,
    Prod.mk.injEq] at hrun
  obtain ⟨p, hp, tree, htree, xs, -, m, hm, hnames, htext⟩ := hrun
  have hx : "x" ∈ tree.captureNames := by
    rw [hnames]
    decide
  obtain ⟨node, hnode, hrender⟩ :=
    renderTemplate_substitutes.2 _ p tree hp htree m (.node _ hm) "x" hx
  have hback : ∀ c ∈ "$".toList.head?, Text.continuesWord c = false := by
    rintro c hc
    obtain rfl : '$' = c := Option.some.inj hc
    decide +kernel
  exact ⟨p, tree, m, node, hp, htree, .node _ hm, hx, hnode, hrender "$$" "$" (by decide) hback, htext⟩

end GoSift
